import Openlia.Operator.Skills.RebaseReference

/-! # Rebasing an installed skill

An installed skill is replaced by the merge of its directory with the new base. A
rebase that finds the bases equal or reports conflicts leaves the directory alone;
any other puts the merged directory in its place, and with it goes every entry that
the merge does not write.
-/

namespace Openlia.Skills

open Lib

structure RebaseResult where
  Status : String
  AutoForked : Bool
  Conflicts : List String

/-- The result and the skill directory after the rebase. `before` is the error of the
checks that come first, `after` that of replacing the directories. Without a recorded base
the installed directory is the base. -/
def RebaseInstalledSkill (sha256 : Bytes → String) (skillID : String) (before after : Option String)
    (installed base : Option Dir) (newBase : Dir) : Except String (RebaseResult × Dir) :=
  match before with
  | some e => .error e
  | none =>
      match installed with
      | none => .error ("skill " ++ skillID ++ " is not installed")
      | some current =>
          let oldBase := base.getD current
          let oldBaseHash := DirectorySHA256 sha256 oldBase
          let autoForked := decide (DirectorySHA256 sha256 current ≠ oldBaseHash)
          if oldBaseHash = DirectorySHA256 sha256 newBase then
            .ok (⟨"unchanged", autoForked, []⟩, current)
          else match RebaseDirectoryThreeWay oldBase current newBase sha256 with
            | .error e => .error e
            | .ok (_, conflicts, merged) =>
                if conflicts ≠ [] then .ok (⟨"conflict", autoForked, conflicts⟩, current)
                else match after with
                  | some e => .error e
                  | none =>
                      let status := if autoForked then "merged" else "fast-forward"
                      .ok (⟨status, autoForked, []⟩, merged)

/-- An entry of the installed skill at a path where the bases are the same is there after
every rebase that succeeds. -/
def KeepsUserEntries (sha256 : Bytes → String) (current : Dir) (base : Option Dir)
    (newBase : Dir) : Prop :=
  ∀ skillID before after result directory,
    RebaseInstalledSkill sha256 skillID before after (some current) base newBase =
        .ok (result, directory) →
      ∀ p n, current.node p = some n → (base.getD current).node p = newBase.node p →
        directory.node p = some n

/-! ## When a merge stops -/

section Merge

variable {old cur new t : Dir} {conflicts : List String}

/-- A file that the merge cannot decide. -/
def Undecided (old cur new : Dir) : Prop :=
  ∃ p, Collected p ∧ (referenceMerge old cur new p = none ∨
    (fileAt cur p = none ∧ fileAt new p = none ∧ fileAt old p ≠ none))

/-- A merged file that lies above another one. -/
def Blocked (old cur new : Dir) : Prop :=
  ∃ p q c d, Collected q ∧ referenceMerge old cur new p = some (some c) ∧
    referenceMerge old cur new q = some (some d) ∧ p <+: q ∧ p ≠ q

/-- Where the bases agree: the files lie outside caches and dependencies, nothing is a
link, and each directory has a merged file below it. -/
structure Retained (old cur new : Dir) : Prop where
  file : ∀ p c, fileAt cur p = some c → old.node p = new.node p → Collected p
  link : ∀ p n, cur.node p = some n → old.node p = new.node p → n = .dir ∨ (regular n).isSome
  dir : ∀ p, cur.node p = some .dir → old.node p = new.node p →
    p = [] ∨ ∃ q c, Collected q ∧ referenceMerge old cur new q = some (some c) ∧
      p <+: q ∧ p ≠ q

theorem Collected.above {p q : Path} (h : Collected q) (hp : p <+: q) : Collected p := by
  intro c hc
  obtain ⟨r, rfl⟩ := hp
  refine h c ?_
  by_cases hr : r = []
  · simpa [hr] using hc
  · rw [List.dropLast_append_of_ne_nil hr]
    exact List.mem_append_left _ (List.dropLast_subset p hc)

/-- What the run writes is what the reference has, where it looks. -/
theorem outcome_eq_file {p : Path} {c : Bytes} : outcome old cur new p = some (some c) ↔
    Collected p ∧ referenceMerge old cur new p = some (some c) := by
  by_cases hp : Collected p
  · rw [and_iff_right hp]
    by_cases hd : fileAt cur p = none → fileAt new p = none → fileAt old p = none
    · rw [outcome_of_collected hp hd]
    · simp only [Classical.not_imp] at hd
      obtain ⟨hc, hn, ho⟩ := hd
      have habsent : referenceMerge old cur new p = some none :=
        referenceMerge_absent.mpr (.inl ⟨hc, .inl hn⟩)
      rw [outcome_deleted hp hc hn ho, habsent]
      simp
  · rw [outcome_of_not_collected hp]
    exact ⟨nofun, fun h => absurd h.1 hp⟩

theorem outcome_eq_none : (∃ p, outcome old cur new p = none) ↔ Undecided old cur new := by
  refine exists_congr fun p => ?_
  by_cases hp : Collected p
  · rw [and_iff_right hp]
    by_cases hd : fileAt cur p = none → fileAt new p = none → fileAt old p = none
    · rw [outcome_of_collected hp hd]
      exact ⟨.inl, fun h => h.elim id fun ⟨hc, hn, ho⟩ => absurd (hd hc hn) ho⟩
    · simp only [Classical.not_imp] at hd
      obtain ⟨hc, hn, ho⟩ := hd
      exact ⟨fun _ => .inr ⟨hc, hn, ho⟩, fun _ => outcome_deleted hp hc hn ho⟩
  · rw [outcome_of_not_collected hp]
    exact ⟨nofun, fun h => absurd h.1 hp⟩

theorem Outcomes.not_blocked (h : Outcomes old cur new t conflicts) : ¬ Blocked old cur new := by
  rintro ⟨p, q, c, d, hq, hc, hd, habove, hne⟩
  have hfile : fileAt t p = some c := by
    rw [h.file, outcome_eq_file.mpr ⟨hq.above habove, hc⟩]
    rfl
  have hdir : t.node p = some .dir :=
    (h.dir p).mpr (.inr ⟨q, by rw [outcome_eq_file.mpr ⟨hq, hd⟩]; exact nofun, habove, hne⟩)
  cases hfile.symm.trans (fileAt_of_dir hdir)

theorem Outcomes.conflicts_eq_nil (h : Outcomes old cur new t conflicts) :
    conflicts = [] ↔ ¬ Undecided old cur new := by
  rw [← outcome_eq_none, not_exists]
  constructor
  · rintro rfl p hp
    cases (h.conflict p).mpr hp
  · intro hall
    refine List.eq_nil_iff_forall_not_mem.mpr fun s hs => ?_
    obtain ⟨p, rfl⟩ := h.named s hs
    exact hall p ((h.conflict p).mp hs)

theorem exists_outcomes (h : ¬ Blocked old cur new) :
    ∃ t conflicts,
      rebasePaths old cur new .empty [] (rebasedPaths old cur new) = .ok (t, conflicts) := by
  refine exists_run fun p q c d hc hd habove => ?_
  by_contra hne
  exact h ⟨p, q, c, d, (outcome_eq_file.mp hd).1, (outcome_eq_file.mp hc).2,
    (outcome_eq_file.mp hd).2, habove, hne⟩

/-- The entries of the merged directory. -/
theorem Outcomes.keeps_iff (h : Outcomes old cur new t conflicts) :
    (∀ p n, cur.node p = some n → old.node p = new.node p → t.node p = some n) ↔
      Retained old cur new := by
  constructor
  · intro hk
    refine ⟨fun p c hc hsame => ?_, fun p n hn hsame => ?_, fun p hd hsame => ?_⟩
    · by_contra hp
      have hfile := fileAt_eq_some.mpr (hk p _ (fileAt_eq_some.mp hc) hsame)
      rw [h.file, outcome_of_not_collected hp] at hfile
      cases hfile
    · rcases h.plain p n (hk p n hn hsame) with rfl | ⟨c, rfl⟩
      · exact .inl rfl
      · exact .inr rfl
    · refine ((h.dir p).mp (hk p _ hd hsame)).imp id ?_
      rintro ⟨q, hq, habove⟩
      obtain ⟨c, hc⟩ := Option.ne_none_iff_exists'.mp hq
      have hout := outcome_eq_file.mp (Option.join_eq_some_iff.mp hc)
      exact ⟨q, c, hout.1, hout.2, habove⟩
  · intro hk p n hn hsame
    rcases hk.link p n hn hsame with rfl | hreg
    · refine (h.dir p).mpr ((hk.dir p hn hsame).imp id ?_)
      rintro ⟨q, c, hq, hc, habove⟩
      exact ⟨q, by rw [outcome_eq_file.mpr ⟨hq, hc⟩]; exact nofun, habove⟩
    · obtain ⟨c, hc⟩ := Option.isSome_iff_exists.mp hreg
      obtain rfl := regular_eq_some.mp hc
      have hcur := fileAt_eq_some.mpr hn
      have hbases : fileAt new p = fileAt old p := by rw [fileAt, fileAt, hsame]
      refine fileAt_eq_some.mp ?_
      rw [h.file, outcome_eq_file.mpr ⟨hk.file p c hcur hsame, ?_⟩]
      · rfl
      · rw [referenceMerge, hbases, hcur]
        exact ThreeWay.file_of_right _ _ _

end Merge

/-! ## When the entries are kept -/

section Keeps

variable {sha256 : Bytes → String} {current newBase : Dir} {base : Option Dir}

/-- The bases hash alike; or a shortcut is taken and the new base has every entry in
question; or the merge stops; or it keeps them. -/
def KeepsWhen (sha256 : Bytes → String) (current : Dir) (base : Option Dir) (newBase : Dir) :
    Prop :=
  let old := base.getD current
  if DirectorySHA256 sha256 old = DirectorySHA256 sha256 newBase then True
  else if DirectorySHA256 sha256 current = DirectorySHA256 sha256 old ∨
      DirectorySHA256 sha256 current = DirectorySHA256 sha256 newBase then
    ∀ p n, current.node p = some n → old.node p = newBase.node p → newBase.node p = some n
  else Undecided old current newBase ∨ Blocked old current newBase ∨
    Retained old current newBase

theorem keeps_of_when (h : KeepsWhen sha256 current base newBase) :
    KeepsUserEntries sha256 current base newBase := by
  intro skillID before after result directory hrun p n hn hsame
  unfold RebaseInstalledSkill at hrun
  split at hrun
  · cases hrun
  simp only at hrun
  split at hrun
  · cases hrun
    exact hn
  rename_i hbases
  split at hrun
  · cases hrun
  rename_i forked conflicts merged hmerge
  split at hrun
  · cases hrun
    exact hn
  rename_i hconf
  split at hrun
  · cases hrun
  cases hrun
  rw [KeepsWhen, if_neg hbases] at h
  unfold RebaseDirectoryThreeWay at hmerge
  simp only at hmerge
  by_cases hfast : DirectorySHA256 sha256 current = DirectorySHA256 sha256 (base.getD current) ∨
      DirectorySHA256 sha256 current = DirectorySHA256 sha256 newBase
  · rw [if_pos hfast] at hmerge h
    cases hmerge
    exact h p n hn hsame
  · rw [if_neg hfast] at hmerge h
    split at hmerge
    · cases hmerge
    · rename_i t conflicts' hpaths
      cases hmerge
      have hout := outcomes_of_run hpaths
      rcases h with h | h | h
      · exact absurd h (hout.conflicts_eq_nil.mp (not_not.mp hconf))
      · exact absurd h hout.not_blocked
      · exact hout.keeps_iff.mpr h p n hn hsame

/-- A merge without conflicts takes the directory's place. -/
theorem exists_merged {forked : Bool} {merged : Dir}
    (hbases : DirectorySHA256 sha256 (base.getD current) ≠ DirectorySHA256 sha256 newBase)
    (hmerge : RebaseDirectoryThreeWay (base.getD current) current newBase sha256 =
      .ok (forked, [], merged)) :
    ∃ result, RebaseInstalledSkill sha256 "" none none (some current) base newBase =
      .ok (result, merged) := by
  unfold RebaseInstalledSkill
  simp only [if_neg hbases, hmerge, ne_eq, not_true_eq_false, if_false]
  exact ⟨_, rfl⟩

theorem when_of_keeps (h : KeepsUserEntries sha256 current base newBase) :
    KeepsWhen sha256 current base newBase := by
  unfold KeepsWhen
  by_cases hbases : DirectorySHA256 sha256 (base.getD current) = DirectorySHA256 sha256 newBase
  · rw [if_pos hbases]
    trivial
  rw [if_neg hbases]
  by_cases hfast : DirectorySHA256 sha256 current = DirectorySHA256 sha256 (base.getD current) ∨
      DirectorySHA256 sha256 current = DirectorySHA256 sha256 newBase
  · rw [if_pos hfast]
    obtain ⟨result, hrun⟩ := exists_merged hbases (if_pos hfast)
    exact h "" none none result newBase hrun
  · rw [if_neg hfast]
    by_cases hundecided : Undecided (base.getD current) current newBase
    · exact .inl hundecided
    by_cases hblocked : Blocked (base.getD current) current newBase
    · exact .inr (.inl hblocked)
    obtain ⟨t, conflicts, hpaths⟩ := exists_outcomes hblocked
    have hout := outcomes_of_run hpaths
    obtain rfl := hout.conflicts_eq_nil.mpr hundecided
    obtain ⟨result, hrun⟩ := exists_merged hbases
      ((if_neg hfast).trans (by rw [hpaths]))
    exact .inr (.inr (hout.keeps_iff.mp (h "" none none result t hrun)))

/-- A rebase loses no entry exactly when the bases hash alike, when a shortcut finds each
entry in the new base, or when the merge stops or keeps the entries. -/
theorem rebase_keeps_user_entries (sha256 : Bytes → String) (current : Dir) (base : Option Dir)
    (newBase : Dir) : KeepsUserEntries sha256 current base newBase ↔
      KeepsWhen sha256 current base newBase :=
  ⟨when_of_keeps, keeps_of_when⟩

end Keeps

/-! ## A link in the installed skill -/

section Linked

theorem fileAt_put {t : Dir} {p : Path} {n : Node Leaf} (h : (t.put p n).isOk = true) (q : Path) :
    fileAt (put t p n) q = if q = p then regular n else fileAt t q := by
  rw [fileAt, node_put h]
  split <;> rfl

def oldSkill : Dir := put .empty [skillMd] (regularFile "x")

/-- The user added a link. -/
def linkedSkill : Dir := put oldSkill [notes] (.file (.link "/srv/notes"))

theorem digested_oldSkill : digested oldSkill = chunk oldSkill [skillMd] := by
  rw [digested, hashedPaths, sortedPaths_eq (l := [[skillMd]]) (by decide)
    (by decide)]
  decide

theorem digested_linkedSkill :
    digested linkedSkill = chunk linkedSkill [skillMd] ++ chunk linkedSkill [notes] := by
  rw [digested, hashedPaths, sortedPaths_eq (l := [[skillMd], [notes]]) (by decide)
    (by decide)]
  decide

theorem fileAt_oldSkill (p : Path) :
    fileAt oldSkill p = if p = [skillMd] then some (text "x") else none := by
  rw [oldSkill, fileAt_put (by decide), fileAt_empty]
  rfl

theorem fileAt_addedSkill (p : Path) :
    fileAt addedSkill p = if p = [skillMd] then some (text "y") else none := by
  rw [addedSkill, fileAt_put (by decide), fileAt_empty]
  rfl

theorem fileAt_linkedSkill (p : Path) : fileAt linkedSkill p = fileAt oldSkill p := by
  rw [linkedSkill, fileAt_put (by decide)]
  split
  · rename_i hp
    rw [hp, fileAt_oldSkill]
    rfl
  · rfl

theorem referenceMerge_linkedSkill (p : Path) :
    referenceMerge oldSkill linkedSkill addedSkill p = some (fileAt addedSkill p) := by
  rw [referenceMerge, fileAt_linkedSkill]
  exact ThreeWay.file_of_left _ _ _

/-- The merge takes the new `SKILL.md` and drops the link that the user added. -/
theorem rebase_drops_link :
    ¬ KeepsUserEntries checksumText linkedSkill (some oldSkill) addedSkill := by
  intro h
  have hlink : linkedSkill.node [notes] = some (.file (.link "/srv/notes")) := by decide
  have hwhen := when_of_keeps h
  rw [KeepsWhen, Option.getD_some, if_neg, if_neg] at hwhen
  · rcases hwhen with ⟨p, -, hp⟩ | ⟨p, q, c, d, -, hc, hd, -, hne⟩ | hretained
    · rw [referenceMerge_linkedSkill, fileAt_linkedSkill] at hp
      rcases hp with hp | ⟨hold, -, hold'⟩
      · cases hp
      · exact hold' hold
    · have hmd : ∀ r e, referenceMerge oldSkill linkedSkill addedSkill r = some (some e) →
          r = [skillMd] := by
        intro r e hr
        rw [referenceMerge_linkedSkill, fileAt_addedSkill] at hr
        by_contra hr'
        rw [if_neg hr'] at hr
        cases hr
      exact hne ((hmd p c hc).trans (hmd q d hd).symm)
    · rcases hretained.link [notes] _ hlink (by decide) with hn | hn
      · cases hn
      · cases hn
  · rw [DirectorySHA256, DirectorySHA256, DirectorySHA256, digested_linkedSkill,
      digested_oldSkill, digested_addedSkill]
    decide
  · rw [DirectorySHA256, DirectorySHA256, digested_oldSkill, digested_addedSkill]
    decide

end Linked

end Openlia.Skills
