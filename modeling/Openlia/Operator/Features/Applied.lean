import Openlia.Lib.Results
import Openlia.Operator.Features.Rebase

/-! # A rebase and the merge of each path

Seeding fills the gaps of the workspace, and nothing else. So a path ends with the
merged file where the merge could write one, and otherwise with what the workspace
has, or, where it has nothing, with what the first package brings.
-/

namespace Openlia.Features

open Lib Skills

/-! ## What fills a gap -/

/-- What seeding the file at `p` puts at an empty path. -/
def seeded (tree : Dir) (p q : Path) : Option (Node Leaf) :=
  if q <+: p.dropLast then some .dir
  else if q = p ∧ isGitkeep p = false then tree.node p
  else none

/-- What installing a package puts at an empty path. -/
def Package.brings (pkg : Package) (q : Path) : Option (Node Leaf) :=
  (pkg.workspace.bind fun tree => (walkedFiles tree.1).findSome? (seeded tree.1 · q)).or
    (pkg.domains.findSome? fun d => if q <+: d then some .dir else none)

section Seeding

variable {t t' tree : Dir} {p q : Path} {pkg : Package} {required : List Package}

theorem mem_walkedFiles : p ∈ walkedFiles t ↔ fileAt t p ≠ none := by
  rw [walkedFiles, List.mem_filter, Option.isSome_iff_ne_none, and_iff_right_iff_imp]
  intro h
  obtain ⟨c, hc⟩ := Option.ne_none_iff_exists'.mp h
  have hnode := fileAt_eq_some.mp hc
  have hp : p ≠ [] := by
    rintro rfl
    cases hnode
  rw [walkedPaths, List.mem_mergeSort, List.mem_filter, decide_eq_true_eq]
  refine ⟨?_, hp⟩
  rw [Lib.Tree.node, nodeAt, if_neg hp] at hnode
  exact AList.mem_keys.mp (AList.lookup_isSome.mp (by rw [hnode]; rfl))

theorem EnsureDir_fills (h : EnsureDir t p = .ok t') (q : Path) :
    t'.node q = (t.node q).or (if q <+: p then some .dir else none) := by
  unfold EnsureDir at h
  split at h
  · cases h
  · rename_i t₁ hmk
    cases h
    exact Tree.mkdirAll_fills hmk q

theorem EnsureDir_above (h : EnsureDir t p = .ok t') (hq : q <+: p) : t'.node q = some .dir := by
  unfold EnsureDir at h
  split at h
  · cases h
  · rename_i t₁ hmk
    cases h
    have hdir := (Tree.mkdirAll_node hmk).1
    by_cases hqp : q = p
    · rw [hqp, hdir]
    · exact Tree.node_of_above (by rw [hdir]; exact Option.some_ne_none _) hq hqp

theorem copyOnce_fills {data : Bytes} (h : copyOnce t p data = .ok t') (q : Path) :
    t'.node q = (t.node q).or (if q = p then some (.file (.regular data)) else none) := by
  unfold copyOnce at h
  split at h
  · rename_i n hn
    cases h
    split
    · rename_i hq
      rw [hq, Tree.lstat_eq_ok.mp hn, Option.some_or]
    · rw [Option.or_none]
  · rename_i hn
    have hnone : t.node p = none := by
      by_contra hsome
      obtain ⟨n, hsome⟩ := Option.ne_none_iff_exists'.mp hsome
      rw [Tree.lstat_eq_ok.mpr hsome] at hn
      cases hn
    split at h
    · cases h
    · rename_i t₁ hput
      cases h
      rw [Tree.put_node hput]
      split
      · rename_i hq
        rw [hq, hnone, Option.none_or]
      · rw [Option.or_none]
  · cases h

theorem seedFile_fills (hp : fileAt tree p ≠ none) (h : seedFile tree t p = .ok t') (q : Path) :
    t'.node q = (t.node q).or (seeded tree p q) := by
  obtain ⟨data, hdata⟩ := Option.ne_none_iff_exists'.mp hp
  have hnode := fileAt_eq_some.mp hdata
  have hnil : p ≠ [] := by
    rintro rfl
    cases hnode
  unfold seedFile at h
  split at h
  · cases h
  · rename_i t₁ hensure
    have hmade := EnsureDir_fills hensure q
    unfold seeded
    split at h
    · rename_i hkeep
      cases h
      rw [hmade, hkeep]
      simp
    · rename_i hkeep
      rw [hdata] at h
      rw [copyOnce_fills h q, hmade, Option.or_assoc, hnode, Bool.eq_false_iff.mpr hkeep]
      by_cases hq : q <+: p.dropLast
      · rw [if_pos hq, if_pos hq, Option.some_or]
      · rw [if_neg hq, if_neg hq, Option.none_or]
        simp

theorem seedFeatureWorkspaceFiles_fills (h : seedFeatureWorkspaceFiles tree t = .ok t')
    (q : Path) : t'.node q = (t.node q).or ((walkedFiles tree).findSome? (seeded tree · q)) :=
  foldlM_fills Lib.Tree.node
    (fun _ hp _ _ hstep => seedFile_fills (mem_walkedFiles.mp hp) hstep) h q

theorem seedPackage_fills (h : seedPackage t pkg = .ok t') (q : Path) :
    t'.node q = (t.node q).or
      (pkg.workspace.bind fun tree => (walkedFiles tree.1).findSome? (seeded tree.1 · q)) := by
  unfold seedPackage at h
  cases hw : pkg.workspace with
  | none =>
      rw [hw] at h
      cases h
      rw [Option.bind_none, Option.or_none]
  | some tree =>
      rw [hw] at h
      dsimp only at h
      split at h
      · cases h
      · rename_i t₁ hseed
        cases h
        exact seedFeatureWorkspaceFiles_fills hseed q

/-- The steps of an installation. -/
theorem installPackage_cases (h : installPackage t pkg = .ok t') :
    ∃ t₁, seedPackage t pkg = .ok t₁ ∧ pkg.domains.foldlM EnsureDir t₁ = .ok t' := by
  unfold installPackage at h
  split at h
  · cases h
  · rename_i t₁ hseed
    split at h
    · cases h
    · rename_i t₂ hdomains
      split at h
      · cases h
      · cases h
        exact ⟨t₁, hseed, hdomains⟩

theorem installPackage_fills (h : installPackage t pkg = .ok t') (q : Path) :
    t'.node q = (t.node q).or (pkg.brings q) := by
  obtain ⟨t₁, hseed, hdomains⟩ := installPackage_cases h
  rw [foldlM_fills Lib.Tree.node (fun _ _ _ _ hstep => EnsureDir_fills hstep) hdomains q,
    seedPackage_fills hseed q, Option.or_assoc, Package.brings]

/-- An installation only fills gaps. -/
theorem installFeatureFromDir_fills (h : installFeatureFromDir required pkg t = .ok t')
    (q : Path) :
    t'.node q = (t.node q).or ((required ++ [pkg]).findSome? (·.brings q)) :=
  foldlM_fills Lib.Tree.node (fun _ _ _ _ hstep => installPackage_fills hstep) h q

/-- What lies above a file that an installation seeds is a directory. -/
theorem installFeatureFromDir_above {new : PlainDir} {n : Node Leaf}
    (h : installFeatureFromDir required pkg t = .ok t') (hnew : pkg.workspace = some new)
    (hp : fileAt new.1 p ≠ none) (hq : q <+: p.dropLast) (hn : t.node q = some n) : n = .dir := by
  obtain ⟨before, s₁, s₂, hbefore, -, hinstall⟩ :=
    foldlM_ok_of_mem h (List.mem_append_right required List.mem_cons_self)
  have h₁ := foldlM_fills Lib.Tree.node
    (fun _ _ _ _ hstep => installPackage_fills hstep) hbefore q
  obtain ⟨t₁, hseed, -⟩ := installPackage_cases hinstall
  rw [seedPackage, hnew] at hseed
  dsimp only at hseed
  split at hseed
  · cases hseed
  · rename_i t₂ hfiles
    obtain ⟨passed, r₁, r₂, hrun, hsub, hfile⟩ := foldlM_ok_of_mem hfiles (mem_walkedFiles.mpr hp)
    have h₂ := foldlM_fills Lib.Tree.node
      (fun _ hx _ _ hstep => seedFile_fills (mem_walkedFiles.mp (hsub hx)) hstep) hrun q
    rw [hn, Option.some_or] at h₁
    rw [h₁, Option.some_or] at h₂
    -- the walk makes the directories above the file first
    unfold seedFile at hfile
    split at hfile
    · cases hfile
    · rename_i r₃ hensure
      have h₃ := EnsureDir_fills hensure q
      rw [h₂, Option.some_or, EnsureDir_above hensure hq] at h₃
      exact (Option.some.inj h₃).symm

end Seeding

/-! ## Writing the merged files -/

/-- A file of one of the bases. -/
def Owned (old new : Dir) (p : Path) : Prop := fileAt old p ≠ none ∨ fileAt new p ≠ none

section Writing

variable {old new ws merged t : Dir} {done rest : List Path} {p q : Path}

theorem owned_iff : Owned old new p ↔ p ∈ walkedFiles old ++ walkedFiles new := by
  rw [List.mem_append, mem_walkedFiles, mem_walkedFiles, Owned]

theorem ne_nil_of_file (h : fileAt t p ≠ none) : p ≠ [] := by
  rintro rfl
  exact h rfl

theorem dir_above_file (h : fileAt t p ≠ none) (hq : q <+: p) (hne : q ≠ p) :
    t.node q = some .dir := by
  obtain ⟨c, hc⟩ := Option.ne_none_iff_exists'.mp h
  exact Tree.node_of_above (by rw [fileAt_eq_some.mp hc]; exact Option.some_ne_none _) hq hne

/-- A file of `laid` can be written where no directory and no file of the base is in the way. -/
theorem exists_overlaid_write {base laid : Dir} {data : Bytes}
    (h : Overlaid base (fileAt laid) done t) (hp : fileAt laid p ≠ none)
    (hfree : base.node p ≠ some .dir) (habove : ∀ q, q <+: p → q ≠ p → fileAt base q = none) :
    ∃ t', Wrote t p data t' := by
  refine exists_wrote (ne_nil_of_file hp) (fun hd => ?_) fun q hq hne => ?_
  · rcases (h.dir p).mp hd with hd | ⟨a, -, ⟨-, ha⟩, hpa, hne⟩
    · exact hfree hd
    · exact hp (fileAt_of_dir (dir_above_file ha hpa hne))
  · by_cases hd : t.node q = some .dir
    · exact .inr hd
    · refine .inl (h.plain.node_eq_none ?_ hd)
      rw [h.file]
      split
      · exact fileAt_of_dir (dir_above_file hp hq hne)
      · exact habove q hq hne

/-- The files of one tree can be copied to an empty one in any order. -/
theorem copyCurrent_overlaid (h : Overlaid .empty (fileAt ws) done t) :
    Overlaid .empty (fileAt ws) (done ++ rest) (copyCurrent ws t rest) := by
  induction rest generalizing done t with
  | nil =>
      rw [List.append_nil]
      exact h
  | cons p rest ih =>
      rw [List.append_cons]
      unfold copyCurrent
      cases hp : fileAt ws p with
      | none => exact ih (h.skip ((fileAt_empty p).trans hp.symm))
      | some data =>
          have hfile : fileAt ws p ≠ none := by
            rw [hp]
            exact Option.some_ne_none _
          have hnil := ne_nil_of_file hfile
          have hfree : (.empty : Dir).node p ≠ some .dir := by
            rw [node_empty, if_neg hnil]
            exact nofun
          obtain ⟨t₁, hw⟩ : ∃ t₁, Wrote t p data t₁ :=
            exists_overlaid_write h hfile hfree fun q _ _ => fileAt_empty q
          dsimp only
          rw [writeMergedFile_eq_ok.mpr hw]
          exact ih (h.write hnil hp hw)

theorem fileAt_tmpCurrent (p : Path) : fileAt (tmpCurrent old new ws) p =
    if p ∈ walkedFiles old ++ walkedFiles new then fileAt ws p else none := by
  have h := (@copyCurrent_overlaid ws .empty [] (walkedFiles old ++ walkedFiles new)
    (Overlaid.start (fileAt ws) plain_empty)).file p
  rw [fileAt_empty] at h
  exact h

theorem fileAt_tmpCurrent_of_owned (h : Owned old new p) :
    fileAt (tmpCurrent old new ws) p = fileAt ws p := by
  rw [fileAt_tmpCurrent, if_pos (owned_iff.mp h)]

/-- Only merged files are written. -/
theorem writeMerged_overlaid (h : Overlaid ws (fileAt merged) done t)
    (hdone : ∀ p ∈ done, fileAt merged p ≠ none) :
    ∃ done', (∀ p ∈ done', fileAt merged p ≠ none) ∧
      Overlaid ws (fileAt merged) done' (writeMerged merged t rest) := by
  induction rest generalizing done t with
  | nil => exact ⟨done, hdone, h⟩
  | cons p rest ih =>
      unfold writeMerged
      cases hp : fileAt merged p with
      | none => exact ih h hdone
      | some data =>
          dsimp only
          split
          · exact ⟨done, hdone, h⟩
          · rename_i t₁ hw
            have hfile : fileAt merged p ≠ none := by
              rw [hp]
              exact Option.some_ne_none _
            refine ih (h.write (ne_nil_of_file hfile) hp (writeMergedFile_eq_ok.mp hw)) ?_
            intro a ha
            rcases List.mem_append.mp ha with ha | ha
            · exact hdone a ha
            · rw [List.mem_singleton.mp ha]
              exact hfile

/-- All of them are written where no directory and no file of the workspace is in the way. -/
theorem writeMerged_all (hfree : ∀ p, fileAt merged p ≠ none → ws.node p ≠ some .dir)
    (habove : ∀ p q, fileAt merged p ≠ none → q <+: p → q ≠ p → fileAt ws q = none)
    (h : Overlaid ws (fileAt merged) done t)
    (hrest : ∀ p ∈ done ++ rest, fileAt merged p ≠ none) :
    Overlaid ws (fileAt merged) (done ++ rest) (writeMerged merged t rest) := by
  induction rest generalizing done t with
  | nil =>
      rw [List.append_nil]
      exact h
  | cons p rest ih =>
      have hfile : fileAt merged p ≠ none := hrest p (by simp)
      obtain ⟨data, hp⟩ := Option.ne_none_iff_exists'.mp hfile
      have hnil := ne_nil_of_file hfile
      rw [List.append_cons] at hrest ⊢
      unfold writeMerged
      rw [hp]
      obtain ⟨t₁, hw⟩ : ∃ t₁, Wrote t p data t₁ :=
        exists_overlaid_write h hfile (hfree p hfile) fun q => habove p q hfile
      dsimp only
      rw [writeMergedFile_eq_ok.mpr hw]
      exact ih (h.write hnil hp hw) hrest

end Writing

/-! ## The paths after a rebase -/

/-- What a path holds when nothing is merged: what is there, or what the first package brings. -/
def brought (ws : Dir) (packages : List Package) (p : Path) : Option Bytes :=
  ((ws.node p).or (packages.findSome? (·.brings p))).bind regular

section Installed

variable {ws merged t t' : Dir} {done : List Path} {packages : List Package} {p : Path}

theorem fileAt_of_fills {c : Bytes} {filled : Option (Node Leaf)}
    (h : t'.node p = (t.node p).or filled) (hp : fileAt t p = some c) : fileAt t' p = some c := by
  rw [fileAt_eq_some] at hp ⊢
  rw [h, hp, Option.some_or]

/-- A directory stays one. -/
theorem final_dir (hover : Overlaid ws (fileAt merged) done t)
    (hfills : t'.node p = (t.node p).or (packages.findSome? (·.brings p)))
    (hp : ws.node p = some .dir) : fileAt t' p = none := by
  rw [(hover.dir p).mpr (.inl hp), Option.some_or] at hfills
  exact fileAt_of_dir hfills

/-- A file stays one. -/
theorem overlaid_file (hover : Overlaid ws (fileAt merged) done t)
    (hdone : ∀ p ∈ done, fileAt merged p ≠ none) (hp : fileAt ws p ≠ none) :
    fileAt t p ≠ none := by
  rw [hover.file]
  split
  · rename_i hmem
    exact hdone p hmem
  · exact hp

theorem final_file (hover : Overlaid ws (fileAt merged) done t)
    (hdone : ∀ p ∈ done, fileAt merged p ≠ none)
    (hfills : t'.node p = (t.node p).or (packages.findSome? (·.brings p)))
    (hp : fileAt ws p ≠ none) : fileAt t' p ≠ none := by
  obtain ⟨c, hc⟩ := Option.ne_none_iff_exists'.mp (overlaid_file hover hdone hp)
  rw [fileAt_of_fills hfills hc]
  exact Option.some_ne_none c

/-- The merge leaves alone a path at which and below which it has no file. -/
theorem final_gap (hws : Plain ws) (hover : Overlaid ws (fileAt merged) done t)
    (hdone : ∀ p ∈ done, fileAt merged p ≠ none)
    (hfills : t'.node p = (t.node p).or (packages.findSome? (·.brings p)))
    (hp : fileAt merged p = none)
    (hbelow : ws.node p = none → ∀ q, fileAt merged q ≠ none → ¬ (p <+: q ∧ p ≠ q)) :
    fileAt t' p = brought ws packages p := by
  have hfile : fileAt t p = fileAt ws p := by
    rw [hover.file]
    split
    · rename_i hmem
      exact absurd hp (hdone p hmem)
    · rfl
  have hdir : t.node p = some .dir → ws.node p = some .dir := by
    intro hd
    rcases (hover.dir p).mp hd with hws' | ⟨q, -, ⟨-, hq⟩, habove⟩
    · exact hws'
    · by_contra hne
      have hnone : ws.node p = none :=
        hws.node_eq_none (hfile.symm.trans (fileAt_of_dir hd)) hne
      exact hbelow hnone q hq habove
  have hnode : t.node p = ws.node p :=
    node_eq_of_plain hover.plain hws hfile ⟨hdir, fun hd => (hover.dir p).mpr (.inl hd)⟩
  rw [fileAt, hfills, hnode, brought]

theorem brought_of_file {c : Bytes} (h : fileAt ws p = some c) :
    brought ws packages p = some c := by
  rw [brought, fileAt_eq_some.mp h, Option.some_or]
  rfl

theorem brought_of_dir (h : ws.node p = some .dir) : brought ws packages p = none := by
  rw [brought, h, Option.some_or]
  rfl

end Installed

/-! ## The condition -/

/-- The hashes say that the workspace has the files of one base. -/
def Shortcut (sha256 : Bytes → String) (old new ws : Dir) : Prop :=
  DirectorySHA256 sha256 (tmpCurrent old new ws) = DirectorySHA256 sha256 old ∨
    DirectorySHA256 sha256 (tmpCurrent old new ws) = DirectorySHA256 sha256 new

/-- A file of the new base lies below the path. -/
def Below (new : Dir) (p : Path) : Prop := ∃ q, fileAt new q ≠ none ∧ p <+: q ∧ p ≠ q

/-- Every path of the bases has what the merge of the path says. -/
def AppliesMerge (old new ws ws' : Dir) : Prop :=
  ∀ p, Owned old new p → referenceMerge old ws new p = some (fileAt ws' p)

/-- The merge of a path takes effect: a file is not in the place of a directory, and lies
outside dependencies and caches or is there anyway; a path that is to be empty is empty in the
workspace, and no package brings a file there. -/
def TakesEffect (sha256 : Bytes → String) (old new ws : Dir) (packages : List Package)
    (p : Path) : Prop :=
  (Shortcut sha256 old new ws → referenceMerge old ws new p = some (fileAt new p)) ∧
  match referenceMerge old ws new p with
  | none => False
  | some none => fileAt ws p = none ∧
      ((Shortcut sha256 old new ws ∧ Below new p) ∨ brought ws packages p = none)
  | some (some data) => ws.node p ≠ some .dir ∧
      (Shortcut sha256 old new ws ∨ Collected p ∨ brought ws packages p = some data)

section Run

variable {sha256 : Bytes → String} {before : Option String} {old new ws : PlainDir}
  {skills : List (Except String RebaseResult)} {required : List Package} {pkg : Package}
  {r : RebaseResult} {ws' merged : Dir} {p q : Path}

theorem addSkill_conflict (h : r.Status = "conflict") (sk : Except String RebaseResult) :
    (addSkill r sk).Status = "conflict" := by
  unfold addSkill
  split
  · exact h
  · split
    · rfl
    · rw [if_neg fun hm => hm.2 h]
      exact h

theorem skills_conflict (h : r.Status = "conflict") :
    (skills.foldl addSkill r).Status = "conflict" := by
  induction skills generalizing r with
  | nil => exact h
  | cons sk skills ih => exact ih (addSkill_conflict h sk)

/-- A run without a conflict: the bases are merged, and the packages are installed over the
merged files. -/
theorem rebase_cases (hnew : pkg.workspace = some new)
    (hrun : RebaseInstalledFeature sha256 before (some old) skills required pkg ws = .ok (r, ws'))
    (hok : r.Status ≠ "conflict") : ∃ forked merged,
      RebaseDirectoryThreeWay old.1 (tmpCurrent old.1 new.1 ws.1) new.1 sha256 =
          .ok (forked, [], merged) ∧
        installFeatureFromDir required pkg (writeMerged merged ws.1 (walkedFiles merged)) =
          .ok ws' := by
  unfold RebaseInstalledFeature at hrun
  rw [hnew] at hrun
  cases before with
  | some e => cases hrun
  | none =>
      dsimp only [rebaseWorkspace] at hrun
      cases hmerge : RebaseDirectoryThreeWay old.1 (tmpCurrent old.1 new.1 ws.1) new.1 sha256 with
      | error e =>
          rw [hmerge] at hrun
          cases hrun
      | ok result =>
          obtain ⟨forked, conflicts, merged⟩ := result
          rw [hmerge] at hrun
          dsimp only at hrun
          by_cases hc : conflicts = []
          · rw [if_pos hc] at hrun
            dsimp only at hrun
            generalize skills.foldl addSkill _ = result at hrun
            split at hrun
            · rename_i hstatus
              cases hrun
              exact absurd hstatus hok
            · split at hrun
              · cases hrun
              · rename_i t hinstall
                cases hrun
                exact ⟨forked, merged, by rw [hc], hinstall⟩
          · rw [if_neg hc] at hrun
            dsimp only at hrun
            rw [if_pos (skills_conflict rfl)] at hrun
            cases hrun
            exact absurd (skills_conflict rfl) hok

/-- The merged files are those of the new base, or what the run over the paths chose. -/
theorem merge_cases {forked : Bool} {cur : Dir}
    (h : RebaseDirectoryThreeWay old.1 cur new.1 sha256 = .ok (forked, [], merged)) :
    ((DirectorySHA256 sha256 cur = DirectorySHA256 sha256 old.1 ∨
        DirectorySHA256 sha256 cur = DirectorySHA256 sha256 new.1) ∧ merged = new.1) ∨
    (¬ (DirectorySHA256 sha256 cur = DirectorySHA256 sha256 old.1 ∨
        DirectorySHA256 sha256 cur = DirectorySHA256 sha256 new.1) ∧
      Outcomes old.1 cur new.1 merged []) := by
  unfold RebaseDirectoryThreeWay at h
  dsimp only at h
  split at h
  · rename_i hfast
    cases h
    exact .inl ⟨hfast, rfl⟩
  · rename_i hslow
    split at h
    · cases h
    · rename_i t conflicts hpaths
      cases h
      exact .inr ⟨hslow, outcomes_of_run hpaths⟩

/-- The merged files can all be written, when none is in the place of a directory: the
installation would fail at a file that lies above one. -/
theorem overlaid_all (hnew : pkg.workspace = some new)
    (hinstall : installFeatureFromDir required pkg
      (writeMerged merged ws.1 (walkedFiles merged)) = .ok ws')
    (hadded : ∀ p, fileAt merged p ≠ none → fileAt ws.1 p = none → fileAt new.1 p ≠ none)
    (hfree : ∀ p, fileAt merged p ≠ none → ws.1.node p ≠ some .dir) :
    Overlaid ws.1 (fileAt merged) (walkedFiles merged)
      (writeMerged merged ws.1 (walkedFiles merged)) := by
  have hstart := Overlaid.start (fileAt merged) ws.2
  refine writeMerged_all hfree (fun p q hp hq hne => ?_) hstart fun p => mem_walkedFiles.mp
  by_contra hfile
  have hgone : fileAt ws.1 p = none := by
    by_contra hp'
    exact hfile (fileAt_of_dir (dir_above_file hp' hq hne))
  obtain ⟨done, hdone, hover⟩ :=
    @writeMerged_overlaid ws.1 merged ws.1 [] (walkedFiles merged) hstart nofun
  have hkept := overlaid_file hover hdone hfile
  obtain ⟨c, hc⟩ := Option.ne_none_iff_exists'.mp hkept
  have hdir := installFeatureFromDir_above hinstall hnew (hadded p hp hgone)
    ((prefix_dropLast (ne_nil_of_file hp)).mpr ⟨hq, hne⟩) (fileAt_eq_some.mp hc)
  cases hdir

section Chosen

/-- The merged files are those that the switch over the paths chose, without a conflict. -/
abbrev Chose (old new ws : PlainDir) (merged : Dir) : Prop :=
  Outcomes old.1 (tmpCurrent old.1 new.1 ws.1) new.1 merged []

theorem outcome_ne_none (h : Chose old new ws merged)
    (p : Path) : outcome old.1 (tmpCurrent old.1 new.1 ws.1) new.1 p ≠ none := fun hnone =>
  nomatch (h.conflict p).mpr hnone

/-- Outside caches and dependencies the merged file is that of the merge. -/
theorem merged_of_collected (h : Chose old new ws merged)
    (hp : Collected p) (howned : Owned old.1 new.1 p) :
    referenceMerge old.1 ws.1 new.1 p = some (fileAt merged p) := by
  have hcur : referenceMerge old.1 (tmpCurrent old.1 new.1 ws.1) new.1 p =
      referenceMerge old.1 ws.1 new.1 p := by
    rw [referenceMerge, fileAt_tmpCurrent_of_owned howned, referenceMerge]
  have hout := outcome_of_collected hp fun hc hn => by
    by_contra ho
    exact outcome_ne_none h p (outcome_deleted hp hc hn ho)
  obtain ⟨file, hfile⟩ := Option.ne_none_iff_exists'.mp (outcome_ne_none h p)
  rw [← hcur, ← hout, h.file, hfile]
  rfl

theorem merged_of_not_collected (h : Chose old new ws merged)
    (hp : ¬ Collected p) : fileAt merged p = none := by
  rw [h.file, outcome_of_not_collected hp]
  rfl

theorem owned_of_merged (h : Chose old new ws merged)
    (hp : fileAt merged p ≠ none) : Collected p ∧ Owned old.1 new.1 p := by
  have hcollected : Collected p := by
    by_contra hno
    exact hp (merged_of_not_collected h hno)
  refine ⟨hcollected, ?_⟩
  have hmem : p ∈ rebasedPaths old.1 (tmpCurrent old.1 new.1 ws.1) new.1 := by
    by_contra hno
    rw [h.file, outcome, if_neg hno] at hp
    exact hp rfl
  rw [mem_rebasedPaths, collectedFile_of hcollected, collectedFile_of hcollected,
    collectedFile_of hcollected] at hmem
  rcases hmem with ho | hc | hn
  · exact .inl ho
  · rw [owned_iff]
    by_contra hno
    rw [fileAt_tmpCurrent, if_neg hno] at hc
    exact hc rfl
  · exact .inr hn

/-- A merged file that the workspace does not have is of the new base. -/
theorem new_of_merged (h : Chose old new ws merged)
    (hp : fileAt merged p ≠ none) (hws : fileAt ws.1 p = none) : fileAt new.1 p ≠ none := by
  intro hn
  obtain ⟨hcollected, howned⟩ := owned_of_merged h hp
  have hmerge := merged_of_collected h hcollected howned
  rw [referenceMerge_absent.mpr (.inl ⟨hws, .inl hn⟩)] at hmerge
  exact hp (Option.some.inj hmerge).symm

/-- No merged file lies below a path of the bases where the workspace has nothing. -/
theorem not_below_of_owned (h : Chose old new ws merged)
    (howned : Owned old.1 new.1 p) (hws : ws.1.node p = none) (hq : fileAt merged q ≠ none) :
    ¬ (p <+: q ∧ p ≠ q) := by
  rintro ⟨habove, hne⟩
  have hgone : fileAt ws.1 q = none := by
    by_contra hq'
    cases hws.symm.trans (dir_above_file hq' habove hne)
  have hn : fileAt new.1 p = none :=
    fileAt_of_dir (dir_above_file (new_of_merged h hq hgone) habove hne)
  have hc : fileAt (tmpCurrent old.1 new.1 ws.1) p = none := by
    rw [fileAt_tmpCurrent_of_owned howned, fileAt, hws]
    rfl
  have hcollected := (owned_of_merged h hq).1.above habove
  exact outcome_ne_none h p (outcome_deleted hcollected hc hn (howned.resolve_right (· hn)))

/-- One path of the bases, when the switch chose the files and all of them were written. -/
theorem takesEffect_of_chose (h : Chose old new ws merged)
    (hslow : ¬ Shortcut sha256 old.1 new.1 ws.1)
    (hfree : ∀ p, fileAt merged p ≠ none → ws.1.node p ≠ some .dir) {t : Dir}
    (hover : Overlaid ws.1 (fileAt merged) (walkedFiles merged) t) {packages : List Package}
    (hfills : ∀ q, ws'.node q = (t.node q).or (packages.findSome? (·.brings q)))
    (howned : Owned old.1 new.1 p) :
    referenceMerge old.1 ws.1 new.1 p = some (fileAt ws' p) ↔
      TakesEffect sha256 old.1 new.1 ws.1 packages p := by
  have hgap : fileAt merged p = none → fileAt ws' p = brought ws.1 packages p := fun hp =>
    final_gap ws.2 hover (fun q => mem_walkedFiles.mp) (hfills p) hp fun hn q hq =>
      not_below_of_owned h howned hn hq
  have hkept : brought ws.1 packages p = none → fileAt ws.1 p = none := by
    intro hb
    by_contra hfile
    obtain ⟨c, hc⟩ := Option.ne_none_iff_exists'.mp hfile
    cases hb.symm.trans (brought_of_file hc)
  unfold TakesEffect
  rw [and_iff_right fun hs => absurd hs hslow]
  cases hm : referenceMerge old.1 ws.1 new.1 p with
  | none => exact ⟨nofun, nofun⟩
  | some wanted =>
      cases wanted with
      | none =>
          have hmerged : fileAt merged p = none := by
            by_cases hp : Collected p
            · exact Option.some.inj ((merged_of_collected h hp howned).symm.trans hm)
            · exact merged_of_not_collected h hp
          rw [hgap hmerged]
          constructor
          · intro hb
            have hb := (Option.some.inj hb).symm
            exact ⟨hkept hb, .inr hb⟩
          · rintro ⟨-, ⟨hs, -⟩ | hb⟩
            · exact absurd hs hslow
            · rw [hb]
      | some data =>
          dsimp only
          by_cases hp : Collected p
          · have hmerged : fileAt merged p = some data :=
              Option.some.inj ((merged_of_collected h hp howned).symm.trans hm)
            have hfile : fileAt merged p ≠ none := by
              rw [hmerged]
              exact Option.some_ne_none data
            have hwritten : fileAt t p = some data := by
              rw [hover.file, if_pos (mem_walkedFiles.mpr hfile), hmerged]
            rw [fileAt_of_fills (hfills p) hwritten]
            exact ⟨fun _ => ⟨hfree p hfile, .inr (.inl hp)⟩, fun _ => rfl⟩
          · rw [hgap (merged_of_not_collected h hp)]
            constructor
            · intro hb
              have hb := (Option.some.inj hb).symm
              refine ⟨fun hd => ?_, .inr (.inr hb)⟩
              cases (brought_of_dir hd).symm.trans hb
            · rintro ⟨-, hs | hp' | hb⟩
              · exact absurd hs hslow
              · exact absurd hp' hp
              · rw [hb]

end Chosen

/-! ## The shortcut -/

/-- A path that the new base does not have is to be empty, or a conflict. -/
theorem merge_of_missing {old ws new : Dir} (hn : fileAt new p = none)
    (ho : fileAt old p ≠ none) {data : Bytes} :
    referenceMerge old ws new p ≠ some (some data) := by
  intro h
  rw [referenceMerge, ThreeWay.file_eq_some, ThreeWay.value_eq_some, hn] at h
  rcases h with (⟨h, -⟩ | ⟨-, h⟩ | ⟨-, h⟩) | ⟨-, _, _, _, _, -, -, h, -⟩
  · exact ho h.symm
  · cases h
  · cases h
  · cases h

/-- One path of the bases, when the files of the new base were all written. -/
theorem takesEffect_of_shortcut (hfast : Shortcut sha256 old.1 new.1 ws.1)
    (hfree : ∀ p, fileAt new.1 p ≠ none → ws.1.node p ≠ some .dir) {t : Dir}
    (hover : Overlaid ws.1 (fileAt new.1) (walkedFiles new.1) t) {packages : List Package}
    (hfills : ∀ q, ws'.node q = (t.node q).or (packages.findSome? (·.brings q)))
    (howned : Owned old.1 new.1 p) :
    referenceMerge old.1 ws.1 new.1 p = some (fileAt ws' p) ↔
      TakesEffect sha256 old.1 new.1 ws.1 packages p := by
  unfold TakesEffect
  cases hn : fileAt new.1 p with
  | some data =>
      have hfile : fileAt new.1 p ≠ none := by
        rw [hn]
        exact Option.some_ne_none data
      have hwritten : fileAt t p = some data := by
        rw [hover.file, if_pos (mem_walkedFiles.mpr hfile), hn]
      rw [fileAt_of_fills (hfills p) hwritten]
      constructor
      · intro hm
        rw [hm]
        exact ⟨fun _ => rfl, hfree p hfile, .inl hfast⟩
      · rintro ⟨hm, -⟩
        exact hm hfast
  | none =>
      have ho : fileAt old.1 p ≠ none := howned.resolve_right (· hn)
      have hempty : fileAt ws' p = none ↔ fileAt ws.1 p = none ∧
          ((Shortcut sha256 old.1 new.1 ws.1 ∧ Below new.1 p) ∨
            brought ws.1 packages p = none) := by
        by_cases hbelow : Below new.1 p
        · obtain ⟨q, hq, habove⟩ := hbelow
          have hdir : t.node p = some .dir := by
            cases hold : fileAt ws.1 q with
            | none => exact (hover.dir p).mpr (.inr ⟨q, mem_walkedFiles.mpr hq, ⟨hold, hq⟩, habove⟩)
            | some c =>
                refine (hover.dir p).mpr (.inl (dir_above_file ?_ habove.1 habove.2))
                rw [hold]
                exact Option.some_ne_none c
          have hfinal := hfills p
          rw [hdir, Option.some_or] at hfinal
          have hgone : fileAt ws.1 p = none := by
            by_contra hfile
            exact overlaid_file hover (fun q => mem_walkedFiles.mp) hfile (fileAt_of_dir hdir)
          exact ⟨fun _ => ⟨hgone, .inl ⟨hfast, q, hq, habove⟩⟩, fun _ => fileAt_of_dir hfinal⟩
        · have hgap : fileAt ws' p = brought ws.1 packages p :=
            final_gap ws.2 hover (fun q => mem_walkedFiles.mp) (hfills p) hn fun _ q hq habove =>
              hbelow ⟨q, hq, habove⟩
          rw [hgap]
          constructor
          · intro hb
            refine ⟨?_, .inr hb⟩
            by_contra hfile
            exact final_file hover (fun q => mem_walkedFiles.mp) (hfills p) hfile (hgap.trans hb)
          · rintro ⟨-, hs | hb⟩
            · exact absurd hs.2 hbelow
            · exact hb
      cases hm : referenceMerge old.1 ws.1 new.1 p with
      | none => exact ⟨nofun, fun h => h.2.elim⟩
      | some wanted =>
          cases wanted with
          | some data => exact absurd hm (merge_of_missing hn ho)
          | none =>
              rw [and_iff_right fun _ => rfl, ← hempty]
              exact ⟨fun h => (Option.some.inj h).symm, fun h => by rw [h]⟩

/-! ## The whole rebase -/

end Run

/-! ## Deletions -/

section Deletions

def emptyDir : PlainDir := ⟨.empty, plain_empty⟩

def notesDir : PlainDir := ⟨notesFile, plain_file plain_empty _⟩

/-- A feature that has no file any more. -/
def emptied : Package := ⟨some emptyDir, [], none⟩

/-- A feature whose file is as it was. -/
def unchanged : Package := ⟨some notesDir, [], none⟩

/-- The status of a run and the file `notes` after it. -/
def summary (x : Except String (RebaseResult × Dir)) : Option (String × Option Bytes) :=
  x.toOption.map fun run => (run.1.Status, fileAt run.2 [notes])

theorem exists_of_summary {x : Except String (RebaseResult × Dir)} {status : String}
    {file : Option Bytes} (h : summary x = some (status, file)) :
    ∃ r ws', x = .ok (r, ws') ∧ r.Status = status ∧ fileAt ws' [notes] = file := by
  cases x with
  | error e => cases h
  | ok run =>
      obtain ⟨r, ws'⟩ := run
      have hpair := Option.some.inj h
      exact ⟨r, ws', rfl, congrArg Prod.fst hpair, congrArg Prod.snd hpair⟩

/-- The feature deleted its file, and the user did not touch it. -/
theorem summary_emptied :
    summary (RebaseInstalledFeature checksumText none (some notesDir) [] [] emptied notesDir) =
      some ("fast-forward", some (text "x")) := by
  decide +kernel

/-- The user deleted the file, and the feature did not touch it. -/
theorem summary_unchanged :
    summary (RebaseInstalledFeature checksumText none (some notesDir) [] [] unchanged emptyDir) =
      some ("merged", some (text "x")) := by
  decide +kernel

theorem fileAt_notesFile : fileAt notesFile [notes] = some (text "x") := by decide +kernel

end Deletions

end Openlia.Features
