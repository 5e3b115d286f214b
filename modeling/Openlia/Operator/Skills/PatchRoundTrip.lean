import Openlia.Operator.Skills.PatchOperations

/-! # Generating a patch and applying it

The paths of a patch come in the order of their names, so that a directory comes
before what lies below it. The files of the copy are those of the current skill
where a path was passed and those of the base elsewhere; directories are made for
added files and never removed.
-/

namespace Openlia.Skills

open Lib

/-! ## Applying the operations -/

section Applying

variable {sha256 : Bytes → Sha256} {base current t t' : Dir} {done : List Path} {p : Path}
  {op : SkillPatchOperation}

def Added (base current : Dir) (p : Path) : Prop :=
  skillFile base p = none ∧ skillFile current p ≠ none

/-- The copy when the patch has passed some paths. -/
abbrev Reached (base current : Dir) (done : List Path) (t : Dir) : Prop :=
  Overlaid base (fileAt current) done t

theorem Added.visited (h : Added base current p) : Visited p := by
  obtain ⟨c, hc⟩ := Option.ne_none_iff_exists'.mp h.2
  exact (skillFile_eq_some.mp hc).1

theorem added_iff (hv : Visited p) :
    Added base current p ↔ fileAt base p = none ∧ fileAt current p ≠ none := by
  rw [Added, skillFile_of_visited hv, skillFile_of_visited hv]

theorem visited_of_mem (h : p ∈ skillPaths base current) : Visited p := by
  rcases mem_skillPaths.mp h with h | h
  · obtain ⟨c, hc⟩ := Option.ne_none_iff_exists'.mp h
    exact (skillFile_eq_some.mp hc).1
  · obtain ⟨c, hc⟩ := Option.ne_none_iff_exists'.mp h
    exact (skillFile_eq_some.mp hc).1

theorem Visited.above {q : Path} (h : Visited p) (hq : q <+: p) : Visited q := fun c hc =>
  h c (hq.subset hc)

/-- What the operation of a path says about both sides. -/
theorem patchOperation_cases (hop : patchOperation sha256 base current p = some op) :
    (∃ old, skillFile base p = some old ∧ skillFile current p = none ∧
      op = ⟨relPath p, "delete", bytesHash sha256 old, "", []⟩) ∨
    (∃ new, skillFile base p = none ∧ skillFile current p = some new ∧
      op = ⟨relPath p, "add", "", bytesHash sha256 new, new⟩) ∨
    ∃ old new, skillFile base p = some old ∧ skillFile current p = some new ∧
      op = ⟨relPath p, "modify", bytesHash sha256 old, bytesHash sha256 new, new⟩ := by
  unfold patchOperation at hop
  split at hop
  · rename_i old hb hc
    exact .inl ⟨old, hb, hc, (Option.some.inj hop).symm⟩
  · rename_i new hb hc
    exact .inr (.inl ⟨new, hb, hc, (Option.some.inj hop).symm⟩)
  · rename_i old new hb hc
    split at hop
    · cases hop
    · exact .inr (.inr ⟨old, new, hb, hc, (Option.some.inj hop).symm⟩)
  · cases hop

theorem base_above {old : Bytes} (hb : skillFile base p = some old) {q : Path} (hq : q <+: p)
    (hne : q ≠ p) : base.node q = some .dir :=
  Tree.node_of_above (by rw [fileAt_eq_some.mp (skillFile_eq_some.mp hb).2]; simp) hq hne

/-- An operation that is applied brings the copy one path further. -/
theorem applyOperation_reached (h : Reached base current done t)
    (hop : patchOperation sha256 base current p = some op)
    (hok : applyOperation sha256 t op = .ok t') : Reached base current (done ++ [p]) t' := by
  rcases patchOperation_cases hop with
    ⟨old, hb, hc, rfl⟩ | ⟨new, hb, hc, rfl⟩ | ⟨old, new, hb, hc, rfl⟩
  · have hp : p ≠ [] := ne_nil_of_skillFile (t := base) (by rw [hb]; simp)
    have hv := (skillFile_eq_some.mp hb).1
    simp only [applyOperation, pathOf_relPath hp, applyDelete, String.reduceEq, if_true, if_false]
      at hok
    split at hok
    · cases hok
    rename_i contents hread
    split at hok
    · cases hok
    split at hok
    · cases hok
    rename_i t₁ hrem
    cases hok
    refine h.delete ((skillFile_of_visited hv).symm.trans hc) ?_ hrem
    rw [readRegular_eq_ok.mp hread]
    simp
  · have hp : p ≠ [] := ne_nil_of_skillFile (t := current) (by rw [hc]; simp)
    simp only [applyOperation, pathOf_relPath hp, applyAdd, if_true, ne_eq, not_true_eq_false,
      if_false] at hok
    split at hok
    · cases hok
    · exact h.write hp (skillFile_eq_some.mp hc).2 (writePatchedFile_eq_ok.mp hok).2
    · cases hok
  · have hp : p ≠ [] := ne_nil_of_skillFile (t := base) (by rw [hb]; simp)
    simp only [applyOperation, pathOf_relPath hp, applyModify, String.reduceEq, if_true, if_false,
      ne_eq, not_true_eq_false] at hok
    split at hok
    · cases hok
    split at hok
    · cases hok
    exact h.write hp (skillFile_eq_some.mp hc).2 (writePatchedFile_eq_ok.mp hok).2

/-- Only a directory of the base in the place of an added file stops an operation. -/
theorem applyOperation_isOk (h : Reached base current done t) (hp : p ∉ done)
    (hutf : ∀ q c, current.node q = some (.file (.regular c)) → validUtf8 c = true)
    (habove : ∀ q, q <+: p → q ≠ p → skillFile base q ≠ none → q ∈ done)
    (hop : patchOperation sha256 base current p = some op)
    (hadd : Added base current p → base.node p ≠ some .dir) :
    ∃ t', applyOperation sha256 t op = .ok t' := by
  have hfile : fileAt t p = fileAt base p := by rw [h.file, if_neg hp]
  rcases patchOperation_cases hop with
    ⟨old, hb, hc, rfl⟩ | ⟨new, hb, hc, rfl⟩ | ⟨old, new, hb, hc, rfl⟩
  · have hnil : p ≠ [] := ne_nil_of_skillFile (t := base) (by rw [hb]; simp)
    have hold : fileAt t p = some old := hfile.trans (skillFile_eq_some.mp hb).2
    have hnode := fileAt_eq_some.mp hold
    obtain ⟨t₁, hrem⟩ := Tree.remove_isOk (t := t) (p := p) (by rw [hnode]; simp)
      (by rw [hnode]; simp)
    refine ⟨t₁, ?_⟩
    simp [applyOperation, pathOf_relPath hnil, applyDelete, readRegular_eq_ok.mpr hold, hrem]
  · have hnil : p ≠ [] := ne_nil_of_skillFile (t := current) (by rw [hc]; simp)
    have hv := (skillFile_eq_some.mp hc).1
    have hnew := fileAt_eq_some.mp (skillFile_eq_some.mp hc).2
    have hcurrent : ∀ q, q <+: p → q ≠ p → fileAt current q = none := fun q hq hne =>
      fileAt_of_dir (Tree.node_of_above (by rw [hnew]; simp) hq hne)
    have hclear : ∀ q, q <+: p → q ≠ p → t.node q = none ∨ t.node q = some .dir := by
      intro q hq hne
      by_cases hd : t.node q = some .dir
      · exact .inr hd
      · refine .inl (h.plain.node_eq_none ?_ hd)
        rw [h.file]
        split
        · exact hcurrent q hq hne
        · rename_i hq'
          by_contra hf
          refine hq' (habove q hq hne ?_)
          rwa [skillFile_of_visited (hv.above hq)]
    have hdir : t.node p ≠ some .dir := by
      rw [ne_eq, h.dir]
      rintro (hd | ⟨q, -, hq, hpq, hne⟩)
      · exact hadd ⟨hb, by rw [hc]; simp⟩ hd
      · obtain ⟨c, hcq⟩ := Option.ne_none_iff_exists'.mp hq.2
        have hd : current.node p = some .dir :=
          Tree.node_of_above (by rw [fileAt_eq_some.mp hcq]; simp) hpq hne
        cases hd.symm.trans hnew
    have hnone : t.node p = none :=
      h.plain.node_eq_none (hfile.trans ((skillFile_of_visited hv).symm.trans hb)) hdir
    obtain ⟨t₁, hw⟩ : ∃ t₁, Wrote t p new t₁ := exists_wrote hnil hdir hclear
    have hwrite := writePatchedFile_eq_ok.mpr ⟨hutf p new hnew, hw⟩
    refine ⟨t₁, ?_⟩
    simp [applyOperation, pathOf_relPath hnil, applyAdd, Tree.lstat, hnone,
      missing_eq_notExist hnone hclear, hwrite]
  · have hnil : p ≠ [] := ne_nil_of_skillFile (t := base) (by rw [hb]; simp)
    have hold : fileAt t p = some old := hfile.trans (skillFile_eq_some.mp hb).2
    have hnew := fileAt_eq_some.mp (skillFile_eq_some.mp hc).2
    obtain ⟨t₁, hw⟩ : ∃ t₁, Wrote t p new t₁ :=
      exists_wrote hnil (by rw [fileAt_eq_some.mp hold]; simp)
        fun q hq hne => .inr ((h.dir q).mpr (.inl (base_above hb hq hne)))
    have hwrite := writePatchedFile_eq_ok.mpr ⟨hutf p new hnew, hw⟩
    refine ⟨t₁, ?_⟩
    simp [applyOperation, pathOf_relPath hnil, applyModify, readRegular_eq_ok.mpr hold, hwrite]

theorem Reached.same (h : Reached base current done t) (hv : Visited p)
    (hop : patchOperation sha256 base current p = none) : Reached base current (done ++ [p]) t := by
  refine h.skip ?_
  rw [← skillFile_of_visited hv, ← skillFile_of_visited hv]
  exact patchOperation_eq_none.mp hop

theorem applyOperations_reached {rest : List Path} (hv : ∀ p ∈ rest, Visited p)
    (h : Reached base current done t)
    (hok : applyOperations sha256 t (operations sha256 base current rest) = .ok t') :
    Reached base current (done ++ rest) t' := by
  induction rest generalizing done t with
  | nil =>
      cases hok
      simpa using h
  | cons p rest ih =>
      have hrest : done ++ p :: rest = done ++ [p] ++ rest := by simp
      have hv' : ∀ q ∈ rest, Visited q := fun q hq => hv q (List.mem_cons_of_mem _ hq)
      rw [hrest]
      cases hop : patchOperation sha256 base current p with
      | none =>
          rw [operations, List.filterMap_cons_none hop] at hok
          exact ih hv' (Reached.same h (hv p List.mem_cons_self) hop) hok
      | some op =>
          rw [operations, List.filterMap_cons_some hop, applyOperations] at hok
          split at hok
          · cases hok
          · rename_i t₁ happ
            exact ih hv' (applyOperation_reached h hop happ) hok

theorem applyOperations_isOk {rest : List Path} (hpaths : skillPaths base current = done ++ rest)
    (hutf : ∀ q c, current.node q = some (.file (.regular c)) → validUtf8 c = true)
    (hadd : ∀ p, Added base current p → base.node p ≠ some .dir)
    (h : Reached base current done t) :
    ∃ t', applyOperations sha256 t (operations sha256 base current rest) = .ok t' := by
  induction rest generalizing done t with
  | nil => exact ⟨t, rfl⟩
  | cons p rest ih =>
      have hrest : skillPaths base current = done ++ [p] ++ rest := by simpa using hpaths
      have hmem : p ∈ skillPaths base current := by
        rw [hpaths]
        simp
      have hv : Visited p := visited_of_mem hmem
      cases hop : patchOperation sha256 base current p with
      | none =>
          rw [operations, List.filterMap_cons_none hop]
          exact ih hrest (Reached.same h hv hop)
      | some op =>
          have hnodup := nodup_skillPaths base current
          have hsorted := byName_skillPaths base current
          rw [hpaths] at hnodup hsorted
          -- what lies above comes before, so the patch has passed it
          have habove : ∀ q, q <+: p → q ≠ p → skillFile base q ≠ none → q ∈ done := by
            intro q hq hne hfile
            have hmem : q ∈ done ++ p :: rest := hpaths ▸ mem_skillPaths.mpr (.inl hfile)
            rcases List.mem_append.mp hmem with hmem | hmem
            · exact hmem
            rcases List.mem_cons.mp hmem with rfl | hmem
            · exact absurd rfl hne
            have hle : byName p q = true :=
              (List.pairwise_cons.mp (List.pairwise_append.mp hsorted).2.1).1 q hmem
            have hlt := compare_of_above (ne_nil_of_skillFile hfile) hq hne
            exact absurd (byName_antisymm (by rw [byName, hlt]; rfl) hle) hne
          have hp : p ∉ done := fun hmem =>
            (List.nodup_append.mp hnodup).2.2 p hmem p List.mem_cons_self rfl
          obtain ⟨t₁, happ⟩ : ∃ t₁, applyOperation sha256 t op = .ok t₁ :=
            applyOperation_isOk h hp hutf habove hop (hadd p)
          obtain ⟨t', ht'⟩ := ih hrest (applyOperation_reached h hop happ)
          refine ⟨t', ?_⟩
          rw [operations, List.filterMap_cons_some hop, applyOperations, happ]
          exact ht'

end Applying

/-! ## The round trip -/

section RoundTrip

variable {sha256 : Bytes → Sha256} {base current t : Dir} {skill : String} {patch : SkillPatch}

/-- The patch applies and gives the files and the hash of the current skill. -/
def RoundTrips (sha256 : Bytes → Sha256) (base current : Dir) (patch : SkillPatch) : Prop :=
  ∃ t, ApplySkillPatch sha256 base none patch = .ok t ∧ SameFiles t current ∧
    directoryHash sha256 t = directoryHash sha256 current

/-- What a patch can say: the changed files have plain names and are not ignored, no
directory goes, and a new one has an added file. -/
structure Representable (base current : Dir) : Prop where
  portable : ∀ p, skillFile base p ≠ skillFile current p →
    (pathText p).any unsafeCharacter = false
  ignored : ∀ p, ¬ Visited p →
    ∀ c, base.node p = some (.file c) ↔ current.node p = some (.file c)
  kept : ∀ p, Hashed p → base.node p = some .dir → current.node p = some .dir
  made : ∀ p, Hashed p → current.node p = some .dir →
    base.node p = some .dir ∨ ∃ q, Added base current q ∧ p <+: q ∧ p ≠ q

theorem Visited.hashed {p : Path} (h : Visited p) : Hashed p := by
  refine ⟨fun c hc hcache => ?_, fun c hc => ?_⟩
  · have := h c hc
    simp [ignoredName, hcache] at this
  · have := h c (List.mem_of_mem_getLast? hc)
    simp only [ignoredName, Bool.or_eq_false_iff] at this
    exact this.1.2

/-- Where the patch has passed every path. -/
theorem Reached.file_of_visited (h : Reached base current (skillPaths base current) t) {p : Path}
    (hv : Visited p) : fileAt t p = fileAt current p := by
  rw [h.file]
  split
  · rfl
  · rename_i hp
    rw [mem_skillPaths, not_or, not_not, not_not, skillFile_of_visited hv,
      skillFile_of_visited hv] at hp
    rw [hp.1, hp.2]

theorem Reached.file_of_not_visited (h : Reached base current (skillPaths base current) t)
    {p : Path} (hv : ¬ Visited p) : fileAt t p = fileAt base p := by
  rw [h.file, if_neg fun hp => hv (visited_of_mem hp)]

theorem validateSkillPatch_generated {ops : List SkillPatchOperation} :
    validateSkillPatch sha256 ⟨1, skillPatchFormat, skill,
        "sha256:" ++ directoryHash sha256 base, ops⟩ = .ok () ↔
      validateSafeComponent skill "skill" = .ok () ∧ validateOperations sha256 [] ops = .ok () := by
  have hhash : contentHashPattern ("sha256:" ++ directoryHash sha256 base) = true :=
    contentHashPattern_sha256 _
  simp only [validateSkillPatch, ne_eq, not_true_eq_false, or_self, if_false]
  cases hs : validateSafeComponent skill "skill" with
  | error e => simp
  | ok _ => simp [hhash]

theorem applySkillPatch_generated {ops : List SkillPatchOperation} :
    ApplySkillPatch sha256 base none ⟨1, skillPatchFormat, skill,
        "sha256:" ++ directoryHash sha256 base, ops⟩ = .ok t ↔
      validateSafeComponent skill "skill" = .ok () ∧ validateOperations sha256 [] ops = .ok () ∧
        applyOperations sha256 base ops = .ok t := by
  have hvalid : validateSkillPatch sha256 ⟨1, skillPatchFormat, skill,
      "sha256:" ++ directoryHash sha256 base, ops⟩ = .ok () ↔ _ := validateSkillPatch_generated
  rw [← and_assoc, ← hvalid, ApplySkillPatch]
  split
  · rename_i e hv
    rw [hv]
    exact ⟨nofun, fun h => nomatch h.1⟩
  · rename_i hv
    rw [hv, if_neg (by simp)]
    exact (and_iff_right rfl).symm

theorem validateOperations_skillPaths
    (hutf : ∀ q c, current.node q = some (.file (.regular c)) → validUtf8 c = true) :
    validateOperations sha256 [] (operations sha256 base current (skillPaths base current)) = .ok ()
      ↔ ∀ p, skillFile base p ≠ skillFile current p →
        (pathText p).any unsafeCharacter = false := by
  have hprev : ∀ p ∈ skillPaths base current, compare (pathText p) [] = .gt := by
    intro p hp
    obtain ⟨c, l, hl⟩ := List.exists_cons_of_ne_nil (pathText_ne_nil (p := p) (by
      rcases mem_skillPaths.mp hp with h | h
      · exact ne_nil_of_skillFile h
      · exact ne_nil_of_skillFile h))
    rw [hl]
    rfl
  rw [validateOperations_generated hutf (byName_skillPaths base current)
    (nodup_skillPaths base current) hprev]
  refine ⟨fun h p hne => h p (mem_skillPaths.mpr ?_) hne, fun h p _ => h p⟩
  by_contra hnone
  rw [not_or, not_not, not_not] at hnone
  exact hne (hnone.1.trans hnone.2.symm)

/-- A patch that was applied has passed every path. -/
theorem reached_of_applied (hb : Plain base)
    (h : applyOperations sha256 base
      (operations sha256 base current (skillPaths base current)) = .ok t) :
    Reached base current (skillPaths base current) t := by
  have hrun := applyOperations_reached (fun p hp => visited_of_mem hp) (Overlaid.start _ hb) h
  simpa using hrun

theorem representable_of_applied (hb : Plain base) (hc : Plain current)
    (hportable : ∀ p, skillFile base p ≠ skillFile current p →
      (pathText p).any unsafeCharacter = false)
    (h : applyOperations sha256 base
      (operations sha256 base current (skillPaths base current)) = .ok t)
    (hfiles : SameFiles t current) (hdigest : digested t = digested current) :
    Representable base current := by
  have hr := reached_of_applied hb h
  have hnode : ∀ p, Hashed p → t.node p = current.node p := fun p hp =>
    node_eq_of_digested hr.plain hc hfiles hdigest hp
  refine ⟨hportable, fun p hv c => ?_, fun p hp hd => ?_, fun p hp hd => ?_⟩
  · rw [← hfiles p c]
    have hsame := hr.file_of_not_visited hv
    constructor
    · intro hl
      rcases hb p _ hl with hd | ⟨b, hl'⟩
      · cases hd
      · cases hl'
        exact fileAt_eq_some.mp (hsame.trans (fileAt_eq_some.mpr hl))
    · intro hl
      rcases hr.plain p _ hl with hd | ⟨b, hl'⟩
      · cases hd
      · cases hl'
        exact fileAt_eq_some.mp (hsame.symm.trans (fileAt_eq_some.mpr hl))
  · rw [← hnode p hp, hr.dir]
    exact .inl hd
  · rw [← hnode p hp, hr.dir] at hd
    exact hd.imp id fun ⟨q, hmem, hq, hpq⟩ => ⟨q, (added_iff (visited_of_mem hmem)).mpr hq, hpq⟩

theorem applied_of_representable (hb : Plain base) (hc : Plain current)
    (hutf : ∀ q c, current.node q = some (.file (.regular c)) → validUtf8 c = true)
    (h : Representable base current) :
    ∃ t, applyOperations sha256 base
        (operations sha256 base current (skillPaths base current)) = .ok t ∧
      SameFiles t current ∧ digested t = digested current := by
  have hadd : ∀ p, Added base current p → base.node p ≠ some .dir := by
    intro p hp hd
    obtain ⟨c, hnew⟩ := Option.ne_none_iff_exists'.mp hp.2
    have hfile := fileAt_eq_some.mp (skillFile_eq_some.mp hnew).2
    cases (h.kept p hp.visited.hashed hd).symm.trans hfile
  obtain ⟨t, ht⟩ : ∃ t, applyOperations sha256 base
      (operations sha256 base current (skillPaths base current)) = .ok t :=
    applyOperations_isOk rfl hutf hadd (Overlaid.start _ hb)
  have hr := reached_of_applied hb ht
  have hfile : ∀ p, fileAt t p = fileAt current p := by
    intro p
    by_cases hv : Visited p
    · exact hr.file_of_visited hv
    · rw [hr.file_of_not_visited hv]
      ext c
      rw [fileAt_eq_some, fileAt_eq_some]
      exact h.ignored p hv _
  refine ⟨t, ht, (sameFiles_iff hr.plain hc).mpr hfile, digested_congr fun p hp => ?_⟩
  refine node_eq_of_plain hr.plain hc (hfile p) ((hr.dir p).trans ⟨?_, fun hd => ?_⟩)
  · rintro (hd | ⟨q, -, hq, hpq, hne⟩)
    · exact h.kept p hp hd
    · obtain ⟨c, hnew⟩ := Option.ne_none_iff_exists'.mp hq.2
      exact Tree.node_of_above (by rw [fileAt_eq_some.mp hnew]; simp) hpq hne
  · refine (h.made p hp hd).imp id fun ⟨q, hq, hpq⟩ => ?_
    exact ⟨q, mem_skillPaths.mpr (.inr hq.2), (added_iff hq.visited).mp hq, hpq⟩

/-- A generated patch gives back the current skill exactly when the skill has a safe name
and, if the hashes say that it changed, the change is one that a patch can say; if they do
not, its files are those of the base. -/
theorem generated_patch_round_trips (hb : Plain base) (hc : Plain current)
    (hutf : ∀ q c, current.node q = some (.file (.regular c)) → validUtf8 c = true)
    (hg : GenerateSkillPatch sha256 base current skill = .ok patch)
    (hcollision : ∀ t, ApplySkillPatch sha256 base none patch = .ok t →
      directoryHash sha256 t = directoryHash sha256 current → digested t = digested current) :
    RoundTrips sha256 base current patch ↔
      validateSafeComponent skill "skill" = .ok () ∧
        if directoryHash sha256 current = directoryHash sha256 base then SameFiles base current
        else Representable base current := by
  obtain rfl := generated_eq hb hc hg
  by_cases hsame : directoryHash sha256 current = directoryHash sha256 base
  · simp only [RoundTrips, if_pos hsame, applySkillPatch_generated]
    constructor
    · rintro ⟨t, ⟨hsafe, -, ht⟩, hfiles, -⟩
      cases ht
      exact ⟨hsafe, hfiles⟩
    · rintro ⟨hsafe, hfiles⟩
      exact ⟨base, ⟨hsafe, rfl, rfl⟩, hfiles, hsame.symm⟩
  · simp only [if_neg hsame] at hcollision ⊢
    constructor
    · rintro ⟨t, ht, hfiles, hhash⟩
      have hdigest := hcollision t ht hhash
      obtain ⟨hsafe, hvalid, hrun⟩ := applySkillPatch_generated.mp ht
      exact ⟨hsafe, representable_of_applied hb hc ((validateOperations_skillPaths hutf).mp hvalid)
        hrun hfiles hdigest⟩
    · rintro ⟨hsafe, hrep⟩
      obtain ⟨t, hrun, hfiles, hdigest⟩ := applied_of_representable hb hc hutf hrep
      refine ⟨t, applySkillPatch_generated.mpr ⟨hsafe,
        (validateOperations_skillPaths hutf).mpr hrep.portable, hrun⟩, hfiles, ?_⟩
      exact congrArg (fun b => (sha256 b).1) hdigest

end RoundTrip

/-! ## Two patches -/

section TwoPatches

variable {sha256 : Bytes → Sha256} {base current t : Dir} {skill : String} {patch : SkillPatch}

/-- A skill whose hash and files changed has a patch. -/
theorem exists_generated (hb : Plain base) (hc : Plain current)
    (hhash : directoryHash sha256 current ≠ directoryHash sha256 base) {p : Path}
    (hp : skillFile base p ≠ skillFile current p) :
    ∃ patch, GenerateSkillPatch sha256 base current skill = .ok patch := by
  have hops : operations sha256 base current (skillPaths base current) ≠ [] := by
    intro hnil
    have hmem : p ∈ skillPaths base current := by
      rw [mem_skillPaths]
      by_contra hnone
      rw [not_or, not_not, not_not] at hnone
      exact hp (hnone.1.trans hnone.2.symm)
    exact hp (patchOperation_eq_none.mp (List.filterMap_eq_nil_iff.mp hnil p hmem))
  rw [GenerateSkillPatch, readSkillFiles_of_plain hb, readSkillFiles_of_plain hc]
  exact ⟨_, (if_neg hhash).trans (if_neg hops)⟩

/-- A directory of the base never gives way to an added file. -/
theorem not_roundTrips_of_dir (hb : Plain base) (hc : Plain current)
    (hhash : directoryHash sha256 current ≠ directoryHash sha256 base)
    (hg : GenerateSkillPatch sha256 base current skill = .ok patch) {p : Path}
    (hdir : base.node p = some .dir) (hnew : skillFile current p ≠ none) :
    ¬ RoundTrips sha256 base current patch := by
  obtain rfl := generated_eq hb hc hg
  rw [if_neg hhash]
  rintro ⟨t, ht, hfiles, -⟩
  have hr := reached_of_applied hb (applySkillPatch_generated.mp ht).2.2
  have hd : t.node p = some .dir := (hr.dir p).mpr (.inl hdir)
  obtain ⟨c, hc'⟩ := Option.ne_none_iff_exists'.mp hnew
  cases hd.symm.trans ((hfiles p _).mpr (fileAt_eq_some.mp (skillFile_eq_some.mp hc').2))

/-- 64 digits of a checksum. -/
def checksum (bytes : Bytes) : Sha256 :=
  ⟨checksumText bytes, by
    rw [checksumText, String.toList_ofList]
    exact ⟨hexDigits_length _ _, fun c hc => hexDigits_hex hc⟩⟩

/-- One file in a directory. -/
def notesDir : Dir := put (put .empty [notes] .dir) [notes, skillMd] (regularFile "x")

theorem plain_notesDir : Plain notesDir := plain_file (plain_put plain_empty (.inl rfl)) _

theorem plain_notesFile : Plain notesFile := plain_file plain_empty _

theorem digested_notesDir :
    digested notesDir = chunk notesDir [notes] ++ chunk notesDir [notes, skillMd] := by
  rw [digested, hashedPaths, sortedPaths_eq (l := [[notes], [notes, skillMd]]) (by decide)
    (by decide)]
  decide

theorem node_notesFile {q : Path} {l : Leaf} (h : notesFile.node q = some (.file l)) :
    q = [notes] ∧ l = .regular (text "x") := by
  have hnode := node_put (t := .empty) (p := [notes]) (n := regularFile "x") (by decide) q
  rw [← notesFile, h] at hnode
  split at hnode
  · rename_i hq
    cases hnode
    exact ⟨hq, rfl⟩
  · by_cases hq : q = []
    · subst hq
      cases hnode
    · rw [Lib.Tree.node, nodeAt, if_neg hq] at hnode
      cases hnode

/-- A patch that is generated and cannot be applied: the directory `notes` has become a
file. -/
theorem directory_not_replaced :
    (Plain notesDir ∧ Plain notesFile ∧
      ∀ q c, notesFile.node q = some (.file (.regular c)) → validUtf8 c = true) ∧
    ∃ patch, GenerateSkillPatch checksum notesDir notesFile "example" = .ok patch ∧
      ¬ RoundTrips checksum notesDir notesFile patch := by
  refine ⟨⟨plain_notesDir, plain_notesFile, fun q c h => ?_⟩, ?_⟩
  · cases (node_notesFile h).2
    decide
  have hhash : directoryHash checksum notesFile ≠ directoryHash checksum notesDir := by
    rw [directoryHash, directoryHash, DirectorySHA256, DirectorySHA256, digested_notesDir,
      digested_notesFile]
    decide
  have hnew : skillFile notesFile [notes] = some (text "x") := by decide
  have hold : skillFile notesDir [notes] = none := by decide
  obtain ⟨patch, hg⟩ : ∃ patch,
      GenerateSkillPatch checksum notesDir notesFile "example" = .ok patch :=
    exists_generated plain_notesDir plain_notesFile hhash (p := [notes]) (by rw [hnew, hold]; simp)
  refine ⟨patch, hg, not_roundTrips_of_dir plain_notesDir plain_notesFile hhash hg
    (p := [notes]) (by decide) (by rw [hnew]; simp)⟩

theorem representable_notesFile : Representable .empty notesFile := by
  have hempty : ∀ q n, Lib.Tree.node (.empty : Dir) q = some n → q = [] ∧ n = .dir := by
    intro q n hn
    by_cases hq : q = []
    · subst hq
      exact ⟨rfl, (Option.some.inj hn).symm⟩
    · rw [Lib.Tree.node, nodeAt, if_neg hq] at hn
      cases hn
  refine ⟨fun q hne => ?_, fun q hv c => ?_, fun q _ hd => ?_, fun q _ hd => ?_⟩
  · by_cases hq : q = [notes]
    · subst hq
      decide
    · refine absurd ?_ hne
      have hnone : ∀ t : Dir, (∀ l, t.node q ≠ some (.file l)) → skillFile t q = none := by
        intro t ht
        by_contra hs
        obtain ⟨c, hs⟩ := Option.ne_none_iff_exists'.mp hs
        exact ht _ (fileAt_eq_some.mp (skillFile_eq_some.mp hs).2)
      have hbase := hnone .empty fun l hl => nomatch (hempty q _ hl).2
      exact hbase.trans (hnone notesFile fun l hl => hq (node_notesFile hl).1).symm
  · constructor
    · exact fun h => nomatch (hempty q _ h).2
    · intro h
      refine absurd ?_ hv
      rw [(node_notesFile h).1]
      decide
  · rw [(hempty q _ hd).1]
    rfl
  · have hnode := node_put (t := .empty) (p := [notes]) (n := regularFile "x") (by decide) q
    rw [← notesFile, hd] at hnode
    split at hnode
    · cases hnode
    · exact .inl hnode.symm

/-- The file `notes` is added to an empty skill. -/
theorem generated_patch_round_trips_notes :
    ∃ patch, GenerateSkillPatch checksum .empty notesFile "example" = .ok patch ∧
      RoundTrips checksum .empty notesFile patch := by
  have hutf : ∀ q c, notesFile.node q = some (.file (.regular c)) → validUtf8 c = true := by
    intro q c h
    cases (node_notesFile h).2
    decide
  have hhash : directoryHash checksum notesFile ≠ directoryHash checksum .empty := by
    rw [directoryHash, directoryHash, DirectorySHA256, DirectorySHA256, digested_notesFile,
      digested_empty]
    decide
  have hnew : skillFile notesFile [notes] = some (text "x") := by decide
  obtain ⟨patch, hg⟩ : ∃ patch,
      GenerateSkillPatch checksum .empty notesFile "example" = .ok patch :=
    exists_generated plain_empty plain_notesFile hhash (p := [notes]) (by rw [hnew]; exact nofun)
  refine ⟨patch, hg, (generated_patch_round_trips plain_empty plain_notesFile hutf hg ?_).mpr
    ⟨by decide, ?_⟩⟩
  · obtain rfl := generated_eq plain_empty plain_notesFile hg
    intro t ht _
    rw [if_neg hhash] at ht
    have happ := (applySkillPatch_generated.mp ht).2.2
    obtain ⟨u, hu, -, hd⟩ :=
      applied_of_representable plain_empty plain_notesFile hutf representable_notesFile
    rw [Except.ok.inj (happ.symm.trans hu)]
    exact hd
  · rw [if_neg hhash]
    exact representable_notesFile

end TwoPatches

end Openlia.Skills
