import Openlia.Operator.Skills.Patch

/-! # The operations of a skill patch

A generated patch has one operation for each file that changed, in the order of
the names, and only an unusual character in a name makes it invalid. Writing a
file makes the directories above it and changes no other file.
-/

namespace Openlia.Skills

open Lib

/-! ## The paths of a patch are accepted -/

theorem validatePatchPath_relPath {p : Path} (hp : p ≠ []) :
    validatePatchPath (relPath p) = .ok () ↔ (pathText p).any unsafeCharacter = false := by
  have hhead : (pathText p).head? ≠ some '/' := by
    intro h
    obtain ⟨r, hr⟩ := List.head?_eq_some_iff.mp h
    obtain ⟨c, -, hc⟩ := mem_of_splitOn hp (s := []) (by
      rw [hr, ← List.nil_append ('/' :: r), List.splitOn_append_cons_self]
      simp)
    exact c.toList_ne_nil hc
  have hdot : pathText p ≠ ['.'] := by
    intro h
    obtain ⟨c, -, hc⟩ := mem_of_splitOn hp (s := ['.']) (by
      rw [h, splitOn_singleton (by decide)]
      simp)
    exact c.2.2.1 (String.toList_injective hc)
  have hup : ¬ "../".toList.isPrefixOf (pathText p) := by
    intro h
    obtain ⟨r, hr⟩ := List.isPrefixOf_iff_prefix.mp h
    refine dots_notMem hp ?_
    have hsplit : pathText p = ['.', '.'] ++ '/' :: r := by rw [← hr]; rfl
    rw [hsplit, List.splitOn_append_cons_self, splitOn_singleton (by decide)]
    simp
  have hinner : ¬ "/../".toList <:+: pathText p := by
    rintro ⟨a, b, hab⟩
    refine dots_notMem hp ?_
    have hsplit : pathText p = a ++ '/' :: (['.', '.'] ++ '/' :: b) := by
      rw [← hab]
      simp
    rw [hsplit, List.splitOn_append_cons_self, List.splitOn_append_cons_self,
      splitOn_singleton (s := ['.', '.']) (by decide)]
    simp
  have hclean : ¬ (filepathClean (pathText p) ≠ pathText p ∨ filepathClean (pathText p) = ['.'] ∨
      "../".toList.isPrefixOf (filepathClean (pathText p)) ∨
      "/../".toList <:+: filepathClean (pathText p)) := by
    rw [filepathClean_pathText hp]
    rintro (h | h | h | h)
    · exact h rfl
    · exact hdot h
    · exact hup h
    · exact hinner h
  have htext : (relPath p).toList = pathText p := String.toList_ofList
  unfold validatePatchPath
  rw [htext]
  by_cases hany : (pathText p).any unsafeCharacter = true
  · rw [if_pos (.inr (.inr hany)), hany]
    exact ⟨nofun, nofun⟩
  · rw [if_neg (by rintro (h | h | h); exacts [pathText_ne_nil hp h, hhead h, hany h]),
      if_neg hclean]
    exact ⟨fun _ => Bool.eq_false_iff.mpr hany, fun _ => rfl⟩

/-! ## The operations of a generated patch -/

theorem skillFile_of_visited {t : Dir} {p : Path} (h : Visited p) : skillFile t p = fileAt t p :=
  if_pos h

theorem skillFile_eq_some {t : Dir} {p : Path} {c : Bytes} :
    skillFile t p = some c ↔ Visited p ∧ fileAt t p = some c := by
  by_cases h : Visited p
  · rw [skillFile_of_visited h]
    exact (and_iff_right h).symm
  · rw [skillFile, if_neg h]
    exact ⟨nofun, fun hc => absurd hc.1 h⟩

theorem ne_nil_of_skillFile {t : Dir} {p : Path} (h : skillFile t p ≠ none) : p ≠ [] := by
  rintro rfl
  obtain ⟨c, hc⟩ := Option.ne_none_iff_exists'.mp h
  cases fileAt_eq_some.mp (skillFile_eq_some.mp hc).2

theorem readSkillFiles_of_plain {t : Dir} (h : Plain t) :
    readSkillFiles t = .ok ((sortedPaths t).filter fun p => (skillFile t p).isSome) := by
  have hnone : (sortedPaths t).find? (fun p => decide (Visited p) && isLink t p) = none := by
    rw [List.find?_eq_none]
    intro p hp
    obtain ⟨n, hn⟩ := Option.ne_none_iff_exists'.mp (mem_sortedPaths.mp hp).2
    rcases h p n hn with rfl | ⟨c, rfl⟩ <;> simp [isLink, hn]
  rw [readSkillFiles, hnone]

/-- The paths that a patch is made from. -/
def skillPaths (base current : Dir) : List Path :=
  patchPaths ((sortedPaths base).filter fun p => (skillFile base p).isSome)
    ((sortedPaths current).filter fun p => (skillFile current p).isSome)

theorem mem_files {t : Dir} {p : Path} :
    p ∈ (sortedPaths t).filter (fun p => (skillFile t p).isSome) ↔ skillFile t p ≠ none := by
  rw [List.mem_filter, mem_sortedPaths, Option.isSome_iff_ne_none, and_iff_right_iff_imp]
  intro h
  refine ⟨ne_nil_of_skillFile h, fun hn => h ?_⟩
  simp [skillFile, hn]

theorem mem_skillPaths {base current : Dir} {p : Path} :
    p ∈ skillPaths base current ↔ skillFile base p ≠ none ∨ skillFile current p ≠ none := by
  rw [skillPaths, patchPaths, List.mem_mergeSort, List.mem_append, mem_files, List.mem_filter,
    mem_files, decide_eq_true_eq, mem_files]
  tauto

theorem byName_skillPaths (base current : Dir) :
    (skillPaths base current).Pairwise fun p q => byName p q = true := by
  refine List.pairwise_mergeSort (fun p q r h h' => ?_) byName_total _
  exact byName_trans h h'

theorem nodup_skillPaths (base current : Dir) : (skillPaths base current).Nodup := by
  refine (List.mergeSort_perm _ _).nodup_iff.mpr (List.Nodup.append ?_ ?_ ?_)
  · exact (nodup_sortedPaths base).filter _
  · exact ((nodup_sortedPaths current).filter _).filter _
  · intro p hp hq
    exact of_decide_eq_true (List.mem_filter.mp hq).2 hp

section Generated

variable {sha256 : Bytes → Sha256} {base current : Dir} {skill : String} {patch : SkillPatch}

def operations (sha256 : Bytes → Sha256) (base current : Dir) (paths : List Path) :
    List SkillPatchOperation := paths.filterMap (patchOperation sha256 base current)

/-- The hashes decide whether a patch has operations. -/
theorem generated_eq (hb : Plain base) (hc : Plain current)
    (hg : GenerateSkillPatch sha256 base current skill = .ok patch) :
    patch = ⟨1, skillPatchFormat, skill, "sha256:" ++ directoryHash sha256 base,
      if directoryHash sha256 current = directoryHash sha256 base then []
      else operations sha256 base current (skillPaths base current)⟩ := by
  rw [GenerateSkillPatch, readSkillFiles_of_plain hb, readSkillFiles_of_plain hc] at hg
  by_cases hsame : directoryHash sha256 current = directoryHash sha256 base
  · simp only [if_pos hsame, Except.ok.injEq] at hg ⊢
    exact hg.symm
  · simp only [if_neg hsame] at hg ⊢
    split at hg
    · cases hg
    · exact (Except.ok.inj hg).symm

theorem patchOperation_path {p : Path} {op : SkillPatchOperation}
    (h : patchOperation sha256 base current p = some op) : op.Path = relPath p := by
  unfold patchOperation at h
  split at h
  · cases h; rfl
  · cases h; rfl
  · split at h
    · cases h
    · cases h; rfl
  · cases h

theorem patchOperation_eq_none {p : Path} :
    patchOperation sha256 base current p = none ↔ skillFile base p = skillFile current p := by
  unfold patchOperation
  cases skillFile base p with
  | none => cases skillFile current p <;> simp
  | some old =>
      cases skillFile current p with
      | none => simp
      | some new => simp

theorem contentHashPattern_sha256 (s : Sha256) : contentHashPattern ("sha256:" ++ s.1) = true := by
  obtain ⟨s, hlen, hhex⟩ := s
  have hlist : ("sha256:" ++ s).toList = "sha256:".toList ++ s.toList := String.toList_append
  have hpre : "sha256:".toList.length = 7 := rfl
  rw [contentHashPattern, hlist, ← hpre, List.take_left, List.drop_left]
  simp only [BEq.rfl, hlen, Bool.true_and, List.all_eq_true, Bool.or_eq_true, Bool.and_eq_true,
    decide_eq_true_eq]
  exact hhex

/-- Only the characters of its path can make a generated operation invalid. -/
theorem validateOperation_generated {p : Path} {op : SkillPatchOperation} {previous : List Char}
    (hutf : ∀ q c, current.node q = some (.file (.regular c)) → validUtf8 c = true)
    (hop : patchOperation sha256 base current p = some op)
    (hprev : compare (pathText p) previous = .gt) :
    validateOperation sha256 previous op = .ok () ↔ (pathText p).any unsafeCharacter = false := by
  have hp : p ≠ [] := by
    rintro rfl
    have hnone : patchOperation sha256 base current [] = none := patchOperation_eq_none.mpr rfl
    cases hnone.symm.trans hop
  have hnew : ∀ c, skillFile current p = some c → validUtf8 c = true := fun c hc =>
    hutf p c (fileAt_eq_some.mp (skillFile_eq_some.mp hc).2)
  have hhash : ∀ c, contentHashPattern (bytesHash sha256 c) = true := fun c =>
    contentHashPattern_sha256 (sha256 c)
  have hsorted : ¬ (compare (relPath p).toList previous).isLE := by
    rw [relPath, String.toList_ofList, hprev]
    decide
  rw [← validatePatchPath_relPath hp, validateOperation, patchOperation_path hop]
  cases hv : validatePatchPath (relPath p) with
  | error e => simp
  | ok _ =>
      simp only [hsorted, iff_true]
      unfold patchOperation at hop
      split at hop
      · cases hop
        simp [hhash]
      · rename_i new hold hn
        cases hop
        simp [hhash, hnew new hn]
      · rename_i old new hold hn
        split at hop
        · cases hop
        · cases hop
          simp [hhash, hnew new hn]
      · cases hop

theorem compare_of_byName {p q : Path} (h : byName p q = true) (hne : p ≠ q) :
    compare (pathText q) (pathText p) = .gt := by
  have hswap : compare (pathText q) (pathText p) = (compare (pathText p) (pathText q)).swap :=
    Std.OrientedCmp.eq_swap
  rw [hswap]
  cases hc : compare (pathText p) (pathText q) with
  | lt => rfl
  | eq => exact absurd (pathText_injective (Std.LawfulEqOrd.eq_of_compare hc)) hne
  | gt => rw [byName, hc] at h; cases h

theorem validateOperations_generated {paths : List Path} {previous : List Char}
    (hutf : ∀ q c, current.node q = some (.file (.regular c)) → validUtf8 c = true)
    (hsorted : paths.Pairwise fun p q => byName p q = true) (hnodup : paths.Nodup)
    (hprev : ∀ p ∈ paths, compare (pathText p) previous = .gt) :
    validateOperations sha256 previous (operations sha256 base current paths) = .ok () ↔
      ∀ p ∈ paths, skillFile base p ≠ skillFile current p →
        (pathText p).any unsafeCharacter = false := by
  induction paths generalizing previous with
  | nil => simp [operations, validateOperations]
  | cons p paths ih =>
      obtain ⟨hle, hsorted⟩ := List.pairwise_cons.mp hsorted
      obtain ⟨hp, hnodup⟩ := List.nodup_cons.mp hnodup
      rw [List.forall_mem_cons]
      cases hop : patchOperation sha256 base current p with
      | none =>
          rw [operations, List.filterMap_cons_none hop]
          rw [and_iff_right fun hne => absurd (patchOperation_eq_none.mp hop) hne]
          exact ih hsorted hnodup fun q hq => hprev q (List.mem_cons_of_mem _ hq)
      | some op =>
          have hne : skillFile base p ≠ skillFile current p := by
            intro h
            cases (patchOperation_eq_none.mpr h).symm.trans hop
          have hrest : validateOperations sha256 op.Path.toList
              (operations sha256 base current paths) = .ok () ↔ _ :=
            ih hsorted hnodup fun q hq => by
              rw [patchOperation_path hop, relPath, String.toList_ofList]
              exact compare_of_byName (hle q hq) fun h => hp (h ▸ hq)
          have hfirst := validateOperation_generated hutf hop (hprev p List.mem_cons_self)
          rw [operations, List.filterMap_cons_some hop, ← operations, validateOperations, ← hrest]
          cases hv : validateOperation sha256 previous op with
          | error e =>
              refine ⟨fun h => absurd h (by simp), fun h => ?_⟩
              cases hv.symm.trans (hfirst.mpr (h.1 hne))
          | ok _ => exact ⟨fun h => ⟨fun _ => hfirst.mp hv, h⟩, fun h => h.2⟩

end Generated

/-! ## One operation -/

theorem writePatchedFile_eq_ok {t t' : Dir} {p : Path} {c : Bytes} :
    writePatchedFile t p c = .ok t' ↔ validUtf8 c = true ∧ Wrote t p c t' := by
  unfold writePatchedFile Wrote
  by_cases hutf : validUtf8 c = false
  · simp [hutf]
  · rw [if_neg hutf, and_iff_right (by simpa using hutf)]
    cases t.mkdirAll p.dropLast with
    | error e => simp
    | ok t₁ =>
        simp only [Except.ok.injEq, exists_eq_left']
        cases t₁.writeFile p (.regular c) <;> simp

theorem readRegular_eq_ok {t : Dir} {p : Path} {c : Bytes} :
    readRegular t p = .ok c ↔ fileAt t p = some c := by
  rw [fileAt_eq_some, ← Tree.content_eq_some, ← Tree.readFile_eq_ok, readRegular]
  cases t.readFile p with
  | error e => simp
  | ok l => cases l <;> simp

end Openlia.Skills
