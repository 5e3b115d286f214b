import Openlia.Operator.Skills.Rebase

/-! # The rebase and the reference merge

The switch of the code chooses what the reference does, but for a file that both
sides deleted. The chosen files can be written when none lies above another, and
the shortcuts by the hashes take the new base whole.
-/

namespace Openlia.Skills

open Lib

/-! ## The switch -/

theorem mergeLines_toOption {o c n : List Bytes} (hc : o.length = c.length)
    (hn : o.length = n.length) : (mergeLines o c n).toOption = ThreeWay.lines o c n := by
  induction o generalizing c n with
  | nil =>
      rw [List.length_eq_zero_iff.mp hc.symm, List.length_eq_zero_iff.mp hn.symm]
      rfl
  | cons x o ih =>
      obtain ⟨y, c, rfl⟩ := List.exists_cons_of_length_pos (l := c) (by rw [← hc]; simp)
      obtain ⟨z, n, rfl⟩ := List.exists_cons_of_length_pos (l := n) (by rw [← hn]; simp)
      have hrest := ih (Nat.succ.inj hc) (Nat.succ.inj hn)
      have hmap : ∀ w : Bytes, ((mergeLines o c n).map (w :: ·)).toOption =
          (ThreeWay.lines o c n).map (w :: ·) := by
        intro w
        rw [← hrest]
        cases mergeLines o c n <;> rfl
      rw [mergeLines, ThreeWay.lines]
      by_cases hy : y = x
      · rw [if_pos hy, hy, ThreeWay.value_of_left]
        exact hmap z
      · rw [if_neg hy]
        by_cases hz : z = x
        · rw [if_pos (.inl hz), hz, ThreeWay.value_of_right]
          exact hmap y
        · by_cases heq : y = z
          · rw [if_pos (.inr heq), heq, ThreeWay.value_of_agree]
            exact hmap z
          · simp [ThreeWay.value, hy, hz, heq, Except.toOption]

theorem mergeInstructionLines_toOption {o c n : Bytes} (hc : c ≠ o) (hn : n ≠ o) (hcn : c ≠ n) :
    (mergeInstructionLines o c n).toOption = textMerge o c n := by
  rw [mergeInstructionLines, if_neg hc, if_neg (not_or.mpr ⟨hn, hcn⟩), textMerge]
  by_cases hlen : (o.splitOn newline).length = (c.splitOn newline).length ∧
      (o.splitOn newline).length = (n.splitOn newline).length
  · rw [if_pos hlen, ← mergeLines_toOption hlen.1 hlen.2]
    cases mergeLines (o.splitOn newline) (c.splitOn newline) (n.splitOn newline) <;> rfl
  · rw [if_neg hlen]
    cases hl : ThreeWay.lines (o.splitOn newline) (c.splitOn newline) (n.splitOn newline) with
    | none => rfl
    | some m =>
        obtain ⟨-, hc', hn'⟩ := ThreeWay.length_of_lines hl
        exact absurd ⟨hc'.symm, hn'.symm⟩ hlen

/-- What both sides deleted is a conflict. -/
theorem choose_deleted (o : Bytes) : choose (some o) none none = none := by
  simp [choose]

theorem choose_eq {o c n : Option Bytes} (h : ¬ (c = none ∧ n = none)) :
    choose o c n = ThreeWay.file textMerge o c n := by
  cases o with
  | none =>
      cases c with
      | none =>
          cases n with
          | none => exact absurd ⟨rfl, rfl⟩ h
          | some n => simp [choose, ThreeWay.file_of_left]
      | some c =>
          cases n with
          | none => simp [choose, ThreeWay.file_of_right]
          | some n =>
              by_cases hcn : c = n
              · subst hcn
                simp [choose, ThreeWay.file_of_agree]
              · simp [choose, ThreeWay.file, ThreeWay.value, hcn]
  | some o =>
      cases c with
      | none =>
          cases n with
          | none => exact absurd ⟨rfl, rfl⟩ h
          | some n =>
              by_cases hn : o = n
              · subst hn
                simp [choose, ThreeWay.file_of_right]
              · simp [choose, ThreeWay.file, ThreeWay.value, hn, Ne.symm hn]
      | some c =>
          by_cases hc : o = c
          · subst hc
            simp [choose, ThreeWay.file_of_left]
          · cases n with
            | none => simp [choose, ThreeWay.file, ThreeWay.value, hc, Ne.symm hc]
            | some n =>
                by_cases hn : o = n
                · subst hn
                  simp [choose, hc, ThreeWay.file_of_right]
                · by_cases hcn : c = n
                  · subst hcn
                    simp [choose, hc, ThreeWay.file_of_agree]
                  · have hv : ThreeWay.value (some o) (some c) (some n) = none := by
                      simp [ThreeWay.value, Ne.symm hc, Ne.symm hn, hcn]
                    rw [ThreeWay.file_of_none hv,
                      ← mergeInstructionLines_toOption (Ne.symm hc) (Ne.symm hn) hcn]
                    cases hm : mergeInstructionLines o c n <;>
                      simp [choose, hc, hn, hcn, hm, Except.toOption]

/-! ## Writing the chosen files -/

theorem writeMergedFile_eq_ok {t t' : Dir} {p : Path} {c : Bytes} :
    writeMergedFile t p c = .ok t' ↔ Wrote t p c t' := by
  unfold writeMergedFile Wrote
  cases t.mkdirAll p.dropLast with
  | error e => simp
  | ok t₁ =>
      simp only [Except.ok.injEq, exists_eq_left']
      cases t₁.writeFile p (.regular c) <;> simp

theorem node_empty (p : Path) :
    Lib.Tree.node (.empty : Dir) p = if p = [] then some .dir else none := by
  rw [Lib.Tree.node, nodeAt]
  split
  · rfl
  · rfl

theorem fileAt_empty (p : Path) : fileAt .empty p = none := by
  rw [fileAt, node_empty]
  split <;> rfl

section Writing

variable {old cur new t t' : Dir} {done rest : List Path} {conflicts conflicts' : List String}

/-- The file that is written at a path. -/
def mergedFile (old cur new : Dir) (p : Path) : Option Bytes := (chosen old cur new p).join

/-- The merged directory when some paths were passed. -/
abbrev Merged (old cur new : Dir) (done : List Path) (t : Dir) : Prop :=
  Overlaid .empty (mergedFile old cur new) done t

theorem mergedFile_of_chosen {p : Path} {data : Bytes}
    (h : chosen old cur new p = some (some data)) : mergedFile old cur new p = some data := by
  rw [mergedFile, h]
  rfl

theorem mergedFile_eq_none {p : Path} (h : ∀ data, chosen old cur new p ≠ some (some data)) :
    mergedFile old cur new p = none := by
  by_contra hne
  obtain ⟨data, hdata⟩ := Option.ne_none_iff_exists'.mp hne
  exact h data (Option.join_eq_some_iff.mp hdata)

theorem Merged.skip {p : Path} (h : Merged old cur new done t)
    (hno : ∀ data, chosen old cur new p ≠ some (some data)) :
    Merged old cur new (done ++ [p]) t :=
  Overlaid.skip h ((fileAt_empty p).trans (mergedFile_eq_none hno).symm)

/-- A run writes the chosen files and names the conflicts. -/
theorem rebasePaths_merged (hp : ∀ p ∈ rest, p ≠ []) (h : Merged old cur new done t)
    (hok : rebasePaths old cur new t conflicts rest = .ok (t', conflicts')) :
    Merged old cur new (done ++ rest) t' ∧ conflicts' = conflicts ++
      (rest.filter fun p => decide (chosen old cur new p = none)).map relPath := by
  induction rest generalizing done t conflicts with
  | nil =>
      cases hok
      simpa using h
  | cons p rest ih =>
      have hrest : done ++ p :: rest = done ++ [p] ++ rest := by simp
      have hp' : ∀ q ∈ rest, q ≠ [] := fun q hq => hp q (List.mem_cons_of_mem _ hq)
      rw [hrest]
      unfold rebasePaths at hok
      split at hok
      · rename_i hc
        obtain ⟨hm, hconf⟩ := ih hp' (Merged.skip h fun data hd => nomatch hc.symm.trans hd) hok
        exact ⟨hm, by simp [hconf, hc]⟩
      · rename_i hc
        obtain ⟨hm, hconf⟩ := ih hp' (Merged.skip h fun data hd => nomatch hc.symm.trans hd) hok
        exact ⟨hm, by simp [hconf, hc]⟩
      · rename_i data hc
        split at hok
        · cases hok
        · rename_i t₁ hw
          obtain ⟨hm, hconf⟩ := ih hp' (h.write (hp p List.mem_cons_self)
            (mergedFile_of_chosen hc) (writeMergedFile_eq_ok.mp hw)) hok
          exact ⟨hm, by simp [hconf, hc]⟩

/-- No merged file lies above another. -/
def Apartness (old cur new : Dir) (paths : List Path) : Prop :=
  ∀ p ∈ paths, ∀ q ∈ paths, mergedFile old cur new p ≠ none → mergedFile old cur new q ≠ none →
    p <+: q → p = q

theorem rebasePaths_isOk (hp : ∀ p ∈ rest, p ≠ [])
    (hapart : Apartness old cur new (done ++ rest)) (h : Merged old cur new done t) :
    ∃ r, rebasePaths old cur new t conflicts rest = .ok r := by
  induction rest generalizing done t conflicts with
  | nil => exact ⟨_, rfl⟩
  | cons p rest ih =>
      have hrest : done ++ p :: rest = done ++ [p] ++ rest := by simp
      have hp' : ∀ q ∈ rest, q ≠ [] := fun q hq => hp q (List.mem_cons_of_mem _ hq)
      have hmem : p ∈ done ++ p :: rest := by simp
      have hdone : ∀ q ∈ done, q ∈ done ++ p :: rest := fun q hq => List.mem_append_left _ hq
      unfold rebasePaths
      split
      · rename_i hc
        exact ih hp' (hrest ▸ hapart) (Merged.skip h fun data hd => nomatch hc.symm.trans hd)
      · rename_i hc
        exact ih hp' (hrest ▸ hapart) (Merged.skip h fun data hd => nomatch hc.symm.trans hd)
      · rename_i data hc
        have hnew : mergedFile old cur new p ≠ none := by
          rw [mergedFile_of_chosen hc]
          simp
        have hnil : p ≠ [] := hp p List.mem_cons_self
        obtain ⟨t₁, hw⟩ : ∃ t₁, Wrote t p data t₁ := by
          refine exists_wrote hnil (fun hd => ?_) fun q hq hne => ?_
          · rcases (h.dir p).mp hd with hd | ⟨q, hq, ⟨-, hfile⟩, habove, hne⟩
            · rw [node_empty, if_neg hnil] at hd
              cases hd
            · exact hne (hapart p hmem q (hdone q hq) hnew hfile habove)
          · by_cases hd : t.node q = some .dir
            · exact .inr hd
            · refine .inl (h.plain.node_eq_none ?_ hd)
              rw [h.file]
              split
              · rename_i hq'
                by_contra hfile
                exact hne (hapart q (hdone q hq') p hmem hfile hnew hq)
              · exact fileAt_empty q
        rw [writeMergedFile_eq_ok.mpr hw]
        exact ih hp' (hrest ▸ hapart) (h.write hnil (mergedFile_of_chosen hc) hw)

end Writing

/-! ## The result at one path -/

section Results

variable {old cur new t : Dir} {conflicts : List String} {sha256 : Bytes → String} {p : Path}

theorem collectedFile_of (h : Collected p) (t : Dir) : collectedFile t p = fileAt t p := if_pos h

theorem collectedFile_of_not (h : ¬ Collected p) (t : Dir) : collectedFile t p = none := if_neg h

theorem mem_collectRelativeFiles : p ∈ collectRelativeFiles t ↔ collectedFile t p ≠ none := by
  rw [collectRelativeFiles, List.mem_filter, mem_sortedPaths, Option.isSome_iff_ne_none,
    and_iff_right_iff_imp]
  intro h
  obtain ⟨c, hc⟩ := Option.ne_none_iff_exists'.mp h
  unfold collectedFile at hc
  split at hc
  · have hnode := fileAt_eq_some.mp hc
    refine ⟨?_, by rw [hnode]; simp⟩
    rintro rfl
    cases hnode
  · cases hc

theorem mem_rebasedPaths : p ∈ rebasedPaths old cur new ↔
    collectedFile old p ≠ none ∨ collectedFile cur p ≠ none ∨ collectedFile new p ≠ none := by
  simp only [rebasedPaths, allPaths, List.mem_mergeSort, List.mem_append, List.mem_filter,
    decide_eq_true_eq, mem_collectRelativeFiles]
  tauto

theorem ne_nil_of_mem (h : p ∈ rebasedPaths old cur new) : p ≠ [] := by
  rintro rfl
  have hnone : ∀ t : Dir, collectedFile t [] = none := fun t => by
    unfold collectedFile
    split <;> rfl
  simp [mem_rebasedPaths, hnone] at h

/-- What the run makes of a path: nothing of one that it does not come to. -/
def outcome (old cur new : Dir) (p : Path) : Option (Option Bytes) :=
  if p ∈ rebasedPaths old cur new then chosen old cur new p else some none

theorem outcome_of_collected (h : Collected p)
    (hd : fileAt cur p = none → fileAt new p = none → fileAt old p = none) :
    outcome old cur new p = referenceMerge old cur new p := by
  unfold outcome
  split
  · rename_i hmem
    rw [chosen, collectedFile_of h, collectedFile_of h, collectedFile_of h, choose_eq]
    · rfl
    · rintro ⟨hc, hn⟩
      rw [mem_rebasedPaths, collectedFile_of h, collectedFile_of h, collectedFile_of h] at hmem
      rcases hmem with hmem | hmem | hmem
      · exact hmem (hd hc hn)
      · exact hmem hc
      · exact hmem hn
  · rename_i hmem
    rw [mem_rebasedPaths, collectedFile_of h, collectedFile_of h, collectedFile_of h, not_or,
      not_or, not_not, not_not, not_not] at hmem
    obtain ⟨ho, hc, hn⟩ := hmem
    rw [referenceMerge, ho, hc, hn, ThreeWay.file_of_agree]

theorem outcome_deleted (h : Collected p) (hc : fileAt cur p = none) (hn : fileAt new p = none)
    (ho : fileAt old p ≠ none) : outcome old cur new p = none := by
  obtain ⟨o, ho'⟩ := Option.ne_none_iff_exists'.mp ho
  have hmem : p ∈ rebasedPaths old cur new :=
    mem_rebasedPaths.mpr (.inl (by rwa [collectedFile_of h]))
  rw [outcome, if_pos hmem, chosen, collectedFile_of h, collectedFile_of h, collectedFile_of h,
    ho', hc, hn]
  exact choose_deleted o

theorem outcome_of_not_collected (h : ¬ Collected p) : outcome old cur new p = some none := by
  refine if_neg ?_
  simp [mem_rebasedPaths, collectedFile_of_not h]

theorem referenceMerge_absent : referenceMerge old cur new p = some none ↔
    (fileAt cur p = none ∧ (fileAt new p = none ∨ fileAt new p = fileAt old p)) ∨
      (fileAt new p = none ∧ fileAt cur p = fileAt old p) := by
  rw [referenceMerge, ThreeWay.file_eq_some, ThreeWay.value_eq_some]
  constructor
  · rintro ((⟨hn, hc⟩ | ⟨hc, hn⟩ | ⟨hc, hn⟩) | ⟨-, _, _, _, _, -, -, -, -, h⟩)
    · exact .inl ⟨hc.symm, .inr hn⟩
    · exact .inr ⟨hn.symm, hc⟩
    · exact .inl ⟨hc.trans hn.symm, .inl hn.symm⟩
    · cases h
  · rintro (⟨hc, hn | hn⟩ | ⟨hn, hc⟩)
    · exact .inl (.inr (.inr ⟨hc.trans hn.symm, hn.symm⟩))
    · exact .inl (.inl ⟨hn, hc.symm⟩)
    · exact .inl (.inr (.inl ⟨hc, hn.symm⟩))

/-- The run that succeeded: every path has its outcome. -/
structure Outcomes (old cur new : Dir) (t : Dir) (conflicts : List String) : Prop where
  plain : Plain t
  file : ∀ p, fileAt t p = (outcome old cur new p).join
  conflict : ∀ p, relPath p ∈ conflicts ↔ outcome old cur new p = none
  named : ∀ s ∈ conflicts, ∃ p, relPath p = s
  dir : ∀ p, t.node p = some .dir ↔
    p = [] ∨ ∃ q, (outcome old cur new q).join ≠ none ∧ p <+: q ∧ p ≠ q

theorem outcomes_of_run
    (h : rebasePaths old cur new .empty [] (rebasedPaths old cur new) = .ok (t, conflicts)) :
    Outcomes old cur new t conflicts := by
  obtain ⟨hm, rfl⟩ := rebasePaths_merged (fun p hp => ne_nil_of_mem hp)
    (Overlaid.start (mergedFile old cur new) plain_empty) h
  rw [List.nil_append] at hm
  have hjoin : ∀ p, (outcome old cur new p).join =
      if p ∈ rebasedPaths old cur new then mergedFile old cur new p else none := by
    intro p
    unfold outcome
    split <;> rfl
  refine ⟨hm.plain, fun p => ?_, fun p => ?_, fun s hs => ?_, fun p => ?_⟩
  · rw [hm.file, hjoin, fileAt_empty]
  · simp only [List.nil_append, List.mem_map, List.mem_filter, decide_eq_true_eq, outcome]
    constructor
    · rintro ⟨q, ⟨hq, hc⟩, heq⟩
      obtain rfl := relPath_injective heq
      rw [if_pos hq, hc]
    · intro hc
      split at hc
      · rename_i hp
        exact ⟨p, ⟨hp, hc⟩, rfl⟩
      · cases hc
  · rw [List.nil_append] at hs
    obtain ⟨p, -, hp⟩ := List.mem_map.mp hs
    exact ⟨p, hp⟩
  · rw [hm.dir, node_empty]
    refine or_congr ⟨fun h => ?_, fun h => if_pos h⟩ ⟨?_, ?_⟩
    · by_contra hp
      rw [if_neg hp] at h
      cases h
    · rintro ⟨q, hq, ⟨-, hfile⟩, habove⟩
      exact ⟨q, by rwa [hjoin, if_pos hq], habove⟩
    · rintro ⟨q, hfile, habove⟩
      rw [hjoin] at hfile
      split at hfile
      · rename_i hq
        exact ⟨q, hq, ⟨fileAt_empty q, hfile⟩, habove⟩
      · exact absurd rfl hfile

/-- The run succeeds when no file it writes lies above another. -/
theorem exists_run (h : ∀ p q c d, outcome old cur new p = some (some c) →
    outcome old cur new q = some (some d) → p <+: q → p = q) :
    ∃ t conflicts,
      rebasePaths old cur new .empty [] (rebasedPaths old cur new) = .ok (t, conflicts) := by
  have hmerged : ∀ p ∈ rebasedPaths old cur new, mergedFile old cur new p ≠ none →
      ∃ c, outcome old cur new p = some (some c) := by
    intro p hp hfile
    obtain ⟨c, hc⟩ := Option.ne_none_iff_exists'.mp hfile
    exact ⟨c, (if_pos hp).trans (Option.join_eq_some_iff.mp hc)⟩
  have hapart : Apartness old cur new ([] ++ rebasedPaths old cur new) := by
    intro p hp q hq hp' hq' habove
    obtain ⟨c, hc⟩ := hmerged p hp hp'
    obtain ⟨d, hd⟩ := hmerged q hq hq'
    exact h p q c d hc hd habove
  obtain ⟨⟨t, conflicts⟩, hr⟩ := rebasePaths_isOk (fun p hp => ne_nil_of_mem hp) hapart
    (Overlaid.start (mergedFile old cur new) plain_empty)
  exact ⟨t, conflicts, hr⟩

end Results

/-! ## The reference merge -/

section Reference

variable {old cur new t : Dir} {conflicts : List String} {sha256 : Bytes → String}

/-- The rebase succeeds, its conflicts are those of the reference, and the merged
directory holds the reference's file at every other path. -/
def MergesAsReference (sha256 : Bytes → String) (old cur new : Dir) : Prop :=
  ∃ forked conflicts t, RebaseDirectoryThreeWay old cur new sha256 = .ok (forked, conflicts, t) ∧
    (∀ p, relPath p ∈ conflicts ↔ referenceMerge old cur new p = none) ∧
    ∀ p, fileAt t p = (referenceMerge old cur new p).join

/-- A current file that adds nothing to the two bases: each of its lines is of one. -/
def Follows (o c n : Option Bytes) : Prop :=
  c = o ∨ c = n ∨ ∃ old cur new, o = some old ∧ c = some cur ∧ n = some new ∧
    (cur.splitOn newline).length = (old.splitOn newline).length ∧
    (new.splitOn newline).length = (old.splitOn newline).length ∧
    ∀ i : Nat, (cur.splitOn newline)[i]? = (old.splitOn newline)[i]? ∨
      (cur.splitOn newline)[i]? = (new.splitOn newline)[i]?

/-- No collected file is deleted on both sides, nothing remains of what is not
collected, and no merged file lies above another. -/
structure Mergeable (old cur new : Dir) : Prop where
  deleted : ∀ p, Collected p → fileAt cur p = none → fileAt new p = none → fileAt old p = none
  skipped : ∀ p, ¬ Collected p →
    (fileAt cur p = none ∧ (fileAt new p = none ∨ fileAt new p = fileAt old p)) ∨
      (fileAt new p = none ∧ fileAt cur p = fileAt old p)
  apart : ∀ p q c d, referenceMerge old cur new p = some (some c) →
    referenceMerge old cur new q = some (some d) → p <+: q → p = q

theorem textMerge_eq_right {o c n : Bytes} : textMerge o c n = some n ↔
    (c.splitOn newline).length = (o.splitOn newline).length ∧
    (n.splitOn newline).length = (o.splitOn newline).length ∧
    ∀ i : Nat, (c.splitOn newline)[i]? = (o.splitOn newline)[i]? ∨
      (c.splitOn newline)[i]? = (n.splitOn newline)[i]? := by
  rw [← ThreeWay.lines_eq_right]
  constructor
  · exact splitOn_textMerge
  · intro h
    rw [textMerge, h, Option.map_some, List.intercalate_splitOn]

theorem file_eq_right {o c n : Option Bytes} :
    ThreeWay.file textMerge o c n = some n ↔ Follows o c n := by
  rw [ThreeWay.file_eq_some, ThreeWay.value_eq_right]
  constructor
  · rintro ((h | h) | ⟨-, o', c', n', m', rfl, rfl, rfl, hm, heq⟩)
    · exact .inl h
    · exact .inr (.inl h)
    · cases heq
      exact .inr (.inr ⟨o', c', n', rfl, rfl, rfl, textMerge_eq_right.mp hm⟩)
  · rintro (h | h | ⟨o', c', n', rfl, rfl, rfl, hlines⟩)
    · exact .inl (.inl h)
    · exact .inl (.inr h)
    · cases hv : ThreeWay.value (some o') (some c') (some n') with
      | none =>
          exact .inr ⟨rfl, o', c', n', n', rfl, rfl, rfl, textMerge_eq_right.mpr hlines, rfl⟩
      | some m =>
          left
          rcases ThreeWay.value_eq_some.mp hv with ⟨hn, -⟩ | ⟨hc, -⟩ | ⟨hc, -⟩
          · cases hn
            refine .inl (congrArg some (splitOn_inj (List.ext_getElem? fun i => ?_)))
            exact (hlines.2.2 i).elim id id
          · exact .inl hc
          · exact .inr hc

/-- The merge as a whole: what holds at every path. -/
theorem agrees_iff (h : Outcomes old cur new t conflicts) :
    ((∀ p, relPath p ∈ conflicts ↔ referenceMerge old cur new p = none) ∧
      ∀ p, fileAt t p = (referenceMerge old cur new p).join) ↔
    ∀ p, outcome old cur new p = referenceMerge old cur new p := by
  constructor
  · rintro ⟨hconf, hfile⟩ p
    have hnone := (h.conflict p).symm.trans (hconf p)
    have hjoin := (h.file p).symm.trans (hfile p)
    cases ho : outcome old cur new p with
    | none => exact (hnone.mp ho).symm
    | some x =>
        cases hr : referenceMerge old cur new p with
        | none => exact absurd (hnone.mpr hr) (by rw [ho]; simp)
        | some y =>
            rw [ho, hr] at hjoin
            exact congrArg some hjoin
  · intro hall
    exact ⟨fun p => by rw [h.conflict, hall], fun p => by rw [h.file, hall]⟩

theorem mergeable_of_outcomes (h : Outcomes old cur new t conflicts)
    (hall : ∀ p, outcome old cur new p = referenceMerge old cur new p) :
    Mergeable old cur new := by
  refine ⟨fun p hp hc hn => ?_, fun p hp => ?_, fun p q c d hc hd habove => ?_⟩
  · by_contra ho
    have hnone := (hall p).symm.trans (outcome_deleted hp hc hn ho)
    have habsent : referenceMerge old cur new p = some none :=
      referenceMerge_absent.mpr (.inl ⟨hc, .inl hn⟩)
    cases hnone.symm.trans habsent
  · exact referenceMerge_absent.mp ((hall p).symm.trans (outcome_of_not_collected hp))
  · by_contra hne
    have hfile : fileAt t p = some c := by rw [h.file, hall, hc]; rfl
    have hdir : t.node p = some .dir :=
      (h.dir p).mpr (.inr ⟨q, by rw [hall, hd]; exact nofun, habove, hne⟩)
    cases hfile.symm.trans (fileAt_of_dir hdir)

theorem outcome_of_mergeable (h : Mergeable old cur new) (p : Path) :
    outcome old cur new p = referenceMerge old cur new p := by
  by_cases hp : Collected p
  · exact outcome_of_collected hp (h.deleted p hp)
  · rw [outcome_of_not_collected hp, referenceMerge_absent.mpr (h.skipped p hp)]

theorem mergesAsReference_iff (sha256 : Bytes → String) (old cur new : Dir) :
    MergesAsReference sha256 old cur new ↔
      if DirectorySHA256 sha256 cur = DirectorySHA256 sha256 old ∨
          DirectorySHA256 sha256 cur = DirectorySHA256 sha256 new then
        ∀ p, Follows (fileAt old p) (fileAt cur p) (fileAt new p)
      else Mergeable old cur new := by
  by_cases hfast : DirectorySHA256 sha256 cur = DirectorySHA256 sha256 old ∨
      DirectorySHA256 sha256 cur = DirectorySHA256 sha256 new
  · rw [if_pos hfast, MergesAsReference, RebaseDirectoryThreeWay, if_pos hfast]
    constructor
    · rintro ⟨forked, conflicts, t, hrun, hconf, hfile⟩ p
      cases hrun
      rw [← file_eq_right]
      obtain ⟨m, hm⟩ := Option.ne_none_iff_exists'.mp fun hnone =>
        nomatch (hconf p).mpr hnone
      have hjoin := hfile p
      rw [hm] at hjoin
      exact hm.trans (congrArg some hjoin.symm)
    · intro h
      have href : ∀ p, referenceMerge old cur new p = some (fileAt new p) := fun p =>
        file_eq_right.mpr (h p)
      refine ⟨_, _, _, rfl, fun p => ?_, fun p => ?_⟩
      · simp [href]
      · rw [href]
        rfl
  · rw [if_neg hfast, MergesAsReference, RebaseDirectoryThreeWay, if_neg hfast]
    constructor
    · rintro ⟨forked, conflicts, t, hrun, hagree⟩
      split at hrun
      · cases hrun
      · rename_i t' conflicts' hrun'
        cases hrun
        have hout := outcomes_of_run hrun'
        exact mergeable_of_outcomes hout ((agrees_iff hout).mp hagree)
    · intro h
      have hall := outcome_of_mergeable h
      obtain ⟨t, conflicts, hrun⟩ : ∃ t conflicts, rebasePaths old cur new .empty []
          (rebasedPaths old cur new) = .ok (t, conflicts) := exists_run fun p q c d hc hd =>
        h.apart p q c d ((hall p).symm.trans hc) ((hall q).symm.trans hd)
      rw [hrun]
      exact ⟨true, conflicts, t, rfl, (agrees_iff (outcomes_of_run hrun)).mpr hall⟩

/-- A skill that one side made. -/
def addedSkill : Dir := put .empty [skillMd] (regularFile "y")

end Reference

/-! ## A file that both sides deleted -/

section Deleted

theorem digested_addedSkill : digested addedSkill = chunk addedSkill [skillMd] := by
  rw [digested, hashedPaths, sortedPaths_eq (l := [[skillMd]]) (by decide +kernel)
    (by decide +kernel)]
  decide +kernel

end Deleted

end Openlia.Skills
