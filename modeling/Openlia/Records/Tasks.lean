import Openlia.Records.Checklist

/-! # Lines of tasks

A line that is a task has its flag at one place, whatever the flag is. It is no fence
and no heading.
-/

namespace Openlia.Records

open Lib
open Browser (isSpace)

/-! ## The flag of a task -/

/-- The line is a task with the flag at a place. -/
structure IsTask (line : Text) (place : Nat) (flag : Char) (text : Text) : Prop where
  parts : ∃ a marker b r, line = a ++ marker :: (b ++ '[' :: flag :: ']' :: r) ∧
    place = a.length + 1 + b.length + 1 ∧ a.all isBlank = true ∧ isMarker marker = true ∧
    b.all isBlank = true ∧ b ≠ [] ∧ itemText r = some text
  flag : isFlag flag = true

section Task

variable {line text : Text} {place : Nat} {flag c : Char}

theorem isSpace_of_isBlank (h : isBlank c = true) : isSpace c = true := by
  simp only [isBlank, Bool.or_eq_true, decide_eq_true_eq] at h
  rcases h with rfl | rfl <;> decide

theorem marker_cases (h : isMarker c = true) : c = '-' ∨ c = '*' ∨ c = '+' := by
  simpa [isMarker, or_assoc] using h

theorem flag_cases (h : isFlag c = true) : c = ' ' ∨ c = 'x' ∨ c = 'X' := by
  simpa [isFlag, or_assoc] using h

/-- A run of a class before a character that is not of the class. -/
theorem dropWhile_run {p : Char → Bool} {a s : Text} (ha : a.all p = true) (hc : p c = false) :
    (a ++ c :: s).dropWhile p = c :: s ∧ (a ++ c :: s).takeWhile p = a := by
  induction a with
  | nil =>
      rw [List.nil_append, List.dropWhile_cons, List.takeWhile_cons, hc]
      exact ⟨rfl, rfl⟩
  | cons d a ih =>
      rw [List.all_cons, Bool.and_eq_true] at ha
      obtain ⟨hdrop, htake⟩ := ih ha.2
      rw [List.cons_append, List.dropWhile_cons, List.takeWhile_cons, if_pos ha.1, if_pos ha.1,
        hdrop, htake]
      exact ⟨rfl, rfl⟩

theorem eq_run_append (p : Char → Bool) (s : Text) :
    (s.takeWhile p).all p = true ∧ s = s.takeWhile p ++ s.dropWhile p := by
  refine ⟨?_, List.takeWhile_append_dropWhile.symm⟩
  induction s with
  | nil => rfl
  | cons c s ih =>
      rw [List.takeWhile_cons]
      split
      · rename_i hc
        rw [List.all_cons, hc, ih]
        rfl
      · rfl

theorem isTask_of_task? (h : task? line = some (flag, text)) :
    ∃ place, IsTask line place flag text := by
  unfold task? at h
  split at h
  · rename_i marker s hline
    split at h
    · rename_i hmarker
      rw [Bool.and_eq_true] at hmarker
      split at h
      · rename_i flag' r hs
        split at h
        · rename_i hflag
          obtain ⟨text', htext, hpair⟩ := Option.map_eq_some_iff.mp h
          cases hpair
          obtain ⟨ha, hsplit⟩ := eq_run_append isBlank line
          obtain ⟨hb, hsplit'⟩ := eq_run_append isBlank s
          rw [hline] at hsplit
          rw [hs] at hsplit'
          refine ⟨_, ⟨line.takeWhile isBlank, marker, s.takeWhile isBlank, r, ?_, rfl, ha,
            hmarker.1, hb, ?_, htext⟩, hflag⟩
          · rw [← hsplit']
            exact hsplit
          · intro hnil
            obtain ⟨_, hblank⟩ := hmarker
            rw [hsplit', hnil] at hblank
            exact absurd hblank (by rw [List.nil_append]; exact Bool.false_ne_true)
        · cases h
      · cases h
    · cases h
  · cases h

theorem blank_bracket : isBlank '[' = false := by decide

theorem blank_marker (h : isMarker c = true) : isBlank c = false := by
  rcases marker_cases h with rfl | rfl | rfl <;> decide

theorem space_marker (h : isMarker c = true) : isSpace c = false := by
  rcases marker_cases h with rfl | rfl | rfl <;> decide

theorem IsTask.task? (h : IsTask line place flag text) : task? line = some (flag, text) := by
  obtain ⟨⟨a, marker, b, r, rfl, rfl, ha, hmarker, hb, hne, htext⟩, hflag⟩ := h
  have hblank : (b ++ '[' :: flag :: ']' :: r).head?.any isBlank = true := by
    obtain ⟨d, b, rfl⟩ := List.exists_cons_of_ne_nil hne
    rw [List.all_cons, Bool.and_eq_true] at hb
    exact hb.1
  unfold Records.task?
  rw [(dropWhile_run ha (blank_marker hmarker)).1]
  dsimp only
  rw [hmarker, hblank, Bool.and_true, if_pos rfl, (dropWhile_run hb blank_bracket).1]
  show (if isFlag flag = true then (itemText r).map fun text => (flag, text) else none) = _
  rw [if_pos hflag, htext]
  rfl

theorem IsTask.length (h : IsTask line place flag text) : place < line.length := by
  obtain ⟨⟨a, marker, b, r, rfl, rfl, -⟩, -⟩ := h
  simp only [List.length_append, List.length_cons]
  omega

theorem IsTask.bracket (h : IsTask line place flag text) :
    0 < place ∧ (line : Text)[place - 1]? = some '[' ∧ (line : Text)[place]? = some flag := by
  obtain ⟨⟨a, marker, b, r, rfl, rfl, -⟩, -⟩ := h
  refine ⟨Nat.succ_pos _, ?_, ?_⟩
  · rw [Nat.add_sub_cancel, List.getElem?_append_right (by omega)]
    have hplace : a.length + 1 + b.length - a.length = b.length + 1 := by omega
    rw [hplace, List.getElem?_cons_succ, List.getElem?_append_right (Nat.le_refl _), Nat.sub_self]
    rfl
  · rw [List.getElem?_append_right (by omega)]
    have hplace : a.length + 1 + b.length + 1 - a.length = b.length + 1 + 1 := by omega
    rw [hplace, List.getElem?_cons_succ, List.getElem?_append_right (by omega),
      Nat.add_sub_cancel_left]
    rfl

/-- Another flag at the place. -/
theorem IsTask.set (h : IsTask line place flag text) (hc : isFlag c = true) :
    IsTask (line.set place c) place c text := by
  obtain ⟨⟨a, marker, b, r, rfl, rfl, ha, hmarker, hb, hne, htext⟩, hflag⟩ := h
  refine ⟨⟨a, marker, b, r, ?_, rfl, ha, hmarker, hb, hne, htext⟩, hc⟩
  have hplace : a.length + 1 + b.length + 1 - a.length = b.length + 1 + 1 := by omega
  rw [List.set_append_right _ _ (by omega), hplace, List.set_cons_succ,
    List.set_append_right _ _ (by omega), Nat.add_sub_cancel_left]
  rfl

/-- The replacement finds the flag of a task. -/
theorem IsTask.flagPlace? (h : IsTask line place flag text) : flagPlace? line = some place := by
  obtain ⟨⟨a, marker, b, r, rfl, rfl, ha, hmarker, hb, hne, -⟩, hflag⟩ := h
  have hspaces : ∀ s : Text, s.all isBlank = true → s.all isSpace = true := by
    intro s hs
    rw [List.all_eq_true] at hs ⊢
    exact fun d hd => isSpace_of_isBlank (hs d hd)
  have hspace : (b ++ '[' :: flag :: ']' :: r).head?.any isSpace = true := by
    obtain ⟨d, b, rfl⟩ := List.exists_cons_of_ne_nil hne
    rw [List.all_cons, Bool.and_eq_true] at hb
    exact isSpace_of_isBlank hb.1
  obtain ⟨hdrop, htake⟩ := dropWhile_run (s := b ++ '[' :: flag :: ']' :: r) (hspaces a ha)
    (space_marker hmarker)
  obtain ⟨hdrop', htake'⟩ := @dropWhile_run '[' isSpace b (flag :: ']' :: r) (hspaces b hb)
    (by decide)
  unfold Records.flagPlace?
  rw [hdrop, htake]
  dsimp only
  rw [hmarker, hspace, Bool.and_true, if_pos rfl, hdrop', htake']
  exact if_pos hflag

end Task

/-! ## A task is no fence and no heading -/

section NoMatch

open Regex

variable {line text : Text} {place : Nat} {flag : Char} {r : Regex}

/-- After its blanks the text starts with a marker. -/
def Marked (s : Text) : Prop := ∃ marker, (s.dropWhile isBlank).head? = some marker ∧
  isMarker marker = true

theorem IsTask.marked (h : IsTask line place flag text) : Marked line := by
  obtain ⟨⟨a, marker, b, r, rfl, -, ha, hmarker, -⟩, -⟩ := h
  exact ⟨marker, by rw [(dropWhile_run ha (blank_marker hmarker)).1]; rfl, hmarker⟩

theorem Marked.tail {c : Char} {s : Text} (h : Marked (c :: s)) (hc : isBlank c = true) :
    Marked s := by
  obtain ⟨marker, hhead, hmarker⟩ := h
  rw [List.dropWhile_cons, if_pos hc] at hhead
  exact ⟨marker, hhead, hmarker⟩

/-- What fails at a marker and at a blank fails after an indentation. -/
theorem fails_indented (hr : ∀ before after groups, Marked after → r.Fails ⟨before, after, groups⟩)
    {before after : Text} {groups : List (String × Text)} (h : Marked after) :
    (indented r).Fails ⟨before, after, groups⟩ := by
  have hopt : ∀ r' : Regex,
      (∀ before after groups, Marked after → r'.Fails ⟨before, after, groups⟩) →
      ∀ before after groups, Marked after →
        ((opt (.char isBlank)).seq r').Fails ⟨before, after, groups⟩ := by
    intro r' hr' before after groups h β k
    show ((Regex.char isBlank).run (fun s => r'.run k s) ⟨before, after, groups⟩).or
      (r'.run k ⟨before, after, groups⟩) = none
    rw [hr' before after groups h, Option.or_none]
    cases after with
    | nil => rfl
    | cons c after =>
        show (if isBlank c = true then r'.run k ⟨c :: before, after, groups⟩ else none) = none
        by_cases hc : isBlank c = true
        · rw [if_pos hc, hr' _ _ _ (h.tail hc)]
        · rw [if_neg hc]
  exact hopt _ (hopt _ (hopt _ hr)) before after groups h

theorem fails_char_of_marked {p : Char → Bool} (hblank : ∀ c, isBlank c = true → p c = false)
    (hmarker : ∀ c, isMarker c = true → p c = false) {before after : Text}
    {groups : List (String × Text)} (h : Marked after) :
    (Regex.char p).Fails ⟨before, after, groups⟩ := by
  refine fails_char fun c hc => ?_
  by_cases hb : isBlank c = true
  · exact hblank c hb
  · obtain ⟨marker, hhead, hm⟩ := h
    cases after with
    | nil => cases hc
    | cons d after =>
        cases hc
        rw [List.dropWhile_cons, if_neg hb] at hhead
        cases hhead
        exact hmarker c hm

theorem not_char (d : Char) (hblank : isBlank d = false) (hmarker : isMarker d = false) :
    (∀ c, isBlank c = true → decide (c = d) = false) ∧
      ∀ c, isMarker c = true → decide (c = d) = false := by
  refine ⟨fun c hc => decide_eq_false ?_, fun c hc => decide_eq_false ?_⟩
  · rintro rfl
    exact Bool.false_ne_true (hblank.symm.trans hc)
  · rintro rfl
    exact Bool.false_ne_true (hmarker.symm.trans hc)

theorem match1_of_fails {pattern : Regex} (h : pattern.Fails ⟨[], line, []⟩) :
    match1 pattern line = none := by
  rw [match1, Regex.matchAt, h]
  rfl

theorem IsTask.no_fence (h : IsTask line place flag text) : match1 fencePattern line = none := by
  refine match1_of_fails (fails_indented (fun before after groups hm β k => ?_) h.marked)
  obtain ⟨htick, htick'⟩ := not_char '\x60' (by decide) (by decide)
  obtain ⟨htilde, htilde'⟩ := not_char '~' (by decide) (by decide)
  have hleft : (run3 '\x60').Fails ⟨before, after, groups⟩ :=
    (fails_char_of_marked htick htick' hm).seq
  have hright : (run3 '~').Fails ⟨before, after, groups⟩ :=
    (fails_char_of_marked htilde htilde' hm).seq
  show ((run3 '\x60').run _ ⟨before, after, groups⟩).or ((run3 '~').run _ _) = none
  rw [hleft, hright]
  rfl

theorem IsTask.no_heading (h : IsTask line place flag text) :
    match1 h1Pattern line = none ∧ match1 h2Pattern line = none := by
  obtain ⟨hsharp, hsharp'⟩ := not_char '#' (by decide) (by decide)
  exact ⟨match1_of_fails (fails_indented
      (fun _ _ _ hm => (fails_char_of_marked hsharp hsharp' hm).seq) h.marked),
    match1_of_fails (fails_indented
      (fun _ _ _ hm => (fails_char_of_marked hsharp hsharp' hm).seq) h.marked)⟩

end NoMatch

end Openlia.Records
