import Openlia.Records.Tasks

/-! # Frontmatter under another flag

Frontmatter is found by its dashes and its line breaks. A character after a bracket
has no part in that, so the body stays where it is.
-/

namespace Openlia.Records

/-- The texts differ in the flag after one bracket. -/
def Flipped (s s' : Text) : Prop :=
  ∃ a b f f', s = a ++ '[' :: f :: b ∧ s' = a ++ '[' :: f' :: b ∧ isFlag f = true ∧ isFlag f' = true

/-- What is left of the texts differs in that flag as well. -/
def Local (read : Text → Option Text) : Prop :=
  ∀ s s', Flipped s s' → Option.Rel Flipped (read s) (read s')

/-- What is left is the end of the text. -/
def Consumes (read : Text → Option Text) : Prop := ∀ s rest, read s = some rest → rest <:+ s

section Frontmatter

variable {s s' t : Text} {c d : Char} {read next : Text → Option Text}

theorem Flipped.length (h : Flipped s s') : s'.length = s.length := by
  obtain ⟨a, b, f, f', rfl, rfl, -⟩ := h
  rw [List.length_append, List.length_append]
  rfl

theorem Flipped.cons_cases (h : Flipped (c :: s) t) :
    (∃ s', t = c :: s' ∧ Flipped s s') ∨
      ∃ b f f', c = '[' ∧ s = f :: b ∧ t = '[' :: f' :: b ∧ isFlag f = true ∧ isFlag f' = true := by
  obtain ⟨a, b, f, f', hs, rfl, hf, hf'⟩ := h
  cases a with
  | nil =>
      cases hs
      exact Or.inr ⟨b, f, f', rfl, rfl, rfl, hf, hf'⟩
  | cons c' a =>
      cases hs
      exact Or.inl ⟨_, rfl, a, b, f, f', rfl, rfl, hf, hf'⟩

theorem Local.bind (h : Local read) (hnext : Local next) : Local fun s => (read s).bind next := by
  intro s s' hs
  show Option.Rel Flipped ((read s).bind next) ((read s').bind next)
  cases hr : read s <;> cases hr' : read s' <;> have hrel := h s s' hs <;> rw [hr, hr'] at hrel
  · exact Option.Rel.none
  · cases hrel
  · cases hrel
  · cases hrel with
    | some hrest => exact hnext _ _ hrest

theorem Consumes.bind (h : Consumes read) (hnext : Consumes next) :
    Consumes fun s => (read s).bind next := by
  intro s rest hs
  obtain ⟨mid, hmid, hrest⟩ := Option.bind_eq_some_iff.mp hs
  exact (hnext mid rest hrest).trans (h s mid hmid)

/-- One character. -/
def expect (c : Char) : Text → Option Text
  | d :: s => if d = c then some s else none
  | [] => none

theorem expect_cons (c d : Char) (s : Text) :
    expect c (d :: s) = if d = c then some s else none := rfl

theorem expect_local (hc : c ≠ '[') : Local (expect c) := by
  intro s s' hs
  cases s with
  | nil =>
      obtain ⟨a, b, f, f', hnil, -⟩ := hs
      simp at hnil
  | cons d s =>
      rcases hs.cons_cases with ⟨s', rfl, hs'⟩ | ⟨b, f, f', rfl, rfl, rfl, -⟩
      · rw [expect_cons, expect_cons]
        by_cases hd : d = c
        · rw [if_pos hd, if_pos hd]
          exact Option.Rel.some hs'
        · rw [if_neg hd, if_neg hd]
          exact Option.Rel.none
      · rw [expect_cons, expect_cons, if_neg hc.symm, if_neg hc.symm]
        exact Option.Rel.none

theorem expect_consumes (c : Char) : Consumes (expect c) := by
  intro s rest h
  cases s with
  | nil => cases h
  | cons d s =>
      rw [expect_cons] at h
      by_cases hd : d = c
      · rw [if_pos hd] at h
        exact Option.some.inj h ▸ List.suffix_cons d s
      · rw [if_neg hd] at h
        cases h

theorem newline?_eq (s : Text) :
    newline? s = (expect '\n' s).or ((expect '\r' s).bind (expect '\n')) := by
  unfold newline?
  split
  · rfl
  · rfl
  · rename_i hlf hcrlf
    cases s with
    | nil => rfl
    | cons c s =>
        have hc : c ≠ '\n' := fun h => hlf s (by rw [h])
        rw [expect_cons, expect_cons, if_neg hc, Option.none_or]
        by_cases hr : c = '\r'
        · rw [if_pos hr, Option.bind_some]
          cases s with
          | nil => rfl
          | cons d s =>
              have hd : d ≠ '\n' := fun h => hcrlf s (by rw [hr, h])
              rw [expect_cons, if_neg hd]
        · rw [if_neg hr]
          rfl

theorem newline?_local : Local newline? := by
  intro s s' hs
  have hlf := expect_local (c := '\n') (by decide) s s' hs
  have hcrlf := (expect_local (c := '\r') (by decide)).bind (expect_local (c := '\n') (by decide))
    s s' hs
  rw [newline?_eq, newline?_eq]
  cases hr : expect '\n' s <;> cases hr' : expect '\n' s' <;> rw [hr, hr'] at hlf
  · rw [Option.none_or, Option.none_or]
    exact hcrlf
  · cases hlf
  · cases hlf
  · rw [Option.some_or, Option.some_or]
    exact hlf

theorem newline?_consumes : Consumes newline? := by
  intro s rest h
  rw [newline?_eq, Option.or_eq_some_iff] at h
  rcases h with h | ⟨-, h⟩
  · exact expect_consumes '\n' s rest h
  · exact (expect_consumes '\r').bind (expect_consumes '\n') s rest h

theorem dashes?_eq (s : Text) : dashes? s = (((expect '-' s).bind (expect '-')).bind
    (expect '-')).bind fun s => some (s.dropWhile isBlank) := by
  unfold dashes?
  split
  · rfl
  · rename_i hdashes
    rcases s with _ | ⟨c, _ | ⟨d, _ | ⟨e, s⟩⟩⟩ <;> unfold expect
    · rfl
    · by_cases hc : c = '-' <;> simp [hc]
    · by_cases hc : c = '-' <;> by_cases hd : d = '-' <;> simp [hc, hd]
    · have hne : ¬ (c = '-' ∧ d = '-' ∧ e = '-') := by
        rintro ⟨rfl, rfl, rfl⟩
        exact hdashes s rfl
      by_cases hc : c = '-' <;> by_cases hd : d = '-' <;> by_cases he : e = '-' <;>
        simp_all

theorem dropBlanks_local : Local fun s => some (s.dropWhile isBlank) := by
  rintro s s' ⟨a, b, f, f', rfl, rfl, hf, hf'⟩
  refine Option.Rel.some ?_
  induction a with
  | nil => exact ⟨[], b, f, f', rfl, rfl, hf, hf'⟩
  | cons c a ih =>
      rw [List.cons_append, List.cons_append, List.dropWhile_cons, List.dropWhile_cons]
      by_cases hc : isBlank c = true
      · rw [if_pos hc, if_pos hc]
        exact ih
      · rw [if_neg hc, if_neg hc]
        exact ⟨c :: a, b, f, f', rfl, rfl, hf, hf'⟩

theorem dashes?_local : Local dashes? := by
  have hdash : Local (expect '-') := expect_local (by decide)
  intro s s' hs
  rw [dashes?_eq, dashes?_eq]
  exact ((hdash.bind hdash).bind hdash).bind dropBlanks_local s s' hs

theorem dashes?_consumes : Consumes dashes? := by
  have hdash := expect_consumes '-'
  have hblanks : Consumes fun s => some (s.dropWhile isBlank) := by
    intro s rest h
    obtain rfl := Option.some.inj h
    exact List.dropWhile_suffix _
  intro s rest h
  rw [dashes?_eq] at h
  exact ((hdash.bind hdash).bind hdash).bind hblanks s rest h

theorem endsLine_local : Local endsLine := by
  intro s s' hs
  have hnewline : ∀ a b f, endsLine (a ++ '[' :: f :: b) = newline? (a ++ '[' :: f :: b) := by
    intro a b f
    unfold endsLine
    cases newline? (a ++ '[' :: f :: b) with
    | some rest => rfl
    | none => exact if_neg (by simp)
  have hrel := newline?_local s s' hs
  obtain ⟨a, b, f, f', rfl, rfl, -⟩ := hs
  rw [hnewline, hnewline]
  exact hrel

theorem endsLine_consumes : Consumes endsLine := by
  intro s rest h
  unfold endsLine at h
  cases hs : newline? s with
  | some body =>
      rw [hs] at h
      cases h
      exact newline?_consumes s _ hs
  | none =>
      rw [hs] at h
      dsimp only at h
      split at h
      · cases h
        exact List.nil_suffix
      · cases h

theorem endsAnywhere_consumes : Consumes endsAnywhere := by
  intro s rest h
  unfold endsAnywhere at h
  cases hs : newline? s with
  | some body =>
      rw [hs] at h
      cases h
      exact newline?_consumes s _ hs
  | none =>
      rw [hs] at h
      dsimp only at h
      split at h
      · cases h
        exact List.suffix_cons _ _
      · cases h
        exact List.suffix_rfl

theorem afterClosing_consumes (h : Consumes next) : Consumes (afterClosing next) := by
  intro s rest hs
  induction s with
  | nil => cases hs
  | cons c s ih =>
      unfold afterClosing at hs
      cases hclosing : (closing? (c :: s)).bind next with
      | some body =>
          rw [hclosing] at hs
          cases hs
          exact ((newline?_consumes.bind dashes?_consumes).bind h) _ _ hclosing
      | none =>
          rw [hclosing] at hs
          exact (ih hs).trans (List.suffix_cons c s)

theorem bodyAfter_suffix (h : Consumes next) (content : Text) :
    bodyAfter next content <:+ content := by
  unfold bodyAfter
  cases hbody : (opening? content).bind (afterClosing next) with
  | none => exact List.suffix_rfl
  | some body =>
      exact ((dashes?_consumes.bind newline?_consumes).bind (afterClosing_consumes h)) content body
        hbody

/-- The frontmatter is closed at the same place. -/
theorem afterClosing_flipped (h : Local next) (hs : Flipped s s') :
    Option.Rel (fun rest rest' => rest'.length = rest.length) (afterClosing next s)
      (afterClosing next s') := by
  induction s generalizing s' with
  | nil =>
      obtain ⟨a, b, f, f', hnil, -⟩ := hs
      simp at hnil
  | cons c s ih =>
      have hrel := ((newline?_local.bind dashes?_local).bind h) _ _ hs
      rcases hs.cons_cases with ⟨s', rfl, hs'⟩ | ⟨b, f, f', rfl, rfl, rfl, hf, hf'⟩
      · unfold afterClosing
        have hrel' : Option.Rel Flipped ((closing? (c :: s)).bind next)
          ((closing? (c :: s')).bind next) := hrel
        cases hr : (closing? (c :: s)).bind next <;> cases hr' : (closing? (c :: s')).bind next <;>
          rw [hr, hr'] at hrel'
        · exact ih hs'
        · cases hrel'
        · cases hrel'
        · cases hrel' with
          | some hrest => exact Option.Rel.some hrest.length
      · -- Neither the bracket nor the flag starts a line.
        have hflag : ∀ d, isFlag d = true →
            afterClosing next ('[' :: d :: b) = afterClosing next b := by
          intro d hd
          rcases flag_cases hd with rfl | rfl | rfl <;> rfl
        rw [hflag f hf, hflag f' hf']
        cases afterClosing next b with
        | none => exact Option.Rel.none
        | some rest => exact Option.Rel.some rfl

theorem bodyAfter_flipped (hs : Flipped s s') :
    (bodyAfter endsLine s').length = (bodyAfter endsLine s).length := by
  unfold bodyAfter
  have hrel := dashes?_local.bind newline?_local s s' hs
  have hrel' : Option.Rel Flipped (opening? s) (opening? s') := hrel
  cases ho : opening? s <;> cases ho' : opening? s' <;> rw [ho, ho'] at hrel'
  · exact hs.length
  · cases hrel'
  · cases hrel'
  · rename_i rest rest'
    cases hrel' with
    | some hrest =>
        have hafter := afterClosing_flipped endsLine_local hrest
        rw [Option.bind_some, Option.bind_some]
        cases ha : afterClosing endsLine rest <;> cases ha' : afterClosing endsLine rest' <;>
          rw [ha, ha'] at hafter
        · exact hs.length
        · cases hafter
        · cases hafter
        · cases hafter with
          | some hlength => exact hlength

end Frontmatter

end Openlia.Records
