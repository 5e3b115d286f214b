import Mathlib.Data.List.Perm.Basic
import Mathlib.Data.List.Count
import Mathlib.Tactic.Common

/-! # Items that are tried again

In each round the items at the front are tried in order. One that is done leaves, one that is
refused stays, and one whose failure is not caught ends the round.
-/

namespace Openlia.Lib.Retry

variable {S A : Type}

inductive Outcome (S : Type) where
  | done (s : S)
  | refused
  | escaped

/-- The state afterwards, the items that stay and whether the round came to its end. -/
def sweep (attempt : S → A → Outcome S) : S → List A → S × List A × Bool
  | s, [] => (s, [], true)
  | s, a :: rest =>
      match attempt s a with
      | .done s' => sweep attempt s' rest
      | .refused =>
          let r := sweep attempt s rest
          (r.1, a :: r.2.1, r.2.2)
      | .escaped => (s, a :: rest, false)

/-- What a done item preserves: an invariant of the states, and an order in which they grow. -/
structure Growing (attempt : S → A → Outcome S) (ok : A → Prop) (I : S → Prop)
    (R : S → S → Prop) : Prop where
  refl : ∀ s, R s s
  trans : ∀ {s₁ s₂ s₃}, R s₁ s₂ → R s₂ s₃ → R s₁ s₃
  keeps : ∀ {s a s'}, ok a → I s → attempt s a = .done s' → I s'
  grows : ∀ {s a s'}, attempt s a = .done s' → R s s'
  caught : ∀ {s a}, ok a → attempt s a ≠ .escaped

section Sweep

variable {attempt : S → A → Outcome S} {ok : A → Prop} {I : S → Prop} {R : S → S → Prop}
  {s : S} {items : List A}

theorem sweep_done {a : A} {s' : S} (h : attempt s a = .done s') :
    sweep attempt s (a :: items) = sweep attempt s' items := by
  simp [sweep, h]

theorem sweep_refused {a : A} (h : attempt s a = .refused) :
    sweep attempt s (a :: items) =
      ((sweep attempt s items).1, a :: (sweep attempt s items).2.1,
        (sweep attempt s items).2.2) := by
  simp [sweep, h]

theorem sweep_sublist (s : S) (items : List A) : (sweep attempt s items).2.1.Sublist items := by
  induction items generalizing s with
  | nil => exact List.Sublist.refl _
  | cons a items ih =>
      simp only [sweep]
      cases attempt s a with
      | done s' => exact (ih s').cons a
      | refused => exact (ih s).cons_cons a
      | escaped => exact List.Sublist.refl _

theorem sweep_grows (h : Growing attempt ok I R) (s : S) (items : List A) :
    R s (sweep attempt s items).1 := by
  induction items generalizing s with
  | nil => exact h.refl s
  | cons a items ih =>
      simp only [sweep]
      cases hattempt : attempt s a with
      | done s' => exact h.trans (h.grows hattempt) (ih s')
      | refused => exact ih s
      | escaped => exact h.refl s

theorem sweep_keeps (h : Growing attempt ok I R) (hok : ∀ a ∈ items, ok a) (hs : I s) :
    I (sweep attempt s items).1 ∧ (sweep attempt s items).2.2 = true := by
  induction items generalizing s with
  | nil => exact ⟨hs, rfl⟩
  | cons a items ih =>
      have hrest : ∀ b ∈ items, ok b := fun b hb => hok b (List.mem_cons_of_mem a hb)
      have ha := hok a List.mem_cons_self
      simp only [sweep]
      cases hattempt : attempt s a with
      | done s' => exact ih hrest (h.keeps ha hs hattempt)
      | refused => exact ih hrest hs
      | escaped => exact absurd hattempt (h.caught ha)

/-- What leaves was done, and the state has grown from there. -/
theorem sweep_left (h : Growing attempt ok I R) {a : A} (ha : a ∈ items)
    (hleft : a ∉ (sweep attempt s items).2.1) :
    ∃ s₁ s₂, attempt s₁ a = .done s₂ ∧ R s₂ (sweep attempt s items).1 := by
  induction items generalizing s with
  | nil => contradiction
  | cons b items ih =>
      cases hattempt : attempt s b with
      | done s' =>
          rw [sweep_done hattempt] at hleft ⊢
          rcases List.mem_cons.mp ha with rfl | ha
          · exact ⟨s, s', hattempt, sweep_grows h s' items⟩
          · exact ih ha hleft
      | refused =>
          rw [sweep_refused hattempt] at hleft ⊢
          obtain ⟨hne, hleft⟩ := not_or.mp (List.mem_cons.not.mp hleft)
          exact ih ((List.mem_cons.mp ha).resolve_left hne) hleft
      | escaped =>
          simp only [sweep, hattempt] at hleft
          contradiction

/-- The state is that of the done items alone. -/
theorem sweep_alone (attempt : S → A → Outcome S) (s : S) (items : List A) :
    ∃ left, left.Sublist items ∧ items.Perm (left ++ (sweep attempt s items).2.1) ∧
      sweep attempt s left = ((sweep attempt s items).1, [], true) := by
  induction items generalizing s with
  | nil => exact ⟨[], List.Sublist.refl _, List.Perm.refl _, rfl⟩
  | cons a items ih =>
      cases hattempt : attempt s a with
      | done s' =>
          obtain ⟨left, hsublist, hperm, hleft⟩ := ih s'
          refine ⟨a :: left, hsublist.cons_cons a, ?_, ?_⟩
          · rw [sweep_done hattempt]
            exact hperm.cons a
          · rw [sweep_done hattempt, sweep_done hattempt, hleft]
      | refused =>
          obtain ⟨left, hsublist, hperm, hleft⟩ := ih s
          refine ⟨left, hsublist.cons a, ?_, ?_⟩
          · rw [sweep_refused hattempt]
            exact (hperm.cons a).trans List.perm_middle.symm
          · rw [hleft, sweep_refused hattempt]
      | escaped =>
          refine ⟨[], List.nil_sublist _, ?_, ?_⟩
          · simp [sweep, hattempt]
          · simp [sweep, hattempt]

/-- Items that are done in every state of the invariant leave in the round. -/
theorem sweep_good (h : Growing attempt ok I R) {good : A → Prop}
    (hgood : ∀ {s a}, I s → good a → ∃ s', attempt s a = .done s') (hok : ∀ a ∈ items, ok a)
    (hs : I s) : ∀ a ∈ (sweep attempt s items).2.1, ¬ good a := by
  induction items generalizing s with
  | nil => simp [sweep]
  | cons b items ih =>
      have hrest : ∀ a ∈ items, ok a := fun a ha => hok a (List.mem_cons_of_mem b ha)
      have hb := hok b List.mem_cons_self
      cases hattempt : attempt s b with
      | done s' =>
          rw [sweep_done hattempt]
          exact ih hrest (h.keeps hb hs hattempt)
      | refused =>
          rw [sweep_refused hattempt]
          intro a ha
          rcases List.mem_cons.mp ha with rfl | ha
          · intro hga
            obtain ⟨s', hs'⟩ := hgood hs hga
            rw [hattempt] at hs'
            contradiction
          · exact ih hrest hs a ha
      | escaped => exact absurd hattempt (h.caught hb)

end Sweep

/-! ## Places at the front -/

section Front

variable {good : A → Prop} [DecidablePred good] {items : List A} {width : Nat}

/-- With fewer other items than places a good item is at the front. -/
theorem exists_good_front (hothers : items.countP (fun a => ¬ good a) < width)
    (hsome : ∃ a ∈ items, good a) : ∃ a ∈ items.take width, good a := by
  by_contra hnone
  push Not at hnone
  have hall : (items.take width).countP (fun a => ¬ good a) = (items.take width).length := by
    rw [List.countP_eq_length]
    intro a ha
    exact decide_eq_true (hnone a ha)
  have hle := (List.take_sublist width items).countP_le (p := fun a => decide ¬ good a)
  rw [hall, List.length_take] at hle
  have hshort : items.length ≤ width := by omega
  obtain ⟨a, ha, hga⟩ := hsome
  rw [List.take_of_length_le hshort] at hnone
  exact hnone a ha hga

/-- If no good item at the front stays, there are fewer of them than before. -/
theorem countP_good_lt {kept : List A} (hkept : ∀ a ∈ kept, ¬ good a)
    (hothers : items.countP (fun a => ¬ good a) < width) (hsome : ∃ a ∈ items, good a) :
    (kept ++ items.drop width).countP (fun a => good a) < items.countP (fun a => good a) := by
  obtain ⟨a, ha, hga⟩ := exists_good_front hothers hsome
  have hzero : kept.countP (fun a => good a) = 0 := by
    rw [List.countP_eq_zero]
    intro b hb
    simpa using hkept b hb
  have hpos : 0 < (items.take width).countP (fun a => good a) := by
    rw [List.countP_pos_iff]
    exact ⟨a, ha, decide_eq_true hga⟩
  have hsplit : items.countP (fun a => good a) =
      (items.take width).countP (fun a => good a) +
        (items.drop width).countP (fun a => good a) := by
    rw [← List.countP_append, List.take_append_drop]
  rw [List.countP_append, hzero, hsplit]
  omega

end Front

end Openlia.Lib.Retry
