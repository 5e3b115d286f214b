import Mathlib.Algebra.GroupWithZero.Nat
import Mathlib.Data.List.Infix
import Mathlib.Tactic.Common

/-! # Keeping what a budget affords

Items stand in the order in which they are wanted. What is kept is the longest part
from the front that the budget affords; whoever throws away from the other end until
the rest is affordable arrives at the same part.
-/

namespace Openlia.Lib

variable {α κ : Type}

/-- What items weigh together. -/
def load (w : α → Nat) (xs : List α) : Nat := (xs.map w).sum

@[simp] theorem load_nil (w : α → Nat) : load w [] = 0 := rfl

@[simp] theorem load_cons (w : α → Nat) (x : α) (xs : List α) :
    load w (x :: xs) = w x + load w xs := by
  simp [load]

@[simp] theorem load_append (w : α → Nat) (xs ys : List α) :
    load w (xs ++ ys) = load w xs + load w ys := by
  simp [load]

/-- What of the items a budget affords when `used` of it is taken. -/
def affordable (w : α → Nat) (budget : Nat) : Nat → List α → List α
  | _, [] => []
  | used, x :: xs =>
      if used + w x ≤ budget then x :: affordable w budget (used + w x) xs else []

variable {w : α → Nat} {budget : Nat}

theorem prefix_affordable (used : Nat) (xs : List α) : affordable w budget used xs <+: xs := by
  induction xs generalizing used with
  | nil => exact List.prefix_refl _
  | cons x xs ih =>
      unfold affordable
      split
      · exact (List.prefix_cons_inj x).mpr (ih _)
      · exact List.nil_prefix

/-- Nothing is kept beside what already takes more than the budget, and otherwise all
that is kept is within it. -/
theorem load_affordable (used : Nat) (xs : List α) :
    affordable w budget used xs = [] ∨ used + load w (affordable w budget used xs) ≤ budget := by
  induction xs generalizing used with
  | nil => exact .inl rfl
  | cons x xs ih =>
      by_cases hx : used + w x ≤ budget
      · right
        rw [affordable, if_pos hx, load_cons]
        rcases ih (used + w x) with hnil | hle
        · rw [hnil, load_nil]
          omega
        · omega
      · exact .inl (if_neg hx)

theorem affordable_eq_self {used : Nat} {xs : List α} (h : used + load w xs ≤ budget) :
    affordable w budget used xs = xs := by
  induction xs generalizing used with
  | nil => rfl
  | cons x xs ih =>
      rw [load_cons] at h
      rw [affordable, if_pos (by omega), ih (by omega)]

/-- The last item is not kept where all of them are too much. -/
theorem affordable_concat {used : Nat} {xs : List α} {x : α}
    (h : budget < used + load w (xs ++ [x])) :
    affordable w budget used (xs ++ [x]) = affordable w budget used xs := by
  induction xs generalizing used with
  | nil =>
      rw [List.nil_append, load_cons, load_nil] at h
      exact if_neg (by omega)
  | cons y ys ih =>
      rw [List.cons_append, load_cons] at h
      rw [List.cons_append, affordable, affordable]
      by_cases hy : used + w y ≤ budget
      · rw [if_pos hy, if_pos hy, ih (by omega)]
      · rw [if_neg hy, if_neg hy]

/-- An item is kept where it is affordable together with those before it. -/
theorem mem_affordable_of_le {used : Nat} {before rest : List α} {a : α}
    (h : used + load w (before ++ [a]) ≤ budget) :
    a ∈ affordable w budget used (before ++ a :: rest) := by
  induction before generalizing used with
  | nil =>
      rw [List.nil_append, load_cons, load_nil] at h
      rw [List.nil_append, affordable, if_pos (by omega)]
      exact List.mem_cons_self
  | cons x before ih =>
      rw [List.cons_append, load_cons] at h
      rw [List.cons_append, affordable, if_pos (by omega)]
      exact List.mem_cons_of_mem _ (ih (by omega))

/-- What is kept fits together with all that stands before it. -/
theorem exists_of_mem_affordable {used : Nat} {xs : List α} {a : α}
    (h : a ∈ affordable w budget used xs) :
    ∃ before rest, xs = before ++ a :: rest ∧ used + load w (before ++ [a]) ≤ budget := by
  obtain ⟨tail, htail⟩ := @prefix_affordable _ w budget used xs
  obtain ⟨before, rest, hkept⟩ := List.append_of_mem h
  refine ⟨before, rest ++ tail, ?_, ?_⟩
  · rw [← htail, hkept, List.append_assoc, List.cons_append]
  · rcases @load_affordable _ w budget used xs with hnil | hle
    · rw [hnil] at h
      cases h
    · rw [hkept, load_append, load_cons] at hle
      rw [load_append, load_cons, load_nil]
      omega

/-! ## Lists told apart by a key -/

/-- What is left of a list without the items around a part of it. -/
theorem filter_around {f : α → κ} [DecidableEq κ] {before part after : List α}
    (h : ((before ++ part ++ after).map f).Nodup) :
    ((before ++ part ++ after).filter fun x => f x ∉ (before ++ after).map f) = part := by
  simp only [List.map_append, List.nodup_append] at h
  obtain ⟨⟨-, -, hbefore⟩, -, hafter⟩ := h
  have hpart : ∀ x ∈ part, f x ∉ (before ++ after).map f := by
    intro x hx hmem
    rw [List.map_append, List.mem_append] at hmem
    rcases hmem with hmem | hmem
    · exact hbefore (f x) hmem (f x) (List.mem_map_of_mem hx) rfl
    · exact hafter (f x) (List.mem_append_right _ (List.mem_map_of_mem hx)) (f x) hmem rfl
  have hout : ∀ xs : List α, (∀ x ∈ xs, x ∈ before ++ after) →
      (xs.filter fun x => f x ∉ (before ++ after).map f) = [] := by
    intro xs hxs
    refine List.filter_eq_nil_iff.mpr fun x hx => ?_
    rw [decide_eq_true_eq, not_not]
    exact List.mem_map_of_mem (hxs x hx)
  rw [List.filter_append, List.filter_append, hout before fun x => List.mem_append_left _,
    hout after fun x => List.mem_append_right _, List.nil_append, List.append_nil]
  exact List.filter_eq_self.mpr fun x hx => decide_eq_true (hpart x hx)

theorem filter_notMem_drop {f : α → κ} [DecidableEq κ] {xs : List α} (h : (xs.map f).Nodup)
    (n : Nat) : (xs.filter fun x => f x ∉ (xs.drop n).map f) = xs.take n := by
  have hsplit : [] ++ xs.take n ++ xs.drop n = xs := List.take_append_drop n xs
  have hpart := @filter_around _ _ f _ [] (xs.take n) (xs.drop n) (by rwa [hsplit])
  rwa [hsplit, List.nil_append] at hpart

end Openlia.Lib
