import Mathlib.Order.Bounds.Basic
import Mathlib.Tactic.Common

/-! # Longest common sublists

The lengths of the lists that are in order in both of two lists, and the greatest of
them by how the two lists begin.
-/

namespace Openlia.Lib

variable {α : Type} {a b : List α} {x y : α} {m n : Nat}

/-- The lengths of the common sublists. -/
def commonLengths (a b : List α) : Set Nat :=
  {n | ∃ l : List α, l.Sublist a ∧ l.Sublist b ∧ l.length = n}

/-- The length of a longest common sublist. -/
def IsLongest (n : Nat) (a b : List α) : Prop := IsGreatest (commonLengths a b) n

theorem IsLongest.unique (h : IsLongest m a b) (h' : IsLongest n a b) : m = n :=
  IsGreatest.unique h h'

theorem isLongest_nil_left (b : List α) : IsLongest 0 ([] : List α) b := by
  refine ⟨⟨[], List.nil_sublist _, List.nil_sublist _, rfl⟩, ?_⟩
  rintro n ⟨l, hl, -, rfl⟩
  rw [List.sublist_nil.mp hl]
  exact Nat.le_refl 0

theorem isLongest_nil_right (a : List α) : IsLongest 0 a ([] : List α) := by
  refine ⟨⟨[], List.nil_sublist _, List.nil_sublist _, rfl⟩, ?_⟩
  rintro n ⟨l, -, hl, rfl⟩
  rw [List.sublist_nil.mp hl]
  exact Nat.le_refl 0

/-- An element that both lists begin with belongs to a longest common sublist. -/
theorem IsLongest.cons (h : IsLongest n a b) (x : α) : IsLongest (n + 1) (x :: a) (x :: b) := by
  obtain ⟨⟨l, hla, hlb, rfl⟩, hmax⟩ := h
  refine ⟨⟨x :: l, hla.cons_cons x, hlb.cons_cons x, rfl⟩, ?_⟩
  rintro n ⟨l', hla', hlb', rfl⟩
  have htail := hmax ⟨l'.tail, hla'.tail, hlb'.tail, rfl⟩
  rw [List.length_tail] at htail
  omega

/-- Of two different first elements one is left out. -/
theorem IsLongest.cons_of_ne (hxy : x ≠ y) (hm : IsLongest m a (y :: b))
    (hn : IsLongest n (x :: a) b) :
    IsLongest (max m n) (x :: a) (y :: b) := by
  constructor
  · rcases Nat.le_total m n with hle | hle
    · obtain ⟨⟨l, hla, hlb, hlen⟩, -⟩ := hn
      exact ⟨l, hla, hlb.cons y, hlen.trans (max_eq_right hle).symm⟩
    · obtain ⟨⟨l, hla, hlb, hlen⟩, -⟩ := hm
      exact ⟨l, hla.cons x, hlb, hlen.trans (max_eq_left hle).symm⟩
  · rintro k ⟨l, hla, hlb, rfl⟩
    rcases List.sublist_cons_iff.mp hla with hla' | ⟨l', rfl, hla'⟩
    · exact (hm.2 ⟨l, hla', hlb, rfl⟩).trans (le_max_left m n)
    · -- The list begins with `x`, so it does not use `y`.
      rcases List.sublist_cons_iff.mp hlb with hlb' | ⟨l, hl, -⟩
      · exact (hn.2 ⟨x :: l', hla, hlb', rfl⟩).trans (le_max_right m n)
      · exact absurd (List.cons.inj hl).1 hxy

end Openlia.Lib
