import Mathlib.Algebra.BigOperators.Group.List.Basic
import Mathlib.Algebra.Order.Group.Defs
import Mathlib.Algebra.Order.Group.Unbundled.Basic
import Mathlib.Algebra.Order.Monoid.Unbundled.MinMax
import Mathlib.Order.MinMax
import Mathlib.Tactic.Common

/-! # Meters

A meter is read again and again, out of order and more than once, and what is
recorded of a reading is its growth over the highest mark so far. The records add
up to the highest reading when every growth is recorded with its mark.
-/

namespace Openlia.Lib

/-- The growth of a reading over a mark. -/
structure Meter (α : Type) [LinearOrder α] [AddCommMonoid α] where
  growth : α → α → α
  exact : ∀ mark reading, mark + growth mark reading = max mark reading

def natMeter : Meter Nat where
  growth mark reading := reading - mark
  exact mark reading := by omega

def groupMeter (α : Type) [LinearOrder α] [AddCommGroup α] [IsOrderedAddMonoid α] : Meter α where
  growth mark reading := max 0 (reading - mark)
  exact mark reading := by
    rw [← max_add_add_left, add_zero, add_sub_cancel]

section Peak

variable {α : Type} [LinearOrder α] [AddCommMonoid α]

/-- The highest reading, or zero. -/
def peak (readings : List α) : α := readings.foldr max 0

theorem peak_concat (readings : List α) (x : α) :
    peak (readings ++ [x]) = max (peak readings) x := by
  induction readings with
  | nil => simp [peak, max_comm]
  | cons y ys ih =>
      show max y (peak (ys ++ [x])) = max (max y (peak ys)) x
      rw [ih, max_assoc]

theorem peak_nonneg (readings : List α) : 0 ≤ peak readings := by
  induction readings with
  | nil => exact le_rfl
  | cons y ys ih => exact ih.trans (le_max_right y _)

/-- The records add up to the mark, and the mark is the highest reading. -/
structure Exact (mark : α) (records readings : List α) : Prop where
  sum : records.sum = mark
  high : mark = peak readings

namespace Exact

variable {mark : α} {records readings : List α}

theorem start : Exact (0 : α) [] [] := ⟨rfl, rfl⟩

/-- A reading whose growth is recorded with its mark. -/
theorem record (h : Exact mark records readings) (m : Meter α) (x : α) :
    Exact (max mark x) (records ++ [m.growth mark x]) (readings ++ [x]) where
  sum := by rw [List.sum_append, List.sum_singleton, h.sum, m.exact]
  high := by rw [peak_concat, ← h.high]

/-- A reading that is not above the mark needs no record. -/
theorem skip (h : Exact mark records readings) {x : α} (hx : x ≤ mark) :
    Exact mark records (readings ++ [x]) where
  sum := h.sum
  high := by rw [peak_concat, ← h.high, max_eq_left hx]

/-- A record of nothing. -/
theorem idle (h : Exact mark records readings) : Exact mark (records ++ [0]) readings where
  sum := by rw [List.sum_append, List.sum_singleton, add_zero, h.sum]
  high := h.high

theorem nonneg (h : Exact mark records readings) : 0 ≤ mark := h.high ▸ peak_nonneg readings

theorem total (h : Exact mark records readings) : records.sum = peak readings :=
  h.sum.trans h.high

end Exact

end Peak

end Openlia.Lib
