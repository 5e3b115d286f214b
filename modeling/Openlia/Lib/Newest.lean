import Mathlib.Data.List.Sort
import Mathlib.Order.Defs.LinearOrder

/-! # The newest first

A list in falling order of a rank that tells its elements apart. The first element is kept; the
others are those with an element above them, and what occurs twice.
-/

namespace Openlia.Lib

variable {K R : Type} [LinearOrder R] {rank : K → R} {items : List K} {x : K}

def newestFirst (rank : K → R) (items : List K) : List K :=
  items.insertionSort fun a b => rank b ≤ rank a

instance newest_total (rank : K → R) : Std.Total fun a b : K => rank b ≤ rank a :=
  ⟨fun a b => le_total (rank b) (rank a)⟩

instance newest_trans (rank : K → R) : IsTrans K fun a b => rank b ≤ rank a :=
  ⟨fun _ _ _ hab hbc => le_trans hbc hab⟩

theorem newestFirst_perm : (newestFirst rank items).Perm items := List.perm_insertionSort _ _

/-- What does not stand first. -/
theorem mem_tail_newestFirst [BEq K] [LawfulBEq K] (hrank : Function.Injective rank) :
    x ∈ (newestFirst rank items).tail ↔
      x ∈ items ∧ ((∃ b ∈ items, rank x < rank b) ∨ 2 ≤ items.count x) := by
  have hsorted : (newestFirst rank items).Pairwise fun a b => rank b ≤ rank a :=
    List.pairwise_insertionSort _ _
  have hperm : (newestFirst rank items).Perm items := newestFirst_perm
  rw [← hperm.mem_iff, ← hperm.count_eq]
  have hexists : (∃ b ∈ items, rank x < rank b) ↔ ∃ b ∈ newestFirst rank items, rank x < rank b :=
    exists_congr fun b => and_congr_left fun _ => hperm.mem_iff.symm
  rw [hexists]
  cases hlist : newestFirst rank items with
  | nil => simp
  | cons first rest =>
      rw [hlist, List.pairwise_cons] at hsorted
      rw [List.tail_cons]
      constructor
      · intro hx
        refine ⟨List.mem_cons_of_mem first hx, ?_⟩
        by_cases heq : x = first
        · subst heq
          rw [List.count_cons_self]
          exact Or.inr (Nat.succ_le_succ (List.count_pos_iff.mpr hx))
        · have hne : rank x ≠ rank first := fun h => heq (hrank h)
          exact Or.inl ⟨first, List.mem_cons_self, lt_of_le_of_ne (hsorted.1 x hx) hne⟩
      · rintro ⟨hx, hother⟩
        rcases List.mem_cons.mp hx with rfl | hx
        · rcases hother with ⟨b, hb, hlt⟩ | hdup
          · rcases List.mem_cons.mp hb with rfl | hb
            · exact absurd hlt (lt_irrefl _)
            · exact absurd (hsorted.1 b hb) (not_le.mpr hlt)
          · rw [List.count_cons_self] at hdup
            exact List.count_pos_iff.mp (Nat.le_of_succ_le_succ hdup)
        · exact hx

end Openlia.Lib
