import Mathlib.Data.List.DropRight
import Mathlib.Data.List.Nodup

/-! # A bounded first-in-first-out memory

What such a memory holds is a suffix of the history of what was put into it. When
nothing is put in while its key is still there, the keys of the memory are
distinct, and something is forgotten only after as many others were put in as
the memory has room for.
-/

namespace Openlia.Lib

variable {α κ : Type}

/-- The oldest element makes room for a new one. -/
def push (n : Nat) (xs : List α) (x : α) : List α := (if n ≤ xs.length then xs.tail else xs) ++ [x]

theorem push_rtake {n : Nat} (hn : 0 < n) (xs : List α) (x : α) :
    push n (xs.rtake n) x = (xs ++ [x]).rtake n := by
  unfold push List.rtake
  rw [List.length_drop, List.length_append, List.length_singleton]
  split
  · rw [List.tail_drop, List.drop_append_of_le_length (by omega)]
    congr 2
    omega
  · rw [List.drop_append_of_le_length (by omega)]
    congr 2
    omega

theorem rtake_map {β : Type} (f : α → β) (n : Nat) (xs : List α) :
    (xs.map f).rtake n = (xs.rtake n).map f := by
  simp [List.rtake, List.map_drop]

/-- An element of the history is remembered when fewer than `n` came after it. -/
theorem mem_rtake_of_lt {n : Nat} {before after : List α} {x : α} (h : after.length < n) :
    x ∈ (before ++ x :: after).rtake n := by
  unfold List.rtake
  rw [List.drop_append_of_le_length (by simp; omega)]
  simp

/-- What came before the last `n` is forgotten. -/
theorem mem_of_mem_rtake {n : Nat} {before after : List α} {x : α} (h : n ≤ after.length)
    (hx : x ∈ (before ++ after).rtake n) : x ∈ after := by
  have hlen : before.length ≤ (before ++ after).length - n := by
    rw [List.length_append]
    omega
  rw [List.rtake, List.drop_append, List.drop_eq_nil_of_le hlen, List.nil_append] at hx
  exact List.mem_of_mem_drop hx

/-- Nothing was put in while its key was among the last `n`. -/
def Spaced (n : Nat) (key : α → κ) (xs : List α) : Prop :=
  ∀ before x after, xs = before ++ x :: after → key x ∉ (before.rtake n).map key

namespace Spaced

variable {n : Nat} {key : α → κ} {xs : List α}

theorem nil : Spaced n key ([] : List α) := fun before x after h => by simp at h

theorem concat (h : Spaced n key xs) {x : α} (hx : key x ∉ (xs.rtake n).map key) :
    Spaced n key (xs ++ [x]) := by
  intro before y after hsplit
  rcases List.eq_nil_or_concat after with rfl | ⟨init, z, rfl⟩
  · obtain ⟨rfl, hy⟩ := List.append_inj' hsplit rfl
    obtain rfl := List.singleton_inj.mp hy
    exact hx
  · rw [List.concat_eq_append, ← List.cons_append, ← List.append_assoc] at hsplit
    exact h before y init (List.append_inj' hsplit rfl).1

/-- Only the keys matter. -/
theorem congr {ys : List α} (h : Spaced n key xs) (he : xs.map key = ys.map key) :
    Spaced n key ys := by
  intro before x after hsplit
  rw [hsplit, List.map_append, List.map_cons] at he
  obtain ⟨before', rest, rfl, hbefore, hrest⟩ := List.map_eq_append_iff.mp he
  obtain ⟨x', after', rfl, hx, -⟩ := List.map_eq_cons_iff.mp hrest
  rw [← rtake_map, ← hbefore, rtake_map, ← hx]
  exact h before' x' after' rfl

/-- What was put in last was not among the `n` before it. -/
theorem last {x : α} (h : Spaced n key (xs ++ [x])) : key x ∉ (xs.rtake n).map key := h xs x [] rfl

theorem before {x : α} (h : Spaced n key (xs ++ [x])) : Spaced n key xs :=
  fun before y after hsplit => h before y (after ++ [x]) (by rw [hsplit]; simp)

/-- The keys that are remembered are distinct. -/
theorem nodup_rtake (h : Spaced n key xs) : ((xs.rtake n).map key).Nodup := by
  rcases Nat.eq_zero_or_pos n with rfl | hn
  · simp
  induction xs using List.reverseRecOn with
  | nil => simp
  | append_singleton xs x ih =>
      rw [← push_rtake hn, push, List.map_append, List.map_singleton]
      have hsub : (if n ≤ (xs.rtake n).length then (xs.rtake n).tail else xs.rtake n).Sublist
          (xs.rtake n) := by
        split
        · exact List.tail_sublist _
        · exact List.Sublist.refl _
      refine List.nodup_append.mpr ⟨(ih h.before).sublist (hsub.map key), by simp, ?_⟩
      rintro k hk _ hx rfl
      obtain rfl := List.mem_singleton.mp hx
      exact h.last ((hsub.map key).subset hk)

/-- A key is put in again only after `n` others. -/
theorem others [DecidableEq κ] (h : Spaced n key xs) {before after : List α} {x : α}
    (hsplit : xs = before ++ x :: after)
    (hfew : (after.filter fun y => key y ≠ key x).length < n) :
    key x ∉ after.map key ∧ after.length < n := by
  have hnone : ∀ mid y rest, after = mid ++ y :: rest → key x ∉ mid.map key → key y ≠ key x := by
    intro mid y rest hafter hmid hkey
    have hlen : mid.length < n := by
      refine Nat.lt_of_le_of_lt (List.Sublist.length_le ?_) hfew
      rw [hafter, List.filter_append]
      refine List.Sublist.trans ?_ (List.sublist_append_left _ _)
      rw [List.filter_eq_self.mpr]
      intro z hz
      simpa using fun he => hmid (List.mem_map.mpr ⟨z, hz, he⟩)
    refine h (before ++ x :: mid) y rest (by rw [hsplit, hafter]; simp) ?_
    exact List.mem_map.mpr ⟨x, mem_rtake_of_lt hlen, hkey.symm⟩
  have hout : ∀ mid rest, after = mid ++ rest → key x ∉ mid.map key := by
    intro mid
    induction mid using List.reverseRecOn with
    | nil => simp
    | append_singleton mid y ih =>
        intro rest hafter hmem
        have hmid := ih (y :: rest) (by rw [hafter]; simp)
        rw [List.map_append, List.mem_append] at hmem
        rcases hmem with hmem | hmem
        · exact hmid hmem
        · exact hnone mid y rest (by rw [hafter]; simp) hmid (by simpa [eq_comm] using hmem)
  have hkey := hout after [] (by simp)
  refine ⟨hkey, ?_⟩
  rwa [List.filter_eq_self.mpr] at hfew
  intro y hy
  simpa using fun he => hkey (List.mem_map.mpr ⟨y, hy, he⟩)

end Spaced

end Openlia.Lib
