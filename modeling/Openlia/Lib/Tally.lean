import Mathlib.Algebra.BigOperators.Group.List.Basic
import Mathlib.Data.List.Induction
import Mathlib.Data.List.Nodup
import Mathlib.Tactic.Common

/-! # Maps in the order of insertion

A map that remembers in which order its keys came. Values that are added up at their keys make a
tally, whose sums over any keys are those of the items.
-/

namespace Openlia.Lib

variable {κ κ' β γ M : Type}

section Put

variable [DecidableEq κ] {m : List (κ × β)} {k k' : κ} {v : β}

/-- A known key keeps its place, a new one comes last. -/
def putKey (k : κ) (v : β) : List (κ × β) → List (κ × β)
  | [] => [(k, v)]
  | e :: rest => if e.1 = k then (k, v) :: rest else e :: putKey k v rest

theorem map_fst_putKey : (putKey k v m).map (·.1) =
    if k ∈ m.map (·.1) then m.map (·.1) else m.map (·.1) ++ [k] := by
  induction m with
  | nil => simp [putKey]
  | cons e rest ih =>
      rw [putKey]
      by_cases h : e.1 = k
      · simp [h]
      · have hne : k ≠ e.1 := fun heq => h heq.symm
        rw [if_neg h, List.map_cons, List.map_cons, ih]
        by_cases hmem : k ∈ rest.map (·.1) <;> simp [hmem, hne]

theorem nodup_putKey (h : (m.map (·.1)).Nodup) : ((putKey k v m).map (·.1)).Nodup := by
  rw [map_fst_putKey]
  split
  · exact h
  · rename_i hmem
    refine List.nodup_append.mpr ⟨h, List.nodup_singleton k, fun a ha b hb heq => hmem ?_⟩
    rwa [← List.mem_singleton.mp hb, ← heq]

theorem mem_map_fst_putKey : k' ∈ (putKey k v m).map (·.1) ↔ k' ∈ m.map (·.1) ∨ k' = k := by
  rw [map_fst_putKey]
  split
  · rename_i hmem
    exact ⟨Or.inl, fun h => h.elim id fun heq => heq ▸ hmem⟩
  · rw [List.mem_append, List.mem_singleton]

theorem mem_putKey {e : κ × β} (h : e ∈ putKey k v m) : e = (k, v) ∨ e ∈ m := by
  induction m with
  | nil => exact Or.inl (List.mem_singleton.mp h)
  | cons d rest ih =>
      rw [putKey] at h
      split at h
      · exact (List.mem_cons.mp h).imp_right (List.mem_cons_of_mem d)
      · rcases List.mem_cons.mp h with rfl | h
        · exact Or.inr List.mem_cons_self
        · exact (ih h).imp_right (List.mem_cons_of_mem d)

theorem putKey_of_notMem (h : k ∉ m.map (·.1)) : putKey k v m = m ++ [(k, v)] := by
  induction m with
  | nil => rfl
  | cons e rest ih =>
      rw [List.map_cons, List.mem_cons, not_or] at h
      rw [putKey, if_neg fun heq => h.1 heq.symm, ih h.2, List.cons_append]

/-- The same map under other names. -/
theorem putKey_map [DecidableEq κ'] (f : κ → κ') (g : κ → β → γ)
    (h : ∀ e ∈ m, f e.1 = f k → e.1 = k) :
    putKey (f k) (g k v) (m.map fun e => (f e.1, g e.1 e.2)) =
      (putKey k v m).map fun e => (f e.1, g e.1 e.2) := by
  induction m with
  | nil => rfl
  | cons e rest ih =>
      have hrest := ih fun d hd => h d (List.mem_cons_of_mem e hd)
      rw [List.map_cons, putKey, putKey]
      by_cases heq : e.1 = k
      · rw [if_pos (congrArg f heq), if_pos heq]
        rfl
      · rw [if_neg fun hf => heq (h e List.mem_cons_self hf), if_neg heq, hrest]
        rfl

end Put

theorem lookup_map [DecidableEq κ] [BEq κ'] [LawfulBEq κ'] {m : List (κ × β)} {k : κ} (f : κ → κ')
    (g : κ → β → γ) (h : ∀ e ∈ m, f e.1 = f k → e.1 = k) :
    (m.map fun e => (f e.1, g e.1 e.2)).lookup (f k) = (m.lookup k).map (g k) := by
  induction m with
  | nil => rfl
  | cons e rest ih =>
      have hrest := ih fun d hd => h d (List.mem_cons_of_mem e hd)
      rw [List.map_cons, List.lookup_cons, List.lookup_cons]
      by_cases heq : e.1 = k
      · simp [heq]
      · have hf : ¬ f k = f e.1 := fun hf => heq (h e List.mem_cons_self hf.symm)
        have hne : ¬ k = e.1 := fun hk => heq hk.symm
        rw [beq_eq_false_iff_ne.mpr hf, beq_eq_false_iff_ne.mpr hne]
        exact hrest

section Tally

variable [DecidableEq κ] [AddCommMonoid M] {items items' : List (κ × M)} {m : List (κ × M)} {k : κ}
  {v x : M}

/-- The value at a key grows. -/
def bump (k : κ) (x : M) (m : List (κ × M)) : List (κ × M) := putKey k ((m.lookup k).getD 0 + x) m

def tally (items : List (κ × M)) : List (κ × M) := items.foldl (fun m i => bump i.1 i.2 m) []

/-- The sum of the values at some keys. -/
def sumAt (p : κ → Prop) [DecidablePred p] (items : List (κ × M)) : M :=
  ((items.filter fun i => p i.1).map (·.2)).sum

variable (p : κ → Prop) [DecidablePred p]

omit [DecidableEq κ] in
theorem sumAt_cons (i : κ × M) (items : List (κ × M)) :
    sumAt p (i :: items) = (if p i.1 then i.2 else 0) + sumAt p items := by
  by_cases h : p i.1 <;> simp [sumAt, h]

omit [DecidableEq κ] in
theorem sumAt_append : sumAt p (items ++ items') = sumAt p items + sumAt p items' := by
  simp [sumAt]

omit [DecidableEq κ] in
theorem sumAt_congr {q : κ → Prop} [DecidablePred q] (h : ∀ i ∈ items, p i.1 ↔ q i.1) :
    sumAt p items = sumAt q items := by
  rw [sumAt, sumAt, List.filter_congr fun i hi => decide_eq_decide.mpr (h i hi)]

omit [DecidableEq κ] in
theorem sumAt_perm (h : items.Perm items') : sumAt p items = sumAt p items' :=
  ((h.filter _).map _).sum_eq

theorem sumAt_bump : sumAt p (bump k x m) = sumAt p m + if p k then x else 0 := by
  induction m with
  | nil => by_cases h : p k <;> simp [bump, putKey, sumAt, h]
  | cons e rest ih =>
      rw [bump, putKey, List.lookup_cons]
      by_cases h : e.1 = k
      · subst h
        rw [if_pos rfl, beq_self_eq_true, sumAt_cons, sumAt_cons]
        by_cases hp : p e.1 <;> simp [hp, add_assoc, add_comm]
      · have hne : (k == e.1) = false := beq_eq_false_iff_ne.mpr fun heq => h heq.symm
        rw [if_neg h, hne, sumAt_cons, sumAt_cons, add_assoc]
        exact congrArg _ ih

theorem tally_concat (items : List (κ × M)) (i : κ × M) :
    tally (items ++ [i]) = bump i.1 i.2 (tally items) := by
  rw [tally, List.foldl_append]
  rfl

theorem sumAt_tally (items : List (κ × M)) : sumAt p (tally items) = sumAt p items := by
  induction items using List.reverseRecOn with
  | nil => rfl
  | append_singleton items i ih =>
      rw [tally_concat, sumAt_bump, ih, sumAt_append, sumAt_cons]
      simp [sumAt]

theorem mem_keys_tally : k ∈ (tally items).map (·.1) ↔ k ∈ items.map (·.1) := by
  induction items using List.reverseRecOn with
  | nil => rfl
  | append_singleton items i ih =>
      rw [tally_concat, bump, mem_map_fst_putKey, ih, List.map_append, List.mem_append]
      simp

theorem nodup_tally (items : List (κ × M)) : ((tally items).map (·.1)).Nodup := by
  induction items using List.reverseRecOn with
  | nil => exact List.nodup_nil
  | append_singleton items i ih =>
      rw [tally_concat]
      exact nodup_putKey ih

omit [DecidableEq κ] in
theorem sumAt_eq_zero (h : ∀ i ∈ m, ¬ p i.1) : sumAt p m = 0 := by
  have hnil : m.filter (fun i => decide (p i.1)) = [] :=
    List.filter_eq_nil_iff.mpr fun i hi => by simpa using h i hi
  rw [sumAt, hnil]
  rfl

theorem sumAt_of_nodup (hm : (m.map (·.1)).Nodup) (h : (k, v) ∈ m) : sumAt (· = k) m = v := by
  induction m with
  | nil => cases h
  | cons e rest ih =>
      rw [List.map_cons, List.nodup_cons] at hm
      rw [sumAt_cons]
      rcases List.mem_cons.mp h with rfl | h
      · rw [sumAt_eq_zero _ fun i hi heq => hm.1 (List.mem_map.mpr ⟨i, hi, heq⟩)]
        simp
      · have hne : e.1 ≠ k := by
          rintro rfl
          exact hm.1 (List.mem_map.mpr ⟨_, h, rfl⟩)
        rw [if_neg hne, zero_add, ih hm.2 h]

theorem lookup_of_nodup (hm : (m.map (·.1)).Nodup) : (m.lookup k).getD 0 = sumAt (· = k) m := by
  induction m with
  | nil => rfl
  | cons e rest ih =>
      rw [List.map_cons, List.nodup_cons] at hm
      rw [sumAt_cons, List.lookup_cons]
      by_cases h : e.1 = k
      · subst h
        rw [sumAt_eq_zero _ fun i hi heq => hm.1 (List.mem_map.mpr ⟨i, hi, heq⟩)]
        simp
      · rw [if_neg h, zero_add, beq_eq_false_iff_ne.mpr fun heq => h heq.symm]
        exact ih hm.2

theorem lookup_tally (items : List (κ × M)) (k : κ) :
    ((tally items).lookup k).getD 0 = sumAt (· = k) items := by
  rw [lookup_of_nodup (nodup_tally items), sumAt_tally]

/-- The value at a key is the sum of the items there. -/
theorem mem_tally : (k, v) ∈ tally items ↔ k ∈ items.map (·.1) ∧ v = sumAt (· = k) items := by
  have hvalue : ∀ {v : M}, (k, v) ∈ tally items → v = sumAt (· = k) items := by
    intro v h
    rw [← sumAt_tally, sumAt_of_nodup (nodup_tally items) h]
  constructor
  · intro h
    exact ⟨mem_keys_tally.mp (List.mem_map_of_mem h), hvalue h⟩
  · rintro ⟨hk, rfl⟩
    obtain ⟨⟨k', v⟩, hmem, rfl⟩ := List.mem_map.mp (mem_keys_tally.mpr hk)
    rwa [← hvalue hmem]

theorem tally_perm (h : items.Perm items') : (tally items).Perm (tally items') := by
  have hnodup : ∀ items : List (κ × M), (tally items).Nodup :=
    fun items => List.Nodup.of_map _ (nodup_tally items)
  refine (List.perm_ext_iff_of_nodup (hnodup _) (hnodup _)).mpr fun e => ?_
  obtain ⟨k, v⟩ := e
  rw [mem_tally, mem_tally, sumAt_perm _ h, (h.map _).mem_iff]

end Tally

end Openlia.Lib
