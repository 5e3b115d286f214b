import Openlia.Lib.FileTree

/-! # Writes one after the other

Items are written one after the other, each to its place. All of them are still there at the end
exactly when no two of them have one place and different values.
-/

namespace Openlia.Lib

section Items

variable {ι κ β : Type} [DecidableEq κ] {place : ι → Option κ} {value : ι → β}
  {items items' : List ι} {k : κ}

/-- The value of the last item at a place. -/
def lastAt (place : ι → Option κ) (value : ι → β) (items : List ι) (k : κ) : Option β :=
  (items.reverse.find? fun i => place i = some k).map value

theorem lastAt_nil : lastAt place value [] k = none := rfl

theorem lastAt_singleton {i : ι} {k' : κ} (h : place i = some k') :
    lastAt place value [i] k = if k = k' then some (value i) else none := by
  rw [lastAt, List.reverse_singleton, List.find?_singleton, h]
  by_cases hk : k = k'
  · rw [if_pos hk, if_pos (by simp [hk])]
    rfl
  · rw [if_neg hk, if_neg (by simp [Ne.symm hk])]
    rfl

theorem lastAt_append : lastAt place value (items ++ items') k =
    (lastAt place value items' k).or (lastAt place value items k) := by
  rw [lastAt, List.reverse_append, List.find?_append, Option.map_or]
  rfl

theorem lastAt_of_mem {i : ι} (hi : i ∈ items) (hk : place i = some k) :
    ∃ j ∈ items, place j = some k ∧ lastAt place value items k = some (value j) := by
  have hsome : (items.reverse.find? fun j => place j = some k).isSome := by
    rw [List.find?_isSome]
    exact ⟨i, List.mem_reverse.mpr hi, decide_eq_true hk⟩
  obtain ⟨j, hj⟩ := Option.isSome_iff_exists.mp hsome
  refine ⟨j, List.mem_reverse.mp (List.mem_of_find?_eq_some hj), ?_, ?_⟩
  · have hplace := List.find?_some hj
    exact of_decide_eq_true hplace
  · rw [lastAt, hj]
    rfl

/-- Every item is the last at its place exactly when the items at one place agree. -/
theorem lastAt_eq_iff (hplace : ∀ i ∈ items, ∃ k, place i = some k) :
    (∀ i ∈ items, ∀ k, place i = some k → lastAt place value items k = some (value i)) ↔
      ∀ i ∈ items, ∀ j ∈ items, place i = place j → value i = value j := by
  constructor
  · intro h i hi j hj hsame
    obtain ⟨k, hk⟩ := hplace i hi
    have hlast := h i hi k hk
    rw [h j hj k (hsame ▸ hk)] at hlast
    exact (Option.some.inj hlast).symm
  · intro h i hi k hk
    obtain ⟨j, hj, hjk, hlast⟩ := @lastAt_of_mem _ _ _ _ place value _ _ _ hi hk
    rw [hlast, h i hi j hj (hk.trans hjk.symm)]

end Items

section Trees

variable {ι ν α : Type} [DecidableEq ν] {place : ι → Option (List ν)} {value : ι → α}
  {t t' t'' : Tree ν α} {items items' : List ι}

/-- A tree comes from another by writing items to files. -/
structure Tree.Stored (place : ι → Option (List ν)) (value : ι → α) (items : List ι)
    (t t' : Tree ν α) : Prop where
  placed : ∀ i ∈ items, ∃ p, place i = some p
  content : ∀ p, t'.content p = (lastAt place value items p).or (t.content p)

namespace Tree.Stored

theorem none (h : ∀ p, t'.content p = t.content p) : Tree.Stored place value [] t t' :=
  ⟨by rintro i ⟨⟩, h⟩

theorem one {i : ι} {p : List ν} (hp : place i = some p)
    (h : t.writeFile p (value i) = .ok t') : Tree.Stored place value [i] t t' := by
  refine ⟨fun j hj => ⟨p, List.mem_singleton.mp hj ▸ hp⟩, fun q => ?_⟩
  rw [Tree.put_content h, lastAt_singleton hp]
  by_cases hq : q = p
  · rw [if_pos hq, if_pos hq, Option.some_or]
  · rw [if_neg hq, if_neg hq, Option.none_or]

theorem append (h : Tree.Stored place value items t t')
    (h' : Tree.Stored place value items' t' t'') :
    Tree.Stored place value (items ++ items') t t'' := by
  refine ⟨fun i hi => ?_, fun p => ?_⟩
  · rcases List.mem_append.mp hi with hi | hi
    · exact h.placed i hi
    · exact h'.placed i hi
  · rw [h'.content p, h.content p, lastAt_append, Option.or_assoc]

/-- Every item is in its file exactly when the items of one file agree. -/
theorem kept_iff (h : Tree.Stored place value items t t') :
    (∀ i ∈ items, ∀ p, place i = some p → t'.content p = some (value i)) ↔
      ∀ i ∈ items, ∀ j ∈ items, place i = place j → value i = value j := by
  rw [← lastAt_eq_iff h.placed]
  refine forall₂_congr fun i hi => forall₂_congr fun p hp => ?_
  obtain ⟨j, -, -, hlast⟩ := @lastAt_of_mem _ _ _ _ place value _ _ _ hi hp
  rw [h.content p, hlast, Option.some_or]

end Tree.Stored

end Trees

end Openlia.Lib
