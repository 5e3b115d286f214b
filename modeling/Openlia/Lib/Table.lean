import Mathlib.Data.List.Nodup
import Mathlib.Tactic.Common

/-! # Tables with a primary key

Rows in an arbitrary order, no two with one key. A statement that updates every
row in a condition keeps the keys, so a row can be followed through any number
of such statements by its key.
-/

namespace Openlia.Lib

/-- Rows of `ρ` that no two share a key. -/
structure Table (ρ κ : Type) (key : ρ → κ) where
  rows : List ρ
  keys_nodup : (rows.map key).Nodup

namespace Table

variable {ρ κ : Type} {key : ρ → κ}

instance [DecidableEq ρ] : DecidableEq (Table ρ κ key) := fun a b =>
  decidable_of_iff (a.rows = b.rows) (by cases a; cases b; simp)

def empty : Table ρ κ key := ⟨[], List.nodup_nil⟩

instance : Inhabited (Table ρ κ key) := ⟨empty⟩

/-- `SELECT * WHERE p`. -/
def select (t : Table ρ κ key) (p : ρ → Bool) : List ρ := t.rows.filter p

/-- `UPDATE ... WHERE p`; an update never changes the key. -/
def update (t : Table ρ κ key) (p : ρ → Bool) (f : ρ → ρ) (hf : ∀ r, key (f r) = key r) :
    Table ρ κ key where
  rows := t.rows.map fun r => if p r then f r else r
  keys_nodup := by
    have hmap : (t.rows.map fun r => if p r then f r else r).map key = t.rows.map key := by
      rw [List.map_map]
      refine List.map_congr_left fun r _ => ?_
      by_cases h : p r <;> simp [h, hf]
    rw [hmap]
    exact t.keys_nodup

/-- The number of rows an `UPDATE ... WHERE p` touches. -/
def affected (t : Table ρ κ key) (p : ρ → Bool) : Nat := t.rows.countP p

/-- `INSERT`; refused when the key is taken. -/
def insert [DecidableEq κ] (t : Table ρ κ key) (r : ρ) : Option (Table ρ κ key) :=
  if h : key r ∈ t.rows.map key then none
  else some ⟨t.rows ++ [r], by
    rw [List.map_append, List.nodup_append]
    refine ⟨t.keys_nodup, by simp, ?_⟩
    intro a ha b hb
    simp only [List.map_cons, List.map_nil, List.mem_singleton] at hb
    rintro rfl
    exact h (hb ▸ ha)⟩

/-- `DELETE WHERE p`. -/
def delete (t : Table ρ κ key) (p : ρ → Bool) : Table ρ κ key where
  rows := t.rows.filter fun r => !p r
  keys_nodup := t.keys_nodup.sublist (List.filter_sublist.map key)

/-- The row with a key. -/
def get [DecidableEq κ] (t : Table ρ κ key) (k : κ) : Option ρ :=
  t.rows.find? fun r => decide (key r = k)

section Get

variable [DecidableEq κ] {t : Table ρ κ key} {k : κ} {r r' : ρ}

theorem key_of_get (h : t.get k = some r) : key r = k := by
  simpa using List.find?_some h

theorem mem_of_get (h : t.get k = some r) : r ∈ t.rows := List.mem_of_find?_eq_some h

private theorem find_of_mem {rows : List ρ} (hn : (rows.map key).Nodup) (h : r ∈ rows) :
    rows.find? (fun x => decide (key x = key r)) = some r := by
  induction rows with
  | nil => cases h
  | cons x rest ih =>
      simp only [List.map_cons, List.nodup_cons] at hn
      rcases List.mem_cons.mp h with rfl | hm
      · simp
      · have hne : key x ≠ key r := fun he => hn.1 (he ▸ List.mem_map_of_mem hm)
        rw [List.find?_cons_of_neg (by simpa using hne)]
        exact ih hn.2 hm

theorem get_of_mem (h : r ∈ t.rows) : t.get (key r) = some r := find_of_mem t.keys_nodup h

/-- Two rows with one key are one row. -/
theorem eq_of_key_eq (h : r ∈ t.rows) (h' : r' ∈ t.rows) (hk : key r = key r') : r = r' := by
  have hr := get_of_mem h
  rw [hk, get_of_mem h'] at hr
  exact (Option.some.inj hr).symm

theorem get_update (t : Table ρ κ key) (p : ρ → Bool) (f : ρ → ρ) (hf : ∀ r, key (f r) = key r)
    (k : κ) : (t.update p f hf).get k = (t.get k).map fun r => if p r then f r else r := by
  have hkey : (fun r => decide (key r = k)) ∘ (fun r => if p r then f r else r) =
      fun r => decide (key r = k) := by
    funext r
    by_cases h : p r <;> simp [h, hf]
  simp only [get, update, List.find?_map, hkey]

theorem get_update_of_get {p : ρ → Bool} {f : ρ → ρ} (hf : ∀ r, key (f r) = key r)
    (h : t.get k = some r) : (t.update p f hf).get k = some (if p r then f r else r) := by
  rw [get_update, h]
  rfl

end Get

theorem mem_update {t : Table ρ κ key} {p : ρ → Bool} {f : ρ → ρ} {hf : ∀ r, key (f r) = key r}
    {r : ρ} : r ∈ (t.update p f hf).rows ↔ ∃ x ∈ t.rows, (if p x then f x else x) = r := by
  simp [update]

/-- No row in the condition: the table is as it was. -/
theorem update_of_none {t : Table ρ κ key} {p : ρ → Bool} {f : ρ → ρ}
    {hf : ∀ r, key (f r) = key r} (h : ∀ r ∈ t.rows, ¬ p r) : t.update p f hf = t := by
  cases t with
  | mk rows hn =>
      simp only [update, mk.injEq]
      conv_rhs => rw [← List.map_id rows]
      refine List.map_congr_left fun r hr => ?_
      rw [if_neg (h r hr)]
      rfl

theorem affected_eq_zero {t : Table ρ κ key} {p : ρ → Bool} :
    t.affected p = 0 ↔ ∀ r ∈ t.rows, ¬ p r := by
  simp [affected, List.countP_eq_zero]

theorem mem_select {t : Table ρ κ key} {p : ρ → Bool} {r : ρ} :
    r ∈ t.select p ↔ r ∈ t.rows ∧ p r := by
  simp [select]

theorem mem_insert [DecidableEq κ] {t t' : Table ρ κ key} {x r : ρ} (h : t.insert x = some t') :
    r ∈ t'.rows ↔ r ∈ t.rows ∨ r = x := by
  unfold insert at h
  split at h
  · cases h
  · cases h
    simp

theorem mem_delete {t : Table ρ κ key} {p : ρ → Bool} {r : ρ} :
    r ∈ (t.delete p).rows ↔ r ∈ t.rows ∧ p r = false := by
  simp [delete]

theorem get_eq_some_iff [DecidableEq κ] {t : Table ρ κ key} {k : κ} {r : ρ} :
    t.get k = some r ↔ r ∈ t.rows ∧ key r = k := by
  constructor
  · exact fun h => ⟨mem_of_get h, key_of_get h⟩
  · rintro ⟨hr, rfl⟩
    exact get_of_mem hr

theorem insert_isSome [DecidableEq κ] {t : Table ρ κ key} {x : ρ} :
    (∃ t', t.insert x = some t') ↔ ∀ r ∈ t.rows, key r ≠ key x := by
  unfold insert
  split
  · rename_i h
    obtain ⟨r, hr, hk⟩ := List.mem_map.mp h
    simp only [reduceCtorEq, exists_false, false_iff, not_forall]
    exact ⟨r, hr, fun hne => hne hk⟩
  · rename_i h
    simp only [Option.some.injEq, exists_eq', true_iff]
    exact fun r hr hk => h (List.mem_map.mpr ⟨r, hr, hk⟩)

/-- `INSERT ... ON CONFLICT DO UPDATE`. -/
def upsert [DecidableEq κ] (t : Table ρ κ key) (r : ρ) : Table ρ κ key :=
  match t.insert r with
  | some t' => t'
  | none => t.update (fun x => key x = key r) (fun x => if key x = key r then r else x) fun x => by
      split
      · rename_i h
        exact h.symm
      · rfl

theorem mem_upsert [DecidableEq κ] {t : Table ρ κ key} {r x : ρ} :
    x ∈ (t.upsert r).rows ↔ x = r ∨ x ∈ t.rows ∧ key x ≠ key r := by
  unfold upsert
  split
  · rename_i t' h
    rw [mem_insert h]
    have hfree := insert_isSome.mp ⟨t', h⟩
    constructor
    · rintro (hx | hx)
      · exact Or.inr ⟨hx, hfree x hx⟩
      · exact Or.inl hx
    · rintro (hx | ⟨hx, -⟩)
      · exact Or.inr hx
      · exact Or.inl hx
  · rename_i h
    have htaken : ∃ y ∈ t.rows, key y = key r := by
      by_contra hnone
      obtain ⟨t', ht'⟩ := (@insert_isSome _ _ _ _ t r).mpr fun y hy hk => hnone ⟨y, hy, hk⟩
      rw [ht'] at h
      cases h
    rw [mem_update]
    constructor
    · rintro ⟨y, hy, heq⟩
      by_cases hk : key y = key r
      · simp only [hk, decide_true, if_true] at heq
        exact Or.inl heq.symm
      · simp only [hk, decide_false, Bool.false_eq_true, if_false] at heq
        exact Or.inr ⟨heq ▸ hy, heq ▸ hk⟩
    · rintro (rfl | ⟨hx, hk⟩)
      · obtain ⟨y, hy, hk⟩ := htaken
        exact ⟨y, hy, by simp [hk]⟩
      · exact ⟨x, hx, by simp [hk]⟩

theorem get_upsert [DecidableEq κ] (t : Table ρ κ key) (r : ρ) (k : κ) :
    (t.upsert r).get k = if key r = k then some r else t.get k := by
  split
  · rename_i h
    exact get_eq_some_iff.mpr ⟨mem_upsert.mpr (Or.inl rfl), h⟩
  · rename_i h
    refine Option.ext fun x => ?_
    rw [get_eq_some_iff, get_eq_some_iff, mem_upsert]
    constructor
    · rintro ⟨rfl | ⟨hx, -⟩, hk⟩
      · exact absurd hk h
      · exact ⟨hx, hk⟩
    · rintro ⟨hx, hk⟩
      exact ⟨Or.inr ⟨hx, fun he => h (he.symm.trans hk)⟩, hk⟩

theorem get_delete [DecidableEq κ] (t : Table ρ κ key) (p : ρ → Bool) (k : κ) :
    (t.delete p).get k = (t.get k).filter fun r => !p r := by
  refine Option.ext fun x => ?_
  rw [Option.filter_eq_some_iff, get_eq_some_iff, get_eq_some_iff, mem_delete]
  constructor
  · rintro ⟨⟨hx, hp⟩, hk⟩
    exact ⟨⟨hx, hk⟩, by simp [hp]⟩
  · rintro ⟨⟨hx, hk⟩, hp⟩
    exact ⟨⟨hx, by simpa using hp⟩, hk⟩

/-! ## Following rows through a statement -/

/-- Every row of `t` has its successor in `t'`, related by `R`, and there are
no other rows. -/
def Evolves (R : ρ → ρ → Prop) (t t' : Table ρ κ key) : Prop :=
  ∃ f : ρ → ρ, t'.rows = t.rows.map f ∧ ∀ r ∈ t.rows, key (f r) = key r ∧ R r (f r)

namespace Evolves

variable {R R' : ρ → ρ → Prop} {t t' : Table ρ κ key}

theorem refl (h : ∀ r ∈ t.rows, R r r) : Evolves R t t :=
  ⟨id, by simp, fun r hr => ⟨rfl, h r hr⟩⟩

theorem update {p : ρ → Bool} {f : ρ → ρ} (hf : ∀ r, key (f r) = key r)
    (hp : ∀ r ∈ t.rows, p r = true → R r (f r)) (hn : ∀ r ∈ t.rows, p r = false → R r r) :
    Evolves R t (t.update p f hf) := by
  refine ⟨fun r => if p r then f r else r, rfl, fun r hr => ?_⟩
  dsimp only
  cases hpr : p r with
  | true => exact ⟨by simp [hf], by simpa using hp r hr hpr⟩
  | false => exact ⟨by simp, by simpa using hn r hr hpr⟩

theorem imp (h : Evolves R t t') (hR : ∀ r ∈ t.rows, ∀ r', R r r' → R' r r') :
    Evolves R' t t' := by
  obtain ⟨f, hrows, hf⟩ := h
  exact ⟨f, hrows, fun r hr => ⟨(hf r hr).1, hR r hr _ (hf r hr).2⟩⟩

theorem trans {R'' : ρ → ρ → Prop} {t'' : Table ρ κ key} (h : Evolves R t t')
    (h' : Evolves R' t' t'') (hR : ∀ r r' r'', R r r' → R' r' r'' → R'' r r'') :
    Evolves R'' t t'' := by
  obtain ⟨f, hrows, hf⟩ := h
  obtain ⟨g, hrows', hg⟩ := h'
  refine ⟨g ∘ f, by rw [hrows', hrows, List.map_map], fun r hr => ?_⟩
  have hm : f r ∈ t'.rows := by
    rw [hrows]
    exact List.mem_map_of_mem hr
  exact ⟨(hg (f r) hm).1.trans (hf r hr).1, hR r (f r) _ (hf r hr).2 (hg (f r) hm).2⟩

theorem of_mem (h : Evolves R t t') {r' : ρ} (hr : r' ∈ t'.rows) :
    ∃ r ∈ t.rows, key r' = key r ∧ R r r' := by
  obtain ⟨f, hrows, hf⟩ := h
  rw [hrows] at hr
  obtain ⟨r, hm, rfl⟩ := List.mem_map.mp hr
  exact ⟨r, hm, hf r hm⟩

theorem get [DecidableEq κ] (h : Evolves R t t') {k : κ} {r : ρ} (hr : t.get k = some r) :
    ∃ r', t'.get k = some r' ∧ R r r' := by
  obtain ⟨f, hrows, hf⟩ := h
  have hm := mem_of_get hr
  have hk := key_of_get hr
  have hm' : f r ∈ t'.rows := by rw [hrows]; exact List.mem_map_of_mem hm
  have hget := get_of_mem hm'
  rw [(hf r hm).1, hk] at hget
  exact ⟨f r, hget, (hf r hm).2⟩

theorem get_back [DecidableEq κ] (h : Evolves R t t') {k : κ} {r' : ρ} (hr : t'.get k = some r') :
    ∃ r, t.get k = some r ∧ R r r' := by
  obtain ⟨r, hm, hk, hR⟩ := h.of_mem (mem_of_get hr)
  rw [key_of_get hr] at hk
  exact ⟨r, hk ▸ get_of_mem hm, hR⟩

end Evolves

end Table

end Openlia.Lib
