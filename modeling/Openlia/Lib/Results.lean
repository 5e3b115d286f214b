import Mathlib.Tactic.Common

/-! # Computations that may fail

A computation that went on after another one has a result only where both have one.
-/

namespace Openlia.Lib

variable {ε α β : Type}

theorem ok_bind (a : α) (k : α → Except ε β) : (Except.ok a >>= k) = k a := rfl

theorem error_bind (e : ε) (k : α → Except ε β) :
    ((Except.error e : Except ε α) >>= k) = .error e := rfl

theorem except_bind_ok {x : Except ε α} {k : α → Except ε β} {b : β} (h : (x >>= k) = .ok b) :
    ∃ a, x = .ok a ∧ k a = .ok b := by
  cases x with
  | error e => cases h
  | ok a => exact ⟨a, rfl, h⟩

/-- A computation with a state goes on where the first part of it ended well. -/
theorem run_bind {σ : Type} (m : ExceptT ε (StateM σ) α) (k : α → ExceptT ε (StateM σ) β)
    (s : σ) : (m >>= k).run.run s = match m.run.run s with
      | (.ok a, s₁) => (k a).run.run s₁
      | (.error e, s₁) => (.error e, s₁) := by
  cases h : m.run.run s with
  | mk r s₁ =>
      have hbind : (m >>= k).run.run s =
          (ExceptT.bindCont k r : StateM σ (Except ε β)).run s₁ := by
        show (StateT.bind m (ExceptT.bindCont k)) s = _
        have hm : m s = (r, s₁) := h
        rw [StateT.bind, hm]
        rfl
      rw [hbind]
      cases r <;> rfl

theorem bind_ok {σ : Type} {m : ExceptT ε (StateM σ) α} {k : α → ExceptT ε (StateM σ) β}
    {s s' : σ} {b : β} (h : (m >>= k).run.run s = (.ok b, s')) :
    ∃ a s₁, m.run.run s = (.ok a, s₁) ∧ (k a).run.run s₁ = (.ok b, s') := by
  rw [run_bind] at h
  cases hm : m.run.run s with
  | mk r s₁ =>
      rw [hm] at h
      cases r with
      | error e => cases h
      | ok a => exact ⟨a, s₁, rfl, h⟩

/-- What comes after a check has a result only where the check passes. -/
theorem guard_ok {c : Prop} [Decidable c] {e : ε} {x : Except ε α} {a : α}
    (h : (if c then .error e else x) = .ok a) : ¬ c ∧ x = .ok a := by
  by_cases hc : c
  · rw [if_pos hc] at h
    cases h
  · rw [if_neg hc] at h
    exact ⟨hc, h⟩

/-- A run over a list passes every element. -/
theorem foldlM_ok_of_mem {σ : Type} {step : σ → α → Except ε σ} {xs : List α} {s s' : σ} {x : α}
    (h : xs.foldlM step s = .ok s') (hx : x ∈ xs) : ∃ before s₁ s₂,
      before.foldlM step s = .ok s₁ ∧ before ⊆ xs ∧ step s₁ x = .ok s₂ := by
  obtain ⟨before, rest, rfl⟩ := List.append_of_mem hx
  rw [List.foldlM_append] at h
  obtain ⟨s₁, hbefore, h⟩ := except_bind_ok h
  rw [List.foldlM_cons] at h
  obtain ⟨s₂, hstep, -⟩ := except_bind_ok h
  exact ⟨before, s₁, s₂, hbefore, List.subset_append_left _ _, hstep⟩

/-- Steps that only fill gaps: a gap is filled by the first step that has something for it. -/
theorem foldlM_fills {σ κ ν : Type} (look : σ → κ → Option ν) {step : σ → α → Except ε σ}
    {filled : α → κ → Option ν} {xs : List α} {s s' : σ}
    (hstep : ∀ x ∈ xs, ∀ s s', step s x = .ok s' → ∀ k, look s' k = (look s k).or (filled x k))
    (h : xs.foldlM step s = .ok s') (k : κ) :
    look s' k = (look s k).or (xs.findSome? (filled · k)) := by
  induction xs generalizing s with
  | nil =>
      cases h
      rw [List.findSome?_nil, Option.or_none]
  | cons x xs ih =>
      rw [List.foldlM_cons] at h
      obtain ⟨s₁, hx, hrest⟩ := except_bind_ok h
      rw [ih (fun y hy => hstep y (List.mem_cons_of_mem _ hy)) hrest,
        hstep x List.mem_cons_self s s₁ hx k, Option.or_assoc, List.findSome?_cons]
      cases filled x k with
      | none => rw [Option.none_or]
      | some n => rw [Option.some_or]

end Openlia.Lib
