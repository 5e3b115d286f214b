import Mathlib.Tactic.Common

/-! # Runs of a transition system

A run is the list of the steps taken from a start state, each with the states
before and after it. An invariant is proved once for a step and then holds
around every step of every run; a relation that every step respects relates
each state of a run to every later one.
-/

namespace Openlia.Lib

/-- An element of a history that grew by one is an old one or the last. -/
theorem getElem?_concat_cases {α : Type} {xs : List α} {x y : α} {i : Nat}
    (h : (xs ++ [x])[i]? = some y) : xs[i]? = some y ∨ i = xs.length ∧ y = x := by
  rcases Nat.lt_or_ge i xs.length with hi | hi
  · exact .inl ((List.getElem?_append_left hi).symm.trans h)
  · have hlt := (List.getElem?_eq_some_iff.mp h).1
    rw [List.length_append, List.length_singleton] at hlt
    obtain rfl : i = xs.length := by omega
    exact .inr ⟨rfl, Option.some.inj (h.symm.trans List.getElem?_concat_length)⟩

/-- One step of a run with the states around it. -/
structure Taken (σ α : Type) where
  before : σ
  action : α
  after : σ

/-- Steps allowed by `next`, one after the other, from `s₀` to a last state. -/
inductive Run {σ α : Type} (next : σ → α → σ → Prop) (s₀ : σ) : List (Taken σ α) → σ → Prop
  | start : Run next s₀ [] s₀
  | step {taken : List (Taken σ α)} {s t : σ} (a : α) :
      Run next s₀ taken s → next s a t → Run next s₀ (taken ++ [⟨s, a, t⟩]) t

namespace Run

variable {σ α : Type} {next : σ → α → σ → Prop} {s₀ s : σ} {taken : List (Taken σ α)}

/-- Every step of a run is one that `next` allows. -/
theorem allowed (h : Run next s₀ taken s) : ∀ x ∈ taken, next x.before x.action x.after := by
  induction h with
  | start => simp
  | step a _ hn ih =>
      intro x hx
      rcases List.mem_append.mp hx with hx | hx
      · exact ih x hx
      · obtain rfl := List.mem_singleton.mp hx
        exact hn

/-- An invariant of the steps that meet `C` holds around every step of a run
all of whose steps meet `C`. -/
theorem invariant_of {I : σ → Prop} {C : Taken σ α → Prop} (h : Run next s₀ taken s)
    (h₀ : I s₀) (hstep : ∀ s a t, I s → next s a t → C ⟨s, a, t⟩ → I t)
    (hC : ∀ x ∈ taken, C x) : I s ∧ ∀ x ∈ taken, I x.before ∧ I x.after := by
  induction h with
  | start => exact ⟨h₀, by simp⟩
  | step a _ hn ih =>
      obtain ⟨hs, hall⟩ := ih fun x hx => hC x (List.mem_append_left _ hx)
      have ht := hstep _ a _ hs hn (hC _ (by simp))
      refine ⟨ht, fun x hx => ?_⟩
      rcases List.mem_append.mp hx with hx | hx
      · exact hall x hx
      · obtain rfl := List.mem_singleton.mp hx
        exact ⟨hs, ht⟩

/-- An invariant of every step holds around every step of a run. -/
theorem invariant {I : σ → Prop} (h : Run next s₀ taken s) (h₀ : I s₀)
    (hstep : ∀ s a t, I s → next s a t → I t) : I s ∧ ∀ x ∈ taken, I x.before ∧ I x.after :=
  h.invariant_of (C := fun _ => True) h₀ (fun s a t hs hn _ => hstep s a t hs hn)
    fun _ _ => trivial

/-- The states before and after the steps of a run. -/
theorem split (h : Run next s₀ taken s) {pre post : List (Taken σ α)} {x : Taken σ α}
    (he : taken = pre ++ x :: post) :
    Run next s₀ pre x.before ∧ next x.before x.action x.after ∧ Run next x.after post s := by
  induction h generalizing post with
  | start => simp at he
  | @step taken u t a hr hn ih =>
      rcases List.eq_nil_or_concat post with rfl | ⟨init, y, rfl⟩
      · obtain ⟨rfl, hx⟩ := List.append_inj' he rfl
        obtain rfl := List.singleton_inj.mp hx
        exact ⟨hr, hn, start⟩
      · rw [List.concat_eq_append, ← List.cons_append, ← List.append_assoc] at he
        obtain ⟨hpre, hy⟩ := List.append_inj' he rfl
        obtain rfl := List.singleton_inj.mp hy
        obtain ⟨h₁, h₂, h₃⟩ := ih hpre
        exact ⟨h₁, h₂, List.concat_eq_append ▸ h₃.step a hn⟩

/-- A property that steps never lose is never lost in a run. -/
theorem stable {P : σ → Prop} (h : Run next s₀ taken s) (h₀ : P s₀)
    (hstep : ∀ s a t, P s → next s a t → P t) : P s := (h.invariant h₀ hstep).1

/-- A run continued by another run. -/
theorem append {taken' : List (Taken σ α)} {t : σ} (h : Run next s₀ taken s)
    (h' : Run next s taken' t) : Run next s₀ (taken ++ taken') t := by
  induction h' with
  | start => simpa using h
  | step a _ hn ih => rw [← List.append_assoc]; exact ih.step a hn

end Run

section Trace

variable {σ α : Type} {f : σ → α → Option σ}

/-- The run of a system that has at most one step for each action. -/
def trace (f : σ → α → Option σ) (s : σ) : List α → Option (List (Taken σ α) × σ)
  | [] => some ([], s)
  | a :: as =>
      match f s a with
      | none => none
      | some t => (trace f t as).map fun r => (⟨s, a, t⟩ :: r.1, r.2)

theorem run_of_trace {s t : σ} {as : List α} {taken : List (Taken σ α)}
    (h : trace f s as = some (taken, t)) : Run (fun s a t => f s a = some t) s taken t := by
  induction as generalizing s taken with
  | nil =>
      cases h
      exact .start
  | cons a as ih =>
      rw [trace] at h
      split at h
      · cases h
      · rename_i u hu
        obtain ⟨⟨taken', t'⟩, htrace, heq⟩ := Option.map_eq_some_iff.mp h
        cases heq
        have hfirst : Run (fun s a t => f s a = some t) s [⟨s, a, u⟩] u := Run.start.step a hu
        exact hfirst.append (ih htrace)

/-- The last state of a run of actions that are all possible. -/
theorem exists_run_of_trace (f : σ → α → Option σ) (s : σ) (as : List α)
    (p : List (Taken σ α) × σ → Bool) (h : (trace f s as).any p = true) :
    ∃ taken t, Run (fun s a t => f s a = some t) s taken t ∧ p (taken, t) = true := by
  obtain ⟨⟨taken, t⟩, htrace, hp⟩ := (Option.any_eq_true _ _).mp h
  exact ⟨taken, t, run_of_trace htrace, hp⟩

end Trace

end Openlia.Lib
