import Openlia.Lib.Results

/-! # Calls that may fail

A program makes calls one after the other, and any of them may fail: which ones do is
given by their numbers. From a point on at which no more calls fail, a program does what
it is written to do.
-/

namespace Openlia.Lib

variable {σ ε α : Type}

/-- A state with the number of calls that have been made. -/
structure Counted (σ : Type) where
  state : σ
  calls : Nat

abbrev Faulty (σ ε : Type) := ExceptT ε (StateM (Counted σ))

namespace Faulty

/-- One call; when it fails it leaves `broken` behind. -/
def callOr (fails : Nat → Bool) (e : ε) (broken f : σ → σ) : Faulty σ ε Unit := do
  let s ← get
  if fails s.calls then
    set (⟨broken s.state, s.calls + 1⟩ : Counted σ)
    throw e
  else set (⟨f s.state, s.calls + 1⟩ : Counted σ)

/-- One call, which changes nothing when it fails. -/
def call (fails : Nat → Bool) (e : ε) (f : σ → σ) : Faulty σ ε Unit := callOr fails e id f

/-- A computation whose error is dropped. -/
def ignore (m : Faulty σ ε Unit) : Faulty σ ε Unit := tryCatch m fun _ => pure ()

/-- No call fails any more. -/
def Calm (fails : Nat → Bool) (n : Nat) : Prop := ∀ i, n ≤ i → fails i = false

/-- Where no call fails the program has just this effect. -/
def Does (fails : Nat → Bool) (m : Faulty σ ε Unit) (f : σ → σ) : Prop :=
  ∀ s : Counted σ, Calm fails s.calls →
    ∃ n, s.calls ≤ n ∧ m.run.run s = (.ok (), ⟨f s.state, n⟩)

/-- When the program ends well it has had just this effect. -/
def Yields (m : Faulty σ ε Unit) (f : σ → σ) : Prop :=
  ∀ s s' : Counted σ, m.run.run s = (.ok (), s') → s'.state = f s.state

section Rules

variable {fails : Nat → Bool} {m : Faulty σ ε Unit} {k : Unit → Faulty σ ε Unit} {f g : σ → σ}

theorem Calm.mono {n n' : Nat} (h : Calm fails n) (hle : n ≤ n') : Calm fails n' :=
  fun i hi => h i (Nat.le_trans hle hi)

theorem callOr_run (fails : Nat → Bool) (e : ε) (broken f : σ → σ) (s : Counted σ) :
    (callOr fails e broken f).run.run s = if fails s.calls then
      (.error e, ⟨broken s.state, s.calls + 1⟩) else (.ok (), ⟨f s.state, s.calls + 1⟩) := by
  rw [callOr, run_bind]
  show (if _ then _ else _ : Faulty σ ε Unit).run.run s = _
  split <;> rfl

theorem tryCatch_run (m : Faulty σ ε α) (handle : ε → Faulty σ ε α) (s : Counted σ) :
    (tryCatch m handle).run.run s = match m.run.run s with
      | (.ok a, s₁) => (.ok a, s₁)
      | (.error e, s₁) => (handle e).run.run s₁ := by
  simp only [ExceptT.run_tryCatch, StateT.run_bind]
  cases m.run.run s with
  | mk r s₁ => cases r <;> rfl

theorem does_callOr (e : ε) (broken f : σ → σ) : Does fails (callOr fails e broken f) f := by
  intro s hcalm
  refine ⟨s.calls + 1, Nat.le_succ _, ?_⟩
  rw [callOr_run, if_neg (by rw [hcalm s.calls (Nat.le_refl _)]; exact Bool.false_ne_true)]

theorem does_call (e : ε) (f : σ → σ) : Does fails (call fails e f) f := does_callOr e id f

theorem Does.bind (hm : Does fails m f) (hk : Does fails (k ()) g) :
    Does fails (m >>= k) (g ∘ f) := by
  intro s hcalm
  obtain ⟨n, hle, hrun⟩ := hm s hcalm
  obtain ⟨n', hle', hrun'⟩ := hk ⟨f s.state, n⟩ (hcalm.mono hle)
  refine ⟨n', Nat.le_trans hle hle', ?_⟩
  rw [run_bind, hrun]
  exact hrun'

theorem Does.tryCatch {handle : ε → Faulty σ ε Unit} (hm : Does fails m f) :
    Does fails (tryCatch m handle) f := by
  intro s hcalm
  obtain ⟨n, hle, hrun⟩ := hm s hcalm
  refine ⟨n, hle, ?_⟩
  rw [tryCatch_run, hrun]

theorem Does.ignore (hm : Does fails m f) : Does fails (ignore m) f := hm.tryCatch

/-- A program that looks at the state first. -/
theorem does_get {k : Counted σ → Faulty σ ε Unit} (h : ∀ s, Does fails (k s) f) :
    Does fails (get >>= k) f := by
  intro s hcalm
  obtain ⟨n, hle, hrun⟩ := h s s hcalm
  refine ⟨n, hle, ?_⟩
  rw [run_bind]
  exact hrun

theorem Does.congr (h : Does fails m f) (hfg : ∀ s, f s = g s) : Does fails m g := by
  rwa [← funext hfg]

theorem ignore_run (m : Faulty σ ε Unit) (s : Counted σ) :
    (ignore m).run.run s = (.ok (), (m.run.run s).2) := by
  rw [ignore, tryCatch_run]
  cases m.run.run s with
  | mk r s₁ => cases r <;> rfl

theorem yields_callOr (e : ε) (broken f : σ → σ) : Yields (callOr fails e broken f) f := by
  intro s s' h
  rw [callOr_run] at h
  split at h
  · cases h
  · cases h
    rfl

theorem yields_call (e : ε) (f : σ → σ) : Yields (call fails e f) f := yields_callOr e id f

theorem Yields.bind (hm : Yields m f) (hk : Yields (k ()) g) : Yields (m >>= k) (g ∘ f) := by
  intro s s' h
  obtain ⟨⟨⟩, s₁, hfirst, hrest⟩ := bind_ok h
  rw [hk s₁ s' hrest, hm s s₁ hfirst]
  rfl

/-- A handler that throws again does not hide an error. -/
theorem Yields.tryCatch {handle : ε → Faulty σ ε Unit} (hm : Yields m f)
    (hhandle : ∀ e s s', (handle e).run.run s ≠ (.ok (), s')) :
    Yields (tryCatch m handle) f := by
  intro s s' h
  rw [tryCatch_run] at h
  cases hrun : m.run.run s with
  | mk r s₁ =>
      rw [hrun] at h
      cases r with
      | error e => exact absurd h (hhandle e s₁ s')
      | ok a =>
          cases h
          exact hm s _ hrun

theorem yields_get {k : Counted σ → Faulty σ ε Unit} (h : ∀ s, Yields (k s) f) :
    Yields (get >>= k) f := by
  intro s s' hrun
  rw [run_bind] at hrun
  exact h s s s' hrun

theorem Yields.congr (h : Yields m f) (hfg : ∀ s, f s = g s) : Yields m g := by
  rwa [← funext hfg]

end Rules

end Faulty

end Openlia.Lib
