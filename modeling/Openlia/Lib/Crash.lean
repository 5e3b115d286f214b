import Mathlib.Tactic.Common

/-! # Programs with crash points

A program reads a persistent state, makes atomic durable writes and returns an
answer or an error. Its execution keeps every state a write produced, so a
crash point is a member of that trail and a statement about all crash points is
a statement about one list. The rules below are the Hoare rules for such
programs, with a third condition that holds of every crash point.
-/

namespace Openlia.Crash

/-- A sequence of results that succeeds. -/
theorem except_bind_eq_ok {ε α β : Type} {x : Except ε α} {f : α → Except ε β} {b : β}
    (h : x >>= f = .ok b) : ∃ a, x = .ok a ∧ f a = .ok b := by
  cases x with
  | error e => cases h
  | ok a => exact ⟨a, rfl, h⟩

/-- What one execution leaves: the state after each durable write, oldest
first, the last state, and the answer. -/
structure Outcome (σ ε α : Type) where
  trail : List σ
  final : σ
  result : Except ε α
  deriving DecidableEq

/-- A program over the persistent state `σ` that may fail with `ε`. -/
def Prog (σ ε α : Type) := σ → Outcome σ ε α

variable {σ ε α β : Type}

namespace Prog

/-- Execute from a state. -/
def run (p : Prog σ ε α) (s : σ) : Outcome σ ε α := p s

def ret (a : α) : Prog σ ε α := fun s => ⟨[], s, .ok a⟩

/-- Sequencing stops at the first error and keeps what was written before it. -/
def andThen (p : Prog σ ε α) (k : α → Prog σ ε β) : Prog σ ε β := fun s =>
  match (p s).result with
  | .error e => ⟨(p s).trail, (p s).final, .error e⟩
  | .ok a =>
      ⟨(p s).trail ++ (k a (p s).final).trail, (k a (p s).final).final, (k a (p s).final).result⟩

instance : Monad (Prog σ ε) where
  pure := ret
  bind := andThen

/-- Fail without a write. -/
def fail (e : ε) : Prog σ ε α := fun s => ⟨[], s, .error e⟩

/-- Read the persistent state. -/
def get : Prog σ ε σ := fun s => ⟨[], s, .ok s⟩

/-- One atomic durable write. -/
def write (f : σ → σ) : Prog σ ε Unit := fun s => ⟨[f s], f s, .ok ()⟩

/-- Run a program and turn its error into a value: the caller decides. -/
def attempt (p : Prog σ ε α) : Prog σ ε (Except ε α) := fun s =>
  ⟨(p s).trail, (p s).final, .ok (p s).result⟩

/-- Run a program for its writes only; its error is dropped. -/
def ignore (p : Prog σ ε α) : Prog σ ε Unit := fun s => ⟨(p s).trail, (p s).final, .ok ()⟩

/-- A call that fails with an error or does nothing. -/
def refuse : Option ε → Prog σ ε Unit
  | none => ret ()
  | some e => fail e

/-- A computed result. -/
def lift : Except ε α → Prog σ ε α
  | .ok a => ret a
  | .error e => fail e

/-- Run `f` on every element with its index, the last element first. -/
def forDown (f : Nat → α → Prog σ ε β) (i : Nat) : List α → Prog σ ε (List β)
  | [] => ret []
  | a :: rest => do
      let bs ← forDown f (i + 1) rest
      let b ← f i a
      ret (b :: bs)

/-- Run a program on a part of the state. -/
def focus {τ : Type} (part : σ → τ) (put : τ → σ → σ) (p : Prog τ ε α) : Prog σ ε α := fun s =>
  ⟨(p.run (part s)).trail.map (put · s), put (p.run (part s)).final s, (p.run (part s)).result⟩

/-- The state after a crash that follows `n` writes, or the last state. -/
def halt (p : Prog σ ε α) (s : σ) : Option Nat → Option σ
  | none => some (p.run s).final
  | some n => (s :: (p.run s).trail)[n]?

/-! ## Execution equations -/

@[simp] theorem run_pure (a : α) (s : σ) :
    (pure a : Prog σ ε α).run s = ⟨[], s, .ok a⟩ := rfl

@[simp] theorem run_fail (e : ε) (s : σ) :
    (fail e : Prog σ ε α).run s = ⟨[], s, .error e⟩ := rfl

@[simp] theorem run_get (s : σ) : (get : Prog σ ε σ).run s = ⟨[], s, .ok s⟩ := rfl

@[simp] theorem run_write (f : σ → σ) (s : σ) :
    (write f : Prog σ ε Unit).run s = ⟨[f s], f s, .ok ()⟩ := rfl

@[simp] theorem run_attempt (p : Prog σ ε α) (s : σ) :
    (attempt p).run s = ⟨(p.run s).trail, (p.run s).final, .ok (p.run s).result⟩ := rfl

@[simp] theorem run_ignore (p : Prog σ ε α) (s : σ) :
    (ignore p).run s = ⟨(p.run s).trail, (p.run s).final, .ok ()⟩ := rfl

@[simp] theorem refuse_none : (refuse none : Prog σ ε Unit) = pure () := rfl

@[simp] theorem refuse_some (e : ε) : (refuse (some e) : Prog σ ε Unit) = fail e := rfl

@[simp] theorem lift_ok (a : α) : (lift (.ok a) : Prog σ ε α) = pure a := rfl

theorem run_bind_ok {p : Prog σ ε α} {k : α → Prog σ ε β} {s : σ} {a : α}
    (h : (p.run s).result = .ok a) :
    (p >>= k).run s =
      ⟨(p.run s).trail ++ ((k a).run (p.run s).final).trail,
        ((k a).run (p.run s).final).final, ((k a).run (p.run s).final).result⟩ := by
  change andThen p k s = _
  simp only [run] at h
  simp only [andThen, h, run]

theorem run_bind_error {p : Prog σ ε α} {k : α → Prog σ ε β} {s : σ} {e : ε}
    (h : (p.run s).result = .error e) :
    (p >>= k).run s = ⟨(p.run s).trail, (p.run s).final, .error e⟩ := by
  change andThen p k s = _
  simp only [run] at h
  simp only [andThen, h, run]

@[simp] theorem pure_bind' (a : α) (k : α → Prog σ ε β) : (pure a >>= k) = k a := by
  funext s
  rfl

@[simp] theorem fail_bind (e : ε) (k : α → Prog σ ε β) :
    ((fail e : Prog σ ε α) >>= k) = fail e := rfl

@[simp] theorem run_get_bind (k : σ → Prog σ ε β) (s : σ) :
    (get >>= k).run s = (k s).run s := rfl

@[simp] theorem run_write_bind (f : σ → σ) (k : Unit → Prog σ ε β) (s : σ) :
    (write f >>= k).run s =
      ⟨f s :: ((k ()).run (f s)).trail, ((k ()).run (f s)).final, ((k ()).run (f s)).result⟩ := rfl

@[simp] theorem run_attempt_bind (p : Prog σ ε α) (k : Except ε α → Prog σ ε β) (s : σ) :
    (attempt p >>= k).run s =
      ⟨(p.run s).trail ++ ((k (p.run s).result).run (p.run s).final).trail,
        ((k (p.run s).result).run (p.run s).final).final,
        ((k (p.run s).result).run (p.run s).final).result⟩ := rfl

@[simp] theorem run_ignore_bind (p : Prog σ ε α) (k : Unit → Prog σ ε β) (s : σ) :
    (ignore p >>= k).run s =
      ⟨(p.run s).trail ++ ((k ()).run (p.run s).final).trail,
        ((k ()).run (p.run s).final).final, ((k ()).run (p.run s).final).result⟩ := rfl

/-- A sequence that succeeds ran both of its halves to success. -/
theorem run_bind_eq_ok {p : Prog σ ε α} {k : α → Prog σ ε β} {s : σ} {b : β}
    (h : ((p >>= k).run s).result = .ok b) :
    ∃ a, (p.run s).result = .ok a ∧ ((k a).run (p.run s).final).result = .ok b ∧
      ((p >>= k).run s).final = ((k a).run (p.run s).final).final ∧
      ((p >>= k).run s).trail = (p.run s).trail ++ ((k a).run (p.run s).final).trail := by
  cases hp : (p.run s).result with
  | error e =>
      rw [run_bind_error hp] at h
      cases h
  | ok a =>
      rw [run_bind_ok hp] at h ⊢
      exact ⟨a, rfl, h, rfl, rfl⟩

/-- Two executions one after the other. -/
theorem run_bind_eq {p : Prog σ ε α} {k : α → Prog σ ε β} {s s' s'' : σ} {a : α}
    {trail trail' : List σ} {r : Except ε β} (hp : p.run s = ⟨trail, s', .ok a⟩)
    (hk : (k a).run s' = ⟨trail', s'', r⟩) : (p >>= k).run s = ⟨trail ++ trail', s'', r⟩ := by
  rw [run_bind_ok (congrArg Outcome.result hp), hp, hk]

/-- A program that answers. -/
theorem run_bind_of_ok {p : Prog σ ε α} {k : α → Prog σ ε β} {s s' : σ} {a : α}
    (hr : (p.run s).result = .ok a) (hf : (p.run s).final = s') :
    ((p >>= k).run s).final = ((k a).run s').final ∧
      ((p >>= k).run s).result = ((k a).run s').result ∧
      ((p >>= k).run s).trail = (p.run s).trail ++ ((k a).run s').trail := by
  rw [run_bind_ok hr, hf]
  exact ⟨rfl, rfl, rfl⟩

end Prog

/-! ## Specifications -/

/-- From a state in `P`, every crash point satisfies `C` and the end satisfies
`Q`, whatever the answer. -/
def Spec (P : σ → Prop) (p : Prog σ ε α) (C : σ → Prop) (Q : Except ε α → σ → Prop) : Prop :=
  ∀ s, P s → (∀ t ∈ (p.run s).trail, C t) ∧ Q (p.run s).result (p.run s).final

namespace Spec

variable {P P' C C' : σ → Prop} {Q Q' : Except ε α → σ → Prop} {R : Except ε β → σ → Prop}
  {s : σ}

theorem pure {a : α} (h : ∀ s, P s → Q (.ok a) s) : Spec P (pure a : Prog σ ε α) C Q :=
  fun s hs => ⟨by simp, h s hs⟩

theorem fail {e : ε} (h : ∀ s, P s → Q (.error e) s) : Spec P (Prog.fail e : Prog σ ε α) C Q :=
  fun s hs => ⟨by simp, h s hs⟩

theorem get {Q : Except ε σ → σ → Prop} (h : ∀ s, P s → Q (.ok s) s) :
    Spec P (Prog.get : Prog σ ε σ) C Q :=
  fun s hs => ⟨by simp, h s hs⟩

theorem write {f : σ → σ} {Q : Except ε Unit → σ → Prop}
    (hc : ∀ s, P s → C (f s)) (hq : ∀ s, P s → Q (.ok ()) (f s)) :
    Spec P (Prog.write f : Prog σ ε Unit) C Q :=
  fun s hs => ⟨by simpa using hc s hs, hq s hs⟩

theorem bind {p : Prog σ ε α} {k : α → Prog σ ε β}
    (hp : Spec P p C Q) (hk : ∀ a, Spec (Q (.ok a)) (k a) C R)
    (he : ∀ e s, Q (.error e) s → R (.error e) s) : Spec P (p >>= k) C R := by
  intro s hs
  obtain ⟨ht, hq⟩ := hp s hs
  cases hr : (p.run s).result with
  | error e =>
      rw [Prog.run_bind_error hr]
      rw [hr] at hq
      exact ⟨ht, he e _ hq⟩
  | ok a =>
      rw [Prog.run_bind_ok hr]
      rw [hr] at hq
      obtain ⟨ht', hr'⟩ := hk a _ hq
      refine ⟨fun t hm => ?_, hr'⟩
      rcases List.mem_append.mp hm with hm | hm
      · exact ht t hm
      · exact ht' t hm

/-- A first program that does not fail. -/
theorem seq {p : Prog σ ε Unit} {k : Unit → Prog σ ε β} {I : σ → Prop}
    (hp : Spec P p C fun r s => r = .ok () ∧ I s) (hk : Spec I (k ()) C R) :
    Spec P (p >>= k) C R := by
  refine bind hp (fun _ => ?_) ?_
  · exact fun s hs => hk s hs.2
  · rintro e s ⟨⟨⟩, -⟩

theorem attempt {p : Prog σ ε α} {Q : Except ε (Except ε α) → σ → Prop}
    (hp : Spec P p C (fun r s => Q (.ok r) s)) : Spec P (Prog.attempt p) C Q :=
  fun s hs => hp s hs

theorem ignore {p : Prog σ ε α} {Q : Except ε Unit → σ → Prop}
    (hp : Spec P p C (fun _ s => Q (.ok ()) s)) : Spec P (Prog.ignore p) C Q :=
  fun s hs => hp s hs

theorem conseq {p : Prog σ ε α} (h : Spec P p C Q) (hP : ∀ s, P' s → P s)
    (hC : ∀ s, C s → C' s) (hQ : ∀ r s, Q r s → Q' r s) : Spec P' p C' Q' := by
  intro s hs
  obtain ⟨ht, hq⟩ := h s (hP s hs)
  exact ⟨fun t hm => hC t (ht t hm), hQ _ _ hq⟩

theorem ite {c : Prop} [Decidable c] {p q : Prog σ ε α}
    (ht : c → Spec P p C Q) (hf : ¬ c → Spec P q C Q) : Spec P (if c then p else q) C Q := by
  by_cases h : c
  · rw [if_pos h]; exact ht h
  · rw [if_neg h]; exact hf h

theorem focus {τ : Type} {part : σ → τ} {put : τ → σ → σ} {p : Prog τ ε α}
    (h : ∀ s, P s → Spec (· = part s) p (fun t => C (put t s)) fun r t => Q r (put t s)) :
    Spec P (Prog.focus part put p) C Q := by
  intro s hs
  obtain ⟨ht, hq⟩ := h s hs _ rfl
  refine ⟨fun t hm => ?_, hq⟩
  obtain ⟨u, hu, rfl⟩ := List.mem_map.mp hm
  exact ht u hu

/-- What holds of the start state may be used as a fact. -/
theorem of_pre {p : Prog σ ε α} (h : ∀ s, P s → Spec (· = s) p C Q) : Spec P p C Q :=
  fun s hs => h s hs s rfl

theorem get_bind {k : σ → Prog σ ε β} (h : ∀ s, P s → Spec (· = s) (k s) C R) :
    Spec P (Prog.get >>= k) C R := by
  intro s hs
  rw [Prog.run_get_bind]
  exact h s hs s rfl

theorem refuse {fault : Option ε} :
    Spec P (Prog.refuse fault) C fun r s => P s ∧ (r = .ok () ↔ fault = none) := by
  cases fault with
  | none => exact Spec.pure fun _ h => ⟨h, by simp⟩
  | some e => exact Spec.fail fun _ h => ⟨h, by simp⟩

theorem lift {result : Except ε α} :
    Spec P (Prog.lift result) C fun r s => P s ∧ r = result := by
  cases result with
  | error e => exact Spec.fail fun _ h => ⟨h, rfl⟩
  | ok a => exact Spec.pure fun _ h => ⟨h, rfl⟩

/-- The caller of an attempt goes on with either result. -/
theorem attempt_bind {p : Prog σ ε α} {k : Except ε α → Prog σ ε β} (hp : Spec P p C Q)
    (hk : ∀ r, Spec (Q r) (k r) C R) : Spec P (Prog.attempt p >>= k) C R := by
  intro s hs
  obtain ⟨ht, hq⟩ := hp s hs
  obtain ⟨ht', hr⟩ := hk _ _ hq
  rw [Prog.run_attempt_bind]
  refine ⟨fun t hm => ?_, hr⟩
  rcases List.mem_append.mp hm with hm | hm
  · exact ht t hm
  · exact ht' t hm

/-- Where a program stops, crashed or not. -/
theorem halt {p : Prog σ ε α} (h : Spec (· = s) p C Q) (hs : C s) (hq : ∀ r t, Q r t → C t)
    {crash : Option Nat} {t : σ} (ht : p.halt s crash = some t) : C t := by
  obtain ⟨htrail, hfinal⟩ := h s rfl
  cases crash with
  | none =>
      cases ht
      exact hq _ _ hfinal
  | some n =>
      rcases List.mem_cons.mp (List.mem_of_getElem? ht) with rfl | hm
      · exact hs
      · exact htrail t hm

end Spec

/-! ## Invariants -/

/-- Every write of the program keeps `I`: no crash point and no end breaks it. -/
def Preserves (I : σ → Prop) (p : Prog σ ε α) : Prop := Spec I p I (fun _ s => I s)

namespace Preserves

variable {I : σ → Prop}

theorem pure (a : α) : Preserves I (pure a : Prog σ ε α) := Spec.pure fun _ h => h

theorem fail (e : ε) : Preserves I (Prog.fail e : Prog σ ε α) := Spec.fail fun _ h => h

theorem get : Preserves I (Prog.get : Prog σ ε σ) := Spec.get fun _ h => h

theorem write {f : σ → σ} (h : ∀ s, I s → I (f s)) : Preserves I (Prog.write f : Prog σ ε Unit) :=
  Spec.write h h

theorem bind {p : Prog σ ε α} {k : α → Prog σ ε β} (hp : Preserves I p)
    (hk : ∀ a, Preserves I (k a)) : Preserves I (p >>= k) :=
  Spec.bind hp hk fun _ _ h => h

theorem attempt {p : Prog σ ε α} (hp : Preserves I p) : Preserves I (Prog.attempt p) := hp

theorem ignore {p : Prog σ ε α} (hp : Preserves I p) : Preserves I (Prog.ignore p) := hp

theorem refuse {fault : Option ε} : Preserves I (Prog.refuse fault) :=
  Spec.refuse.conseq (fun _ h => h) (fun _ h => h) fun _ _ h => h.1

theorem ite {c : Prop} [Decidable c] {p q : Prog σ ε α} (ht : c → Preserves I p)
    (hf : ¬ c → Preserves I q) : Preserves I (if c then p else q) :=
  Spec.ite ht hf

/-- A read may be followed by a program that keeps `I` from the state read. -/
theorem get_bind {k : σ → Prog σ ε β}
    (h : ∀ s, I s → Spec (· = s) (k s) I (fun _ t => I t)) : Preserves I (Prog.get >>= k) :=
  Spec.get_bind h

theorem forDown {f : Nat → α → Prog σ ε β} {i : Nat} {as : List α}
    (h : ∀ i a, a ∈ as → Preserves I (f i a)) : Preserves I (Prog.forDown f i as) := by
  induction as generalizing i with
  | nil => exact Preserves.pure []
  | cons a rest ih =>
      refine Preserves.bind (ih fun i b hb => h i b (List.mem_cons_of_mem a hb)) fun bs => ?_
      exact Preserves.bind (h i a List.mem_cons_self) fun b => Preserves.pure _

theorem trail {p : Prog σ ε α} (h : Preserves I p) {s t : σ} (hs : I s)
    (ht : t ∈ (p.run s).trail) : I t := (h s hs).1 t ht

theorem final {p : Prog σ ε α} (h : Preserves I p) {s : σ} (hs : I s) :
    I (p.run s).final := (h s hs).2

end Preserves

/-! ## The last write -/

/-- The end of an execution is the state after its last write. -/
def Traced (p : Prog σ ε α) : Prop := ∀ s, (p.run s).final = (p.run s).trail.getLastD s

namespace Traced

theorem pure (a : α) : Traced (pure a : Prog σ ε α) := fun _ => rfl

theorem fail (e : ε) : Traced (Prog.fail e : Prog σ ε α) := fun _ => rfl

theorem get : Traced (Prog.get : Prog σ ε σ) := fun _ => rfl

theorem write (f : σ → σ) : Traced (Prog.write f : Prog σ ε Unit) := fun _ => rfl

theorem bind {p : Prog σ ε α} {k : α → Prog σ ε β} (hp : Traced p) (hk : ∀ a, Traced (k a)) :
    Traced (p >>= k) := by
  intro s
  cases hr : (p.run s).result with
  | error e =>
      rw [Prog.run_bind_error hr]
      exact hp s
  | ok a =>
      rw [Prog.run_bind_ok hr, hk a, hp s]
      simp only [List.getLastD_eq_getLast?, List.getLast?_append]
      cases ((k a).run _).trail.getLast? <;> rfl

theorem attempt {p : Prog σ ε α} (hp : Traced p) : Traced (Prog.attempt p) := hp

theorem ignore {p : Prog σ ε α} (hp : Traced p) : Traced (Prog.ignore p) := hp

theorem refuse (fault : Option ε) : Traced (Prog.refuse fault : Prog σ ε Unit) := by
  cases fault <;> exact fun _ => rfl

theorem ite {c : Prop} [Decidable c] {p q : Prog σ ε α} (hp : Traced p) (hq : Traced q) :
    Traced (if c then p else q) := by
  split
  · exact hp
  · exact hq

theorem focus {τ : Type} {part : σ → τ} {put : τ → σ → σ} {p : Prog τ ε α} (hp : Traced p)
    (hput : ∀ s, put (part s) s = s) : Traced (Prog.focus part put p) := by
  intro s
  change put (p.run (part s)).final s = ((p.run (part s)).trail.map (put · s)).getLastD s
  rw [hp (part s), List.getLastD_eq_getLast?, List.getLastD_eq_getLast?, List.getLast?_map]
  cases (p.run (part s)).trail.getLast? with
  | none => exact hput s
  | some t => rfl

/-- Behind the writes of the first half it is the second half that stops. -/
theorem halt_bind {p : Prog σ ε α} {k : α → Prog σ ε β} {s : σ} {a : α} {n : Nat}
    (hp : Traced p) (hok : (p.run s).result = .ok a) (hn : (p.run s).trail.length ≤ n) :
    (p >>= k).halt s (some n) =
      (k a).halt (p.run s).final (some (n - (p.run s).trail.length)) := by
  rw [Prog.halt, Prog.halt, Prog.run_bind_ok hok, ← List.cons_append]
  rcases Nat.eq_or_lt_of_le hn with heq | hlt
  · rw [List.getElem?_append_left (by rw [List.length_cons]; omega), ← heq, Nat.sub_self, hp s,
      List.getElem?_cons_zero]
    have hlast : ∀ (l : List σ) (s : σ), (s :: l)[l.length]? = some (l.getLastD s) := by
      intro l
      induction l with
      | nil => exact fun _ => rfl
      | cons x l ih =>
          intro s
          rw [List.length_cons, List.getElem?_cons_succ, ih x, List.getLastD_cons]
    exact hlast _ s
  · obtain ⟨m, rfl⟩ : ∃ m, n = (p.run s).trail.length + (m + 1) :=
      ⟨n - (p.run s).trail.length - 1, by omega⟩
    rw [List.getElem?_append_right (by rw [List.length_cons]; omega), List.length_cons,
      Nat.add_sub_cancel_left, List.getElem?_cons_succ]
    congr 1
    omega

end Traced

end Openlia.Crash
