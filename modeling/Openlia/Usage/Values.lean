import Openlia.Lib.Results
import Openlia.Usage.Collector

/-! # Values of Python

What `json.loads` and the rows of SQLite give, and the conversions that raise. Floating-point
numbers are of any type with the operations of `Floats`.
-/

namespace Openlia.Usage.Intake

open Lib

/-- Code points, surrogates among them. -/
abbrev Str := List Nat

def lit (s : String) : Str := s.toList.map Char.toNat

/-- A surrogate cannot be encoded. -/
def encodable (s : Str) : Bool := s.all fun c => c < 0xD800 || 0xDFFF < c

inductive Exn where
  | attribute | key | os | overflow | recursion | sqlite | type | value
deriving DecidableEq

/-- `except (OSError, ValueError, KeyError, TypeError, OverflowError, sqlite3.Error)` -/
def Exn.caught : Exn → Bool
  | .attribute | .recursion => false
  | _ => true

/-- Costs are far below. -/
def limit : Nat := 10 ^ 300

/-- None of `ofInt` is `OverflowError`, none of a text is `ValueError`. Numbers of the two kinds
are compared exactly, and subtracted after the whole number has become a float. -/
structure Floats (F : Type) where
  ofInt : Int → Option F
  ofText : Str → Option F
  intOfText : Str → Option Int
  trunc : F → Option Int
  lt : F → F → Bool
  ltInt : F → Int → Bool
  intLt : Int → F → Bool
  sub : F → F → F
  finite : F → Bool
  isNaN : F → Bool
  ofInt_number : ∀ n : Int, n.natAbs ≤ 2 * limit → ∃ x, ofInt n = some x ∧ isNaN x = false
  trunc_isSome : ∀ x, finite x = true → (trunc x).isSome

inductive Num (F : Type) where
  | bool (b : Bool)
  | int (n : Int)
  | float (x : F)

inductive Value (F : Type) where
  | null
  | num (n : Num F)
  | str (s : Str)
  | bytes (s : Str)
  | list (items : List (Value F))
  | dict (entries : List (Str × Value F))

abbrev Dict (F : Type) := List (Str × Value F)

def orRaise {α : Type} (e : Exn) : Option α → Except Exn α
  | none => .error e
  | some a => .ok a

variable {F : Type}

namespace Num

/-- `True` is 1. -/
def exact : Num F → Int ⊕ F
  | bool b => .inl b.toNat
  | int n => .inl n
  | float x => .inr x

def truthy (fl : Floats F) (a : Num F) : Bool :=
  match a.exact with
  | .inl n => n ≠ 0
  | .inr x => fl.ltInt x 0 || fl.intLt 0 x || fl.isNaN x

def lt (fl : Floats F) (a b : Num F) : Bool :=
  match a.exact, b.exact with
  | .inl m, .inl n => m < n
  | .inl m, .inr y => fl.intLt m y
  | .inr x, .inl n => fl.ltInt x n
  | .inr x, .inr y => fl.lt x y

/-- `max(a, b)`: the first unless the second is greater. -/
def max (fl : Floats F) (a b : Num F) : Num F := if a.lt fl b then b else a

def toFloat (fl : Floats F) (a : Num F) : Except Exn F :=
  match a.exact with
  | .inl n => orRaise .overflow (fl.ofInt n)
  | .inr x => .ok x

def sub (fl : Floats F) (a b : Num F) : Except Exn (Num F) :=
  match a.exact, b.exact with
  | .inl m, .inl n => .ok (.int (m - n))
  | .inr x, .inr y => .ok (.float (fl.sub x y))
  | _, _ => do
      let x ← a.toFloat fl
      let y ← b.toFloat fl
      return .float (fl.sub x y)

end Num

namespace Value

def truthy (fl : Floats F) : Value F → Bool
  | null => false
  | num n => n.truthy fl
  | str s | bytes s => s ≠ []
  | list items => !items.isEmpty
  | dict entries => !entries.isEmpty

/-- `value or other` -/
def orElse (fl : Floats F) (v other : Value F) : Value F := if v.truthy fl then v else other

def zero : Value F := num (.int 0)

def toInt (fl : Floats F) : Value F → Except Exn Int
  | num n =>
      match n.exact with
      | .inl n => .ok n
      | .inr x => orRaise (if fl.isNaN x then .value else .overflow) (fl.trunc x)
  | str s | bytes s => orRaise .value (fl.intOfText s)
  | _ => .error .type

def toFloat (fl : Floats F) : Value F → Except Exn F
  | num n => n.toFloat fl
  | str s | bytes s => orRaise .value (fl.ofText s)
  | _ => .error .type

/-- What is compared with numbers and subtracted. -/
def number : Value F → Except Exn (Num F)
  | num n => .ok n
  | _ => .error .type

end Value

def Dict.get (d : Dict F) (key : String) : Value F := (d.lookup (lit key)).getD .null

def Dict.set (d : Dict F) (key : String) (v : Value F) : Dict F := (lit key, v) :: d

/-! ## Exceptions that are caught -/

def CaughtOnly {α : Type} (x : Except Exn α) : Prop := ∀ e, x = .error e → e.caught = true

section Caught

variable {α β : Type} {fl : Floats F}

theorem CaughtOnly.ok (a : α) : CaughtOnly (.ok a) := by
  intro e h
  contradiction

theorem CaughtOnly.error {e : Exn} (h : e.caught = true) :
    CaughtOnly (.error e : Except Exn α) := by
  intro e' h'
  cases h'
  exact h

theorem CaughtOnly.bind {x : Except Exn α} {k : α → Except Exn β} (hx : CaughtOnly x)
    (hk : ∀ a, CaughtOnly (k a)) : CaughtOnly (x >>= k) := by
  cases x with
  | error e => exact .error (hx e rfl)
  | ok a => exact hk a

theorem caughtOnly_orRaise {e : Exn} (h : e.caught = true) (x : Option α) :
    CaughtOnly (orRaise e x) := by
  cases x with
  | none => exact .error h
  | some a => exact .ok a

theorem Num.caughtOnly_toFloat (a : Num F) : CaughtOnly (a.toFloat fl) := by
  unfold Num.toFloat
  split
  · exact caughtOnly_orRaise rfl _
  · exact .ok _

theorem Num.caughtOnly_sub (a b : Num F) : CaughtOnly (a.sub fl b) := by
  unfold Num.sub
  split
  · exact .ok _
  · exact .ok _
  · exact (a.caughtOnly_toFloat).bind fun x => (b.caughtOnly_toFloat).bind fun y => .ok _

theorem Value.caughtOnly_toFloat (v : Value F) : CaughtOnly (v.toFloat fl) := by
  unfold Value.toFloat
  split
  · exact Num.caughtOnly_toFloat _
  · exact caughtOnly_orRaise rfl _
  · exact caughtOnly_orRaise rfl _
  · exact .error rfl

theorem Value.caughtOnly_toInt (v : Value F) : CaughtOnly (v.toInt fl) := by
  unfold Value.toInt
  split
  · split
    · exact .ok _
    · apply caughtOnly_orRaise
      split <;> rfl
  · exact caughtOnly_orRaise rfl _
  · exact caughtOnly_orRaise rfl _
  · exact .error rfl

theorem Value.caughtOnly_number (v : Value F) : CaughtOnly v.number := by
  cases v with
  | num n => exact .ok n
  | _ => exact .error rfl

end Caught

/-! ## Numbers that are converted -/

section Amounts

variable {fl : Floats F}

/-- No whole number that a float cannot hold. -/
def Num.Small (a : Num F) : Prop :=
  match a.exact with
  | .inl n => n.natAbs ≤ limit
  | .inr _ => True

instance (a : Num F) : Decidable a.Small :=
  match h : a.exact with
  | .inl n => decidable_of_iff (n.natAbs ≤ limit) (by simp only [Num.Small, h])
  | .inr _ => isTrue (by simp only [Num.Small, h])

theorem Num.Small.natAbs_le {a : Num F} (h : a.Small) {n : Int} (hn : a.exact = .inl n) :
    n.natAbs ≤ limit := by
  unfold Num.Small at h
  simpa only [hn] using h

theorem Num.Small.max {a b : Num F} (ha : a.Small) (hb : b.Small) : (a.max fl b).Small := by
  unfold Num.max
  split
  · exact hb
  · exact ha

/-- A difference of small numbers: it becomes a float. -/
def Num.Converts (a : Num F) : Prop := ∀ n, a.exact = .inl n → n.natAbs ≤ 2 * limit

theorem Num.Small.converts {a : Num F} (h : a.Small) : a.Converts := by
  intro n hn
  have hle := h.natAbs_le hn
  omega

theorem Num.toFloat_isOk (fl : Floats F) {a : Num F} (h : a.Converts) :
    ∃ x, a.toFloat fl = .ok x ∧
      ((∀ y, a.exact = .inr y → fl.isNaN y = false) → fl.isNaN x = false) := by
  unfold Num.toFloat
  cases hexact : a.exact with
  | inl n =>
      obtain ⟨x, hx, hnumber⟩ := fl.ofInt_number n (h n hexact)
      refine ⟨x, ?_, fun _ => hnumber⟩
      simp only [hx]
      rfl
  | inr x => exact ⟨x, rfl, fun hy => hy x rfl⟩

theorem Num.sub_isOk (fl : Floats F) {a b : Num F} (ha : a.Small) (hb : b.Small) :
    ∃ c, a.sub fl b = .ok c ∧ c.Converts := by
  obtain ⟨x, hx, -⟩ := Num.toFloat_isOk fl ha.converts
  obtain ⟨y, hy, -⟩ := Num.toFloat_isOk fl hb.converts
  unfold Num.sub
  split
  · rename_i m n hm hn
    refine ⟨_, rfl, ?_⟩
    intro k hk
    have hm' := ha.natAbs_le hm
    have hn' := hb.natAbs_le hn
    cases hk
    omega
  · refine ⟨_, rfl, ?_⟩
    intro k hk
    contradiction
  · rw [hx, hy]
    refine ⟨_, rfl, ?_⟩
    intro k hk
    contradiction

end Amounts

end Openlia.Usage.Intake
