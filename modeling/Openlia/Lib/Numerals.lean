import Mathlib.Tactic.Common
import Mathlib.Tactic.Linarith
import Mathlib.Tactic.Ring

/-! # Decimal numerals

Numerals without leading zeros are compared as texts: a longer one is greater, and of two
of one length the greater text is the greater number.
-/

namespace Openlia.Lib

/-- Digits, and no zero before another digit. -/
structure IsNumeral (s : List Char) : Prop where
  ne_nil : s ≠ []
  digits : s.all Char.isDigit = true
  leading : s.head? = some '0' → s = ['0']

def digit (c : Char) : Nat := c.toNat - '0'.toNat

/-- The number of a text of digits. -/
def value : List Char → Nat
  | [] => 0
  | c :: s => digit c * 10 ^ s.length + value s

section Numerals

variable {a b s : List Char} {c d : Char}

theorem toNat_of_isDigit (h : c.isDigit = true) : 48 ≤ c.toNat ∧ c.toNat ≤ 57 := by
  simp only [Char.isDigit, Bool.and_eq_true, decide_eq_true_eq, UInt32.le_iff_toNat_le] at h
  exact h

theorem digit_lt (h : c.isDigit = true) : digit c < 10 := by
  have hc := toNat_of_isDigit h
  show c.toNat - 48 < 10
  omega

theorem digit_lt_iff (hc : c.isDigit = true) (hd : d.isDigit = true) :
    digit c < digit d ↔ c < d := by
  have hc := toNat_of_isDigit hc
  have hd := toNat_of_isDigit hd
  rw [Char.lt_def, UInt32.lt_iff_toNat_lt]
  show c.toNat - 48 < d.toNat - 48 ↔ c.toNat < d.toNat
  omega

theorem digit_inj (hc : c.isDigit = true) (hd : d.isDigit = true) (h : digit c = digit d) :
    c = d := by
  have hc := toNat_of_isDigit hc
  have hd := toNat_of_isDigit hd
  have h : c.toNat - 48 = d.toNat - 48 := h
  exact Char.toNat_inj.mp (by omega)

theorem digit_pos (hc : c.isDigit = true) (hzero : c ≠ '0') : 0 < digit c := by
  have hc := toNat_of_isDigit hc
  have hne : c.toNat ≠ 48 := fun h => hzero (Char.toNat_inj.mp h)
  show 0 < c.toNat - 48
  omega

theorem value_lt (h : s.all Char.isDigit = true) : value s < 10 ^ s.length := by
  induction s with
  | nil => exact Nat.one_pos
  | cons c s ih =>
      rw [List.all_cons, Bool.and_eq_true] at h
      have hrest := ih h.2
      have hdigit := Nat.mul_le_mul_right (10 ^ s.length) (Nat.le_of_lt_succ (digit_lt h.1))
      rw [value, List.length_cons, pow_succ]
      omega

/-- The first digit of a numeral with more than one is not zero. -/
theorem IsNumeral.le_value (h : IsNumeral (c :: s)) (hs : s ≠ []) :
    10 ^ s.length ≤ value (c :: s) := by
  have hzero : c ≠ '0' := by
    rintro rfl
    exact hs (List.cons.inj (h.leading rfl)).2
  have hdigits := h.digits
  rw [List.all_cons, Bool.and_eq_true] at hdigits
  have hle := Nat.mul_le_mul_right (10 ^ s.length) (digit_pos hdigits.1 hzero)
  rw [value]
  omega

theorem value_lt_of_length (ha : IsNumeral a) (hb : IsNumeral b) (h : b.length < a.length) :
    value b < value a := by
  obtain ⟨c, s, rfl⟩ := List.exists_cons_of_ne_nil ha.ne_nil
  have hb' := List.length_pos_iff.mpr hb.ne_nil
  rw [List.length_cons] at h
  have hs : s ≠ [] := List.length_pos_iff.mp (by omega)
  calc value b < 10 ^ b.length := value_lt hb.digits
    _ ≤ 10 ^ s.length := Nat.pow_le_pow_right (by decide) (by omega)
    _ ≤ value (c :: s) := ha.le_value hs

/-- Texts of one length are ordered as their numbers. -/
theorem value_lt_iff (hlength : a.length = b.length) (ha : a.all Char.isDigit = true)
    (hb : b.all Char.isDigit = true) : value a < value b ↔ a < b := by
  induction a generalizing b with
  | nil =>
      rw [List.length_eq_zero_iff.mp hlength.symm]
      exact ⟨fun h => absurd h (Nat.lt_irrefl 0), fun h => absurd h (List.lt_irrefl [])⟩
  | cons c a ih =>
      cases b with
      | nil => simp at hlength
      | cons d b => ?_
      rw [List.all_cons, Bool.and_eq_true] at ha hb
      have hlength' : a.length = b.length := Nat.succ.inj hlength
      have hva := value_lt ha.2
      have hvb := value_lt hb.2
      rw [List.cons_lt_cons_iff, ← ih hlength' ha.2 hb.2, ← digit_lt_iff ha.1 hb.1, value, value,
        hlength']
      rw [hlength'] at hva
      rcases Nat.lt_trichotomy (digit c) (digit d) with hcd | hcd | hcd
      · have hmul := Nat.mul_le_mul_right (10 ^ b.length) hcd
        rw [Nat.succ_mul] at hmul
        exact ⟨fun _ => Or.inl hcd, fun _ => by omega⟩
      · obtain rfl := digit_inj ha.1 hb.1 hcd
        constructor
        · exact fun h => Or.inr ⟨rfl, by omega⟩
        · rintro (h | ⟨-, h⟩) <;> omega
      · have hmul := Nat.mul_le_mul_right (10 ^ b.length) hcd
        rw [Nat.succ_mul] at hmul
        constructor
        · intro h
          omega
        · rintro (h | ⟨rfl, -⟩)
          · omega
          · exact absurd hcd (Nat.lt_irrefl _)

/-- Different numerals have different numbers. -/
theorem value_inj (ha : IsNumeral a) (hb : IsNumeral b) (h : value a = value b) : a = b := by
  rcases Nat.lt_trichotomy a.length b.length with hlength | hlength | hlength
  · exact absurd h (value_lt_of_length hb ha hlength).ne
  · refine List.le_antisymm (fun hlt => ?_) fun hlt => ?_
    · exact absurd h ((value_lt_iff hlength.symm hb.digits ha.digits).mpr hlt).ne'
    · exact absurd h ((value_lt_iff hlength ha.digits hb.digits).mpr hlt).ne
  · exact absurd h (value_lt_of_length ha hb hlength).ne'

/-- Lengths first, then texts. -/
theorem value_lt_iff_length (ha : IsNumeral a) (hb : IsNumeral b) :
    value b < value a ↔ b.length < a.length ∨ b.length = a.length ∧ b < a := by
  rcases Nat.lt_trichotomy a.length b.length with hlength | hlength | hlength
  · have hlt := value_lt_of_length hb ha hlength
    exact ⟨fun h => absurd h (by omega), fun h => absurd h (by omega)⟩
  · rw [value_lt_iff hlength.symm hb.digits ha.digits]
    exact ⟨fun h => Or.inr ⟨hlength.symm, h⟩, fun h => (h.resolve_left (by omega)).2⟩
  · exact ⟨fun _ => Or.inl hlength, fun _ => value_lt_of_length ha hb hlength⟩

end Numerals

end Openlia.Lib
