import Mathlib.Algebra.Order.Field.Basic
import Mathlib.Algebra.Order.Field.Rat
import Mathlib.Data.List.TakeWhile
import Mathlib.Tactic.FieldSimp
import Mathlib.Tactic.Linarith
import Mathlib.Tactic.Ring

/-! # Decimals as text

Totals are added up as texts. Each decimal fraction has one text, and the text of a sum is that of
the exact sum.
-/

namespace Openlia.Finance

abbrev Text := List Char

inductive Failure
  | unsupportedPrecision
  | unsafeCoordinate
  deriving DecidableEq

/-! ## Fixed-point arithmetic -/

structure Decimal where
  coefficient : Int
  scale : Nat
  deriving DecidableEq

def isDigits (s : Text) : Bool := s ≠ [] ∧ s.all Char.isDigit

def digitsValue (s : Text) : Nat := Nat.ofDigitChars 10 s 0

def unsignedParsed (negative : Bool) (s : Text) : Option Decimal :=
  let whole := s.takeWhile Char.isDigit
  let sign : Int := if negative then -1 else 1
  match s.dropWhile Char.isDigit with
  | [] => if whole = [] then none else some ⟨sign * digitsValue whole, 0⟩
  | c :: fraction =>
      if c = '.' ∧ whole ≠ [] ∧ isDigits fraction then
        some ⟨sign * digitsValue (whole ++ fraction), fraction.length⟩
      else none

/-- `^(-?)(\d+)(?:\.(\d+))?$` -/
def parsed : Text → Option Decimal
  | '-' :: s => unsignedParsed true s
  | s => unsignedParsed false s

def decimal (value : Text) : Except Failure Decimal :=
  match parsed value with
  | none => .error .unsupportedPrecision
  | some d =>
      if 256 < value.length ∨ 36 < d.scale then .error .unsupportedPrecision else .ok d

/-- `replace(/\.?0+$/, "")` -/
def withoutZeros (s : Text) : Text :=
  let kept := (s.reverse.dropWhile (· = '0')).reverse
  if kept = s then s else if kept.getLast? = some '.' then kept.dropLast else kept

def decimalString (coefficient : Int) (scale : Nat) : Text :=
  let negative : Bool := coefficient < 0
  let digits := (Nat.toDigits 10 coefficient.natAbs).leftpad (scale + 1) '0'
  let digits :=
    if scale ≠ 0 then
      withoutZeros (digits.take (digits.length - scale) ++ '.' :: digits.drop (digits.length - scale))
    else digits
  if negative ∧ coefficient ≠ 0 then '-' :: digits else digits

def addDecimal (a b : Text) : Except Failure Text := do
  let x ← decimal a
  let y ← decimal b
  let scale := max x.scale y.scale
  .ok (decimalString
    (x.coefficient * 10 ^ (scale - x.scale) + y.coefficient * 10 ^ (scale - y.scale)) scale)

def negateDecimal (value : Text) : Except Failure Text := do
  let d ← decimal value
  .ok (decimalString (-d.coefficient) d.scale)

/-! ## Values -/

def Decimal.value (d : Decimal) : ℚ := d.coefficient / 10 ^ d.scale

/-- The number that a text stands for. -/
def number (s : Text) : Option ℚ := (parsed s).map Decimal.value

/-! ## The digits -/

section Digits

variable {s : Text} {n k : Nat}

/-- The digits with a point before the last ones. -/
def dotted (n k : Nat) : Text :=
  let digits := (Nat.toDigits 10 n).leftpad (k + 1) '0'
  digits.take (digits.length - k) ++ '.' :: digits.drop (digits.length - k)

/-- Without zeros at the end, and without the point if it is last then. -/
def shortened (s : Text) : Text :=
  let kept := (s.reverse.dropWhile (· = '0')).reverse
  if kept.getLast? = some '.' then kept.dropLast else kept

theorem shortened_concat_zero (s : Text) : shortened (s ++ ['0']) = shortened s := by
  simp [shortened]

theorem shortened_concat {c : Char} (hzero : c ≠ '0') (hdot : c ≠ '.') (s : Text) :
    shortened (s ++ [c]) = s ++ [c] := by
  simp [shortened, hzero, hdot]

theorem shortened_concat_dot (s : Text) : shortened (s ++ ['.']) = s := by
  simp [shortened]

theorem withoutZeros_eq_shortened (h : s.getLast? ≠ some '.') : withoutZeros s = shortened s := by
  simp only [withoutZeros, shortened]
  split
  · rename_i hkept
    rw [hkept, if_neg h]
  · rfl

theorem digit_cases {d : Nat} (h : d < 10) :
    d.digitChar.isDigit = true ∧ d.digitChar ≠ '.' ∧ (d.digitChar = '0' ↔ d = 0) := by
  revert d
  decide

/-- One more place after the point. -/
theorem leftpad_succ (n k : Nat) : (Nat.toDigits 10 n).leftpad (k + 2) '0' =
    (Nat.toDigits 10 (n / 10)).leftpad (k + 1) '0' ++ [(n % 10).digitChar] := by
  by_cases h : n < 10
  · rw [Nat.toDigits_of_lt_base h, Nat.div_eq_of_lt h, Nat.mod_eq_of_lt h, Nat.toDigits_zero]
    simp [List.leftpad, List.replicate_succ']
  · rw [Nat.toDigits_of_base_le (by decide) (Nat.le_of_not_lt h), List.leftpad, List.leftpad,
      List.length_append, List.length_singleton, List.append_assoc]
    congr 2
    omega

theorem length_leftpad (n k : Nat) : k < ((Nat.toDigits 10 n).leftpad (k + 1) '0').length := by
  rw [List.length_leftpad]
  omega

theorem dotted_zero (n : Nat) : dotted n 0 = Nat.toDigits 10 n ++ ['.'] := by
  have hpos : 1 ≤ (Nat.toDigits 10 n).length := Nat.length_toDigits_pos
  simp [dotted, List.leftpad, Nat.sub_eq_zero_of_le hpos]

theorem dotted_succ (n k : Nat) : dotted n (k + 1) = dotted (n / 10) k ++ [(n % 10).digitChar] := by
  have hlength := length_leftpad (n / 10) k
  simp only [dotted]
  rw [leftpad_succ, List.length_append, List.length_singleton, Nat.add_sub_add_right,
    List.take_append_of_le_length (Nat.sub_le _ _), List.drop_append_of_le_length (Nat.sub_le _ _),
    List.append_assoc, List.cons_append]

theorem decimalString_eq (c : Int) (k : Nat) : decimalString c k =
    if c < 0 then '-' :: shortened (dotted c.natAbs k) else shortened (dotted c.natAbs k) := by
  have hdigits : (if k ≠ 0 then withoutZeros (dotted c.natAbs k)
      else (Nat.toDigits 10 c.natAbs).leftpad (k + 1) '0') = shortened (dotted c.natAbs k) := by
    cases k with
    | zero =>
        have hpos : 1 ≤ (Nat.toDigits 10 c.natAbs).length := Nat.length_toDigits_pos
        rw [if_neg (by simp), dotted_zero, shortened_concat_dot, List.leftpad,
          Nat.sub_eq_zero_of_le hpos]
        rfl
    | succ k =>
        have hdot := (digit_cases (Nat.mod_lt c.natAbs (by decide : 0 < 10))).2.1
        rw [if_pos (by simp), withoutZeros_eq_shortened]
        rw [dotted_succ, List.getLast?_concat]
        simp [hdot]
  have hsign : (decide (c < 0) = true ∧ c ≠ 0) ↔ c < 0 := by
    rw [decide_eq_true_eq]
    omega
  rw [← hdigits]
  simp only [decimalString, dotted, hsign]

/-- The coefficient and the scale without zeros at the end. -/
def reduced : Nat → Nat → Nat × Nat
  | n, 0 => (n, 0)
  | n, k + 1 => if n % 10 = 0 then reduced (n / 10) k else (n, k + 1)

/-- A numeral, with a point if there is something after it. -/
def plain (n k : Nat) : Text := if k = 0 then Nat.toDigits 10 n else dotted n k

theorem shortened_dotted (n k : Nat) :
    shortened (dotted n k) = plain (reduced n k).1 (reduced n k).2 := by
  induction k generalizing n with
  | zero =>
      rw [dotted_zero, shortened_concat_dot]
      rfl
  | succ k ih =>
      obtain ⟨-, hdot, hzero⟩ := digit_cases (Nat.mod_lt n (by decide : 0 < 10))
      rw [dotted_succ, reduced]
      by_cases h : n % 10 = 0
      · rw [if_pos h, hzero.mpr h, shortened_concat_zero, ih]
      · rw [if_neg h, shortened_concat (fun heq => h (hzero.mp heq)) hdot, ← dotted_succ]
        rfl

theorem reduced_spec (n k : Nat) : (reduced n k).1 * 10 ^ k = n * 10 ^ (reduced n k).2 ∧
    (reduced n k).2 ≤ k ∧ ((reduced n k).2 = 0 ∨ (reduced n k).1 % 10 ≠ 0) := by
  induction k generalizing n with
  | zero => exact ⟨rfl, Nat.le_refl 0, Or.inl rfl⟩
  | succ k ih =>
      rw [reduced]
      by_cases h : n % 10 = 0
      · obtain ⟨hvalue, hle, hlast⟩ := ih (n / 10)
        rw [if_pos h]
        refine ⟨?_, by omega, hlast⟩
        have hn : n = 10 * (n / 10) := by omega
        calc (reduced (n / 10) k).1 * 10 ^ (k + 1)
            = 10 * ((reduced (n / 10) k).1 * 10 ^ k) := by ring
          _ = 10 * (n / 10) * 10 ^ (reduced (n / 10) k).2 := by rw [hvalue]; ring
          _ = n * 10 ^ (reduced (n / 10) k).2 := by rw [← hn]
      · rw [if_neg h]
        exact ⟨rfl, Nat.le_refl _, Or.inr h⟩

/-- A value has one coefficient and scale without zeros at the end. -/
theorem reduced_unique {m j : Nat} (hn : k = 0 ∨ n % 10 ≠ 0) (hm : j = 0 ∨ m % 10 ≠ 0)
    (h : n * 10 ^ j = m * 10 ^ k) : n = m ∧ k = j := by
  have hle : ∀ {n k m j : Nat}, (j = 0 ∨ m % 10 ≠ 0) → n * 10 ^ j = m * 10 ^ k → j ≤ k := by
    intro n k m j hm h
    by_contra hlt
    obtain ⟨d, rfl⟩ : ∃ d, j = k + (d + 1) := ⟨j - k - 1, by omega⟩
    have hpos : 0 < 10 ^ k := Nat.pow_pos (by decide)
    have hm' : m = 10 * (n * 10 ^ d) := by
      apply Nat.eq_of_mul_eq_mul_right hpos
      rw [← h]
      ring
    omega
  have hkj : k = j := Nat.le_antisymm (hle hn h.symm) (hle hm h)
  subst hkj
  exact ⟨Nat.eq_of_mul_eq_mul_right (Nat.pow_pos (by decide)) h, rfl⟩

end Digits

/-! ## Reading -/

section Reading

variable {s whole fraction : Text} {n k : Nat} {negative : Bool}

theorem takeWhile_digits (h : whole.all Char.isDigit = true) (rest : Text)
    (hrest : ∀ c ∈ rest.head?, c.isDigit = false) :
    (whole ++ rest).takeWhile Char.isDigit = whole ∧
      (whole ++ rest).dropWhile Char.isDigit = rest := by
  rw [List.takeWhile_append_of_pos (List.all_eq_true.mp h),
    List.dropWhile_append_of_pos (List.all_eq_true.mp h)]
  cases rest with
  | nil => simp
  | cons c rest => simp [hrest c rfl]

theorem unsignedParsed_whole (hne : whole ≠ []) (h : whole.all Char.isDigit = true) :
    unsignedParsed negative whole =
      some ⟨(if negative then -1 else 1) * digitsValue whole, 0⟩ := by
  obtain ⟨htake, hdrop⟩ := takeWhile_digits h [] (by simp)
  rw [List.append_nil] at htake hdrop
  simp only [unsignedParsed, htake, hdrop, if_neg hne]

theorem unsignedParsed_fraction (hne : whole ≠ []) (h : whole.all Char.isDigit = true)
    (hfraction : isDigits fraction = true) :
    unsignedParsed negative (whole ++ '.' :: fraction) =
      some ⟨(if negative then -1 else 1) * digitsValue (whole ++ fraction), fraction.length⟩ := by
  obtain ⟨htake, hdrop⟩ := takeWhile_digits h ('.' :: fraction) (by simp)
  simp [unsignedParsed, htake, hdrop, hne, hfraction]

theorem toDigits_digits (n : Nat) : (Nat.toDigits 10 n).all Char.isDigit = true :=
  List.all_eq_true.mpr fun _ hc => Nat.isDigit_of_mem_toDigits (by decide) (by decide) hc

theorem dotted_parts (n k : Nat) : ∃ whole fraction, dotted n k = whole ++ '.' :: fraction ∧
    whole ≠ [] ∧ whole.all Char.isDigit = true ∧ fraction.all Char.isDigit = true ∧
    fraction.length = k ∧ digitsValue (whole ++ fraction) = n := by
  have hlength := length_leftpad n k
  have hall : ((Nat.toDigits 10 n).leftpad (k + 1) '0').all Char.isDigit = true := by
    rw [List.leftpad, List.all_append, toDigits_digits, Bool.and_true, List.all_eq_true]
    intro c hc
    rw [List.eq_of_mem_replicate hc]
    rfl
  refine ⟨_, _, rfl, ?_, ?_, ?_, ?_, ?_⟩
  · apply List.ne_nil_of_length_pos
    rw [List.length_take]
    omega
  · exact List.all_eq_true.mpr fun c hc => List.all_eq_true.mp hall c (List.mem_of_mem_take hc)
  · exact List.all_eq_true.mpr fun c hc => List.all_eq_true.mp hall c (List.mem_of_mem_drop hc)
  · rw [List.length_drop]
    omega
  · rw [List.take_append_drop, digitsValue, List.leftpad, Nat.ofDigitChars_append,
      Nat.ofDigitChars_replicate_zero, Nat.mul_zero, Nat.ofDigitChars_ten_toDigits]

theorem unsignedParsed_plain (n k : Nat) :
    unsignedParsed negative (plain n k) = some ⟨(if negative then -1 else 1) * n, k⟩ := by
  unfold plain
  split
  · rename_i hk
    rw [unsignedParsed_whole Nat.toDigits_ne_nil (toDigits_digits n), digitsValue,
      Nat.ofDigitChars_ten_toDigits, hk]
  · rename_i hk
    obtain ⟨whole, fraction, heq, hne, hwhole, hfraction, hlength, hvalue⟩ := dotted_parts n k
    have hdigits : isDigits fraction = true := by
      rw [isDigits, decide_eq_true_eq]
      exact ⟨List.ne_nil_of_length_pos (by omega), hfraction⟩
    rw [heq, unsignedParsed_fraction hne hwhole hdigits, hvalue, hlength]

theorem plain_head (n k : Nat) : ∃ c rest, plain n k = c :: rest ∧ c.isDigit = true := by
  have hdigits : ∀ {s : Text}, s ≠ [] → s.all Char.isDigit = true →
      ∃ c rest, s = c :: rest ∧ c.isDigit = true := by
    intro s hne hall
    obtain ⟨c, rest, rfl⟩ := List.exists_cons_of_ne_nil hne
    exact ⟨c, rest, rfl, List.all_eq_true.mp hall c List.mem_cons_self⟩
  unfold plain
  split
  · exact hdigits Nat.toDigits_ne_nil (toDigits_digits n)
  · obtain ⟨whole, fraction, heq, hne, hwhole, -⟩ := dotted_parts n k
    obtain ⟨c, rest, rfl, hc⟩ := hdigits hne hwhole
    exact ⟨c, rest ++ '.' :: fraction, heq, hc⟩

theorem parsed_plain (n k : Nat) : parsed (plain n k) = some ⟨n, k⟩ := by
  obtain ⟨c, rest, heq, hc⟩ := plain_head n k
  have hparsed : parsed (plain n k) = unsignedParsed false (plain n k) := by
    rw [heq]
    unfold parsed
    split
    · rename_i hminus
      obtain ⟨rfl, -⟩ := List.cons.inj hminus
      cases hc
    · rfl
  rw [hparsed, unsignedParsed_plain]
  simp

end Reading

/-! ## The text of a value -/

section Value

variable {a b r : Text} {p q : ℚ} {c c' : Int} {k k' : Nat}

/-- The text with the sign, of a coefficient and a scale without zeros at the end. -/
theorem decimalString_reduced (c : Int) (k : Nat) :
    decimalString c k = if c < 0 then '-' :: plain (reduced c.natAbs k).1 (reduced c.natAbs k).2
      else plain (reduced c.natAbs k).1 (reduced c.natAbs k).2 := by
  rw [decimalString_eq, shortened_dotted]

theorem parsed_decimalString (c : Int) (k : Nat) : parsed (decimalString c k) =
    some ⟨(if c < 0 then -1 else 1) * (reduced c.natAbs k).1, (reduced c.natAbs k).2⟩ := by
  rw [decimalString_reduced]
  split
  · exact unsignedParsed_plain _ _
  · rw [parsed_plain, one_mul]

theorem Decimal.value_eq_iff (x y : Decimal) :
    x.value = y.value ↔ x.coefficient * 10 ^ y.scale = y.coefficient * 10 ^ x.scale := by
  have hx : (10 : ℚ) ^ x.scale ≠ 0 := pow_ne_zero _ (by norm_num)
  have hy : (10 : ℚ) ^ y.scale ≠ 0 := pow_ne_zero _ (by norm_num)
  rw [value, value, div_eq_div_iff hx hy]
  norm_cast

theorem natAbs_sign (c : Int) : c = (if c < 0 then -1 else 1) * (c.natAbs : Int) := by
  split <;> omega

theorem number_decimalString (c : Int) (k : Nat) :
    number (decimalString c k) = some (Decimal.mk c k).value := by
  rw [number, parsed_decimalString, Option.map_some, Option.some.injEq, Decimal.value_eq_iff]
  have hspec := (reduced_spec c.natAbs k).1
  have hcast : ((reduced c.natAbs k).1 : Int) * 10 ^ k = c.natAbs * 10 ^ (reduced c.natAbs k).2 := by
    exact_mod_cast hspec
  rw [mul_assoc, hcast, ← mul_assoc, ← natAbs_sign]

/-- Each value has one text. -/
theorem decimalString_eq_iff :
    decimalString c k = decimalString c' k' ↔ (Decimal.mk c k).value = (Decimal.mk c' k').value := by
  constructor
  · intro h
    have hnumber := congrArg number h
    rwa [number_decimalString, number_decimalString, Option.some.injEq] at hnumber
  · intro h
    rw [Decimal.value_eq_iff] at h
    have habs := congrArg Int.natAbs h
    rw [Int.natAbs_mul, Int.natAbs_mul, Int.natAbs_pow, Int.natAbs_pow] at habs
    have hneg : ∀ (x : Int) (j : Nat), x * 10 ^ j < 0 ↔ x < 0 := by
      intro x j
      have hpow : (0 : Int) < 10 ^ j := pow_pos (by decide) j
      constructor
      · intro hx
        by_contra hle
        exact absurd hx (not_lt.mpr (mul_nonneg (not_lt.mp hle) hpow.le))
      · exact fun hx => mul_neg_of_neg_of_pos hx hpow
    have hsign : c < 0 ↔ c' < 0 := by rw [← hneg c k', h, hneg]
    obtain ⟨hspec, -, hlast⟩ := reduced_spec c.natAbs k
    obtain ⟨hspec', -, hlast'⟩ := reduced_spec c'.natAbs k'
    have hsame : (reduced c.natAbs k).1 * 10 ^ (reduced c'.natAbs k').2 =
        (reduced c'.natAbs k').1 * 10 ^ (reduced c.natAbs k).2 := by
      apply Nat.eq_of_mul_eq_mul_right (Nat.mul_pos (Nat.pow_pos (by decide) : 0 < 10 ^ k)
        (Nat.pow_pos (by decide) : 0 < 10 ^ k'))
      have habs' : c.natAbs * 10 ^ k' = c'.natAbs * 10 ^ k := habs
      calc _ = (reduced c.natAbs k).1 * 10 ^ k * 10 ^ k' * 10 ^ (reduced c'.natAbs k').2 := by ring
        _ = c.natAbs * 10 ^ k' * 10 ^ (reduced c.natAbs k).2 * 10 ^ (reduced c'.natAbs k').2 := by
            rw [hspec]; ring
        _ = (reduced c'.natAbs k').1 * 10 ^ k' * 10 ^ k * 10 ^ (reduced c.natAbs k).2 := by
            rw [habs', hspec']; ring
        _ = _ := by ring
    obtain ⟨hcoefficient, hscale⟩ := reduced_unique hlast hlast' hsame
    simp only [decimalString_reduced, hcoefficient, hscale, hsign]

/-- No zero is written in front of another digit of the whole part or at the end of the
fraction, no point without a fraction, no sign before zero. -/
def IsCanonical (s : Text) : Prop :=
  ∃ n k, (k = 0 ∨ n % 10 ≠ 0) ∧ (s = plain n k ∨ n ≠ 0 ∧ s = '-' :: plain n k)

theorem decimalString_canonical (c : Int) (k : Nat) : IsCanonical (decimalString c k) := by
  obtain ⟨hvalue, -, hlast⟩ := reduced_spec c.natAbs k
  refine ⟨(reduced c.natAbs k).1, (reduced c.natAbs k).2, hlast, ?_⟩
  rw [decimalString_reduced]
  split
  · rename_i hneg
    refine Or.inr ⟨fun hzero => ?_, rfl⟩
    have hpos : 0 < c.natAbs * 10 ^ (reduced c.natAbs k).2 :=
      Nat.mul_pos (by omega) (Nat.pow_pos (by decide))
    rw [hzero] at hvalue
    omega
  · exact Or.inl rfl

theorem number_of_decimal {d : Decimal} (h : decimal a = .ok d) : number a = some d.value := by
  unfold decimal at h
  split at h
  · cases h
  · rename_i hparsed
    split at h
    · cases h
    · cases h
      rw [number, hparsed, Option.map_some]

theorem Decimal.value_rescale (d : Decimal) {k : Nat} (h : d.scale ≤ k) :
    (Decimal.mk (d.coefficient * 10 ^ (k - d.scale)) k).value = d.value := by
  rw [Decimal.value_eq_iff, mul_assoc, ← pow_add, Nat.sub_add_cancel h]

theorem Decimal.value_add (c c' : Int) (k : Nat) :
    (Decimal.mk (c + c') k).value = (Decimal.mk c k).value + (Decimal.mk c' k).value := by
  simp only [value, Int.cast_add, add_div]

theorem Decimal.value_neg (c : Int) (k : Nat) :
    (Decimal.mk (-c) k).value = -(Decimal.mk c k).value := by
  simp only [value, Int.cast_neg, neg_div]

theorem addDecimal_eq_ok (h : addDecimal a b = .ok r) :
    ∃ x y : Decimal, decimal a = .ok x ∧ decimal b = .ok y ∧
      ∃ c k, r = decimalString c k ∧ (Decimal.mk c k).value = x.value + y.value := by
  unfold addDecimal at h
  cases hx : decimal a with
  | error e => rw [hx] at h; cases h
  | ok x =>
      cases hy : decimal b with
      | error e => rw [hx, hy] at h; cases h
      | ok y =>
          rw [hx, hy] at h
          cases h
          refine ⟨x, y, rfl, rfl, _, _, rfl, ?_⟩
          rw [Decimal.value_add, x.value_rescale (le_max_left _ _), y.value_rescale (le_max_right _ _)]

/-- A sum is exact and canonical. -/
theorem addDecimal_exact (h : addDecimal a b = .ok r) :
    ∃ p q, number a = some p ∧ number b = some q ∧ number r = some (p + q) ∧ IsCanonical r := by
  obtain ⟨x, y, hx, hy, c, k, rfl, hvalue⟩ := addDecimal_eq_ok h
  refine ⟨x.value, y.value, number_of_decimal hx, number_of_decimal hy, ?_,
    decimalString_canonical c k⟩
  rw [number_decimalString, hvalue]

theorem negateDecimal_exact (h : negateDecimal a = .ok r) :
    ∃ p, number a = some p ∧ number r = some (-p) ∧ IsCanonical r := by
  unfold negateDecimal at h
  cases hx : decimal a with
  | error e => rw [hx] at h; cases h
  | ok x =>
      rw [hx] at h
      cases h
      refine ⟨x.value, number_of_decimal hx, ?_, decimalString_canonical _ _⟩
      rw [number_decimalString, Decimal.value_neg]

/-- Canonical texts of one number are the same. -/
theorem IsCanonical.eq_decimalString (h : IsCanonical a) : ∃ d : Decimal,
    a = decimalString d.coefficient d.scale ∧ number a = some d.value := by
  obtain ⟨n, k, hlast, heq⟩ := h
  have hreduced : (reduced n k).1 = n ∧ (reduced n k).2 = k := by
    obtain ⟨hvalue, -, hlast'⟩ := reduced_spec n k
    obtain ⟨hn, hk⟩ := reduced_unique hlast' hlast hvalue
    exact ⟨hn, hk⟩
  have htext : ∃ d : Decimal, a = decimalString d.coefficient d.scale := by
    rcases heq with rfl | ⟨hn, rfl⟩
    · refine ⟨⟨n, k⟩, ?_⟩
      dsimp only
      rw [decimalString_reduced, if_neg (by omega), Int.natAbs_natCast, hreduced.1, hreduced.2]
    · refine ⟨⟨-n, k⟩, ?_⟩
      dsimp only
      rw [decimalString_reduced, if_pos (by omega), Int.natAbs_neg, Int.natAbs_natCast, hreduced.1,
        hreduced.2]
  obtain ⟨d, rfl⟩ := htext
  exact ⟨d, rfl, number_decimalString _ _⟩

theorem IsCanonical.ext (ha : IsCanonical a) (hb : IsCanonical b) (h : number a = number b) :
    a = b := by
  obtain ⟨d, rfl, hd⟩ := ha.eq_decimalString
  obtain ⟨e, rfl, he⟩ := hb.eq_decimalString
  rw [hd, he, Option.some.injEq] at h
  exact decimalString_eq_iff.mpr h

end Value

/-! ## Written values -/

section Written

variable {p q : ℚ} {r : Text}

def IsDecimal (q : ℚ) : Prop := ∃ d : Decimal, d.value = q

/-- The canonical text of a decimal fraction. -/
noncomputable def written (q : ℚ) : Text :=
  open Classical in
  if h : IsDecimal q then decimalString h.choose.coefficient h.choose.scale else []

theorem decimalString_eq_written (c : Int) (k : Nat) :
    decimalString c k = written (Decimal.mk c k).value := by
  have h : IsDecimal (Decimal.mk c k).value := ⟨_, rfl⟩
  rw [written, dif_pos h, decimalString_eq_iff]
  exact h.choose_spec.symm

theorem number_written (h : IsDecimal q) : number (written q) = some q := by
  obtain ⟨d, rfl⟩ := h
  rw [← decimalString_eq_written, number_decimalString]

theorem written_inj (hp : IsDecimal p) (hq : IsDecimal q) : written p = written q ↔ p = q := by
  constructor
  · intro h
    have hnumber := congrArg number h
    rwa [number_written hp, number_written hq, Option.some.injEq] at hnumber
  · exact fun h => h ▸ rfl

theorem IsDecimal.zero : IsDecimal 0 := ⟨⟨0, 0⟩, by simp [Decimal.value]⟩

theorem written_zero : written 0 = ['0'] := by
  have h := decimalString_eq_written 0 0
  rw [show (Decimal.mk 0 0).value = 0 by simp [Decimal.value]] at h
  rw [← h]
  decide

theorem IsDecimal.add (hp : IsDecimal p) (hq : IsDecimal q) : IsDecimal (p + q) := by
  obtain ⟨x, rfl⟩ := hp
  obtain ⟨y, rfl⟩ := hq
  refine ⟨⟨x.coefficient * 10 ^ y.scale + y.coefficient * 10 ^ x.scale, x.scale + y.scale⟩, ?_⟩
  rw [Decimal.value_add]
  congr 1
  · rw [Decimal.value_eq_iff]
    ring
  · rw [Decimal.value_eq_iff]
    ring

theorem IsDecimal.neg (hq : IsDecimal q) : IsDecimal (-q) := by
  obtain ⟨d, rfl⟩ := hq
  exact ⟨⟨-d.coefficient, d.scale⟩, Decimal.value_neg _ _⟩

theorem IsDecimal.abs (hq : IsDecimal q) : IsDecimal |q| := by
  rcases abs_choice q with h | h <;> rw [h]
  · exact hq
  · exact hq.neg

theorem addDecimal_written (hp : IsDecimal p) (hq : IsDecimal q)
    (h : addDecimal (written p) (written q) = .ok r) : r = written (p + q) := by
  obtain ⟨x, y, hx, hy, c, k, rfl, hvalue⟩ := addDecimal_eq_ok h
  have hx' := (number_of_decimal hx).symm.trans (number_written hp)
  have hy' := (number_of_decimal hy).symm.trans (number_written hq)
  rw [decimalString_eq_written, hvalue, Option.some.inj hx', Option.some.inj hy']

/-- Without a minus in front. -/
def withoutSign : Text → Text
  | '-' :: s => s
  | s => s

theorem written_sign (h : IsDecimal q) :
    (q < 0 → written q = '-' :: written |q|) ∧ (0 ≤ q → (written q).head? ≠ some '-') := by
  obtain ⟨⟨c, k⟩, rfl⟩ := h
  have hpow : (0 : ℚ) < 10 ^ k := by positivity
  have hneg : (Decimal.mk c k).value < 0 ↔ c < 0 := by
    rw [Decimal.value, div_lt_iff₀ hpow, zero_mul, Int.cast_lt_zero]
  constructor
  · intro hq
    have hc := hneg.mp hq
    have habs : |(Decimal.mk c k).value| = (Decimal.mk c.natAbs k).value := by
      rw [abs_of_neg hq, ← Decimal.value_neg]
      congr 2
      omega
    rw [habs, ← decimalString_eq_written, ← decimalString_eq_written, decimalString_eq,
      decimalString_eq, if_pos hc, if_neg (by omega), Int.natAbs_natCast]
  · intro hq
    have hc : ¬ c < 0 := fun hc => absurd (hneg.mpr hc) (not_lt.mpr hq)
    obtain ⟨d, rest, hplain, hd⟩ := plain_head (reduced c.natAbs k).1 (reduced c.natAbs k).2
    rw [← decimalString_eq_written, decimalString_reduced, if_neg hc, hplain, List.head?_cons]
    intro hminus
    rw [Option.some.inj hminus] at hd
    cases hd

theorem head_written (h : IsDecimal q) : (written q).head? = some '-' ↔ q < 0 := by
  obtain ⟨hneg, hnonneg⟩ := written_sign h
  constructor
  · intro hhead
    by_contra hq
    exact hnonneg (not_lt.mp hq) hhead
  · intro hq
    rw [hneg hq, List.head?_cons]

theorem withoutSign_written (h : IsDecimal q) : withoutSign (written q) = written |q| := by
  obtain ⟨hneg, hnonneg⟩ := written_sign h
  by_cases hq : q < 0
  · rw [hneg hq]
    rfl
  · have hhead := hnonneg (not_lt.mp hq)
    rw [abs_of_nonneg (not_lt.mp hq)]
    unfold withoutSign
    split
    · rename_i heq
      rw [heq] at hhead
      exact absurd rfl hhead
    · rfl

/-! ### Limits -/

/-- A value of at most 36 places that is not too great. -/
def Fits (q : ℚ) : Prop := (∃ c : Int, q = (Decimal.mk c 36).value) ∧ |q| ≤ 10 ^ 20

theorem Fits.isDecimal (h : Fits q) : IsDecimal q := by
  obtain ⟨⟨c, rfl⟩, -⟩ := h
  exact ⟨_, rfl⟩

theorem length_plain_le {n k j : Nat} (hn : n < 10 ^ j) (hj : k < j) :
    (plain n k).length ≤ j + 1 := by
  have hdigits : (Nat.toDigits 10 n).length ≤ j :=
    (Nat.length_toDigits_le_iff (by decide) (by omega)).mpr hn
  unfold plain
  split
  · omega
  · have hlength := length_leftpad n k
    rw [dotted, List.length_append, List.length_cons, List.length_take, List.length_drop]
    rw [List.length_leftpad] at hlength ⊢
    omega

theorem decimal_written (h : Fits q) : ∃ d, decimal (written q) = .ok d ∧ d.value = q := by
  obtain ⟨⟨c, rfl⟩, hbound⟩ := h
  obtain ⟨hvalue, hscale, -⟩ := reduced_spec c.natAbs 36
  have hc : c.natAbs < 10 ^ 57 := by
    rw [Decimal.value, abs_div, abs_of_pos (by positivity : (0 : ℚ) < 10 ^ 36),
      div_le_iff₀ (by positivity), ← pow_add, ← Int.cast_abs] at hbound
    have hint : |c| ≤ 10 ^ 56 := by exact_mod_cast hbound
    rw [Int.abs_eq_natAbs] at hint
    omega
  have hle : (reduced c.natAbs 36).1 ≤ c.natAbs := by
    have hpow : 10 ^ (reduced c.natAbs 36).2 ≤ 10 ^ 36 := Nat.pow_le_pow_right (by decide) hscale
    apply Nat.le_of_mul_le_mul_right _ (Nat.pow_pos (by decide) : 0 < 10 ^ 36)
    rw [hvalue]
    exact Nat.mul_le_mul_left _ hpow
  have hplain : (plain (reduced c.natAbs 36).1 (reduced c.natAbs 36).2).length ≤ 58 :=
    length_plain_le (Nat.lt_of_le_of_lt hle hc) (by omega)
  have hlength : (decimalString c 36).length ≤ 256 := by
    rw [decimalString_reduced]
    split
    · rw [List.length_cons]
      omega
    · omega
  rw [← decimalString_eq_written]
  refine ⟨⟨(if c < 0 then -1 else 1) * (reduced c.natAbs 36).1, (reduced c.natAbs 36).2⟩, ?_, ?_⟩
  · rw [decimal, parsed_decimalString]
    exact if_neg (not_or.mpr ⟨Nat.not_lt.mpr hlength, Nat.not_lt.mpr hscale⟩)
  · have hnumber := number_decimalString c 36
    rw [number, parsed_decimalString, Option.map_some, Option.some.injEq] at hnumber
    exact hnumber

theorem addDecimal_fits (hp : Fits p) (hq : Fits q) :
    addDecimal (written p) (written q) = .ok (written (p + q)) := by
  obtain ⟨x, hx, -⟩ := decimal_written hp
  obtain ⟨y, hy, -⟩ := decimal_written hq
  have hok : ∃ r, addDecimal (written p) (written q) = .ok r := by
    unfold addDecimal
    rw [hx, hy]
    exact ⟨_, rfl⟩
  obtain ⟨r, hr⟩ := hok
  rw [hr, addDecimal_written hp.isDecimal hq.isDecimal hr]

end Written

end Openlia.Finance
