import Mathlib.Data.List.Dedup
import Mathlib.Data.List.ReduceOption
import Openlia.Lib.Calendar
import Openlia.Lib.Numerals

/-! # Wall-clock times

A local date and minute is taken to the instant that is shown so in a time zone. The offsets are
read off five instants around it, and those that lead back to the local time are counted.
-/

namespace Openlia.Client.WallTime

open Lib Lib.Calendar

abbrev Text := List Char

/-! ## Time zones -/

/-- Milliseconds. -/
def minute : Int := 60000

def hour : Int := 3600000

/-- The offset at each instant: whole minutes, less than a day. -/
structure Zone where
  offset : Int → Int
  wholeMinutes : ∀ t, minute ∣ offset t
  lower : ∀ t, -(24 * hour) < offset t
  upper : ∀ t, offset t < 24 * hour

namespace Zone

/-- The minute that a clock shows. -/
def localMinute (zone : Zone) (t : Int) : Int := (t + zone.offset t) / minute

def localDate (zone : Zone) (t : Int) : CivilDate := civilDate (zone.localMinute t / 1440)

end Zone

/-! ## Rendering -/

def pad2 (n : Nat) : Text := [(n / 10 % 10).digitChar, (n % 10).digitChar]

def pad4 (n : Nat) : Text := pad2 (n / 100) ++ pad2 (n % 100)

/-- `year: "numeric"`, which pads nothing; the years before the first are counted back. -/
def numericYear (year : Int) : Text := Nat.toDigits 10 (if 0 < year then year else 1 - year).toNat

def dateInZone (zone : Zone) (t : Int) : Text :=
  let c := zone.localDate t
  numericYear c.year ++ '-' :: (pad2 c.month ++ '-' :: pad2 c.day)

def timeInZone (zone : Zone) (t : Int) : Text :=
  let m := (zone.localMinute t % 1440).toNat
  pad2 (m / 60) ++ ':' :: pad2 (m % 60)

def rendered (zone : Zone) (t : Int) : Text := dateInZone zone t ++ 'T' :: timeInZone zone t

/-! ## Reading -/

structure Fields where
  year : Nat
  month : Nat
  day : Nat
  hour : Nat
  minute : Nat
  deriving DecidableEq

/-- `/^\d{4}-\d{2}-\d{2}T\d{2}:\d{2}$/` -/
def fields : Text → Option Fields
  | [y₁, y₂, y₃, y₄, '-', m₁, m₂, '-', d₁, d₂, 'T', h₁, h₂, ':', n₁, n₂] =>
      if [y₁, y₂, y₃, y₄, m₁, m₂, d₁, d₂, h₁, h₂, n₁, n₂].all Char.isDigit then
        some ⟨1000 * digit y₁ + 100 * digit y₂ + 10 * digit y₃ + digit y₄,
          10 * digit m₁ + digit m₂, 10 * digit d₁ + digit d₂, 10 * digit h₁ + digit h₂,
          10 * digit n₁ + digit n₂⟩
      else none
  | _ => none

namespace Fields

def date (f : Fields) : CivilDate := ⟨f.year, f.month, f.day⟩

/-- The instant at which a clock in UTC shows this. -/
def utc (f : Fields) : Int :=
  (f.date.number * 1440 + f.hour * 60 + f.minute) * WallTime.minute

def text (f : Fields) : Text :=
  pad4 f.year ++ '-' :: (pad2 f.month ++ '-' :: (pad2 f.day ++ 'T' ::
    (pad2 f.hour ++ ':' :: pad2 f.minute)))

end Fields

/-- `Date.parse` of the text with `:00Z` behind it; none for `NaN`. -/
def dateParse (s : Text) : Option Int := do
  let f ← fields s
  if 1 ≤ f.month ∧ f.month ≤ 12 ∧ 1 ≤ f.day ∧ f.day ≤ 31 ∧
      (f.hour < 24 ∧ f.minute < 60 ∨ f.hour = 24 ∧ f.minute = 0) then
    some f.utc
  else none

/-- The first ten characters of `toISOString`, in the years of four digits. -/
def isoDate (t : Int) : Text :=
  let c := civilDate (t / (24 * hour))
  pad4 c.year.toNat ++ '-' :: (pad2 c.month ++ '-' :: pad2 c.day)

def validDate (date : Text) : Bool :=
  (dateParse (date ++ "T00:00".toList)).any fun t => isoDate t = date

/-! ## Resolving -/

inductive Thrown
  | invalid
  | occursTwice
  | doesNotExist
  | rangeError
  deriving DecidableEq

def sampleHours : List Int := [-36, -12, 0, 12, 36]

/-- The offset at a sample; none is `NaN`. -/
def sampleOffset (zone : Zone) (wall hours : Int) : Option Int :=
  let sample := wall + hours * hour
  (dateParse (rendered zone sample)).map (· - sample)

/-- The instants that the offsets lead to, those that show the local time. -/
def candidates (zone : Zone) (text : Text) (wall : Int) (offsets : List Int) : List Int :=
  (offsets.map (wall - ·)).filter fun t => rendered zone t = text

/-- To render the date of `NaN` throws. -/
def resolve (zone : Zone) (text : Text) (wall : Int) : Except Thrown Int :=
  let offsets := (sampleHours.map (sampleOffset zone wall)).dedup
  if none ∈ offsets then .error .rangeError
  else
    match candidates zone text wall offsets.reduceOption with
    | [] => .error .doesNotExist
    | [t] => .ok t
    | _ => .error .occursTwice

/-- `zones` knows the valid time zones. -/
def wallTimeToInstant (zones : Text → Option Zone) (text timezone : Text) : Except Thrown Int :=
  match zones timezone, fields text with
  | some zone, some f =>
      if validDate (text.take 10) = false ∨ 23 < f.hour ∨ 59 < f.minute then .error .invalid
      else
        match dateParse text with
        | none => .error .rangeError
        | some wall => resolve zone text wall
  | _, _ => .error .invalid

/-! ## What is read is what was written -/

theorem digit_digitChar {n : Nat} (h : n < 10) : digit n.digitChar = n :=
  Nat.toNat_digitChar_sub_48_of_lt_ten h

theorem digitChar_digit {c : Char} (h : c.isDigit = true) : (digit c).digitChar = c := by
  have hc := toNat_of_isDigit h
  rw [← Char.toNat_inj, Nat.toNat_digitChar_of_lt_ten (digit_lt h)]
  show 48 + (c.toNat - 48) = c.toNat
  omega

theorem isDigit_pad (n : Nat) : (n % 10).digitChar.isDigit = true := by
  rw [Nat.isDigit_digitChar]
  exact decide_eq_true (Nat.mod_lt n (by decide))

/-- Each part fits into its digits. -/
def Fields.Fits (f : Fields) : Prop :=
  f.year < 10000 ∧ f.month < 100 ∧ f.day < 100 ∧ f.hour < 100 ∧ f.minute < 100

theorem fields_text {f : Fields} (h : f.Fits) : fields f.text = some f := by
  obtain ⟨year, month, day, hour, minute⟩ := f
  simp only [Fields.Fits] at h
  simp only [Fields.text, pad4, pad2, List.cons_append, List.nil_append, fields, List.all_cons,
    List.all_nil, isDigit_pad, Bool.and_self, if_true, Option.some.injEq, Fields.mk.injEq]
  simp only [digit_digitChar (Nat.mod_lt _ (show 0 < 10 by decide))]
  omega

theorem pad2_digits {c d : Char} (hc : c.isDigit = true) (hd : d.isDigit = true) :
    pad2 (10 * digit c + digit d) = [c, d] := by
  have hclt := digit_lt hc
  have hdlt := digit_lt hd
  have htens : (10 * digit c + digit d) / 10 % 10 = digit c := by omega
  have hones : (10 * digit c + digit d) % 10 = digit d := by omega
  rw [pad2, htens, hones, digitChar_digit hc, digitChar_digit hd]

theorem pad4_digits {a b c d : Char} (ha : a.isDigit = true) (hb : b.isDigit = true)
    (hc : c.isDigit = true) (hd : d.isDigit = true) :
    pad4 (1000 * digit a + 100 * digit b + 10 * digit c + digit d) = [a, b, c, d] := by
  have hclt := digit_lt hc
  have hdlt := digit_lt hd
  have hhigh : (1000 * digit a + 100 * digit b + 10 * digit c + digit d) / 100 =
      10 * digit a + digit b := by omega
  have hlow : (1000 * digit a + 100 * digit b + 10 * digit c + digit d) % 100 =
      10 * digit c + digit d := by omega
  rw [pad4, hhigh, hlow, pad2_digits ha hb, pad2_digits hc hd]
  rfl

theorem text_of_fields {s : Text} {f : Fields} (h : fields s = some f) : f.text = s ∧ f.Fits := by
  unfold fields at h
  split at h
  · split at h
    · rename_i hdigits
      simp only [List.all_cons, List.all_nil, Bool.and_true, Bool.and_eq_true] at hdigits
      obtain ⟨y₁, y₂, y₃, y₄, m₁, m₂, d₁, d₂, h₁, h₂, n₁, n₂⟩ := hdigits
      cases h
      constructor
      · simp only [Fields.text, pad4_digits y₁ y₂ y₃ y₄, pad2_digits m₁ m₂, pad2_digits d₁ d₂,
          pad2_digits h₁ h₂, pad2_digits n₁ n₂, List.cons_append, List.nil_append]
      · have := digit_lt y₁
        have := digit_lt y₂
        have := digit_lt y₃
        have := digit_lt y₄
        have := digit_lt m₁
        have := digit_lt m₂
        have := digit_lt d₁
        have := digit_lt d₂
        have := digit_lt h₁
        have := digit_lt h₂
        have := digit_lt n₁
        have := digit_lt n₂
        simp only [Fields.Fits]
        omega
    · contradiction
  · contradiction

theorem fields_length {s : Text} {f : Fields} (h : fields s = some f) : s.length = 16 := by
  rw [← (text_of_fields h).1]
  rfl

end Openlia.Client.WallTime
