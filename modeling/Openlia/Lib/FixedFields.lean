import Mathlib.Algebra.Group.Nat.Defs
import Mathlib.Algebra.GroupWithZero.Nat
import Mathlib.Tactic.Common

/-! # Fields of fixed width

A number stands in a fixed number of bytes, the lowest first; one that is too large is cut.
-/

namespace Openlia.Lib

def littleEndian : Nat → Nat → List UInt8
  | 0, _ => []
  | width + 1, n => UInt8.ofNat (n % 256) :: littleEndian width (n / 256)

def ofLittleEndian : List UInt8 → Nat
  | [] => 0
  | b :: bs => b.toNat + 256 * ofLittleEndian bs

@[simp] theorem length_littleEndian (width n : Nat) : (littleEndian width n).length = width := by
  induction width generalizing n with
  | zero => rfl
  | succ width ih => rw [littleEndian, List.length_cons, ih]

theorem ofLittleEndian_littleEndian (width n : Nat) :
    ofLittleEndian (littleEndian width n) = n % 256 ^ width := by
  induction width generalizing n with
  | zero => rw [littleEndian, ofLittleEndian, Nat.pow_zero, Nat.mod_one]
  | succ width ih =>
      have hbyte : (UInt8.ofNat (n % 256)).toNat = n % 256 :=
        UInt8.toNat_ofNat_of_lt' (Nat.mod_lt n (by decide))
      rw [littleEndian, ofLittleEndian, ih, hbyte, Nat.pow_succ', Nat.mod_mul]

theorem ofLittleEndian_lt (bytes : List UInt8) : ofLittleEndian bytes < 256 ^ bytes.length := by
  induction bytes with
  | nil => exact Nat.one_pos
  | cons b bs ih =>
      have hbyte : b.toNat < 256 := b.toNat_lt
      rw [ofLittleEndian, List.length_cons, Nat.pow_succ']
      omega

/-- Numbers with their widths, one after the other. -/
def writeFields (fields : List (Nat × Nat)) : List UInt8 :=
  fields.flatMap fun f => littleEndian f.1 f.2

/-- The numbers of some widths at the start, and what follows them. -/
def readFields : List Nat → List UInt8 → Option (List Nat × List UInt8)
  | [], bytes => some ([], bytes)
  | width :: widths, bytes =>
      if width ≤ bytes.length then
        (readFields widths (bytes.drop width)).map fun r =>
          (ofLittleEndian (bytes.take width) :: r.1, r.2)
      else none

theorem length_writeFields (fields : List (Nat × Nat)) :
    (writeFields fields).length = (fields.map (·.1)).sum := by
  unfold writeFields
  rw [List.length_flatMap]
  simp only [length_littleEndian]

/-- A number is read back as far as it fits its field. -/
theorem readFields_writeFields (fields : List (Nat × Nat)) (rest : List UInt8) :
    readFields (fields.map (·.1)) (writeFields fields ++ rest) =
      some (fields.map fun f => f.2 % 256 ^ f.1, rest) := by
  induction fields with
  | nil => rfl
  | cons f fields ih =>
      have hwrite : writeFields (f :: fields) ++ rest =
          littleEndian f.1 f.2 ++ (writeFields fields ++ rest) := by
        rw [writeFields, List.flatMap_cons, List.append_assoc]
        rfl
      have hlength : f.1 = (littleEndian f.1 f.2).length := (length_littleEndian f.1 f.2).symm
      have htake : (littleEndian f.1 f.2 ++ (writeFields fields ++ rest)).take f.1 =
          littleEndian f.1 f.2 := List.take_left' hlength.symm
      have hdrop : (littleEndian f.1 f.2 ++ (writeFields fields ++ rest)).drop f.1 =
          writeFields fields ++ rest := List.drop_left' hlength.symm
      rw [hwrite, List.map_cons, readFields, if_pos (by rw [List.length_append]; omega), htake, hdrop,
        ih, ofLittleEndian_littleEndian]
      rfl

/-- A field that is read fits its width. -/
theorem readFields_lt {widths : List Nat} {bytes rest : List UInt8} {values : List Nat}
    (h : readFields widths bytes = some (values, rest)) :
    List.Forall₂ (fun value width => value < 256 ^ width) values widths := by
  induction widths generalizing bytes values with
  | nil =>
      cases h
      exact List.Forall₂.nil
  | cons width widths ih =>
      rw [readFields] at h
      split at h
      · rename_i hwidth
        obtain ⟨⟨tail, rest'⟩, htail, h⟩ := Option.map_eq_some_iff.mp h
        cases h
        refine List.Forall₂.cons ?_ (ih htail)
        have hlt := ofLittleEndian_lt (bytes.take width)
        rwa [List.length_take, Nat.min_eq_left hwidth] at hlt
      · cases h

end Openlia.Lib
