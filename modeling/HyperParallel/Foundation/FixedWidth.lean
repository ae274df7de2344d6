import Mathlib.Data.Nat.Digits.Lemmas
import Mathlib.Data.Int.Order.Lemmas

/-!
# Fixed-width records

A file of fixed-width records is the concatenation of their encodings, so any
run of records is found at a multiple of the width.  The records here are
little-endian words; a signed word is read back as the balanced remainder of
what was written.
-/

namespace HyperParallel.Foundation.FixedWidth

open List

variable {α β : Type*}

/-- The first `count` records of a byte string, each `width` long. -/
def records (width : Nat) : Nat → List β → List (List β)
  | 0, _ => []
  | count + 1, bytes => bytes.take width :: records width count (bytes.drop width)

theorem records_take (width count : Nat) (bytes : List β) :
    records width count (bytes.take (width * count)) = records width count bytes := by
  induction count generalizing bytes with
  | zero => rfl
  | succ count ih =>
    have hle : width ≤ width * (count + 1) := Nat.le_mul_of_pos_right _ (Nat.succ_pos count)
    have hrest : width * (count + 1) - width = width * count := by
      rw [Nat.mul_succ, Nat.add_sub_cancel]
    rw [records, records, take_take, Nat.min_eq_left hle, drop_take, hrest, ih]

section Encoded

variable {encode : α → List β} {width : Nat} (hencode : ∀ x, (encode x).length = width)
include hencode

theorem length_flatMap (xs : List α) : (xs.flatMap encode).length = width * xs.length := by
  induction xs with
  | nil => rfl
  | cons x xs ih =>
    rw [flatMap_cons, length_append, hencode, ih, length_cons, Nat.mul_succ, Nat.add_comm]

theorem records_flatMap_append (xs : List α) (rest : List β) :
    records width xs.length (xs.flatMap encode ++ rest) = xs.map encode := by
  induction xs with
  | nil => rfl
  | cons x xs ih =>
    have hx := hencode x
    rw [length_cons, records, flatMap_cons, append_assoc, map_cons]
    rw [take_append_of_le_length (by omega), take_of_length_le (by omega)]
    rw [drop_append_of_le_length (by omega), drop_of_length_le (by omega)]
    rw [nil_append, ih]

theorem drop_flatMap (xs : List α) (k : Nat) :
    (xs.flatMap encode).drop (width * k) = (xs.drop k).flatMap encode := by
  induction k generalizing xs with
  | zero => simp
  | succ k ih =>
    cases xs with
    | nil => simp
    | cons x xs =>
      have hx := hencode x
      have hhead : (encode x ++ xs.flatMap encode).drop width = xs.flatMap encode := by
        rw [drop_append_of_le_length (by omega), drop_of_length_le (by omega), nil_append]
      rw [drop_succ_cons, ← ih xs, flatMap_cons, Nat.mul_succ, Nat.add_comm, ← drop_drop, hhead]

theorem records_drop_flatMap {xs : List α} {k count : Nat} (h : k + count ≤ xs.length) :
    records width count ((xs.flatMap encode).drop (width * k)) =
      ((xs.drop k).take count).map encode := by
  have hcount : ((xs.drop k).take count).length = count := by
    rw [length_take, length_drop]
    omega
  have hrun := records_flatMap_append hencode ((xs.drop k).take count)
    (((xs.drop k).drop count).flatMap encode)
  rw [hcount, ← flatMap_append, take_append_drop] at hrun
  rw [drop_flatMap hencode, hrun]

end Encoded

/-! ## Little-endian words -/

/-- The `width` low bytes of a number, least significant first. -/
def littleEndian : Nat → Nat → List UInt8
  | 0, _ => []
  | width + 1, x => UInt8.ofNat (x % 256) :: littleEndian width (x / 256)

def ofLittleEndian (bytes : List UInt8) : Nat :=
  Nat.ofDigits 256 (bytes.map UInt8.toNat)

@[simp] theorem length_littleEndian (width x : Nat) : (littleEndian width x).length = width := by
  induction width generalizing x with
  | zero => rfl
  | succ width ih => rw [littleEndian, length_cons, ih]

theorem ofLittleEndian_littleEndian (width x : Nat) :
    ofLittleEndian (littleEndian width x) = x % 256 ^ width := by
  induction width generalizing x with
  | zero => simp [littleEndian, ofLittleEndian, Nat.mod_one]
  | succ width ih =>
    have hbyte : (UInt8.ofNat (x % 256)).toNat = x % 256 := by
      rw [UInt8.toNat_ofNat']
      exact Nat.mod_eq_of_lt (Nat.mod_lt x (by decide))
    have hrest : Nat.ofDigits 256 ((littleEndian width (x / 256)).map UInt8.toNat) =
        x / 256 % 256 ^ width := ih (x / 256)
    rw [littleEndian, ofLittleEndian, map_cons, Nat.ofDigits_cons, hrest, hbyte,
      Nat.pow_succ', Nat.mod_mul]

theorem ofLittleEndian_of_lt {width x : Nat} (h : x < 256 ^ width) :
    ofLittleEndian (littleEndian width x) = x := by
  rw [ofLittleEndian_littleEndian, Nat.mod_eq_of_lt h]

def signedLittleEndian (width : Nat) (v : Int) : List UInt8 :=
  littleEndian width (v % (256 ^ width : Nat)).toNat

def ofSignedLittleEndian (width : Nat) (bytes : List UInt8) : Int :=
  Int.bmod (ofLittleEndian bytes) (256 ^ width)

@[simp] theorem length_signedLittleEndian (width : Nat) (v : Int) :
    (signedLittleEndian width v).length = width :=
  length_littleEndian width _

theorem ofSignedLittleEndian_signedLittleEndian (width : Nat) (v : Int) :
    ofSignedLittleEndian width (signedLittleEndian width v) = Int.bmod v (256 ^ width) := by
  have hpos : (0 : Int) < (256 ^ width : Nat) := by positivity
  have hnonneg : 0 ≤ v % (256 ^ width : Nat) := Int.emod_nonneg v (by omega)
  have hlt : v % (256 ^ width : Nat) < (256 ^ width : Nat) := Int.emod_lt_of_pos v hpos
  rw [ofSignedLittleEndian, signedLittleEndian, ofLittleEndian_of_lt (by omega),
    Int.toNat_of_nonneg hnonneg]
  exact Int.emod_bmod v (256 ^ width)

theorem bmod_of_bounds {m : Nat} {v : Int} (hlow : 0 ≤ v) (hhigh : 2 * v < m) :
    Int.bmod v m = v := by
  rw [Int.bmod_eq_of_le (by omega) (by omega)]

end HyperParallel.Foundation.FixedWidth
