import Mathlib.Data.Nat.Log
import Mathlib.Tactic.Common
import Mathlib.Algebra.Ring.Nat

/-!
# Integers through a binary float

Converting an integer to a float of some precision rounds it to the nearest number
with that many significant bits, ties to the even one.  Integers that fit are kept.
-/

namespace HyperParallel.Foundation.FloatRound

def roundToEven (bits x : Nat) : Nat :=
  let scale := 2 ^ (x.log2 + 1 - bits)
  if scale < 2 * (x % scale) ∨ (scale = 2 * (x % scale) ∧ x / scale % 2 = 1) then
    (x / scale + 1) * scale
  else x / scale * scale

@[simp] theorem roundToEven_zero (bits : Nat) : roundToEven bits 0 = 0 := by simp [roundToEven]

theorem roundToEven_of_lt {bits x : Nat} (h : x < 2 ^ bits) : roundToEven bits x = x := by
  rcases Nat.eq_zero_or_pos x with rfl | hpos
  · exact roundToEven_zero bits
  · have hlog : x.log2 + 1 - bits = 0 := by
      have hlt := (Nat.log2_lt (by omega)).mpr h
      omega
    simp [roundToEven, hlog, Nat.mod_one]

theorem roundToEven_le {bits : Nat} (hbits : 5 ≤ bits) (x : Nat) :
    16 * roundToEven bits x ≤ 17 * x := by
  rcases Nat.lt_or_ge x (2 ^ bits) with hlt | hge
  · rw [roundToEven_of_lt hlt]
    omega
  · have hpos : 0 < x := Nat.lt_of_lt_of_le (Nat.two_pow_pos bits) hge
    have hlog : bits ≤ x.log2 := (Nat.le_log2 hpos.ne').mpr hge
    obtain ⟨scale, hscale⟩ : ∃ scale, 2 ^ (x.log2 + 1 - bits) = scale := ⟨_, rfl⟩
    have hsmall : 16 * scale ≤ x := by
      have hpow : 16 * scale ≤ 2 ^ x.log2 := by
        rw [← hscale, show 16 = 2 ^ 4 from rfl, ← Nat.pow_add]
        exact Nat.pow_le_pow_right (by decide) (by omega)
      exact hpow.trans (Nat.log2_self_le hpos.ne')
    have hfloor : x / scale * scale ≤ x := Nat.div_mul_le_self x scale
    have hrounded : roundToEven bits x ≤ x / scale * scale + scale := by
      rw [roundToEven, hscale]
      split
      · rw [Nat.succ_mul]
      · exact Nat.le_add_right _ _
    omega

example : roundToEven 24 (2 ^ 24 + 1) = 2 ^ 24 := by decide +kernel

end HyperParallel.Foundation.FloatRound
