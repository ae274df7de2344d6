import HyperParallel.Foundation.PyRepr

/-!
# Numbers inside names

A name that is put together from numbers and fixed pieces tells the numbers
apart as long as every number is followed by something that is no digit.
-/

namespace HyperParallel.Foundation.DecimalText

def Stops (text : List Char) : Prop := ∀ c ∈ text.head?, c.isDigit = false

theorem stops_cons {c : Char} (h : c.isDigit = false) (text : List Char) : Stops (c :: text) := by
  intro d hd
  obtain rfl : d = c := by simpa using hd.symm
  exact h

theorem digits_cancel {left right rest rest' : List Char}
    (hleft : ∀ c ∈ left, c.isDigit = true) (hright : ∀ c ∈ right, c.isDigit = true)
    (hrest : Stops rest) (hrest' : Stops rest') (h : left ++ rest = right ++ rest') :
    left = right ∧ rest = rest' := by
  have htake : ∀ digits text : List Char, (∀ c ∈ digits, c.isDigit = true) → Stops text →
      (digits ++ text).takeWhile Char.isDigit = digits := by
    intro digits text hdigits htext
    rw [List.takeWhile_append_of_pos hdigits]
    cases text with
    | nil => simp
    | cons c text =>
      have hc := htext c (by simp)
      simp [hc]
  have heq : left = right := by
    rw [← htake left rest hleft hrest, h, htake right rest' hright hrest']
  exact ⟨heq, by rwa [heq, List.append_cancel_left_eq] at h⟩

def zeroPadded (width n : Nat) : List Char :=
  List.replicate (width - (Nat.toDigits 10 n).length) '0' ++ Nat.toDigits 10 n

theorem isDigit_zeroPadded {width n : Nat} {c : Char} (h : c ∈ zeroPadded width n) :
    c.isDigit = true := by
  rcases List.mem_append.mp h with hzero | hdigit
  · rw [(List.mem_replicate.mp hzero).2]
    rfl
  · exact PyRepr.isDigit_toDigits hdigit

theorem ofDigitChars_zeroPadded (width n : Nat) :
    Nat.ofDigitChars 10 (zeroPadded width n) 0 = n := by
  rw [zeroPadded, Nat.ofDigitChars_append, Nat.ofDigitChars_replicate_zero, Nat.mul_zero,
    Nat.ofDigitChars_ten_toDigits]

theorem zeroPadded_injective (width : Nat) : Function.Injective (zeroPadded width) := by
  intro m n h
  rw [← ofDigitChars_zeroPadded width m, h, ofDigitChars_zeroPadded]

end HyperParallel.Foundation.DecimalText
