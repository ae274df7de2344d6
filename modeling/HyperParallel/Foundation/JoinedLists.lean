import Mathlib.Algebra.BigOperators.Group.List.Basic
import Mathlib.Algebra.Ring.Nat

/-!
# Ranges of joined lists

A place in a list of lists is the index of a part and an offset in it; in the
joined list it is the offset after the parts before.  A range between two places
is the end of one part, the parts between, and the beginning of another.
-/

namespace HyperParallel.Foundation.JoinedLists

open List

variable {α : Type*}

def start (parts : List (List α)) (i : Nat) : Nat := ((parts.map List.length).take i).sum

@[simp] theorem start_zero (parts : List (List α)) : start parts 0 = 0 := by simp [start]

theorem drop_start (parts : List (List α)) (i : Nat) :
    parts.flatten.drop (start parts i) = (parts.drop i).flatten :=
  List.drop_sum_flatten parts i

theorem start_eq_length_take (parts : List (List α)) (i : Nat) :
    start parts i = (parts.take i).flatten.length := by
  rw [start, length_flatten, map_take]

variable {parts : List (List α)}

theorem start_succ {i : Nat} {part : List α} (h : parts[i]? = some part) :
    start parts (i + 1) = start parts i + part.length := by
  rw [start_eq_length_take, start_eq_length_take, take_add_one, h]
  simp

theorem start_add (i k : Nat) : start parts (i + k) = start parts i + start (parts.drop i) k := by
  rw [start_eq_length_take, start_eq_length_take, start_eq_length_take, take_add,
    flatten_append, length_append]

theorem range_within {i : Nat} {part : List α} (h : parts[i]? = some part) {offset length : Nat}
    (hle : offset + length ≤ part.length) :
    (part.drop offset).take length = (parts.flatten.drop (start parts i + offset)).take length := by
  obtain ⟨hi, rfl⟩ := List.getElem?_eq_some_iff.mp h
  rw [← drop_drop, drop_start, drop_eq_getElem_cons hi, flatten_cons,
    drop_append_of_le_length (by omega), take_append_of_le_length (by rw [length_drop]; omega)]

theorem range_across {i k : Nat} {first last : List α} (hfirst : parts[i]? = some first)
    (hlast : parts[i + 1 + k]? = some last) {offset stop : Nat} (hoffset : offset ≤ first.length)
    (hstop : stop ≤ last.length) :
    first.drop offset ++ (((parts.drop (i + 1)).take k).flatten ++ last.take stop) =
      (parts.flatten.drop (start parts i + offset)).take
        (start parts (i + 1 + k) + stop - (start parts i + offset)) := by
  have hlength : start parts (i + 1 + k) + stop - (start parts i + offset) =
      (first.drop offset).length + (((parts.drop (i + 1)).take k).flatten.length + stop) := by
    rw [start_add, start_succ hfirst, start_eq_length_take (parts.drop (i + 1)), length_drop]
    omega
  obtain ⟨hi, rfl⟩ := List.getElem?_eq_some_iff.mp hfirst
  have hrest : (parts.drop (i + 1)).flatten =
      ((parts.drop (i + 1)).take k).flatten ++ (last ++ (parts.drop (i + 1 + k + 1)).flatten) := by
    obtain ⟨hj, rfl⟩ := List.getElem?_eq_some_iff.mp hlast
    conv_lhs => rw [← take_append_drop k (parts.drop (i + 1))]
    rw [flatten_append, drop_drop, drop_eq_getElem_cons hj, flatten_cons]
  have hdrop : parts.flatten.drop (start parts i + offset) =
      parts[i].drop offset ++ (parts.drop (i + 1)).flatten := by
    rw [← drop_drop, drop_start, drop_eq_getElem_cons hi, flatten_cons,
      drop_append_of_le_length hoffset]
  rw [hlength, hdrop, hrest, take_length_add_append, take_length_add_append,
    take_append_of_le_length hstop]

end HyperParallel.Foundation.JoinedLists
