import Mathlib.Algebra.BigOperators.Fin
import Mathlib.Tactic.Ring

/-!
# Dealing a range out

A range of positions is dealt to several hands, either in consecutive blocks or
one position at a time.  Both ways every position is dealt exactly once.
-/

namespace HyperParallel.Foundation.Dealing

open List

variable {α β γ : Type*}

/-- `xs[first::step]` -/
def strided (first step : Nat) (xs : List α) : List α :=
  (List.range ((xs.length + step - 1 - first) / step)).filterMap fun k => xs[first + k * step]?

/-- Full groups of `size`, in order; what is left over is dropped. -/
def groups (size : Nat) : List α → List α → List (List α)
  | _, [] => []
  | pending, x :: xs =>
    if (pending ++ [x]).length = size then (pending ++ [x]) :: groups size [] xs
    else groups size (pending ++ [x]) xs

theorem flatMap_range_shift (count width : Nat) (f : Nat → α) :
    ((range count).flatMap fun k => (range width).map fun index => f (k * width + index)) =
      (range (count * width)).map f := by
  induction count with
  | zero => simp
  | succ count ih =>
    rw [range_succ, flatMap_append, ih, Nat.succ_mul, range_add, map_append]
    simp [map_map]

theorem flatMap_swap_perm (xs : List α) (ys : List β) (f : α → β → List γ) :
    (xs.flatMap fun x => ys.flatMap (f x)).Perm (ys.flatMap fun y => xs.flatMap fun x => f x y) := by
  induction xs with
  | nil => simp
  | cons x xs ih =>
    simp only [flatMap_cons]
    exact (ih.append_left _).trans (flatMap_append_perm ys (f x) _)

/-- One position at a time: hand `r` of `hands` gets the positions `r`, `r + hands`, … -/
theorem deal_perm (hands each : Nat) (f : Nat → α) :
    ((range hands).flatMap fun r => (range each).map fun i => f (i * hands + r)).Perm
      ((range (each * hands)).map f) := by
  rw [← flatMap_range_shift each hands f]
  have hswap := flatMap_swap_perm (range hands) (range each)
    fun r i => [f (i * hands + r)]
  simpa only [← map_eq_flatMap] using hswap

theorem strided_eq {first step count : Nat} {xs : List α} {f : Nat → α} (hstep : 0 < step)
    (hfirst : first < step) (hlength : xs.length = count * step)
    (hget : ∀ index < xs.length, xs[index]? = some (f index)) :
    strided first step xs = (range count).map fun k => f (first + k * step) := by
  have hcount : (xs.length + step - 1 - first) / step = count := by
    rw [hlength, show count * step + step - 1 - first = step * count + (step - 1 - first) by
      rw [Nat.mul_comm]; omega, Nat.mul_add_div hstep, Nat.div_eq_of_lt (by omega), Nat.add_zero]
  rw [strided, hcount, ← filterMap_eq_map]
  refine filterMap_congr fun k hk => ?_
  have hk := mem_range.mp hk
  refine hget _ ?_
  have := Nat.mul_le_mul_right step (show k + 1 ≤ count from hk)
  rw [Nat.succ_mul] at this
  omega

theorem strided_nil {first step : Nat} : strided first step ([] : List α) = [] := by simp [strided]

theorem strided_cons_zero (step : Nat) (x : α) (xs : List α) :
    strided 0 (step + 1) (x :: xs) = x :: strided step (step + 1) xs := by
  have hcount : ((x :: xs).length + (step + 1) - 1 - 0) / (step + 1)
      = (xs.length + (step + 1) - 1 - step) / (step + 1) + 1 := by
    rw [← Nat.add_div_right _ (Nat.succ_pos step)]
    congr 1
    simp only [length_cons]
    omega
  rw [strided, hcount, range_succ_eq_map, filterMap_cons]
  simp only [Nat.zero_mul, Nat.add_zero, getElem?_cons_zero, filterMap_map, strided]
  congr 2
  funext k
  simp only [Function.comp_apply]
  rw [show 0 + k.succ * (step + 1) = step + k * (step + 1) + 1 by rw [Nat.succ_mul]; omega,
    getElem?_cons_succ]

theorem strided_cons_succ {first step : Nat} (h : first < step) (x : α) (xs : List α) :
    strided (first + 1) (step + 1) (x :: xs) = strided first (step + 1) xs := by
  have hcount : (x :: xs).length + (step + 1) - 1 - (first + 1)
      = xs.length + (step + 1) - 1 - first := by
    simp only [length_cons]
    omega
  rw [strided, hcount, strided]
  congr 1
  funext k
  rw [show first + 1 + k * (step + 1) = first + k * (step + 1) + 1 by omega, getElem?_cons_succ]

theorem sum_countP_strided (P : α → Bool) (hands : Nat) (xs : List α) :
    ∑ hand : Fin (hands + 1), (strided hand.val (hands + 1) xs).countP P = xs.countP P := by
  induction xs with
  | nil => simp [strided_nil]
  | cons x xs ih =>
    rw [Fin.sum_univ_succ, Fin.val_zero, strided_cons_zero, countP_cons, countP_cons,
      ← ih, Fin.sum_univ_castSucc]
    have hshift : ∀ hand : Fin hands,
        (strided hand.succ.val (hands + 1) (x :: xs)).countP P
          = (strided hand.castSucc.val (hands + 1) xs).countP P := by
      intro hand
      rw [Fin.val_succ, strided_cons_succ hand.isLt, Fin.val_castSucc]
    rw [Finset.sum_congr rfl fun hand _ => hshift hand, Fin.val_last]
    omega

theorem mem_of_mem_strided {first step : Nat} {xs : List α} {x : α}
    (h : x ∈ strided first step xs) : x ∈ xs := by
  obtain ⟨k, -, hk⟩ := mem_filterMap.mp h
  exact mem_of_getElem? hk

theorem groups_append {size : Nat} {pending block rest : List α}
    (hlength : (pending ++ block).length = size) (hblock : block ≠ []) :
    groups size pending (block ++ rest) = (pending ++ block) :: groups size [] rest := by
  induction block generalizing pending with
  | nil => exact absurd rfl hblock
  | cons x block ih =>
    rw [cons_append, groups]
    cases block with
    | nil => rw [if_pos hlength]; rfl
    | cons y block =>
      rw [if_neg (by simp at hlength ⊢; omega), ih (by simpa using hlength) (by simp)]
      simp

theorem groups_map_range {size : Nat} (hsize : 0 < size) (count : Nat) (f : Nat → α) :
    groups size [] ((range (count * size)).map f) =
      (range count).map fun j => (range size).map fun i => f (j * size + i) := by
  induction count generalizing f with
  | zero => simp [groups]
  | succ count ih =>
    have hsplit : (range ((count + 1) * size)).map f =
        (range size).map f ++ (range (count * size)).map fun q => f (size + q) := by
      rw [Nat.succ_mul, Nat.add_comm, range_add, map_append, map_map]
      rfl
    rw [hsplit, groups_append (by simp) (by simp; omega), ih, range_succ_eq_map, map_cons, map_map]
    simp only [nil_append, Nat.zero_mul, Nat.zero_add]
    refine congrArg _ (map_congr_left fun j _ => map_congr_left fun i _ => ?_)
    simp only [Nat.succ_mul]
    exact congrArg f (by ring)

end HyperParallel.Foundation.Dealing
