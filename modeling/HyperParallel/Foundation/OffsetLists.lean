import Mathlib.Data.List.Basic
import Mathlib.Tactic.Ring

/-!
# Ordered lists of offsets

The offsets of a strided axis are the multiples of its stride.  Two lists of
offsets add up to the list of all sums, the second summand running faster.
-/

namespace HyperParallel.Foundation.OffsetLists

open List

def steps (count : Nat) (step : Int) : List Int := (List.range count).map fun i : Nat => (i : Int) * step

def sums (xs ys : List Int) : List Int := xs.flatMap fun x => ys.map fun y => x + y

@[simp] theorem length_steps (count : Nat) (step : Int) : (steps count step).length = count := by
  simp [steps]

@[simp] theorem steps_one (step : Int) : steps 1 step = [0] := by simp [steps]

@[simp] theorem sums_nil_left (ys : List Int) : sums [] ys = [] := rfl

theorem sums_cons (x : Int) (xs ys : List Int) :
    sums (x :: xs) ys = (ys.map fun y => x + y) ++ sums xs ys := rfl

theorem sums_append (xs xs' ys : List Int) : sums (xs ++ xs') ys = sums xs ys ++ sums xs' ys := by
  simp [sums]

@[simp] theorem sums_zero_left (ys : List Int) : sums [0] ys = ys := by simp [sums]

@[simp] theorem sums_zero_right (xs : List Int) : sums xs [0] = xs := by
  induction xs with
  | nil => rfl
  | cons x xs ih => rw [sums_cons, ih]; simp

theorem length_sums (xs ys : List Int) : (sums xs ys).length = xs.length * ys.length := by
  induction xs with
  | nil => simp
  | cons x xs ih =>
    rw [sums_cons, length_append, ih, length_map, length_cons]
    ring

theorem map_add_sums (c : Int) (xs ys : List Int) :
    (sums xs ys).map (fun s => c + s) = sums (xs.map fun x => c + x) ys := by
  induction xs with
  | nil => rfl
  | cons x xs ih =>
    rw [sums_cons, map_append, ih, map_cons, sums_cons, map_map]
    congr 1
    refine map_congr_left fun y _ => ?_
    simp only [Function.comp_apply]
    ring

theorem sums_assoc (xs ys zs : List Int) : sums (sums xs ys) zs = sums xs (sums ys zs) := by
  induction xs with
  | nil => rfl
  | cons x xs ih => rw [sums_cons, sums_append, ih, sums_cons, map_add_sums]

theorem map_mul_sums (c : Int) (xs ys : List Int) :
    (sums xs ys).map (fun s => c * s) = sums (xs.map fun x => c * x) (ys.map fun y => c * y) := by
  induction xs with
  | nil => rfl
  | cons x xs ih =>
    rw [sums_cons, map_append, ih, map_cons, sums_cons, map_map, map_map]
    congr 1
    refine map_congr_left fun y _ => ?_
    simp only [Function.comp_apply]
    ring

theorem map_mul_steps (c : Int) (count : Nat) (step : Int) :
    (steps count step).map (fun s => c * s) = steps count (c * step) := by
  rw [steps, steps, map_map]
  refine map_congr_left fun i _ => ?_
  simp only [Function.comp_apply]
  ring

theorem sums_steps (m n : Nat) (step : Int) :
    sums (steps m (step * n)) (steps n step) = steps (m * n) step := by
  induction m with
  | zero => simp [steps]
  | succ m ih =>
    have hlast : steps (m + 1) (step * n) = steps m (step * n) ++ [(m : Int) * (step * n)] := by
      rw [steps, range_succ, map_append]
      rfl
    have hmore : steps ((m + 1) * n) step =
        steps (m * n) step ++ (steps n step).map fun s => (m : Int) * (step * n) + s := by
      rw [Nat.succ_mul, steps, range_add, map_append, steps, steps, map_map, map_map]
      congr 1
      refine map_congr_left fun i _ => ?_
      simp only [Function.comp_apply]
      push_cast
      ring
    rw [hlast, sums_append, ih, hmore, sums_cons, sums_nil_left, append_nil]

def sumsOf (lists : List (List Int)) : List Int := lists.foldl sums [0]

theorem foldl_sums (start : List Int) (lists : List (List Int)) :
    lists.foldl sums start = sums start (sumsOf lists) := by
  induction lists generalizing start with
  | nil => simp [sumsOf]
  | cons first rest ih =>
    have hrest : sumsOf (first :: rest) = sums first (sumsOf rest) := by
      rw [sumsOf, foldl_cons, sums_zero_left, ih]
    rw [foldl_cons, ih, hrest, sums_assoc]

@[simp] theorem sumsOf_nil : sumsOf [] = [0] := rfl

theorem sumsOf_cons (first : List Int) (rest : List (List Int)) :
    sumsOf (first :: rest) = sums first (sumsOf rest) := by
  rw [sumsOf, foldl_cons, foldl_sums, sums_zero_left]

theorem sumsOf_append (front back : List (List Int)) :
    sumsOf (front ++ back) = sums (sumsOf front) (sumsOf back) := by
  rw [sumsOf, foldl_append, foldl_sums, ← sumsOf]

@[simp] theorem sumsOf_singleton (xs : List Int) : sumsOf [xs] = xs := by
  rw [sumsOf_cons, sumsOf_nil, sums_zero_right]

theorem map_mul_sumsOf (c : Int) (lists : List (List Int)) :
    (sumsOf lists).map (fun s => c * s) = sumsOf (lists.map fun xs => xs.map fun x => c * x) := by
  induction lists with
  | nil => simp
  | cons first rest ih => rw [sumsOf_cons, map_mul_sums, ih, map_cons, sumsOf_cons]

theorem length_sumsOf (lists : List (List Int)) :
    (sumsOf lists).length = (lists.map List.length).prod := by
  induction lists with
  | nil => rfl
  | cons first rest ih => rw [sumsOf_cons, length_sums, ih, map_cons, prod_cons]

end HyperParallel.Foundation.OffsetLists
