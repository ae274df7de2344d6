import Mathlib.Algebra.Group.Basic
import Mathlib.Tactic.Common

/-!
# Reductions along the axes of a grid

The ranks of a grid are named by their coordinate on every axis.  A reduction
along one axis folds, for every rank, the values of the ranks that differ from
it on this axis only; a reduction over a list of axes runs along one after the
other.
-/

namespace HyperParallel.Foundation.AxisReduce

variable {α β : Type*}

/-- The values of the ranks `0, …, n`, folded in this order. -/
def foldRanks (combine : α → α → α) (values : Nat → α) : Nat → α
  | 0 => values 0
  | n + 1 => combine (foldRanks combine values n) (values (n + 1))

variable {combine : α → α → α}

theorem foldRanks_hom {combine' : β → β → β} (φ : α → β)
    (h : ∀ a b, φ (combine a b) = combine' (φ a) (φ b)) (values : Nat → α) (n : Nat) :
    φ (foldRanks combine values n) = foldRanks combine' (fun k => φ (values k)) n := by
  induction n with
  | zero => rfl
  | succ n ih => rw [foldRanks, foldRanks, h, ih]

theorem foldRanks_zip (mul : α → α → α)
    (h : ∀ a b c d, combine (mul a b) (mul c d) = mul (combine a c) (combine b d))
    (left right : Nat → α) (n : Nat) :
    foldRanks combine (fun k => mul (left k) (right k)) n =
      mul (foldRanks combine left n) (foldRanks combine right n) := by
  induction n with
  | zero => rfl
  | succ n ih => rw [foldRanks, ih, h, foldRanks, foldRanks]

theorem foldRanks_const {a : α} (h : combine a a = a) (n : Nat) :
    foldRanks combine (fun _ => a) n = a := by
  induction n with
  | zero => rfl
  | succ n ih => rw [foldRanks, ih, h]

theorem foldRanks_two {values : Nat → α} (h : ∀ k, 2 ≤ k →
      combine (combine (values 0) (values 1)) (values k) = combine (values 0) (values 1))
    (n : Nat) : foldRanks combine values (n + 1) = combine (values 0) (values 1) := by
  induction n with
  | zero => rfl
  | succ n ih => rw [foldRanks, ih, h _ (by omega)]

theorem foldRanks_invariant {values : Nat → α} {P : α → Prop} (hvalues : ∀ k, P (values k))
    (hcombine : ∀ a b, P a → P b → P (combine a b)) (n : Nat) :
    P (foldRanks combine values n) := by
  induction n with
  | zero => exact hvalues 0
  | succ n ih => exact hcombine _ _ ih (hvalues _)

/-! ## Axes -/

/-- The place of a rank on every axis. -/
abbrev Coordinate := Nat → Nat

def ReplicatedAlong (axis : Nat) (values : Coordinate → α) : Prop :=
  ∀ ρ k, values (Function.update ρ axis k) = values ρ

def reduceAlong (reduce : (Nat → α) → α) (axis : Nat) (values : Coordinate → α) :
    Coordinate → α :=
  fun ρ => reduce fun k => values (Function.update ρ axis k)

def reduceOver (reduce : Nat → Option ((Nat → α) → α)) :
    List Nat → (Coordinate → α) → Coordinate → α
  | [], values => values
  | axis :: axes, values =>
    reduceOver reduce axes
      (match reduce axis with
        | some reduce => reduceAlong reduce axis values
        | none => values)

theorem reduceOver_append (reduce : Nat → Option ((Nat → α) → α)) (axes axes' : List Nat)
    (values : Coordinate → α) :
    reduceOver reduce (axes ++ axes') values =
      reduceOver reduce axes' (reduceOver reduce axes values) := by
  induction axes generalizing values with
  | nil => rfl
  | cons axis axes ih => simp only [List.cons_append, reduceOver, ih]

theorem ReplicatedAlong.reduceAlong {axis : Nat} {values : Coordinate → α}
    (h : ReplicatedAlong axis values) (reduce : (Nat → α) → α) (axis' : Nat) :
    ReplicatedAlong axis (reduceAlong reduce axis' values) := by
  intro ρ k
  simp only [AxisReduce.reduceAlong]
  congr 1
  funext j
  by_cases haxis : axis' = axis
  · subst haxis
    rw [Function.update_idem]
  · rw [Function.update_comm (Ne.symm haxis), h]

theorem ReplicatedAlong.map {axis : Nat} {values : Coordinate → α}
    (h : ReplicatedAlong axis values) (φ : α → β) :
    ReplicatedAlong axis fun ρ => φ (values ρ) :=
  fun ρ k => congrArg φ (h ρ k)

def onAxis (axis : Nat) (values : Nat → α) : Coordinate → α := fun ρ => values (ρ axis)

theorem onAxis_replicatedAlong {axis axis' : Nat} (h : axis' ≠ axis) (values : Nat → α) :
    ReplicatedAlong axis' (onAxis axis values) := by
  intro ρ k
  simp [onAxis, Function.update_of_ne h.symm]

theorem const_replicatedAlong (axis : Nat) (value : α) :
    ReplicatedAlong axis fun _ : Coordinate => value :=
  fun _ _ => rfl

theorem reduceAlong_onAxis_of_ne {axis axis' : Nat} (h : axis' ≠ axis)
    (reduce : (Nat → α) → α) (values : Nat → α) :
    reduceAlong reduce axis' (onAxis axis values) =
      onAxis axis fun k => reduce fun _ => values k := by
  funext ρ
  simp [reduceAlong, onAxis, Function.update_of_ne h.symm]

theorem reduceAlong_onAxis (axis : Nat) (reduce : (Nat → α) → α) (values : Nat → α) :
    reduceAlong reduce axis (onAxis axis values) = fun _ => reduce values := by
  funext ρ
  simp [reduceAlong, onAxis]

end HyperParallel.Foundation.AxisReduce
