import HyperParallel.Foundation.AxisReduce
import Mathlib.Algebra.Order.Field.Rat
import Mathlib.Tactic.FieldSimp
import Mathlib.Tactic.Ring

/-!
# Reducing partial results

What the ranks of one mesh axis compute together when a pending reduction is
carried out, in exact arithmetic.  `all` reads truth values: it is the product
followed by the conversion to a truth value.
-/

namespace HyperParallel.DTensor

open Foundation.AxisReduce

inductive ReduceOp where
  | sum | prod | max | min | all | avg
  deriving DecidableEq, Repr

def resolveReduceOp (op : String) : ReduceOp :=
  if op = "prod" then .prod
  else if op = "max" then .max
  else if op = "min" then .min
  else if op = "all" then .all
  else if op = "avg" ∨ op = "mean" then .avg
  else .sum

def truth (value : ℚ) : ℚ := if value = 0 then 0 else 1

def allReduceValues (combine : ℚ → ℚ → ℚ) (devNum : Nat) (values : Nat → ℚ) : ℚ :=
  foldRanks combine values (devNum - 1)

def ReduceOp.allReduce (op : ReduceOp) (devNum : Nat) (values : Nat → ℚ) : ℚ :=
  match op with
  | .sum => allReduceValues (· + ·) devNum values
  | .prod => allReduceValues (· * ·) devNum values
  | .max => allReduceValues (fun a b => Max.max a b) devNum values
  | .min => allReduceValues (fun a b => Min.min a b) devNum values
  | .all => allReduceValues (fun a b => Min.min a b) devNum fun k => truth (values k)
  | .avg => allReduceValues (· + ·) devNum values / devNum

/-! ## Truth values -/

theorem truth_eq_zero_iff {value : ℚ} : truth value = 0 ↔ value = 0 := by
  by_cases h : value = 0 <;> simp [truth, h]

theorem truth_cases (value : ℚ) : truth value = 0 ∨ truth value = 1 := by
  by_cases h : value = 0 <;> simp [truth, h]

theorem truth_of_ne_zero {value : ℚ} (h : value ≠ 0) : truth value = 1 := by simp [truth, h]

theorem truth_of_cases {value : ℚ} (h : value = 0 ∨ value = 1) : truth value = value := by
  rcases h with rfl | rfl <;> simp [truth]

theorem truth_mul (a b : ℚ) : truth (a * b) = truth a * truth b := by
  by_cases ha : a = 0 <;> by_cases hb : b = 0 <;> simp [truth, ha, hb]

theorem truth_mul_min (a b : ℚ) : truth (a * b) = min (truth a) (truth b) := by
  by_cases ha : a = 0 <;> by_cases hb : b = 0 <;> simp [truth, ha, hb]

theorem truth_congr {a b : ℚ} (h : a = 0 ↔ b = 0) : truth a = truth b := by simp only [truth, h]

theorem pow_of_cases {value : ℚ} (h : value = 0 ∨ value = 1) {n : Nat} (hn : 0 < n) :
    value ^ n = value := by
  rcases h with rfl | rfl
  · exact zero_pow (by omega)
  · exact one_pow n

/-! ## The reductions, one by one -/

variable (devNum : Nat)

theorem allReduce_all (values : Nat → ℚ) :
    ReduceOp.all.allReduce devNum values = truth (ReduceOp.prod.allReduce devNum values) :=
  (foldRanks_hom truth truth_mul_min values _).symm

theorem allReduce_one {op : ReduceOp} (h : op ≠ .all) (values : Nat → ℚ) :
    op.allReduce 1 values = values 0 := by
  cases op <;> simp_all [ReduceOp.allReduce, allReduceValues, foldRanks]

theorem allReduce_prod_mul (left right : Nat → ℚ) :
    ReduceOp.prod.allReduce devNum (fun k => left k * right k) =
      ReduceOp.prod.allReduce devNum left * ReduceOp.prod.allReduce devNum right :=
  foldRanks_zip (· * ·) mul_mul_mul_comm left right _

theorem allReduce_prod_const {devNum : Nat} (h : 0 < devNum) (value : ℚ) :
    ReduceOp.prod.allReduce devNum (fun _ => value) = value ^ devNum := by
  obtain ⟨n, rfl⟩ := Nat.exists_eq_succ_of_ne_zero h.ne'
  simp only [ReduceOp.allReduce, allReduceValues, Nat.succ_sub_one]
  induction n with
  | zero => simp [foldRanks]
  | succ n ih => rw [foldRanks, ih (by omega), ← pow_succ]

theorem allReduce_prod_eq_zero_iff {left right : Nat → ℚ} (h : ∀ k, left k = 0 ↔ right k = 0) :
    ReduceOp.prod.allReduce devNum left = 0 ↔ ReduceOp.prod.allReduce devNum right = 0 := by
  simp only [ReduceOp.allReduce, allReduceValues]
  induction devNum - 1 with
  | zero => exact h 0
  | succ n ih => simp [foldRanks, ih, h]

theorem allReduce_prod_cases {values : Nat → ℚ} (h : ∀ k, values k = 0 ∨ values k = 1) :
    ReduceOp.prod.allReduce devNum values = 0 ∨ ReduceOp.prod.allReduce devNum values = 1 :=
  foldRanks_invariant (P := fun value => value = 0 ∨ value = 1) h
    (fun a b ha hb => by rcases ha with rfl | rfl <;> rcases hb with rfl | rfl <;> simp) _

theorem allReduce_sum_mul_const (values : Nat → ℚ) (factor : ℚ) :
    ReduceOp.sum.allReduce devNum (fun k => values k * factor) =
      ReduceOp.sum.allReduce devNum values * factor :=
  (foldRanks_hom (· * factor) (fun a b => add_mul a b factor) values _).symm

theorem allReduce_avg_mul_const (values : Nat → ℚ) (factor : ℚ) :
    ReduceOp.avg.allReduce devNum (fun k => values k * factor) =
      ReduceOp.avg.allReduce devNum values * factor := by
  have h := allReduce_sum_mul_const devNum values factor
  simp only [ReduceOp.allReduce] at h ⊢
  rw [h, div_mul_eq_mul_div]

def ReduceOp.ofEqual (op : ReduceOp) (devNum : Nat) (value : ℚ) : ℚ :=
  match op with
  | .sum => devNum * value
  | .prod => value ^ devNum
  | .all => truth value
  | .max | .min | .avg => value

theorem allReduce_sum_const {devNum : Nat} (h : 0 < devNum) (value : ℚ) :
    ReduceOp.sum.allReduce devNum (fun _ => value) = devNum * value := by
  obtain ⟨n, rfl⟩ := Nat.exists_eq_succ_of_ne_zero h.ne'
  simp only [ReduceOp.allReduce, allReduceValues, Nat.succ_sub_one]
  induction n with
  | zero => simp [foldRanks]
  | succ n ih =>
    rw [foldRanks, ih (by omega)]
    push_cast
    ring

theorem allReduce_const {devNum : Nat} (h : 0 < devNum) (op : ReduceOp) (value : ℚ) :
    op.allReduce devNum (fun _ => value) = op.ofEqual devNum value := by
  cases op with
  | sum => exact allReduce_sum_const h value
  | prod => exact allReduce_prod_const h value
  | max => exact foldRanks_const (max_self value) _
  | min => exact foldRanks_const (min_self value) _
  | all => exact foldRanks_const (min_self (truth value)) _
  | avg =>
    have hsum := allReduce_sum_const h value
    have hne : (devNum : ℚ) ≠ 0 := by exact_mod_cast h.ne'
    simp only [ReduceOp.allReduce] at hsum ⊢
    rw [hsum, mul_comm, mul_div_assoc, div_self hne, mul_one, ReduceOp.ofEqual]

theorem ofEqual_eq_zero_iff {devNum : Nat} (h : 0 < devNum) (op : ReduceOp) (value : ℚ) :
    op.ofEqual devNum value = 0 ↔ value = 0 := by
  have hne : (devNum : ℚ) ≠ 0 := by exact_mod_cast h.ne'
  cases op <;> simp [ReduceOp.ofEqual, truth_eq_zero_iff, hne, h.ne']

/-! ## Reducing a tensor -/

/-- The pending reduction of every mesh dimension. -/
abbrev Signature := Nat → Option ReduceOp

def Signature.reductions (signature : Signature) (sizes : Nat → Nat) (meshDim : Nat) :
    Option ((Nat → ℚ) → ℚ) :=
  (signature meshDim).map fun op => op.allReduce (sizes meshDim)

def reducePartial (sizes : Nat → Nat) (signature : Signature) (order : List Nat)
    (values : Coordinate → ℚ) : Coordinate → ℚ :=
  reduceOver (signature.reductions sizes) order values

/-- One step of the reduction. -/
def reduceDim (sizes : Nat → Nat) (signature : Signature) (meshDim : Nat)
    (values : Coordinate → ℚ) : Coordinate → ℚ :=
  match signature meshDim with
  | some op => reduceAlong (op.allReduce (sizes meshDim)) meshDim values
  | none => values

variable {sizes : Nat → Nat} {signature : Signature}

@[simp] theorem reducePartial_nil (values : Coordinate → ℚ) :
    reducePartial sizes signature [] values = values := rfl

@[simp] theorem reducePartial_cons (meshDim : Nat) (order : List Nat) (values : Coordinate → ℚ) :
    reducePartial sizes signature (meshDim :: order) values =
      reducePartial sizes signature order (reduceDim sizes signature meshDim values) := by
  simp only [reducePartial, reduceOver, reduceDim, Signature.reductions]
  cases signature meshDim <;> rfl

theorem reducePartial_append (order order' : List Nat) (values : Coordinate → ℚ) :
    reducePartial sizes signature (order ++ order') values =
      reducePartial sizes signature order' (reducePartial sizes signature order values) :=
  reduceOver_append _ order order' values

theorem reduceDim_none {meshDim : Nat} (h : signature meshDim = none)
    (values : Coordinate → ℚ) : reduceDim sizes signature meshDim values = values := by
  simp [reduceDim, h]

theorem reduceDim_some {meshDim : Nat} {op : ReduceOp} (h : signature meshDim = some op)
    (values : Coordinate → ℚ) :
    reduceDim sizes signature meshDim values =
      reduceAlong (op.allReduce (sizes meshDim)) meshDim values := by
  simp [reduceDim, h]

def equalDim (devNum : Nat) : Option ReduceOp → ℚ → ℚ
  | some op, value => op.ofEqual devNum value
  | none, value => value

def equalOver (sizes : Nat → Nat) (signature : Signature) : List Nat → ℚ → ℚ
  | [], value => value
  | meshDim :: order, value =>
    equalOver sizes signature order (equalDim (sizes meshDim) (signature meshDim) value)

theorem reducePartial_onAxis {order : List Nat} (hpos : ∀ d ∈ order, 0 < sizes d)
    {axis : Nat} (haxis : axis ∉ order) (values : Nat → ℚ) :
    reducePartial sizes signature order (onAxis axis values) =
      onAxis axis fun k => equalOver sizes signature order (values k) := by
  induction order generalizing values with
  | nil => rfl
  | cons meshDim order ih =>
    have hpos' := List.forall_mem_cons.mp hpos
    have hne : meshDim ≠ axis := fun heq => haxis (by simp [heq])
    have hnot : axis ∉ order := fun hmem => haxis (by simp [hmem])
    rw [reducePartial_cons]
    cases hop : signature meshDim with
    | none => rw [reduceDim_none hop, ih hpos'.2 hnot]; simp [equalOver, equalDim, hop]
    | some op =>
      rw [reduceDim_some hop, reduceAlong_onAxis_of_ne hne]
      simp only [allReduce_const hpos'.1]
      rw [ih hpos'.2 hnot]
      simp [equalOver, equalDim, hop]

theorem reducePartial_const {order : List Nat} (hpos : ∀ d ∈ order, 0 < sizes d) (value : ℚ) :
    reducePartial sizes signature order (fun _ => value) =
      fun _ => equalOver sizes signature order value := by
  induction order generalizing value with
  | nil => rfl
  | cons meshDim order ih =>
    have hpos' := List.forall_mem_cons.mp hpos
    rw [reducePartial_cons]
    cases hop : signature meshDim with
    | none => rw [reduceDim_none hop, ih hpos'.2]; simp [equalOver, equalDim, hop]
    | some op =>
      have hconst : reduceAlong (op.allReduce (sizes meshDim)) meshDim (fun _ => value) =
          fun _ => op.ofEqual (sizes meshDim) value := by
        funext ρ
        exact allReduce_const hpos'.1 op value
      rw [reduceDim_some hop, hconst, ih hpos'.2]
      simp [equalOver, equalDim, hop]

theorem equalOver_eq_zero_iff (signature : Signature) {order : List Nat}
    (hpos : ∀ d ∈ order, 0 < sizes d) (value : ℚ) :
    equalOver sizes signature order value = 0 ↔ value = 0 := by
  induction order generalizing value with
  | nil => rfl
  | cons meshDim order ih =>
    have hpos' := List.forall_mem_cons.mp hpos
    rw [equalOver, ih hpos'.2]
    cases signature meshDim with
    | none => rfl
    | some op => exact ofEqual_eq_zero_iff hpos'.1 op value

end HyperParallel.DTensor
