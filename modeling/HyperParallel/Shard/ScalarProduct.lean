import HyperParallel.Shard.ProductNecessity
import Mathlib.Algebra.Order.BigOperators.GroupWithZero.List

/-!
# A partial result times a scalar

The scalar is no partial result: it is multiplied into the value of every rank,
and a reduction that multiplies the ranks' values multiplies it up with them.
-/

namespace HyperParallel.Shard

open DTensor List
open Foundation.AxisReduce

/-- The ranks whose values the reductions multiply together. -/
def multiplied (sizes : Nat → Nat) (x : Signature) (order : List Nat) : Nat :=
  ((order.filter fun d => x d = some .prod).map sizes).prod

structure SoundScalar (ndim : Nat) (sizes : Nat → Nat) (x : Signature) (scalar : ℚ) : Prop where
  truth : (∃ d < ndim, x d = some .all) → scalar = 0 ∨ scalar = 1
  sign : (∃ d < ndim, 2 ≤ sizes d ∧ (x d = some .max ∨ x d = some .min)) → 0 ≤ scalar
  power : scalar ^ multiplied sizes x (List.range ndim) = scalar

/-- The scalar multiple, rank by rank, stands for the multiple of what the operand stands for. -/
def ScalarLaw (ndim : Nat) (sizes : Nat → Nat) (sharded : Nat → Prop) (x : Signature)
    (scalar : ℚ) : Prop :=
  ∀ value : Coordinate → ℚ, Replicates ndim sharded x value →
    ∀ order : List Nat, order.Perm (List.range ndim) →
      reducePartial sizes x order (fun ρ => value ρ * scalar) =
        fun ρ => reducePartial sizes x order value ρ * scalar

def scalarOver (sizes : Nat → Nat) (x : Signature) : List Nat → ℚ → ℚ
  | [], scalar => scalar
  | d :: order, scalar =>
    scalarOver sizes x order
      (match x d with
        | some op => equalFactor op (sizes d) scalar
        | none => scalar)

variable {ndim : Nat} {sizes : Nat → Nat} {sharded : Nat → Prop} {x : Signature} {scalar : ℚ}

theorem allReduce_mul_nonneg {size : Nat} (hsize : 0 < size) {op : ReduceOp} {scalar : ℚ}
    (h : 2 ≤ size → op = .max ∨ op = .min → 0 ≤ scalar) (values : Nat → ℚ) :
    op.allReduce size (fun k => values k * scalar) =
      op.allReduce size values * equalFactor op size scalar := by
  by_cases hop : (op ≠ .max ∧ op ≠ .min) ∨ size = 1
  · exact allReduce_mul_equal hsize hop values scalar
  · simp only [not_or, not_and_or, not_not] at hop
    have hnonneg := h (by omega) hop.1
    rcases hop.1 with rfl | rfl
    · exact (foldRanks_hom (· * scalar) (fun a b => max_mul_of_nonneg a b hnonneg) values _).symm
    · exact (foldRanks_hom (· * scalar) (fun a b => min_mul_of_nonneg a b hnonneg) values _).symm

theorem equalFactor_nonneg {size : Nat} {op : ReduceOp} (h : 0 ≤ scalar) :
    0 ≤ equalFactor op size scalar := by
  cases op with
  | prod => exact pow_nonneg h size
  | all => rcases truth_cases (scalar ^ size) with h | h <;> simp [equalFactor, h]
  | sum | max | min | avg => exact h

variable {order : List Nat}

theorem reducePartial_mul_scalar (hpos : ∀ d ∈ order, 0 < sizes d)
    (hsign : (∃ d ∈ order, 2 ≤ sizes d ∧ (x d = some .max ∨ x d = some .min)) → 0 ≤ scalar)
    (value : Coordinate → ℚ) :
    reducePartial sizes x order (fun ρ => value ρ * scalar) =
      fun ρ => reducePartial sizes x order value ρ * scalarOver sizes x order scalar := by
  induction order generalizing value scalar with
  | nil => rfl
  | cons d order ih =>
    obtain ⟨hsize, hpos⟩ := forall_mem_cons.mp hpos
    rw [reducePartial_cons, reducePartial_cons]
    cases hop : x d with
    | none =>
      rw [reduceDim_none hop, reduceDim_none hop, ih hpos fun ⟨e, he, hext⟩ =>
        hsign ⟨e, by simp [he], hext⟩]
      simp [scalarOver, hop]
    | some op =>
      rw [reduceDim_some hop, reduceDim_some hop]
      have hstep : reduceAlong (op.allReduce (sizes d)) d (fun ρ => value ρ * scalar) =
          fun ρ => reduceAlong (op.allReduce (sizes d)) d value ρ *
            equalFactor op (sizes d) scalar := by
        funext ρ
        refine allReduce_mul_nonneg hsize (fun h2 hext => hsign ⟨d, by simp, h2, ?_⟩) _
        simpa [hop] using hext
      rw [hstep, ih hpos fun ⟨e, he, hext⟩ =>
        equalFactor_nonneg (hsign ⟨e, by simp [he], hext⟩)]
      simp [scalarOver, hop]

theorem scalarOver_of_cases (hpos : ∀ d ∈ order, 0 < sizes d) (h : scalar = 0 ∨ scalar = 1) :
    scalarOver sizes x order scalar = scalar := by
  induction order with
  | nil => rfl
  | cons d order ih =>
    obtain ⟨hsize, hpos⟩ := forall_mem_cons.mp hpos
    rw [scalarOver]
    cases x d with
    | none => exact ih hpos
    | some op => simpa only [equalFactor_of_cases hsize op h] using ih hpos

theorem scalarOver_of_not_all (hall : ∀ d ∈ order, x d ≠ some .all) :
    scalarOver sizes x order scalar = scalar ^ multiplied sizes x order := by
  induction order generalizing scalar with
  | nil => simp [scalarOver, multiplied]
  | cons d order ih =>
    obtain ⟨hd, hall⟩ := forall_mem_cons.mp hall
    rw [scalarOver, ih hall]
    cases hop : x d with
    | none => simp [multiplied, hop]
    | some op =>
      cases op with
      | prod => simp [multiplied, hop, equalFactor, pow_mul]
      | all => exact absurd hop hd
      | sum | max | min | avg => simp [multiplied, hop, equalFactor]

theorem multiplied_perm {order' : List Nat} (h : order.Perm order') :
    multiplied sizes x order = multiplied sizes x order' :=
  ((h.filter _).map _).prod_eq

theorem multiplied_pos (hpos : ∀ d ∈ order, 0 < sizes d) : 0 < multiplied sizes x order := by
  refine prod_pos fun size hsize => ?_
  obtain ⟨d, hd, rfl⟩ := mem_map.mp hsize
  exact hpos d (mem_filter.mp hd).1

theorem SoundScalar.scalarLaw (hpos : ∀ d < ndim, 0 < sizes d)
    (hsound : SoundScalar ndim sizes x scalar) : ScalarLaw ndim sizes sharded x scalar := by
  intro value _ order horder
  have hmem : ∀ d ∈ order, d < ndim := fun d hd => mem_range.mp (horder.mem_iff.mp hd)
  have hpos' : ∀ d ∈ order, 0 < sizes d := fun d hd => hpos d (hmem d hd)
  rw [reducePartial_mul_scalar hpos' fun ⟨d, hd, hext⟩ => hsound.sign ⟨d, hmem d hd, hext⟩]
  have hkeep : scalarOver sizes x order scalar = scalar := by
    by_cases hall : ∃ d < ndim, x d = some .all
    · exact scalarOver_of_cases hpos' (hsound.truth hall)
    · push Not at hall
      rw [scalarOver_of_not_all fun d hd => hall d (hmem d hd), multiplied_perm horder,
        hsound.power]
  rw [hkeep]

theorem sign_of_law (hlaw : ScalarLaw ndim sizes sharded x scalar)
    (hpos : ∀ d < ndim, 0 < sizes d) {d : Nat} (hd : d < ndim) (hsize : 2 ≤ sizes d)
    {op : ReduceOp} (hx : x d = some op) (hop : op = .max ∨ op = .min) : 0 ≤ scalar := by
  by_contra hneg
  obtain ⟨values, hbreak, hzero⟩ := extremum_breaks hsize hop (not_le.mp hneg)
  obtain ⟨rest, horder⟩ := exists_order_from [d] (nodup_singleton d) (by simpa using hd)
  have hrest : ∀ e ∈ rest, 0 < sizes e := fun e he =>
    hpos e (mem_range.mp (horder.mem_iff.mp (mem_append_right _ he)))
  have hmul : reduceAlong (op.allReduce (sizes d)) d
      (fun ρ => onAxis d values ρ * scalar) =
      fun _ => op.allReduce (sizes d) fun k => values k * scalar :=
    reduceAlong_onAxis d _ fun k => values k * scalar
  have heq := congrFun (hlaw (onAxis d values) (onAxis_replicates d (by simp [hx]) values)
    _ horder) fun _ => 0
  simp only [reducePartial_append, reducePartial_cons, reducePartial_nil, reduceDim_some hx,
    hmul, reduceAlong_onAxis, reducePartial_const hrest, hzero,
    (equalOver_eq_zero_iff x hrest 0).mpr rfl, zero_mul] at heq
  exact hbreak ((equalOver_eq_zero_iff x hrest _).mp heq)

theorem truth_of_law (hlaw : ScalarLaw ndim sizes sharded x scalar)
    (hpos : ∀ d < ndim, 0 < sizes d) {d : Nat} (hd : d < ndim) (hx : x d = some .all) :
    scalar = 0 ∨ scalar = 1 := by
  refine or_iff_not_imp_left.mpr fun hscalar => ?_
  obtain ⟨rest, horder, -⟩ := exists_order_to [d] (nodup_singleton d) (by simpa using hd)
  have hrest : ∀ e ∈ rest, 0 < sizes e := fun e he =>
    hpos e (mem_range.mp (horder.mem_iff.mp (mem_append_left _ he)))
  have hread : ∀ value : ℚ, value ≠ 0 → reduceAlong (ReduceOp.all.allReduce (sizes d)) d
      (fun _ => equalOver sizes x rest value) = fun _ => 1 := by
    intro value hvalue
    funext ρ
    simp only [reduceAlong, allReduce_const (hpos d hd), ReduceOp.ofEqual]
    exact truth_of_ne_zero ((equalOver_eq_zero_iff x hrest value).not.mpr hvalue)
  have heq := congrFun (hlaw (fun _ => 1) (const_replicates _ _) _ horder) fun _ => 0
  simp only [one_mul, reducePartial_append, reducePartial_const hrest, reducePartial_cons,
    reducePartial_nil, reduceDim_some hx, hread _ hscalar, hread _ one_ne_zero] at heq
  exact heq.symm

theorem scalarLaw_iff (hpos : ∀ d < ndim, 0 < sizes d) :
    ScalarLaw ndim sizes sharded x scalar ↔ SoundScalar ndim sizes x scalar := by
  refine ⟨fun hlaw => ?_, fun hsound => hsound.scalarLaw hpos⟩
  have hrange : ∀ d ∈ range ndim, 0 < sizes d := fun d hd => hpos d (mem_range.mp hd)
  have htruth : (∃ d < ndim, x d = some .all) → scalar = 0 ∨ scalar = 1 := fun ⟨_, hd, hx⟩ =>
    truth_of_law hlaw hpos hd hx
  have hsign : (∃ d < ndim, 2 ≤ sizes d ∧ (x d = some .max ∨ x d = some .min)) → 0 ≤ scalar := by
    rintro ⟨d, hd, hsize, hx | hx⟩
    · exact sign_of_law hlaw hpos hd hsize hx (.inl rfl)
    · exact sign_of_law hlaw hpos hd hsize hx (.inr rfl)
  refine ⟨htruth, hsign, ?_⟩
  by_cases hall : ∃ d < ndim, x d = some .all
  · exact pow_of_cases (htruth hall) (multiplied_pos hrange)
  · push Not at hall
    have heq := congrFun (hlaw (fun _ => 1) (const_replicates _ _) _ (List.Perm.refl _)) fun _ => 0
    rw [reducePartial_mul_scalar hrange fun ⟨d, hd, hext⟩ =>
      hsign ⟨d, mem_range.mp hd, hext⟩, reducePartial_const hrange,
      scalarOver_of_not_all fun d hd => hall d (mem_range.mp hd)] at heq
    exact mul_left_cancel₀ ((equalOver_eq_zero_iff x hrange 1).not.mpr one_ne_zero) heq

end HyperParallel.Shard
