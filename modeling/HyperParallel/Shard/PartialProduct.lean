import HyperParallel.DTensor.PartialReduce

/-!
# Products of partial results

When the product of two operands, taken rank by rank, still stands for the
product of what they stand for.  An operand that is not Partial on a mesh
dimension of the other is held equally by the ranks of that dimension.

The reduction of the rank products is followed as a product of two factors, one
for each operand.  A factor drifts from its operand where the other one is
multiplied up on a dimension of its own, and meets it again where the operand is
read as a truth value.
-/

namespace HyperParallel.Shard

open DTensor
open Foundation.AxisReduce

/-- Partial where one of the operands is. -/
def mergedSignature (own other : Signature) : Signature := fun d => (own d).or (other d)

/-- What two operands may leave pending on one mesh dimension. -/
def SoundPair (size : Nat) : Option ReduceOp → Option ReduceOp → Prop
  | none, none => True
  | some op, none => (op ≠ .max ∧ op ≠ .min) ∨ size = 1
  | none, some op => (op ≠ .max ∧ op ≠ .min) ∨ size = 1
  | some op, some op' => op = op' ∧ (op = .prod ∨ op = .all ∨ size = 1)

/-- A dimension of `other` alone where equal values of `own` are multiplied together. -/
def MultipliesUp (size : Nat) (own other : Option ReduceOp) : Prop :=
  own = none ∧ (other = some .all ∨ (other = some .prod ∧ 2 ≤ size))

def Settled (ndim : Nat) (sizes : Nat → Nat) (own other : Signature) : Prop :=
  (∃ d < ndim, MultipliesUp (sizes d) (own d) (other d)) →
    (∃ d < ndim, own d = some .all) ∧
      ∀ d < ndim, own d = some .sum ∨ own d = some .avg → sizes d = 1

structure SoundProduct (ndim : Nat) (sizes : Nat → Nat) (x y : Signature) : Prop where
  pairs : ∀ d < ndim, SoundPair (sizes d) (x d) (y d)
  left : Settled ndim sizes x y
  right : Settled ndim sizes y x

/-! ## One reduction of a product -/

def equalFactor (op : ReduceOp) (size : Nat) (value : ℚ) : ℚ :=
  match op with
  | .prod => value ^ size
  | .all => truth (value ^ size)
  | _ => value

variable {op : ReduceOp} {size : Nat}

theorem allReduce_mul_equal (hsize : 0 < size) (h : (op ≠ .max ∧ op ≠ .min) ∨ size = 1)
    (values : Nat → ℚ) (factor : ℚ) :
    op.allReduce size (fun k => values k * factor) =
      op.allReduce size values * equalFactor op size factor := by
  have hprod : ReduceOp.prod.allReduce size (fun k => values k * factor) =
      ReduceOp.prod.allReduce size values * factor ^ size := by
    rw [allReduce_prod_mul, allReduce_prod_const hsize]
  cases op with
  | sum => exact allReduce_sum_mul_const size values factor
  | avg => exact allReduce_avg_mul_const size values factor
  | prod => exact hprod
  | all => rw [allReduce_all, allReduce_all, hprod, truth_mul, equalFactor]
  | max =>
    obtain rfl : size = 1 := by simpa using h
    rw [allReduce_one (by decide), allReduce_one (by decide)]
    rfl
  | min =>
    obtain rfl : size = 1 := by simpa using h
    rw [allReduce_one (by decide), allReduce_one (by decide)]
    rfl

theorem allReduce_mul (h : op = .prod ∨ op = .all ∨ size = 1) (left right : Nat → ℚ) :
    op.allReduce size (fun k => left k * right k) =
      op.allReduce size left * op.allReduce size right := by
  by_cases hall : op = .all
  · subst hall
    rw [allReduce_all, allReduce_all, allReduce_all, allReduce_prod_mul, truth_mul]
  · rcases h with rfl | rfl | rfl
    · exact allReduce_prod_mul size left right
    · exact absurd rfl hall
    · rw [allReduce_one hall, allReduce_one hall, allReduce_one hall]

def factorDim (sizes : Nat → Nat) (own other : Signature) (d : Nat)
    (factor : Coordinate → ℚ) : Coordinate → ℚ :=
  match own d, other d with
  | some op, _ => reduceAlong (op.allReduce (sizes d)) d factor
  | none, some op => fun ρ => equalFactor op (sizes d) (factor ρ)
  | none, none => factor

variable {sizes : Nat → Nat} {own other : Signature}

theorem reduceDim_mul {d : Nat} (hsize : 0 < sizes d)
    (hpair : SoundPair (sizes d) (own d) (other d)) {left right : Coordinate → ℚ}
    (hleft : own d = none → other d ≠ none → ReplicatedAlong d left)
    (hright : other d = none → own d ≠ none → ReplicatedAlong d right) :
    reduceDim sizes (mergedSignature own other) d (fun ρ => left ρ * right ρ) =
      fun ρ => factorDim sizes own other d left ρ * factorDim sizes other own d right ρ := by
  cases hown : own d with
  | none =>
    cases hother : other d with
    | none =>
      rw [reduceDim_none (by simp [mergedSignature, hown, hother])]
      simp [factorDim, hown, hother]
    | some op =>
      have hout : mergedSignature own other d = some op := by
        simp [mergedSignature, hown, hother]
      rw [reduceDim_some hout]
      funext ρ
      have hequal : ∀ k, left (Function.update ρ d k) * right (Function.update ρ d k) =
          right (Function.update ρ d k) * left ρ := by
        intro k
        rw [hleft hown (by simp [hother]) ρ k, mul_comm]
      simp only [reduceAlong, hequal, factorDim, hown, hother]
      rw [allReduce_mul_equal hsize (by simpa [SoundPair, hown, hother] using hpair), mul_comm]
  | some op =>
    have hout : mergedSignature own other d = some op := by simp [mergedSignature, hown]
    rw [reduceDim_some hout]
    funext ρ
    cases hother : other d with
    | none =>
      have hequal : ∀ k, left (Function.update ρ d k) * right (Function.update ρ d k) =
          left (Function.update ρ d k) * right ρ := by
        intro k
        rw [hright hother (by simp [hown]) ρ k]
      simp only [reduceAlong, hequal, factorDim, hown, hother]
      exact allReduce_mul_equal hsize (by simpa [SoundPair, hown, hother] using hpair) _ _
    | some op' =>
      obtain ⟨rfl, hop⟩ : op = op' ∧ (op = .prod ∨ op = .all ∨ sizes d = 1) := by
        simpa [SoundPair, hown, hother] using hpair
      simp only [reduceAlong, factorDim, hown, hother]
      exact allReduce_mul hop _ _

theorem factorDim_replicated {d e : Nat} {factor : Coordinate → ℚ}
    (h : ReplicatedAlong e factor) : ReplicatedAlong e (factorDim sizes own other d factor) := by
  unfold factorDim
  split
  · exact h.reduceAlong _ _
  · exact h.map _
  · exact h

/-! ## A factor and its operand -/

/--
The factor of one operand, in the reduction of the product, beside what the
operand itself has become: `drifts` when it may be multiplied up, `read` when it
has been read as a truth value.
-/
structure Tracks (drifts read : Prop) (factor value : Coordinate → ℚ) : Prop where
  zero : ∀ ρ, factor ρ = 0 ↔ value ρ = 0
  exact : ¬drifts → factor = value
  settled : drifts → read → factor = value ∧ ∀ ρ, value ρ = 0 ∨ value ρ = 1

theorem Tracks.refl {drifts : Prop} (value : Coordinate → ℚ) :
    Tracks drifts False value value where
  zero _ := Iff.rfl
  exact _ := rfl
  settled _ h := h.elim

theorem equalFactor_eq_zero_iff (hsize : 0 < size) (op : ReduceOp) (value : ℚ) :
    equalFactor op size value = 0 ↔ value = 0 := by
  cases op <;> simp [equalFactor, truth_eq_zero_iff, hsize.ne']

theorem equalFactor_of_cases (hsize : 0 < size) (op : ReduceOp) {value : ℚ}
    (h : value = 0 ∨ value = 1) : equalFactor op size value = value := by
  have hpow := pow_of_cases h hsize
  cases op <;> simp [equalFactor, hpow, truth_of_cases h]

theorem equalFactor_of_not_multipliesUp (hsize : 0 < size) (h : ¬MultipliesUp size none (some op))
    (value : ℚ) : equalFactor op size value = value := by
  cases op with
  | prod =>
    obtain rfl : size = 1 := by
      simp only [MultipliesUp, Option.some.injEq, reduceCtorEq, true_and, false_or] at h
      omega
    exact pow_one value
  | all => simp [MultipliesUp] at h
  | sum | max | min | avg => rfl

theorem allReduce_cases (h : op = .prod ∨ op = .all ∨ size = 1) {values : Nat → ℚ}
    (hvalues : ∀ k, values k = 0 ∨ values k = 1) :
    op.allReduce size values = 0 ∨ op.allReduce size values = 1 := by
  by_cases hall : op = .all
  · subst hall
    rw [allReduce_all]
    exact truth_cases _
  · rcases h with rfl | rfl | rfl
    · exact allReduce_prod_cases size hvalues
    · exact absurd rfl hall
    · rw [allReduce_one hall]
      exact hvalues 0

theorem allReduce_eq_zero_iff (h : op = .prod ∨ op = .all ∨ size = 1) {left right : Nat → ℚ}
    (hvalues : ∀ k, left k = 0 ↔ right k = 0) :
    op.allReduce size left = 0 ↔ op.allReduce size right = 0 := by
  by_cases hall : op = .all
  · subst hall
    rw [allReduce_all, allReduce_all, truth_eq_zero_iff, truth_eq_zero_iff]
    exact allReduce_prod_eq_zero_iff size hvalues
  · rcases h with rfl | rfl | rfl
    · exact allReduce_prod_eq_zero_iff size hvalues
    · exact absurd rfl hall
    · rw [allReduce_one hall, allReduce_one hall]
      exact hvalues 0

theorem op_of_drifts {drifts : Prop} {d : Nat} (hpair : SoundPair (sizes d) (own d) (other d))
    (hlinear : drifts → own d = some .sum ∨ own d = some .avg → sizes d = 1) (hdrifts : drifts)
    (hown : own d = some op) :
    op = .prod ∨ op = .all ∨ sizes d = 1 := by
  cases op with
  | prod => exact .inl rfl
  | all => exact .inr (.inl rfl)
  | sum => exact .inr (.inr (hlinear hdrifts (.inl hown)))
  | avg => exact .inr (.inr (hlinear hdrifts (.inr hown)))
  | max | min =>
    right; right
    cases hother : other d <;> simp_all [SoundPair]

theorem Tracks.reduceDim {drifts read : Prop} {d : Nat} (hsize : 0 < sizes d)
    (hpair : SoundPair (sizes d) (own d) (other d))
    (hdrifts : MultipliesUp (sizes d) (own d) (other d) → drifts)
    (hlinear : drifts → own d = some .sum ∨ own d = some .avg → sizes d = 1)
    {factor value : Coordinate → ℚ} (h : Tracks drifts read factor value) :
    Tracks drifts (read ∨ own d = some .all)
      (factorDim sizes own other d factor) (DTensor.reduceDim sizes own d value) := by
  cases hown : own d with
  | none =>
    rw [reduceDim_none hown]
    cases hother : other d with
    | none =>
      simp only [factorDim, hown, hother]
      exact ⟨h.zero, h.exact, fun hd hr => h.settled hd (by simpa using hr)⟩
    | some op =>
      simp only [factorDim, hown, hother]
      refine ⟨fun ρ => (equalFactor_eq_zero_iff hsize op _).trans (h.zero ρ), ?_, ?_⟩
      · intro hnot
        have hstays : ¬MultipliesUp (sizes d) none (some op) := fun hup =>
          hnot (hdrifts (by rwa [hown, hother]))
        rw [h.exact hnot]
        exact funext fun ρ => equalFactor_of_not_multipliesUp hsize hstays _
      · intro hd hr
        obtain ⟨heq, hcases⟩ := h.settled hd (by simpa using hr)
        rw [heq]
        exact ⟨funext fun ρ => equalFactor_of_cases hsize op (hcases ρ), hcases⟩
  | some op =>
    rw [reduceDim_some hown]
    simp only [factorDim, hown]
    have hzero : ∀ ρ, reduceAlong (op.allReduce (sizes d)) d factor ρ = 0 ↔
        reduceAlong (op.allReduce (sizes d)) d value ρ = 0 := by
      by_cases hd : drifts
      · exact fun ρ => allReduce_eq_zero_iff (op_of_drifts hpair hlinear hd hown)
          fun k => h.zero _
      · rw [h.exact hd]
        exact fun _ => Iff.rfl
    refine ⟨hzero, fun hnot => by rw [h.exact hnot], fun hd hr => ?_⟩
    have hop := op_of_drifts hpair hlinear hd hown
    rcases hr with hread | hall
    · obtain ⟨heq, hcases⟩ := h.settled hd hread
      rw [heq]
      exact ⟨rfl, fun ρ => allReduce_cases hop fun k => hcases _⟩
    · obtain rfl : op = .all := by simpa using hall
      refine ⟨funext fun ρ => ?_, fun ρ => ?_⟩
      · have hρ := hzero ρ
        simp only [reduceAlong, allReduce_all, truth_eq_zero_iff] at hρ ⊢
        exact truth_congr hρ
      · simp only [reduceAlong, allReduce_all]
        exact truth_cases _

/-! ## A whole reduction -/

def EqualFor (own other : Signature) (order : List Nat) (values : Coordinate → ℚ) : Prop :=
  ∀ d ∈ order, own d = none → other d ≠ none → ReplicatedAlong d values

theorem reducePartial_mul {ndim : Nat} {x y : Signature} {order : List Nat}
    (horder : ∀ d ∈ order, d < ndim ∧ 0 < sizes d) (hsound : SoundProduct ndim sizes x y)
    {readX readY : Prop} {factorX factorY valueX valueY : Coordinate → ℚ}
    (hequalX : EqualFor x y order factorX) (hequalY : EqualFor y x order factorY)
    (hx : Tracks (∃ d < ndim, MultipliesUp (sizes d) (x d) (y d)) readX factorX valueX)
    (hy : Tracks (∃ d < ndim, MultipliesUp (sizes d) (y d) (x d)) readY factorY valueY) :
    ∃ factorX' factorY',
      reducePartial sizes (mergedSignature x y) order (fun ρ => factorX ρ * factorY ρ) =
        (fun ρ => factorX' ρ * factorY' ρ) ∧
      Tracks (∃ d < ndim, MultipliesUp (sizes d) (x d) (y d))
        (readX ∨ ∃ d ∈ order, x d = some .all) factorX'
        (reducePartial sizes x order valueX) ∧
      Tracks (∃ d < ndim, MultipliesUp (sizes d) (y d) (x d))
        (readY ∨ ∃ d ∈ order, y d = some .all) factorY'
        (reducePartial sizes y order valueY) := by
  induction order generalizing readX readY factorX factorY valueX valueY with
  | nil => exact ⟨factorX, factorY, rfl, by simpa using hx, by simpa using hy⟩
  | cons d order ih =>
    obtain ⟨⟨hd, hsize⟩, horder⟩ := List.forall_mem_cons.mp horder
    have hpair := hsound.pairs d hd
    have hpair' : SoundPair (sizes d) (y d) (x d) := by
      revert hpair
      cases hx : x d <;> cases hy : y d <;> simp only [SoundPair, imp_self]
      rintro ⟨rfl, h⟩
      exact ⟨rfl, h⟩
    have hstep := reduceDim_mul hsize hpair (hequalX d (by simp)) (hequalY d (by simp))
    have hx' := hx.reduceDim hsize hpair (fun h => ⟨d, hd, h⟩) fun hup => (hsound.left hup).2 d hd
    have hy' := hy.reduceDim hsize hpair' (fun h => ⟨d, hd, h⟩)
      fun hup => (hsound.right hup).2 d hd
    obtain ⟨factorX', factorY', hrun, htrackX, htrackY⟩ := ih horder
      (fun e he hown hother => factorDim_replicated (hequalX e (by simp [he]) hown hother))
      (fun e he hown hother => factorDim_replicated (hequalY e (by simp [he]) hown hother))
      hx' hy'
    refine ⟨factorX', factorY', ?_, ?_, ?_⟩
    · rw [reducePartial_cons, hstep, hrun]
    · simpa [or_assoc] using htrackX
    · simpa [or_assoc] using htrackY

/-- A dimension that neither shards an operand nor is pending holds it equally. -/
def Replicates (ndim : Nat) (sharded : Nat → Prop) (own : Signature)
    (values : Coordinate → ℚ) : Prop :=
  ∀ d < ndim, own d = none → ¬sharded d → ReplicatedAlong d values

def ProductLaw (ndim : Nat) (sizes : Nat → Nat) (sharded : Nat → Prop) (x y : Signature) :
    Prop :=
  ∀ valueX valueY : Coordinate → ℚ,
    Replicates ndim sharded x valueX → Replicates ndim sharded y valueY →
    ∀ order : List Nat, order.Perm (List.range ndim) →
      reducePartial sizes (mergedSignature x y) order (fun ρ => valueX ρ * valueY ρ) =
        fun ρ => reducePartial sizes x order valueX ρ * reducePartial sizes y order valueY ρ

theorem SoundProduct.productLaw {ndim : Nat} (hpos : ∀ d < ndim, 0 < sizes d) {sharded : Nat → Prop}
    {x y : Signature} (hfree : ∀ d < ndim, x d ≠ none ∨ y d ≠ none → ¬sharded d)
    (hsound : SoundProduct ndim sizes x y) : ProductLaw ndim sizes sharded x y := by
  intro valueX valueY hvalueX hvalueY order horder
  have hmem : ∀ d, d ∈ order ↔ d < ndim := fun d => by
    rw [horder.mem_iff, List.mem_range]
  have hequalX : EqualFor x y order valueX := fun d hd hx hy =>
    hvalueX d ((hmem d).mp hd) hx (hfree d ((hmem d).mp hd) (.inr hy))
  have hequalY : EqualFor y x order valueY := fun d hd hy hx =>
    hvalueY d ((hmem d).mp hd) hy (hfree d ((hmem d).mp hd) (.inl hx))
  obtain ⟨factorX, factorY, hrun, htrackX, htrackY⟩ :=
    reducePartial_mul (fun d hd => ⟨(hmem d).mp hd, hpos d ((hmem d).mp hd)⟩) hsound
      hequalX hequalY (Tracks.refl valueX) (Tracks.refl valueY)
  have hread : ∀ {own other : Signature} {factor value : Coordinate → ℚ},
      Settled ndim sizes own other →
      Tracks (∃ d < ndim, MultipliesUp (sizes d) (own d) (other d))
        (False ∨ ∃ d ∈ order, own d = some .all) factor value → factor = value := by
    intro own other factor value hsettled htrack
    by_cases hup : ∃ d < ndim, MultipliesUp (sizes d) (own d) (other d)
    · obtain ⟨d, hd, hall⟩ := (hsettled hup).1
      exact (htrack.settled hup (.inr ⟨d, (hmem d).mpr hd, hall⟩)).1
    · exact htrack.exact hup
  rw [hrun, hread hsound.left htrackX, hread hsound.right htrackY]

end HyperParallel.Shard
