import HyperParallel.Losses.ClassRanges

/-!
# The sharded loss and the plain one

The normalization is global, so the local log-probabilities are the plain ones.
What can differ is which rank picks a target: the loss and its gradient are the
plain ones exactly when every target that counts is picked by the rank that
holds it, the unreduced loss has nobody to sum with, and the mean is not over a
weight that the clamp of the backward pass changes.
-/

namespace HyperParallel.Losses

open Finset DTensor Foundation

attribute [local instance] tenAtLeastTwo

section Picked

variable (args : LossArgs) (vocabSize tpSize : ℕ) (x : ℕ → ℕ → ℝ)

def Picks (rank row : ℕ) : Prop :=
  args.targetMask (computeVocabStart vocabSize tpSize rank)
    (computeVocabStart vocabSize tpSize rank + shardSize vocabSize tpSize rank) row

instance (rank row : ℕ) : Decidable (Picks args vocabSize tpSize rank row) :=
  inferInstanceAs (Decidable (args.targetMask _ _ row))

def pickedClass (rank row : ℕ) : ℕ :=
  shardStart vocabSize tpSize rank +
    (args.target row - computeVocabStart vocabSize tpSize rank).toNat

noncomputable def pickedLoss (rank row : ℕ) : ℝ :=
  if Picks args vocabSize tpSize rank row then
    args.rowWeight row *
      (logSumExp (range vocabSize) (x row) - x row (pickedClass args vocabSize tpSize rank row))
  else 0

def Located : Prop :=
  ∀ row < args.batchSize, args.rowWeight row ≠ 0 →
    WellPlaced vocabSize tpSize (args.target row).toNat

def ValidTargets : Prop :=
  ∀ row < args.batchSize, args.target row = args.ignoreIndex ∨
    (0 ≤ args.target row ∧ args.target row < vocabSize)

end Picked

section Ranks

variable {args : LossArgs} {vocabSize tpSize : ℕ} {x : ℕ → ℕ → ℝ}

theorem distributedLogSoftmax_eq (htp : 0 < tpSize) (hvocab : 0 < vocabSize) (rank row c : ℕ) :
    distributedLogSoftmax (shardLogits vocabSize tpSize x) rank row c =
      x row (shardStart vocabSize tpSize rank + c) - logSumExp (range vocabSize) (x row) := by
  have hsum : sumGlobal (shardLogits vocabSize tpSize x) row =
      ∑ c ∈ range vocabSize,
        Real.exp (x row c - maxGlobal (shardLogits vocabSize tpSize x) row) := by
    have hall := @sum_shards vocabSize tpSize
      (fun c => Real.exp (x row c - maxGlobal (shardLogits vocabSize tpSize x) row)) tpSize
    rw [shardStart_last htp] at hall
    exact hall
  rw [distributedLogSoftmax, hsum, log_sum_exp_sub (nonempty_range_iff.mpr hvocab.ne')]
  show x row (shardStart vocabSize tpSize rank + c) - _ - _ = _
  ring

theorem rowWeight_of_picks {rank row : ℕ} (h : Picks args vocabSize tpSize rank row) :
    args.rowWeight row = args.classWeight (args.target row) :=
  if_neg h.2

theorem target_of_rowWeight {row : ℕ} (hvalid : ValidTargets args vocabSize)
    (hrow : row < args.batchSize) (hweight : args.rowWeight row ≠ 0) :
    args.target row ≠ args.ignoreIndex ∧ 0 ≤ args.target row ∧ args.target row < vocabSize := by
  have hne : args.target row ≠ args.ignoreIndex := by
    intro heq
    exact hweight (if_pos heq)
  exact ⟨hne, (hvalid row hrow).resolve_left hne⟩

theorem picks_iff {rank row : ℕ} (hne : args.target row ≠ args.ignoreIndex)
    (hnonneg : 0 ≤ args.target row) :
    Picks args vocabSize tpSize rank row ↔
      Claims vocabSize tpSize rank (args.target row).toNat := by
  constructor
  · intro h
    have hmask := h.1
    exact ⟨by omega, by omega⟩
  · intro h
    have hstart := h.1
    have hstop := h.2
    exact ⟨⟨by omega, by omega⟩, hne⟩

theorem Picks.unique {r k row : ℕ} (htp : 0 < tpSize) (hr : Picks args vocabSize tpSize r row)
    (hk : Picks args vocabSize tpSize k row) : r = k := by
  have hnonneg : 0 ≤ args.target row := by
    have := hr.1.1
    omega
  exact Claims.unique htp ((picks_iff hr.2 hnonneg).mp hr) ((picks_iff hk.2 hnonneg).mp hk)

section Nll

variable {logProbs : ℕ → ℕ → ℝ} {vocabStart vocabEnd : ℕ}

theorem selectedLogProbs_eq (row : ℕ) :
    selectedLogProbs args logProbs vocabStart row =
      logProbs row (args.target row - vocabStart).toNat * args.classWeight (args.target row) := by
  cases hweight : args.weight with
  | none => simp only [selectedLogProbs, LossArgs.classWeight, hweight, mul_one]
  | some weight => simp only [selectedLogProbs, LossArgs.classWeight, hweight]

theorem nllLoss_eq {k : ℕ} (hk : k < args.lossSize) :
    (distributedNllLossForward args logProbs vocabStart vocabEnd).1 k =
      match args.reduction with
      | .none =>
        if args.targetMask vocabStart vocabEnd k then
          -selectedLogProbs args logProbs vocabStart k
        else 0
      | .sum | .mean =>
        ∑ row ∈ range args.batchSize,
          if args.targetMask vocabStart vocabEnd row then
            -selectedLogProbs args logProbs vocabStart row
          else 0 := by
  rw [distributedNllLossForward]
  by_cases hany : ((range args.batchSize).filter
      fun row => args.targetMask vocabStart vocabEnd row).Nonempty
  · simp only [if_pos hany]
    cases hred : args.reduction with
    | none =>
      simp only [LossArgs.lossSize, hred] at hk
      simp only [mem_filter, mem_range, hk, true_and]
    | sum => exact sum_filter _ _
    | mean => exact sum_filter _ _
  · have hnone : ∀ row < args.batchSize, ¬args.targetMask vocabStart vocabEnd row :=
      fun row hrow h => hany ⟨row, mem_filter.mpr ⟨mem_range.mpr hrow, h⟩⟩
    have hzero : (∑ row ∈ range args.batchSize,
        if args.targetMask vocabStart vocabEnd row then
          -selectedLogProbs args logProbs vocabStart row
        else 0) = 0 :=
      sum_eq_zero fun row hrow => if_neg (hnone row (mem_range.mp hrow))
    simp only [if_neg hany]
    cases hred : args.reduction with
    | none =>
      simp only [LossArgs.lossSize, hred] at hk
      simp only [hnone k hk, if_false]
    | sum => exact hzero.symm
    | mean => exact hzero.symm

theorem nllWeight_eq :
    (distributedNllLossForward args logProbs vocabStart vocabEnd).2 =
      ∑ row ∈ range args.batchSize,
        if args.targetMask vocabStart vocabEnd row then args.classWeight (args.target row)
        else 0 := by
  rw [distributedNllLossForward, ← sum_filter]
  by_cases hany : ((range args.batchSize).filter
      fun row => args.targetMask vocabStart vocabEnd row).Nonempty
  · simp only [if_pos hany]
    cases hweight : args.weight with
    | none => simp [LossArgs.classWeight, hweight]
    | some weight => simp [LossArgs.classWeight, hweight]
  · simp only [if_neg hany]
    rw [not_nonempty_iff_eq_empty.mp hany, sum_empty]

end Nll

theorem pickedLoss_eq (htp : 0 < tpSize) (hvocab : 0 < vocabSize) (rank row : ℕ) :
    (if Picks args vocabSize tpSize rank row then
      -selectedLogProbs args (distributedLogSoftmax (shardLogits vocabSize tpSize x) rank)
        (computeVocabStart vocabSize tpSize rank) row else 0) =
      pickedLoss args vocabSize tpSize x rank row := by
  rw [pickedLoss]
  by_cases hpicks : Picks args vocabSize tpSize rank row
  · rw [if_pos hpicks, if_pos hpicks, selectedLogProbs_eq, rowWeight_of_picks hpicks,
      distributedLogSoftmax_eq htp hvocab, pickedClass]
    ring
  · rw [if_neg hpicks, if_neg hpicks]

theorem localNll_loss (htp : 0 < tpSize) (hvocab : 0 < vocabSize) (rank : ℕ) {k : ℕ}
    (hk : k < args.lossSize) :
    (localNll args vocabSize (shardLogits vocabSize tpSize x) rank).1 k =
      match args.reduction with
      | .none => pickedLoss args vocabSize tpSize x rank k
      | .sum | .mean =>
        ∑ row ∈ range args.batchSize, pickedLoss args vocabSize tpSize x rank row := by
  rw [localNll, nllLoss_eq hk]
  cases args.reduction with
  | none => exact pickedLoss_eq htp hvocab rank k
  | sum => exact sum_congr rfl fun row _ => pickedLoss_eq htp hvocab rank row
  | mean => exact sum_congr rfl fun row _ => pickedLoss_eq htp hvocab rank row

theorem localNll_weight (rank : ℕ) :
    (localNll args vocabSize (shardLogits vocabSize tpSize x) rank).2 =
      ∑ row ∈ range args.batchSize,
        if Picks args vocabSize tpSize rank row then args.rowWeight row else 0 := by
  rw [localNll, nllWeight_eq]
  refine sum_congr rfl fun row _ => ?_
  by_cases hpicks : Picks args vocabSize tpSize rank row
  · rw [if_pos hpicks, rowWeight_of_picks hpicks]
    exact if_pos hpicks
  · rw [if_neg hpicks]
    exact if_neg hpicks

/-! ## Every target that counts is located -/

section

variable (htp : 0 < tpSize) (hvalid : ValidTargets args vocabSize)
  (hlocated : Located args vocabSize tpSize)

include htp hvalid hlocated

theorem picks_of_located {row : ℕ} (hrow : row < args.batchSize) (hweight : args.rowWeight row ≠ 0) :
    ∃ owner < tpSize, ∀ rank,
      (Picks args vocabSize tpSize rank row ↔ rank = owner) ∧
        pickedClass args vocabSize tpSize owner row = (args.target row).toNat := by
  obtain ⟨hne, hnonneg, hlt⟩ := target_of_rowWeight hvalid hrow hweight
  have hclass : (args.target row).toNat < vocabSize := by omega
  obtain ⟨owner, howner, hstart, hstop⟩ := exists_owner htp hclass
  have hsame := (claims_iff_wellPlaced htp hstart hstop).mpr (hlocated row hrow hweight)
  have hpicks : Picks args vocabSize tpSize owner row :=
    (picks_iff hne hnonneg).mpr ⟨hsame.symm ▸ hstart, hsame.symm ▸ hstop⟩
  refine ⟨owner, howner, fun rank => ⟨⟨fun h => h.unique htp hpicks, ?_⟩, ?_⟩⟩
  · rintro rfl
    exact hpicks
  · rw [pickedClass, hsame]
    omega

theorem sum_pickedLoss {row : ℕ} (hrow : row < args.batchSize) :
    ∑ rank ∈ range tpSize, pickedLoss args vocabSize tpSize x rank row =
      args.rowLoss vocabSize x row := by
  by_cases hweight : args.rowWeight row = 0
  · rw [LossArgs.rowLoss, hweight, zero_mul]
    refine sum_eq_zero fun rank _ => ?_
    rw [pickedLoss, hweight, zero_mul, ite_self]
  · obtain ⟨owner, howner, hpicks⟩ := picks_of_located htp hvalid hlocated hrow hweight
    rw [sum_eq_single owner]
    · rw [pickedLoss, if_pos ((hpicks owner).1.mpr rfl), (hpicks owner).2, LossArgs.rowLoss]
    · intro rank _ hother
      rw [pickedLoss, if_neg fun h => hother ((hpicks rank).1.mp h)]
    · intro hout
      exact absurd (mem_range.mpr howner) hout

theorem sum_pickedWeight {row : ℕ} (hrow : row < args.batchSize) :
    ∑ rank ∈ range tpSize, (if Picks args vocabSize tpSize rank row then args.rowWeight row else 0) =
      args.rowWeight row := by
  by_cases hweight : args.rowWeight row = 0
  · rw [hweight]
    exact sum_eq_zero fun rank _ => ite_self 0
  · obtain ⟨owner, howner, hpicks⟩ := picks_of_located htp hvalid hlocated hrow hweight
    rw [sum_eq_single owner]
    · rw [if_pos ((hpicks owner).1.mpr rfl)]
    · intro rank _ hother
      rw [if_neg fun h => hother ((hpicks rank).1.mp h)]
    · intro hout
      exact absurd (mem_range.mpr howner) hout

theorem sum_localWeight :
    ∑ rank ∈ range tpSize, (localNll args vocabSize (shardLogits vocabSize tpSize x) rank).2 =
      args.targetWeight := by
  rw [sum_congr rfl fun rank _ => localNll_weight rank, sum_comm]
  exact sum_congr rfl fun row hrow =>
    sum_pickedWeight htp hvalid hlocated (mem_range.mp hrow)

end

end Ranks

/-! ## The two gradients -/

section Gradient

variable {args : LossArgs} {vocabSize tpSize : ℕ} {x : ℕ → ℕ → ℝ}

noncomputable def backwardScale (args : LossArgs) (totalWeight : ℝ) (gradOutput : ℕ → ℝ)
    (row : ℕ) : ℝ :=
  match args.reduction with
  | .mean => gradOutput 0 / max totalWeight (1 / 10 ^ 12)
  | .sum => gradOutput 0
  | .none => gradOutput row

noncomputable def plainScale (args : LossArgs) (gradOutput : ℕ → ℝ) (row : ℕ) : ℝ :=
  match args.reduction with
  | .mean => gradOutput 0 / args.targetWeight
  | .sum => gradOutput 0
  | .none => gradOutput row

noncomputable def softmaxMinus (vocabSize : ℕ) (x : ℕ → ℕ → ℝ) (row c : ℕ) (picked : Prop)
    [Decidable picked] : ℝ :=
  softmax (range vocabSize) (x row) c - if picked then 1 else 0

theorem weighted_eq {row : ℕ} (hne : args.target row ≠ args.ignoreIndex) (scale : ℝ) :
    weighted args.sampleWeights scale row = scale * args.rowWeight row := by
  rw [LossArgs.rowWeight, if_neg hne, LossArgs.sampleWeights]
  cases hweight : args.weight with
  | none => simp only [Option.map_none, weighted, LossArgs.classWeight, hweight, mul_one]
  | some weight =>
    simp only [Option.map_some, weighted, LossArgs.classWeight, hweight, if_pos hne]

theorem gradient_eq (htp : 0 < tpSize) (hvocab : 0 < vocabSize) (gradOutput : ℕ → ℝ)
    {rank row c : ℕ} (hrow : row < args.batchSize) :
    computeCrossEntropyGradient args
        (savedContext args vocabSize (shardLogits vocabSize tpSize x) rank) gradOutput row c =
      backwardScale args (totalWeight args vocabSize (shardLogits vocabSize tpSize x)) gradOutput
          row * args.rowWeight row *
        softmaxMinus vocabSize x row (shardStart vocabSize tpSize rank + c)
          (Picks args vocabSize tpSize rank row ∧
            shardStart vocabSize tpSize rank + c = pickedClass args vocabSize tpSize rank row) := by
  have hsoftmax : Real.exp (distributedLogSoftmax (shardLogits vocabSize tpSize x) rank row c) =
      softmax (range vocabSize) (x row) (shardStart vocabSize tpSize rank + c) := by
    rw [distributedLogSoftmax_eq htp hvocab, softmax]
  by_cases hignored : args.target row = args.ignoreIndex
  · have hsome : ¬∀ other ∈ range args.batchSize, args.target other ≠ args.ignoreIndex :=
      fun h => h row (mem_range.mpr hrow) hignored
    rw [LossArgs.rowWeight, if_pos hignored, mul_zero, zero_mul, computeCrossEntropyGradient]
    simp only [if_neg hsome, ne_eq, hignored, not_true_eq_false, if_false]
  · have hkept : ∀ (b : ℝ),
        (if ∀ other ∈ range args.batchSize, args.target other ≠ args.ignoreIndex then b
          else if args.target row ≠ args.ignoreIndex then b else 0) = b := by
      intro b
      rw [if_pos hignored, ite_self]
    have hscale : ∀ scale : ℝ, weighted args.sampleWeights scale row =
        scale * args.rowWeight row := weighted_eq hignored
    let weight := totalWeight args vocabSize (shardLogits vocabSize tpSize x)
    have hplace : shardStart vocabSize tpSize rank + c = pickedClass args vocabSize tpSize rank row ↔
        c = (args.target row - computeVocabStart vocabSize tpSize rank).toNat :=
      Nat.add_left_cancel_iff
    rw [computeCrossEntropyGradient]
    refine (hkept _).trans ?_
    by_cases hpicks : Picks args vocabSize tpSize rank row
    · refine (if_pos ⟨row, mem_filter.mpr ⟨mem_range.mpr hrow, hpicks⟩⟩).trans ?_
      have hlocal : (if Picks args vocabSize tpSize rank row then
          (args.target row - computeVocabStart vocabSize tpSize rank).toNat else 0) =
            (args.target row - computeVocabStart vocabSize tpSize rank).toNat := if_pos hpicks
      by_cases hclass : c = (args.target row - computeVocabStart vocabSize tpSize rank).toNat
      · refine (if_pos ⟨hpicks, hclass.trans hlocal.symm⟩).trans ?_
        show Real.exp (distributedLogSoftmax (shardLogits vocabSize tpSize x) rank row c) *
          weighted args.sampleWeights (backwardScale args weight gradOutput row) row +
            weighted args.sampleWeights (-backwardScale args weight gradOutput row) row = _
        rw [hscale, hscale, softmaxMinus, if_pos ⟨hpicks, hplace.mpr hclass⟩, hsoftmax]
        ring
      · refine (if_neg fun h => hclass (h.2.trans hlocal)).trans ?_
        show Real.exp (distributedLogSoftmax (shardLogits vocabSize tpSize x) rank row c) *
          weighted args.sampleWeights (backwardScale args weight gradOutput row) row = _
        rw [hscale, softmaxMinus, if_neg fun h => hclass (hplace.mp h.2), hsoftmax]
        ring
    · have hplain : ∀ (p : Prop) [Decidable p] (a b : ℝ),
          (if p then if Picks args vocabSize tpSize rank row ∧
            c = (if Picks args vocabSize tpSize rank row then
              (args.target row - computeVocabStart vocabSize tpSize rank).toNat else 0) then a
            else b else b) = b := by
        intro p _ a b
        simp only [hpicks, false_and, if_false, ite_self]
      refine (hplain _ _ _).trans ?_
      show Real.exp (distributedLogSoftmax (shardLogits vocabSize tpSize x) rank row c) *
        weighted args.sampleWeights (backwardScale args weight gradOutput row) row = _
      rw [hscale, softmaxMinus, if_neg fun h => hpicks h.1, hsoftmax]
      ring

theorem rowLoss_withLogit_of_ne {row other : ℕ} (hne : other ≠ row) (c : ℕ) (v : ℝ) :
    args.rowLoss vocabSize (withLogit x row c v) other = args.rowLoss vocabSize x other := by
  rw [LossArgs.rowLoss, LossArgs.rowLoss, withLogit, Function.update_of_ne hne]

theorem hasDerivAt_rowLoss {row c : ℕ} (hc : c < vocabSize) :
    HasDerivAt (fun v => args.rowLoss vocabSize (withLogit x row c v) row)
      (args.rowWeight row * softmaxMinus vocabSize x row c (c = (args.target row).toNat))
      (x row c) := by
  have hnormalizer := hasDerivAt_logSumExp (x := x row) (mem_range.mpr hc)
  have hpicked : HasDerivAt (fun v => Function.update (x row) c v (args.target row).toNat)
      (if c = (args.target row).toNat then 1 else 0) (x row c) := by
    by_cases hsame : c = (args.target row).toNat
    · rw [if_pos hsame, ← hsame]
      simp only [Function.update_self]
      exact hasDerivAt_id _
    · rw [if_neg hsame]
      simp only [Function.update_of_ne (Ne.symm hsame)]
      exact hasDerivAt_const _ _
  have hrow := (hnormalizer.sub hpicked).const_mul (args.rowWeight row)
  simp only [LossArgs.rowLoss, withLogit, Function.update_self]
  exact hrow

theorem upstreamLoss_eq (gradOutput : ℕ → ℝ) (x : ℕ → ℕ → ℝ) :
    args.upstreamLoss vocabSize gradOutput x =
      ∑ row ∈ range args.batchSize, plainScale args gradOutput row * args.rowLoss vocabSize x row := by
  rw [LossArgs.upstreamLoss]
  cases hred : args.reduction with
  | none => simp only [LossArgs.lossSize, LossArgs.crossEntropy, plainScale, hred]
  | sum =>
    simp only [LossArgs.lossSize, LossArgs.crossEntropy, plainScale, hred, sum_range_one, mul_sum]
  | mean =>
    simp only [LossArgs.lossSize, LossArgs.crossEntropy, plainScale, hred, sum_range_one,
      sum_div, mul_sum]
    exact sum_congr rfl fun row _ => by ring

theorem hasDerivAt_upstreamLoss (gradOutput : ℕ → ℝ) {row c : ℕ} (hrow : row < args.batchSize)
    (hc : c < vocabSize) :
    HasDerivAt (fun v => args.upstreamLoss vocabSize gradOutput (withLogit x row c v))
      (plainScale args gradOutput row * args.rowWeight row *
        softmaxMinus vocabSize x row c (c = (args.target row).toNat)) (x row c) := by
  simp only [upstreamLoss_eq]
  have hterms : ∀ other ∈ range args.batchSize,
      HasDerivAt (fun v => plainScale args gradOutput other *
          args.rowLoss vocabSize (withLogit x row c v) other)
        (if other = row then plainScale args gradOutput row *
          (args.rowWeight row * softmaxMinus vocabSize x row c (c = (args.target row).toNat))
        else 0) (x row c) := by
    intro other _
    by_cases hsame : other = row
    · subst hsame
      rw [if_pos rfl]
      exact (hasDerivAt_rowLoss hc).const_mul _
    · rw [if_neg hsame]
      simp only [rowLoss_withLogit_of_ne hsame]
      exact hasDerivAt_const _ _
  have hsum := HasDerivAt.fun_sum hterms
  rw [sum_ite_eq' (range args.batchSize) row, if_pos (mem_range.mpr hrow), ← mul_assoc] at hsum
  exact hsum

end Gradient

end HyperParallel.Losses
