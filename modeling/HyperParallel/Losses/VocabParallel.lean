import HyperParallel.DTensor.Slice
import HyperParallel.Foundation.LogSumExp

/-!
# Vocab-parallel cross entropy

The class dimension of the logits is sharded over the ranks of one mesh axis.
Each rank normalizes its shard with two all-reduces, picks the log-probability
of the targets in its class range, and the picked losses are summed over the
ranks.  The backward pass is written by hand from what the forward pass saved.

A tensor of some shape is a function of its indices, read inside the shape.
-/

namespace HyperParallel.Losses

open Finset DTensor Foundation

inductive Reduction where
  | none
  | sum
  | mean
  deriving DecidableEq, Repr

theorem tenAtLeastTwo : Nat.AtLeastTwo 10 := ⟨by decide⟩

attribute [local instance] tenAtLeastTwo

/-- The arguments every rank is called with. -/
structure LossArgs where
  batchSize : ℕ
  target : ℕ → ℤ
  weight : Option (ℤ → ℝ)
  ignoreIndex : ℤ
  reduction : Reduction

structure LocalLogits where
  tpSize : ℕ
  localVocabSize : ℕ → ℕ
  logits : ℕ → ℕ → ℕ → ℝ

def computeVocabStart (vocabSize tpSize rank : ℕ) : ℕ :=
  let chunkSize := (vocabSize + tpSize - 1) / tpSize
  rank * chunkSize

/-! ## Log-softmax -/

section LogSoftmax

variable (shards : LocalLogits)

noncomputable def maxLocal (rank row : ℕ) : ℝ :=
  ⨆ c : Fin (shards.localVocabSize rank), shards.logits rank row c

noncomputable def maxGlobal (row : ℕ) : ℝ :=
  ⨆ rank : Fin shards.tpSize, maxLocal shards rank row

noncomputable def sumLocal (rank row : ℕ) : ℝ :=
  ∑ c ∈ range (shards.localVocabSize rank),
    Real.exp (shards.logits rank row c - maxGlobal shards row)

noncomputable def sumGlobal (row : ℕ) : ℝ :=
  ∑ rank ∈ range shards.tpSize, sumLocal shards rank row

noncomputable def distributedLogSoftmax (rank row c : ℕ) : ℝ :=
  shards.logits rank row c - maxGlobal shards row - Real.log (sumGlobal shards row)

end LogSoftmax

/-! ## The loss -/

namespace LossArgs

variable (args : LossArgs)

def targetMask (vocabStart vocabEnd row : ℕ) : Prop :=
  ((vocabStart : ℤ) ≤ args.target row ∧ args.target row < vocabEnd) ∧
    args.target row ≠ args.ignoreIndex

instance (vocabStart vocabEnd row : ℕ) : Decidable (args.targetMask vocabStart vocabEnd row) :=
  inferInstanceAs (Decidable (_ ∧ _))

def lossSize : ℕ :=
  match args.reduction with
  | .none => args.batchSize
  | .sum | .mean => 1

end LossArgs

noncomputable def selectedLogProbs (args : LossArgs) (logProbs : ℕ → ℕ → ℝ)
    (vocabStart row : ℕ) : ℝ :=
  let localTarget := (args.target row - vocabStart).toNat
  match args.weight with
  | some weight => logProbs row localTarget * weight (args.target row)
  | none => logProbs row localTarget

/-- `distributed_nll_loss_forward`: the local loss and the local weight. -/
noncomputable def distributedNllLossForward (args : LossArgs) (logProbs : ℕ → ℕ → ℝ)
    (vocabStart vocabEnd : ℕ) : (ℕ → ℝ) × ℝ :=
  let masked := (range args.batchSize).filter fun row => args.targetMask vocabStart vocabEnd row
  if masked.Nonempty then
    let selected := selectedLogProbs args logProbs vocabStart
    let totalWeight :=
      match args.weight with
      | some weight => ∑ row ∈ masked, weight (args.target row)
      | none => masked.card
    let loss :=
      match args.reduction with
      | .none => fun row => if row ∈ masked then -selected row else 0
      | .sum | .mean => fun _ => ∑ row ∈ masked, -selected row
    (loss, totalWeight)
  else (fun _ => 0, 0)

/-- What `forward` saves for `backward`. -/
structure CrossEntropyContext where
  logProbsLocal : ℕ → ℕ → ℝ
  totalWeight : ℝ
  vocabStart : ℕ
  vocabEnd : ℕ

section Forward

variable (args : LossArgs) (vocabSize : ℕ) (shards : LocalLogits)

noncomputable def localNll (rank : ℕ) : (ℕ → ℝ) × ℝ :=
  let vocabStart := computeVocabStart vocabSize shards.tpSize rank
  distributedNllLossForward args (distributedLogSoftmax shards rank) vocabStart
    (vocabStart + shards.localVocabSize rank)

/-- The weight after the all-reduce of `mean`; the other reductions save a zero. -/
noncomputable def totalWeight : ℝ :=
  match args.reduction with
  | .mean => ∑ rank ∈ range shards.tpSize, (localNll args vocabSize shards rank).2
  | .none | .sum => 0

noncomputable def savedContext (rank : ℕ) : CrossEntropyContext :=
  let vocabStart := computeVocabStart vocabSize shards.tpSize rank
  { logProbsLocal := distributedLogSoftmax shards rank
    totalWeight := totalWeight args vocabSize shards
    vocabStart := vocabStart
    vocabEnd := vocabStart + shards.localVocabSize rank }

/-- `DistributedCrossEntropyFunction.forward`; a mean over no weight is not a number. -/
noncomputable def forward (rank : ℕ) : Option (ℕ → ℝ) :=
  let localLoss := (localNll args vocabSize shards rank).1
  let reducedLoss := fun k =>
    ∑ rank ∈ range shards.tpSize, (localNll args vocabSize shards rank).1 k
  match args.reduction with
  | .none => some localLoss
  | .sum => some reducedLoss
  | .mean =>
    let weight := totalWeight args vocabSize shards
    if weight = 0 then none else some fun k => reducedLoss k / weight

end Forward

/-! ## The gradient -/

noncomputable def LossArgs.sampleWeights (args : LossArgs) : Option (ℕ → ℝ) :=
  args.weight.map fun weight row =>
    weight (if args.target row ≠ args.ignoreIndex then args.target row else 0)

noncomputable def weighted (sampleWeights : Option (ℕ → ℝ)) (scale : ℝ) (row : ℕ) : ℝ :=
  match sampleWeights with
  | some weights => scale * weights row
  | none => scale

/-- `_compute_cross_entropy_gradient` -/
noncomputable def computeCrossEntropyGradient (args : LossArgs) (state : CrossEntropyContext)
    (gradOutput : ℕ → ℝ) : ℕ → ℕ → ℝ :=
  let softmaxLocal row c := Real.exp (state.logProbsLocal row c)
  let ignoreMask row := args.target row ≠ args.ignoreIndex
  let gradScale row :=
    match args.reduction with
    | .mean => gradOutput 0 / max state.totalWeight (1 / 10 ^ 12)
    | .sum => gradOutput 0
    | .none => gradOutput row
  let inVocab row := args.targetMask state.vocabStart state.vocabEnd row
  let gradInput row c := softmaxLocal row c * weighted args.sampleWeights (gradScale row) row
  let localTargets row := if inVocab row then (args.target row - state.vocabStart).toNat else 0
  let gradValues row := weighted args.sampleWeights (-gradScale row) row
  let gradPicked row c :=
    if ((range args.batchSize).filter inVocab).Nonempty then
      if inVocab row ∧ c = localTargets row then gradInput row c + gradValues row
      else gradInput row c
    else gradInput row c
  fun row c =>
    if ∀ other ∈ range args.batchSize, ignoreMask other then gradPicked row c
    else if ignoreMask row then gradPicked row c
    else 0

/-! ## The plain loss -/

namespace LossArgs

variable (args : LossArgs)

noncomputable def classWeight (t : ℤ) : ℝ :=
  match args.weight with
  | some weight => weight t
  | none => 1

noncomputable def rowWeight (row : ℕ) : ℝ :=
  if args.target row = args.ignoreIndex then 0 else args.classWeight (args.target row)

noncomputable def targetWeight : ℝ :=
  ∑ row ∈ range args.batchSize, args.rowWeight row

noncomputable def rowLoss (vocabSize : ℕ) (x : ℕ → ℕ → ℝ) (row : ℕ) : ℝ :=
  args.rowWeight row * (logSumExp (range vocabSize) (x row) - x row (args.target row).toNat)

noncomputable def crossEntropy (vocabSize : ℕ) (x : ℕ → ℕ → ℝ) : ℕ → ℝ :=
  match args.reduction with
  | .none => args.rowLoss vocabSize x
  | .sum => fun _ => ∑ row ∈ range args.batchSize, args.rowLoss vocabSize x row
  | .mean => fun _ =>
    (∑ row ∈ range args.batchSize, args.rowLoss vocabSize x row) / args.targetWeight

noncomputable def upstreamLoss (vocabSize : ℕ) (gradOutput : ℕ → ℝ) (x : ℕ → ℕ → ℝ) : ℝ :=
  ∑ k ∈ range args.lossSize, gradOutput k * args.crossEntropy vocabSize x k

end LossArgs

/-! ## Sharded logits -/

def shardStart (vocabSize tpSize rank : ℕ) : ℕ :=
  (inferBalancedChunkRange vocabSize tpSize rank).1

def shardSize (vocabSize tpSize rank : ℕ) : ℕ :=
  (inferBalancedChunkRange vocabSize tpSize rank).2 -
    (inferBalancedChunkRange vocabSize tpSize rank).1

/-- The local logits as `Shard(-1)` cuts them. -/
def shardLogits (vocabSize tpSize : ℕ) (x : ℕ → ℕ → ℝ) : LocalLogits where
  tpSize := tpSize
  localVocabSize := shardSize vocabSize tpSize
  logits rank row c := x row (shardStart vocabSize tpSize rank + c)

noncomputable def withLogit (x : ℕ → ℕ → ℝ) (row c : ℕ) (v : ℝ) : ℕ → ℕ → ℝ :=
  Function.update x row (Function.update (x row) c v)

/-- On every rank the loss is the plain one, and the gradient is the rank's class slice of the
derivatives of the plain one, for every upstream gradient. -/
structure EqualsPlain (args : LossArgs) (vocabSize tpSize : ℕ) (x : ℕ → ℕ → ℝ) : Prop where
  loss : ∀ rank < tpSize, ∃ loss,
    forward args vocabSize (shardLogits vocabSize tpSize x) rank = some loss ∧
      ∀ k < args.lossSize, loss k = args.crossEntropy vocabSize x k
  gradient : ∀ rank < tpSize, ∀ gradOutput, ∀ row < args.batchSize,
    ∀ c < shardSize vocabSize tpSize rank,
      HasDerivAt
        (fun v => args.upstreamLoss vocabSize gradOutput
          (withLogit x row (shardStart vocabSize tpSize rank + c) v))
        (computeCrossEntropyGradient args
          (savedContext args vocabSize (shardLogits vocabSize tpSize x) rank) gradOutput row c)
        (x row (shardStart vocabSize tpSize rank + c))

end HyperParallel.Losses
