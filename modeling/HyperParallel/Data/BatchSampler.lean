import HyperParallel.Foundation.Dealing
import HyperParallel.Foundation.PySequence

/-!
# Batch samplers

Every data-parallel rank has a sampler of its own.  All of them walk one order
of the samples with one global cursor, and each hands out its part of every
global micro-batch.
-/

namespace HyperParallel.Data

open Foundation

/-- `random.Random(key).shuffle`: which order it gives is left open. -/
structure Shuffle where
  run : Int → List Nat → List Nat
  perm : ∀ key xs, (run key xs).Perm xs

inductive SamplerType where
  | single
  | cyclic (dataSharding : Bool) (seed : Int)
  deriving DecidableEq, Repr

structure SamplerOptions where
  totalSamples : Nat
  microBatchSize : Nat
  globalBatchSize : Nat
  dropLast : Bool
  indexMapping : Option (Nat → Int)
  samplerType : SamplerType

structure Sampler extends SamplerOptions where
  dpRank : Nat
  dpWorldSize : Nat
  consumedSamples : Nat
  epoch : Nat
  resumeAtSourceBatch : Bool
  totalSamples_pos : 0 < totalSamples
  microBatchSize_pos : 0 < microBatchSize
  dpRank_lt : dpRank < dpWorldSize
  globalBatchSize_pos : 0 < globalBatchSize
  dvd : microBatchSize * dpWorldSize ∣ globalBatchSize

/-- What `state_dict` returns. -/
structure SamplerState where
  consumedSamples : Nat
  epoch : Nat
  globalBatchSize : Nat
  dpWorldSize : Nat
  deriving DecidableEq, Repr

/-- `_DatasetBatchSampler.__init__` -/
def newBatchSampler (options : SamplerOptions) (consumedSamples dpRank dpWorldSize : Nat) :
    Except String Sampler :=
  if htotal : options.totalSamples = 0 then
    .error "total_samples must be a positive integer"
  else if hmicro : options.microBatchSize = 0 then
    .error "micro_batch_size must be a positive integer"
  else if dpWorldSize = 0 then
    .error "dp_world_size must be a positive integer"
  else if consumedSamples > options.totalSamples then
    .error "consumed_samples must be in [0, total_samples]"
  else if hrank : ¬ dpRank < dpWorldSize then
    .error "dp_rank must be in [0, dp_world_size)"
  else if hglobal : options.globalBatchSize = 0 then
    .error "global_batch_size must be a positive integer"
  else if hdvd : ¬ options.microBatchSize * dpWorldSize ∣ options.globalBatchSize then
    .error "global_batch_size must be divisible by micro_batch_size * dp_world_size"
  else
    .ok { options with
      dpRank := dpRank
      dpWorldSize := dpWorldSize
      consumedSamples := consumedSamples
      epoch := 0
      resumeAtSourceBatch := false
      totalSamples_pos := by omega
      microBatchSize_pos := by omega
      dpRank_lt := by omega
      globalBatchSize_pos := by omega
      dvd := not_not.mp hdvd }

/-- `build_dataset_batch_sampler` -/
def buildDatasetBatchSampler (options : SamplerOptions) (consumedSamples dpRank dpWorldSize : Nat) :
    Except String Sampler :=
  match options.samplerType with
  | .single => newBatchSampler options consumedSamples dpRank dpWorldSize
  | .cyclic _ _ =>
    if options.indexMapping.isSome then
      .error "cyclic sampling does not support a rearrangement map"
    else do
      let sampler ← newBatchSampler options consumedSamples dpRank dpWorldSize
      if options.dropLast then .ok sampler
      else .error "cyclic sampling requires drop_last=True"

/-- The batches a sampler yields, each with the cursor it has by then, and the cursor at the end. -/
structure Trace where
  yields : List (List Int × Nat)
  exhausted : Nat

namespace Sampler

variable (sampler : Sampler)

def globalMicroBatchSize : Nat := sampler.microBatchSize * sampler.dpWorldSize

theorem globalMicroBatchSize_pos : 0 < sampler.globalMicroBatchSize :=
  Nat.mul_pos sampler.microBatchSize_pos (Nat.zero_lt_of_lt sampler.dpRank_lt)

/-- `_resolve_index` -/
def resolveIndex (logicalIndex : Nat) : Int :=
  match sampler.indexMapping with
  | none => logicalIndex
  | some mapping => mapping logicalIndex

/-- `_DatasetBatchSampler.__iter__` -/
def iterSingle (consumedSamples : Nat) : Trace :=
  if _h : consumedSamples < sampler.totalSamples then
    let blockStart := consumedSamples
    let blockStop := min (blockStart + sampler.globalMicroBatchSize) sampler.totalSamples
    let blockSize := blockStop - blockStart
    if sampler.dropLast ∧ blockSize < sampler.globalMicroBatchSize then
      { yields := [], exhausted := sampler.totalSamples }
    else
      let localStart := blockStart + sampler.dpRank * sampler.microBatchSize
      let localStop := min (localStart + sampler.microBatchSize) blockStop
      let later := iterSingle blockStop
      if localStart ≥ blockStop then later
      else
        let localIndices := (List.range (localStop - localStart)).map fun offset =>
          sampler.resolveIndex (localStart + offset)
        { later with yields := (localIndices, blockStop) :: later.yields }
  else { yields := [], exhausted := consumedSamples }
termination_by sampler.totalSamples - consumedSamples
decreasing_by
  have := sampler.globalMicroBatchSize_pos
  omega

/-- `_active_samples` -/
def activeSamples : Except String Nat :=
  let active := sampler.totalSamples - sampler.totalSamples % sampler.globalMicroBatchSize
  if active ≤ 0 then .error "cyclic Dataset must contain one complete global micro-batch"
  else .ok active

def rankIndices (shuffle : Shuffle) (dataSharding : Bool) (seed : Int) (active : Nat) : List Nat :=
  if dataSharding then
    let bucketSize := active / sampler.dpWorldSize
    let bucketOffset := sampler.consumedSamples / sampler.dpWorldSize
    let bucketStart := sampler.dpRank * bucketSize
    let randomOffsets := shuffle.run (seed + sampler.epoch) (List.range bucketSize)
    (randomOffsets.drop bucketOffset).map fun offset => bucketStart + offset
  else
    let shuffledIndices := shuffle.run (seed + sampler.epoch) (List.range sampler.totalSamples)
    let activeIndices := (shuffledIndices.take active).drop sampler.consumedSamples
    Dealing.strided sampler.dpRank sampler.dpWorldSize activeIndices

/-- `_CyclicDatasetBatchSampler.__iter__` -/
def iterCyclic (shuffle : Shuffle) (dataSharding : Bool) (seed : Int) : Except String Trace := do
  let active ← sampler.activeSamples
  if sampler.consumedSamples % sampler.globalMicroBatchSize ≠ 0 then
    .error "cyclic consumed_samples must align to a distributed micro-batch"
  else
    let batches := Dealing.groups sampler.microBatchSize []
      (sampler.rankIndices shuffle dataSharding seed active)
    .ok {
      yields := batches.mapIdx fun count batch =>
        (batch.map fun index : Nat => (index : Int),
          sampler.consumedSamples + (count + 1) * sampler.globalMicroBatchSize)
      exhausted := sampler.consumedSamples + batches.length * sampler.globalMicroBatchSize }

def iterate (shuffle : Shuffle) : Except String Trace :=
  match sampler.samplerType with
  | .single => .ok (sampler.iterSingle sampler.consumedSamples)
  | .cyclic dataSharding seed => sampler.iterCyclic shuffle dataSharding seed

def stateDict : SamplerState :=
  { consumedSamples := sampler.consumedSamples
    epoch := sampler.epoch
    globalBatchSize := sampler.globalBatchSize
    dpWorldSize := sampler.dpWorldSize }

/-- `_DatasetBatchSampler.load_state_dict` -/
def loadDatasetState (state : SamplerState) : Except String Sampler :=
  if state.consumedSamples > sampler.totalSamples then
    .error "consumed_samples must be in [0, total_samples]"
  else if state.globalBatchSize ≠ sampler.globalBatchSize then
    if sampler.resumeAtSourceBatch then
      .error "Online dataloader resume requires an unchanged global_batch_size"
    else .error "elastic DP resume requires an unchanged global_batch_size"
  else if sampler.resumeAtSourceBatch ∧ state.dpWorldSize ≠ sampler.dpWorldSize then
    .error "Online dataloader resume does not support DP world-size changes"
  else if sampler.resumeAtSourceBatch ∧ state.consumedSamples ≠ sampler.totalSamples ∧
      state.consumedSamples % sampler.globalMicroBatchSize ≠ 0 then
    .error "Online source sampler state must align to a distributed micro-batch"
  else if ¬ sampler.resumeAtSourceBatch ∧ state.consumedSamples % sampler.globalBatchSize ≠ 0 then
    .error "sampler state must align to a global optimizer batch"
  else .ok { sampler with consumedSamples := state.consumedSamples, epoch := state.epoch }

/-- `load_state_dict` of either class -/
def loadStateDict (state : SamplerState) : Except String Sampler :=
  match sampler.samplerType with
  | .cyclic true _ =>
    if state.dpWorldSize ≠ sampler.dpWorldSize then
      .error "elastic DP resume requires data_sharding=False"
    else sampler.loadDatasetState state
  | _ => sampler.loadDatasetState state

def setEpoch (epoch : Nat) : Sampler :=
  if epoch ≠ sampler.epoch then { sampler with consumedSamples := 0, epoch := epoch } else sampler

end Sampler

end HyperParallel.Data
