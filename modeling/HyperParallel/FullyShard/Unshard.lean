import HyperParallel.Foundation.StorageHeap
import HyperParallel.FullyShard.ParamGroup

/-!
# Fused unsharding of one parameter group

Each rank keeps the padded shard of every parameter in some storage.  Unsharding
gathers the shards of one group and dtype with one collective, from a flat buffer
that the shards live in or from a copy of them, and unpacks the rows into the full
parameters.  A parameter that one rank holds alone is used in place.

A rank has its own memory; the collective is the only step where ranks meet.
-/

namespace HyperParallel.FullyShard

open Foundation Foundation.StorageHeap

structure UnshardConfig (K : Type) (count : Nat) where
  origDtype : Fin count → DType
  paramDtype : Fin count → Option DType
  offloadToCpu : Fin count → Bool
  enableZeroCopy : Bool
  cast : DType → DType → K → K

namespace UnshardConfig

variable {K : Type} {count : Nat} (config : UnshardConfig K count)

def communicationDtype (i : Fin count) : DType := (config.paramDtype i).getD (config.origDtype i)

/-- `tensor.to(dtype)`, which leaves a tensor of that dtype alone. -/
def toDtype (source target : DType) (value : K) : K :=
  if source = target then value else config.cast source target value

def convert (i : Fin count) : K → K := config.toDtype (config.origDtype i) (config.communicationDtype i)

/-- The shard itself is what is gathered, not a copy of it. -/
def inPlace (i : Fin count) : Bool :=
  config.communicationDtype i = config.origDtype i && !config.offloadToCpu i

end UnshardConfig

inductive UnshardError where
  | notSharded
  | notUnsharded
  | noBuffer
  deriving DecidableEq, Repr

structure RankState (K : Type) (count : Nat) where
  memory : Memory K
  /-- the padded shard; the local tensor is its first elements -/
  shardedParamData : Fin count → Slice
  flatParamBuffer : BucketKey → Option Slice
  allGatherOutput : BucketKey → Option (Nat → Nat → K)
  /-- the unsharded buffer of a parameter that one rank holds -/
  soleParamBuffer : Fin count → Option Slice
  /-- the unsharded buffer of a gathered parameter, which shares no storage -/
  gatheredParamBuffer : Fin count → Option (Nat → K)
  unsharded : Fin count → Bool

/-! ## Packing and unpacking one parameter -/

namespace HsdpParam

variable {K : Type} [Zero K] (param : HsdpParam) (worldSize : Nat)

def catRows (rows : Nat → Nat → K) (position : Nat) : K :=
  let inner := (param.shape.drop (param.shardDim + 1)).prod
  let extent := param.shape.getD param.shardDim 0
  let localRow := extent / worldSize * inner
  let outer := position / (extent * inner)
  let within := position % (extent * inner)
  rows (within / localRow) (outer * localRow + within % localRow)

/-- `copy_out` of one parameter: rows of padded shards into the full parameter. -/
def unpack (rows : Nat → Nat → K) (position : Nat) : K :=
  if param.shardDim = 0 then
    rows (position / param.paddedNumel worldSize) (position % param.paddedNumel worldSize)
  else param.catRows worldSize rows position

/-- `torch._chunk_cat` along dimension 0: full rows, with zeros behind the last element. -/
def chunkCat (grad : Nat → K) : Except CommError (Nat → Nat → K) :=
  let rows := (param.shape.getD param.shardDim 0 + worldSize - 1) / worldSize
  let inner := (param.shape.drop (param.shardDim + 1)).prod
  if param.shape.prod = 0 then .error .emptyGradient
  else .ok fun row column =>
    if row * (rows * inner) + column < param.shape.prod then grad (row * (rows * inner) + column)
    else 0

/-- `torch.chunk` along the shard dimension, then `torch.cat` along dimension 0. -/
def catChunks (grad : Nat → K) : Nat → Nat → K :=
  let positions := (List.range worldSize).flatMap (param.chunk worldSize)
  fun row column =>
    match positions[row * (positions.length / worldSize) + column]? with
    | some position => grad position
    | none => 0

def packGrad (grad : Nat → K) : Except CommError (Nat → Nat → K) :=
  if param.shardDim = 0 then param.chunkCat worldSize grad
  else .ok (param.catChunks worldSize grad)

end HsdpParam

namespace ParamGroup

variable {Rank : Type} [DecidableEq Rank] (unit : ParamGroup Rank) {K : Type} [Zero K]
  (config : UnshardConfig K unit.count)

def shardWorldSize (i : Fin unit.count) : Nat := unit.worldSize (unit.param i).shardGroup

def localNumel (i : Fin unit.count) (rank : Rank) : Nat := (unit.shard i rank).length

def shardValue (state : RankState K unit.count) (i : Fin unit.count) (j : Nat) : K :=
  state.memory.read (state.shardedParamData i) j

/-! ## Buckets -/

def allGatherKey (i : Fin unit.count) : BucketKey :=
  ((unit.param i).shardGroup, config.communicationDtype i)

def allGatherBuckets : List (BucketKey × List (Fin unit.count)) :=
  (PyDict.group ((List.finRange unit.count).filterMap fun i =>
    if unit.shardWorldSize i ≤ 1 then none else some (unit.allGatherKey config i, i))).entries

def initFlatParamBuffer (state : RankState K unit.count)
    (bucket : BucketKey × List (Fin unit.count)) : RankState K unit.count :=
  match bucket.2 with
  | [] => state
  | first :: rest =>
    if (rest.any fun i => decide (config.origDtype i ≠ config.origDtype first)) ∨
        (bucket.2.any fun i => config.offloadToCpu i) then
      { state with flatParamBuffer := Function.update state.flatParamBuffer bucket.1 none }
    else
      { state with
        memory := state.memory.alloc
          (Packing.pack unit.paddedNumel (unit.shardValue state) bucket.2)
        shardedParamData := (Packing.layoutFrom unit.paddedNumel 0 bucket.2).foldl
          (fun shards entry => Function.update shards entry.1
            ⟨state.memory.fresh.storage, entry.2⟩) state.shardedParamData
        flatParamBuffer :=
          Function.update state.flatParamBuffer bucket.1 (some state.memory.fresh) }

def isFlatBufferValid (state : RankState K unit.count)
    (bucket : BucketKey × List (Fin unit.count)) : Option Slice :=
  match state.flatParamBuffer bucket.1 with
  | none => none
  | some flat =>
    if bucket.2.all fun i => (state.shardedParamData i).storage = flat.storage then some flat
    else none

def allGatherInput (state : RankState K unit.count)
    (bucket : BucketKey × List (Fin unit.count)) : Except UnshardError (Nat → K) :=
  match if config.enableZeroCopy then unit.isFlatBufferValid state bucket else none with
  | some flat =>
    .ok fun j => match bucket.2 with
      | [] => state.memory.read flat j
      | first :: _ => config.toDtype (config.origDtype first) bucket.1.2 (state.memory.read flat j)
  | none =>
    if bucket.2.any fun i => state.unsharded i then .error .notSharded
    else .ok (Packing.pack unit.paddedNumel
      (fun i j => config.convert i (unit.shardValue state i j)) bucket.2)

def launchBucket (state : RankState K unit.count)
    (bucket : BucketKey × List (Fin unit.count)) :
    Except UnshardError (RankState K unit.count × (BucketKey × (Nat → K))) := do
  let state :=
    if config.enableZeroCopy ∧ unit.isFlatBufferValid state bucket = none then
      unit.initFlatParamBuffer config state bucket
    else state
  let row ← unit.allGatherInput config state bucket
  return (state, bucket.1, row)

def launchBuckets (state : RankState K unit.count) :
    List (BucketKey × List (Fin unit.count)) →
      Except UnshardError (RankState K unit.count × List (BucketKey × (Nat → K)))
  | [] => .ok (state, [])
  | bucket :: buckets => do
      let (state, row) ← unit.launchBucket config state bucket
      let (state, rows) ← launchBuckets state buckets
      return (state, row :: rows)

/-- `HSDPParamV2.unshard` where no other rank has a part. -/
def unshardSole (state : RankState K unit.count) (i : Fin unit.count) :
    Except UnshardError (RankState K unit.count) :=
  if 1 < unit.shardWorldSize i then .ok state
  else if state.unsharded i then .error .notSharded
  else
    let (memory, input) :=
      if config.inPlace i then (state.memory, state.shardedParamData i)
      else (state.memory.alloc fun j => config.convert i (unit.shardValue state i j),
        state.memory.fresh)
    match state.soleParamBuffer i with
    | none => .ok { state with
        memory := memory
        soleParamBuffer := Function.update state.soleParamBuffer i (some input) }
    | some buffer =>
      if buffer = input then .ok { state with memory := memory }
      else .ok { state with memory := memory.write buffer (unit.paddedNumel i) (memory.read input) }

/-- `HSDPParamGroup.unshard` up to the collectives; a pending one is left to run. -/
def launch (state : RankState K unit.count) :
    Except UnshardError (RankState K unit.count × List (BucketKey × (Nat → K))) :=
  if (unit.allGatherBuckets config).any fun bucket => (state.allGatherOutput bucket.1).isSome then
    .ok (state, [])
  else do
    let state ← (List.finRange unit.count).foldlM (unit.unshardSole config) state
    unit.launchBuckets config state (unit.allGatherBuckets config)

def allGather (sent : Rank → List (BucketKey × (Nat → K))) (rank : Rank)
    (state : RankState K unit.count) : RankState K unit.count :=
  { state with allGatherOutput := fun key =>
      match (sent rank).lookup key with
      | none => state.allGatherOutput key
      | some _ => some fun index =>
        match ((unit.members key.1 rank)[index]?).bind fun other => (sent other).lookup key with
        | some row => row
        | none => 0 }

/-! ## Waiting -/

/-- The first unshard makes the buffer, later ones fill it again. -/
def copyOut (state : RankState K unit.count) (bucket : BucketKey × List (Fin unit.count)) :
    RankState K unit.count :=
  match state.allGatherOutput bucket.1 with
  | none => state
  | some rows =>
    { state with
      gatheredParamBuffer := (Packing.layoutFrom unit.paddedNumel 0 bucket.2).foldl
        (fun buffers entry => Function.update buffers entry.1
          (some ((unit.param entry.1).unpack (unit.shardWorldSize entry.1)
            fun index j => rows index (entry.2 + j)))) state.gatheredParamBuffer
      allGatherOutput := Function.update state.allGatherOutput bucket.1 none }

def waitForUnshardParam (state : RankState K unit.count) (i : Fin unit.count) :
    Except UnshardError (RankState K unit.count) :=
  if state.unsharded i then .error .notSharded
  else if (if 1 < unit.shardWorldSize i then (state.gatheredParamBuffer i).isNone
      else (state.soleParamBuffer i).isNone) then .error .noBuffer
  else .ok { state with unsharded := Function.update state.unsharded i true }

def waitForUnshard (state : RankState K unit.count) :
    Except UnshardError (RankState K unit.count) :=
  (List.finRange unit.count).foldlM unit.waitForUnshardParam
    ((unit.allGatherBuckets config).foldl unit.copyOut state)

def unshardedParam (state : RankState K unit.count) (i : Fin unit.count) (position : Nat) :
    Option K :=
  if 1 < unit.shardWorldSize i then (state.gatheredParamBuffer i).map (· position)
  else (state.soleParamBuffer i).map fun buffer => state.memory.read ⟨buffer.storage, 0⟩ position

/-! ## Sharding again -/

/-- A buffer is freed unless it is the shard itself. -/
def shardParam (state : RankState K unit.count) (i : Fin unit.count) :
    Except UnshardError (RankState K unit.count) :=
  if !state.unsharded i then .error .notUnsharded
  else
    let state := { state with unsharded := Function.update state.unsharded i false }
    if 1 < unit.shardWorldSize i then
      .ok { state with
        gatheredParamBuffer := Function.update state.gatheredParamBuffer i
          ((state.gatheredParamBuffer i).map fun _ _ => 0) }
    else
      match state.soleParamBuffer i with
      | none => .error .noBuffer
      | some buffer =>
        if buffer = state.shardedParamData i then .ok state
        else .ok { state with memory := state.memory.write buffer (unit.paddedNumel i) fun _ => 0 }

def shardAgain (state : RankState K unit.count) :
    Except UnshardError (RankState K unit.count) :=
  (List.finRange unit.count).foldlM unit.shardParam state

/-! ## Packing gradients -/

def copyInSlot (worldSize : Nat) (packed : (Nat → Nat → K) × Nat)
    (entry : Fin unit.count × (Nat → K)) : Except CommError ((Nat → Nat → K) × Nat) := do
  let slot ← (unit.param entry.1).packGrad worldSize entry.2
  let paddedNumel := (unit.param entry.1).paddedNumel worldSize
  return (fun row column =>
    if packed.2 ≤ column ∧ column < packed.2 + paddedNumel then slot row (column - packed.2)
    else packed.1 row column, packed.2 + paddedNumel)

/-- `reduce_scatter_copy_in` into rows of a given length. -/
def reduceScatterCopyIn (worldSize : Nat) (entries : List (Fin unit.count × (Nat → K)))
    (input : Nat → Nat → K) (rowNumel : Nat) : Except CommError (Nat → Nat → K) := do
  let (rows, columnOffset) ← entries.foldlM (unit.copyInSlot worldSize) (input, 0)
  if columnOffset ≠ rowNumel then .error .shapeMismatch
  else return rows

/-! ## The ranks together -/

inductive Edit (Rank K : Type) (count : Nat) where
  /-- in place, as an optimizer step does -/
  | update (rank : Rank) (i : Fin count) (values : Nat → K)
  /-- by a tensor with a storage of its own, as a load or a conversion does -/
  | replace (rank : Rank) (i : Fin count) (values : Nat → K)

abbrev World (Rank K : Type) (count : Nat) := Rank → RankState K count

def padded (i : Fin unit.count) (rank : Rank) (values : Nat → K) (j : Nat) : K :=
  if j < unit.localNumel i rank then values j else 0

def updateShard (rank : Rank) (i : Fin unit.count) (values : Nat → K)
    (state : RankState K unit.count) : RankState K unit.count :=
  { state with
    memory := state.memory.write (state.shardedParamData i) (unit.localNumel i rank) values }

/-- `reset_sharded_param` with new storage. -/
def resetShardedParam (rank : Rank) (i : Fin unit.count) (values : Nat → K)
    (state : RankState K unit.count) : RankState K unit.count :=
  { state with
    memory := state.memory.alloc (unit.padded i rank values)
    shardedParamData := Function.update state.shardedParamData i state.memory.fresh }

def edit (world : World Rank K unit.count) :
    Edit Rank K unit.count → World Rank K unit.count
  | .update rank i values =>
    Function.update world rank (unit.updateShard rank i values (world rank))
  | .replace rank i values =>
    Function.update world rank (unit.resetShardedParam rank i values (world rank))

def Unshard (world world' : World Rank K unit.count) : Prop :=
  ∃ sent : Rank → RankState K unit.count × List (BucketKey × (Nat → K)),
    (∀ rank, unit.launch config (world rank) = .ok (sent rank)) ∧
      ∀ rank, world' rank = unit.allGather (fun other => (sent other).2) rank (sent rank).1

def WaitForUnshard (world world' : World Rank K unit.count) : Prop :=
  ∀ rank, unit.waitForUnshard config (world rank) = .ok (world' rank)

def Shard (world world' : World Rank K unit.count) : Prop :=
  ∀ rank, unit.shardAgain (world rank) = .ok (world' rank)

/-- `HSDPParamV2.unshard` and `wait_for_unshard`: one parameter on its own. -/
def unshardAlone (world : World Rank K unit.count) (i : Fin unit.count) (rank : Rank) :
    Nat → K :=
  if 1 < unit.shardWorldSize i then
    (unit.param i).unpack (unit.shardWorldSize i) fun index j =>
      match (unit.members (unit.param i).shardGroup rank)[index]? with
      | some other => config.convert i (unit.shardValue (world other) i j)
      | none => 0
  else fun position => config.convert i (unit.shardValue (world rank) i position)

/-- Every parameter in a storage of its own. -/
def initWorld (full : Fin unit.count → Nat → K) : World Rank K unit.count := fun rank =>
  { memory := {
      element := fun storage j =>
        if h : storage < unit.count then
          unit.padded ⟨storage, h⟩ rank (fun j =>
            match (unit.shard ⟨storage, h⟩ rank)[j]? with
            | some position => full ⟨storage, h⟩ position
            | none => 0) j
        else 0
      next := unit.count }
    shardedParamData := fun i => ⟨i, 0⟩
    flatParamBuffer := fun _ => none
    allGatherOutput := fun _ => none
    soleParamBuffer := fun _ => none
    gatheredParamBuffer := fun _ => none
    unsharded := fun _ => false }

end ParamGroup

end HyperParallel.FullyShard
