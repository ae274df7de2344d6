import Mathlib.Algebra.Field.Defs
import Mathlib.Data.List.FinRange
import HyperParallel.Foundation.Packing
import HyperParallel.Foundation.PyDict

/-!
# Fused gradient reduction of one parameter group

The gradients of a micro-step are packed into one buffer for each shard group and
dtype, reduce-scattered and averaged.  Without all-reduce the outputs are parked
under the same key; with it they are added back, all-reduced over the replicas and
exposed parameter by parameter.

All ranks run the same steps, so one state describes them together: a buffer has
one size and, on each rank, its own data.
-/

namespace HyperParallel.FullyShard

open Foundation

inductive DType where
  | bfloat16
  | float16
  | float32
  | float64
  deriving DecidableEq, Repr

structure ProcessGroup (Rank : Type) where
  /-- the members of the group a rank is in, in group order -/
  members : Rank → List Rank
  size : Nat
  mem_self : ∀ rank, rank ∈ members rank
  nodup : ∀ rank, (members rank).Nodup
  members_eq : ∀ rank, ∀ other ∈ members rank, members other = members rank
  length_eq : ∀ rank, (members rank).length = size

/-- A group stands for its `id`; `none` where the mesh has no such dimension. -/
structure HsdpParam where
  shape : List Nat
  shardDim : Nat
  shardGroup : Option Nat
  replicateGroup : Option Nat
  reduceDtype : Option DType
  shardDim_lt : shardDim < shape.length

namespace HsdpParam

/-- The flat positions of one chunk of `torch.chunk` along the shard dimension. -/
def chunk (param : HsdpParam) (worldSize index : Nat) : List Nat :=
  let extent := param.shape.getD param.shardDim 0
  let inner := (param.shape.drop (param.shardDim + 1)).prod
  let rows := (extent + worldSize - 1) / worldSize
  let first := min extent (index * rows)
  let last := min extent ((index + 1) * rows)
  (List.range (param.shape.take param.shardDim).prod).flatMap fun outer =>
    List.range' ((outer * extent + first) * inner) ((last - first) * inner)

/-- `padded_sharded_param_size.numel()`: the first chunk is the largest. -/
def paddedNumel (param : HsdpParam) (worldSize : Nat) : Nat := (param.chunk worldSize 0).length

/-- `torch._chunk_cat`, which packs dimension 0, takes no empty gradient. -/
abbrev Unpackable (param : HsdpParam) : Prop := param.shardDim = 0 ∧ param.shape.prod = 0

def packedRow {K : Type} [Zero K] (param : HsdpParam) (worldSize index : Nat) (grad : Nat → K) :
    Nat → K := fun j =>
  match (param.chunk worldSize index)[j]? with
  | some position => grad position
  | none => 0

end HsdpParam

/-- The managed parameters of a unit over its mesh. -/
structure ParamGroup (Rank : Type) [DecidableEq Rank] where
  group : Nat → ProcessGroup Rank
  count : Nat
  param : Fin count → HsdpParam
  /-- only dimension 0 is sharded unevenly -/
  even : ∀ i, (param i).shardDim ≠ 0 → ∀ g, (param i).shardGroup = some g →
    (group g).size ∣ (param i).shape.getD (param i).shardDim 0
  /-- a shard group belongs to one mesh -/
  replicate_eq : ∀ i j, (param i).shardGroup = (param j).shardGroup →
    (param i).replicateGroup = (param j).replicateGroup
  /-- replicas hold the same shard -/
  aligned : ∀ i g r, (param i).shardGroup = some g → (param i).replicateGroup = some r →
    ∀ rank, ∀ other ∈ (group r).members rank,
      ((group g).members other).idxOf other = ((group g).members rank).idxOf rank

structure Grad (Rank K : Type) where
  dtype : DType
  value : Rank → Nat → K

inductive CommError where
  | shardWorldSize
  | mixedAllReduce
  | allReduceGroup
  | emptyGradient
  | shapeMismatch
  deriving DecidableEq, Repr

structure Buffer (Rank K : Type) where
  size : Nat
  data : Rank → Nat → K

namespace Buffer

variable {Rank K : Type}

def element (buffer : Buffer Rank K) (rank : Rank) (j : Nat) : K :=
  if buffer.size = 1 then buffer.data rank 0 else buffer.data rank j

/-- `add_`, which broadcasts its argument. -/
def add_ [Add K] (self other : Buffer Rank K) : Except CommError (Buffer Rank K) :=
  if other.size = self.size ∨ other.size = 1 then
    .ok { self with data := fun rank j => self.data rank j + other.element rank j }
  else .error .shapeMismatch

def narrow (buffer : Buffer Rank K) (start length : Nat) : Buffer Rank K where
  size := length
  data rank j := buffer.data rank (start + j)

/-- `div_` of an average, which a single rank does without. -/
def div_ [Div K] [NatCast K] (buffer : Buffer Rank K) (worldSize : Nat) : Buffer Rank K :=
  if 1 < worldSize then
    { buffer with data := fun rank j => buffer.data rank j / (worldSize : K) }
  else buffer

end Buffer

abbrev BucketKey := Option Nat × DType

/-- A reduce-scatter bucket with the all-reduce it feeds, if any. -/
structure Bucket (Rank K : Type) (count : Nat) where
  key : BucketKey
  params : List (Fin count)
  replicateGroup : Option Nat
  output : Buffer Rank K

structure State (Rank K : Type) (count : Nat) where
  reduceScatterBuckets : List (Bucket Rank K count) := []
  allReduceBuckets : List (Bucket Rank K count) := []
  reducePartialOutputs : PyDict BucketKey (Buffer Rank K) := .empty
  reduceScatterOutput : Fin count → Option (Buffer Rank K) := fun _ => none
  allReduceOutput : Fin count → Option (Buffer Rank K) := fun _ => none

def State.reducedGrad {Rank K : Type} {count : Nat} (state : State Rank K count)
    (i : Fin count) : Option (Buffer Rank K) :=
  match state.allReduceOutput i with
  | some output => some output
  | none => state.reduceScatterOutput i

namespace ParamGroup

variable {Rank : Type} [DecidableEq Rank] (unit : ParamGroup Rank)

def members (group : Option Nat) (rank : Rank) : List Rank :=
  match group with
  | some g => (unit.group g).members rank
  | none => [rank]

def worldSize (group : Option Nat) : Nat :=
  match group with
  | some g => (unit.group g).size
  | none => 1

def groupRank (group : Option Nat) (rank : Rank) : Nat := (unit.members group rank).idxOf rank

def paddedNumel (i : Fin unit.count) : Nat :=
  (unit.param i).paddedNumel (unit.worldSize (unit.param i).shardGroup)

def shard (i : Fin unit.count) (rank : Rank) : List Nat :=
  (unit.param i).chunk (unit.worldSize (unit.param i).shardGroup)
    (unit.groupRank (unit.param i).shardGroup rank)

variable {K : Type} [Field K]

abbrev MicroStep (K : Type) := Fin unit.count → Option (Grad Rank K)

def reduceCommDtype (i : Fin unit.count) (gradDtype : DType) : DType :=
  (unit.param i).reduceDtype.getD gradDtype

def bucketKey (i : Fin unit.count) (gradDtype : DType) : BucketKey :=
  ((unit.param i).shardGroup, unit.reduceCommDtype i gradDtype)

def activeGrads (step : unit.MicroStep K) : List (BucketKey × Fin unit.count × Grad Rank K) :=
  (List.finRange unit.count).filterMap fun i =>
    (step i).map fun grad => (unit.bucketKey i grad.dtype, i, grad)

def buildReduceScatterBuckets (step : unit.MicroStep K) :
    Except CommError (List (BucketKey × List (Fin unit.count × Grad Rank K))) :=
  let buckets := (PyDict.group (unit.activeGrads step)).entries
  if buckets.any fun bucket => bucket.2.any fun entry =>
      decide (unit.worldSize (unit.param entry.1).shardGroup ≠ unit.worldSize bucket.1.1) then
    .error .shardWorldSize
  else .ok buckets

def allReduceGroup (params : List (Fin unit.count)) : Except CommError (Option Nat) :=
  match params with
  | [] => .ok none
  | first :: rest =>
    match (unit.param first).replicateGroup with
    | none =>
      if rest.any fun i => (unit.param i).replicateGroup.isSome then .error .mixedAllReduce
      else .ok none
    | some r =>
      if rest.any fun i => decide ((unit.param i).replicateGroup ≠ some r) then
        .error .allReduceGroup
      else .ok (some r)

/-- `reduce_scatter_copy_in`: row `index` of the input on one rank. -/
def copyIn (worldSize : Nat) (entries : List (Fin unit.count × Grad Rank K)) (rank : Rank)
    (index : Nat) : Nat → K :=
  Packing.pack (fun entry => unit.paddedNumel entry.1)
    (fun entry => (unit.param entry.1).packedRow worldSize index (entry.2.value rank)) entries

def reduceScatter (key : BucketKey) (entries : List (Fin unit.count × Grad Rank K)) :
    Buffer Rank K :=
  let input := unit.copyIn (unit.worldSize key.1) entries
  { size := Packing.total (fun entry => unit.paddedNumel entry.1) entries
    data := fun rank j =>
      if 1 < unit.worldSize key.1 then
        ((unit.members key.1 rank).map fun other =>
          input other (unit.groupRank key.1 rank) j).sum
      else input rank 0 j }

def issueReduceScatter (key : BucketKey) (entries : List (Fin unit.count × Grad Rank K)) :
    Except CommError (Buffer Rank K) :=
  if entries.any fun entry => decide (unit.param entry.1).Unpackable then
    .error .emptyGradient
  else .ok (unit.reduceScatter key entries)

def issueBucket (bucket : BucketKey × List (Fin unit.count × Grad Rank K)) :
    Except CommError (Bucket Rank K unit.count) := do
  let params := bucket.2.map Prod.fst
  let replicateGroup ← unit.allReduceGroup params
  let output ← unit.issueReduceScatter bucket.1 bucket.2
  return ⟨bucket.1, params, replicateGroup, output⟩

def foreachReduceScatter (step : unit.MicroStep K) (state : State Rank K unit.count) :
    Except CommError (State Rank K unit.count) := do
  let buckets ← unit.buildReduceScatterBuckets step
  let issued ← buckets.mapM unit.issueBucket
  return { state with reduceScatterBuckets := issued }

def waitReduceScatter (buckets : List (Bucket Rank K unit.count)) :
    List (Bucket Rank K unit.count) :=
  buckets.map fun bucket =>
    { bucket with output := bucket.output.div_ (unit.worldSize bucket.key.1) }

def growParked (old : Option (Buffer Rank K)) (output : Buffer Rank K) :
    Except CommError (Buffer Rank K) :=
  match old with
  | none => .ok output
  | some buffer => buffer.add_ output

def park (parked : PyDict BucketKey (Buffer Rank K)) :
    List (Bucket Rank K unit.count) → Except CommError (PyDict BucketKey (Buffer Rank K))
  | [] => .ok parked
  | bucket :: rest => do
      let buffer ← growParked (parked.get? bucket.key) bucket.output
      park (parked.set bucket.key buffer) rest

def withParked (old : Option (Buffer Rank K)) (output : Buffer Rank K) :
    Except CommError (Buffer Rank K) :=
  match old with
  | none => .ok output
  | some buffer => output.add_ buffer

def addParked (parked : PyDict BucketKey (Buffer Rank K)) :
    List (Bucket Rank K unit.count) →
      Except CommError (PyDict BucketKey (Buffer Rank K) × List (Bucket Rank K unit.count))
  | [] => .ok (parked, [])
  | bucket :: rest => do
      let output ← withParked (parked.get? bucket.key) bucket.output
      let (parked, rest) ← addParked (parked.erase bucket.key) rest
      return (parked, { bucket with output := output } :: rest)

def exposeViews (outputs : Fin unit.count → Option (Buffer Rank K))
    (bucket : Bucket Rank K unit.count) : Fin unit.count → Option (Buffer Rank K) :=
  (Packing.layoutFrom unit.paddedNumel 0 bucket.params).foldl (fun outputs entry =>
    Function.update outputs entry.1
      (some (bucket.output.narrow entry.2 (unit.paddedNumel entry.1)))) outputs

def allReduce (bucket : Bucket Rank K unit.count) : Bucket Rank K unit.count :=
  if 1 < unit.worldSize bucket.replicateGroup then
    { bucket with output := { bucket.output with
        data := fun rank j => ((unit.members bucket.replicateGroup rank).map fun other =>
          bucket.output.data other j).sum } }
  else bucket

def waitReduceScatterAndIssueAllReduce (requiresAllReduce : Bool)
    (state : State Rank K unit.count) : Except CommError (State Rank K unit.count) :=
  let buckets := unit.waitReduceScatter state.reduceScatterBuckets
  if requiresAllReduce then do
    let (parked, buckets) ← unit.addParked state.reducePartialOutputs buckets
    return { state with
      reduceScatterBuckets := []
      reducePartialOutputs := parked
      reduceScatterOutput := (buckets.filter fun bucket => bucket.replicateGroup.isNone).foldl
        unit.exposeViews state.reduceScatterOutput
      allReduceBuckets := (buckets.filter fun bucket => bucket.replicateGroup.isSome).map
        unit.allReduce }
  else do
    let parked ← unit.park state.reducePartialOutputs buckets
    return { state with
      reduceScatterBuckets := []
      allReduceBuckets := []
      reducePartialOutputs := parked }

def waitAllReduceAndSaveGrad (state : State Rank K unit.count) : State Rank K unit.count :=
  { state with
    allReduceBuckets := []
    allReduceOutput := (state.allReduceBuckets.map fun bucket =>
      { bucket with output := bucket.output.div_ (unit.worldSize bucket.replicateGroup) }).foldl
        unit.exposeViews state.allReduceOutput }

def microStep (requiresAllReduce : Bool) (state : State Rank K unit.count)
    (step : unit.MicroStep K) : Except CommError (State Rank K unit.count) := do
  let state ← unit.foreachReduceScatter step state
  let state ← unit.waitReduceScatterAndIssueAllReduce requiresAllReduce state
  return unit.waitAllReduceAndSaveGrad state

def accumulate (steps : List (unit.MicroStep K)) (last : unit.MicroStep K) :
    Except CommError (State Rank K unit.count) := do
  let state ← steps.foldlM (unit.microStep false) {}
  unit.microStep true state last

end ParamGroup

end HyperParallel.FullyShard
