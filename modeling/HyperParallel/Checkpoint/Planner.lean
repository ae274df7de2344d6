import HyperParallel.Foundation.Nested
import Mathlib.Algebra.BigOperators.Group.List.Defs
import Mathlib.Algebra.Ring.Nat

/-!
# Checkpoint metadata and plans

What a checkpoint records about a state dict: for every fully qualified name the
global size of the tensor and the chunks it was saved in, or that it was saved
as bytes, and where each saved item lies in the storage.  A save plan lists the
items a rank would write, a load plan the items it would read.  A write item
carries no data: only the chunk it stands for, by which its storage size is
estimated.
-/

namespace HyperParallel.Checkpoint

open Foundation

structure MetadataIndex where
  fqn : String
  offset : List Nat := []
  index : Option Nat := none
deriving DecidableEq, Repr

/-- What two indices are compared and hashed by: `index` is a hint, not part of the identity. -/
def MetadataIndex.key (index : MetadataIndex) : String × List Nat := (index.fqn, index.offset)

structure ChunkStorageMetadata where
  offsets : List Nat
  sizes : List Nat
deriving DecidableEq, Repr

structure TensorProperties where
  dtype : Option String
  requiresGrad : Bool := false
  memoryFormat : Option String := none
deriving DecidableEq, Repr

/-- Ordered longest match first: `"bfloat16"` is tried before its substring `"float16"`. -/
def dtypeElementSizes : List (String × Nat) :=
  [("bfloat16", 2), ("float16", 2), ("float32", 4), ("float64", 8), ("int8", 1),
    ("int16", 2), ("int32", 4), ("int64", 8), ("bool", 1)]

def defaultDtypeElementSize : Nat := 4

def dtypeElementSize : Option String → Nat
  | none => defaultDtypeElementSize
  | some dtype =>
    let lowered := dtype.toLower.toList
    ((dtypeElementSizes.find? fun entry => decide (entry.1.toList <:+: lowered)).map
      Prod.snd).getD defaultDtypeElementSize

structure TensorStorageMetadata where
  properties : TensorProperties
  size : List Nat
  chunks : List ChunkStorageMetadata
deriving DecidableEq, Repr

inductive StorageMetadata where
  | tensor (md : TensorStorageMetadata)
  | bytes
deriving DecidableEq, Repr

structure StorageInfo where
  relativePath : String
  offset : Nat
  length : Int
  tensorKey : Option String := none
deriving DecidableEq, Repr

structure Metadata where
  stateDictMetadata : PyDict String StorageMetadata
  plannerData : Option (PyDict String ObjectPath) := none
  storageData : Option (PyDict (String × List Nat) StorageInfo) := none
deriving DecidableEq

/-! ## Plans -/

inductive WriteItemType where
  | tensor
  | byteIo
deriving DecidableEq, Repr

structure TensorData where
  chunk : ChunkStorageMetadata
  properties : TensorProperties
  size : List Nat
deriving DecidableEq, Repr

structure WriteItem where
  index : MetadataIndex
  type : WriteItemType
  tensorData : Option TensorData := none
deriving DecidableEq, Repr

def WriteItem.tensorStorageSize (item : WriteItem) : Option Nat :=
  match item.type, item.tensorData with
  | .tensor, some data =>
    let num := data.chunk.sizes.prod
    match data.properties.dtype with
    | none => some num
    | some dtype => some (num * dtypeElementSize (some dtype))
  | _, _ => none

structure SavePlan where
  items : List WriteItem
  plannerData : Option (PyDict String ObjectPath) := none
deriving DecidableEq

inductive LoadItemType where
  | tensor
  | byteIo
deriving DecidableEq, Repr

structure BroadcastSource where
  groupRanks : List Nat
  srcRank : Nat
deriving DecidableEq, Repr

structure ReadItem where
  type : LoadItemType
  destIndex : MetadataIndex
  destOffsets : List Nat
  storageIndex : MetadataIndex
  storageOffsets : List Nat
  lengths : List Nat
  broadcastable : Bool := true
  source : Option BroadcastSource := none
deriving DecidableEq, Repr

structure LoadPlan where
  items : List ReadItem
deriving DecidableEq, Repr

/-- What building a plan raises. -/
inductive PlanError where
  | noOwnPlan (rank planCount : Nat)
  | chunksDiffer (index : MetadataIndex)
  | propertiesDiffer (fqn : String) (known new : TensorProperties) (knownSize newSize : List Nat)
  | unsupportedWriteItem (type : WriteItemType)
  | plannerDataMissing
  | rankNotInMesh (rank : Nat)
  | sliceUndefined
  | raggedMissing
  | onlyReplicateBesideRagged (meshDim : Nat)
  | raggedDimsExceedRank
  | raggedUnitsMismatch (units meshDimSize : Nat)
  | raggedNotDivisible (prefixCells totalUnits : Nat)
  | raggedScalarShape
  | invalidInterval (flatStart flatEnd : Nat)
  | boxesNotCovering (covered expected : Nat)
  | boxNotFound (index : MetadataIndex)
  | areaDimensionMismatch (first second : Nat)
  | noChunkList
  | keyNotFound (fqn : String)
  | notTensorLike (fqn : String)
  | storageInfoNotFound (index : MetadataIndex)
  | mismatchSizes (index : MetadataIndex) (targetSize tensorSize : List Nat)
deriving DecidableEq, Repr

def ownPlanIndex {Plan : Type*} (allPlans : List Plan) (rank : Nat) : Except PlanError Nat :=
  let ownIndex := if 1 < allPlans.length then rank else 0
  if ownIndex < allPlans.length then .ok ownIndex else .error (.noOwnPlan rank allPlans.length)

end HyperParallel.Checkpoint
