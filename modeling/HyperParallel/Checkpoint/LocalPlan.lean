import HyperParallel.Checkpoint.Ragged
import HyperParallel.Checkpoint.GlobalPlan

/-!
# The local save plan

One write item for every leaf of the flat state dict: the chunk of the global
tensor this rank holds, one chunk for each box of a ragged shard, or bytes.
-/

namespace HyperParallel.Checkpoint

open Foundation
open HyperParallel.DTensor (Layout inferSliceAreaByRank unevenShardMeshDims)

variable {α β : Type}

def inferSliceAreaByLayout (layout : Layout) (rankId : Nat) (fullShape : List Nat) :
    Option (List (Nat × Nat)) :=
  layout.tensorMap.bind fun tensorMap =>
    inferSliceAreaByRank layout.mesh.meshShape tensorMap rankId fullShape
      ((unevenShardMeshDims layout.placements).map Int.ofNat)

def computeGlobalOffsets (globalShape : List Nat) (layout : Layout) (currentRank : Nat) :
    Except PlanError (List Nat) :=
  if currentRank ∈ layout.mesh.rankList then
    match inferSliceAreaByLayout layout (layout.mesh.rankList.idxOf currentRank) globalShape with
    | none => .error .sliceUndefined
    | some area => .ok (area.map Prod.fst)
  else .error (.rankNotInMesh currentRank)

def tensorWriteItem (fqn : String) (chunk : ChunkStorageMetadata) (dtype : String)
    (size : List Nat) : WriteItem where
  index := { fqn := fqn, offset := chunk.offsets }
  type := .tensor
  tensorData := some { chunk := chunk, properties := { dtype := some dtype }, size := size }

def createRaggedWriteItems (fqn : String) (tensor : DTensor α) (layout : Layout) (rank : Nat) :
    Except PlanError (List WriteItem) :=
  (computeRaggedBoxes tensor.shape layout rank).map fun boxes => boxes.map fun box =>
    tensorWriteItem fqn ⟨box.offsets, box.sizes⟩ tensor.localTensor.dtype tensor.shape

def fullChunk (shape : List Nat) : ChunkStorageMetadata where
  offsets := List.replicate shape.length 0
  sizes := shape

def leafWriteItems (rank : Nat) (fqn : String) :
    StateValue α β → Except PlanError (List WriteItem)
  | .leaf (.dtensor tensor) =>
    match tensor.layout with
    | none =>
      let sizes := tensor.localTensor.shape
      .ok [tensorWriteItem fqn ⟨List.replicate sizes.length 0, sizes⟩
        tensor.localTensor.dtype tensor.shape]
    | some layout =>
      if layout.raggedShard.isSome then createRaggedWriteItems fqn tensor layout rank
      else (computeGlobalOffsets tensor.shape layout rank).map fun offsets =>
        [tensorWriteItem fqn ⟨offsets, tensor.localTensor.shape⟩ tensor.localTensor.dtype
          tensor.shape]
  | .leaf (.tensor tensor none) =>
    .ok [tensorWriteItem fqn (fullChunk tensor.shape) tensor.dtype tensor.shape]
  | .leaf (.tensor tensor (some info)) =>
    .ok [tensorWriteItem fqn info.chunk tensor.dtype info.globalShape]
  | _ => .ok [{ index := { fqn := fqn }, type := .byteIo }]

def buildLocalPlan (planner : StandardSavePlanner) (flat : FlatStateDict α β) :
    Except PlanError SavePlan :=
  (flat.fqnNames.entries.mapM fun entry => leafWriteItems planner.rank entry.1 entry.2).map
    fun items => {
      items := items.flatten
      plannerData := if planner.flattenStateDict then some flat.mappings else none }

end HyperParallel.Checkpoint
