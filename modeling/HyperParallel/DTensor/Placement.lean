import Mathlib.Data.List.Basic
import Mathlib.Algebra.Ring.Nat

/-!
# Placements

What one mesh dimension does to a tensor: replicate it, shard one of its
dimensions (plainly, after the dimensions to its right, or raggedly), or hold a
partial result of a reduction.
-/

namespace HyperParallel.DTensor

structure RaggedShard where
  dims : List Nat
  localUnits : List Nat
  dims_ne_nil : dims ≠ []
  dims_prefix : dims = List.range dims.length
  units_pos : 0 < localUnits.sum
  deriving DecidableEq

inductive Placement where
  | replicate
  | shard (dim : Int) (unevenShard : Bool)
  | stridedShard (dim : Int) (splitFactor : Nat) (unevenShard : Bool) (pos : 1 ≤ splitFactor)
  | raggedShard (ragged : RaggedShard)
  | stridedRaggedShard (ragged : RaggedShard) (splitFactor : Int)
  | partialReduce (reduceOp : String)
  deriving DecidableEq

namespace Placement

/-- The dimension and the uneven marker of a `Shard`, strided ones included. -/
def asShard : Placement → Option (Int × Bool)
  | .shard dim unevenShard => some (dim, unevenShard)
  | .stridedShard dim _ unevenShard _ => some (dim, unevenShard)
  | _ => none

def asRaggedShard : Placement → Option RaggedShard
  | .raggedShard ragged => some ragged
  | _ => none

def isUnevenShard (placement : Placement) : Bool :=
  match placement.asShard with
  | some (_, unevenShard) => unevenShard
  | none => false

end Placement

structure RaggedShardInfo where
  meshDim : Nat
  placement : RaggedShard
  deriving DecidableEq

def placementSplitFactor : Placement → Nat
  | .stridedShard _ splitFactor _ _ => splitFactor
  | _ => 1

def replaceRaggedWithReplicate (placements : List Placement) : List Placement :=
  placements.map fun placement =>
    if placement.asRaggedShard.isSome then .replicate else placement

end HyperParallel.DTensor
