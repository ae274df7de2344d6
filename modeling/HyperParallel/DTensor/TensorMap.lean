import Mathlib.Data.List.Nodup

/-!
# Tensor maps

A tensor map has one entry per tensor dimension: `-1` when the dimension is not
sharded, one mesh axis, or a tuple of mesh axes that shard it in that order.
Mesh axes are numbered from the innermost mesh dimension, so axis `a` of an
`n`-dimensional mesh is mesh dimension `n - a - 1`.
-/

namespace HyperParallel.DTensor

/-- The value that marks an unsharded dimension. -/
def NONE : Int := -1

inductive DimMapping where
  | axis (mapped : Int)
  | axes (mapped : List Int)
  deriving DecidableEq, Repr

abbrev TensorMap := List DimMapping

abbrev MeshShape := List Nat

def DimMapping.mappedDims : DimMapping → List Int
  | .axis mapped => [mapped]
  | .axes mapped => mapped

/-- The mesh axes that shard one dimension, outermost split first. -/
def DimMapping.usedAxes (mapping : DimMapping) : List Int :=
  mapping.mappedDims.filter (· ≠ NONE)

def usedAxes (tensorMap : TensorMap) : List Int :=
  tensorMap.flatMap DimMapping.usedAxes

/-- Every axis exists in a mesh of `meshNdim` dimensions and is used once. -/
structure WellFormed (meshNdim : Nat) (tensorMap : TensorMap) : Prop where
  inRange : ∀ a ∈ usedAxes tensorMap, 0 ≤ a ∧ a < meshNdim
  nodup : (usedAxes tensorMap).Nodup

theorem WellFormed.entry {meshNdim : Nat} {tensorMap : TensorMap}
    (h : WellFormed meshNdim tensorMap) {mapping : DimMapping} (hmem : mapping ∈ tensorMap) :
    ∀ a ∈ mapping.usedAxes, 0 ≤ a ∧ a < meshNdim :=
  fun a ha => h.inRange a (List.mem_flatMap.mpr ⟨mapping, hmem, ha⟩)

end HyperParallel.DTensor
