import HyperParallel.Foundation.Chunking
import HyperParallel.Foundation.PySequence
import HyperParallel.DTensor.TensorMap

/-!
# Slice geometry

The slice of a global tensor that one rank holds: each entry of the tensor map
cuts its dimension once per axis, each cut inside the range the previous one
left, by balanced chunks or, for the uneven mesh dimensions, by ceil chunks.
-/

namespace HyperParallel.DTensor

open Foundation List
open Foundation.Chunking

def inferBalancedChunkRange (tensorSize shardCount shardRank : Nat) : Nat × Nat :=
  let shardSize := tensorSize / shardCount
  let remainder := tensorSize % shardCount
  let chunkStart := shardRank * shardSize + min shardRank remainder
  let chunkEnd := chunkStart + shardSize + if shardRank < remainder then 1 else 0
  (chunkStart, chunkEnd)

def inferCeilChunkRange (tensorSize shardCount shardRank : Nat) : Nat × Nat :=
  let chunkSize := (tensorSize + shardCount - 1) / shardCount
  let chunkStart := min (shardRank * chunkSize) tensorSize
  let chunkEnd := min (chunkStart + chunkSize) tensorSize
  (chunkStart, chunkEnd)

def calculateMeshCoordinateForRank (meshShape : MeshShape) (rankId : Nat) : List Nat :=
  (meshShape.foldr (fun size state => (state.1 / size, state.1 % size :: state.2)) (rankId, [])).2

/-- The loop over the mapped mesh dimensions, from the slice it has reached. -/
def narrowSlice (meshShape : MeshShape) (meshCoordinate : List Nat)
    (unevenShardMeshDims : List Int) : List Int → Nat × Nat → Option (Nat × Nat)
  | [], slice => some slice
  | mappedMeshDim :: mappedDims, (sliceStart, sliceEnd) =>
    if mappedMeshDim = NONE then
      narrowSlice meshShape meshCoordinate unevenShardMeshDims mappedDims (sliceStart, sliceEnd)
    else do
      let meshDim : Int := meshShape.length - mappedMeshDim - 1
      let inferChunkRange :=
        if meshDim ∈ unevenShardMeshDims then inferCeilChunkRange
        else inferBalancedChunkRange
      let chunk := inferChunkRange (sliceEnd - sliceStart)
        (← pyGet? meshShape meshDim) (← pyGet? meshCoordinate meshDim)
      let sliceStart := sliceStart + chunk.1
      let sliceEnd := sliceStart + chunk.2 - chunk.1
      narrowSlice meshShape meshCoordinate unevenShardMeshDims mappedDims (sliceStart, sliceEnd)

def inferTensorDimensionSlice (globalSize : Nat) (tensorMapping : DimMapping)
    (meshShape : MeshShape) (meshCoordinate : List Nat) (unevenShardMeshDims : List Int) :
    Option (Nat × Nat) :=
  narrowSlice meshShape meshCoordinate unevenShardMeshDims tensorMapping.mappedDims (0, globalSize)

def inferSliceAreaByRank (meshShape : MeshShape) (tensorMap : TensorMap) (rankId : Nat)
    (fullShape : List Nat) (unevenShardMeshDims : List Int) :
    Option (List (Nat × Nat)) :=
  let meshCoordinate := calculateMeshCoordinateForRank meshShape rankId
  fullShape.zipIdx.mapM fun (globalSize, tensorDim) => do
    let mapping ← tensorMap[tensorDim]?
    inferTensorDimensionSlice globalSize mapping meshShape meshCoordinate
      unevenShardMeshDims

/-! ## The two chunk rules cut an interval -/

private def balancedBoundary (tensorSize shardCount k : Nat) : Nat :=
  k * (tensorSize / shardCount) + min k (tensorSize % shardCount)

def balancedRule : ChunkRule :=
  .ofBoundaries balancedBoundary
    (fun size count k l hkl => by
      have := Nat.mul_le_mul_right (size / count) hkl
      simp only [balancedBoundary]
      omega)
    (fun size count => by simp [balancedBoundary])
    (fun size count hcount => by
      have hmod := Nat.mod_lt size hcount
      simp only [balancedBoundary]
      rw [Nat.min_eq_right hmod.le, Nat.div_add_mod])

private def ceilBoundary (tensorSize shardCount k : Nat) : Nat :=
  min (k * ((tensorSize + shardCount - 1) / shardCount)) tensorSize

theorem le_mul_ceilDiv (size count : Nat) (hcount : 0 < count) :
    size ≤ count * ((size + count - 1) / count) := by
  have hdiv := Nat.div_add_mod (size + count - 1) count
  have hmod := Nat.mod_lt (size + count - 1) hcount
  omega

def ceilRule : ChunkRule :=
  .ofBoundaries ceilBoundary
    (fun size count k l hkl => by
      have := Nat.mul_le_mul_right ((size + count - 1) / count) hkl
      simp only [ceilBoundary]
      omega)
    (fun size count => by simp [ceilBoundary])
    (fun size count hcount => Nat.min_eq_right (le_mul_ceilDiv size count hcount))

theorem balancedRule_range (tensorSize shardCount shardRank : Nat) :
    balancedRule.range tensorSize shardCount shardRank =
      inferBalancedChunkRange tensorSize shardCount shardRank := by
  simp only [balancedRule, ChunkRule.ofBoundaries, balancedBoundary,
    inferBalancedChunkRange, Nat.add_mul, Prod.mk.injEq, true_and]
  split <;> omega

theorem ceilRule_range (tensorSize shardCount shardRank : Nat) :
    ceilRule.range tensorSize shardCount shardRank =
      inferCeilChunkRange tensorSize shardCount shardRank := by
  simp only [ceilRule, ChunkRule.ofBoundaries, ceilBoundary,
    inferCeilChunkRange, Nat.add_mul, Prod.mk.injEq, true_and]
  omega

theorem balancedRule_even : balancedRule.Even := by
  intro size count k hcount _
  rw [balancedRule_range, inferBalancedChunkRange, Nat.mul_div_cancel_left _ hcount,
    Nat.mul_mod_right]
  simp [Nat.add_mul]

theorem ceilRule_even : ceilRule.Even := by
  intro size count k hcount hk
  have hdiv : (count * size + count - 1) / count = size := by
    rw [show count * size + count - 1 = count - 1 + count * size by omega,
      Nat.add_mul_div_left _ _ hcount, Nat.div_eq_of_lt (by omega), Nat.zero_add]
  have hmul : (k + 1) * size ≤ count * size := Nat.mul_le_mul_right _ hk
  rw [Nat.add_mul, Nat.one_mul] at hmul
  rw [ceilRule_range, inferCeilChunkRange, hdiv, Prod.mk.injEq, Nat.add_mul]
  omega

/-! ## A dimension's slice is a nested cut -/

theorem calculateMeshCoordinateForRank_eq_digits (meshShape : MeshShape) (rankId : Nat) :
    calculateMeshCoordinateForRank meshShape rankId = MixedRadix.digits meshShape rankId := by
  suffices h : meshShape.foldr
      (fun size state => (state.1 / size, state.1 % size :: state.2)) (rankId, []) =
      (rankId / meshShape.prod, MixedRadix.digits meshShape rankId) from
    congrArg Prod.snd h
  induction meshShape with
  | nil => simp [MixedRadix.digits]
  | cons size sizes ih =>
    rw [foldr_cons, ih, Nat.div_div_eq_div_mul, MixedRadix.digits, prod_cons, Nat.mul_comm]

def meshDimOf (meshNdim : Nat) (axis : Int) : Nat := (meshNdim - axis - 1).toNat

def axisLevel (meshShape : MeshShape) (unevenShardMeshDims : List Int) (axis : Int) :
    Level where
  rule :=
    if (meshDimOf meshShape.length axis : Int) ∈ unevenShardMeshDims then ceilRule
    else balancedRule
  count := meshShape.getD (meshDimOf meshShape.length axis) 0

def axisCoordinate (meshShape : MeshShape) (rankId : Nat) (axis : Int) : Nat :=
  (calculateMeshCoordinateForRank meshShape rankId).getD (meshDimOf meshShape.length axis) 0

def dimLevels (meshShape : MeshShape) (unevenShardMeshDims : List Int)
    (mapping : DimMapping) : List Level :=
  mapping.usedAxes.map (axisLevel meshShape unevenShardMeshDims)

def dimCoordinates (meshShape : MeshShape) (rankId : Nat) (mapping : DimMapping) :
    List Nat :=
  mapping.usedAxes.map (axisCoordinate meshShape rankId)

/-- The slice of one dimension of size `globalSize` on one rank. -/
def dimSlice (meshShape : MeshShape) (unevenShardMeshDims : List Int) (rankId : Nat)
    (globalSize : Nat) (mapping : DimMapping) : Nat × Nat :=
  narrow (dimLevels meshShape unevenShardMeshDims mapping)
    (dimCoordinates meshShape rankId mapping) globalSize

variable {meshShape : MeshShape} {unevenShardMeshDims : List Int}

variable {meshNdim : Nat} {axis : Int}

theorem meshDimOf_lt (h : 0 ≤ axis ∧ axis < meshNdim) :
    meshDimOf meshNdim axis < meshNdim := by
  simp only [meshDimOf]
  omega

theorem meshDimOf_cast (h : 0 ≤ axis ∧ axis < meshNdim) :
    (meshDimOf meshNdim axis : Int) = meshNdim - axis - 1 := by
  simp only [meshDimOf]
  omega

theorem meshDimOf_injOn {a b : Int} (ha : 0 ≤ a ∧ a < meshNdim)
    (hb : 0 ≤ b ∧ b < meshNdim) (h : meshDimOf meshNdim a = meshDimOf meshNdim b) :
    a = b := by
  have h₁ := meshDimOf_cast ha
  have h₂ := meshDimOf_cast hb
  omega

theorem pyGet?_meshDim {α : Type*} (xs : List α) (default : α)
    (h : 0 ≤ axis ∧ axis < xs.length) :
    pyGet? xs (xs.length - axis - 1) = some (xs.getD (meshDimOf xs.length axis) default) := by
  have hlt := meshDimOf_lt h
  rw [pyGet?_of_lt (by omega) hlt, getD_eq_getElem?_getD, getElem?_eq_getElem hlt]
  rfl

theorem axisLevel_range (unevenShardMeshDims : List Int)
    (h : 0 ≤ axis ∧ axis < meshShape.length) (size k : Nat) :
    (axisLevel meshShape unevenShardMeshDims axis).rule.range size
        (axisLevel meshShape unevenShardMeshDims axis).count k =
      (if (meshShape.length - axis - 1 : Int) ∈ unevenShardMeshDims
        then inferCeilChunkRange else inferBalancedChunkRange)
        size (meshShape.getD (meshDimOf meshShape.length axis) 0) k := by
  simp only [axisLevel, meshDimOf_cast h]
  split
  · exact ceilRule_range _ _ _
  · exact balancedRule_range _ _ _

section

variable (hpos : ∀ size ∈ meshShape, 0 < size)

include hpos

theorem axisCoordinate_lt (rankId : Nat) {axis : Int} (h : 0 ≤ axis ∧ axis < meshShape.length) :
    axisCoordinate meshShape rankId axis <
      meshShape.getD (meshDimOf meshShape.length axis) 0 := by
  have hlt := meshDimOf_lt h
  have hdigit := MixedRadix.digits_lt hpos rankId _ hlt
  simpa [axisCoordinate, calculateMeshCoordinateForRank_eq_digits,
    getD_eq_getElem?_getD, hlt] using hdigit

variable {mapping : DimMapping}

theorem dimCoordinates_inLevels (rankId : Nat)
    (haxes : ∀ a ∈ mapping.usedAxes, 0 ≤ a ∧ a < meshShape.length) :
    InLevels (dimCoordinates meshShape rankId mapping)
      (dimLevels meshShape unevenShardMeshDims mapping) := by
  rw [dimCoordinates, dimLevels, InLevels, forall₂_map_left_iff,
    forall₂_map_right_iff, forall₂_same]
  exact fun a ha => axisCoordinate_lt hpos rankId (haxes a ha)

theorem dimLevels_pos
    (haxes : ∀ a ∈ mapping.usedAxes, 0 ≤ a ∧ a < meshShape.length) :
    ∀ level ∈ dimLevels meshShape unevenShardMeshDims mapping, 0 < level.count := by
  intro level hlevel
  obtain ⟨axis, haxis, rfl⟩ := mem_map.mp hlevel
  exact Nat.lt_of_le_of_lt (Nat.zero_le _) (axisCoordinate_lt hpos 0 (haxes axis haxis))

theorem narrowSlice_eq (rankId : Nat) (mapped : List Int)
    (haxes : ∀ a ∈ (DimMapping.axes mapped).usedAxes, 0 ≤ a ∧ a < meshShape.length)
    (start stop : Nat) (hle : start ≤ stop) :
    narrowSlice meshShape (MixedRadix.digits meshShape rankId) unevenShardMeshDims mapped
        (start, stop) =
      some (start + (dimSlice meshShape unevenShardMeshDims rankId (stop - start) (.axes mapped)).1,
        start + (dimSlice meshShape unevenShardMeshDims rankId (stop - start) (.axes mapped)).2) := by
  induction mapped generalizing start stop with
  | nil =>
    simp only [narrowSlice, dimSlice, dimLevels, dimCoordinates, DimMapping.usedAxes,
      DimMapping.mappedDims, filter_nil, map_nil, narrow, Option.some.injEq, Prod.mk.injEq]
    omega
  | cons axis mapped ih =>
    by_cases hnone : axis = NONE
    · have hused : (DimMapping.axes (axis :: mapped)).usedAxes =
          (DimMapping.axes mapped).usedAxes := by
        simp [DimMapping.usedAxes, DimMapping.mappedDims, hnone]
      simp only [narrowSlice, if_pos hnone, dimSlice, dimLevels, dimCoordinates, hused]
      exact ih (by rwa [hused] at haxes) start stop hle
    · have hused : (DimMapping.axes (axis :: mapped)).usedAxes =
          axis :: (DimMapping.axes mapped).usedAxes := by
        simp [DimMapping.usedAxes, DimMapping.mappedDims, hnone]
      rw [hused] at haxes
      have haxis := haxes axis (by simp)
      have hcoord : pyGet? (MixedRadix.digits meshShape rankId)
          (meshShape.length - axis - 1) =
          some (axisCoordinate meshShape rankId axis) := by
        have hlen : 0 ≤ axis ∧
            axis < (MixedRadix.digits meshShape rankId).length := by simpa using haxis
        simpa [axisCoordinate, calculateMeshCoordinateForRank_eq_digits] using
          pyGet?_meshDim (MixedRadix.digits meshShape rankId) 0 hlen
      have hchunk := axisLevel_range unevenShardMeshDims haxis
        (stop - start) (axisCoordinate meshShape rankId axis)
      have hcount : axisCoordinate meshShape rankId axis <
          (axisLevel meshShape unevenShardMeshDims axis).count :=
        axisCoordinate_lt hpos rankId haxis
      have hstart := (axisLevel meshShape unevenShardMeshDims axis).rule.start_le_stop
        (stop - start) _ _ hcount
      simp only [narrowSlice, if_neg hnone, pyGet?_meshDim meshShape 0 haxis, hcoord,
        Option.bind_eq_bind, Option.bind_some, ← hchunk]
      rw [ih (fun a ha => haxes a (by simp [ha])) _ _ (by omega)]
      simp only [dimSlice, dimLevels, dimCoordinates, hused, map_cons, narrow,
        Option.some.injEq, Prod.mk.injEq]
      have hsize : ∀ lo hi : Nat, start + lo + hi - lo - (start + lo) = hi - lo := by omega
      rw [hsize]
      omega

theorem inferTensorDimensionSlice_eq (rankId globalSize : Nat)
    (haxes : ∀ a ∈ mapping.usedAxes, 0 ≤ a ∧ a < meshShape.length) :
    inferTensorDimensionSlice globalSize mapping meshShape
        (calculateMeshCoordinateForRank meshShape rankId) unevenShardMeshDims =
      some (dimSlice meshShape unevenShardMeshDims rankId globalSize mapping) := by
  have hsame : (DimMapping.axes mapping.mappedDims).usedAxes = mapping.usedAxes := rfl
  rw [inferTensorDimensionSlice, calculateMeshCoordinateForRank_eq_digits,
    narrowSlice_eq hpos rankId _ (by rwa [hsame]) 0 globalSize (Nat.zero_le _)]
  simp [dimSlice, dimLevels, dimCoordinates, hsame]

end

def sliceArea (meshShape : MeshShape) (unevenShardMeshDims : List Int)
    (tensorMap : TensorMap) (fullShape : List Nat) (rankId : Nat) : List (Nat × Nat) :=
  List.zipWith (dimSlice meshShape unevenShardMeshDims rankId) fullShape tensorMap

theorem inferSliceAreaByRank_eq (hpos : ∀ size ∈ meshShape, 0 < size)
    {tensorMap : TensorMap} (hmap : WellFormed meshShape.length tensorMap)
    {fullShape : List Nat} (hrank : tensorMap.length = fullShape.length) (rankId : Nat) :
    inferSliceAreaByRank meshShape tensorMap rankId fullShape unevenShardMeshDims =
      some (sliceArea meshShape unevenShardMeshDims tensorMap fullShape rankId) := by
  rw [inferSliceAreaByRank, mapM_eq_some_iff, forall₂_iff_get]
  refine ⟨by simp [sliceArea, hrank], fun d h₁ h₂ => ?_⟩
  have hd : d < tensorMap.length := by simpa [hrank] using h₁
  have hentry := hmap.entry (getElem_mem hd)
  simp [sliceArea, hd, inferTensorDimensionSlice_eq hpos rankId _ hentry]

end HyperParallel.DTensor
