import HyperParallel.DTensor.Slice

/-!
# The slices of a tensor map tile the tensor

Every element has one address, the coordinates a rank must have on the used
mesh axes to hold it.  A rank holds the elements whose address is its own
coordinates, which gives the four facts of the tiling at once: slices are in
bounds, depend on the used axes only, are disjoint between ranks that differ on
one of them, and each element lies in as many slices as there are ranks with
its address.
-/

namespace HyperParallel.DTensor

open Foundation List
open Foundation.Chunking

/-- The element at index `x` lies in the slice. -/
def InArea (area : List (Nat × Nat)) (x : List Nat) : Prop :=
  List.Forall₂ (fun bounds pos => bounds.1 ≤ pos ∧ pos < bounds.2) area x

/-- `x` is the index of an element of a tensor of this shape. -/
def InShape (fullShape x : List Nat) : Prop :=
  List.Forall₂ (fun size pos => pos < size) fullShape x

/-- Every range of the slice is one of its dimension. -/
def AreaInBounds (fullShape : List Nat) (area : List (Nat × Nat)) : Prop :=
  List.Forall₂ (fun size bounds => bounds.1 ≤ bounds.2 ∧ bounds.2 ≤ size) fullShape area

instance (area : List (Nat × Nat)) (x : List Nat) : Decidable (InArea area x) :=
  inferInstanceAs (Decidable (List.Forall₂ _ area x))

def usedCoordinates (meshShape : MeshShape) (tensorMap : TensorMap) (rankId : Nat) :
    List Nat :=
  (usedAxes tensorMap).map (axisCoordinate meshShape rankId)

noncomputable def elementAddress (meshShape : MeshShape) (unevenShardMeshDims : List Int) :
    TensorMap → List Nat → List Nat → List Nat
  | mapping :: tensorMap, size :: fullShape, pos :: x =>
    address (dimLevels meshShape unevenShardMeshDims mapping) size pos ++
      elementAddress meshShape unevenShardMeshDims tensorMap fullShape x
  | _, _, _ => []

variable {meshShape : MeshShape} {unevenShardMeshDims : List Int} {tensorMap : TensorMap}
  {fullShape : List Nat}

theorem WellFormed.tail {meshNdim : Nat} {mapping : DimMapping}
    (h : WellFormed meshNdim (mapping :: tensorMap)) : WellFormed meshNdim tensorMap where
  inRange a ha := h.inRange a (by
    simp only [usedAxes, List.flatMap_cons, List.mem_append]
    exact .inr ha)
  nodup := by
    have := h.nodup
    simp only [usedAxes, flatMap_cons] at this
    exact this.of_append_right

theorem usedCoordinates_cons (mapping : DimMapping) (rankId : Nat) :
    usedCoordinates meshShape (mapping :: tensorMap) rankId =
      dimCoordinates meshShape rankId mapping ++
        usedCoordinates meshShape tensorMap rankId := by
  simp [usedCoordinates, dimCoordinates, usedAxes]

theorem sliceArea_inBounds (hpos : ∀ size ∈ meshShape, 0 < size)
    (hmap : WellFormed meshShape.length tensorMap)
    (hrank : tensorMap.length = fullShape.length) (rankId : Nat) :
    AreaInBounds fullShape
      (sliceArea meshShape unevenShardMeshDims tensorMap fullShape rankId) := by
  induction tensorMap generalizing fullShape with
  | nil =>
    obtain rfl := length_eq_zero_iff.mp hrank.symm
    exact .nil
  | cons mapping tensorMap ih =>
    cases fullShape with
    | nil => simp at hrank
    | cons size fullShape =>
      refine .cons ?_ (ih hmap.tail (by simpa using hrank))
      exact narrow_bounds (dimCoordinates_inLevels hpos rankId (hmap.entry (by simp))) size

theorem inArea_iff_elementAddress (hpos : ∀ size ∈ meshShape, 0 < size)
    (hmap : WellFormed meshShape.length tensorMap) (hrank : tensorMap.length = fullShape.length)
    {x : List Nat} (hx : InShape fullShape x) (rankId : Nat) :
    InArea (sliceArea meshShape unevenShardMeshDims tensorMap fullShape rankId) x ↔
      usedCoordinates meshShape tensorMap rankId =
        elementAddress meshShape unevenShardMeshDims tensorMap fullShape x := by
  induction hx generalizing tensorMap with
  | nil =>
    obtain rfl := length_eq_zero_iff.mp hrank
    simp [InArea, sliceArea, usedCoordinates, elementAddress, usedAxes]
  | @cons size pos fullShape x hpos_lt htail ih =>
    cases tensorMap with
    | nil => simp at hrank
    | cons mapping tensorMap =>
      have hentry := hmap.entry (mem_cons_self (a := mapping))
      have hlevels : InLevels (dimCoordinates meshShape rankId mapping)
          (dimLevels meshShape unevenShardMeshDims mapping) :=
        dimCoordinates_inLevels hpos rankId hentry
      have hdim : (dimSlice meshShape unevenShardMeshDims rankId size mapping).1 ≤ pos ∧
          pos < (dimSlice meshShape unevenShardMeshDims rankId size mapping).2 ↔
          dimCoordinates meshShape rankId mapping =
            address (dimLevels meshShape unevenShardMeshDims mapping) size pos :=
        mem_narrow_iff hlevels hpos_lt
      have haddr : InLevels
          (address (dimLevels meshShape unevenShardMeshDims mapping) size pos)
          (dimLevels meshShape unevenShardMeshDims mapping) :=
        address_inLevels (dimLevels_pos hpos hentry) hpos_lt
      have hlength : (dimCoordinates meshShape rankId mapping).length =
          (address (dimLevels meshShape unevenShardMeshDims mapping) size pos).length :=
        hlevels.length_eq.trans haddr.length_eq.symm
      have hrest := ih hmap.tail (by simpa using hrank)
      rw [usedCoordinates_cons, elementAddress,
        append_eq_append_iff_of_size_eq_left hlength, ← hrest, ← hdim]
      simp [InArea, sliceArea]

def axisSize (meshShape : MeshShape) (axis : Int) : Nat :=
  meshShape.getD (meshDimOf meshShape.length axis) 0

section

variable {x : List Nat} (hpos : ∀ size ∈ meshShape, 0 < size)
  (hmap : WellFormed meshShape.length tensorMap) (hrank : tensorMap.length = fullShape.length)
  (hx : InShape fullShape x)

include hpos hmap hrank hx

theorem elementAddress_lt :
    Forall₂ (fun digit axis => digit < axisSize meshShape axis)
      (elementAddress meshShape unevenShardMeshDims tensorMap fullShape x)
      (usedAxes tensorMap) := by
  induction hx generalizing tensorMap with
  | nil =>
    obtain rfl := length_eq_zero_iff.mp hrank
    exact .nil
  | @cons size pos fullShape x hpos_lt htail ih =>
    cases tensorMap with
    | nil => simp at hrank
    | cons mapping tensorMap =>
      have hentry := hmap.entry (mem_cons_self (a := mapping))
      have haddr : InLevels
          (address (dimLevels meshShape unevenShardMeshDims mapping) size pos)
          (dimLevels meshShape unevenShardMeshDims mapping) :=
        address_inLevels (dimLevels_pos hpos hentry) hpos_lt
      rw [elementAddress, usedAxes, flatMap_cons]
      refine rel_append ?_ (ih hmap.tail (by simpa using hrank))
      rwa [InLevels, dimLevels, forall₂_map_right_iff] at haddr

theorem card_holders :
    ((Finset.range meshShape.prod).filter fun rank =>
        InArea (sliceArea meshShape unevenShardMeshDims tensorMap fullShape rank) x).card *
      ((usedAxes tensorMap).map (axisSize meshShape)).prod = meshShape.prod := by
  have hdims : ((usedAxes tensorMap).map (meshDimOf meshShape.length)).Nodup :=
    hmap.nodup.map_on fun a ha b hb hab =>
      meshDimOf_injOn (hmap.inRange a ha) (hmap.inRange b hb) hab
  have hlt : ∀ j ∈ (usedAxes tensorMap).map (meshDimOf meshShape.length),
      j < meshShape.length := by
    intro j hj
    obtain ⟨axis, haxis, rfl⟩ := mem_map.mp hj
    exact meshDimOf_lt (hmap.inRange axis haxis)
  have haddr : Forall₂ (fun digit j => digit < meshShape.getD j 0)
      (elementAddress meshShape unevenShardMeshDims tensorMap fullShape x)
      ((usedAxes tensorMap).map (meshDimOf meshShape.length)) := by
    rw [forall₂_map_right_iff]
    exact elementAddress_lt hpos hmap hrank hx
  have hcard := MixedRadix.card_digits_at hpos hdims hlt haddr
  have hcoords : ∀ rank, usedCoordinates meshShape tensorMap rank =
      ((usedAxes tensorMap).map (meshDimOf meshShape.length)).map
        ((MixedRadix.digits meshShape rank).getD · 0) := by
    intro rank
    rw [map_map, ← calculateMeshCoordinateForRank_eq_digits]
    rfl
  simp only [inArea_iff_elementAddress hpos hmap hrank hx, hcoords]
  rwa [map_map] at hcard

end

/-- The slices `area` of the ranks of a mesh tile a tensor under a map. -/
structure SlicesTile (meshShape : MeshShape) (tensorMap : TensorMap)
    (fullShape : List Nat) (area : Nat → List (Nat × Nat)) : Prop where
  inBounds : ∀ rank < meshShape.prod, AreaInBounds fullShape (area rank)
  sameSlice : ∀ rank < meshShape.prod, ∀ other < meshShape.prod,
    (∀ axis ∈ usedAxes tensorMap,
      axisCoordinate meshShape rank axis = axisCoordinate meshShape other axis) →
    area rank = area other
  disjoint : ∀ rank < meshShape.prod, ∀ other < meshShape.prod,
    (∃ axis ∈ usedAxes tensorMap,
      axisCoordinate meshShape rank axis ≠ axisCoordinate meshShape other axis) →
    ∀ x, ¬(InArea (area rank) x ∧ InArea (area other) x)
  holders : ∀ x, InShape fullShape x →
    ((Finset.range meshShape.prod).filter fun rank => InArea (area rank) x).card =
      meshShape.prod / ((usedAxes tensorMap).map (axisSize meshShape)).prod

theorem inShape_of_inArea {area : List (Nat × Nat)} {x : List Nat}
    (hbounds : AreaInBounds fullShape area) (hx : InArea area x) : InShape fullShape x := by
  induction hbounds generalizing x with
  | nil =>
    cases hx
    exact .nil
  | cons hle _ ih =>
    cases hx with
    | cons hmem htail => exact .cons (by omega) (ih htail)

theorem sliceArea_congr {rank other : Nat}
    (h : ∀ axis ∈ usedAxes tensorMap,
      axisCoordinate meshShape rank axis = axisCoordinate meshShape other axis) :
    sliceArea meshShape unevenShardMeshDims tensorMap fullShape rank =
      sliceArea meshShape unevenShardMeshDims tensorMap fullShape other := by
  induction tensorMap generalizing fullShape with
  | nil => simp [sliceArea]
  | cons mapping tensorMap ih =>
    cases fullShape with
    | nil => simp [sliceArea]
    | cons size fullShape =>
      have hhead : dimCoordinates meshShape rank mapping =
          dimCoordinates meshShape other mapping :=
        map_congr_left fun axis haxis => h axis (by simp [usedAxes, haxis])
      have htail := @ih fullShape fun axis haxis => h axis (by
        simp only [usedAxes, flatMap_cons, mem_append]
        exact .inr haxis)
      simpa [sliceArea, dimSlice, hhead] using htail

theorem sliceArea_tiles (hpos : ∀ size ∈ meshShape, 0 < size)
    (hmap : WellFormed meshShape.length tensorMap) (hrank : tensorMap.length = fullShape.length) :
    SlicesTile meshShape tensorMap fullShape
      (sliceArea meshShape unevenShardMeshDims tensorMap fullShape) where
  inBounds rank _ := sliceArea_inBounds hpos hmap hrank rank
  sameSlice _ _ _ _ h := sliceArea_congr h
  disjoint := by
    rintro rank - other - ⟨axis, haxis, hne⟩ x ⟨hx, hx'⟩
    have hshape := inShape_of_inArea (sliceArea_inBounds hpos hmap hrank rank) hx
    have hrankAddr := (inArea_iff_elementAddress hpos hmap hrank hshape rank).mp hx
    have hotherAddr := (inArea_iff_elementAddress hpos hmap hrank hshape other).mp hx'
    have heq : usedCoordinates meshShape tensorMap rank =
        usedCoordinates meshShape tensorMap other := hrankAddr.trans hotherAddr.symm
    exact hne (map_inj_left.mp heq axis haxis)
  holders x hx := by
    refine (Nat.div_eq_of_eq_mul_left ?_ (card_holders hpos hmap hrank hx).symm).symm
    refine Nat.pos_of_ne_zero (prod_ne_zero fun hzero => ?_)
    obtain ⟨axis, haxis, hsize⟩ := mem_map.mp hzero
    have hlt : axisCoordinate meshShape 0 axis < axisSize meshShape axis :=
      axisCoordinate_lt hpos 0 (hmap.inRange axis haxis)
    omega

/--
Whatever the sizes, the uneven mesh dimensions and the order of the axes inside
an entry, the slices the ranks are given tile the tensor.
-/
theorem inferSliceAreaByRank_tiles (meshShape : MeshShape) (tensorMap : TensorMap)
    (unevenShardMeshDims : List Int) (fullShape : List Nat)
    (hpos : ∀ size ∈ meshShape, 0 < size)
    (hmap : WellFormed meshShape.length tensorMap)
    (hrank : tensorMap.length = fullShape.length) :
    ∃ area : Nat → List (Nat × Nat),
      (∀ rank < meshShape.prod,
        inferSliceAreaByRank meshShape tensorMap rank fullShape unevenShardMeshDims =
          some (area rank)) ∧
      SlicesTile meshShape tensorMap fullShape area :=
  ⟨_, fun rank _ => inferSliceAreaByRank_eq hpos hmap hrank rank, sliceArea_tiles hpos hmap hrank⟩

/-- A 2 by 3 mesh cutting a dimension of size 7 twice, the first cut by ceil chunks. -/
theorem inferSliceAreaByRank_tiles_two_three :
    ∃ area : Nat → List (Nat × Nat),
      (∀ rank < [2, 3].prod,
        inferSliceAreaByRank [2, 3] [.axes [0, 1], .axis NONE] rank [7, 4] [1] = some (area rank)) ∧
      SlicesTile [2, 3] [.axes [0, 1], .axis NONE] [7, 4] area :=
  inferSliceAreaByRank_tiles [2, 3] [.axes [0, 1], .axis NONE] [1] [7, 4]
    (by decide) ⟨by decide, by decide⟩ rfl

end HyperParallel.DTensor
