import HyperParallel.Redistribution.ScatterShards

/-!
# The reported ranges

The range reported for a rank is a nested cut whose levels are the mesh
dimensions that shard the dimension.  In a plain layout the cuts of more than
one part stand in the order of the mesh dimensions.
-/

namespace HyperParallel.Redistribution

open Foundation List
open Foundation.Chunking
open DTensor
open Checkpoint (inferSliceAreaByLayout)

/-! ## The two rules -/

theorem balancedRule_lastExact : balancedRule.LastExact := by
  intro size count hcount
  have hmod := Nat.mod_lt size hcount
  rw [ChunkRule.lastLength, balancedRule_range, inferBalancedChunkRange]
  generalize size / count = shardSize
  generalize size % count = remainder at hmod ⊢
  dsimp only
  split <;> omega

theorem ceilRule_lastAtMost : ceilRule.LastAtMost := by
  intro size count hcount
  have hdiv := Nat.div_add_mod size count
  have hmod := Nat.mod_lt size hcount
  have hceil := le_mul_ceilDiv size count hcount
  have hsplit : ∀ length, count * length = (count - 1) * length + length := by
    intro length
    obtain ⟨others, rfl⟩ := Nat.exists_eq_add_of_lt hcount
    rw [Nat.add_sub_cancel]
    ring
  rw [ChunkRule.lastLength, ceilRule_range, inferCeilChunkRange]
  generalize (size + count - 1) / count = chunkSize at hceil ⊢
  generalize size / count = shardSize at *
  generalize size % count = remainder at *
  rw [hsplit] at hdiv hceil
  dsimp only
  rcases Nat.lt_or_ge shardSize chunkSize with hlt | hle
  · have hmul : (count - 1) * (shardSize + 1) ≤ (count - 1) * chunkSize := Nat.mul_le_mul_left _ hlt
    rw [Nat.mul_add, Nat.mul_one] at hmul
    omega
  · have hmul : (count - 1) * chunkSize ≤ (count - 1) * shardSize := Nat.mul_le_mul_left _ hle
    omega

theorem balancedRule_oneShort : balancedRule.OneShort := by
  intro size count k hsize hk
  have hcount : 0 < count := by omega
  have hpos : 0 < count * size := Nat.mul_pos hcount hsize
  obtain ⟨less, rfl⟩ : ∃ less, size = less + 1 := ⟨size - 1, by omega⟩
  have hnumber : count * (less + 1) - 1 = count - 1 + count * less := by
    rw [Nat.mul_add]
    omega
  have hquotient : (count * (less + 1) - 1) / count = less := by
    rw [hnumber, Nat.add_mul_div_left _ _ hcount, Nat.div_eq_of_lt (by omega), Nat.zero_add]
  have hremainder : (count * (less + 1) - 1) % count = count - 1 := by
    rw [hnumber, Nat.add_mul_mod_self_left, Nat.mod_eq_of_lt (by omega)]
  have hfits : (k + 1) * (less + 1) ≤ count * (less + 1) := Nat.mul_le_mul_right _ hk
  have hlong : k + 1 < count → (k + 1 + 1) * (less + 1) ≤ count * (less + 1) :=
    fun hlt => Nat.mul_le_mul_right _ hlt
  have hk₁ : (k + 1) * (less + 1) = k * less + k + less + 1 := by ring
  have hk₂ : (k + 1 + 1) * (less + 1) = k * less + k + 2 * less + 2 := by ring
  have hk₀ : k * (less + 1) = k * less + k := by ring
  rw [balancedRule_range, inferBalancedChunkRange, hquotient, hremainder, hk₁, hk₀]
  rw [hk₁] at hfits
  rw [hk₂] at hlong
  refine Prod.ext ?_ ?_
  · dsimp only
    omega
  · dsimp only
    rcases Nat.lt_or_ge (k + 1) count with hlt | hle
    · have := hlong hlt
      rw [if_pos (by omega)]
      omega
    · have hall : count * (less + 1) = k * less + k + less + 1 := by
        rw [← hk₁, show count = k + 1 by omega]
      rw [if_neg (by omega), hall]
      omega

/-! ## The range of a rank -/

section Ranges

variable {layout : Layout} {tensorMap : TensorMap} {placements : List Placement}
  {shape : List Nat}

def unevenDims (layout : Layout) : List Int :=
  (unevenShardMeshDims layout.placements).map Int.ofNat

def coordinateOf (layout : Layout) (rankId meshDim : Nat) : Nat :=
  (calculateMeshCoordinateForRank layout.mesh.meshShape rankId).getD meshDim 0

theorem ShardLayout.inferSliceAreaByLayout_eq (h : ShardLayout layout tensorMap placements shape)
    (rankId : Nat) : inferSliceAreaByLayout layout rankId shape =
      some (sliceArea layout.mesh.meshShape (unevenDims layout) tensorMap shape rankId) := by
  rw [inferSliceAreaByLayout, h.map_eq]
  exact inferSliceAreaByRank_eq h.sizes_pos h.wellFormed h.length_eq rankId

theorem ShardLayout.getSliceTensorByLayout_eq (h : ShardLayout layout tensorMap placements shape)
    {rank : Nat} (hrank : rank ∈ layout.mesh.rankList) :
    getSliceTensorByLayout layout rank shape =
      .ok (sliceArea layout.mesh.meshShape (unevenDims layout) tensorMap shape
        (layout.mesh.rankList.idxOf rank)) := by
  have hbounds := @sliceArea_inBounds _ (unevenDims layout) _ _ h.sizes_pos h.wellFormed
    h.length_eq (layout.mesh.rankList.idxOf rank)
  rw [getSliceTensorByLayout, if_pos hrank, h.inferSliceAreaByLayout_eq]
  dsimp only
  congr 1
  generalize sliceArea layout.mesh.meshShape (unevenDims layout) tensorMap shape
    (layout.mesh.rankList.idxOf rank) = area at hbounds
  clear h
  induction hbounds with
  | nil => rfl
  | @cons size range shape area hrange _ ih =>
    have htail : getSliceData (range :: area) (size :: shape) =
        (min range.1 size, max (min range.1 size) (min range.2 size)) ::
          getSliceData area shape := rfl
    rw [htail, ih]
    refine congrArg (· :: area) (Prod.ext ?_ ?_)
    · dsimp only
      omega
    · dsimp only
      omega

variable {mapping : DimMapping} {dim : Nat}

theorem ShardLayout.getElem?_map (h : ShardLayout layout tensorMap placements shape) {size : Nat}
    (hsize : shape[dim]? = some size) : ∃ mapping, tensorMap[dim]? = some mapping :=
  ⟨_, List.getElem?_eq_getElem (h.length_eq ▸ (List.getElem?_eq_some_iff.mp hsize).1)⟩

theorem getElem?_sliceArea (meshShape : MeshShape) (uneven : List Int) {rankId size : Nat}
    (hsize : shape[dim]? = some size) (hmap : tensorMap[dim]? = some mapping) :
    (sliceArea meshShape uneven tensorMap shape rankId)[dim]? =
      some (dimSlice meshShape uneven rankId size mapping) := by
  rw [sliceArea, getElem?_zipWith, hsize, hmap]

theorem map_count_dimLevels (meshShape : MeshShape) (uneven : List Int) (mapping : DimMapping) :
    (dimLevels meshShape uneven mapping).map Level.count =
      (meshOrder meshShape.length mapping).map (meshShape.getD · 0) := by
  rw [dimLevels, meshOrder, map_map, map_map]
  rfl

theorem dimCoordinates_eq (layout : Layout) (rankId : Nat) (mapping : DimMapping) :
    dimCoordinates layout.mesh.meshShape rankId mapping =
      (meshOrder layout.mesh.meshShape.length mapping).map (coordinateOf layout rankId) := by
  rw [dimCoordinates, meshOrder, map_map]
  rfl

theorem dimLevels_forall {P : ChunkRule → Prop} (hceil : P ceilRule) (hbalanced : P balancedRule)
    (meshShape : MeshShape) (uneven : List Int) (mapping : DimMapping) :
    ∀ level ∈ dimLevels meshShape uneven mapping, P level.rule := by
  intro level hlevel
  obtain ⟨axis, -, rfl⟩ := mem_map.mp hlevel
  simp only [axisLevel]
  split
  · exact hceil
  · exact hbalanced

theorem dimLevels_balanced {P : ChunkRule → Prop} (hbalanced : P balancedRule)
    (meshShape : MeshShape) (mapping : DimMapping) :
    ∀ level ∈ dimLevels meshShape [] mapping, P level.rule := by
  intro level hlevel
  obtain ⟨axis, -, rfl⟩ := mem_map.mp hlevel
  simpa [axisLevel] using hbalanced

/-! ## The counts -/

theorem nodup_shardingDims (placements : List Placement) (meshDims dim : Nat) :
    (shardingDims placements meshDims dim).Nodup :=
  List.nodup_range.filter _

theorem ShardLayout.meshOrder_perm (h : ShardLayout layout tensorMap placements shape)
    (hmap : tensorMap[dim]? = some mapping) :
    (meshOrder layout.mesh.meshShape.length mapping).Perm
      (shardingDims placements layout.mesh.meshShape.length dim) := by
  have hmem := mem_of_getElem? hmap
  refine (perm_ext_iff_of_nodup (nodup_meshOrder h.wellFormed hmem)
    (nodup_shardingDims _ _ _)).mpr fun meshDim => ?_
  rw [shardingDims, mem_filter, mem_range, h.mem_meshOrder_iff hmap, iff_and_self]
  exact fun hsharding => meshOrder_lt h.wellFormed hmem _ ((h.mem_meshOrder_iff hmap).mpr hsharding)

theorem ShardLayout.counts_eq (h : ShardLayout layout tensorMap placements shape)
    (hmap : tensorMap[dim]? = some mapping) (uneven : List Int) :
    counts (dimLevels layout.mesh.meshShape uneven mapping) =
      parts layout.mesh placements layout.mesh.meshShape.length dim := by
  rw [counts, map_count_dimLevels, parts]
  exact ((h.meshOrder_perm hmap).map _).prod_eq

/-! ## The last rank -/

theorem ShardLayout.exists_last (h : ShardLayout layout tensorMap placements shape) :
    ∃ rank ∈ layout.mesh.rankList, ∀ mapping ∈ tensorMap,
      dimCoordinates layout.mesh.meshShape (layout.mesh.rankList.idxOf rank) mapping =
        lastIndices (dimLevels layout.mesh.meshShape (unevenDims layout) mapping) := by
  have hlast : Forall₂ (· < ·) (layout.mesh.meshShape.map (· - 1)) layout.mesh.meshShape := by
    rw [forall₂_map_left_iff, forall₂_same]
    intro size hsize
    have := h.sizes_pos size hsize
    omega
  have hdigits := MixedRadix.digits_value hlast
  have hlt := MixedRadix.value_lt hlast
  generalize MixedRadix.value layout.mesh.meshShape
    (layout.mesh.meshShape.map (· - 1)) = index at hdigits hlt
  have hidx : index < layout.mesh.rankList.length := layout.mesh.ranks_ok ▸ hlt
  refine ⟨layout.mesh.rankList[index], getElem_mem hidx, fun mapping hmapping => ?_⟩
  rw [h.ranks_nodup.idxOf_getElem index hidx, dimCoordinates, dimLevels, lastIndices, map_map]
  refine map_congr_left fun axis haxis => ?_
  have hmesh := meshDimOf_lt (h.wellFormed.entry hmapping axis haxis)
  simp only [Function.comp_apply, axisCoordinate, axisLevel,
    calculateMeshCoordinateForRank_eq_digits, hdigits]
  rw [getD_eq_getElem _ _ (by simpa using hmesh), getD_eq_getElem _ _ hmesh, getElem_map]

/-! ## Even dimensions -/

def partOrder (layout : Layout) (rankId : Nat) (mapping : DimMapping) : Nat :=
  MixedRadix.value
    ((meshOrder layout.mesh.meshShape.length mapping).map (layout.mesh.meshShape.getD · 0))
    ((meshOrder layout.mesh.meshShape.length mapping).map (coordinateOf layout rankId))

theorem ShardLayout.dimSlice_even (h : ShardLayout layout tensorMap placements shape)
    (hmap : tensorMap[dim]? = some mapping) (uneven : List Int) (rankId : Nat) {size : Nat}
    (hdvd : parts layout.mesh placements layout.mesh.meshShape.length dim ∣ size) :
    dimSlice layout.mesh.meshShape uneven rankId size mapping =
      evenRange (size / parts layout.mesh placements layout.mesh.meshShape.length dim)
        (partOrder layout rankId mapping) := by
  have hentry := h.wellFormed.entry (mem_of_getElem? hmap)
  obtain ⟨width, rfl⟩ := hdvd
  have hnarrow := narrow_of_even
    (@dimCoordinates_inLevels _ uneven h.sizes_pos mapping rankId hentry)
    (dimLevels_forall ceilRule_even balancedRule_even _ _ _) width
  rw [Nat.mul_div_cancel_left _ (parts_pos h le_rfl dim), dimSlice, ← h.counts_eq hmap uneven,
    counts, hnarrow, map_count_dimLevels, dimCoordinates_eq]
  rfl

/-! ## Plain layouts -/

theorem ShardLayout.meshOrder_plain (h : ShardLayout layout tensorMap placements shape)
    (hplain : Plain placements) (hmap : tensorMap[dim]? = some mapping) :
    (meshOrder layout.mesh.meshShape.length mapping).Pairwise fun front back =>
      back < front → layout.mesh.meshShape.getD front 0 = 1 := by
  have hmem := mem_of_getElem? hmap
  have hget : ∀ meshDim ∈ meshOrder layout.mesh.meshShape.length mapping,
      meshDimSize layout.mesh.meshShape meshDim = layout.mesh.meshShape.getD meshDim 0 ∧
        0 < layout.mesh.meshShape.getD meshDim 0 := by
    intro meshDim hdim
    have hlt := meshOrder_lt h.wellFormed hmem meshDim hdim
    refine ⟨?_, meshSize_pos h hlt⟩
    rw [meshDimSize, getD_eq_getElem _ _ hlt, getD_eq_getElem _ _ hlt]
  refine List.Pairwise.imp_of_mem (fun hfront _ himp hlt => (hget _ hfront).1 ▸ himp hlt)
    (OrderCode.pairwise_of_code_le_one (nodup_meshOrder h.wellFormed hmem)
      (fun meshDim hdim => (hget meshDim hdim).1 ▸ (hget meshDim hdim).2) fun meshDim hdim => ?_)
  obtain ⟨uneven, hused⟩ := h.encodes.used (mapping, dim)
    (mem_zipIdx_iff_getElem?.mpr hmap) meshDim hdim
  by_contra hcode
  rw [Layout.shardPlacement, dif_pos (Nat.lt_of_not_le hcode)] at hused
  exact hplain _ (mem_of_getElem? hused) _ _ _ _ rfl

theorem ShardLayout.partOrder_plain (h : ShardLayout layout tensorMap placements shape)
    (hplain : Plain placements) (hmap : tensorMap[dim]? = some mapping) (rankId : Nat) :
    partOrder layout rankId mapping = partIndex layout.mesh placements
      layout.mesh.meshShape.length dim (coordinateOf layout rankId) := by
  have hperm := h.meshOrder_perm hmap
  have hmem := mem_of_getElem? hmap
  have hdigit : ∀ meshDim ∈ meshOrder layout.mesh.meshShape.length mapping,
      coordinateOf layout rankId meshDim < layout.mesh.meshShape.getD meshDim 0 := by
    intro meshDim hdim
    obtain ⟨axis, haxis, rfl⟩ := mem_map.mp hdim
    exact axisCoordinate_lt h.sizes_pos rankId (h.wellFormed.entry hmem axis haxis)
  have hsame : (meshOrder layout.mesh.meshShape.length mapping).filter
      (fun meshDim => layout.mesh.meshShape.getD meshDim 0 ≠ 1) =
      (shardingDims placements layout.mesh.meshShape.length dim).filter
        fun meshDim => layout.mesh.meshShape.getD meshDim 0 ≠ 1 := by
    refine ListOrder.eq_of_perm_of_sorted (hperm.filter _) ?_
      (((pairwise_lt_range.imp Nat.le_of_lt).filter _).filter _)
    rw [pairwise_filter]
    refine (h.meshOrder_plain hplain hmap).imp fun himp hfront _ => ?_
    exact Nat.le_of_not_lt fun hlt => (of_decide_eq_true hfront) (himp hlt)
  rw [partOrder, partIndex, ← MixedRadix.value_filter_ones _ _ hdigit, hsame,
    MixedRadix.value_filter_ones _ _ fun meshDim hdim => hdigit meshDim (hperm.mem_iff.mpr hdim)]

end Ranges

end HyperParallel.Redistribution
