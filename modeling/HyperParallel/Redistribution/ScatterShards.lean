import HyperParallel.Foundation.ChunkAgreement
import HyperParallel.Redistribution.ShardProducers

/-!
# Scattering a tensor along the mesh

A rank is fed along one mesh dimension after the other: its place in the last
group, and before that what its source there was fed.  Even dimensions are cut
once more at each mesh dimension that shards them, and every buffer keeps the
shape of a first chunk, so a dimension that is not even comes out too long.
-/

namespace HyperParallel.Redistribution

open Foundation List
open DTensor

/-! ## Groups along a mesh dimension -/

section Group

variable {mesh : DeviceMesh} {meshDim rank : Nat}

theorem idxOf_lt (hrank : rank ∈ mesh.rankList) :
    mesh.rankList.idxOf rank < mesh.meshShape.prod :=
  mesh.ranks_ok ▸ List.idxOf_lt_length_iff.mpr hrank

theorem mem_dimSplitRanks {other : Nat} :
    other ∈ dimSplitRanks mesh meshDim rank ↔
      ∃ index ∈ onAxis mesh.meshShape meshDim (mesh.rankList.idxOf rank),
        mesh.rankList.getD index 0 = other := by
  rw [dimSplitRanks, (mergeSort_perm _ _).mem_iff, mem_map]

theorem mem_rankList_of_mem (hrank : rank ∈ mesh.rankList) (hdim : meshDim < mesh.meshShape.length)
    {other : Nat} (h : other ∈ dimSplitRanks mesh meshDim rank) : other ∈ mesh.rankList := by
  obtain ⟨index, hindex, rfl⟩ := mem_dimSplitRanks.mp h
  have hlt := ((mem_onAxis_iff (idxOf_lt hrank) hdim).mp hindex).1
  rw [getD_eq_getElem _ _ (mesh.ranks_ok ▸ hlt)]
  exact getElem_mem _

theorem self_mem_dimSplitRanks (hrank : rank ∈ mesh.rankList)
    (hdim : meshDim < mesh.meshShape.length) : rank ∈ dimSplitRanks mesh meshDim rank :=
  mem_dimSplitRanks.mpr ⟨_, (mem_onAxis_iff (idxOf_lt hrank) hdim).mpr
    ⟨idxOf_lt hrank, .refl _ _ _⟩, getD_idxOf hrank⟩

theorem length_dimSplitRanks (mesh : DeviceMesh) (meshDim rank : Nat) :
    (dimSplitRanks mesh meshDim rank).length = mesh.meshShape.getD meshDim 0 := by
  rw [dimSplitRanks, (mergeSort_perm _ _).length_eq, length_map, onAxis, length_map, length_range]

end Group

/-! ## What a rank is fed -/

def placeOf (mesh : DeviceMesh) (meshDim rank : Nat) : Nat :=
  (dimSplitRanks mesh meshDim rank).idxOf rank

def sourceOf (mesh : DeviceMesh) (srcDataRank meshDim rank : Nat) : Nat :=
  (dimSplitRanks mesh meshDim rank).getD srcDataRank 0

def fed (mesh : DeviceMesh) (srcDataRank : Nat) : Nat → Nat → Nat → Nat
  | 0, _, _ => 0
  | meshDims + 1, rank, meshDim =>
    if meshDim = meshDims then placeOf mesh meshDim rank
    else fed mesh srcDataRank meshDims (sourceOf mesh srcDataRank meshDims rank) meshDim

section Fed

variable {mesh : DeviceMesh} {srcDataRank : Nat}

theorem placeOf_lt {meshDim rank : Nat} (hrank : rank ∈ mesh.rankList)
    (hdim : meshDim < mesh.meshShape.length) :
    placeOf mesh meshDim rank < mesh.meshShape.getD meshDim 0 := by
  rw [← length_dimSplitRanks mesh meshDim rank]
  exact idxOf_lt_length_iff.mpr (self_mem_dimSplitRanks hrank hdim)

section

variable (hsrc : ∀ size ∈ mesh.meshShape, srcDataRank < size)

include hsrc

theorem getElem?_sourceOf {meshDim : Nat} (rank : Nat) (hdim : meshDim < mesh.meshShape.length) :
    (dimSplitRanks mesh meshDim rank)[srcDataRank]? =
      some (sourceOf mesh srcDataRank meshDim rank) := by
  have hlt : srcDataRank < (dimSplitRanks mesh meshDim rank).length := by
    rw [length_dimSplitRanks, getD_eq_getElem _ _ hdim]
    exact hsrc _ (getElem_mem hdim)
  rw [sourceOf, getD_eq_getElem _ _ hlt, getElem?_eq_getElem hlt]

theorem sourceOf_mem {meshDim rank : Nat} (hrank : rank ∈ mesh.rankList)
    (hdim : meshDim < mesh.meshShape.length) :
    sourceOf mesh srcDataRank meshDim rank ∈ mesh.rankList :=
  mem_rankList_of_mem hrank hdim (List.mem_of_getElem? (getElem?_sourceOf hsrc rank hdim))

theorem fed_lt {meshDims : Nat} (hdims : meshDims ≤ mesh.meshShape.length) {rank meshDim : Nat}
    (hrank : rank ∈ mesh.rankList) (hdim : meshDim < meshDims) :
    fed mesh srcDataRank meshDims rank meshDim < mesh.meshShape.getD meshDim 0 := by
  induction meshDims generalizing rank with
  | zero => omega
  | succ meshDims ih =>
    rw [fed]
    split
    · exact placeOf_lt hrank (by omega)
    · exact ih (by omega) (sourceOf_mem hsrc hrank (by omega)) (by omega)

end

end Fed

/-! ## Even boxes -/

def evenRange (width index : Nat) : Nat × Nat := (index * width, (index + 1) * width)

def sharding (placements : List Placement) (dim meshDim : Nat) : Bool :=
  ((placements[meshDim]?).bind Placement.asShard).map Prod.fst = some (dim : Int)

def shardingDims (placements : List Placement) (meshDims dim : Nat) : List Nat :=
  (List.range meshDims).filter (sharding placements dim)

def parts (mesh : DeviceMesh) (placements : List Placement) (meshDims dim : Nat) : Nat :=
  ((shardingDims placements meshDims dim).map (mesh.meshShape.getD · 0)).prod

def partIndex (mesh : DeviceMesh) (placements : List Placement) (meshDims dim : Nat)
    (digit : Nat → Nat) : Nat :=
  MixedRadix.value ((shardingDims placements meshDims dim).map (mesh.meshShape.getD · 0))
    ((shardingDims placements meshDims dim).map digit)

def evenBox (mesh : DeviceMesh) (placements : List Placement) (shape : List Nat) (meshDims : Nat)
    (digit : Nat → Nat) : Box :=
  shape.zipIdx.map fun entry => evenRange (entry.1 / parts mesh placements meshDims entry.2)
    (partIndex mesh placements meshDims entry.2 digit)

section EvenBox

variable {mesh : DeviceMesh} {placements : List Placement} {shape : List Nat} {meshDims dim : Nat}

theorem shardingDims_succ_of (h : sharding placements dim meshDims = true) :
    shardingDims placements (meshDims + 1) dim = shardingDims placements meshDims dim ++ [meshDims] := by
  rw [shardingDims, range_succ, filter_append, filter_singleton, h]
  rfl

theorem shardingDims_succ_of_not (h : sharding placements dim meshDims = false) :
    shardingDims placements (meshDims + 1) dim = shardingDims placements meshDims dim := by
  rw [shardingDims, range_succ, filter_append, filter_singleton, h]
  exact append_nil _

theorem parts_succ_of (h : sharding placements dim meshDims = true) :
    parts mesh placements (meshDims + 1) dim =
      parts mesh placements meshDims dim * mesh.meshShape.getD meshDims 0 := by
  rw [parts, shardingDims_succ_of h, map_append, prod_append, map_singleton, prod_singleton, parts]

theorem partIndex_succ_of (h : sharding placements dim meshDims = true) (digit : Nat → Nat) :
    partIndex mesh placements (meshDims + 1) dim digit =
      partIndex mesh placements meshDims dim digit * mesh.meshShape.getD meshDims 0 +
        digit meshDims := by
  rw [partIndex, shardingDims_succ_of h, map_append, map_append,
    MixedRadix.value_append (by simp), partIndex]
  simp [MixedRadix.value]

theorem partIndex_congr {digit digit' : Nat → Nat}
    (h : ∀ meshDim < meshDims, digit meshDim = digit' meshDim) :
    partIndex mesh placements meshDims dim digit = partIndex mesh placements meshDims dim digit' := by
  have hmap : (shardingDims placements meshDims dim).map digit =
      (shardingDims placements meshDims dim).map digit' :=
    map_congr_left fun meshDim hmem =>
      h meshDim (mem_range.mp (mem_filter.mp hmem).1)
  rw [partIndex, hmap, partIndex]

theorem parts_dvd (hle : meshDims ≤ mesh.meshShape.length) :
    parts mesh placements meshDims dim ∣ parts mesh placements mesh.meshShape.length dim := by
  obtain ⟨more, hmore⟩ := Nat.exists_eq_add_of_le hle
  rw [parts, parts, shardingDims, shardingDims, hmore, range_add, filter_append,
    map_append, prod_append]
  exact Nat.dvd_mul_right _ _

theorem getElem?_evenBox (digit : Nat → Nat) (dim : Nat) :
    (evenBox mesh placements shape meshDims digit)[dim]? = shape[dim]?.map fun size =>
      evenRange (size / parts mesh placements meshDims dim)
        (partIndex mesh placements meshDims dim digit) := by
  rw [evenBox, getElem?_map, getElem?_zipIdx, Option.map_map, Nat.zero_add]
  rfl

theorem length_evenBox (digit : Nat → Nat) :
    (evenBox mesh placements shape meshDims digit).length = shape.length := by
  rw [evenBox, length_map, length_zipIdx]

theorem evenRange_length (width index : Nat) :
    (evenRange width index).2 - (evenRange width index).1 = width := by
  rw [evenRange, Nat.add_mul, Nat.one_mul]
  exact Nat.add_sub_cancel_left _ _

theorem boxShape_evenBox (digit digit' : Nat → Nat) :
    boxShape (evenBox mesh placements shape meshDims digit) =
      boxShape (evenBox mesh placements shape meshDims digit') := by
  rw [boxShape, boxShape, evenBox, evenBox, map_map, map_map]
  refine map_congr_left fun entry _ => ?_
  simp only [Function.comp_apply, evenRange_length]

theorem evenBox_zero (digit : Nat → Nat) :
    evenBox mesh placements shape 0 digit = wholeBox shape := by
  refine ext_getElem? fun dim => ?_
  rw [getElem?_evenBox, wholeBox, getElem?_map]
  simp [parts, partIndex, shardingDims, evenRange, MixedRadix.value]

theorem evenBox_succ_of_not (h : ∀ dim, sharding placements dim meshDims = false)
    {digit digit' : Nat → Nat} (heq : ∀ meshDim < meshDims, digit meshDim = digit' meshDim) :
    evenBox mesh placements shape (meshDims + 1) digit' =
      evenBox mesh placements shape meshDims digit := by
  refine ext_getElem? fun dim => ?_
  rw [getElem?_evenBox, getElem?_evenBox, partIndex_congr heq, parts, partIndex,
    shardingDims_succ_of_not (h dim), ← parts, ← partIndex]

theorem evenBox_set (hdim : sharding placements dim meshDims = true)
    (hothers : ∀ other, other ≠ dim → sharding placements other meshDims = false)
    {size width : Nat} (hsize : shape[dim]? = some size)
    (hwidth : width = size / parts mesh placements (meshDims + 1) dim)
    {digit digit' : Nat → Nat} (heq : ∀ meshDim < meshDims, digit meshDim = digit' meshDim)
    {start : Nat}
    (hstart : start = partIndex mesh placements meshDims dim digit *
      (mesh.meshShape.getD meshDims 0 * width)) :
    (evenBox mesh placements shape meshDims digit).set dim
        (start + digit' meshDims * width, start + (digit' meshDims + 1) * width) =
      evenBox mesh placements shape (meshDims + 1) digit' := by
  refine ext_getElem? fun other => ?_
  have hlt : dim < (evenBox mesh placements shape meshDims digit).length := by
    rw [length_evenBox]
    exact (List.getElem?_eq_some_iff.mp hsize).1
  rw [getElem?_evenBox]
  by_cases hother : other = dim
  · subst hother
    rw [getElem?_set_self hlt, hsize, Option.map_some, partIndex_succ_of hdim,
      ← partIndex_congr heq, evenRange, ← hwidth, hstart]
    refine congrArg some (Prod.ext ?_ ?_)
    · dsimp only
      ring
    · dsimp only
      ring
  · rw [getElem?_set_ne (Ne.symm hother), getElem?_evenBox, parts, partIndex,
      partIndex, parts, shardingDims_succ_of_not (hothers other hother), ← partIndex,
      ← partIndex, partIndex_congr heq]

end EvenBox

/-! ## What a mesh dimension does -/

section Run

variable {layout : Layout} {tensorMap : TensorMap} {placements : List Placement}
  {shape : List Nat} {collectives : Collectives} {srcDataRank : Nat}

variable {meshDim : Nat}

theorem sharding_iff {dim : Nat} :
    sharding placements dim meshDim = true ↔ ∃ placement uneven,
      placements[meshDim]? = some placement ∧ placement.asShard = some ((dim : Int), uneven) := by
  rw [sharding, decide_eq_true_iff, Option.map_eq_some_iff]
  constructor
  · rintro ⟨⟨_, uneven⟩, hbind, rfl⟩
    obtain ⟨placement, hget, hshard⟩ := Option.bind_eq_some_iff.mp hbind
    exact ⟨placement, uneven, hget, hshard⟩
  · rintro ⟨placement, uneven, hget, hshard⟩
    exact ⟨_, by rw [hget, Option.bind_some, hshard], rfl⟩

theorem sharding_unique {dim other : Nat} (h : sharding placements dim meshDim = true)
    (hne : other ≠ dim) : sharding placements other meshDim = false := by
  rw [← Bool.not_eq_true]
  intro hother
  obtain ⟨placement, uneven, hget, hshard⟩ := sharding_iff.mp h
  obtain ⟨placement', uneven', hget', hshard'⟩ := sharding_iff.mp hother
  rw [hget] at hget'
  cases hget'
  rw [hshard] at hshard'
  cases hshard'
  exact hne rfl

theorem shardPlacement_asShard (tensorDim splitFactor : Nat) (unevenShard : Bool) :
    (Layout.shardPlacement tensorDim splitFactor unevenShard).asShard =
      some ((tensorDim : Int), unevenShard) := by
  rw [Layout.shardPlacement]
  split <;> rfl

theorem ShardLayout.mem_meshOrder_iff (h : ShardLayout layout tensorMap placements shape)
    {dim : Nat} {mapping : DimMapping} (hget : tensorMap[dim]? = some mapping) :
    meshDim ∈ meshOrder layout.mesh.meshShape.length mapping ↔
      sharding placements dim meshDim = true := by
  have hentry : (mapping, dim) ∈ tensorMap.zipIdx := mem_zipIdx_iff_getElem?.mpr hget
  constructor
  · intro hmem
    obtain ⟨uneven, hused⟩ := h.encodes.used _ hentry meshDim hmem
    exact sharding_iff.mpr ⟨_, uneven, hused, shardPlacement_asShard _ _ _⟩
  · intro hsharding
    obtain ⟨placement, uneven, hplacement, hshard⟩ := sharding_iff.mp hsharding
    obtain ⟨⟨other, place⟩, hother, hmem⟩ := h.encodes.unused meshDim placement hplacement
      (by rw [hshard]; exact Option.some_ne_none _)
    obtain ⟨uneven', hused⟩ := h.encodes.used _ hother meshDim hmem
    rw [hplacement] at hused
    rw [Option.some.inj hused, shardPlacement_asShard] at hshard
    obtain ⟨rfl, -⟩ : place = dim ∧ _ := by simpa using hshard
    rw [mem_zipIdx_iff_getElem?.mp hother] at hget
    rwa [← Option.some.inj hget]

theorem ShardLayout.placement_cases (h : ShardLayout layout tensorMap placements shape)
    (hplain : Plain placements) (hlt : meshDim < layout.mesh.meshShape.length) :
    (∃ dim : Nat, ∃ uneven, placements[meshDim]? = some (.shard dim uneven) ∧ dim < shape.length ∧
      sharding placements dim meshDim = true) ∨
    ((placements[meshDim]? = some .replicate ∨
        ∃ op, placements[meshDim]? = some (.partialReduce op)) ∧
      ∀ dim, sharding placements dim meshDim = false) := by
  have hnone : ∀ placement : Placement, placements[meshDim]? = some placement →
      placement.asShard = none → ∀ dim, sharding placements dim meshDim = false := by
    intro placement hplacement hshard dim
    rw [sharding, hplacement, Option.bind_some, hshard]
    rfl
  obtain ⟨placement, hget⟩ : ∃ placement, placements[meshDim]? = some placement :=
    ⟨_, getElem?_eq_getElem (h.encodes.length_eq ▸ hlt)⟩
  have hmem := mem_of_getElem? hget
  cases placement with
  | replicate => exact .inr ⟨.inl hget, hnone _ hget rfl⟩
  | partialReduce op => exact .inr ⟨.inr ⟨op, hget⟩, hnone _ hget rfl⟩
  | stridedShard dim splitFactor uneven pos => exact absurd rfl (hplain _ hmem _ _ _ _)
  | raggedShard ragged => exact absurd rfl ((h.not_ragged _ hmem).1 ragged)
  | stridedRaggedShard ragged splitFactor =>
    exact absurd rfl ((h.not_ragged _ hmem).2 ragged splitFactor)
  | shard dim uneven =>
    obtain ⟨⟨mapping, place⟩, hentry, horder⟩ := h.encodes.unused meshDim _ hget
      (Option.some_ne_none _)
    have hplace := mem_zipIdx_iff_getElem?.mp hentry
    obtain ⟨placement, uneven', hget', hshard⟩ :=
      sharding_iff.mp ((h.mem_meshOrder_iff hplace).mp horder)
    rw [hget] at hget'
    cases hget'
    cases hshard
    exact .inl ⟨place, uneven, hget, h.length_eq ▸ (List.getElem?_eq_some_iff.mp hplace).1,
      (h.mem_meshOrder_iff hplace).mp horder⟩

/-! ## Even dimensions -/

def EvenlyCut (mesh : DeviceMesh) (placements : List Placement) (shape : List Nat) : Prop :=
  ∀ dim size, shape[dim]? = some size → parts mesh placements mesh.meshShape.length dim ∣ size

section

variable (h : ShardLayout layout tensorMap placements shape)

include h

theorem meshSize_pos (hlt : meshDim < layout.mesh.meshShape.length) :
    0 < layout.mesh.meshShape.getD meshDim 0 := by
  rw [getD_eq_getElem _ _ hlt]
  exact h.sizes_pos _ (getElem_mem hlt)

theorem parts_pos {meshDims : Nat} (hle : meshDims ≤ layout.mesh.meshShape.length) (dim : Nat) :
    0 < parts layout.mesh placements meshDims dim := by
  refine Nat.pos_of_ne_zero (prod_ne_zero fun hzero => ?_)
  obtain ⟨meshDim, hmem, hsize⟩ := mem_map.mp hzero
  have hlt := mem_range.mp (mem_filter.mp hmem).1
  exact absurd hsize (meshSize_pos h (hlt.trans_le hle)).ne'

theorem scatterChunks_evenBox (heven : EvenlyCut layout.mesh placements shape) {dim : Nat}
    (hlt : meshDim < layout.mesh.meshShape.length) (hdim : sharding placements dim meshDim = true)
    (hrange : dim < shape.length) (digit : Nat → Nat) :
    scatterChunks layout.mesh (evenBox layout.mesh placements shape meshDim digit) meshDim dim =
      .ok ((range (layout.mesh.meshShape.getD meshDim 0)).map fun place =>
        evenBox layout.mesh placements shape (meshDim + 1)
          (Function.update digit meshDim place)) := by
  have hsize := getElem?_eq_getElem hrange
  have hcount := meshSize_pos h hlt
  have hbox := @getElem?_evenBox layout.mesh placements shape meshDim digit dim
  rw [hsize, Option.map_some] at hbox
  have hdvd : parts layout.mesh placements (meshDim + 1) dim ∣ shape[dim] :=
    (parts_dvd hlt).trans (heven dim _ hsize)
  have hwidth : shape[dim] / parts layout.mesh placements meshDim dim =
      layout.mesh.meshShape.getD meshDim 0 *
        (shape[dim] / parts layout.mesh placements (meshDim + 1) dim) := by
    obtain ⟨width, hwidth⟩ := hdvd
    rw [hwidth, Nat.mul_div_cancel_left _ (parts_pos h hlt dim), parts_succ_of hdim, Nat.mul_assoc,
      Nat.mul_div_cancel_left _ (parts_pos h hlt.le dim)]
  have hnonneg : ¬ (dim : Int) < 0 := by omega
  rw [scatterChunks, if_neg hcount.ne', normalizeShardDim, if_neg hnonneg, chunk_eq hbox,
    evenRange_length, hwidth, chunkRanges_mul hcount, map_map]
  refine congrArg Except.ok (map_congr_left fun place _ => ?_)
  have hset := @evenBox_set layout.mesh placements shape meshDim dim hdim
    (fun _ hne => sharding_unique hdim hne) _ _ hsize rfl digit
    (Function.update digit meshDim place)
    (fun other hother => (Function.update_of_ne (by omega) _ _).symm) _ rfl
  rw [Function.update_self] at hset
  exact hset

end

theorem distributeAlong_evenBox (hdoc : collectives.Documented)
    (h : ShardLayout layout tensorMap placements shape) (hplain : Plain placements)
    (hsrc : ∀ size ∈ layout.mesh.meshShape, srcDataRank < size)
    (heven : EvenlyCut layout.mesh placements shape) {locals : Nat → Except ProducerError Box}
    (hlt : meshDim < layout.mesh.meshShape.length)
    (hlocals : ∀ rank ∈ layout.mesh.rankList, locals rank =
      .ok (evenBox layout.mesh placements shape meshDim (fed layout.mesh srcDataRank meshDim rank)))
    {rank : Nat} (hrank : rank ∈ layout.mesh.rankList) :
    distributeAlong collectives layout.mesh placements srcDataRank locals meshDim rank =
      .ok (evenBox layout.mesh placements shape (meshDim + 1)
        (fed layout.mesh srcDataRank (meshDim + 1) rank)) := by
  have hsource := getElem?_sourceOf hsrc rank hlt
  have hlocalsSource := hlocals _ (sourceOf_mem hsrc hrank hlt)
  have hfed : ∀ other < meshDim, fed layout.mesh srcDataRank meshDim
      (sourceOf layout.mesh srcDataRank meshDim rank) other =
        fed layout.mesh srcDataRank (meshDim + 1) rank other := by
    intro other hother
    rw [fed, if_neg (by omega)]
  rw [distributeAlong]
  rcases h.placement_cases hplain hlt with ⟨dim, uneven, hget, hrange, hdim⟩ | ⟨hget, hfree⟩
  · have hchunks := scatterChunks_evenBox h heven hlt hdim hrange
    have hcount := meshSize_pos h hlt
    have hplace := placeOf_lt hrank hlt
    have hmembers := length_dimSplitRanks layout.mesh meshDim rank
    generalize hsize : layout.mesh.meshShape.getD meshDim 0 = size at hchunks hcount hplace hmembers
    obtain ⟨others, rfl⟩ := Nat.exists_eq_add_of_lt hcount
    rw [Nat.zero_add, range_succ_eq_map] at hchunks
    rw [hget]
    simp only [meshScatter, hlocals rank hrank, Bind.bind, Except.bind, hchunks, map_cons]
    rw [hsource]
    simp only [hlocalsSource, hchunks]
    have hpiece : ((0 :: (range others).map Nat.succ).map fun place =>
        evenBox layout.mesh placements shape (meshDim + 1)
          (Function.update (fed layout.mesh srcDataRank meshDim
            (sourceOf layout.mesh srcDataRank meshDim rank)) meshDim place))[placeOf layout.mesh
              meshDim rank]? =
        some (evenBox layout.mesh placements shape (meshDim + 1)
          (fed layout.mesh srcDataRank (meshDim + 1) rank)) := by
      rw [← range_succ_eq_map, getElem?_map, getElem?_range (by omega), Option.map_some]
      refine congrArg (fun digit => some (evenBox layout.mesh placements shape (meshDim + 1) digit))
        (funext fun other => ?_)
      by_cases hother : other = meshDim
      · subst hother
        rw [Function.update_self, fed, if_pos rfl]
      · rw [Function.update_of_ne hother, fed, if_neg hother]
    refine (congrArg (fun members => collectives.scatter _ members _ _) ?_).trans
      (hdoc.scatter_eq _ _ _ _ (fun entry hentry => ?_) hpiece)
    · rw [hmembers, Nat.zero_add, length_map, length_cons, length_map, length_range]
    · obtain ⟨place, -, rfl⟩ := mem_map.mp hentry
      exact boxShape_evenBox _ _
  · have hcopy : meshBroadcast collectives layout.mesh srcDataRank locals meshDim rank =
        .ok (evenBox layout.mesh placements shape (meshDim + 1)
          (fed layout.mesh srcDataRank (meshDim + 1) rank)) := by
      rw [meshBroadcast, hlocals rank hrank, hsource]
      dsimp only [Bind.bind, Except.bind]
      rw [hlocalsSource, evenBox_succ_of_not hfree hfed]
      exact hdoc.broadcast_eq _ _ (boxShape_evenBox _ _)
    rcases hget with hget | ⟨op, hget⟩
    · rw [hget]
      exact hcopy
    · rw [hget]
      exact hcopy

theorem localsAfter_succ (collectives : Collectives) (mesh : DeviceMesh)
    (placements : List Placement) (srcDataRank : Nat) (shape : List Nat) (meshDims : Nat) :
    localsAfter collectives mesh placements srcDataRank shape (meshDims + 1) =
      distributeAlong collectives mesh placements srcDataRank
        (localsAfter collectives mesh placements srcDataRank shape meshDims) meshDims := by
  rw [localsAfter, range_succ, foldl_append, foldl_cons, foldl_nil, localsAfter]

theorem localsAfter_evenBox (hdoc : collectives.Documented)
    (h : ShardLayout layout tensorMap placements shape) (hplain : Plain placements)
    (hsrc : ∀ size ∈ layout.mesh.meshShape, srcDataRank < size)
    (heven : EvenlyCut layout.mesh placements shape) {meshDims : Nat}
    (hle : meshDims ≤ layout.mesh.meshShape.length) {rank : Nat}
    (hrank : rank ∈ layout.mesh.rankList) :
    localsAfter collectives layout.mesh placements srcDataRank shape meshDims rank =
      .ok (evenBox layout.mesh placements shape meshDims
        (fed layout.mesh srcDataRank meshDims rank)) := by
  induction meshDims generalizing rank with
  | zero => rw [evenBox_zero]; rfl
  | succ meshDim ih =>
    rw [localsAfter_succ]
    exact distributeAlong_evenBox hdoc h hplain hsrc heven hle
      (fun other hother => ih (by omega) hother) hrank

/-! ## Every buffer is long enough -/

def Covered (mesh : DeviceMesh) (placements : List Placement) (shape : List Nat) (meshDims : Nat)
    (box : Box) : Prop :=
  box.length = shape.length ∧ ∀ dim size range, shape[dim]? = some size → box[dim]? = some range →
    size ≤ parts mesh placements meshDims dim * (range.2 - range.1)

theorem Covered.congr {mesh : DeviceMesh} {meshDims : Nat} {box other : Box}
    (h : Covered mesh placements shape meshDims box) (hshape : boxShape other = boxShape box) :
    Covered mesh placements shape meshDims other := by
  have hlength := congrArg List.length hshape
  rw [boxShape, boxShape, length_map, length_map] at hlength
  refine ⟨hlength.trans h.1, fun dim size range hsize hrange => ?_⟩
  have hget := congrArg (·[dim]?) hshape
  simp only [boxShape, getElem?_map, hrange, Option.map_some] at hget
  obtain ⟨range', hrange', hwidth⟩ := Option.map_eq_some_iff.mp hget.symm
  rw [← hwidth]
  exact h.2 dim size range' hsize hrange'

theorem covered_first {mesh : DeviceMesh} {dim : Nat} {own first : Box} {rest : List Box}
    (h : Covered mesh placements shape meshDim own) (hdim : sharding placements dim meshDim = true)
    (hchunks : scatterChunks mesh own meshDim dim = .ok (first :: rest)) :
    Covered mesh placements shape (meshDim + 1) first := by
  rw [scatterChunks] at hchunks
  split at hchunks
  · cases hchunks
  rename_i hcount
  have hnonneg : ¬ (dim : Int) < 0 := by omega
  rw [normalizeShardDim, if_neg hnonneg] at hchunks
  cases hrange : own[dim]? with
  | none =>
    rw [chunk] at hchunks
    simp only [if_neg hnonneg, Int.toNat_natCast, hrange] at hchunks
    cases hchunks
  | some range =>
    obtain ⟨width, others, hranges, hwidth⟩ := chunkRanges_head (Nat.pos_of_ne_zero hcount)
      (range.2 - range.1)
    rw [chunk_eq hrange, hranges, map_cons] at hchunks
    obtain ⟨rfl, -⟩ := cons.inj (Except.ok.inj hchunks)
    refine ⟨by rw [length_set]; exact h.1, fun other size range' hsize hrange' => ?_⟩
    have hlt := (List.getElem?_eq_some_iff.mp hrange).1
    by_cases hother : dim = other
    · subst hother
      rw [getElem?_set_self hlt] at hrange'
      cases hrange'
      dsimp only
      rw [parts_succ_of hdim, Nat.mul_assoc, Nat.add_zero, Nat.add_sub_cancel_left]
      exact (h.2 dim size range hsize hrange).trans (Nat.mul_le_mul_left _ hwidth)
    · rw [getElem?_set_ne hother] at hrange'
      rw [parts, shardingDims_succ_of_not (sharding_unique hdim (Ne.symm hother)), ← parts]
      exact h.2 other size range' hsize hrange'

theorem distributeAlong_covered (hdoc : collectives.Documented)
    (h : ShardLayout layout tensorMap placements shape) (hplain : Plain placements)
    {locals : Nat → Except ProducerError Box} (hlt : meshDim < layout.mesh.meshShape.length)
    (hlocals : ∀ rank box, locals rank = .ok box →
      Covered layout.mesh placements shape meshDim box) {rank : Nat} {box : Box}
    (hrun : distributeAlong collectives layout.mesh placements srcDataRank locals meshDim rank =
      .ok box) : Covered layout.mesh placements shape (meshDim + 1) box := by
  rw [distributeAlong] at hrun
  rcases h.placement_cases hplain hlt with ⟨dim, uneven, hget, -, hdim⟩ | ⟨hget, hfree⟩
  · rw [hget] at hrun
    obtain ⟨own, hown, hrun⟩ := bind_eq_ok hrun
    obtain ⟨chunks, hchunks, hrun⟩ := bind_eq_ok hrun
    cases chunks with
    | nil => cases hrun
    | cons first rest =>
      have hfirst := covered_first (hlocals _ _ hown) hdim hchunks
      dsimp only at hrun
      split at hrun
      · cases hrun
      · obtain ⟨source, -, hrun⟩ := bind_eq_ok hrun
        obtain ⟨scatterList, -, hrun⟩ := bind_eq_ok hrun
        exact hfirst.congr (hdoc.scatter_shape _ _ _ _ _ hrun)
  · have hrun : meshBroadcast collectives layout.mesh srcDataRank locals meshDim rank = .ok box := by
      rcases hget with hget | ⟨op, hget⟩
      · rw [hget] at hrun
        exact hrun
      · rw [hget] at hrun
        exact hrun
    obtain ⟨own, hown, hrun⟩ := bind_eq_ok hrun
    split at hrun
    · cases hrun
    · obtain ⟨source, -, hrun⟩ := bind_eq_ok hrun
      have hown := (hlocals _ _ hown).congr (hdoc.broadcast_shape _ _ _ hrun)
      refine ⟨hown.1, fun dim => ?_⟩
      rw [parts, shardingDims_succ_of_not (hfree dim), ← parts]
      exact hown.2 dim

theorem localsAfter_covered (hdoc : collectives.Documented)
    (h : ShardLayout layout tensorMap placements shape) (hplain : Plain placements) {meshDims : Nat}
    (hle : meshDims ≤ layout.mesh.meshShape.length) {rank : Nat} {box : Box}
    (hrun : localsAfter collectives layout.mesh placements srcDataRank shape meshDims rank =
      .ok box) : Covered layout.mesh placements shape meshDims box := by
  induction meshDims generalizing rank box with
  | zero =>
    obtain rfl : wholeBox shape = box := Except.ok.inj hrun
    refine ⟨by rw [wholeBox, length_map], fun dim size range hsize hrange => ?_⟩
    rw [wholeBox, getElem?_map, hsize] at hrange
    cases hrange
    simp [parts, shardingDims]
  | succ meshDim ih =>
    rw [localsAfter_succ] at hrun
    exact distributeAlong_covered hdoc h hplain hle (fun _ _ => ih (by omega)) hrun

end Run

end HyperParallel.Redistribution
