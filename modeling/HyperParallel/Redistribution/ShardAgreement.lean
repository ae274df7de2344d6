import HyperParallel.Redistribution.SplitShards

/-!
# Where the producers of a shard agree

Slicing always gives the reported range.  Scattering gives it when every
dimension is a multiple of its parts and each rank is fed at its own
coordinates; splitting a replicated tensor also where one element is missing to
a multiple, provided that every part has an element.
-/

namespace HyperParallel.Redistribution

open Foundation List
open Foundation.Chunking
open DTensor
open Checkpoint (inferSliceAreaByLayout)
open RedistributionOperatorInfer (Operation)

variable {layout : Layout} {tensorMap : TensorMap} {placements : List Placement}
  {shape : List Nat} {collectives : Collectives} {srcDataRank : Nat}

def reportedArea (layout : Layout) (tensorMap : TensorMap) (shape : List Nat) (rank : Nat) : Box :=
  sliceArea layout.mesh.meshShape (unevenDims layout) tensorMap shape
    (layout.mesh.rankList.idxOf rank)

theorem ShardLayout.getElem?_reportedArea (h : ShardLayout layout tensorMap placements shape)
    {dim size : Nat} (hsize : shape[dim]? = some size) (rank : Nat) :
    ∃ mapping, tensorMap[dim]? = some mapping ∧
      (reportedArea layout tensorMap shape rank)[dim]? =
        some (dimSlice layout.mesh.meshShape (unevenDims layout)
          (layout.mesh.rankList.idxOf rank) size mapping) := by
  obtain ⟨mapping, hmap⟩ := h.getElem?_map hsize
  exact ⟨mapping, hmap, getElem?_sliceArea _ _ hsize hmap⟩

/-! ## Scattering -/

def Straight (layout : Layout) (placements : List Placement) (shape : List Nat)
    (srcDataRank : Nat) : Prop :=
  ∀ rank ∈ layout.mesh.rankList, ∀ meshDim < layout.mesh.meshShape.length, ∀ dim size,
    shape[dim]? = some size → 0 < size → sharding placements dim meshDim = true →
      fed layout.mesh srcDataRank layout.mesh.meshShape.length rank meshDim =
        coordinateOf layout (layout.mesh.rankList.idxOf rank) meshDim

section Scatter

theorem ShardLayout.distribute_eq (h : ShardLayout layout tensorMap placements shape)
    (collectives : Collectives) (srcDataRank rank : Nat) :
    distributeTensorWithCommunication collectives layout.mesh placements srcDataRank shape rank =
      localsAfter collectives layout.mesh placements srcDataRank shape
        layout.mesh.meshShape.length rank := by
  rw [distributeTensorWithCommunication, if_neg (by rw [h.encodes.length_eq]; omega)]

theorem ShardLayout.evenlyCut_of_scatter (h : ShardLayout layout tensorMap placements shape)
    (hdoc : collectives.Documented) (hplain : Plain placements)
    (hscatter : ∀ rank ∈ layout.mesh.rankList,
      distributeTensorWithCommunication collectives layout.mesh placements srcDataRank shape rank =
        .ok (reportedArea layout tensorMap shape rank)) :
    EvenlyCut layout.mesh placements shape := by
  obtain ⟨rank, hrank, hlast⟩ := h.exists_last
  have hrun := hscatter rank hrank
  rw [h.distribute_eq] at hrun
  have hcovered := localsAfter_covered hdoc h hplain le_rfl hrun
  intro dim size hsize
  obtain ⟨mapping, hmap, hget⟩ := h.getElem?_reportedArea hsize rank
  have hmem := mem_of_getElem? hmap
  have hcover := hcovered.2 dim size _ hsize hget
  have hshort := narrow_last_le
    (@dimLevels_pos _ (unevenDims layout) h.sizes_pos _ (h.wellFormed.entry hmem))
    (dimLevels_forall ceilRule_lastAtMost balancedRule_lastExact.atMost _ _ _) size
  rw [h.counts_eq hmap] at hshort
  rw [dimSlice, hlast mapping hmem] at hcover
  have hle := hcover.trans (Nat.mul_le_mul_left _ hshort)
  exact ⟨_, Nat.le_antisymm hle (Nat.mul_div_le _ _)⟩

theorem partIndex_inj {dim : Nat}
    {digit digit' : Nat → Nat}
    (hdigit : ∀ meshDim < layout.mesh.meshShape.length,
      digit meshDim < layout.mesh.meshShape.getD meshDim 0)
    (hdigit' : ∀ meshDim < layout.mesh.meshShape.length,
      digit' meshDim < layout.mesh.meshShape.getD meshDim 0)
    (heq : partIndex layout.mesh placements layout.mesh.meshShape.length dim digit =
      partIndex layout.mesh placements layout.mesh.meshShape.length dim digit') :
    ∀ meshDim ∈ shardingDims placements layout.mesh.meshShape.length dim,
      digit meshDim = digit' meshDim := by
  have hbelow : ∀ {digit : Nat → Nat}, (∀ meshDim < layout.mesh.meshShape.length,
      digit meshDim < layout.mesh.meshShape.getD meshDim 0) →
      Forall₂ (· < ·)
        ((shardingDims placements layout.mesh.meshShape.length dim).map digit)
        ((shardingDims placements layout.mesh.meshShape.length dim).map
          (layout.mesh.meshShape.getD · 0)) := by
    intro digit hdigit
    rw [forall₂_map_left_iff, forall₂_map_right_iff, forall₂_same]
    exact fun meshDim hmem => hdigit meshDim (mem_range.mp (mem_filter.mp hmem).1)
  have hdigits := congrArg (MixedRadix.digits
    ((shardingDims placements layout.mesh.meshShape.length dim).map
      (layout.mesh.meshShape.getD · 0))) heq
  rw [partIndex, partIndex, MixedRadix.digits_value (hbelow hdigit),
    MixedRadix.digits_value (hbelow hdigit')] at hdigits
  exact map_inj_left.mp hdigits

section

variable (h : ShardLayout layout tensorMap placements shape)

include h

theorem coordinateOf_lt (rankId : Nat) {meshDim : Nat}
    (hlt : meshDim < layout.mesh.meshShape.length) :
    coordinateOf layout rankId meshDim < layout.mesh.meshShape.getD meshDim 0 := by
  have hdigit := MixedRadix.digits_lt h.sizes_pos rankId meshDim hlt
  rw [coordinateOf, calculateMeshCoordinateForRank_eq_digits, getD_eq_getElem _ _ hlt,
    getD_eq_getElem _ _ (by simpa using hlt)]
  exact hdigit

theorem ShardLayout.evenBox_eq_iff (hplain : Plain placements)
    (heven : EvenlyCut layout.mesh placements shape) (rank : Nat) (digit : Nat → Nat) :
    evenBox layout.mesh placements shape layout.mesh.meshShape.length digit =
        reportedArea layout tensorMap shape rank ↔
      ∀ dim size, shape[dim]? = some size → 0 < size →
        partIndex layout.mesh placements layout.mesh.meshShape.length dim digit =
          partIndex layout.mesh placements layout.mesh.meshShape.length dim
            (coordinateOf layout (layout.mesh.rankList.idxOf rank)) := by
  have hreported : ∀ dim size, shape[dim]? = some size →
      (reportedArea layout tensorMap shape rank)[dim]? = some
        (evenRange (size / parts layout.mesh placements layout.mesh.meshShape.length dim)
          (partIndex layout.mesh placements layout.mesh.meshShape.length dim
            (coordinateOf layout (layout.mesh.rankList.idxOf rank)))) := by
    intro dim size hsize
    obtain ⟨mapping, hmap, hget⟩ := h.getElem?_reportedArea hsize rank
    rw [hget, h.dimSlice_even hmap _ _ (heven dim size hsize), h.partOrder_plain hplain hmap]
  constructor
  · intro heq dim size hsize hpos
    have hget := congrArg (·[dim]?) heq
    simp only [getElem?_evenBox, hsize, Option.map_some, hreported dim size hsize] at hget
    have hwidth : 0 < size / parts layout.mesh placements layout.mesh.meshShape.length dim :=
      Nat.div_pos (Nat.le_of_dvd hpos (heven dim size hsize)) (parts_pos h le_rfl dim)
    have hstart := congrArg Prod.fst (Option.some.inj hget)
    exact Nat.eq_of_mul_eq_mul_right hwidth hstart
  · intro hparts
    refine ext_getElem? fun dim => ?_
    rw [getElem?_evenBox]
    cases hsize : shape[dim]? with
    | none =>
      have hlength : (reportedArea layout tensorMap shape rank).length = shape.length := by
        rw [reportedArea, sliceArea, length_zipWith, h.length_eq, Nat.min_self]
      rw [Option.map_none, getElem?_eq_none]
      rw [hlength]
      exact getElem?_eq_none_iff.mp hsize
    | some size =>
      rw [hreported dim size hsize, Option.map_some]
      rcases Nat.eq_zero_or_pos size with rfl | hpos
      · rw [Nat.zero_div, evenRange, evenRange, Nat.mul_zero, Nat.mul_zero, Nat.mul_zero,
          Nat.mul_zero]
      · rw [hparts dim size hsize hpos]

theorem ShardLayout.scatter_iff (hdoc : collectives.Documented) (hplain : Plain placements)
    (hsrc : ∀ size ∈ layout.mesh.meshShape, srcDataRank < size) :
    (∀ rank ∈ layout.mesh.rankList,
      distributeTensorWithCommunication collectives layout.mesh placements srcDataRank shape rank =
        .ok (reportedArea layout tensorMap shape rank)) ↔
      EvenlyCut layout.mesh placements shape ∧ Straight layout placements shape srcDataRank := by
  have hrun : EvenlyCut layout.mesh placements shape → ∀ rank ∈ layout.mesh.rankList,
      (distributeTensorWithCommunication collectives layout.mesh placements srcDataRank shape rank =
          .ok (reportedArea layout tensorMap shape rank) ↔
        evenBox layout.mesh placements shape layout.mesh.meshShape.length
          (fed layout.mesh srcDataRank layout.mesh.meshShape.length rank) =
            reportedArea layout tensorMap shape rank) := by
    intro heven rank hrank
    rw [h.distribute_eq, localsAfter_evenBox hdoc h hplain hsrc heven le_rfl hrank, Except.ok.injEq]
  constructor
  · intro hscatter
    have heven := h.evenlyCut_of_scatter hdoc hplain hscatter
    refine ⟨heven, fun rank hrank meshDim hlt dim size hsize hpos hsharding => ?_⟩
    have hbox := (h.evenBox_eq_iff hplain heven rank _).mp
      ((hrun heven rank hrank).mp (hscatter rank hrank)) dim size hsize hpos
    refine partIndex_inj (fun other hother => fed_lt hsrc le_rfl hrank hother)
      (fun other hother => coordinateOf_lt h _ hother) hbox meshDim ?_
    exact mem_filter.mpr ⟨mem_range.mpr hlt, hsharding⟩
  · rintro ⟨heven, hstraight⟩ rank hrank
    refine (hrun heven rank hrank).mpr ((h.evenBox_eq_iff hplain heven rank _).mpr
      fun dim size hsize hpos => ?_)
    rw [partIndex, partIndex]
    refine congrArg _ (map_congr_left fun meshDim hmem => ?_)
    obtain ⟨hlt, hsharding⟩ := mem_filter.mp hmem
    exact hstraight rank hrank meshDim (mem_range.mp hlt) dim size hsize hpos hsharding

end

end Scatter

/-! ## Splitting -/

/-- Ceil chunks and balanced chunks are the same. -/
def SplitsAlike (size count : Nat) : Prop := count ∣ size ∨ size % count + 1 = count ∧ count ≤ size

section Split

variable {mapping : DimMapping}

theorem ShardLayout.partCount_eq (h : ShardLayout layout tensorMap placements shape) {dim : Nat}
    (hmap : tensorMap[dim]? = some mapping) :
    partCount layout mapping = parts layout.mesh placements layout.mesh.meshShape.length dim := by
  rw [← h.counts_eq hmap [], counts, map_count_dimLevels, partCount]

theorem ShardLayout.partOrder_lt (h : ShardLayout layout tensorMap placements shape)
    (hmapping : mapping ∈ tensorMap) (rankId : Nat) :
    partOrder layout rankId mapping < partCount layout mapping := by
  refine MixedRadix.value_lt ?_
  rw [forall₂_map_left_iff, forall₂_map_right_iff, forall₂_same]
  exact fun meshDim hmem => coordinateOf_lt h rankId (meshOrder_lt h.wellFormed hmapping meshDim hmem)

theorem value_last {bases : List Nat} (hpos : ∀ base ∈ bases, 0 < base) :
    MixedRadix.value bases (bases.map (· - 1)) = bases.prod - 1 := by
  induction bases with
  | nil => rfl
  | cons base bases ih =>
    have hrest := ih fun other hother => hpos other (mem_cons_of_mem _ hother)
    have hbase := hpos base mem_cons_self
    have hprod : 0 < bases.prod := Nat.pos_of_ne_zero
      (prod_ne_zero fun hzero => absurd (hpos 0 (mem_cons_of_mem _ hzero)) (by omega))
    have hmul : base * bases.prod = (base - 1) * bases.prod + bases.prod := by
      obtain ⟨less, rfl⟩ := Nat.exists_eq_add_of_lt hbase
      rw [Nat.zero_add, Nat.add_sub_cancel]
      ring
    rw [map_cons, MixedRadix.value, hrest, prod_cons, hmul]
    omega

theorem ShardLayout.splitRange_eq (h : ShardLayout layout tensorMap placements shape)
    {dim size : Nat} (hmap : tensorMap[dim]? = some mapping)
    (halike : SplitsAlike size (parts layout.mesh placements layout.mesh.meshShape.length dim))
    (rankId : Nat) : splitRange layout rankId (size, mapping) =
      some (dimSlice layout.mesh.meshShape [] rankId size mapping) := by
  have hmem := mem_of_getElem? hmap
  have hlt := h.partOrder_lt hmem rankId
  have hcount := h.partCount_eq hmap
  have hpos : 0 < partCount layout mapping := by omega
  rw [← hcount] at halike
  by_cases hdvd : partCount layout mapping ∣ size
  · rw [h.dimSlice_even hmap [] rankId (hcount ▸ hdvd), ← hcount, splitRange]
    split
    · rename_i hwhole
      have hone : partCount layout mapping = 1 := by
        rcases hwhole with rfl | hone
        · rfl
        · exact hone
      rw [hone, Nat.div_one, evenRange, show partOrder layout rankId mapping = 0 by omega,
        Nat.zero_mul, Nat.zero_add, Nat.one_mul]
    · obtain ⟨width, rfl⟩ := hdvd
      rw [chunkRanges_mul hpos, List.getElem?_map, List.getElem?_range hlt, Option.map_some,
        Nat.mul_div_cancel_left _ hpos, evenRange]
  · obtain ⟨hmod, hle⟩ := halike.resolve_left hdvd
    have hmany : 2 ≤ partCount layout mapping := by
      rcases Nat.lt_or_ge (partCount layout mapping) 2 with hless | hmany
      · exact absurd (by rw [show partCount layout mapping = 1 by omega]; exact one_dvd _) hdvd
      · exact hmany
    have hdiv := Nat.div_add_mod size (partCount layout mapping)
    have hquotient : 0 < size / partCount layout mapping := Nat.div_pos hle hpos
    obtain ⟨width, hwidth⟩ : ∃ width, width = size / partCount layout mapping + 1 := ⟨_, rfl⟩
    have hsize : size = partCount layout mapping * width - 1 := by
      rw [hwidth, Nat.mul_add, Nat.mul_one]
      omega
    have hnone : ¬(mapping = .axis NONE ∨ partCount layout mapping = 1) := by
      rintro (rfl | hone)
      · exact absurd hmany (by decide : ¬ 2 ≤ 1)
      · omega
    have hnarrow := narrow_of_oneShort
      (@dimCoordinates_inLevels _ [] h.sizes_pos mapping rankId (h.wellFormed.entry hmem))
      (dimLevels_balanced balancedRule_even _ _) (dimLevels_balanced balancedRule_oneShort _ _)
      (show 0 < width by omega)
    rw [h.counts_eq hmap, ← hcount, map_count_dimLevels, dimCoordinates_eq] at hnarrow
    rw [splitRange, if_neg hnone, dimSlice, hsize, chunkRanges_short hmany (by omega),
      List.getElem?_map, List.getElem?_range hlt, Option.map_some, dimCoordinates_eq, hnarrow]
    rfl

theorem ShardLayout.splitsAlike_of_last (h : ShardLayout layout tensorMap placements shape)
    (huneven : unevenDims layout = []) {rank : Nat} (hlast : ∀ mapping ∈ tensorMap,
      dimCoordinates layout.mesh.meshShape (layout.mesh.rankList.idxOf rank) mapping =
        lastIndices (dimLevels layout.mesh.meshShape (unevenDims layout) mapping)) {dim size : Nat}
    (hmap : tensorMap[dim]? = some mapping)
    (hrange : splitRange layout (layout.mesh.rankList.idxOf rank) (size, mapping) =
      some (dimSlice layout.mesh.meshShape (unevenDims layout)
        (layout.mesh.rankList.idxOf rank) size mapping)) :
    SplitsAlike size (parts layout.mesh placements layout.mesh.meshShape.length dim) := by
  have hmem := mem_of_getElem? hmap
  have hcount := h.partCount_eq hmap
  have hpos : 0 < partCount layout mapping :=
    Nat.lt_of_le_of_lt (Nat.zero_le _) (h.partOrder_lt hmem 0)
  have hcoordinates := hlast mapping hmem
  rw [huneven] at hcoordinates hrange
  rw [← hcount]
  by_cases hwhole : mapping = .axis NONE ∨ partCount layout mapping = 1
  · have hone : partCount layout mapping = 1 := by
      rcases hwhole with rfl | hone
      · rfl
      · exact hone
    rw [hone]
    exact .inl (one_dvd _)
  · have hsizes : ∀ base ∈ (meshOrder layout.mesh.meshShape.length mapping).map
        (layout.mesh.meshShape.getD · 0), 0 < base := by
      intro base hbase
      obtain ⟨meshDim, hdim, rfl⟩ := mem_map.mp hbase
      exact meshSize_pos h (meshOrder_lt h.wellFormed hmem meshDim hdim)
    have horder : partOrder layout (layout.mesh.rankList.idxOf rank) mapping =
        partCount layout mapping - 1 := by
      have hindices : lastIndices (dimLevels layout.mesh.meshShape [] mapping) =
          ((meshOrder layout.mesh.meshShape.length mapping).map
            (layout.mesh.meshShape.getD · 0)).map (· - 1) := by
        rw [← map_count_dimLevels _ [], map_map]
        rfl
      rw [partOrder, ← dimCoordinates_eq, hcoordinates, hindices, value_last hsizes, partCount]
    have hlength := narrow_last_eq
      (@dimLevels_pos _ [] h.sizes_pos _ (h.wellFormed.entry hmem))
      (dimLevels_balanced balancedRule_lastExact _ _) size
    rw [h.counts_eq hmap, ← hcount, ← hcoordinates] at hlength
    rw [splitRange, if_neg hwhole, horder] at hrange
    exact of_chunkRanges_last hpos hrange hlength

theorem forall₂_zip_iff (hlength : tensorMap.length = shape.length)
    {R : Nat × DimMapping → Nat × Nat → Prop} {box : Box} (hbox : box.length = shape.length) :
    Forall₂ R (shape.zip tensorMap) box ↔ ∀ (dim size : Nat) (mapping : DimMapping)
      (range : Nat × Nat), shape[dim]? = some size → tensorMap[dim]? = some mapping →
        box[dim]? = some range → R (size, mapping) range := by
  rw [forall₂_iff_get]
  constructor
  · rintro ⟨-, hall⟩ dim size mapping range hsize hmap hrange
    obtain ⟨hdim, rfl⟩ := List.getElem?_eq_some_iff.mp hsize
    obtain ⟨hdim', rfl⟩ := List.getElem?_eq_some_iff.mp hmap
    obtain ⟨hdim'', rfl⟩ := List.getElem?_eq_some_iff.mp hrange
    have hentry := hall dim (by simp [hdim, hdim']) hdim''
    simpa using hentry
  · intro hall
    refine ⟨by simp [hlength, hbox], fun dim hdim hdim' => ?_⟩
    have hsize : dim < shape.length := hbox ▸ hdim'
    have hentry := hall dim _ _ _ (getElem?_eq_getElem hsize)
      (getElem?_eq_getElem (hlength ▸ hsize)) (getElem?_eq_getElem hdim')
    simpa using hentry

theorem ShardLayout.split_iff (h : ShardLayout layout tensorMap placements shape)
    (others : Operation → Box → Except ProducerError Box)
    (huneven : unevenShardMeshDims layout.placements = []) :
    (∀ rank ∈ layout.mesh.rankList, ∃ fuel,
      redistributeReplicated others fuel layout tensorMap shape rank =
        .ok (reportedArea layout tensorMap shape rank)) ↔
      (∀ mapping ∈ tensorMap, mapping = .axis NONE ∨ Splittable mapping) ∧
        ∀ dim size, shape[dim]? = some size →
          SplitsAlike size (parts layout.mesh placements layout.mesh.meshShape.length dim) := by
  have hdims : unevenDims layout = [] := by rw [unevenDims, huneven, map_nil]
  have hlength : ∀ rank, (reportedArea layout tensorMap shape rank).length = shape.length := by
    intro rank
    rw [reportedArea, sliceArea, length_zipWith, h.length_eq, Nat.min_self]
  have hrange : ∀ {rank dim size : Nat} {mapping : DimMapping} {range : Nat × Nat},
      shape[dim]? = some size →
      tensorMap[dim]? = some mapping →
      (reportedArea layout tensorMap shape rank)[dim]? = some range →
      range = dimSlice layout.mesh.meshShape (unevenDims layout)
          (layout.mesh.rankList.idxOf rank) size mapping := by
    intro rank dim size mapping range hsize hmap hget
    rw [reportedArea, getElem?_sliceArea _ _ hsize hmap] at hget
    exact (Option.some.inj hget).symm
  constructor
  · intro hrun
    obtain ⟨rank, hrank, hlast⟩ := h.exists_last
    obtain ⟨hsplit, hranges⟩ := (h.redistributeReplicated_iff hrank others huneven _).mp
      (hrun rank hrank)
    refine ⟨hsplit, fun dim size hsize => ?_⟩
    obtain ⟨mapping, hmap, hget⟩ := h.getElem?_reportedArea hsize rank
    exact h.splitsAlike_of_last hdims hlast hmap
      ((forall₂_zip_iff h.length_eq (hlength rank)).mp hranges dim size mapping _ hsize hmap hget)
  · rintro ⟨hsplit, halike⟩ rank hrank
    refine (h.redistributeReplicated_iff hrank others huneven _).mpr ⟨hsplit, ?_⟩
    refine (forall₂_zip_iff h.length_eq (hlength rank)).mpr
      fun dim size mapping range hsize hmap hget => ?_
    rw [hrange hsize hmap hget, hdims]
    exact h.splitRange_eq hmap (halike dim size hsize) _

end Split

/-! ## Ascending ranks -/

section Ascending

variable {mesh : DeviceMesh}

theorem onAxis_ascending {dims : List Nat} {position axis : Nat} (hposition : position < dims.prod)
    (haxis : axis < dims.length) : (onAxis dims axis position).Pairwise (· < ·) := by
  have hpos := dims_pos hposition
  have hweight : 0 < (dims.drop (axis + 1)).prod := Nat.pos_of_ne_zero
    (prod_ne_zero fun hzero => absurd (hpos 0 (mem_of_mem_drop hzero)) (by omega))
  rw [onAxis, pairwise_map]
  refine pairwise_lt_range.imp fun {place place'} hlt => ?_
  have hmove := moveTo_add hposition haxis place
  have hmove' := moveTo_add hposition haxis place'
  have hmul := Nat.mul_lt_mul_of_pos_right hlt hweight
  omega

theorem getD_lt_of_ascending {rankList : List Nat} (hasc : rankList.Pairwise (· < ·))
    {position position' : Nat} (hlt : position < position') (hbelow : position' < rankList.length) :
    rankList.getD position 0 < rankList.getD position' 0 := by
  rw [getD_eq_getElem _ _ (hlt.trans hbelow), getD_eq_getElem _ _ hbelow]
  exact pairwise_iff_getElem.mp hasc _ _ _ _ hlt

theorem dimSplitRanks_ascending (hasc : mesh.rankList.Pairwise (· < ·)) {meshDim rank : Nat}
    (hrank : rank ∈ mesh.rankList) (hdim : meshDim < mesh.meshShape.length) :
    dimSplitRanks mesh meshDim rank =
        (onAxis mesh.meshShape meshDim (mesh.rankList.idxOf rank)).map (mesh.rankList.getD · 0) ∧
      (dimSplitRanks mesh meshDim rank).Nodup := by
  have hidx := idxOf_lt hrank
  have hsorted : ((onAxis mesh.meshShape meshDim (mesh.rankList.idxOf rank)).map
      (mesh.rankList.getD · 0)).Pairwise (· < ·) := by
    rw [pairwise_map]
    refine (onAxis_ascending hidx hdim).imp_of_mem fun {position position'} _ hmem hlt => ?_
    have hbelow := ((mem_onAxis_iff hidx hdim).mp hmem).1
    exact getD_lt_of_ascending hasc hlt (mesh.ranks_ok ▸ hbelow)
  have heq : dimSplitRanks mesh meshDim rank =
      (onAxis mesh.meshShape meshDim (mesh.rankList.idxOf rank)).map (mesh.rankList.getD · 0) :=
    ListOrder.eq_of_perm_of_sorted (mergeSort_perm _ _) (ListOrder.mergeSort_sorted _)
      (hsorted.imp Nat.le_of_lt)
  exact ⟨heq, heq ▸ hsorted.imp Nat.ne_of_lt⟩

theorem fed_ascending (hasc : mesh.rankList.Pairwise (· < ·))
    (hsrc : ∀ size ∈ mesh.meshShape, srcDataRank < size) {meshDims : Nat}
    (hle : meshDims ≤ mesh.meshShape.length) {rank meshDim : Nat} (hrank : rank ∈ mesh.rankList)
    (hlt : meshDim < meshDims) : fed mesh srcDataRank meshDims rank meshDim =
      (MixedRadix.digits mesh.meshShape (mesh.rankList.idxOf rank)).getD meshDim 0 := by
  induction meshDims generalizing rank with
  | zero => omega
  | succ meshDims ih =>
    have hidx := idxOf_lt hrank
    obtain ⟨heq, hnodup⟩ := dimSplitRanks_ascending hasc hrank hle
    rw [fed]
    split
    · rename_i hlast
      subst hlast
      have hself : (dimSplitRanks mesh meshDim rank)[(MixedRadix.digits mesh.meshShape
          (mesh.rankList.idxOf rank)).getD meshDim 0]? = some rank := by
        rw [heq, getElem?_map, getElem?_onAxis_self hidx hle, Option.map_some, getD_idxOf hrank]
      exact idxOf_of_getElem? hnodup hself
    · rename_i hother
      have hsource := getElem?_sourceOf hsrc rank hle
      have hsize : srcDataRank < mesh.meshShape[meshDims] := hsrc _ (getElem_mem hle)
      have hmoved := moveTo_lt (dims_pos hidx) hle hsize (mesh.rankList.idxOf rank)
      rw [heq, getElem?_map, onAxis, getElem?_map, getD_eq_getElem _ _ hle,
        getElem?_range hsize, Option.map_some, Option.map_some] at hsource
      have hmem := sourceOf_mem hsrc hrank hle
      rw [ih (by omega) hmem (by omega), ← Option.some.inj hsource,
        idxOf_getD (hasc.imp Nat.ne_of_lt) (mesh.ranks_ok ▸ hmoved),
        digits_moveTo (dims_pos hidx) hle hsize, getD_eq_getElem?_getD,
        getElem?_set_ne (Ne.symm hother), ← getD_eq_getElem?_getD]

theorem straight_of_ascending (placements : List Placement) (shape : List Nat)
    (hasc : layout.mesh.rankList.Pairwise (· < ·))
    (hsrc : ∀ size ∈ layout.mesh.meshShape, srcDataRank < size) :
    Straight layout placements shape srcDataRank := by
  intro rank hrank meshDim hlt dim size _ _ _
  rw [fed_ascending hasc hsrc le_rfl hrank hlt, coordinateOf, calculateMeshCoordinateForRank_eq_digits]

end Ascending

/-! ## All producers -/

/-- The producers agree exactly where the paths that take the layout do. -/
theorem producersAgree_iff (h : ShardLayout layout tensorMap placements shape)
    (hdoc : collectives.Documented) (hsrc : ∀ size ∈ layout.mesh.meshShape, srcDataRank < size)
    (others : Operation → Box → Except ProducerError Box) :
    ProducersAgree collectives others layout tensorMap placements shape srcDataRank ↔
      (Plain placements → EvenlyCut layout.mesh placements shape ∧
        Straight layout placements shape srcDataRank) ∧
      (unevenShardMeshDims layout.placements = [] →
        (∀ mapping ∈ tensorMap, mapping = .axis NONE ∨ Splittable mapping) ∧
          ∀ dim size, shape[dim]? = some size →
            SplitsAlike size (parts layout.mesh placements layout.mesh.meshShape.length dim)) := by
  have harea : ∀ rank area, inferSliceAreaByLayout layout (layout.mesh.rankList.idxOf rank) shape =
      some area ↔ area = reportedArea layout tensorMap shape rank := by
    intro rank area
    rw [h.inferSliceAreaByLayout_eq, Option.some.injEq, eq_comm, reportedArea]
  constructor
  · intro hagree
    constructor
    · intro hplain
      refine (h.scatter_iff hdoc hplain hsrc).mp fun rank hrank => ?_
      obtain ⟨area, hreported, -, hscatter, -⟩ := hagree rank hrank
      rw [(harea rank area).mp hreported] at hscatter
      exact hscatter hplain
    · intro huneven
      refine (h.split_iff others huneven).mp fun rank hrank => ?_
      obtain ⟨area, hreported, -, -, hsplit⟩ := hagree rank hrank
      rw [(harea rank area).mp hreported] at hsplit
      exact hsplit huneven
  · rintro ⟨hscatter, hsplit⟩ rank hrank
    exact ⟨_, (harea rank _).mpr rfl, h.getSliceTensorByLayout_eq hrank,
      fun hplain => (h.scatter_iff hdoc hplain hsrc).mpr (hscatter hplain) rank hrank,
      fun huneven => (h.split_iff others huneven).mpr (hsplit huneven) rank hrank⟩

/-! ## One row of ranks -/

def checkedCollectives : Collectives where
  scatter outputShape members scatterList groupRank :=
    if scatterList.length = members ∧ ∀ entry ∈ scatterList, boxShape entry = outputShape then
      match scatterList[groupRank]? with
      | none => .error .collective
      | some piece => .ok piece
    else .error .collective
  broadcast own source := if boxShape own = boxShape source then .ok source else .error .collective

theorem checkedCollectives_documented : checkedCollectives.Documented where
  scatter_eq outputShape scatterList groupRank piece hshape hget := by
    rw [checkedCollectives]
    dsimp only
    rw [if_pos ⟨rfl, hshape⟩, hget]
  scatter_shape outputShape members scatterList groupRank piece hok := by
    rw [checkedCollectives] at hok
    dsimp only at hok
    split at hok
    · rename_i hchecked
      split at hok
      · cases hok
      · rename_i hget
        cases hok
        exact hchecked.2 _ (mem_of_getElem? hget)
    · cases hok
  broadcast_eq own source hshape := if_pos hshape
  broadcast_shape own source result hok := by
    rw [checkedCollectives] at hok
    dsimp only at hok
    split at hok
    · rename_i hshape
      cases hok
      exact hshape.symm
    · cases hok

/-- Four ranks in a row, the only dimension sharded over them. -/
theorem rowMesh_names :
    ∀ names ∈ (none : Option (List String)), names.length = [4].length ∧ names.Nodup := by
  simp

theorem rowMesh_ranks : [0, 1, 2, 3].length = [4].prod := rfl

def rowLayout : Layout :=
  { Layout.fromDeviceMesh asciiStr ⟨[4], none, [0, 1, 2, 3], rowMesh_names, rowMesh_ranks⟩ with
    tensorMap := some [.axis 0], placements := some [.shard 0 false] }

theorem rowLayout_shardLayout (size : Nat) :
    ShardLayout rowLayout [.axis 0] [.shard 0 false] [size] where
  map_eq := rfl
  placements_eq := rfl
  wellFormed := ⟨by decide, by decide⟩
  encodes := {
    length_eq := rfl
    used := fun entry hentry m hm => by
      obtain rfl := List.mem_singleton.mp hentry
      obtain rfl : m = 0 := List.mem_singleton.mp hm
      exact ⟨false, rfl⟩
    unused := fun m placement hget _ => by
      cases m with
      | zero => exact ⟨_, mem_singleton_self _, mem_singleton_self _⟩
      | succ m => cases hget }
  length_eq := rfl
  sizes_pos := by decide
  ranks_nodup := by decide
  not_ragged := by
    intro placement hplacement
    obtain rfl := mem_singleton.mp hplacement
    exact ⟨fun _ => nofun, fun _ _ => nofun⟩

/-- Two elements a rank, on every path. -/
theorem producersAgree_row : ProducersAgree checkedCollectives (fun _ _ => .error .collective)
    rowLayout [.axis 0] [.shard 0 false] [8] 0 := by
  refine (producersAgree_iff (rowLayout_shardLayout 8) checkedCollectives_documented (by decide)
    _).mpr ⟨fun _ => ⟨?_, ?_⟩, fun _ => ⟨by decide, ?_⟩⟩
  · intro dim size hsize
    cases dim with
    | zero =>
      cases hsize
      decide
    | succ dim => cases hsize
  · exact straight_of_ascending _ _ (by decide) (by decide)
  · intro dim size hsize
    cases dim with
    | zero =>
      cases hsize
      exact .inl (by decide)
    | succ dim => cases hsize

/-- Ten elements over four ranks: a split keeps three for the third, two are reported. -/
theorem producers_disagree_row : ¬ ProducersAgree checkedCollectives
    (fun _ _ => .error .collective) rowLayout [.axis 0] [.shard 0 false] [10] 0 := by
  intro hagree
  have h := rowLayout_shardLayout 10
  obtain ⟨area, hreported, -, -, hsplit⟩ := hagree 2 (by decide)
  obtain ⟨-, hranges⟩ := (h.redistributeReplicated_iff (by decide) _ rfl _).mp (hsplit rfl)
  rw [h.inferSliceAreaByLayout_eq] at hreported
  obtain rfl := Option.some.inj hreported
  cases hranges with
  | cons hrange _ => exact absurd hrange (by decide)

end HyperParallel.Redistribution
