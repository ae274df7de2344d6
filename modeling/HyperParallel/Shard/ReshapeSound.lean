import HyperParallel.Checkpoint.LocalPlan
import HyperParallel.Shard.ReshapeErrors
import Mathlib.Data.List.TakeWhile

/-!
# Reshaping the part of a rank

The part a rank holds is a cut of every dimension.  What the inference returns
regroups those cuts, so the local reshape is the part of the reshaped tensor,
unless a mark of an unsharded dimension was counted as a mesh axis.
-/

namespace HyperParallel.Shard

open Foundation DTensor CutShape List
open Checkpoint (inferSliceAreaByLayout)

/-! ## Axes of one device -/

/-- The place of a rank's part among the parts of a dimension. -/
def splitIndex (meshShape : MeshShape) (rankId : Nat) (mapping : DimMapping) : Nat :=
  MixedRadix.value
    (mapping.usedAxes.map fun axis => meshShape.getD (meshDimOf meshShape.length axis) 0)
    (mapping.usedAxes.map (axisCoordinate meshShape rankId))

section Entries

variable {meshShape : MeshShape}

theorem usedAxes_filteredEntry (mapping : DimMapping) :
    (filteredEntry meshShape mapping).usedAxes =
      mapping.usedAxes.filter fun axis => readSize meshShape axis ≠ 1 := by
  cases mapping with
  | axis item =>
    rw [filteredEntry, DimMapping.usedAxes, DimMapping.usedAxes, filter_comm]
    by_cases hone : readSize meshShape item = 1
    · rw [if_neg (not_not.mpr hone)]
      simp [DimMapping.mappedDims, hone]
    · rw [if_pos hone]
      simp [DimMapping.mappedDims, hone]
  | axes items =>
    have hright : (DimMapping.axes items).usedAxes.filter (fun axis => readSize meshShape axis ≠ 1) =
        (items.filter fun item => readSize meshShape item ≠ 1).filter (· ≠ NONE) :=
      filter_comm ..
    rw [hright, filteredEntry]
    generalize items.filter (fun item => decide (readSize meshShape item ≠ 1)) = kept
    rcases kept with _ | ⟨single, _ | ⟨second, rest⟩⟩ <;> rfl

variable {mapping : DimMapping}

theorem readSize_of_used {axis : Int} (h : axis ∈ mapping.usedAxes) :
    readSize meshShape axis = meshShape.getD (meshDimOf meshShape.length axis) 0 := by
  have hne : axis ≠ NONE := by simpa using (mem_filter.mp h).2
  rw [readSize, readDim, if_neg hne]

theorem filter_readSize (mapping : DimMapping) :
    (mapping.usedAxes.filter fun axis => readSize meshShape axis ≠ 1) =
      mapping.usedAxes.filter fun axis =>
        meshShape.getD (meshDimOf meshShape.length axis) 0 ≠ 1 :=
  List.filter_congr fun axis haxis => by rw [readSize_of_used haxis]

theorem splitCount_filteredEntry (mapping : DimMapping) :
    splitCount meshShape (filteredEntry meshShape mapping) = splitCount meshShape mapping := by
  rw [splitCount, usedAxes_filteredEntry, filter_readSize, MixedRadix.prod_filter_ones]
  rfl

theorem splitIndex_filteredEntry (hpos : ∀ size ∈ meshShape, 0 < size) (rankId : Nat)
    (h : ∀ axis ∈ mapping.usedAxes, 0 ≤ axis ∧ axis < meshShape.length) :
    splitIndex meshShape rankId (filteredEntry meshShape mapping) =
      splitIndex meshShape rankId mapping := by
  rw [splitIndex, usedAxes_filteredEntry, filter_readSize, MixedRadix.value_filter_ones]
  · rfl
  · exact fun axis haxis => axisCoordinate_lt hpos rankId (h axis haxis)

theorem splitIndex_lt (hpos : ∀ size ∈ meshShape, 0 < size) (rankId : Nat)
    (h : ∀ axis ∈ mapping.usedAxes, 0 ≤ axis ∧ axis < meshShape.length) :
    splitIndex meshShape rankId mapping < splitCount meshShape mapping := by
  refine MixedRadix.value_lt ?_
  rw [forall₂_map_left_iff, forall₂_map_right_iff, forall₂_same]
  exact fun axis haxis => axisCoordinate_lt hpos rankId (h axis haxis)

theorem dimSlice_eq_cut (hpos : ∀ size ∈ meshShape, 0 < size) (unevenShardMeshDims : List Int)
    (rankId : Nat) (h : ∀ axis ∈ mapping.usedAxes, 0 ≤ axis ∧ axis < meshShape.length) {size : Nat}
    (hdvd : splitCount meshShape mapping ∣ size) :
    dimSlice meshShape unevenShardMeshDims rankId size mapping =
      ((cutOf (splitCount meshShape) (splitIndex meshShape rankId) (size, mapping)).start,
        (cutOf (splitCount meshShape) (splitIndex meshShape rankId) (size, mapping)).start +
          (cutOf (splitCount meshShape) (splitIndex meshShape rankId) (size, mapping)).width) := by
  obtain ⟨length, rfl⟩ := hdvd
  have hcounts : (dimLevels meshShape unevenShardMeshDims mapping).map Chunking.Level.count =
      mapping.usedAxes.map fun axis => meshShape.getD (meshDimOf meshShape.length axis) 0 := by
    rw [dimLevels, map_map]
    rfl
  have heven : ∀ level ∈ dimLevels meshShape unevenShardMeshDims mapping, level.rule.Even := by
    intro level hlevel
    obtain ⟨axis, -, rfl⟩ := mem_map.mp hlevel
    simp only [axisLevel]
    split
    · exact ceilRule_even
    · exact balancedRule_even
  have hnarrow := Chunking.narrow_of_even
    (@dimCoordinates_inLevels meshShape unevenShardMeshDims hpos mapping rankId h) heven length
  rw [hcounts, ← splitCount] at hnarrow
  have hcountPos := Nat.lt_of_le_of_lt (Nat.zero_le _) (splitIndex_lt hpos rankId h)
  rw [dimSlice, hnarrow, cutOf, Cut.start, Cut.width, Nat.mul_div_cancel_left _ hcountPos, splitIndex,
    dimCoordinates]
  dsimp only
  rw [Nat.add_mul, Nat.one_mul]

end Entries

/-! ## Parts -/

def partOf {α : Type} (layout : Layout) (rank : Nat) (t : Dense α) : Option (Dense α) :=
  (inferSliceAreaByLayout layout (layout.mesh.rankList.idxOf rank) t.shape).map t.slice

def cutsOf (meshShape : MeshShape) (rankId : Nat) (tensorMap : TensorMap) (shape : List Nat) :
    List Cut :=
  (shape.zip tensorMap).map (cutOf (splitCount meshShape) (splitIndex meshShape rankId))

/-- Every dimension is cut in equal parts. -/
def Divides (meshShape : MeshShape) (tensorMap : TensorMap) (shape : List Nat) : Prop :=
  ∀ dim ∈ shape.zip tensorMap, splitCount meshShape dim.2 ∣ dim.1

section Parts

variable {layout : Layout} {tensorMap : TensorMap} {shape : List Nat}

section

variable (h : LayoutOf layout tensorMap shape)

include h

theorem splitCount_pos {mapping : DimMapping} (hmapping : mapping ∈ tensorMap) :
    0 < splitCount layout.mesh.meshShape mapping :=
  Nat.lt_of_le_of_lt (Nat.zero_le _) (splitIndex_lt h.mesh_pos 0 (h.wellFormed.entry hmapping))

theorem cutsOf_even (hdivides : Divides layout.mesh.meshShape tensorMap shape) (rankId : Nat) :
    ∀ cut ∈ cutsOf layout.mesh.meshShape rankId tensorMap shape, cut.Even := by
  intro cut hcut
  obtain ⟨dim, hdim, rfl⟩ := mem_map.mp hcut
  exact ⟨splitCount_pos h (of_mem_zip hdim).2, hdivides dim hdim⟩

theorem sizes_cutsOf (rankId : Nat) :
    sizes (cutsOf layout.mesh.meshShape rankId tensorMap shape) = shape := by
  have hfst : (Cut.size ∘ cutOf (splitCount layout.mesh.meshShape)
      (splitIndex layout.mesh.meshShape rankId)) = Prod.fst := rfl
  rw [sizes, cutsOf, map_map, hfst, map_fst_zip]
  rw [h.length_eq]

theorem partOf_eq (hdivides : Divides layout.mesh.meshShape tensorMap shape) {α : Type}
    {t : Dense α} (hshape : t.shape = shape) (rank : Nat) :
    partOf layout rank t = some (t.slice (Dense.areaOf (cutsOf layout.mesh.meshShape
      (layout.mesh.rankList.idxOf rank) tensorMap shape))) := by
  have harea : sliceArea layout.mesh.meshShape
      ((unevenShardMeshDims layout.placements).map Int.ofNat) tensorMap shape
      (layout.mesh.rankList.idxOf rank) = Dense.areaOf (cutsOf layout.mesh.meshShape
        (layout.mesh.rankList.idxOf rank) tensorMap shape) := by
    rw [sliceArea, Dense.areaOf, cutsOf, map_map, ← map_uncurry_zip_eq_zipWith]
    refine map_congr_left fun dim hdim => ?_
    exact dimSlice_eq_cut h.mesh_pos _ _ (h.wellFormed.entry (of_mem_zip hdim).2)
      (hdivides dim hdim)
  rw [partOf, inferSliceAreaByLayout, h.map_eq, hshape]
  simp only [Option.bind_some]
  rw [inferSliceAreaByRank_eq h.mesh_pos h.wellFormed h.length_eq, harea]
  rfl

end

end Parts

/-! ## Marks that are counted -/

/-- A map value of several axes, one of them the mark of an unsharded dimension. -/
def Stray (mapping : DimMapping) : Prop := mapping ≠ .axis NONE ∧ NONE ∈ mapping.mappedDims

section Strays

variable {meshShape : MeshShape} {mapping : DimMapping}

theorem usedAxes_of_not_stray (hnone : mapping ≠ .axis NONE) (h : ¬ Stray mapping) :
    mapping.usedAxes = mapping.mappedDims := by
  rw [DimMapping.usedAxes, filter_eq_self]
  intro axis haxis
  have hne : axis ≠ NONE := fun heq => h ⟨hnone, heq ▸ haxis⟩
  simpa using hne

theorem splitCount_eq_shardCount (hnone : mapping ≠ .axis NONE) (h : ¬ Stray mapping) :
    splitCount meshShape mapping = shardCount meshShape mapping := by
  rw [splitCount, shardCount, ← usedAxes_of_not_stray hnone h]
  exact congrArg List.prod (map_congr_left fun axis haxis => (readSize_of_used haxis).symm)

theorem readMap_of_not_stray {names : List String} (hnames : "None" ∉ names) (hmesh : 0 < names.length)
    (hentry : EntryOk names.length mapping) (h : ¬ Stray mapping) : readMap names mapping = mapping := by
  have haxis : ∀ axis : Int, 0 ≤ axis ∧ axis < names.length →
      axisOfDim names (readDim names.length axis) = axis := by
    intro axis hrange
    have hne : axis ≠ NONE := by
      rw [NONE]
      omega
    have hlt := readDim_lt hmesh (.inr hrange)
    have hnamed : nameOf names (readDim names.length axis) ≠ "None" :=
      fun heq => hnames (heq ▸ nameOf_mem hlt)
    rw [axisOfDim, if_neg hnamed, readDim, if_neg hne, meshDimOf_cast hrange]
    ring
  cases mapping with
  | axis id =>
    rw [readMap]
    by_cases hnone : id = NONE
    · rw [if_pos hnone, hnone]
    · rw [if_neg hnone, haxis id ((hentry id (mem_singleton_self id)).resolve_left hnone)]
  | axes ids =>
    have hids : ∀ id ∈ ids, id ≠ NONE := fun id hid heq =>
      h ⟨by simp, heq ▸ hid⟩
    have hsame : ids.map (fun id => axisOfDim names (readDim names.length id)) = ids := by
      conv_rhs => rw [← map_id' ids]
      exact map_congr_left fun id hid => haxis id ((hentry id hid).resolve_left (hids id hid))
    rw [readMap, hsame]

theorem prod_filter_lt {size : Int → Nat} {axes : List Int} (htwo : ∀ axis ∈ axes, 2 ≤ size axis)
    {keeps : Int → Bool} :
    0 < ((axes.filter keeps).map size).prod ∧
      ((axes.filter keeps).map size).prod ≤ (axes.map size).prod ∧
      ((∃ axis ∈ axes, keeps axis = false) →
        ((axes.filter keeps).map size).prod < (axes.map size).prod) := by
  induction axes with
  | nil => exact ⟨Nat.one_pos, le_rfl, by simp⟩
  | cons axis axes ih =>
    obtain ⟨hpos, hle, hlt⟩ := ih fun other hother => htwo other (mem_cons_of_mem axis hother)
    have haxis := htwo axis mem_cons_self
    rw [map_cons, prod_cons]
    cases hkeeps : keeps axis with
    | true =>
      rw [filter_cons_of_pos hkeeps, map_cons, prod_cons]
      refine ⟨Nat.mul_pos (by omega) hpos, Nat.mul_le_mul_left _ hle, ?_⟩
      rintro ⟨other, hother, hdropped⟩
      rcases mem_cons.mp hother with rfl | hmem
      · rw [hkeeps] at hdropped
        cases hdropped
      · exact Nat.mul_lt_mul_of_pos_left (hlt ⟨other, hmem, hdropped⟩) (by omega)
    | false =>
      rw [filter_cons_of_neg (by simp [hkeeps])]
      have hdouble : 2 * (axes.map size).prod ≤ size axis * (axes.map size).prod :=
        Nat.mul_le_mul_right _ haxis
      refine ⟨hpos, by omega, fun _ => by omega⟩

theorem splitCount_le_shardCount (hmesh : 0 < meshShape.length) (hpos : ∀ size ∈ meshShape, 0 < size)
    (hentry : EntryOk meshShape.length mapping)
    (hne : filteredEntry meshShape mapping ≠ .axis NONE) :
    splitCount meshShape (filteredEntry meshShape mapping) ≤
        shardCount meshShape (filteredEntry meshShape mapping) ∧
      (Stray (filteredEntry meshShape mapping) →
        splitCount meshShape (filteredEntry meshShape mapping) <
          shardCount meshShape (filteredEntry meshShape mapping)) := by
  have hfilter := (@mappedDims_filteredEntry meshShape mapping).resolve_left hne
  have htwo : ∀ axis ∈ (filteredEntry meshShape mapping).mappedDims, 2 ≤ readSize meshShape axis := by
    intro axis haxis
    rw [hfilter] at haxis
    obtain ⟨hmem, hsize⟩ := mem_filter.mp haxis
    have hone := readSize_pos hmesh hpos (hentry axis hmem)
    have hsize := of_decide_eq_true hsize
    omega
  have hsplit : splitCount meshShape (filteredEntry meshShape mapping) =
      ((((filteredEntry meshShape mapping).mappedDims.filter (· ≠ NONE)).map
        (readSize meshShape))).prod :=
    congrArg List.prod (map_congr_left fun axis haxis => (readSize_of_used haxis).symm)
  obtain ⟨-, hle, hlt⟩ := @prod_filter_lt (readSize meshShape) _ htwo fun axis => decide (axis ≠ NONE)
  rw [hsplit, shardCount]
  exact ⟨hle, fun hstray => hlt ⟨NONE, hstray.2, by simp⟩⟩

end Strays

/-! ## Parts of the target -/

def ReshapesParts (layout out : Layout) (localShape : List Int) (shape target : List Nat) : Prop :=
  ∃ sizes : List Nat, localShape = sizes.map Nat.cast ∧ ∀ {α : Type} (t : Dense α), t.shape = shape →
    ∀ rank ∈ layout.mesh.rankList, ∃ whole part reshaped expected,
      t.reshape target = some whole ∧ partOf layout rank t = some part ∧
      part.reshape sizes = some reshaped ∧ partOf out rank whole = some expected ∧
      reshaped.Same expected

section Sound

variable {layout : Layout} {tensorMap : TensorMap} {shape target : List Nat}

section

variable (h : LayoutOf layout tensorMap shape)

include h

theorem mem_groupsOf (hshape : ∀ size ∈ shape, 0 < size) {group : MappedDim}
    (hgroup : group ∈ groupsOf layout.mesh.meshShape tensorMap shape) :
    ∃ mapping ∈ tensorMap, filteredEntry layout.mesh.meshShape mapping = group.2 := by
  have hsnd := (mem_mergedGroups (filteredDims_pos h hshape) hgroup).2
  rw [snd_filteredDims h] at hsnd
  exact mem_map.mp hsnd

theorem cutsOf_filtered (rankId : Nat) :
    (filteredDims layout.mesh.meshShape tensorMap shape).map
        (cutOf (splitCount layout.mesh.meshShape) (splitIndex layout.mesh.meshShape rankId)) =
      cutsOf layout.mesh.meshShape rankId tensorMap shape := by
  rw [filteredDims, zip_map_right, map_map, cutsOf]
  refine map_congr_left fun dim hdim => ?_
  have haxes := h.wellFormed.entry (of_mem_zip hdim).2
  change Cut.mk dim.1 (splitCount _ (filteredEntry _ dim.2)) (splitIndex _ _ (filteredEntry _ dim.2)) = _
  rw [splitCount_filteredEntry, splitIndex_filteredEntry h.mesh_pos rankId haxes]
  rfl

theorem cutsOf_regroup (rankId : Nat) :
    Regroup (cutsOf layout.mesh.meshShape rankId tensorMap shape)
      ((groupsOf layout.mesh.meshShape tensorMap shape).map
        (cutOf (splitCount layout.mesh.meshShape) (splitIndex layout.mesh.meshShape rankId))) := by
  rw [← cutsOf_filtered h rankId, groupsOf]
  exact mergedGroups_regroup rfl rfl _

theorem groupsOf_onesPlain (hshape : ∀ size ∈ shape, 0 < size)
    (hdivides : Divides layout.mesh.meshShape tensorMap shape) (rankId : Nat) :
    OnesPlain (splitCount layout.mesh.meshShape) (splitIndex layout.mesh.meshShape rankId)
      (groupsOf layout.mesh.meshShape tensorMap shape) := by
  intro group hgroup hone
  obtain ⟨mapping, hmapping, hfiltered⟩ := mem_groupsOf h hshape hgroup
  have hcut := (cutsOf_regroup h rankId).even (cutsOf_even h hdivides rankId) _
    (mem_map_of_mem hgroup)
  have hcount : splitCount layout.mesh.meshShape group.2 = 1 := by
    have hdvd : splitCount layout.mesh.meshShape group.2 ∣ group.1 := hcut.dvd
    rw [hone] at hdvd
    exact Nat.dvd_one.mp hdvd
  have hindex : splitIndex layout.mesh.meshShape rankId group.2 = 0 := by
    have haxes := h.wellFormed.entry hmapping
    have hlt := splitIndex_lt h.mesh_pos rankId haxes
    rw [← splitIndex_filteredEntry h.mesh_pos rankId haxes, ← splitCount_filteredEntry, hfiltered,
      hcount] at hlt
    omega
  rw [cutOf, hone, hcount, hindex]
  rfl

end

theorem localSize_eq_div {meshShape : MeshShape} {mapping : DimMapping} (h : ¬ Stray mapping)
    (size : Nat) : localSize meshShape mapping size = size / splitCount meshShape mapping := by
  rw [localSize]
  by_cases hnone : mapping = .axis NONE
  · rw [if_pos hnone, hnone]
    exact (Nat.div_one size).symm
  · rw [if_neg hnone, splitCount_eq_shardCount hnone h]

theorem widths_cutsOf (meshShape : MeshShape) (rankId : Nat) {maps : TensorMap} (target : List Nat)
    (h : ∀ mapping ∈ maps, ¬ Stray mapping) :
    widths (cutsOf meshShape rankId maps target) = zipWith (localSize meshShape) maps target := by
  rw [widths, cutsOf, map_map, zipWith_comm, ← map_uncurry_zip_eq_zipWith]
  refine map_congr_left fun dim hdim => ?_
  exact (localSize_eq_div (h dim.2 (of_mem_zip hdim).2) dim.1).symm

variable {names : List String} {front : List MappedDim} {group : MappedDim} {maps : TensorMap}
  {out : Layout}

theorem layoutOf_out (h : LayoutOf layout tensorMap shape)
    (hnames : layout.mesh.meshDimNames = some names) (hnone : "None" ∉ names)
    (hmaps : ∀ mapping ∈ maps, EntryOk names.length mapping)
    (hreached : Reached layout.mesh.meshShape (groupsOf layout.mesh.meshShape tensorMap shape) target maps)
    (hnodup : (maps.flatMap (dimsOf names)).Nodup)
    (hout : Carries layout.mesh (maps.map (readMap names)) out)
    (hstray : ∀ mapping ∈ maps, ¬ Stray mapping) :
    LayoutOf out maps target ∧ Divides layout.mesh.meshShape maps target := by
  have hlength := (layout.mesh.names_ok names (by simp [hnames])).1
  have hmesh : 0 < names.length := hlength ▸ h.mesh_length_pos
  have hread : maps.map (readMap names) = maps := by
    conv_rhs => rw [← map_id' maps]
    exact map_congr_left fun mapping hmapping =>
      readMap_of_not_stray hnone hmesh (hmaps mapping hmapping) (hstray mapping hmapping)
  have hwf := readMap_wellFormed hmesh hmaps hnodup
  rw [hread] at hwf
  constructor
  · refine ⟨by rw [hout.map_eq, hread], hreached.length_eq, ?_, ?_, ?_⟩
    · rw [hout.mesh_eq, ← hlength]
      exact hwf
    · rw [hout.mesh_eq]
      exact h.mesh_ne_nil
    · rw [hout.mesh_eq]
      exact h.mesh_pos
  · intro dim hdim
    by_cases hplain : dim.2 = .axis NONE
    · rw [hplain]
      exact Nat.one_dvd dim.1
    · rw [splitCount_eq_shardCount hplain (hstray dim.2 (of_mem_zip hdim).2)]
      exact hreached.completes dim hdim hplain

theorem reshapesParts_of_not_stray (h : LayoutOf layout tensorMap shape)
    (hshape : ∀ size ∈ shape, 0 < size) (hdivides : Divides layout.mesh.meshShape tensorMap shape)
    (hprod : target.prod = shape.prod)
    (hregroup : ∀ (count index : DimMapping → Nat), count (.axis NONE) = 1 → index (.axis NONE) = 0 →
      OnesPlain count index (groupsOf layout.mesh.meshShape tensorMap shape) →
        Regroup ((target.zip maps).map (cutOf count index))
          ((groupsOf layout.mesh.meshShape tensorMap shape).map (cutOf count index)))
    (hmesh : out.mesh = layout.mesh) (hout : LayoutOf out maps target)
    (houtDivides : Divides layout.mesh.meshShape maps target)
    (hstray : ∀ mapping ∈ maps, ¬ Stray mapping) :
    ReshapesParts layout out ((zipWith (localSize layout.mesh.meshShape) maps target).map Nat.cast)
      shape target := by
  refine ⟨_, rfl, fun {α} t ht rank _ => ?_⟩
  set rankId := layout.mesh.rankList.idxOf rank with hrank
  have hin := (cutsOf_regroup h rankId).sameParts (cutsOf_even h hdivides rankId)
  have hsizes := sizes_cutsOf hout rankId
  have heven := cutsOf_even hout (by rw [hmesh]; exact houtDivides) rankId
  rw [hmesh] at hsizes heven
  have hwritten := (hregroup _ _ rfl rfl (groupsOf_onesPlain h hshape hdivides rankId)).sameParts heven
  have hpart := partOf_eq h hdivides ht rank
  obtain ⟨reshaped, hreshaped, hsame⟩ := t.slice_reshape_same (hin.trans hwritten.symm)
    (ht.trans (sizes_cutsOf h rankId).symm)
  have hwhole : t.reshape target = some ⟨target, t.flat⟩ :=
    Dense.reshape_of_prod (by rw [hprod, Dense.numel, ht])
  have hexpected := @partOf_eq out maps target hout (by rw [hmesh]; exact houtDivides) α
    ⟨target, t.flat⟩ rfl rank
  rw [hmesh] at hexpected
  refine ⟨_, _, reshaped, _, hwhole, hpart, ?_, hexpected, ?_⟩
  · rw [← widths_cutsOf layout.mesh.meshShape rankId target hstray]
    exact hreshaped
  · change reshaped.Same ((⟨sizes (cutsOf layout.mesh.meshShape rankId maps target), t.flat⟩ :
      Dense α).slice (Dense.areaOf (cutsOf layout.mesh.meshShape rankId maps target))) at hsame
    rwa [hsizes] at hsame

end Sound

/-! ## When a mark is counted -/

/-- The groups a target has to reach: those behind the leading ones of one element. -/
def visitedGroups (groups : List MappedDim) : List MappedDim :=
  groups.dropWhile fun group => group.1 = 1

theorem visitedGroups_split (groups : List MappedDim) :
    ∃ unvisited, groups = unvisited ++ visitedGroups groups ∧ ∀ group ∈ unvisited, group.1 = 1 :=
  ⟨groups.takeWhile fun group => group.1 = 1, List.takeWhile_append_dropWhile.symm,
    fun _ hgroup => by simpa using List.mem_takeWhile_imp hgroup⟩

theorem shardMaps_visitedGroups {meshShape : MeshShape} {groups unvisited visited : List MappedDim}
    (hgroups : GroupsOk meshShape groups) (hsplit : groups = unvisited ++ visited)
    (hone : ∀ group ∈ unvisited, group.1 = 1)
    (hcompletes : ∀ group ∈ visited, Completes meshShape group.2 group.1) :
    shardMaps (groupMaps (visitedGroups groups)) = shardMaps (groupMaps visited) ∧
      ∀ group ∈ visitedGroups groups, Completes meshShape group.2 group.1 := by
  have hdrop : visitedGroups groups = visitedGroups visited := by
    rw [hsplit]
    exact dropWhile_append_of_pos fun group hgroup => by simpa using hone group hgroup
  obtain ⟨passed, hpassed, hpassedOne⟩ := visitedGroups_split visited
  have hplain : shardMaps (groupMaps passed) = [] := by
    rw [shardMaps, filter_eq_nil_iff]
    intro mapping hmapping
    obtain ⟨group, hgroup, rfl⟩ := mem_map.mp hmapping
    have hmem : group ∈ visited := hpassed ▸ mem_append_left _ hgroup
    by_contra hne
    have hne : group.2 ≠ .axis NONE := by simpa using hne
    have htwo := hgroups.sharded group (hsplit ▸ mem_append_right _ hmem) hne
    have hdvd := hcompletes group hmem hne
    rw [hpassedOne group hgroup] at hdvd
    have hle := Nat.le_of_dvd Nat.one_pos hdvd
    omega
  constructor
  · rw [hdrop]
    conv_rhs => rw [hpassed, groupMaps, map_append, ← groupMaps, shardMaps_append, hplain]
    rfl
  · intro group hgroup
    rw [hdrop] at hgroup
    exact hcompletes group (hpassed ▸ mem_append_right _ hgroup)

theorem flatMap_dimsOf_shardMaps (names : List String) (maps : TensorMap) :
    (shardMaps maps).flatMap (dimsOf names) = maps.flatMap (dimsOf names) := by
  induction maps with
  | nil => rfl
  | cons mapping maps ih =>
    rw [shardMaps] at ih ⊢
    by_cases hnone : mapping = .axis NONE
    · rw [filter_cons_of_neg (by simp [hnone]), ih, flatMap_cons, hnone]
      rfl
    · rw [filter_cons_of_pos (by simpa using hnone), flatMap_cons, ih, flatMap_cons]

theorem TakesOver.of_shardMaps {names : List String} (hnone : "None" ∉ names) {maps other : TensorMap}
    (hsame : shardMaps maps = shardMaps other) {layout : Layout}
    (h : TakesOver names (maps.map (readMap names)) layout) :
    TakesOver names (other.map (readMap names)) layout := by
  intro hpartial entry hentry op hop hlt
  obtain ⟨hsupported, hfree⟩ := h hpartial entry hentry op hop hlt
  refine ⟨hsupported, fun hmem => hfree ?_⟩
  have hnamed : nameOf names entry.2 ≠ "None" := fun heq => hnone (heq ▸ nameOf_mem hlt)
  have hne : axisOfDim names entry.2 ≠ NONE := by
    rw [axisOfDim, if_neg hnamed, NONE]
    omega
  obtain ⟨read, hread, haxis⟩ := mem_flatMap.mp hmem
  obtain ⟨mapping, hmapping, rfl⟩ := mem_map.mp hread
  have hsharded : mapping ≠ .axis NONE := by
    rintro rfl
    exact hne (mem_singleton.mp haxis)
  have hshard : mapping ∈ shardMaps other := mem_filter.mpr ⟨hmapping, by simpa using hsharded⟩
  rw [← hsame] at hshard
  exact mem_flatMap.mpr ⟨_, mem_map_of_mem (mem_filter.mp hshard).1, haxis⟩

theorem prod_map_lt {α : Type} {f g : α → Nat} {xs : List α} (h : ∀ x ∈ xs, 0 < f x ∧ f x ≤ g x) :
    0 < (xs.map f).prod ∧ (xs.map f).prod ≤ (xs.map g).prod ∧
      ((∃ x ∈ xs, f x < g x) → (xs.map f).prod < (xs.map g).prod) := by
  induction xs with
  | nil => exact ⟨Nat.one_pos, le_rfl, by simp⟩
  | cons x xs ih =>
    obtain ⟨hpos, hle, hlt⟩ := ih fun y hy => h y (mem_cons_of_mem x hy)
    obtain ⟨hx, hxle⟩ := h x mem_cons_self
    rw [map_cons, map_cons, prod_cons, prod_cons]
    refine ⟨Nat.mul_pos hx hpos, Nat.mul_le_mul hxle hle, ?_⟩
    rintro ⟨y, hy, hyx⟩
    rcases mem_cons.mp hy with rfl | hmem
    · exact Nat.mul_lt_mul_of_lt_of_le hyx hle (by omega)
    · exact Nat.mul_lt_mul_of_le_of_lt hxle (hlt ⟨y, hmem, hyx⟩) (by omega)

structure Miscounted (layout : Layout) (tensorMap : TensorMap) (shape : List Nat) : Prop where
  stray : ∃ group ∈ visitedGroups (groupsOf layout.mesh.meshShape tensorMap shape), Stray group.2
  completes : ∀ group ∈ visitedGroups (groupsOf layout.mesh.meshShape tensorMap shape),
    Completes layout.mesh.meshShape group.2 group.1
  written : ∃ names, layout.mesh.meshDimNames = some names ∧
    ((groupMaps (visitedGroups (groupsOf layout.mesh.meshShape tensorMap shape))).flatMap
      (dimsOf names)).Nodup ∧
    TakesOver names ((groupMaps (visitedGroups (groupsOf layout.mesh.meshShape tensorMap shape))).map
      (readMap names)) layout

section Miscount

variable {layout : Layout} {tensorMap : TensorMap} {shape : List Nat}

theorem prod_localSize_lt (h : LayoutOf layout tensorMap shape) (hshape : ∀ size ∈ shape, 0 < size)
    (hdivides : Divides layout.mesh.meshShape tensorMap shape)
    (hmiscounted : Miscounted layout tensorMap shape) (rankId : Nat) :
    (zipWith (localSize layout.mesh.meshShape)
        (groupMaps (visitedGroups (groupsOf layout.mesh.meshShape tensorMap shape)))
        ((visitedGroups (groupsOf layout.mesh.meshShape tensorMap shape)).map Prod.fst)).prod <
      (widths (cutsOf layout.mesh.meshShape rankId tensorMap shape)).prod := by
  have hgroups := groupsOf_ok h hshape
  have hregroup := cutsOf_regroup h rankId
  have heven := cutsOf_even h hdivides rankId
  obtain ⟨unvisited, hsplit, hone⟩ := visitedGroups_split (groupsOf layout.mesh.meshShape tensorMap shape)
  have hdvd : ∀ group ∈ groupsOf layout.mesh.meshShape tensorMap shape,
      splitCount layout.mesh.meshShape group.2 ∣ group.1 := fun group hgroup =>
    (hregroup.even heven _ (mem_map_of_mem hgroup)).dvd
  -- The leading groups of one element have one part.
  have hunvisited : (unvisited.map fun group =>
      group.1 / splitCount layout.mesh.meshShape group.2).prod = 1 := by
    refine prod_eq_one fun width hwidth => ?_
    obtain ⟨group, hgroup, rfl⟩ := mem_map.mp hwidth
    have hcount := hdvd group (hsplit ▸ mem_append_left _ hgroup)
    rw [hone group hgroup] at hcount ⊢
    rw [Nat.dvd_one.mp hcount, Nat.div_one]
  have hwidths : (widths (cutsOf layout.mesh.meshShape rankId tensorMap shape)).prod =
      ((visitedGroups (groupsOf layout.mesh.meshShape tensorMap shape)).map fun group =>
        group.1 / splitCount layout.mesh.meshShape group.2).prod := by
    rw [(hregroup.sameParts heven).widths, widths, map_map]
    change ((groupsOf layout.mesh.meshShape tensorMap shape).map fun group =>
      group.1 / splitCount layout.mesh.meshShape group.2).prod = _
    conv_lhs => rw [hsplit]
    rw [map_append, prod_append, hunvisited, Nat.one_mul]
  rw [hwidths, groupMaps, zipWith_map_left, zipWith_map_right, zipWith_self]
  have hmem : ∀ group ∈ visitedGroups (groupsOf layout.mesh.meshShape tensorMap shape),
      group ∈ groupsOf layout.mesh.meshShape tensorMap shape := fun group hgroup =>
    hsplit ▸ mem_append_right unvisited hgroup
  have hcounts : ∀ group ∈ visitedGroups (groupsOf layout.mesh.meshShape tensorMap shape),
      group.2 ≠ .axis NONE → splitCount layout.mesh.meshShape group.2 ≤
          shardCount layout.mesh.meshShape group.2 ∧
        (Stray group.2 → splitCount layout.mesh.meshShape group.2 <
          shardCount layout.mesh.meshShape group.2) := by
    intro group hgroup hne
    obtain ⟨mapping, hmapping, hfiltered⟩ := mem_groupsOf h hshape (hmem group hgroup)
    rw [← hfiltered] at hne ⊢
    exact splitCount_le_shardCount h.mesh_length_pos h.mesh_pos
      (entryOk_of_wellFormed h.wellFormed hmapping) hne
  refine (prod_map_lt fun group hgroup => ?_).2.2 ?_
  · have hsize := hgroups.size_pos group (hmem group hgroup)
    rw [localSize]
    by_cases hnone : group.2 = .axis NONE
    · rw [if_pos hnone, hnone]
      exact ⟨hsize, (Nat.div_one group.1).ge⟩
    · rw [if_neg hnone]
      have hcount := hmiscounted.completes group hgroup hnone
      have hle := (hcounts group hgroup hnone).1
      have hsplitPos := Nat.pos_of_dvd_of_pos (hdvd group (hmem group hgroup)) hsize
      exact ⟨Nat.div_pos (Nat.le_of_dvd hsize hcount) (by omega), Nat.div_le_div_left hle hsplitPos⟩
  · obtain ⟨group, hgroup, hstray⟩ := hmiscounted.stray
    refine ⟨group, hgroup, ?_⟩
    have hsize := hgroups.size_pos group (hmem group hgroup)
    rw [localSize, if_neg hstray.1]
    exact (Nat.div_lt_div_left hsize.ne' (hmiscounted.completes group hgroup hstray.1)
      (hdvd group (hmem group hgroup))).mpr ((hcounts group hgroup hstray.1).2 hstray)

variable {target : List Nat} {dst : List Int} {names : List String}

theorem infer_eq_ok (py : PyStr) (h : LayoutOf layout tensorMap shape)
    (hshape : ∀ size ∈ shape, 0 < size) (hnames : layout.mesh.meshDimNames = some names)
    (hne : shape ≠ []) (htarget : ∀ size ∈ target, 0 < size) (hdst : Targets dst target)
    (hprod : target.prod = shape.prod) {front : List MappedDim} {group : MappedDim}
    (hgroups : groupsOf layout.mesh.meshShape tensorMap shape = front ++ [group]) {out : Layout}
    {localShape : List Int}
    (hrun : inferReshapeLayout py layout (.sequence dst) (shape.map Nat.cast) = .ok (out, localShape)) :
    ∃ maps, walkOf layout.mesh.meshShape tensorMap shape target front.length group.1 = .ok maps ∧
      (∀ mapping ∈ maps, EntryOk names.length mapping) ∧ (maps.flatMap (dimsOf names)).Nodup ∧
      TakesOver names (maps.map (readMap names)) layout ∧
      Carries layout.mesh (maps.map (readMap names)) out ∧
      localShape = (zipWith (localSize layout.mesh.meshShape) maps target).map Nat.cast := by
  have hlength := (layout.mesh.names_ok names (by simp [hnames])).1
  have hmesh : 0 < names.length := hlength ▸ h.mesh_length_pos
  cases hwalk : walkOf layout.mesh.meshShape tensorMap shape target front.length group.1 with
  | error error =>
    rw [inferReshapeLayout_eq_walk py h hnames hne htarget hdst hprod hgroups, hwalk] at hrun
    cases hrun
  | ok maps =>
    obtain ⟨hmaps, hwritten⟩ :=
      infer_eq_writeOut py h hshape hnames hne htarget hdst hprod hgroups hwalk
    rw [hwritten] at hrun
    rw [← hlength] at hmaps
    rcases writeOut_carries py hnames hmesh target hmaps with
      ⟨hnodup, htakes, written, hok, hcarries, -⟩ | ⟨-, error, herror, -⟩
    · rw [hok] at hrun
      obtain ⟨rfl, rfl⟩ := Prod.mk.inj (Except.ok.inj hrun)
      exact ⟨maps, rfl, hmaps, hnodup, htakes, hcarries, rfl⟩
    · rw [herror] at hrun
      cases hrun

theorem miscounted_of_stray (h : LayoutOf layout tensorMap shape) (hshape : ∀ size ∈ shape, 0 < size)
    (hnames : layout.mesh.meshDimNames = some names) (hnone : "None" ∉ names) {maps : TensorMap}
    (hreached : Reached layout.mesh.meshShape (groupsOf layout.mesh.meshShape tensorMap shape) target maps)
    (hnodup : (maps.flatMap (dimsOf names)).Nodup)
    (htakes : TakesOver names (maps.map (readMap names)) layout) {mapping : DimMapping}
    (hmapping : mapping ∈ maps) (hstray : Stray mapping) : Miscounted layout tensorMap shape := by
  obtain ⟨unvisited, visited, hsplit, hone, hmaps, hcompletes⟩ := hreached.visited
  obtain ⟨hshards, hall⟩ := shardMaps_visitedGroups (groupsOf_ok h hshape) hsplit hone hcompletes
  have hsame := hmaps.trans hshards.symm
  refine ⟨?_, hall, names, hnames, ?_, htakes.of_shardMaps hnone hsame⟩
  · have hshard : mapping ∈ shardMaps maps := mem_filter.mpr ⟨hmapping, by simpa using hstray.1⟩
    rw [hsame] at hshard
    obtain ⟨group, hgroup, rfl⟩ := mem_map.mp (mem_filter.mp hshard).1
    exact ⟨group, hgroup, hstray⟩
  · rw [← flatMap_dimsOf_shardMaps, ← hsame, flatMap_dimsOf_shardMaps]
    exact hnodup

/-- Where a mark is counted, the groups themselves are a target whose local shape does not fit. -/
theorem not_reshapesParts_of_miscounted (py : PyStr) (h : LayoutOf layout tensorMap shape)
    (hshape : ∀ size ∈ shape, 0 < size) (hdivides : Divides layout.mesh.meshShape tensorMap shape)
    (hmiscounted : Miscounted layout tensorMap shape) :
    ∃ target : List Nat, (∀ size ∈ target, 0 < size) ∧ target.prod = shape.prod ∧
      ∃ out localShape, inferReshapeLayout py layout (.sequence (target.map Nat.cast))
        (shape.map Nat.cast) = .ok (out, localShape) ∧
        ¬ ReshapesParts layout out localShape shape target := by
  have hgroups := groupsOf_ok h hshape
  obtain ⟨unvisited, hsplit, hone⟩ := visitedGroups_split (groupsOf layout.mesh.meshShape tensorMap shape)
  set visited := visitedGroups (groupsOf layout.mesh.meshShape tensorMap shape) with hvisited
  obtain ⟨names, hnames, hnodup, htakes⟩ := hmiscounted.written
  have hlength := (layout.mesh.names_ok names (by simp [hnames])).1
  have hmesh : 0 < names.length := hlength ▸ h.mesh_length_pos
  obtain ⟨stray, hstrayMem, -⟩ := hmiscounted.stray
  obtain ⟨before, group, hlast⟩ : ∃ before group, visited = before ++ [group] := by
    rcases eq_nil_or_concat visited with hnil | ⟨before, group, hlast⟩
    · rw [← hvisited, hnil] at hstrayMem
      cases hstrayMem
    · exact ⟨before, group, by rw [hlast, concat_eq_append]⟩
  have hmem : ∀ other ∈ visited, other ∈ groupsOf layout.mesh.meshShape tensorMap shape :=
    fun other hother => hsplit ▸ mem_append_right unvisited hother
  have htarget : ∀ size ∈ visited.map Prod.fst, 0 < size := by
    intro size hsize
    obtain ⟨other, hother, rfl⟩ := mem_map.mp hsize
    exact hgroups.size_pos other (hmem other hother)
  have hprod : (visited.map Prod.fst).prod = shape.prod := by
    have hones : (unvisited.map Prod.fst).prod = 1 := by
      refine prod_eq_one fun size hsize => ?_
      obtain ⟨other, hother, rfl⟩ := mem_map.mp hsize
      exact hone other hother
    rw [← prod_groupsOf h, hsplit, map_append, prod_append, hones, Nat.one_mul]
  have hne : shape ≠ [] := by
    rintro rfl
    have hempty : groupsOf layout.mesh.meshShape tensorMap [] = [] := rfl
    have hnot := hmem stray hstrayMem
    rw [hempty] at hnot
    cases hnot
  have hsnoc : groupsOf layout.mesh.meshShape tensorMap shape = (unvisited ++ before) ++ [group] := by
    rw [hsplit, hlast, append_assoc]
  have hwalk : walkOf layout.mesh.meshShape tensorMap shape (visited.map Prod.fst)
      (unvisited ++ before).length group.1 = .ok (groupMaps visited) := by
    have hwhole : groupsOf layout.mesh.meshShape tensorMap shape = unvisited ++ visited ++ [] := by
      rw [append_nil]
      exact hsplit
    have hreached := @walk_visited
      (requestOf layout.mesh.meshShape tensorMap shape (visited.map Prod.fst)) _ hgroups visited
      hmiscounted.completes unvisited before [] group hlast hwhole []
    rw [append_nil] at hreached
    exact hreached
  obtain ⟨hmaps, hwritten⟩ :=
    infer_eq_writeOut py h hshape hnames hne htarget (.inl rfl) hprod hsnoc hwalk
  rw [← hlength] at hmaps
  rcases writeOut_carries py hnames hmesh (visited.map Prod.fst) hmaps with
    ⟨-, -, out, hout, -, -⟩ | ⟨hnot, -⟩
  · refine ⟨visited.map Prod.fst, htarget, hprod, out, _, hwritten.trans hout, ?_⟩
    rintro ⟨sizes, hsizes, hparts⟩
    have hrank : layout.mesh.rankList ≠ [] := by
      intro hnil
      have hcount := layout.mesh.ranks_ok
      rw [hnil] at hcount
      exact absurd hcount.symm (prod_pos h.mesh_pos).ne'
    obtain ⟨rank, hrank⟩ := exists_mem_of_ne_nil _ hrank
    obtain ⟨whole, part, reshaped, expected, -, hpart, hreshaped, -, -⟩ :=
      hparts (⟨shape, fun _ => ()⟩ : Dense Unit) rfl rank hrank
    have hsame : sizes = zipWith (localSize layout.mesh.meshShape) (groupMaps visited)
        (visited.map Prod.fst) := (map_injective_iff.mpr Nat.cast_injective hsizes).symm
    rw [partOf_eq h hdivides rfl] at hpart
    rw [← Option.some.inj hpart, Dense.slice_areaOf _ (sizes_cutsOf h _).symm, Dense.reshape] at hreshaped
    split at hreshaped
    · rename_i hcount
      have hlt := prod_localSize_lt h hshape hdivides hmiscounted (layout.mesh.rankList.idxOf rank)
      rw [← hvisited, ← hsame, hcount] at hlt
      exact lt_irrefl _ hlt
    · cases hreshaped
  · exact absurd ⟨hnodup, htakes⟩ hnot

end Miscount

/-- Whatever the inference returns for a target of the same number of elements, one size written -1 or
not, is defined on the global tensor and is what every rank makes of its own part. -/
def ReshapesSoundly (py : PyStr) (opName : String) (layout : Layout) (shape : List Nat) : Prop :=
  ∀ (target : List Nat) (dst : List Int), (∀ size ∈ target, 0 < size) → Targets dst target →
    target.prod = shape.prod → ∀ out localShape,
      inferReshape py opName (some layout) (.sequence dst) (shape.map Nat.cast) =
        .ok (out, localShape) → ReshapesParts layout out localShape shape target

/-- The reshape is sound for every target exactly when no mark of an unsharded dimension is counted as
a mesh axis. -/
theorem inferReshape_sound_iff (py : PyStr) (opName : String) {layout : Layout}
    {tensorMap : TensorMap} {shape : List Nat} (h : LayoutOf layout tensorMap shape)
    (hnone : ∀ names ∈ layout.mesh.meshDimNames, "None" ∉ names) (hshape : ∀ size ∈ shape, 0 < size)
    (hdivides : Divides layout.mesh.meshShape tensorMap shape) :
    ReshapesSoundly py opName layout shape ↔ ¬ Miscounted layout tensorMap shape := by
  constructor
  · intro hsound hmiscounted
    obtain ⟨target, htarget, hprod, out, localShape, hrun, hnot⟩ :=
      not_reshapesParts_of_miscounted py h hshape hdivides hmiscounted
    exact hnot (hsound target _ htarget (.inl rfl) hprod out localShape hrun)
  · intro hclean target dst htarget hdst hprod out localShape hrun
    cases hnames : layout.mesh.meshDimNames with
    | none =>
      rw [inferReshape, inferReshapeLayout, toDict, h.map_eq, hnames] at hrun
      cases hrun
    | some names =>
      have hne : shape ≠ [] := by
        rintro rfl
        rw [map_nil, inferReshape, infer_nil py h hnames htarget hdst hprod] at hrun
        cases hrun
      obtain ⟨front, group, hgroups⟩ := groupsOf_snoc h hne
      obtain ⟨maps, hwalk, hmaps, hnodup, htakes, hcarries, rfl⟩ :=
        infer_eq_ok py h hshape hnames hne htarget hdst hprod hgroups hrun
      obtain ⟨hreached, hregroup⟩ := walkOf_reached h hshape htarget hprod hgroups hwalk
      have hnamesNone := hnone names (by rw [hnames]; rfl)
      have hstray : ∀ mapping ∈ maps, ¬ Stray mapping := fun mapping hmapping hcounted =>
        hclean (miscounted_of_stray h hshape hnames hnamesNone hreached hnodup htakes hmapping
          hcounted)
      obtain ⟨hout, houtDivides⟩ :=
        layoutOf_out h hnames hnamesNone hmaps hreached hnodup hcarries hstray
      exact reshapesParts_of_not_stray h hshape hdivides hprod hregroup hcarries.mesh_eq hout
        houtDivides hstray

def squareMesh : DeviceMesh where
  meshShape := [2, 2]
  meshDimNames := some ["dp", "tp"]
  rankList := [0, 1, 2, 3]
  names_ok := by simp
  ranks_ok := rfl

def squareLayout (tensorMap : TensorMap) : Layout where
  mesh := squareMesh
  tensorMap := some tensorMap
  partialOps := [none, none]
  placements := none
  raggedShard := none
  tensorShape := none
  tensorStride := none
  tensorDtype := "None"
  compactStr := ""

theorem squareLayout_layoutOf {tensorMap : TensorMap} {shape : List Nat}
    (hlength : tensorMap.length = shape.length) (hwf : WellFormed 2 tensorMap) :
    LayoutOf (squareLayout tensorMap) tensorMap shape where
  map_eq := rfl
  length_eq := hlength
  wellFormed := hwf
  mesh_ne_nil := List.cons_ne_nil 2 [2]
  mesh_pos := by simp [squareLayout, squareMesh]

/-- Four rows, each on a device of its own, reshaped to whatever is taken. -/
theorem inferReshape_sound_rows :
    ReshapesSoundly asciiStr "Reshape" (squareLayout [.axes [1, 0], .axis NONE]) [4, 3] := by
  have hnone : ∀ names ∈ (squareLayout [.axes [1, 0], .axis NONE]).mesh.meshDimNames,
      "None" ∉ names := by
    rintro names ⟨⟩
    decide
  refine (inferReshape_sound_iff asciiStr "Reshape" (squareLayout_layoutOf rfl ⟨by decide, by decide⟩)
    hnone (by decide) (by unfold Divides; decide)).mpr ?_
  rintro ⟨⟨group, hgroup, hstray⟩, -, -⟩
  have hgroups : visitedGroups (groupsOf (squareLayout [.axes [1, 0], .axis NONE]).mesh.meshShape
      [.axes [1, 0], .axis NONE] [4, 3]) = [(12, .axes [1, 0])] := by decide
  rw [hgroups] at hgroup
  rw [mem_singleton.mp hgroup] at hstray
  exact absurd hstray.2 (by decide)

/-- The inner axis and a mark share a dimension of four: two elements are to become one. -/
theorem inferReshape_counts_mark :
    ¬ ReshapesSoundly asciiStr "Reshape" (squareLayout [.axes [0, NONE]]) [4] := by
  have hgroups : visitedGroups (groupsOf (squareLayout [.axes [0, NONE]]).mesh.meshShape
      [.axes [0, NONE]] [4]) = [(4, .axes [0, NONE])] := by decide
  have hmiscounted : Miscounted (squareLayout [.axes [0, NONE]]) [.axes [0, NONE]] [4] := by
    refine ⟨?_, ?_, ["dp", "tp"], rfl, ?_, ?_⟩
    · rw [hgroups]
      exact ⟨_, mem_singleton_self _, by decide, by decide⟩
    · rw [hgroups]
      intro group hgroup _
      rw [mem_singleton.mp hgroup]
      decide
    · rw [hgroups]
      decide
    · intro hpartial
      cases hpartial
  intro hsound
  obtain ⟨target, htarget, hprod, out, localShape, hrun, hnot⟩ :=
    not_reshapesParts_of_miscounted asciiStr
      (squareLayout_layoutOf rfl ⟨by decide, by decide⟩) (by decide) (by unfold Divides; decide)
      hmiscounted
  exact hnot (hsound target _ htarget (.inl rfl) hprod out localShape hrun)

end HyperParallel.Shard
