import HyperParallel.Shard.ReshapeLayout

/-!
# A run of the reshape inference

What the inference does on a layout of its input: the groups it walks over, and
the layout and the local shape it writes once the walk is through.
-/

namespace HyperParallel.Shard

open Foundation DTensor CutShape List

/-- In how many parts a dimension is cut. -/
def splitCount (meshShape : MeshShape) (mapping : DimMapping) : Nat :=
  (mapping.usedAxes.map fun axis => meshShape.getD (meshDimOf meshShape.length axis) 0).prod

structure LayoutOf (layout : Layout) (tensorMap : TensorMap) (shape : List Nat) : Prop where
  map_eq : layout.tensorMap = some tensorMap
  length_eq : tensorMap.length = shape.length
  wellFormed : WellFormed layout.mesh.meshShape.length tensorMap
  mesh_ne_nil : layout.mesh.meshShape ≠ []
  mesh_pos : ∀ size ∈ layout.mesh.meshShape, 0 < size

def filteredDims (meshShape : MeshShape) (tensorMap : TensorMap) (shape : List Nat) : List MappedDim :=
  shape.zip (tensorMap.map (filteredEntry meshShape))

def groupsOf (meshShape : MeshShape) (tensorMap : TensorMap) (shape : List Nat) : List MappedDim :=
  mergedGroups (filteredDims meshShape tensorMap shape)

/-! ## The groups -/

variable {dims : List MappedDim}

theorem foldr_mergeInto_groups (hpos : ∀ dim ∈ dims, 0 < dim.1) :
    0 < (dims.foldr mergeInto (1, [])).1 ∧ ∀ group ∈ (dims.foldr mergeInto (1, [])).2,
      0 < group.1 ∧ group.2 ≠ .axis NONE ∧ group.2 ∈ dims.map Prod.snd := by
  induction dims with
  | nil => exact ⟨Nat.one_pos, by simp⟩
  | cons dim dims ih =>
    obtain ⟨hpending, hgroups⟩ := ih fun other hother => hpos other (mem_cons_of_mem dim hother)
    have hsize := Nat.mul_pos hpending (hpos dim mem_cons_self)
    have hrest : ∀ group ∈ (dims.foldr mergeInto (1, [])).2,
        0 < group.1 ∧ group.2 ≠ .axis NONE ∧ group.2 ∈ (dim :: dims).map Prod.snd := by
      intro group hgroup
      obtain ⟨hgroupPos, hne, hmem⟩ := hgroups group hgroup
      exact ⟨hgroupPos, hne, mem_cons_of_mem dim.2 hmem⟩
    rw [foldr_cons, mergeInto]
    by_cases hnone : dim.2 = .axis NONE
    · rw [if_neg (not_not.mpr hnone)]
      exact ⟨hsize, hrest⟩
    · rw [if_pos hnone]
      refine ⟨Nat.one_pos, fun group hgroup => ?_⟩
      rcases mem_cons.mp hgroup with rfl | hold
      · exact ⟨hsize, hnone, mem_cons_self⟩
      · exact hrest group hold

theorem mem_mergedGroups (hpos : ∀ dim ∈ dims, 0 < dim.1) {group : MappedDim}
    (h : group ∈ mergedGroups dims) : 0 < group.1 ∧ group.2 ∈ dims.map Prod.snd := by
  obtain ⟨hpending, hgroups⟩ := foldr_mergeInto_groups hpos
  cases dims with
  | nil => cases h
  | cons dim dims =>
    rw [mergedGroups] at h
    split at h
    · rename_i hnone
      rcases mem_cons.mp h with rfl | hold
      · exact ⟨hpending, by rw [← hnone]; exact mem_cons_self⟩
      · exact ⟨(hgroups group hold).1, (hgroups group hold).2.2⟩
    · exact ⟨(hgroups group h).1, (hgroups group h).2.2⟩

theorem mergedGroups_ne_nil (h : dims ≠ []) : mergedGroups dims ≠ [] := by
  cases dims with
  | nil => exact absurd rfl h
  | cons dim dims =>
    rw [mergedGroups]
    split
    · exact cons_ne_nil _ _
    · rename_i hne
      rw [foldr_cons, mergeInto, if_pos hne]
      exact cons_ne_nil _ _

theorem prod_mergedGroups (dims : List MappedDim) :
    ((mergedGroups dims).map Prod.fst).prod = (dims.map Prod.fst).prod := by
  have hregroup := @mergedGroups_regroup (fun _ => 1) (fun _ => 0) rfl rfl dims
  have heven : ∀ cut ∈ dims.map (cutOf (fun _ => 1) fun _ => 0), cut.Even := by
    intro cut hcut
    obtain ⟨dim, -, rfl⟩ := mem_map.mp hcut
    exact Cut.plain_even dim.1
  have hsizes := (hregroup.sameParts heven).sizes
  simp only [CutShape.sizes, map_map] at hsizes
  exact hsizes.symm

section Run

variable {xLayout : Layout} {tensorMap : TensorMap} {shape : List Nat}

section

variable (h : LayoutOf xLayout tensorMap shape)

include h

theorem LayoutOf.mesh_length_pos :
    0 < xLayout.mesh.meshShape.length := List.length_pos_of_ne_nil h.mesh_ne_nil

theorem fst_filteredDims :
    (filteredDims xLayout.mesh.meshShape tensorMap shape).map Prod.fst = shape := by
  rw [filteredDims, map_fst_zip]
  simp [h.length_eq]

theorem snd_filteredDims :
    (filteredDims xLayout.mesh.meshShape tensorMap shape).map Prod.snd =
      tensorMap.map (filteredEntry xLayout.mesh.meshShape) := by
  rw [filteredDims, map_snd_zip]
  simp [h.length_eq]

theorem groupsOf_ok (hshape : ∀ size ∈ shape, 0 < size) :
    GroupsOk xLayout.mesh.meshShape (groupsOf xLayout.mesh.meshShape tensorMap shape) := by
  have hpos : ∀ dim ∈ filteredDims xLayout.mesh.meshShape tensorMap shape, 0 < dim.1 :=
    fun dim hdim => hshape dim.1 (fst_filteredDims h ▸ mem_map_of_mem hdim)
  have hentry : ∀ group ∈ groupsOf xLayout.mesh.meshShape tensorMap shape, ∃ mapping ∈ tensorMap,
      filteredEntry xLayout.mesh.meshShape mapping = group.2 := by
    intro group hgroup
    have hmem := (mem_mergedGroups hpos hgroup).2
    rw [snd_filteredDims h] at hmem
    exact mem_map.mp hmem
  refine ⟨h.mesh_length_pos, fun group hgroup => (mem_mergedGroups hpos hgroup).1, ?_, ?_⟩
  · intro group hgroup
    obtain ⟨mapping, hmapping, hfiltered⟩ := hentry group hgroup
    rw [← hfiltered]
    exact filteredEntry_entryOk (entryOk_of_wellFormed h.wellFormed hmapping)
  · intro group hgroup hne
    obtain ⟨mapping, hmapping, hfiltered⟩ := hentry group hgroup
    rw [← hfiltered] at hne ⊢
    exact two_le_shardCount h.mesh_length_pos h.mesh_pos (entryOk_of_wellFormed h.wellFormed hmapping) hne

theorem prod_groupsOf :
    ((groupsOf xLayout.mesh.meshShape tensorMap shape).map Prod.fst).prod = shape.prod := by
  rw [groupsOf, prod_mergedGroups, fst_filteredDims h]

theorem groupsOf_snoc (hne : shape ≠ []) :
    ∃ front group, groupsOf xLayout.mesh.meshShape tensorMap shape = front ++ [group] := by
  have hdims : filteredDims xLayout.mesh.meshShape tensorMap shape ≠ [] := by
    intro hnil
    have hfst := fst_filteredDims h
    rw [hnil] at hfst
    exact hne hfst.symm
  rcases eq_nil_or_concat (groupsOf xLayout.mesh.meshShape tensorMap shape) with
    hnil | ⟨front, group, hgroups⟩
  · exact absurd hnil (mergedGroups_ne_nil hdims)
  · exact ⟨front, group, by rw [hgroups, concat_eq_append]⟩

end

end Run

/-! ## What is written -/

def localSize (meshShape : MeshShape) (mapping : DimMapping) (size : Nat) : Nat :=
  if mapping = .axis NONE then size else size / shardCount meshShape mapping

section Written

variable {names : List String} {meshShape : MeshShape}

theorem outputDim_eq (hlength : names.length = meshShape.length) (hmesh : 0 < meshShape.length)
    {mapping : DimMapping} (h : EntryOk meshShape.length mapping) {size : Nat} (hsize : 0 < size) :
    outputDim names meshShape mapping size =
      .ok (aliasOf names mapping, (localSize meshShape mapping size : Nat)) := by
  have hread : ∀ axis, AxisOk meshShape.length axis →
      readAt names (-1 - axis) = .ok (nameOf names (readDim meshShape.length axis)) := by
    intro axis haxis
    have hlt : readDim meshShape.length axis < names.length := by
      rw [hlength]
      exact readDim_lt hmesh haxis
    rw [readAt_of_axis hlength hmesh haxis hlt, nameOf, getD_eq_getElem _ _ hlt]
  have hpositive : (0 : Int) < size := by exact_mod_cast hsize
  have hdiv : ∀ count : Nat, (size : Int).fdiv count = ((size / count : Nat) : Int) := by
    intro count
    rw [Int.fdiv_eq_ediv_of_nonneg _ (by omega)]
    rfl
  cases mapping with
  | axes ids =>
    have hids : ∀ id ∈ ids, AxisOk meshShape.length id := h
    have hnames : ids.mapM (fun id => readAt names (-1 - id)) =
        .ok (ids.map fun id => nameOf names (readDim meshShape.length id)) :=
      mapM_eq_ok fun id hid => hread id (hids id hid)
    have hne : DimMapping.axes ids ≠ .axis NONE := by simp
    rw [outputDim, hnames, mapM_sizeOfAxis hmesh hids]
    simp only [bind, Except.bind, if_pos hpositive, hdiv, aliasOf, localSize, if_neg hne, hlength]
    rfl
  | axis id =>
    have hid : AxisOk meshShape.length id := h id (by simp [DimMapping.mappedDims])
    rw [outputDim, aliasOf, localSize]
    by_cases hnone : id = NONE
    · rw [if_pos (by rw [hnone]; decide), if_pos hnone, if_pos hpositive, hnone, if_pos rfl]
    · obtain ⟨hnonneg, -⟩ := hid.resolve_left hnone
      have hne : DimMapping.axis id ≠ .axis NONE := by simpa using hnone
      rw [if_neg (not_lt.mpr hnonneg), if_neg hnone, if_neg hne, hread id hid, sizeOfAxis_eq hmesh hid]
      simp only [bind, Except.bind, if_pos hpositive, hdiv, hlength]
      rw [shardCount, DimMapping.mappedDims, map_cons, map_nil, prod_singleton]

theorem calOutputLayoutAndDstShape_eq (hlength : names.length = meshShape.length)
    (hmesh : 0 < meshShape.length) {maps : TensorMap}
    (hmaps : ∀ mapping ∈ maps, EntryOk meshShape.length mapping) {target : List Nat}
    (htarget : ∀ size ∈ target, 0 < size) (hmapsLength : maps.length = target.length) :
    calOutputLayoutAndDstShape maps (target.map Nat.cast) names meshShape =
      .ok ((maps.map (aliasOf names)).zip
        ((zipWith (localSize meshShape) maps target).map Nat.cast)) := by
  rw [calOutputLayoutAndDstShape]
  induction maps generalizing target with
  | nil =>
    obtain rfl := eq_nil_of_length_eq_zero hmapsLength.symm
    rfl
  | cons mapping maps ih =>
    cases target with
    | nil => cases hmapsLength
    | cons size target =>
      have hfirst := outputDim_eq hlength hmesh (hmaps mapping mem_cons_self)
        (htarget size mem_cons_self)
      have hrest := ih (fun other hother => hmaps other (mem_cons_of_mem mapping hother))
        (fun other hother => htarget other (mem_cons_of_mem size hother))
        (by simpa using hmapsLength)
      rw [map_cons, zip_cons_cons, mapM_cons, hfirst, hrest]
      rfl

end Written

def writeOut (py : PyStr) (xLayout : Layout) (names : List String) (target : List Nat)
    (maps : TensorMap) : Except ReshapeError (Layout × List Int) := do
  let outLayout ← liftReshape ((Layout.fromDeviceMesh py xLayout.mesh).callAlias py
    (maps.map (aliasOf names)))
  let outLayout ← applyPartialStatus py xLayout outLayout names
  .ok (outLayout, (List.zipWith (localSize xLayout.mesh.meshShape) maps target).map Nat.cast)

section Run

variable {xLayout : Layout} {tensorMap : TensorMap} {shape : List Nat} {names : List String}

/-- The output is written unless its map names a mesh dimension twice or leaves no room for a
reduction. -/
theorem writeOut_carries (py : PyStr) (hnames : xLayout.mesh.meshDimNames = some names)
    (hmesh : 0 < names.length) (target : List Nat) {maps : TensorMap}
    (hmaps : ∀ mapping ∈ maps, EntryOk names.length mapping) :
    ((maps.flatMap (dimsOf names)).Nodup ∧ TakesOver names (maps.map (readMap names)) xLayout ∧
        ∃ out, writeOut py xLayout names target maps =
          .ok (out, (zipWith (localSize xLayout.mesh.meshShape) maps target).map Nat.cast) ∧
          Carries xLayout.mesh (maps.map (readMap names)) out ∧
          ∀ (i : Nat) (op : String), out.partialOps[i]? = some (some op) →
            xLayout.partialOps[i]? = some (some op)) ∨
      (¬ ((maps.flatMap (dimsOf names)).Nodup ∧ TakesOver names (maps.map (readMap names)) xLayout) ∧
        ∃ error, writeOut py xLayout names target maps = .error error ∧
          error.isValueError = true) := by
  rcases callAlias_carries py hnames hmesh hmaps with
    ⟨hnodup, called, hcalled, hcarries, hops⟩ | ⟨hnot, item, herror⟩
  · have hwf := readMap_wellFormed hmesh hmaps hnodup
    rw [(xLayout.mesh.names_ok names (by simp [hnames])).1] at hwf
    rcases applyPartialStatus_carries py hnames hwf hcarries hops xLayout with
      ⟨htakes, out, hout, hcarriesOut, hget⟩ | ⟨hnot, error, herror, hvalue⟩
    · refine .inl ⟨hnodup, htakes, out, ?_, hcarriesOut, hget⟩
      rw [writeOut, hcalled]
      simp only [liftReshape, bind, Except.bind, hout]
    · refine .inr ⟨fun h => hnot h.2, error, ?_, hvalue⟩
      rw [writeOut, hcalled]
      simp only [liftReshape, bind, Except.bind, herror]
  · refine .inr ⟨fun h => hnot h.1, .layout (.axisSetTwice item), ?_, rfl⟩
    rw [writeOut, herror]
    rfl

def requestOf (meshShape : MeshShape) (tensorMap : TensorMap) (shape target : List Nat) :
    ReshapeRequest where
  meshShape := meshShape
  dynamicCanShard := false
  inputShape := shape.map Nat.cast
  xMap := tensorMap.map (filteredEntry meshShape)
  dstShape := target.map Nat.cast

def walkOf (meshShape : MeshShape) (tensorMap : TensorMap) (shape target : List Nat) (cursor : Nat)
    (curSize : Nat) : Except ReshapeError TensorMap :=
  let groups := groupsOf meshShape tensorMap shape
  (requestOf meshShape tensorMap shape target).walk (groupSizes groups) (groupMaps groups)
    (target.reverse.map Nat.cast) cursor curSize []

def finishWalk (py : PyStr) (xLayout : Layout) (names : List String) (target : List Nat)
    (maps : TensorMap) : Except ReshapeError (Layout × List Int) := do
  let outputDims ← calOutputLayoutAndDstShape maps (target.map Nat.cast) names xLayout.mesh.meshShape
  let outLayout ← liftReshape ((Layout.fromDeviceMesh py xLayout.mesh).callAlias py
    (outputDims.map Prod.fst))
  let outLayout ← applyPartialStatus py xLayout outLayout names
  .ok (outLayout, outputDims.map Prod.snd)

theorem finishWalk_eq (py : PyStr) (h : LayoutOf xLayout tensorMap shape)
    (hnames : xLayout.mesh.meshDimNames = some names) {target : List Nat}
    (htarget : ∀ size ∈ target, 0 < size) {maps : TensorMap}
    (hmaps : ∀ mapping ∈ maps, EntryOk xLayout.mesh.meshShape.length mapping)
    (hlength : maps.length = target.length) :
    finishWalk py xLayout names target maps = writeOut py xLayout names target maps := by
  have hnamesLength := (xLayout.mesh.names_ok names (by simp [hnames])).1
  have hdims := calOutputLayoutAndDstShape_eq hnamesLength h.mesh_length_pos hmaps htarget hlength
  rw [finishWalk, hdims]
  simp only [bind, Except.bind]
  rw [map_fst_zip (by simp [hlength]), map_snd_zip (by simp [hlength]), writeOut]
  rfl

variable {target : List Nat} {dst : List Int}

theorem inferReshapeLayout_eq_walk (py : PyStr) (h : LayoutOf xLayout tensorMap shape)
    (hnames : xLayout.mesh.meshDimNames = some names) (hne : shape ≠ [])
    (htarget : ∀ size ∈ target, 0 < size) (hdst : Targets dst target)
    (hprod : target.prod = shape.prod) {front : List MappedDim} {group : MappedDim}
    (hgroups : groupsOf xLayout.mesh.meshShape tensorMap shape = front ++ [group]) :
    inferReshapeLayout py xLayout (.sequence dst) (shape.map Nat.cast) =
      (walkOf xLayout.mesh.meshShape tensorMap shape target front.length group.1 >>=
        finishWalk py xLayout names target) := by
  have hdict : toDict xLayout = .ok ⟨tensorMap, names⟩ := by rw [toDict, h.map_eq, hnames]
  have hfilter := filterNoneSplitTensorMap_eq h.mesh_length_pos fun mapping hmapping =>
    entryOk_of_wellFormed h.wellFormed hmapping
  have hmerge := @mergeUnsharedAxis_eq shape (tensorMap.map (filteredEntry xLayout.mesh.meshShape))
    (by simp [h.length_eq]) hne
  rw [← filteredDims, ← groupsOf] at hmerge
  have hcursor : ((groupSizes (groupsOf xLayout.mesh.meshShape tensorMap shape)).length : Int) - 1 =
      (front.length : Nat) := by simp [groupSizes, hgroups]
  have hlast : readAt (groupSizes (groupsOf xLayout.mesh.meshShape tensorMap shape))
      (front.length : Nat) = .ok (group.1 : Int) := by
    rw [readAt_natCast (by simp [groupSizes, hgroups])]
    simp [groupSizes, hgroups]
  rw [inferReshapeLayout, hdict]
  simp only [bind, Except.bind, normalizeShape, hfilter, handleDynamicShape_eq hdst htarget hprod,
    hmerge]
  rw [ReshapeRequest.computeOutputTensorMap]
  simp only [bind, Except.bind, hcursor, hlast]
  rw [← map_reverse]
  rfl

end Run

end HyperParallel.Shard
