import HyperParallel.DTensor.StridedOrder
import HyperParallel.Shard.ReshapeWalk

/-!
# The output layout of a reshape

The map values of the output are written as alias names and read back.  A mark of
an unsharded dimension inside a tuple comes back as the outermost mesh axis.
-/

namespace HyperParallel.Shard

open Foundation DTensor List

/-! ## The filtered map -/

def filteredEntry (meshShape : MeshShape) : DimMapping → DimMapping
  | .axes items =>
    match items.filter fun item => readSize meshShape item ≠ 1 with
    | [] => .axis NONE
    | [single] => .axis single
    | filtered => .axes filtered
  | .axis item => .axis (if readSize meshShape item ≠ 1 then item else NONE)

theorem filter_zip_map (items : List Int) (size : Int → Nat) :
    ((items.zip (items.map size)).filter fun entry => entry.2 ≠ 1).map Prod.fst =
      items.filter fun item => size item ≠ 1 := by
  induction items with
  | nil => rfl
  | cons item items ih =>
    rw [map_cons, zip_cons_cons]
    by_cases hone : size item = 1
    · rw [filter_cons_of_neg (by simp [hone]), filter_cons_of_neg (by simp [hone]), ih]
    · rw [filter_cons_of_pos (by simp [hone]), filter_cons_of_pos (by simp [hone]), map_cons, ih]

section Filter

variable {meshShape : MeshShape}

variable {mapping : DimMapping}

theorem filterEntry_eq (hmesh : 0 < meshShape.length) (h : EntryOk meshShape.length mapping) :
    filterEntry meshShape mapping = .ok (filteredEntry meshShape mapping) := by
  cases mapping with
  | axis item =>
    rw [filterEntry, sizeOfAxis_eq hmesh (h item (by simp [DimMapping.mappedDims]))]
    rfl
  | axes items =>
    have hitems : ∀ item ∈ items, AxisOk meshShape.length item := h
    rw [filterEntry, mapM_sizeOfAxis hmesh hitems]
    simp only [bind, Except.bind]
    rw [filter_zip_map, filteredEntry]
    generalize items.filter (fun item => decide (readSize meshShape item ≠ 1)) = kept
    rcases kept with _ | ⟨single, _ | ⟨second, rest⟩⟩ <;> rfl

theorem filterNoneSplitTensorMap_eq (hmesh : 0 < meshShape.length) {tensorMap : TensorMap}
    (h : ∀ mapping ∈ tensorMap, EntryOk meshShape.length mapping) :
    filterNoneSplitTensorMap tensorMap meshShape = .ok (tensorMap.map (filteredEntry meshShape)) :=
  mapM_eq_ok fun mapping hmapping => filterEntry_eq hmesh (h mapping hmapping)

theorem entryOk_of_wellFormed {meshNdim : Nat} {tensorMap : TensorMap}
    (h : WellFormed meshNdim tensorMap) (hmapping : mapping ∈ tensorMap) :
    EntryOk meshNdim mapping := by
  intro axis haxis
  by_cases hnone : axis = NONE
  · exact .inl hnone
  · exact .inr (h.entry hmapping axis (mem_filter.mpr ⟨haxis, by simpa using hnone⟩))

theorem mappedDims_filteredEntry (mapping : DimMapping) :
    filteredEntry meshShape mapping = .axis NONE ∨
      (filteredEntry meshShape mapping).mappedDims =
        mapping.mappedDims.filter fun item => readSize meshShape item ≠ 1 := by
  cases mapping with
  | axis item =>
    rw [filteredEntry]
    by_cases hone : readSize meshShape item = 1
    · left
      rw [if_neg (not_not.mpr hone)]
    · right
      rw [if_pos hone]
      change [item] = [item].filter _
      rw [filter_cons_of_pos (by simpa using hone), filter_nil]
  | axes items =>
    rw [filteredEntry]
    split
    · exact .inl rfl
    · rename_i single hsingle
      exact .inr hsingle.symm
    · exact .inr rfl

theorem mappedDims_filteredEntry_ne_nil (mapping : DimMapping) :
    (filteredEntry meshShape mapping).mappedDims ≠ [] := by
  cases mapping with
  | axis item => exact cons_ne_nil _ []
  | axes items =>
    rw [filteredEntry]
    generalize items.filter (fun item => decide (readSize meshShape item ≠ 1)) = kept
    rcases kept with _ | ⟨single, _ | ⟨second, rest⟩⟩
    · exact cons_ne_nil _ []
    · exact cons_ne_nil _ []
    · exact cons_ne_nil _ _

theorem filteredEntry_entryOk (h : EntryOk meshShape.length mapping) :
    EntryOk meshShape.length (filteredEntry meshShape mapping) := by
  intro axis haxis
  rcases @mappedDims_filteredEntry meshShape mapping with hnone | hfilter
  · rw [hnone] at haxis
    exact .inl (mem_singleton.mp haxis)
  · rw [hfilter] at haxis
    exact h axis (mem_filter.mp haxis).1

theorem readSize_pos (hmesh : 0 < meshShape.length) (hpos : ∀ size ∈ meshShape, 0 < size) {axis : Int}
    (h : AxisOk meshShape.length axis) : 0 < readSize meshShape axis := by
  have hlt := readDim_lt hmesh h
  rw [readSize, getD_eq_getElem _ _ hlt]
  exact hpos _ (getElem_mem hlt)

theorem two_le_shardCount (hmesh : 0 < meshShape.length) (hpos : ∀ size ∈ meshShape, 0 < size)
    (h : EntryOk meshShape.length mapping) (hne : filteredEntry meshShape mapping ≠ .axis NONE) :
    2 ≤ shardCount meshShape (filteredEntry meshShape mapping) := by
  have hfilter := (@mappedDims_filteredEntry meshShape mapping).resolve_left hne
  rw [shardCount, hfilter]
  have htwo : ∀ item ∈ mapping.mappedDims.filter (fun item => readSize meshShape item ≠ 1),
      2 ≤ readSize meshShape item := by
    intro item hitem
    obtain ⟨hmem, hsize⟩ := mem_filter.mp hitem
    have hone := readSize_pos hmesh hpos (h item hmem)
    have hne := of_decide_eq_true hsize
    omega
  have hcons : mapping.mappedDims.filter (fun item => readSize meshShape item ≠ 1) ≠ [] :=
    hfilter ▸ mappedDims_filteredEntry_ne_nil mapping
  generalize mapping.mappedDims.filter (fun item => readSize meshShape item ≠ 1) = kept at htwo hcons
  cases kept with
  | nil => exact absurd rfl hcons
  | cons item kept =>
    rw [map_cons, prod_cons]
    have hrest : 0 < (kept.map (readSize meshShape)).prod := by
      refine prod_pos fun size hsize => ?_
      obtain ⟨other, hother, rfl⟩ := mem_map.mp hsize
      exact Nat.lt_of_lt_of_le Nat.two_pos (htwo other (mem_cons_of_mem _ hother))
    exact Nat.le_trans (htwo item mem_cons_self) (Nat.le_mul_of_pos_right _ hrest)

end Filter

/-! ## Writing the map as alias names and reading it back -/

/-- The mesh dimensions the code shards an output dimension over. -/
def readDims (meshNdim : Nat) : DimMapping → List Nat
  | .axes ids => ids.map (readDim meshNdim)
  | .axis id => if id = NONE then [] else [readDim meshNdim id]

def nameOf (names : List String) (dim : Nat) : String := names.getD dim ""

/-- The axis a mesh dimension comes back as: one named `None` does not. -/
def axisOfDim (names : List String) (dim : Nat) : Int :=
  if nameOf names dim = "None" then NONE else (names.length : Int) - 1 - dim

/-- The mesh dimensions that come back. -/
def dimsOf (names : List String) (mapping : DimMapping) : List Nat :=
  (readDims names.length mapping).filter fun dim => nameOf names dim ≠ "None"

def readMap (names : List String) : DimMapping → DimMapping
  | .axes ids => .axes (ids.map fun id => axisOfDim names (readDim names.length id))
  | .axis id => if id = NONE then .axis NONE else .axis (axisOfDim names (readDim names.length id))

def aliasOf (names : List String) : DimMapping → Layout.AliasDim
  | .axes ids => .names (ids.map fun id => nameOf names (readDim names.length id))
  | .axis id => if id = NONE then .name "None" else .name (nameOf names (readDim names.length id))

section Alias

variable {names : List String}

variable {dim : Nat}

theorem nameOf_mem (hdim : dim < names.length) : nameOf names dim ∈ names := by
  rw [nameOf, getD_eq_getElem _ _ hdim]
  exact getElem_mem hdim

theorem idxOf_nameOf (hnames : names.Nodup) (hdim : dim < names.length) :
    names.idxOf (nameOf names dim) = dim := by
  rw [nameOf, getD_eq_getElem _ _ hdim]
  exact hnames.idxOf_getElem dim hdim

theorem nameOf_inj (hnames : names.Nodup) {other : Nat} (hdim : dim < names.length)
    (hother : other < names.length) (h : nameOf names dim = nameOf names other) : dim = other := by
  rw [← idxOf_nameOf hnames hdim, h, idxOf_nameOf hnames hother]

theorem aliasAxis_nameOf (hnames : names.Nodup) (hdim : dim < names.length)
    (hnamed : nameOf names dim ≠ "None") {written : List Nat}
    (hwritten : ∀ other ∈ written, other < names.length) :
    Layout.aliasAxis names (written.map (nameOf names)) (nameOf names dim) =
      if dim ∈ written then .error (.axisSetTwice (nameOf names dim))
      else .ok (axisOfDim names dim, (written ++ [dim]).map (nameOf names)) := by
  have hin : nameOf names dim ∈ written.map (nameOf names) ↔ dim ∈ written := by
    constructor
    · intro h
      obtain ⟨other, hother, heq⟩ := mem_map.mp h
      rwa [← nameOf_inj hnames (hwritten other hother) hdim heq]
    · exact fun h => mem_map_of_mem h
  rw [Layout.aliasAxis, if_neg hnamed, if_neg (not_not.mpr (nameOf_mem hdim))]
  by_cases hdup : dim ∈ written
  · rw [if_pos (hin.mpr hdup), if_pos hdup]
  · rw [if_neg (fun h => hdup (hin.mp h)), if_neg hdup, idxOf_nameOf hnames hdim, axisOfDim,
      if_neg hnamed, map_append]
    rfl

theorem aliasAxis_unnamed (hunnamed : nameOf names dim = "None") (written : List String) :
    Layout.aliasAxis names written (nameOf names dim) = .ok (axisOfDim names dim, written) := by
  rw [Layout.aliasAxis, if_pos hunnamed, axisOfDim, if_pos hunnamed]

def ReadsBack {α : Type} (written dims : List Nat) (result : Except LayoutError α) (value : α) : Prop :=
  ((written ++ dims).Nodup ∧ result = .ok value) ∨
    (¬ (written ++ dims).Nodup ∧ ∃ item, result = .error (.axisSetTwice item))

theorem nodup_snoc {written : List Nat} (hnodup : written.Nodup) (hdup : dim ∉ written) :
    (written ++ [dim]).Nodup := by
  refine nodup_append.mpr ⟨hnodup, nodup_singleton dim, ?_⟩
  rintro other hother single hsingle rfl
  exact hdup (mem_singleton.mp hsingle ▸ hother)

theorem aliasAxes_readsBack (hnames : names.Nodup) {dims written : List Nat}
    (hdims : ∀ dim ∈ dims, dim < names.length) (hwritten : ∀ dim ∈ written, dim < names.length)
    (hnodup : written.Nodup) :
    ReadsBack written (dims.filter fun dim => nameOf names dim ≠ "None")
      (Layout.aliasAxes names (written.map (nameOf names)) (dims.map (nameOf names)))
      (dims.map (axisOfDim names),
        (written ++ dims.filter fun dim => nameOf names dim ≠ "None").map (nameOf names)) := by
  induction dims generalizing written with
  | nil => exact .inl ⟨by simpa using hnodup, by simp [Layout.aliasAxes]⟩
  | cons dim dims ih =>
    have hdim := hdims dim mem_cons_self
    have hrestDims : ∀ other ∈ dims, other < names.length := fun other hother =>
      hdims other (mem_cons_of_mem dim hother)
    rw [map_cons, Layout.aliasAxes]
    by_cases hunnamed : nameOf names dim = "None"
    · rw [aliasAxis_unnamed hunnamed, filter_cons_of_neg (by simpa using hunnamed)]
      rcases ih hrestDims hwritten hnodup with ⟨hall, hok⟩ | ⟨hnot, item, herror⟩
      · exact .inl ⟨hall, by simp only [bind, Except.bind, hok, map_cons]⟩
      · exact .inr ⟨hnot, item, by simp only [bind, Except.bind, herror]⟩
    · rw [aliasAxis_nameOf hnames hdim hunnamed hwritten,
        filter_cons_of_pos (by simpa using hunnamed)]
      by_cases hdup : dim ∈ written
      · right
        refine ⟨fun h => ?_, _, by rw [if_pos hdup]; rfl⟩
        exact (nodup_append.mp h).2.2 dim hdup dim mem_cons_self rfl
      · rw [if_neg hdup]
        have hwritten' : ∀ other ∈ written ++ [dim], other < names.length := by
          intro other hother
          rcases mem_append.mp hother with hold | hnew
          · exact hwritten other hold
          · exact mem_singleton.mp hnew ▸ hdim
        have hrest := ih hrestDims hwritten' (nodup_snoc hnodup hdup)
        rw [ReadsBack, append_assoc, singleton_append] at hrest
        rcases hrest with ⟨hall, hok⟩ | ⟨hnot, item, herror⟩
        · exact .inl ⟨hall, by simp only [bind, Except.bind, hok, map_cons]⟩
        · exact .inr ⟨hnot, item, by simp only [bind, Except.bind, herror]⟩

theorem readDims_lt (hmesh : 0 < names.length) {mapping : DimMapping}
    (h : EntryOk names.length mapping) : ∀ dim ∈ readDims names.length mapping, dim < names.length := by
  intro dim hdim
  cases mapping with
  | axes ids =>
    obtain ⟨id, hid, rfl⟩ := mem_map.mp hdim
    exact readDim_lt hmesh (h id hid)
  | axis id =>
    rw [readDims] at hdim
    split at hdim
    · cases hdim
    · rw [mem_singleton.mp hdim]
      exact readDim_lt hmesh (h id (mem_singleton_self id))

theorem dimsOf_lt (hmesh : 0 < names.length) {mapping : DimMapping}
    (h : EntryOk names.length mapping) : ∀ dim ∈ dimsOf names mapping, dim < names.length :=
  fun dim hdim => readDims_lt hmesh h dim (List.mem_filter.mp hdim).1

theorem aliasTensorMap_readsBack (hnames : names.Nodup) (hmesh : 0 < names.length)
    {maps : TensorMap} (hmaps : ∀ mapping ∈ maps, EntryOk names.length mapping) {written : List Nat}
    (hwritten : ∀ dim ∈ written, dim < names.length) (hnodup : written.Nodup) :
    ReadsBack written (maps.flatMap (dimsOf names))
      (Layout.aliasTensorMap names (written.map (nameOf names)) (maps.map (aliasOf names)))
      (maps.map (readMap names)) := by
  induction maps generalizing written with
  | nil => exact .inl ⟨by simpa using hnodup, by simp [Layout.aliasTensorMap]⟩
  | cons mapping maps ih =>
    have hentry := hmaps mapping mem_cons_self
    have hfirst := aliasAxes_readsBack hnames (readDims_lt hmesh hentry) hwritten hnodup
    rw [← dimsOf] at hfirst
    have hrestMaps : ∀ other ∈ maps, EntryOk names.length other := fun other hother =>
      hmaps other (mem_cons_of_mem mapping hother)
    have happend : ¬ (written ++ dimsOf names mapping).Nodup →
        ¬ (written ++ (mapping :: maps).flatMap (dimsOf names)).Nodup := by
      intro hnot h
      rw [flatMap_cons, ← append_assoc] at h
      exact hnot (nodup_append.mp h).1
    have hgrown : ∀ dim ∈ written ++ dimsOf names mapping, dim < names.length := by
      intro dim hdim
      rcases mem_append.mp hdim with hold | hnew
      · exact hwritten dim hold
      · exact dimsOf_lt hmesh hentry dim hnew
    -- A tuple and a single axis are read the same way; an unsharded entry writes nothing.
    have hcont : ∀ {β : Type} {first : Except LayoutError (β × List String)} {axes : β}
        {wrap : β → DimMapping}, wrap axes = readMap names mapping →
        ReadsBack written (dimsOf names mapping) first
          (axes, (written ++ dimsOf names mapping).map (nameOf names)) →
        ReadsBack written ((mapping :: maps).flatMap (dimsOf names))
          (first >>= fun pair => do
            .ok (wrap pair.1 :: (← Layout.aliasTensorMap names pair.2 (maps.map (aliasOf names)))))
          ((mapping :: maps).map (readMap names)) := by
      intro β first axes wrap hwrap hreads
      rcases hreads with ⟨hall, hok⟩ | ⟨hnot, item, herror⟩
      · have hrest := ih hrestMaps hgrown hall
        rw [ReadsBack, append_assoc, ← flatMap_cons] at hrest
        rcases hrest with ⟨hnodupAll, hokRest⟩ | ⟨hnotAll, item, herrorRest⟩
        · refine .inl ⟨hnodupAll, ?_⟩
          rw [hok]
          simp only [bind, Except.bind, hokRest, map_cons, hwrap]
        · refine .inr ⟨hnotAll, item, ?_⟩
          rw [hok]
          simp only [bind, Except.bind, herrorRest]
      · refine .inr ⟨happend hnot, item, ?_⟩
        rw [herror]
        rfl
    cases mapping with
    | axes ids =>
      have hnamesMap : (readDims names.length (.axes ids)).map (nameOf names) =
          ids.map fun id => nameOf names (readDim names.length id) := by
        rw [readDims, map_map]
        rfl
      rw [hnamesMap] at hfirst
      refine @hcont (List Int) _ _ .axes ?_ hfirst
      simp [readDims, readMap]
    | axis id =>
      rw [map_cons, aliasOf]
      by_cases hnone : id = NONE
      · have hempty : dimsOf names (.axis id) = [] := by rw [dimsOf, readDims, if_pos hnone]; rfl
        rw [if_pos hnone]
        refine @hcont Int _ NONE .axis ?_ (.inl ⟨?_, ?_⟩)
        · rw [readMap, if_pos hnone]
        · rwa [hempty, append_nil]
        · rw [hempty, append_nil, Layout.aliasAxis, if_pos rfl]
      · have hsingle : readDims names.length (.axis id) = [readDim names.length id] := by
          rw [readDims, if_neg hnone]
        rw [if_neg hnone]
        have hdim := readDim_lt hmesh (hentry id (mem_singleton_self id))
        refine @hcont Int _ (axisOfDim names (readDim names.length id)) .axis ?_ ?_
        · rw [readMap, if_neg hnone]
        · rw [dimsOf, hsingle]
          by_cases hunnamed : nameOf names (readDim names.length id) = "None"
          · rw [filter_cons_of_neg (by simpa using hunnamed), filter_nil,
              append_nil, aliasAxis_unnamed hunnamed]
            exact .inl ⟨by rwa [append_nil], rfl⟩
          · rw [filter_cons_of_pos (by simpa using hunnamed), filter_nil,
              aliasAxis_nameOf hnames hdim hunnamed hwritten]
            by_cases hdup : readDim names.length id ∈ written
            · refine .inr ⟨fun h => ?_, _, if_pos hdup⟩
              exact (nodup_append.mp h).2.2 _ hdup _ (mem_singleton_self _) rfl
            · exact .inl ⟨nodup_snoc hnodup hdup, if_neg hdup⟩

theorem filter_axisOfDim {dims : List Nat} (h : ∀ dim ∈ dims, dim < names.length) :
    (dims.map (axisOfDim names)).filter (· ≠ NONE) =
      (dims.filter fun dim => nameOf names dim ≠ "None").map fun dim : Nat =>
        (names.length : Int) - 1 - dim := by
  induction dims with
  | nil => rfl
  | cons dim dims ih =>
    have hdim := h dim mem_cons_self
    have hrest := ih fun other hother => h other (mem_cons_of_mem dim hother)
    rw [map_cons, axisOfDim]
    by_cases hunnamed : nameOf names dim = "None"
    · rw [if_pos hunnamed, filter_cons_of_neg (by simp), hrest,
        filter_cons_of_neg (by simpa using hunnamed)]
    · have hne : (names.length : Int) - 1 - dim ≠ NONE := by
        rw [NONE]
        omega
      rw [if_neg hunnamed, filter_cons_of_pos (by simpa using hne), hrest,
        filter_cons_of_pos (by simpa using hunnamed), map_cons]

theorem usedAxes_readMap (hmesh : 0 < names.length) {mapping : DimMapping}
    (h : EntryOk names.length mapping) :
    (readMap names mapping).usedAxes =
      (dimsOf names mapping).map fun dim : Nat => (names.length : Int) - 1 - dim := by
  rw [dimsOf, ← filter_axisOfDim (readDims_lt hmesh h), DimMapping.usedAxes]
  cases mapping with
  | axes ids => rw [readMap, readDims, map_map]; rfl
  | axis id =>
    rw [readMap, readDims]
    by_cases hnone : id = NONE
    · rw [if_pos hnone, if_pos hnone]
      rfl
    · rw [if_neg hnone, if_neg hnone]
      rfl

theorem readMap_wellFormed (hmesh : 0 < names.length) {maps : TensorMap}
    (hmaps : ∀ mapping ∈ maps, EntryOk names.length mapping)
    (hnodup : (maps.flatMap (dimsOf names)).Nodup) :
    WellFormed names.length (maps.map (readMap names)) := by
  have hused : usedAxes (maps.map (readMap names)) =
      (maps.flatMap (dimsOf names)).map fun dim : Nat => (names.length : Int) - 1 - dim := by
    rw [usedAxes, flatMap_map, map_flatMap]
    exact flatMap_congr fun mapping hmapping => usedAxes_readMap hmesh (hmaps mapping hmapping)
  have hlt : ∀ dim ∈ maps.flatMap (dimsOf names), dim < names.length := by
    intro dim hdim
    obtain ⟨mapping, hmapping, hdim⟩ := mem_flatMap.mp hdim
    exact dimsOf_lt hmesh (hmaps mapping hmapping) dim hdim
  constructor
  · intro axis haxis
    rw [hused] at haxis
    obtain ⟨dim, hdim, rfl⟩ := mem_map.mp haxis
    have hbelow := hlt dim hdim
    omega
  · rw [hused]
    exact hnodup.map fun a b hab => by simpa using hab

end Alias

/-! ## The layout that is called -/

open Layout

theorem extractRaggedShard_plain {placements : List Placement}
    (h : ∀ placement ∈ placements, placement.asRaggedShard = none) :
    extractRaggedShard placements = .ok none := by
  suffices hloop : ∀ k, (placements.zipIdx k).foldlM recordRaggedShard none = .ok none from hloop 0
  intro k
  induction placements generalizing k with
  | nil => rfl
  | cons placement placements ih =>
    have hstep : recordRaggedShard none (placement, k) = .ok none := by
      simp [recordRaggedShard, h placement mem_cons_self]
    rw [zipIdx_cons, foldlM_cons, hstep]
    exact ih (fun other hother => h other (mem_cons_of_mem placement hother)) (k + 1)

theorem tensorMapToPlacement_plain (py : PyStr) {layout : Layout} {tensorMap : TensorMap}
    (hmap : layout.tensorMap = some tensorMap)
    (hwf : WellFormed layout.mesh.meshShape.length tensorMap) (hragged : layout.raggedShard = none) :
    layout.tensorMapToPlacement py =
      .ok (({ layout with placements := some (plainPlacements layout tensorMap) }).updateCompactStr py,
        plainPlacements layout tensorMap) := by
  have hmapM : tensorMap.zipIdx.mapM (fun (entry : DimMapping × Nat) =>
      entryPlacements layout.mesh.meshShape layout.placements entry.2 entry.1) =
      .ok (tensorMap.zipIdx.map fun entry =>
        entryAssignments layout.mesh.meshShape layout.placements entry.2 entry.1) :=
    mapM_eq_ok fun entry hentry =>
      entryPlacements_eq hwf layout.placements entry.2 (fst_mem_of_mem_zipIdx hentry)
  have hnone := extractRaggedShard_plain fun placement hmem =>
    @plainPlacements_asRaggedShard placement layout tensorMap hmem
  rw [plainPlacements] at hnone
  simp only [tensorMapToPlacement, hmap, hmapM, bind, Except.bind, ← flatMap_def, hragged,
    placeRaggedShard, setPlacements, hnone]
  rw [plainPlacements]

theorem getElem?_assignPlacements {placements : List Placement} {assigned : List (Nat × Placement)}
    {i : Nat} {placement : Placement}
    (h : (assignPlacements placements assigned)[i]? = some placement) :
    placements[i]? = some placement ∨ (i, placement) ∈ assigned := by
  induction assigned generalizing placements with
  | nil => exact .inl h
  | cons entry assigned ih =>
    rcases ih h with hset | hrest
    · by_cases heq : entry.1 = i
      · obtain ⟨-, hplacement⟩ : entry.1 < placements.length ∧ entry.2 = placement := by
          simpa [getElem?_set, heq, ite_eq_iff] using hset
        right
        rw [← heq, ← hplacement]
        exact mem_cons_self
      · rw [getElem?_set_ne heq] at hset
        exact .inl hset
    · exact .inr (mem_cons_of_mem entry hrest)

def Placed (meshNdim : Nat) (tensorMap : TensorMap) (partialOps : List (Option String)) (i : Nat)
    (placement : Placement) : Prop :=
  placement = .replicate ∨ (∃ op, partialOps[i]? = some (some op) ∧ placement = .partialReduce op) ∨
    i ∈ tensorMap.flatMap (meshOrder meshNdim)

theorem plainPlacements_placed {layout : Layout} {tensorMap : TensorMap} {i : Nat}
    {placement : Placement} (h : (plainPlacements layout tensorMap)[i]? = some placement) :
    Placed layout.mesh.meshShape.length tensorMap layout.partialOps i placement := by
  rcases getElem?_assignPlacements h with hmap | hpartial
  · rcases getElem?_assignPlacements hmap with hbase | hshard
    · exact .inl (eq_of_mem_replicate (mem_of_getElem? hbase))
    · right
      right
      obtain ⟨entry, hentry, hassigned⟩ := mem_flatMap.mp hshard
      obtain ⟨m, hm, hpair⟩ := mem_map.mp hassigned
      obtain ⟨rfl, -⟩ := Prod.mk.inj hpair
      exact mem_flatMap.mpr ⟨entry.1, fst_mem_of_mem_zipIdx hentry,
        (mergeSort_perm _ _).mem_iff.mp hm⟩
  · obtain ⟨op, hop, hget⟩ := partialPlacements_entry hpartial
    exact .inr (.inl ⟨op, hget, hop⟩)

structure Carries (mesh : DeviceMesh) (tensorMap : TensorMap) (layout : Layout) : Prop where
  mesh_eq : layout.mesh = mesh
  map_eq : layout.tensorMap = some tensorMap
  ragged_eq : layout.raggedShard = none
  placed : ∃ placements, layout.placements = some placements ∧ ∀ i placement,
    placements[i]? = some placement →
      Placed mesh.meshShape.length tensorMap layout.partialOps i placement

theorem tensorMapToPlacement_carries (py : PyStr) {layout : Layout} {tensorMap : TensorMap}
    (hmap : layout.tensorMap = some tensorMap)
    (hwf : WellFormed layout.mesh.meshShape.length tensorMap) (hragged : layout.raggedShard = none) :
    ∃ written placements, layout.tensorMapToPlacement py = .ok (written, placements) ∧
      Carries layout.mesh tensorMap (written.updateCompactStr py) ∧
      written.partialOps = layout.partialOps :=
  ⟨_, _, tensorMapToPlacement_plain py hmap hwf hragged,
    ⟨rfl, hmap, hragged, _, rfl, fun _ _ => plainPlacements_placed⟩, rfl⟩

section Called

variable {mesh : DeviceMesh} {names : List String}

variable (py : PyStr)

theorem callAlias_carries (hnames : mesh.meshDimNames = some names) (hmesh : 0 < names.length)
    {maps : TensorMap} (hmaps : ∀ mapping ∈ maps, EntryOk names.length mapping) :
    ((maps.flatMap (dimsOf names)).Nodup ∧ ∃ out,
        (fromDeviceMesh py mesh).callAlias py (maps.map (aliasOf names)) = .ok out ∧
        Carries mesh (maps.map (readMap names)) out ∧
        out.partialOps = replicate mesh.meshShape.length none) ∨
      (¬ (maps.flatMap (dimsOf names)).Nodup ∧ ∃ item,
        (fromDeviceMesh py mesh).callAlias py (maps.map (aliasOf names)) =
          .error (.axisSetTwice item)) := by
  obtain ⟨hlength, hnodup⟩ := mesh.names_ok names (by simp [hnames])
  have hreads := @aliasTensorMap_readsBack names hnodup hmesh maps hmaps [] (by simp) nodup_nil
  rw [map_nil, ReadsBack, nil_append] at hreads
  have hmeshNames : (fromDeviceMesh py mesh).mesh.meshDimNames = some names := hnames
  rcases hreads with ⟨hall, hok⟩ | ⟨hnot, item, herror⟩
  · left
    refine ⟨hall, ?_⟩
    have hwf := readMap_wellFormed hmesh hmaps hall
    rw [hlength] at hwf
    obtain ⟨written, placements, hwritten, hcarries, hops⟩ := @tensorMapToPlacement_carries py
      { (fromDeviceMesh py mesh).clearPartial with tensorMap := some (maps.map (readMap names)) }
      _ rfl hwf rfl
    refine ⟨written.updateCompactStr py, ?_, hcarries, hops⟩
    simp only [callAlias, hmeshNames, hok, bind, Except.bind, hwritten]
  · exact .inr ⟨hnot, item, by simp only [callAlias, hmeshNames, herror, bind, Except.bind]⟩

def PartialOk (names : List String) (tensorMap : TensorMap) (op : String) (dim : Nat) : Prop :=
  some op ∈ supportPartialOp ∧ axisOfDim names dim ∉ tensorMap.flatMap DimMapping.mappedDims

theorem axisId_nameOf (hnames : mesh.meshDimNames = some names) {dim : Nat} (hdim : dim < names.length) :
    mesh.axisId (nameOf names dim) = .ok (axisOfDim names dim) ∧
      mesh.axisIndex (nameOf names dim) = .ok dim := by
  obtain ⟨hlength, hnodup⟩ := mesh.names_ok names (by simp [hnames])
  have hassert : mesh.assertAxis (nameOf names dim) = .ok names := by
    have hmem := nameOf_mem hdim
    rw [DeviceMesh.assertAxis, hnames]
    cases names with
    | nil => exact absurd hdim (Nat.not_lt_zero dim)
    | cons first rest => exact if_pos hmem
  have hidx := idxOf_nameOf hnodup hdim
  constructor
  · rw [DeviceMesh.axisId, axisOfDim]
    by_cases hunnamed : nameOf names dim = "None"
    · rw [if_pos hunnamed, if_pos hunnamed]
    · rw [if_neg hunnamed, if_neg hunnamed, hassert]
      simp only [bind, Except.bind, hidx, ← hlength]
      congr 1
      ring
  · rw [DeviceMesh.axisIndex, hassert]
    simp only [bind, Except.bind, hidx]

variable {tensorMap : TensorMap}

theorem setPartialByDevAxis_carries (hnames : mesh.meshDimNames = some names)
    (hwf : WellFormed mesh.meshShape.length tensorMap) {layout : Layout}
    (h : Carries mesh tensorMap layout) {dim : Nat} (hdim : dim < names.length) (op : String) :
    (PartialOk names tensorMap op dim ∧ ∃ out,
        layout.setPartialByDevAxis py (nameOf names dim) (some op) = .ok out ∧
        Carries mesh tensorMap out ∧ out.partialOps = layout.partialOps.set dim (some op)) ∨
      (¬ PartialOk names tensorMap op dim ∧ ∃ error,
        layout.setPartialByDevAxis py (nameOf names dim) (some op) = .error error ∧
        layoutValueError error = true) := by
  obtain ⟨rfl, hmap, hragged, -⟩ := h
  obtain ⟨hid, hindex⟩ := axisId_nameOf hnames hdim
  by_cases hop : some op ∈ supportPartialOp
  · by_cases hused : axisOfDim names dim ∈ tensorMap.flatMap DimMapping.mappedDims
    · refine .inr ⟨fun hok => hok.2 hused, .partialDimSharded, ?_, rfl⟩
      rw [setPartialByDevAxis, if_neg (not_not.mpr hop)]
      simp only [isDevAxisApplyShard, hid, hmap, bind, Except.bind,
        contains_iff_mem.mpr hused, if_true]
    · obtain ⟨written, placements, hwritten, hcarries, hops⟩ := @tensorMapToPlacement_carries py
        { layout with partialOps := layout.partialOps.set dim (some op) } _ hmap hwf hragged
      refine .inl ⟨⟨hop, hused⟩, written.updateCompactStr py, ?_, hcarries, hops⟩
      have hfree : (tensorMap.flatMap DimMapping.mappedDims).contains (axisOfDim names dim) = false := by
        rw [Bool.eq_false_iff]
        exact fun htrue => hused (contains_iff_mem.mp htrue)
      rw [hmap] at hwritten
      rw [setPartialByDevAxis, if_neg (not_not.mpr hop)]
      simp only [isDevAxisApplyShard, hid, hmap, hindex, bind, Except.bind, hfree, hwritten,
        Bool.false_eq_true, if_false]
  · refine .inr ⟨fun hok => hop hok.1, .unsupportedPartialOp (some op), ?_, rfl⟩
    rw [setPartialByDevAxis, if_pos hop]

/-- Every reduction that is taken over may stand where it does. -/
def Allowed (names : List String) (tensorMap : TensorMap) (entry : Option String × Nat) : Prop :=
  ∀ op, entry.1 = some op → entry.2 < names.length → PartialOk names tensorMap op entry.2

section

variable {layout : Layout} (hnames : mesh.meshDimNames = some names)
  (hwf : WellFormed mesh.meshShape.length tensorMap) (h : Carries mesh tensorMap layout)

include hnames hwf h

theorem applyPartialOp_carries (entry : Option String × Nat) :
    (Allowed names tensorMap entry ∧ ∃ out, applyPartialOp py names layout entry = .ok out ∧
        Carries mesh tensorMap out ∧ ∀ i op, out.partialOps[i]? = some (some op) →
          layout.partialOps[i]? = some (some op) ∨ (some op, i) = entry) ∨
      (¬ Allowed names tensorMap entry ∧ ∃ error,
        applyPartialOp py names layout entry = .error error ∧ error.isValueError = true) := by
  obtain ⟨slot, dim⟩ := entry
  cases slot with
  | none => exact .inl ⟨fun op hop => (by cases hop), layout, rfl, h, fun i op hget => .inl hget⟩
  | some op =>
    by_cases hdim : dim < names.length
    · have hname : names[dim]? = some (nameOf names dim) := by
        rw [nameOf, getD_eq_getElem _ _ hdim, getElem?_eq_getElem hdim]
      rcases setPartialByDevAxis_carries py hnames hwf h hdim op with
        ⟨hok, out, hout, hcarries, hops⟩ | ⟨hnot, error, herror, hvalue⟩
      · refine .inl ⟨fun op' hop' _ => Option.some.inj hop' ▸ hok, out, ?_, hcarries, ?_⟩
        · simp only [applyPartialOp, hname, hout, liftReshape]
        · intro i other hget
          rw [hops] at hget
          by_cases heq : dim = i
          · obtain ⟨-, hsame⟩ : dim < layout.partialOps.length ∧ op = other := by
              simpa [getElem?_set, heq, ite_eq_iff] using hget
            exact .inr (by rw [heq, hsame])
          · rw [getElem?_set_ne heq] at hget
            exact .inl hget
      · refine .inr ⟨fun hallowed => hnot (hallowed op rfl hdim), .layout error, ?_, hvalue⟩
        simp only [applyPartialOp, hname, herror, liftReshape]
    · refine .inl ⟨fun op' _ hlt => absurd hlt hdim, layout, ?_, h, fun i other hget => .inl hget⟩
      rw [applyPartialOp, getElem?_eq_none (Nat.le_of_not_lt hdim)]

theorem foldlM_applyPartialOp (entries : List (Option String × Nat)) :
    ((∀ entry ∈ entries, Allowed names tensorMap entry) ∧ ∃ out,
        entries.foldlM (applyPartialOp py names) layout = .ok out ∧ Carries mesh tensorMap out ∧
        ∀ i op, out.partialOps[i]? = some (some op) →
          layout.partialOps[i]? = some (some op) ∨ (some op, i) ∈ entries) ∨
      (¬ (∀ entry ∈ entries, Allowed names tensorMap entry) ∧ ∃ error,
        entries.foldlM (applyPartialOp py names) layout = .error error ∧
        error.isValueError = true) := by
  induction entries generalizing layout with
  | nil => exact .inl ⟨by simp, layout, rfl, h, fun i op hget => .inl hget⟩
  | cons entry entries ih =>
    rw [foldlM_cons, forall_mem_cons]
    rcases applyPartialOp_carries py hnames hwf h entry with
      ⟨hallowed, next, hnext, hcarries, hops⟩ | ⟨hnot, error, herror, hvalue⟩
    · rw [hnext]
      rcases ih hcarries with ⟨hrest, out, hout, hcarriesOut, hopsOut⟩ | ⟨hnot, error, herror, hvalue⟩
      · refine .inl ⟨⟨hallowed, hrest⟩, out, hout, hcarriesOut, fun i op hget => ?_⟩
        rcases hopsOut i op hget with hold | hmem
        · rcases hops i op hold with hbase | hentry
          · exact .inl hbase
          · exact .inr (hentry ▸ mem_cons_self)
        · exact .inr (mem_cons_of_mem entry hmem)
      · exact .inr ⟨fun hall => hnot hall.2, error, herror, hvalue⟩
    · refine .inr ⟨fun hall => hnot hall.1, error, ?_, hvalue⟩
      rw [herror]
      rfl

end

/-- The pending reductions of the input may stand on the output. -/
def TakesOver (names : List String) (tensorMap : TensorMap) (xLayout : Layout) : Prop :=
  isPartial xLayout = true → ∀ entry ∈ xLayout.partialOps.zipIdx, Allowed names tensorMap entry

theorem applyPartialStatus_carries (hnames : mesh.meshDimNames = some names)
    (hwf : WellFormed mesh.meshShape.length tensorMap) {layout : Layout}
    (h : Carries mesh tensorMap layout)
    (hops : layout.partialOps = replicate mesh.meshShape.length none) (xLayout : Layout) :
    (TakesOver names tensorMap xLayout ∧ ∃ out,
        applyPartialStatus py xLayout layout names = .ok out ∧ Carries mesh tensorMap out ∧
        ∀ (i : Nat) (op : String), out.partialOps[i]? = some (some op) →
          xLayout.partialOps[i]? = some (some op)) ∨
      (¬ TakesOver names tensorMap xLayout ∧ ∃ error,
        applyPartialStatus py xLayout layout names = .error error ∧ error.isValueError = true) := by
  have hempty : ∀ (i : Nat) (op : String), layout.partialOps[i]? ≠ some (some op) := by
    intro i op hget
    rw [hops] at hget
    exact absurd (eq_of_mem_replicate (mem_of_getElem? hget)) (by simp)
  rw [applyPartialStatus, TakesOver]
  by_cases hpartial : isPartial xLayout = true
  · rw [if_pos hpartial]
    rcases foldlM_applyPartialOp py hnames hwf h xLayout.partialOps.zipIdx with
      ⟨hall, out, hout, hcarries, hget⟩ | ⟨hnot, error, herror, hvalue⟩
    · refine .inl ⟨fun _ => hall, out, hout, hcarries, fun i op hop => ?_⟩
      rcases hget i op hop with hold | hmem
      · exact absurd hold (hempty i op)
      · exact mem_zipIdx_iff_getElem?.mp hmem
    · exact .inr ⟨fun hall => hnot (hall hpartial), error, herror, hvalue⟩
  · rw [if_neg hpartial]
    exact .inl ⟨fun htrue => absurd htrue hpartial, layout, rfl, h,
      fun i op hop => absurd hop (hempty i op)⟩

end Called

end HyperParallel.Shard
