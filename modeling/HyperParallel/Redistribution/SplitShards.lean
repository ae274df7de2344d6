import HyperParallel.Redistribution.ShardRanges

/-!
# Splitting a replicated tensor

Where no dimension is sharded yet, the first pass of the inference settles all
of them: each sharded dimension is split once, over all the axes of its entry.
A rank keeps the chunk at its index in the group, which is the number of its
part with the cuts in the order of the entry.
-/

namespace HyperParallel.Redistribution

open Foundation List
open DTensor

/-! ## The inference from unsharded dimensions -/

namespace RedistributionOperatorInfer

variable {infer : RedistributionOperatorInfer}

structure Blank (state : Inference) (rest : List Int) : Prop where
  keys_eq : state.map.keys = rest
  unsharded : ∀ value ∈ state.map.values, value = .axis NONE

def splitOperator (infer : RedistributionOperatorInfer) (index : Int) :
    Except InferError (Option Operator) := do
  let outDim ← getDimByIdx infer.outTensorMap index
  if outDim = .axis NONE then .ok none
  else .ok (some (.splitByAxis index outDim (← getDimByReverseIdx infer.devMat outDim)))

theorem anyEndsIn_unsharded (value : DimMapping) {dims : List DimMapping}
    (h : ∀ dim ∈ dims, dim = .axis NONE) : anyEndsIn value dims = .ok false := by
  induction dims with
  | nil => rfl
  | cons dim dims ih =>
    rw [anyEndsIn, h dim mem_cons_self]
    exact ih fun other hother => h other (mem_cons_of_mem _ hother)

variable {state : Inference}

variable {rest : List Int}

theorem inferDim_blank {index : Int} (h : Blank state (index :: rest)) :
    infer.inferDim [thenDelete infer.handleSimpleSplitCase, thenDelete infer.handleTupleSplitCase]
        true state index =
      (infer.splitOperator index).map fun operator =>
        ⟨state.operatorList ++ operator.toList, state.map.erase index⟩ := by
  have hkey : index ∈ state.map.keys := h.keys_eq ▸ mem_cons_self
  obtain ⟨value, hvalue⟩ := state.map.mem_keys_iff.mp hkey
  have hnone := h.unsharded value (state.map.mem_values_iff.mpr ⟨index, hvalue⟩)
  rw [hnone] at hvalue
  rw [inferDim, hvalue, splitOperator]
  dsimp only
  cases hout : getDimByIdx infer.outTensorMap index with
  | error error => rfl
  | ok outDim =>
    simp only [Bind.bind, Except.bind]
    by_cases hsettled : outDim = .axis NONE
    · rw [if_pos ⟨trivial, hsettled.symm⟩, if_pos hsettled]
      simp [Except.map, Inference.delete]
    · have hconflict : state.map.values.any (· = outDim) = false := by
        rw [any_eq_false]
        intro value hmem
        rw [h.unsharded value hmem]
        simpa using Ne.symm hsettled
      rw [if_neg fun hboth => hsettled hboth.2.symm, if_neg hsettled, inferDim.firstHandled,
        thenDelete, handleSimpleSplitCase]
      simp only [ne_eq, not_true_eq_false, if_false, anyEndsIn_unsharded outDim h.unsharded,
        hconflict, Bind.bind, Except.bind, Pure.pure, Except.pure]
      cases getDimByReverseIdx infer.devMat outDim <;> rfl

theorem Blank.erase {index : Int} (h : Blank state (index :: rest))
    (operatorList : List Operator) :
    Blank ⟨operatorList, state.map.erase index⟩ rest := by
  refine ⟨?_, fun value hvalue => h.unsharded value (state.map.mem_values_of_mem_erase hvalue)⟩
  have hnodup : (index :: rest).Nodup := h.keys_eq ▸ state.map.keys_nodup
  rw [PyDict.keys_erase, h.keys_eq, filter_cons_of_neg (by simp), filter_eq_self]
  intro other hother
  have hne : other ≠ index := fun heq => (nodup_cons.mp hnodup).1 (heq ▸ hother)
  simpa using hne

theorem foldlM_inferDim_blank {state : Inference} (h : Blank state rest) :
    (∃ error, rest.mapM infer.splitOperator = .error error ∧
      rest.foldlM (infer.inferDim [thenDelete infer.handleSimpleSplitCase,
        thenDelete infer.handleTupleSplitCase] true) state = .error error) ∨
    ∃ operators next, rest.mapM infer.splitOperator = .ok operators ∧
      rest.foldlM (infer.inferDim [thenDelete infer.handleSimpleSplitCase,
        thenDelete infer.handleTupleSplitCase] true) state = .ok next ∧
      next.map.keys = [] ∧
      next.operatorList = state.operatorList ++ operators.filterMap id := by
  induction rest generalizing state with
  | nil => exact .inr ⟨[], state, rfl, rfl, h.keys_eq, by simp⟩
  | cons index rest ih =>
    rw [mapM_cons, foldlM_cons, inferDim_blank h]
    cases hsplit : infer.splitOperator index with
    | error error => exact .inl ⟨error, rfl, rfl⟩
    | ok operator =>
      rcases ih (h.erase (state.operatorList ++ operator.toList)) with
        ⟨error, hmap, hfold⟩ | ⟨operators, next, hmap, hfold, hkeys, hlist⟩
      · refine .inl ⟨error, ?_, hfold⟩
        rw [hmap]
        rfl
      · refine .inr ⟨operator :: operators, next, ?_, hfold, hkeys, ?_⟩
        · rw [hmap]
          rfl
        · rw [hlist, append_assoc]
          cases operator <;> rfl

theorem inferLoop_settled (h : state.map.keys = []) (fuel rounds : Nat) :
    infer.inferLoop fuel rounds state = .ok state := by
  cases rounds <;> rw [inferLoop, if_pos h]

theorem splitLoop_settled (h : state.map.keys = []) (fuel rounds : Nat) :
    infer.splitLoop fuel rounds state = .ok state := by
  cases rounds <;> rw [splitLoop, if_pos h]

theorem permuteLoop_settled (h : state.map.keys = []) (fuel : Nat) :
    infer.permuteLoop fuel state = .ok state := by
  cases fuel <;> rw [permuteLoop, if_pos h]

theorem inferLoop_blank (h : Blank state rest) (fuel : Nat) :
    infer.inferLoop (fuel + 1) (fuel + 1) state =
      rest.foldlM (infer.inferDim [thenDelete infer.handleSimpleSplitCase,
        thenDelete infer.handleTupleSplitCase] true) state := by
  have hpass : infer.inferSplitByAxis state =
      rest.foldlM (infer.inferDim [thenDelete infer.handleSimpleSplitCase,
        thenDelete infer.handleTupleSplitCase] true) state := by
    rw [inferSplitByAxis, inferPass, h.keys_eq]
  cases hrest : rest with
  | nil =>
    rw [hrest] at h
    rw [inferLoop_settled h.keys_eq]
    rfl
  | cons index others =>
    have hkeys : state.map.keys ≠ [] := by
      rw [h.keys_eq, hrest]
      exact cons_ne_nil _ _
    rw [← hrest, inferLoop, if_neg hkeys]
    dsimp only
    rw [splitLoop, if_neg hkeys]
    rw [hpass]
    rcases @foldlM_inferDim_blank infer _ _ h with
      ⟨error, -, hfold⟩ | ⟨operators, next, -, hfold, hempty, -⟩
    · rw [hfold]
      rfl
    · have hentries : next.map.entries = [] := map_eq_nil_iff.mp hempty
      have hconcat : infer.inferConcatByAxis next = .ok next := by
        rw [inferConcatByAxis, inferPass, hempty]
        rfl
      have hfirst : infer.concatFirst next = .ok next := by rw [concatFirst, hentries]
      rw [hfold]
      simp only [Bind.bind, Except.bind, Pure.pure, Except.pure, permuteLoop_settled hempty,
        splitLoop_settled hempty, ite_self, hconcat, hfirst, inferLoop_settled hempty]

theorem blank_foldl {dims : TensorMap} (hnone : ∀ dim ∈ dims, dim = .axis NONE) {k : Nat}
    (h : Blank state ((range k).map Nat.cast)) :
    Blank ⟨state.operatorList, (dims.zipIdx k).foldl
      (fun map entry => map.set (entry.2 : Int) entry.1) state.map⟩
        ((range (k + dims.length)).map Nat.cast) := by
  induction dims generalizing k state with
  | nil => exact h
  | cons dim dims ih =>
    have hkey : (k : Int) ∉ state.map.keys := by
      rw [h.keys_eq]
      simp
    have hstep : Blank ⟨state.operatorList, state.map.set (k : Int) dim⟩
        ((range (k + 1)).map Nat.cast) := by
      refine ⟨?_, fun value hvalue => ?_⟩
      · rw [PyDict.keys_set, if_neg hkey, h.keys_eq, range_succ, map_append, map_singleton]
      · rw [PyDict.values_set_of_notMem _ _ hkey, mem_append, mem_singleton] at hvalue
        rcases hvalue with hvalue | rfl
        · exact h.unsharded value hvalue
        · exact hnone _ mem_cons_self
    have hrest := ih (fun other hother => hnone other (mem_cons_of_mem _ hother)) hstep
    rw [zipIdx_cons, foldl_cons, length_cons, ← Nat.add_assoc, Nat.add_right_comm]
    exact hrest

theorem blank_init (hnone : ∀ dim ∈ infer.inTensorMap, dim = .axis NONE) :
    Blank infer.init ((range infer.inTensorMap.length).map Nat.cast) := by
  have hempty : Blank ⟨[], PyDict.empty⟩ ((range 0).map Nat.cast) :=
    ⟨rfl, fun value hvalue => by cases hvalue⟩
  have hfold := blank_foldl hnone hempty
  rw [Nat.zero_add] at hfold
  exact hfold

/-- The operations for a replicated tensor: the splits of its dimensions that have several parts. -/
theorem inferOpsList_blank (hnone : ∀ dim ∈ infer.inTensorMap, dim = .axis NONE) (fuel rank : Nat)
    (rankList : List Nat) {operations : List Operation} :
    infer.inferOpsList (fuel + 1) rank rankList = .ok operations ↔
      ∃ operators results,
        ((range infer.inTensorMap.length).map Nat.cast).mapM infer.splitOperator =
          .ok operators ∧
        (operators.filterMap id).mapM (infer.operationOf rank rankList) = .ok results ∧
        operations = results.filterMap id := by
  have hblank := blank_init hnone
  rw [inferOpsList, inferRedistributionOperator, inferLoop_blank hblank]
  rcases foldlM_inferDim_blank hblank with
    ⟨error, hmap, hfold⟩ | ⟨operators, next, hmap, hfold, -, hlist⟩
  · rw [hfold, hmap]
    constructor
    · intro h
      cases h
    · rintro ⟨operators, results, hoperators, -⟩
      cases hoperators
  · have hlist : next.operatorList = operators.filterMap id := by
      rw [hlist]
      rfl
    rw [hfold, hmap]
    simp only [Bind.bind, Except.bind, hlist]
    constructor
    · intro h
      cases hresults : (operators.filterMap id).mapM (infer.operationOf rank rankList) with
      | error error =>
        rw [hresults] at h
        cases h
      | ok results =>
        rw [hresults] at h
        cases h
        exact ⟨operators, results, rfl, hresults, rfl⟩
    · rintro ⟨operators', results, hoperators, hresults, rfl⟩
      cases hoperators
      rw [hresults]

end RedistributionOperatorInfer

/-! ## The index in a group -/

section Group

def positionsAlong (dims : List Nat) (position : Nat) (axes : List Nat) : List Nat :=
  axes.foldl (fun positions axis => positions.flatMap (onAxis dims axis)) [position]

variable {dims : List Nat} {position : Nat}

theorem covers_singleton (hposition : position < dims.prod) : Covers dims [] position [position] := by
  refine ⟨nodup_singleton _, fun other => ?_⟩
  rw [mem_singleton]
  constructor
  · rintro rfl
    exact ⟨hposition, .refl _ _ _⟩
  · rintro ⟨hother, hsame⟩
    refine MixedRadix.digits_injOn hother hposition (ext_getElem? fun axis => ?_)
    by_cases haxis : axis < dims.length
    · exact hsame axis haxis not_mem_nil
    · rw [getElem?_eq_none (by simpa using haxis), getElem?_eq_none (by simpa using haxis)]

theorem idxOf_of_getElem? {xs : List Nat} (hnodup : xs.Nodup) {i x : Nat} (hget : xs[i]? = some x) :
    xs.idxOf x = i := by
  obtain ⟨hlt, rfl⟩ := List.getElem?_eq_some_iff.mp hget
  exact hnodup.idxOf_getElem i hlt

theorem getElem?_flatMap_of_length {α β : Type*} {f : α → List β} {length : Nat} {xs : List α}
    (hlength : ∀ x ∈ xs, (f x).length = length) {i j : Nat} {x : α} (hx : xs[i]? = some x)
    (hj : j < length) : (xs.flatMap f)[i * length + j]? = (f x)[j]? := by
  induction xs generalizing i with
  | nil => cases hx
  | cons first xs ih =>
    have hfirst := hlength first mem_cons_self
    rw [flatMap_cons]
    cases i with
    | zero =>
      cases hx
      rw [Nat.zero_mul, Nat.zero_add, getElem?_append_left (by omega)]
    | succ i =>
      have hrest := ih (fun other hother => hlength other (mem_cons_of_mem _ hother))
        (by simpa using hx)
      rw [getElem?_append_right (by rw [Nat.add_mul]; omega), ← hrest, hfirst]
      congr 1
      rw [Nat.add_mul]
      omega

theorem getElem?_onAxis_self (hposition : position < dims.prod) {axis : Nat}
    (haxis : axis < dims.length) :
    (onAxis dims axis position)[(MixedRadix.digits dims position).getD axis 0]? = some position := by
  have hpos := dims_pos hposition
  have hlt := MixedRadix.digits_lt hpos position axis haxis
  have hdigit : (MixedRadix.digits dims position).getD axis 0 =
      getElem (MixedRadix.digits dims position) axis (by simpa using haxis) :=
    getD_eq_getElem _ _ _
  rw [onAxis, getElem?_map, getD_eq_getElem _ _ haxis, hdigit, getElem?_range hlt, Option.map_some,
    moveTo, set_getElem_self, MixedRadix.value_digits hposition]

theorem positionsAlong_covers (hposition : position < dims.prod) {axes : List Nat}
    (hlt : ∀ axis ∈ axes, axis < dims.length) (hnodup : axes.Nodup) :
    Covers dims axes position (positionsAlong dims position axes) ∧
      (positionsAlong dims position axes)[MixedRadix.value (axes.map (dims.getD · 0))
        (axes.map ((MixedRadix.digits dims position).getD · 0))]? = some position := by
  induction axes using reverseRecOn with
  | nil => exact ⟨covers_singleton hposition, rfl⟩
  | append_singleton axes axis ih =>
    have haxis := hlt axis (by simp)
    have hnot : axis ∉ axes := fun hmem =>
      (nodup_append.mp hnodup).2.2 axis hmem axis (by simp) rfl
    obtain ⟨hcovers, hget⟩ := ih (fun other hother => hlt other (by simp [hother]))
      (nodup_append.mp hnodup).1
    have hsnoc : positionsAlong dims position (axes ++ [axis]) =
        (positionsAlong dims position axes).flatMap (onAxis dims axis) := by
      rw [positionsAlong, foldl_append, foldl_cons, foldl_nil, positionsAlong]
    have hdigit := MixedRadix.digits_lt (dims_pos hposition) position axis haxis
    have hself := getElem?_onAxis_self hposition haxis
    have hlast : ∀ size digit, MixedRadix.value [size] [digit] = digit := by
      simp [MixedRadix.value]
    rw [hsnoc]
    refine ⟨hcovers.flatMap hposition haxis hnot, ?_⟩
    rw [map_append, map_append, MixedRadix.value_append (by simp), map_singleton,
      map_singleton, prod_singleton, hlast,
      getElem?_flatMap_of_length (fun other _ => by rw [onAxis, length_map, length_range])
        hget ?_, hself]
    rw [getD_eq_getElem _ _ haxis, getD_eq_getElem _ _ (by simpa using haxis)]
    exact hdigit

end Group

/-! ## The devices of a split -/

section Devices

variable {layout : Layout} {tensorMap : TensorMap} {placements : List Placement}
  {shape : List Nat} {rank : Nat} {mapping : DimMapping}

/-- An entry with at least one axis and no mark of an unsharded dimension. -/
def Splittable (mapping : DimMapping) : Prop :=
  mapping.mappedDims ≠ [] ∧ NONE ∉ mapping.mappedDims

instance (mapping : DimMapping) : Decidable (Splittable mapping) :=
  inferInstanceAs (Decidable (_ ∧ _))

theorem Splittable.usedAxes_eq (h : Splittable mapping) : mapping.usedAxes = mapping.mappedDims := by
  rw [DimMapping.usedAxes, filter_eq_self]
  intro axis haxis
  have hne : axis ≠ NONE := fun heq => h.2 (heq ▸ haxis)
  simpa using hne

theorem idxOf_getD {rankList : List Nat} (hnodup : rankList.Nodup) {position : Nat}
    (hlt : position < rankList.length) : rankList.idxOf (rankList.getD position 0) = position := by
  rw [getD_eq_getElem _ _ hlt, hnodup.idxOf_getElem position hlt]

theorem expandDims_ranks {dims rankList : List Nat} (hlen : rankList.length = dims.prod)
    (hnodup : rankList.Nodup) {axes : List Nat} (hlt : ∀ axis ∈ axes, axis < dims.length)
    {positions : List Nat} (hpositions : ∀ position ∈ positions, position < dims.prod)
    (hne : positions ≠ []) :
    (DevMat.mk dims).expandDims rankList (axes.map Nat.cast) (positions.map (rankList.getD · 0)) =
      .ok ((axes.foldl (fun positions axis => positions.flatMap (onAxis dims axis)) positions).map
        (rankList.getD · 0)) := by
  induction axes generalizing positions with
  | nil => rfl
  | cons axis axes ih =>
    have haxis := hlt axis mem_cons_self
    have hlayer := @expandLayer_eq
      (fun sub => (DevMat.mk dims).getDevicesAlongOneDim sub rankList axis)
      (fun sub => (onAxis dims axis (rankList.idxOf sub)).map (rankList.getD · 0))
      (positions.map (rankList.getD · 0)) (fun sub hsub => by
        obtain ⟨position, hposition, rfl⟩ := mem_map.mp hsub
        refine getDevicesAlongOneDim_ranks hlen ?_ haxis
        rw [getD_eq_getElem _ _ (hlen ▸ hpositions position hposition)]
        exact getElem_mem _) []
    have hflat : (positions.map (rankList.getD · 0)).flatMap
        (fun sub => (onAxis dims axis (rankList.idxOf sub)).map (rankList.getD · 0)) =
          (positions.flatMap (onAxis dims axis)).map (rankList.getD · 0) := by
      rw [flatMap_map, map_flatMap]
      refine flatMap_congr fun position hposition => ?_
      rw [idxOf_getD hnodup (hlen ▸ hpositions position hposition)]
    have hwithin : ∀ other ∈ positions.flatMap (onAxis dims axis), other < dims.prod := by
      intro other hother
      obtain ⟨position, hposition, hmem⟩ := mem_flatMap.mp hother
      exact ((mem_onAxis_iff (hpositions position hposition) haxis).mp hmem).1
    have hnonempty : positions.flatMap (onAxis dims axis) ≠ [] := by
      obtain ⟨position, hposition⟩ := exists_mem_of_ne_nil _ hne
      have hlt := hpositions position hposition
      exact ne_nil_of_mem (mem_flatMap.mpr ⟨position, hposition,
        (mem_onAxis_iff hlt haxis).mpr ⟨hlt, .refl _ _ _⟩⟩)
    have hnext := ih (fun other hother => hlt other (mem_cons_of_mem _ hother)) hwithin
      hnonempty
    rw [hflat, append_nil, nil_append] at hlayer
    rw [foldl_cons, ← hnext]
    cases positions with
    | nil => exact absurd rfl hne
    | cons first others =>
      rw [map_cons, map_cons, DevMat.expandDims]
      simp only [map_cons, length_cons, length_map] at hlayer ⊢
      rw [hlayer]
      rfl

def devicesAt (layout : Layout) (rank : Nat) (mapping : DimMapping) : List Nat :=
  (positionsAlong layout.mesh.meshShape (layout.mesh.rankList.idxOf rank)
    (meshOrder layout.mesh.meshShape.length mapping)).map (layout.mesh.rankList.getD · 0)

theorem ShardLayout.devicesOf_eq (h : ShardLayout layout tensorMap placements shape)
    (hrank : rank ∈ layout.mesh.rankList) (hmapping : mapping ∈ tensorMap)
    (hsplit : Splittable mapping) :
    (replicateToLayout layout tensorMap).devicesOf rank layout.mesh.rankList mapping =
      .ok (devicesAt layout rank mapping) := by
  rw [devicesAt]
  have hlen := layout.mesh.ranks_ok
  have hentry := h.wellFormed.entry hmapping
  have hlt := meshOrder_lt h.wellFormed hmapping
  have hidx := idxOf_lt hrank
  rw [hsplit.usedAxes_eq] at hentry
  cases mapping with
  | axis axis =>
    have haxis := hentry axis mem_cons_self
    have hdim : ((layout.mesh.meshShape.length : Int) - 1 - axis) =
        (meshDimOf layout.mesh.meshShape.length axis : Nat) := by
      rw [meshDimOf_cast haxis]
      omega
    have hone := getDevicesAlongOneDim_ranks hlen hrank (meshDimOf_lt haxis)
    rw [meshOrder, hsplit.usedAxes_eq, DimMapping.mappedDims, map_singleton, positionsAlong,
      foldl_cons, foldl_nil, flatMap_singleton, RedistributionOperatorInfer.devicesOf]
    simp only [replicateToLayout, DevMat.getDevicesAlongDim, hdim, hone]
  | axes axes =>
    have hdims : (axes.map fun axis => (layout.mesh.meshShape.length : Int) - 1 - axis) =
        (meshOrder layout.mesh.meshShape.length (.axes axes)).map Nat.cast := by
      rw [meshOrder, hsplit.usedAxes_eq, DimMapping.mappedDims, map_map]
      refine map_congr_left fun axis haxis => ?_
      rw [Function.comp_apply, meshDimOf_cast (hentry axis haxis)]
      omega
    have hne : meshOrder layout.mesh.meshShape.length (.axes axes) ≠ [] := by
      rw [meshOrder, hsplit.usedAxes_eq]
      exact fun hnil => hsplit.1 (map_eq_nil_iff.mp hnil)
    rw [RedistributionOperatorInfer.devicesOf]
    simp only [replicateToLayout, hdims]
    generalize meshOrder layout.mesh.meshShape.length (.axes axes) = order at hlt hne ⊢
    cases order with
    | nil => exact absurd rfl hne
    | cons first others =>
      have hfirst := hlt first mem_cons_self
      have hone := getDevicesAlongOneDim_ranks hlen hrank hfirst
      have hrest := expandDims_ranks hlen h.ranks_nodup
        (fun other hother => hlt other (mem_cons_of_mem first hother))
        (fun other hother => ((mem_onAxis_iff hidx hfirst).mp hother).1)
        (ne_nil_of_mem ((mem_onAxis_iff hidx hfirst).mpr ⟨hidx, .refl _ _ _⟩))
      rw [map_cons, DevMat.getDevicesAlongDim, hone, positionsAlong, foldl_cons, flatMap_singleton]
      simp only [Bind.bind, Except.bind, hrest]

theorem ShardLayout.idxOf_devices (h : ShardLayout layout tensorMap placements shape)
    (hrank : rank ∈ layout.mesh.rankList) (hmapping : mapping ∈ tensorMap) :
    (devicesAt layout rank mapping)[partOrder layout (layout.mesh.rankList.idxOf rank) mapping]? =
        some rank ∧
      (devicesAt layout rank mapping).idxOf rank =
        partOrder layout (layout.mesh.rankList.idxOf rank) mapping := by
  rw [devicesAt]
  obtain ⟨⟨hnodup, hmem⟩, hget⟩ := positionsAlong_covers (idxOf_lt hrank)
    (meshOrder_lt h.wellFormed hmapping) (nodup_meshOrder h.wellFormed hmapping)
  have hpart : partOrder layout (layout.mesh.rankList.idxOf rank) mapping = MixedRadix.value
      ((meshOrder layout.mesh.meshShape.length mapping).map (layout.mesh.meshShape.getD · 0))
      ((meshOrder layout.mesh.meshShape.length mapping).map
        ((MixedRadix.digits layout.mesh.meshShape (layout.mesh.rankList.idxOf rank)).getD · 0)) := by
    have hcoordinate : coordinateOf layout (layout.mesh.rankList.idxOf rank) =
        ((MixedRadix.digits layout.mesh.meshShape (layout.mesh.rankList.idxOf rank)).getD · 0) :=
      funext fun meshDim => by rw [coordinateOf, calculateMeshCoordinateForRank_eq_digits]
    rw [partOrder, hcoordinate]
  rw [← hpart] at hget
  generalize positionsAlong layout.mesh.meshShape (layout.mesh.rankList.idxOf rank)
    (meshOrder layout.mesh.meshShape.length mapping) = positions at hnodup hmem hget ⊢
  have hranks : (positions.map (layout.mesh.rankList.getD · 0)).Nodup := by
    refine hnodup.map_on fun a ha b hb heq => ?_
    have hidx := congrArg layout.mesh.rankList.idxOf heq
    rwa [idxOf_getD h.ranks_nodup (layout.mesh.ranks_ok ▸ ((hmem a).mp ha).1),
      idxOf_getD h.ranks_nodup (layout.mesh.ranks_ok ▸ ((hmem b).mp hb).1)] at hidx
  have hself : (positions.map (layout.mesh.rankList.getD · 0))[partOrder layout
      (layout.mesh.rankList.idxOf rank) mapping]? = some rank := by
    rw [List.getElem?_map, hget, Option.map_some, getD_idxOf hrank]
  exact ⟨hself, idxOf_of_getElem? hranks hself⟩

end Devices

/-! ## The operations -/

section Operations

open RedistributionOperatorInfer

variable {layout : Layout} {tensorMap : TensorMap} {placements : List Placement}
  {shape : List Nat} {rank : Nat} {mapping : DimMapping}

def partCount (layout : Layout) (mapping : DimMapping) : Nat :=
  ((meshOrder layout.mesh.meshShape.length mapping).map (layout.mesh.meshShape.getD · 0)).prod

theorem readAt_meshDim {dims : List Nat} {axis : Int} (h : 0 ≤ axis ∧ axis < dims.length) :
    readAt dims (dims.length - 1 - axis) = .ok (dims.getD (meshDimOf dims.length axis) 0) := by
  have hget := pyGet?_meshDim dims 0 h
  have hindex : (dims.length : Int) - 1 - axis = dims.length - axis - 1 := by omega
  rw [readAt, hindex, hget]

theorem readAt_none (dims : List Nat) : readAt dims (dims.length - 1 - NONE) = .error .indexOutOfRange := by
  have hindex : (dims.length : Int) - 1 - NONE = (dims.length : Nat) := by
    rw [NONE]
    omega
  rw [readAt, hindex, pyGet?_natCast, getElem?_eq_none le_rfl]

theorem ShardLayout.getDimByReverseIdx_eq (h : ShardLayout layout tensorMap placements shape)
    (hmapping : mapping ∈ tensorMap) (hsplit : Splittable mapping) :
    getDimByReverseIdx ⟨layout.mesh.meshShape⟩ mapping = .ok (partCount layout mapping) := by
  have hentry := h.wellFormed.entry hmapping
  rw [hsplit.usedAxes_eq] at hentry
  rw [partCount, meshOrder, hsplit.usedAxes_eq, map_map]
  cases mapping with
  | axis axis =>
    rw [getDimByReverseIdx]
    dsimp only
    rw [readAt_meshDim (hentry axis mem_cons_self), DimMapping.mappedDims,
      map_singleton, prod_singleton, Function.comp_apply]
  | axes axes =>
    have hsizes : axes.mapM (fun axis => readAt layout.mesh.meshShape
        (layout.mesh.meshShape.length - 1 - axis)) = .ok (axes.map fun axis =>
          layout.mesh.meshShape.getD (meshDimOf layout.mesh.meshShape.length axis) 0) :=
      mapM_eq_ok fun axis haxis => readAt_meshDim (hentry axis haxis)
    rw [getDimByReverseIdx]
    dsimp only
    rw [hsizes]
    rfl

theorem getDimByReverseIdx_of_none {meshShape : MeshShape} (hne : NONE ∈ mapping.mappedDims)
    (devNum : Nat) : getDimByReverseIdx ⟨meshShape⟩ mapping ≠ .ok devNum := by
  intro hok
  cases mapping with
  | axis axis =>
    obtain rfl : NONE = axis := mem_singleton.mp hne
    rw [getDimByReverseIdx] at hok
    dsimp only at hok
    rw [readAt_none] at hok
    cases hok
  | axes axes =>
    obtain ⟨sizes, hsizes, -⟩ := bind_eq_ok hok
    obtain ⟨size, -, hsize⟩ := exists_of_forall₂_left (mapM_eq_ok_iff.mp hsizes) hne
    dsimp only at hsize
    rw [readAt_none] at hsize
    cases hsize

def splitAt (layout : Layout) (entry : DimMapping × Nat) : Option Operator :=
  if entry.1 = .axis NONE then none
  else some (.splitByAxis entry.2 entry.1 (partCount layout entry.1))

def resultOf (layout : Layout) (rank : Nat) : Operator → Option Operation
  | .splitByAxis dim axes devNum =>
    if devNum = 1 then none else some (.allSplit dim devNum (devicesAt layout rank axes))
  | _ => none

def operationAt (layout : Layout) (rank : Nat) (entry : DimMapping × Nat) : Option Operation :=
  (splitAt layout entry).bind (resultOf layout rank)

theorem getDimByIdx_natCast {dim : Nat} (hget : tensorMap[dim]? = some mapping) :
    getDimByIdx tensorMap dim = .ok mapping := by
  obtain ⟨hlt, -⟩ := List.getElem?_eq_some_iff.mp hget
  rw [getDimByIdx, if_pos (by omega), readAt, pyGet?_natCast, hget]

theorem ShardLayout.splitOperator_eq (h : ShardLayout layout tensorMap placements shape)
    {entry : DimMapping × Nat} (hentry : entry ∈ tensorMap.zipIdx)
    (hsplit : entry.1 = .axis NONE ∨ Splittable entry.1) :
    (replicateToLayout layout tensorMap).splitOperator entry.2 = .ok (splitAt layout entry) := by
  have hget : tensorMap[entry.2]? = some entry.1 := mem_zipIdx_iff_getElem?.mp hentry
  rw [splitOperator, replicateToLayout, getDimByIdx_natCast hget, splitAt]
  simp only [Bind.bind, Except.bind]
  by_cases hnone : entry.1 = .axis NONE
  · rw [if_pos hnone, if_pos hnone]
  · rw [if_neg hnone, if_neg hnone,
      h.getDimByReverseIdx_eq (mem_of_getElem? hget) (hsplit.resolve_left hnone)]

theorem map_range_zipIdx (tensorMap : TensorMap) :
    ((range tensorMap.length).map Nat.cast : List Int) =
      tensorMap.zipIdx.map fun entry => (entry.2 : Int) := by
  have hsnd : tensorMap.zipIdx.map Prod.snd = range tensorMap.length := by
    rw [zipIdx_map_snd, range_eq_range']
  rw [← hsnd, map_map]
  rfl

theorem ShardLayout.inferOpsList_eq (h : ShardLayout layout tensorMap placements shape)
    (hrank : rank ∈ layout.mesh.rankList)
    (hsplit : ∀ mapping ∈ tensorMap, mapping = .axis NONE ∨ Splittable mapping) (fuel : Nat) :
    (replicateToLayout layout tensorMap).inferOpsList (fuel + 1) rank layout.mesh.rankList =
      .ok (tensorMap.zipIdx.filterMap (operationAt layout rank)) := by
  have hnone : ∀ dim ∈ (replicateToLayout layout tensorMap).inTensorMap, dim = .axis NONE := by
    intro dim hdim
    obtain ⟨_, -, rfl⟩ := mem_map.mp hdim
    rfl
  have hlength : (replicateToLayout layout tensorMap).inTensorMap.length = tensorMap.length :=
    length_map _
  rw [inferOpsList_blank hnone, hlength, map_range_zipIdx]
  refine ⟨tensorMap.zipIdx.map (splitAt layout), _, ?_, mapM_eq_ok (g := resultOf layout rank)
    fun operator hoperator => ?_, ?_⟩
  · rw [mapM_eq_ok_iff, forall₂_map_left_iff, forall₂_map_right_iff, forall₂_same]
    exact fun entry hentry =>
      h.splitOperator_eq hentry (hsplit _ (fst_mem_of_mem_zipIdx hentry))
  · obtain ⟨operator', hmem, hid⟩ := mem_filterMap.mp hoperator
    obtain ⟨entry, hentry, rfl⟩ := mem_map.mp hmem
    have hmapping := fst_mem_of_mem_zipIdx hentry
    rw [id, splitAt] at hid
    split at hid
    · cases hid
    · rename_i hne
      cases hid
      rw [operationOf, h.devicesOf_eq hrank hmapping ((hsplit _ hmapping).resolve_left hne)]
      rfl
  · rw [filterMap_map, ← filterMap_eq_map, filterMap_filterMap, filterMap_filterMap]
    refine filterMap_congr fun entry _ => ?_
    rw [operationAt, Function.comp_apply]
    cases splitAt layout entry <;> rfl

theorem inferOpsList_ne_ok (hmapping : mapping ∈ tensorMap) (hne : mapping ≠ .axis NONE)
    (hsplit : ¬ Splittable mapping) (fuel : Nat) (operations : List Operation) :
    (replicateToLayout layout tensorMap).inferOpsList fuel rank layout.mesh.rankList ≠
      .ok operations := by
  intro hok
  have hnone : ∀ dim ∈ (replicateToLayout layout tensorMap).inTensorMap, dim = .axis NONE := by
    intro dim hdim
    obtain ⟨_, -, rfl⟩ := mem_map.mp hdim
    rfl
  have hlength : (replicateToLayout layout tensorMap).inTensorMap.length = tensorMap.length :=
    length_map _
  obtain ⟨dim, hdim, hget⟩ := getElem_of_mem hmapping
  have hget : tensorMap[dim]? = some mapping := by rw [getElem?_eq_getElem hdim, hget]
  cases fuel with
  | zero =>
    have hkeys : (replicateToLayout layout tensorMap).init.map.keys ≠ [] := by
      rw [(blank_init hnone).keys_eq, hlength]
      intro hnil
      have hzero := congrArg List.length hnil
      rw [length_map, length_range] at hzero
      exact absurd hzero (Nat.ne_of_gt (Nat.zero_lt_of_lt hdim))
    rw [inferOpsList, inferRedistributionOperator, inferLoop, if_neg hkeys] at hok
    cases hok
  | succ fuel =>
    obtain ⟨operators, results, hoperators, hresults, -⟩ := (inferOpsList_blank hnone _ _ _).mp hok
    rw [hlength] at hoperators
    obtain ⟨operator, hoperator, hsplitOp⟩ := exists_of_forall₂_left (mapM_eq_ok_iff.mp hoperators)
      (mem_map_of_mem (mem_range.mpr hdim))
    rw [splitOperator, replicateToLayout, getDimByIdx_natCast hget] at hsplitOp
    simp only [Bind.bind, Except.bind] at hsplitOp
    rw [if_neg hne] at hsplitOp
    cases hdev : getDimByReverseIdx ⟨layout.mesh.meshShape⟩ mapping with
    | error error =>
      rw [hdev] at hsplitOp
      cases hsplitOp
    | ok devNum =>
      rw [hdev] at hsplitOp
      cases hsplitOp
      -- no mark inside, so the tuple has no axes
      have hmark : NONE ∉ mapping.mappedDims := fun hmem =>
        getDimByReverseIdx_of_none hmem devNum hdev
      have hempty : mapping = .axes [] := by
        cases mapping with
        | axis axis => exact absurd ⟨cons_ne_nil _ _, hmark⟩ hsplit
        | axes axes =>
          by_contra hcons
          exact hsplit ⟨fun hnil => hcons (congrArg _ hnil), hmark⟩
      subst hempty
      obtain ⟨result, -, hresult⟩ := exists_of_forall₂_left (mapM_eq_ok_iff.mp hresults)
        (mem_filterMap.mpr ⟨_, hoperator, rfl⟩)
      cases hresult

end Operations

/-! ## The run -/

section Run

open RedistributionOperatorInfer (Operation)

variable {layout : Layout} {tensorMap : TensorMap} {placements : List Placement}
  {shape : List Nat} {rank : Nat}

def splitRange (layout : Layout) (rankId : Nat) (entry : Nat × DimMapping) : Option (Nat × Nat) :=
  if entry.2 = .axis NONE ∨ partCount layout entry.2 = 1 then some (0, entry.1)
  else (chunkRanges entry.1 (partCount layout entry.2))[partOrder layout rankId entry.2]?

theorem operationAt_eq (layout : Layout) (rank : Nat) (entry : DimMapping × Nat) :
    operationAt layout rank entry =
      if entry.1 = .axis NONE ∨ partCount layout entry.1 = 1 then none
      else some (.allSplit entry.2 (partCount layout entry.1) (devicesAt layout rank entry.1)) := by
  rw [operationAt, splitAt]
  by_cases hnone : entry.1 = .axis NONE
  · rw [if_pos hnone, if_pos (.inl hnone)]
    rfl
  · rw [if_neg hnone, Option.bind_some, resultOf]
    by_cases hone : partCount layout entry.1 = 1
    · rw [if_pos hone, if_pos (.inr hone)]
    · rw [if_neg hone, if_neg (not_or.mpr ⟨hnone, hone⟩)]

theorem ShardLayout.constructAllSplit_eq (h : ShardLayout layout tensorMap placements shape)
    (hrank : rank ∈ layout.mesh.rankList) {mapping : DimMapping} (hmapping : mapping ∈ tensorMap)
    (done rest : Box) (size count : Nat) :
    constructAllSplit rank (done ++ (0, size) :: rest) done.length count
        (devicesAt layout rank mapping) =
      match (chunkRanges size count)[partOrder layout (layout.mesh.rankList.idxOf rank) mapping]? with
      | none => .error .chunkOutOfRange
      | some range => .ok (done ++ range :: rest) := by
  obtain ⟨hself, hindex⟩ := h.idxOf_devices hrank hmapping
  have hget : (done ++ (0, size) :: rest)[done.length]? = some (0, size) := by simp
  rw [constructAllSplit, if_pos (mem_of_getElem? hself), chunk_eq hget]
  simp only [Bind.bind, Except.bind, List.getElem?_map]
  rw [hindex, Nat.sub_zero]
  cases (chunkRanges size count)[partOrder layout (layout.mesh.rankList.idxOf rank) mapping]? with
  | none => rfl
  | some range => simp

theorem ShardLayout.foldlM_split (h : ShardLayout layout tensorMap placements shape)
    (hrank : rank ∈ layout.mesh.rankList) (others : Operation → Box → Except ProducerError Box)
    {entries : List (Nat × DimMapping)} (hentries : ∀ entry ∈ entries, entry.2 ∈ tensorMap)
    (done box : Box) :
    (((entries.map Prod.snd).zipIdx done.length).filterMap (operationAt layout rank)).foldlM
        (constructOperator others rank) (done ++ entries.map fun entry => (0, entry.1)) = .ok box ↔
      ∃ ranges, Forall₂ (fun entry range =>
        splitRange layout (layout.mesh.rankList.idxOf rank) entry = some range) entries ranges ∧
          box = done ++ ranges := by
  induction entries generalizing done with
  | nil =>
    constructor
    · intro hok
      exact ⟨[], .nil, (Except.ok.inj hok).symm⟩
    · rintro ⟨ranges, hranges, rfl⟩
      cases hranges
      rfl
  | cons entry entries ih =>
    have hmapping := hentries entry mem_cons_self
    have hnext : ∀ range, (((entries.map Prod.snd).zipIdx (done.length + 1)).filterMap
        (operationAt layout rank)).foldlM (constructOperator others rank)
          (done ++ range :: entries.map fun entry => (0, entry.1)) = .ok box ↔
        ∃ ranges, Forall₂ (fun entry range =>
          splitRange layout (layout.mesh.rankList.idxOf rank) entry = some range) entries ranges ∧
            box = done ++ range :: ranges := by
      intro range
      have hstep := ih (fun other hother => hentries other (mem_cons_of_mem _ hother))
        (done ++ [range])
      simpa using hstep
    have hcons : ∀ range, splitRange layout (layout.mesh.rankList.idxOf rank) entry = some range →
        ((∃ ranges, Forall₂ (fun entry range =>
          splitRange layout (layout.mesh.rankList.idxOf rank) entry = some range) entries ranges ∧
            box = done ++ range :: ranges) ↔
        ∃ ranges, Forall₂ (fun entry range =>
          splitRange layout (layout.mesh.rankList.idxOf rank) entry = some range)
            (entry :: entries) ranges ∧ box = done ++ ranges) := by
      intro range hrange
      constructor
      · rintro ⟨ranges, hranges, rfl⟩
        exact ⟨_, .cons hrange hranges, rfl⟩
      · rintro ⟨_, _ | ⟨hfirst, hranges⟩, rfl⟩
        rw [hrange] at hfirst
        exact ⟨_, hranges, by rw [Option.some.inj hfirst]⟩
    rw [map_cons, map_cons, zipIdx_cons, filterMap_cons, operationAt_eq]
    by_cases hwhole : entry.2 = .axis NONE ∨ partCount layout entry.2 = 1
    · rw [if_pos hwhole]
      exact (hnext _).trans (hcons _ (if_pos hwhole))
    · rw [if_neg hwhole]
      dsimp only
      rw [foldlM_cons, constructOperator, h.constructAllSplit_eq hrank hmapping]
      cases hrange : (chunkRanges entry.1 (partCount layout entry.2))[partOrder layout
          (layout.mesh.rankList.idxOf rank) entry.2]? with
      | none =>
        constructor
        · intro hok
          cases hok
        · rintro ⟨_, _ | ⟨hfirst, -⟩, -⟩
          rw [splitRange, if_neg hwhole, hrange] at hfirst
          cases hfirst
      | some range => exact (hnext range).trans (hcons range ((if_neg hwhole).trans hrange))

theorem redistributeReplicated_zero (hlength : tensorMap.length = shape.length)
    {others : Operation → Box → Except ProducerError Box} {box : Box}
    (hrun : redistributeReplicated others 0 layout tensorMap shape rank = .ok box) :
    tensorMap = [] ∧ shape = [] ∧ box = [] := by
  have hnone : ∀ dim ∈ (replicateToLayout layout tensorMap).inTensorMap, dim = .axis NONE := by
    intro dim hdim
    obtain ⟨_, -, rfl⟩ := mem_map.mp hdim
    rfl
  cases tensorMap with
  | cons mapping tensorMap =>
    have hkeys : (replicateToLayout layout (mapping :: tensorMap)).init.map.keys ≠ [] := by
      rw [(RedistributionOperatorInfer.blank_init hnone).keys_eq]
      exact fun hnil => absurd (congrArg List.length hnil) (by simp [replicateToLayout])
    rw [redistributeReplicated, RedistributionOperatorInfer.inferOpsList,
      RedistributionOperatorInfer.inferRedistributionOperator,
      RedistributionOperatorInfer.inferLoop, if_neg hkeys] at hrun
    split at hrun <;> cases hrun
  | nil =>
    obtain rfl := eq_nil_of_length_eq_zero hlength.symm
    rw [redistributeReplicated] at hrun
    split at hrun
    · cases hrun
    · cases hrun
      exact ⟨rfl, rfl, rfl⟩

theorem ShardLayout.redistributeReplicated_iff (h : ShardLayout layout tensorMap placements shape)
    (hrank : rank ∈ layout.mesh.rankList) (others : Operation → Box → Except ProducerError Box)
    (huneven : unevenShardMeshDims layout.placements = []) (box : Box) :
    (∃ fuel, redistributeReplicated others fuel layout tensorMap shape rank = .ok box) ↔
      (∀ mapping ∈ tensorMap, mapping = .axis NONE ∨ Splittable mapping) ∧
        Forall₂ (fun entry range =>
          splitRange layout (layout.mesh.rankList.idxOf rank) entry = some range)
            (shape.zip tensorMap) box := by
  have hfst : (shape.zip tensorMap).map (fun entry => ((0 : Nat), entry.1)) = wholeBox shape := by
    have hmap := congrArg (List.map fun size => ((0 : Nat), size))
      (@map_fst_zip _ _ shape tensorMap h.length_eq.ge)
    rwa [map_map] at hmap
  have hsnd : (shape.zip tensorMap).map Prod.snd = tensorMap := map_snd_zip h.length_eq.le
  have hentries : ∀ entry ∈ shape.zip tensorMap, entry.2 ∈ tensorMap :=
    fun entry hentry => (of_mem_zip hentry).2
  have hfold := h.foldlM_split hrank others hentries [] box
  simp only [hsnd, hfst, nil_append, length_nil] at hfold
  constructor
  · rintro ⟨fuel, hrun⟩
    have hsplit : ∀ mapping ∈ tensorMap, mapping = .axis NONE ∨ Splittable mapping := by
      intro mapping hmapping
      by_contra hnot
      rw [not_or] at hnot
      rw [redistributeReplicated, if_neg (not_not.mpr huneven)] at hrun
      split at hrun
      · cases hrun
      · rename_i operations hops
        exact inferOpsList_ne_ok hmapping hnot.1 hnot.2 fuel operations hops
    refine ⟨hsplit, ?_⟩
    cases fuel with
    | zero =>
      obtain ⟨rfl, rfl, rfl⟩ := redistributeReplicated_zero h.length_eq hrun
      exact .nil
    | succ fuel =>
      rw [redistributeReplicated, if_neg (not_not.mpr huneven),
        h.inferOpsList_eq hrank hsplit fuel] at hrun
      obtain ⟨ranges, hranges, rfl⟩ := hfold.mp hrun
      exact hranges
  · rintro ⟨hsplit, hranges⟩
    refine ⟨1, ?_⟩
    rw [redistributeReplicated, if_neg (not_not.mpr huneven), h.inferOpsList_eq hrank hsplit 0]
    exact hfold.mpr ⟨box, hranges, rfl⟩

end Run

end HyperParallel.Redistribution
