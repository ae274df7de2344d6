import HyperParallel.Shard.ReshapeRun

/-!
# What a reshape refuses

The walk moves its cursor below zero and reads the groups from their end there.
That stays in range unless there is a single group of one element; a rank of zero
has no group at all.
-/

namespace HyperParallel.Shard

open Foundation DTensor List

/-! ## The last group -/

variable {dims : List MappedDim}

theorem foldr_mergeInto_unsharded (h : ∀ dim ∈ dims, dim.2 = .axis NONE) :
    dims.foldr mergeInto (1, []) = ((dims.map Prod.fst).prod, []) := by
  induction dims with
  | nil => rfl
  | cons dim dims ih =>
    rw [foldr_cons, ih fun other hother => h other (mem_cons_of_mem dim hother), mergeInto,
      if_neg (not_not.mpr (h dim mem_cons_self)), map_cons, prod_cons, Nat.mul_comm]

theorem mergedGroups_unsharded (hne : dims ≠ []) (h : ∀ dim ∈ dims, dim.2 = .axis NONE) :
    mergedGroups dims = [((dims.map Prod.fst).prod, .axis NONE)] := by
  cases dims with
  | nil => exact absurd rfl hne
  | cons dim dims =>
    rw [mergedGroups, foldr_mergeInto_unsharded h]
    exact if_pos (h dim mem_cons_self)

theorem foldr_mergeInto_ne_nil (h : ∃ dim ∈ dims, dim.2 ≠ .axis NONE) :
    (dims.foldr mergeInto (1, [])).2 ≠ [] := by
  induction dims with
  | nil => simp at h
  | cons dim dims ih =>
    rw [foldr_cons, mergeInto]
    by_cases hnone : dim.2 = .axis NONE
    · rw [if_neg (not_not.mpr hnone)]
      obtain ⟨other, hother, hne⟩ := h
      rcases mem_cons.mp hother with rfl | hmem
      · exact absurd hnone hne
      · exact ih ⟨other, hmem, hne⟩
    · rw [if_pos hnone]
      exact cons_ne_nil _ _

theorem last_mergedGroups_ne_none {front : List MappedDim} {group : MappedDim}
    (hpos : ∀ dim ∈ dims, 0 < dim.1) (hgroups : mergedGroups dims = front ++ [group])
    (h : ∃ dim ∈ dims, dim.2 ≠ .axis NONE) : group.2 ≠ .axis NONE := by
  have hled := (foldr_mergeInto_groups hpos).2
  have hne := foldr_mergeInto_ne_nil h
  obtain ⟨others, last, hlast⟩ : ∃ others last, (dims.foldr mergeInto (1, [])).2 = others ++ [last] := by
    rcases eq_nil_or_concat (dims.foldr mergeInto (1, [])).2 with hnil | ⟨others, last, hlast⟩
    · exact absurd hnil hne
    · exact ⟨others, last, by rw [hlast, concat_eq_append]⟩
  have hsame : group = last := by
    cases dims with
    | nil => exact absurd rfl hne
    | cons dim dims =>
      rw [mergedGroups] at hgroups
      split at hgroups
      · rw [hlast, ← cons_append] at hgroups
        exact (singleton_inj.mp (append_inj_right' hgroups rfl)).symm
      · rw [hlast] at hgroups
        exact (singleton_inj.mp (append_inj_right' hgroups rfl)).symm
  rw [hsame]
  exact (hled last (by rw [hlast]; simp)).2.1

/-! ## How the walk ends -/

section Walk

variable {request : ReshapeRequest} {groups : List MappedDim}

theorem walk_sharded_one (hgroups : GroupsOk request.meshShape groups) {front : List MappedDim}
    {group : MappedDim} (hsplit : groups = front ++ [group]) (hne : group.2 ≠ .axis NONE)
    (hone : group.1 = 1) {rdst : List Nat} (hrdst : rdst ≠ []) (hpos : ∀ size ∈ rdst, 0 < size)
    (out : TensorMap) :
    request.walk (groupSizes groups) (groupMaps groups) (rdst.map Nat.cast) front.length group.1 out =
      .error request.cannotReshape := by
  cases rdst with
  | nil => exact absurd rfl hrdst
  | cons size rest =>
    have hsize := hpos size mem_cons_self
    rw [map_cons, walk_cons groups hsize]
    by_cases hdvd : size ∣ group.1
    · have hsizeOne : size = 1 := Nat.dvd_one.mp (hone ▸ hdvd)
      have hnot : ¬ Completes request.meshShape group.2 size := by
        intro hcompletes
        have htwo := hgroups.sharded group (by rw [hsplit]; simp) hne
        have hle := Nat.le_of_dvd hsize (hcompletes hne)
        omega
      have herror := (completeGroup_of_readAt hgroups (readAt_groupMaps hsplit) hsize).resolve_left
        fun h => hnot h.1
      rw [if_neg (not_not.mpr hdvd), if_pos (by rw [hone, hsizeOne]), herror.2]
      rfl
    · rw [if_pos hdvd]

theorem walk_one_overrun (n : Nat) (out : TensorMap) :
    request.walk (groupSizes [(1, .axis NONE)]) (groupMaps [(1, .axis NONE)])
      ((replicate (n + 2) 1).map (Nat.cast : Nat → Int)) 0 1 out = .error .indexOutOfRange := by
  rw [replicate_succ, replicate_succ, map_cons, map_cons]
  rfl

theorem Reached.entryOk (hgroups : GroupsOk request.meshShape groups) {dst : List Nat}
    {maps : TensorMap} (h : Reached request.meshShape groups dst maps) {mapping : DimMapping}
    (hmapping : mapping ∈ maps) : EntryOk request.meshShape.length mapping := by
  by_cases hnone : mapping = .axis NONE
  · intro axis haxis
    rw [hnone] at haxis
    exact .inl (mem_singleton.mp haxis)
  · obtain ⟨unvisited, visited, hsplit, -, hmaps, -⟩ := h.visited
    have hmem : mapping ∈ shardMaps maps := mem_filter.mpr ⟨hmapping, by simpa using hnone⟩
    rw [hmaps] at hmem
    obtain ⟨group, hgroup, rfl⟩ := mem_map.mp (mem_filter.mp hmem).1
    exact hgroups.entry group (by rw [hsplit]; exact mem_append_right _ hgroup)

end Walk

section Run

variable {xLayout : Layout} {tensorMap : TensorMap} {shape target : List Nat}
  {front : List MappedDim} {group : MappedDim}

theorem prod_front (h : LayoutOf xLayout tensorMap shape) (hprod : target.prod = shape.prod)
    (hgroups : groupsOf xLayout.mesh.meshShape tensorMap shape = front ++ [group]) :
    target.reverse.prod = (front.map Prod.fst).prod * group.1 := by
  rw [prod_reverse, hprod, ← prod_groupsOf h, hgroups]
  simp

theorem walkOf_reached (h : LayoutOf xLayout tensorMap shape) (hshape : ∀ size ∈ shape, 0 < size)
    (htarget : ∀ size ∈ target, 0 < size) (hprod : target.prod = shape.prod)
    (hgroups : groupsOf xLayout.mesh.meshShape tensorMap shape = front ++ [group]) {maps : TensorMap}
    (hwalk : walkOf xLayout.mesh.meshShape tensorMap shape target front.length group.1 = .ok maps) :
    Reached xLayout.mesh.meshShape (groupsOf xLayout.mesh.meshShape tensorMap shape) target maps ∧
      ∀ (count index : DimMapping → Nat), count (.axis NONE) = 1 → index (.axis NONE) = 0 →
        OnesPlain count index (groupsOf xLayout.mesh.meshShape tensorMap shape) →
          CutShape.Regroup ((target.zip maps).map (cutOf count index))
            ((groupsOf xLayout.mesh.meshShape tensorMap shape).map (cutOf count index)) := by
  have hok := groupsOf_ok h hshape
  have hgroupPos := hok.size_pos group (by rw [hgroups]; simp)
  obtain ⟨found, hfound, hreached, hregroup⟩ := walk_regroup hok
    (fun size hsize => htarget size (mem_reverse.mp hsize)) hgroups [] hgroupPos
    (prod_front h hprod hgroups) (by simp) (fun _ => rfl) hwalk
  rw [append_nil] at hfound
  subst hfound
  rw [reverse_reverse] at hreached hregroup
  refine ⟨by rw [hgroups]; exact hreached, fun count index hcount hindex hplain => ?_⟩
  have hall := hregroup count index hcount hindex hplain [] .nil
  simpa using hall

theorem filteredDims_pos (h : LayoutOf xLayout tensorMap shape) (hshape : ∀ size ∈ shape, 0 < size) :
    ∀ dim ∈ filteredDims xLayout.mesh.meshShape tensorMap shape, 0 < dim.1 :=
  fun dim hdim => hshape dim.1 (fst_filteredDims h ▸ List.mem_map_of_mem hdim)

def Unmapped (meshShape : MeshShape) (tensorMap : TensorMap) : Prop :=
  ∀ mapping ∈ tensorMap, filteredEntry meshShape mapping = .axis NONE

theorem groupsOf_unmapped (h : LayoutOf xLayout tensorMap shape) (hne : shape ≠ [])
    (hunmapped : Unmapped xLayout.mesh.meshShape tensorMap) :
    groupsOf xLayout.mesh.meshShape tensorMap shape = [(shape.prod, .axis NONE)] := by
  have hdims : filteredDims xLayout.mesh.meshShape tensorMap shape ≠ [] := by
    intro hnil
    have hfst := fst_filteredDims h
    rw [hnil] at hfst
    exact hne hfst.symm
  have hnone : ∀ dim ∈ filteredDims xLayout.mesh.meshShape tensorMap shape, dim.2 = .axis NONE := by
    intro dim hdim
    have hmem := mem_map_of_mem hdim (f := Prod.snd)
    rw [snd_filteredDims h] at hmem
    obtain ⟨mapping, hmapping, hfiltered⟩ := mem_map.mp hmem
    rw [← hfiltered]
    exact hunmapped mapping hmapping
  rw [groupsOf, mergedGroups_unsharded hdims hnone, fst_filteredDims h]

theorem last_groupsOf_ne_none (h : LayoutOf xLayout tensorMap shape)
    (hshape : ∀ size ∈ shape, 0 < size) (hmapped : ¬ Unmapped xLayout.mesh.meshShape tensorMap)
    (hgroups : groupsOf xLayout.mesh.meshShape tensorMap shape = front ++ [group]) :
    group.2 ≠ .axis NONE := by
  refine last_mergedGroups_ne_none (filteredDims_pos h hshape) hgroups ?_
  obtain ⟨mapping, hmapping, hne⟩ : ∃ mapping ∈ tensorMap,
      filteredEntry xLayout.mesh.meshShape mapping ≠ .axis NONE := by
    by_contra hall
    exact hmapped fun mapping hmapping => by_contra fun hne => hall ⟨mapping, hmapping, hne⟩
  have hmem : filteredEntry xLayout.mesh.meshShape mapping ∈
      (filteredDims xLayout.mesh.meshShape tensorMap shape).map Prod.snd := by
    rw [snd_filteredDims h]
    exact mem_map_of_mem hmapping
  obtain ⟨dim, hdim, hsnd⟩ := mem_map.mp hmem
  exact ⟨dim, hdim, by rwa [hsnd]⟩

/-- A single element in no sharded dimension, and two dimensions or more for it. -/
def Overruns (meshShape : MeshShape) (tensorMap : TensorMap) (shape target : List Nat) : Prop :=
  shape.prod = 1 ∧ Unmapped meshShape tensorMap ∧ 2 ≤ target.length

theorem walkOf_overruns (h : LayoutOf xLayout tensorMap shape) (hne : shape ≠ [])
    (hprod : target.prod = shape.prod)
    (hoverruns : Overruns xLayout.mesh.meshShape tensorMap shape target)
    (hgroups : groupsOf xLayout.mesh.meshShape tensorMap shape = front ++ [group]) :
    walkOf xLayout.mesh.meshShape tensorMap shape target front.length group.1 =
      .error .indexOutOfRange := by
  obtain ⟨hone, hunmapped, htwo⟩ := hoverruns
  have hsingle := groupsOf_unmapped h hne hunmapped
  rw [hone] at hsingle
  have hfront : front = [] ∧ group = (1, .axis NONE) := by
    rw [hsingle] at hgroups
    cases front with
    | nil => exact ⟨rfl, (singleton_inj.mp hgroups).symm⟩
    | cons first front => simp at hgroups
  obtain ⟨rfl, rfl⟩ := hfront
  have hones := eq_replicate_of_prod (hprod.trans hone)
  obtain ⟨n, hn⟩ := Nat.exists_eq_add_of_le' htwo
  rw [walkOf, hsingle, hones, hn, reverse_replicate]
  exact walk_one_overrun n []

theorem walkOf_error (h : LayoutOf xLayout tensorMap shape) (hshape : ∀ size ∈ shape, 0 < size)
    (hne : shape ≠ []) (htarget : ∀ size ∈ target, 0 < size) (hprod : target.prod = shape.prod)
    (hfits : ¬ Overruns xLayout.mesh.meshShape tensorMap shape target)
    (hgroups : groupsOf xLayout.mesh.meshShape tensorMap shape = front ++ [group])
    {error : ReshapeError}
    (hwalk : walkOf xLayout.mesh.meshShape tensorMap shape target front.length group.1 =
      .error error) :
    error = (requestOf xLayout.mesh.meshShape tensorMap shape target).cannotReshape := by
  have hok := groupsOf_ok h hshape
  have hreverse : ∀ size ∈ target.reverse, 0 < size :=
    fun size hsize => htarget size (mem_reverse.mp hsize)
  have hgroupPos := hok.size_pos group (by rw [hgroups]; simp)
  by_cases hone : group.1 = 1
  · by_cases hunmapped : Unmapped xLayout.mesh.meshShape tensorMap
    · -- One element, at most one dimension for it.
      have hsingle := groupsOf_unmapped h hne hunmapped
      have hfront : front = [] ∧ group = (shape.prod, .axis NONE) := by
        rw [hsingle] at hgroups
        cases front with
        | nil => exact ⟨rfl, (singleton_inj.mp hgroups).symm⟩
        | cons first front => simp at hgroups
      obtain ⟨rfl, rfl⟩ := hfront
      have hones := eq_replicate_of_prod (hprod.trans hone)
      have hlt : target.length < 2 := Nat.lt_of_not_le fun htwo => hfits ⟨hone, hunmapped, htwo⟩
      rw [walkOf, hsingle, hone, hones, reverse_replicate] at hwalk
      have hlength : target.length = 0 ∨ target.length = 1 := by omega
      rcases hlength with hzero | hsingleDim
      · rw [hzero] at hwalk
        cases hwalk
      · rw [hsingleDim] at hwalk
        cases hwalk
    · have hsharded := last_groupsOf_ne_none h hshape hunmapped hgroups
      rcases eq_nil_or_concat target with rfl | hcons
      · cases hwalk
      · have hnonempty : target.reverse ≠ [] := by
          obtain ⟨others, last, rfl⟩ := hcons
          simp
        have hrefused := @walk_sharded_one
          (requestOf xLayout.mesh.meshShape tensorMap shape target) _ hok front group hgroups
          hsharded hone _ hnonempty hreverse []
        exact Except.error.inj (hwalk.symm.trans hrefused)
  · exact @walk_error (requestOf xLayout.mesh.meshShape tensorMap shape target) _ hok front group
      hgroups hone _ hreverse front [] group hgroups _ hgroupPos (prod_front h hprod hgroups) [] error
      hwalk

/-! ## What is returned -/

/-- No dimension of the input is cut. -/
def Unsharded (meshShape : MeshShape) (tensorMap : TensorMap) : Prop :=
  ∀ mapping ∈ tensorMap, splitCount meshShape mapping = 1

/-- Nothing is sharded; what reductions are pending were pending on the input. -/
structure Replicated (xLayout : Layout) (rank : Nat) (out : Layout) : Prop where
  mesh_eq : out.mesh = xLayout.mesh
  map_eq : out.tensorMap = some (List.replicate rank (.axis NONE))
  placed : ∃ placements, out.placements = some placements ∧ ∀ (i : Nat) placement,
    placements[i]? = some placement → placement = .replicate ∨
      ∃ op, xLayout.partialOps[i]? = some (some op) ∧ placement = .partialReduce op

theorem flatMap_dimsOf_replicate (names : List String) (n : Nat) :
    (replicate n (.axis NONE)).flatMap (dimsOf names) = [] := by
  rw [flatMap_eq_nil_iff]
  intro mapping hmapping
  rw [eq_of_mem_replicate hmapping]
  rfl

theorem map_readMap_replicate (names : List String) (n : Nat) :
    (replicate n (.axis NONE)).map (readMap names) = replicate n (.axis NONE) := by
  rw [map_replicate]
  rfl

theorem entryOk_replicate {meshNdim n : Nat} {mapping : DimMapping}
    (h : mapping ∈ replicate n (.axis NONE)) : EntryOk meshNdim mapping := by
  intro axis haxis
  rw [eq_of_mem_replicate h] at haxis
  exact .inl (mem_singleton.mp haxis)

/-- An unsharded map is written as a replicated layout when the pending reductions are supported. -/
theorem writeOut_replicate_iff (py : PyStr) {names : List String}
    (hnames : xLayout.mesh.meshDimNames = some names) (hmesh : 0 < names.length) (target : List Nat) :
    (∃ out localShape, writeOut py xLayout names target
        (replicate target.length (.axis NONE)) = .ok (out, localShape) ∧
        Replicated xLayout target.length out) ↔
      TakesOver names (replicate target.length (.axis NONE)) xLayout := by
  have hcases := @writeOut_carries xLayout names py hnames hmesh target
    (replicate target.length (.axis NONE)) fun mapping => entryOk_replicate
  rw [map_readMap_replicate, flatMap_dimsOf_replicate] at hcases
  rcases hcases with ⟨-, htakes, out, hout, hcarries, hops⟩ | ⟨hnot, error, herror, -⟩
  · refine ⟨fun _ => htakes, fun _ => ⟨out, _, hout, hcarries.mesh_eq, hcarries.map_eq, ?_⟩⟩
    obtain ⟨placements, hplacements, hplaced⟩ := hcarries.placed
    refine ⟨placements, hplacements, fun i placement hget => ?_⟩
    rcases hplaced i placement hget with hreplicate | ⟨op, hop, hpartial⟩ | hshard
    · exact .inl hreplicate
    · exact .inr ⟨op, hops i op hop, hpartial⟩
    · obtain ⟨mapping, hmapping, hmem⟩ := mem_flatMap.mp hshard
      rw [eq_of_mem_replicate hmapping] at hmem
      cases hmem
  · constructor
    · rintro ⟨out, localShape, hout, -⟩
      rw [herror] at hout
      cases hout
    · exact fun htakes => absurd ⟨nodup_nil, htakes⟩ hnot

theorem filteredEntry_unsharded {mapping : DimMapping}
    (hcount : splitCount xLayout.mesh.meshShape mapping = 1)
    (hne : filteredEntry xLayout.mesh.meshShape mapping ≠ .axis NONE) :
    ∃ ids, filteredEntry xLayout.mesh.meshShape mapping = .axes ids := by
  cases mapping with
  | axes items =>
    rw [filteredEntry] at hne ⊢
    have hkept : ∀ item ∈ items.filter (fun item => readSize xLayout.mesh.meshShape item ≠ 1),
        item = NONE := by
      intro item hitem
      obtain ⟨hmem, hsize⟩ := mem_filter.mp hitem
      by_contra hitemNone
      have hdvd : readSize xLayout.mesh.meshShape item ∣ 1 := by
        rw [← hcount, splitCount]
        refine dvd_prod (mem_map.mpr ⟨item, ?_, ?_⟩)
        · exact mem_filter.mpr ⟨hmem, by simpa using hitemNone⟩
        · rw [readSize, readDim, if_neg hitemNone]
      exact of_decide_eq_true hsize (Nat.dvd_one.mp hdvd)
    split at hne
    · exact absurd rfl hne
    · rename_i single hsingle
      have hnone := hkept single (by rw [hsingle]; exact mem_singleton_self single)
      exact absurd (by rw [hnone]) hne
    · exact ⟨_, rfl⟩
  | axis item =>
    rw [filteredEntry] at hne
    by_cases hitem : item = NONE
    · exact absurd (by rw [hitem]; split <;> rfl) hne
    · have hone : readSize xLayout.mesh.meshShape item = 1 := by
        have hused : DimMapping.usedAxes (.axis item) = [item] := by
          rw [DimMapping.usedAxes, DimMapping.mappedDims, filter_cons_of_pos (by simpa using hitem),
            filter_nil]
        rw [splitCount, hused, map_cons, map_nil, prod_singleton] at hcount
        rw [readSize, readDim, if_neg hitem, hcount]
      exact absurd (if_neg (not_not.mpr hone) ▸ rfl) hne

variable {names : List String} {dst : List Int}

section

variable (py : PyStr) (h : LayoutOf xLayout tensorMap shape) (hshape : ∀ size ∈ shape, 0 < size)
  (hnames : xLayout.mesh.meshDimNames = some names) (hne : shape ≠ [])
  (htarget : ∀ size ∈ target, 0 < size) (hdst : Targets dst target)
  (hprod : target.prod = shape.prod)

include py h hshape hnames hne htarget hdst hprod

theorem infer_eq_writeOut
    (hgroups : groupsOf xLayout.mesh.meshShape tensorMap shape = front ++ [group])
    {maps : TensorMap}
    (hwalk : walkOf xLayout.mesh.meshShape tensorMap shape target front.length group.1 = .ok maps) :
    (∀ mapping ∈ maps, EntryOk xLayout.mesh.meshShape.length mapping) ∧
      inferReshapeLayout py xLayout (.sequence dst) (shape.map Nat.cast) =
        writeOut py xLayout names target maps := by
  obtain ⟨hreached, -⟩ := walkOf_reached h hshape htarget hprod hgroups hwalk
  have hmaps : ∀ mapping ∈ maps, EntryOk xLayout.mesh.meshShape.length mapping :=
    fun mapping hmapping => @Reached.entryOk (requestOf xLayout.mesh.meshShape tensorMap shape target)
      _ (groupsOf_ok h hshape) _ _ hreached mapping hmapping
  refine ⟨hmaps, ?_⟩
  rw [inferReshapeLayout_eq_walk py h hnames hne htarget hdst hprod hgroups, hwalk]
  exact finishWalk_eq py h hnames htarget hmaps hreached.length_eq

theorem infer_error_iff :
    (∀ error, inferReshapeLayout py xLayout (.sequence dst) (shape.map Nat.cast) = .error error →
        error.isValueError = true) ↔
      ¬ Overruns xLayout.mesh.meshShape tensorMap shape target := by
  obtain ⟨front, group, hgroups⟩ := groupsOf_snoc h hne
  have hnamesLength := (xLayout.mesh.names_ok names (by simp [hnames])).1
  have hrun := inferReshapeLayout_eq_walk py h hnames hne htarget hdst hprod hgroups
  constructor
  · intro hvalue hoverruns
    rw [walkOf_overruns h hne hprod hoverruns hgroups] at hrun
    have hfalse := hvalue .indexOutOfRange hrun
    cases hfalse
  · intro hfits error herror
    cases hwalk : walkOf xLayout.mesh.meshShape tensorMap shape target front.length group.1 with
    | error walkError =>
      have hrefused := walkOf_error h hshape hne htarget hprod hfits hgroups hwalk
      rw [hrun, hwalk] at herror
      rw [← Except.error.inj herror, hrefused]
      rfl
    | ok maps =>
      obtain ⟨hmaps, hwritten⟩ :=
        infer_eq_writeOut py h hshape hnames hne htarget hdst hprod hgroups hwalk
      rw [hwritten] at herror
      rw [← hnamesLength] at hmaps
      rcases writeOut_carries py hnames (hnamesLength ▸ h.mesh_length_pos) target hmaps with
        ⟨-, -, out, hout, -⟩ | ⟨-, other, hother, hvalue⟩
      · rw [hout] at herror
        cases herror
      · rwa [← Except.error.inj (hother.symm.trans herror)]

theorem infer_replicated_iff (hfits : ¬ Overruns xLayout.mesh.meshShape tensorMap shape target)
    (hunsharded : Unsharded xLayout.mesh.meshShape tensorMap) :
    (∃ out localShape, inferReshapeLayout py xLayout (.sequence dst) (shape.map Nat.cast) =
        .ok (out, localShape) ∧ Replicated xLayout target.length out) ↔
      TakesOver names (replicate target.length (.axis NONE)) xLayout ∧
        (target = [] ∨ Unmapped xLayout.mesh.meshShape tensorMap) := by
  obtain ⟨front, group, hgroups⟩ := groupsOf_snoc h hne
  have hnamesLength := (xLayout.mesh.names_ok names (by simp [hnames])).1
  have hmesh : 0 < names.length := hnamesLength ▸ h.mesh_length_pos
  have hplain := writeOut_replicate_iff py hnames hmesh target
  by_cases hempty : target = []
  · have hwalk : walkOf xLayout.mesh.meshShape tensorMap shape target front.length group.1 =
        .ok (replicate target.length (.axis NONE)) := by
      rw [hempty]
      rfl
    rw [(infer_eq_writeOut py h hshape hnames hne htarget hdst hprod hgroups hwalk).2, hplain]
    exact ⟨fun htakes => ⟨htakes, .inl hempty⟩, fun hboth => hboth.1⟩
  by_cases hunmapped : Unmapped xLayout.mesh.meshShape tensorMap
  · have hwalk : walkOf xLayout.mesh.meshShape tensorMap shape target front.length group.1 =
        .ok (replicate target.length (.axis NONE)) := by
      have hsingle := groupsOf_unmapped h hne hunmapped
      obtain ⟨rfl, rfl⟩ : front = [] ∧ group = (shape.prod, .axis NONE) := by
        rw [hsingle] at hgroups
        cases front with
        | nil => exact ⟨rfl, (singleton_inj.mp hgroups).symm⟩
        | cons first front => simp at hgroups
      by_cases hone : shape.prod = 1
      · have hones := eq_replicate_of_prod (hprod.trans hone)
        have hlt : target.length < 2 := Nat.lt_of_not_le fun htwo => hfits ⟨hone, hunmapped, htwo⟩
        have hlength : target.length = 1 := by
          have hpos := length_pos_of_ne_nil hempty
          omega
        rw [hlength] at hones
        rw [walkOf, hsingle, hone, hones]
        rfl
      · have hall := @walk_unsharded (requestOf xLayout.mesh.meshShape tensorMap shape target)
          shape.prod shape.prod hone target.reverse
          (fun size hsize => htarget size (mem_reverse.mp hsize))
          (prod_pos hshape) (by rw [prod_reverse, hprod]) []
        rw [length_reverse, append_nil] at hall
        rw [walkOf, hsingle]
        exact hall
    rw [(infer_eq_writeOut py h hshape hnames hne htarget hdst hprod hgroups hwalk).2, hplain]
    exact ⟨fun htakes => ⟨htakes, .inr hunmapped⟩, fun hboth => hboth.1⟩
  · -- The last group is taken for a sharded one, so some dimension is sharded or the walk fails.
    constructor
    · rintro ⟨out, localShape, hout, hreplicated⟩
      exfalso
      have hsharded := last_groupsOf_ne_none h hshape hunmapped hgroups
      have hreverse : ∀ size ∈ target.reverse, 0 < size :=
        fun size hsize => htarget size (mem_reverse.mp hsize)
      cases hwalk : walkOf xLayout.mesh.meshShape tensorMap shape target front.length group.1 with
      | error walkError =>
        rw [inferReshapeLayout_eq_walk py h hnames hne htarget hdst hprod hgroups, hwalk] at hout
        cases hout
      | ok maps =>
        obtain ⟨hmaps, hwritten⟩ :=
          infer_eq_writeOut py h hshape hnames hne htarget hdst hprod hgroups hwalk
        rw [hwritten] at hout
        rw [← hnamesLength] at hmaps
        have hmap : out.tensorMap = some (maps.map (readMap names)) := by
          rcases writeOut_carries py hnames hmesh target hmaps with
            ⟨-, -, written, hok, hcarries, -⟩ | ⟨-, other, hother, -⟩
          · rw [hok] at hout
            rw [← (Prod.mk.inj (Except.ok.inj hout)).1]
            exact hcarries.map_eq
          · rw [hother] at hout
            cases hout
        have hone : group.1 ≠ 1 := by
          intro hone
          have hnonempty : target.reverse ≠ [] := by simpa using hempty
          have hrefused := @walk_sharded_one
            (requestOf xLayout.mesh.meshShape tensorMap shape target) _ (groupsOf_ok h hshape)
            front group hgroups hsharded hone _ hnonempty hreverse []
          rw [walkOf, hrefused] at hwalk
          cases hwalk
        obtain ⟨hreached, -⟩ := walkOf_reached h hshape htarget hprod hgroups hwalk
        have hmem : group.2 ∈ maps := by
          obtain ⟨unvisited, visited, hsplit, honesUnvisited, hshards, -⟩ := hreached.visited
          have hvisited : group ∈ visited := by
            have hin : group ∈ unvisited ++ visited := by rw [← hsplit, hgroups]; simp
            exact (mem_append.mp hin).resolve_left fun hold => hone (honesUnvisited group hold)
          have hshard : group.2 ∈ shardMaps (groupMaps visited) :=
            mem_filter.mpr ⟨mem_map_of_mem hvisited, by simpa using hsharded⟩
          rw [← hshards] at hshard
          exact (mem_filter.mp hshard).1
        obtain ⟨mapping, hmapping, hfiltered⟩ : ∃ mapping ∈ tensorMap,
            filteredEntry xLayout.mesh.meshShape mapping = group.2 := by
          have hgroup : group ∈ groupsOf xLayout.mesh.meshShape tensorMap shape := by
            rw [hgroups]
            simp
          have hsnd := (mem_mergedGroups (filteredDims_pos h hshape) hgroup).2
          rw [snd_filteredDims h] at hsnd
          exact mem_map.mp hsnd
        obtain ⟨ids, hids⟩ := filteredEntry_unsharded (hunsharded mapping hmapping)
          (by rw [hfiltered]; exact hsharded)
        rw [hreplicated.map_eq] at hmap
        have hread := mem_map_of_mem hmem (f := readMap names)
        rw [← Option.some.inj hmap, ← hfiltered, hids] at hread
        have hwrong := eq_of_mem_replicate hread
        cases hwrong
    · rintro ⟨-, hnil | hall⟩
      · exact absurd hnil hempty
      · exact absurd hall hunmapped

end

end Run

/-- When the inference does what is asked of it: the mesh has names, the input a dimension, no single
element gets two dimensions, and what is pending on an uncut input may stand on the output. -/
structure Served (layout : Layout) (tensorMap : TensorMap) (shape target : List Nat) : Prop where
  rank_pos : shape ≠ []
  fits : ¬ Overruns layout.mesh.meshShape tensorMap shape target
  named : ∃ names, layout.mesh.meshDimNames = some names ∧
    (Unsharded layout.mesh.meshShape tensorMap →
      TakesOver names (List.replicate target.length (.axis NONE)) layout ∧
        (target = [] ∨ Unmapped layout.mesh.meshShape tensorMap))

theorem infer_nil (py : PyStr) {layout : Layout} {tensorMap : TensorMap} {target : List Nat}
    {dst : List Int} {names : List String} (h : LayoutOf layout tensorMap [])
    (hnames : layout.mesh.meshDimNames = some names) (htarget : ∀ size ∈ target, 0 < size)
    (hdst : Targets dst target) (hprod : target.prod = ([] : List Nat).prod) :
    inferReshapeLayout py layout (.sequence dst) [] = .error .indexOutOfRange := by
  have hdict : toDict layout = .ok ⟨tensorMap, names⟩ := by rw [toDict, h.map_eq, hnames]
  have hfilter := filterNoneSplitTensorMap_eq h.mesh_length_pos fun mapping hmapping =>
    entryOk_of_wellFormed h.wellFormed hmapping
  have hresolved := handleDynamicShape_eq hdst htarget hprod
  have hmerge := mergeUnsharedAxis_nil (tensorMap.map (filteredEntry layout.mesh.meshShape))
    (by simp [h.length_eq])
  rw [map_nil] at hresolved
  rw [inferReshapeLayout, hdict]
  simp only [bind, Except.bind, normalizeShape, hfilter, hresolved, hmerge]

/-- An uncut input gives a replicated output and every error is a value error, exactly then. -/
theorem inferReshape_onlyValueErrors_iff (py : PyStr) (opName : String) {xLayout : Option Layout}
    {shape target : List Nat} {dst : List Int}
    (hlayout : ∀ layout ∈ xLayout, ∀ tensorMap ∈ layout.tensorMap, LayoutOf layout tensorMap shape)
    (hshape : ∀ size ∈ shape, 0 < size) (htarget : ∀ size ∈ target, 0 < size)
    (hdst : Targets dst target) (hprod : target.prod = shape.prod) :
    ((∀ layout ∈ xLayout, ∀ tensorMap ∈ layout.tensorMap,
        Unsharded layout.mesh.meshShape tensorMap → ∃ out localShape,
          inferReshape py opName xLayout (.sequence dst) (shape.map Nat.cast) = .ok (out, localShape) ∧
            Replicated layout target.length out) ∧
      ∀ error, inferReshape py opName xLayout (.sequence dst) (shape.map Nat.cast) = .error error →
        error.isValueError = true) ↔
      ∀ layout ∈ xLayout, ∀ tensorMap ∈ layout.tensorMap, Served layout tensorMap shape target := by
  cases xLayout with
  | none =>
    refine ⟨fun _ layout hmem => (by cases hmem), fun _ => ⟨fun layout hmem => (by cases hmem), ?_⟩⟩
    intro error herror
    rw [← Except.error.inj herror]
    rfl
  | some layout =>
    simp only [Option.mem_some_iff, forall_eq', inferReshape]
    cases hmap : layout.tensorMap with
    | none =>
      refine ⟨fun _ tensorMap hmem => (by cases hmem),
        fun _ => ⟨fun tensorMap hmem => (by cases hmem), ?_⟩⟩
      intro error herror
      rw [inferReshapeLayout, toDict, hmap] at herror
      rw [← Except.error.inj herror]
      rfl
    | some tensorMap =>
      simp only [Option.mem_some_iff, forall_eq']
      have h := hlayout layout rfl tensorMap hmap
      cases hnames : layout.mesh.meshDimNames with
      | none =>
        have hunnamed : inferReshapeLayout py layout (.sequence dst) (shape.map Nat.cast) =
            .error .namesNotIterable := by
          rw [inferReshapeLayout, toDict, hmap, hnames]
          rfl
        constructor
        · rintro ⟨-, hvalue⟩
          have hfalse := hvalue _ hunnamed
          cases hfalse
        · rintro ⟨-, -, names, hsome, -⟩
          rw [hnames] at hsome
          cases hsome
      | some names =>
        by_cases hne : shape = []
        · subst hne
          have hrank := infer_nil py h hnames htarget hdst hprod
          constructor
          · rintro ⟨-, hvalue⟩
            have hfalse := hvalue _ hrank
            cases hfalse
          · exact fun hserved => absurd rfl hserved.rank_pos
        · have herrors := infer_error_iff py h hshape hnames hne htarget hdst hprod
          constructor
          · rintro ⟨hreplicated, hvalue⟩
            have hfits := herrors.mp hvalue
            refine ⟨hne, hfits, names, hnames, fun hunsharded => ?_⟩
            exact (infer_replicated_iff py h hshape hnames hne htarget hdst hprod hfits
              hunsharded).mp (hreplicated hunsharded)
          · rintro ⟨-, hfits, found, hfound, hserved⟩
            rw [hnames] at hfound
            obtain rfl := Option.some.inj hfound
            refine ⟨fun hunsharded => ?_, herrors.mpr hfits⟩
            exact (infer_replicated_iff py h hshape hnames hne htarget hdst hprod hfits
              hunsharded).mpr (hserved hunsharded)

theorem lineMesh_ranks : [0, 1].length = [2].prod := rfl

def lineMesh : DeviceMesh where
  meshShape := [2]
  meshDimNames := some ["tp"]
  rankList := [0, 1]
  names_ok := by simp
  ranks_ok := lineMesh_ranks

def lineLayout (tensorMap : TensorMap) : Layout where
  mesh := lineMesh
  tensorMap := some tensorMap
  partialOps := [none]
  placements := none
  raggedShard := none
  tensorShape := none
  tensorStride := none
  tensorDtype := "None"
  compactStr := ""

theorem lineLayout_layoutOf : LayoutOf (lineLayout [.axis NONE]) [.axis NONE] [4] where
  map_eq := rfl
  length_eq := rfl
  wellFormed := ⟨by decide, by decide⟩
  mesh_ne_nil := by decide
  mesh_pos := by decide

/-- Four elements on every device, taken as two rows. -/
theorem inferReshape_onlyValueErrors_rows :
    ∃ out localShape, inferReshape asciiStr "Reshape" (some (lineLayout [.axis NONE])) (.sequence [2, -1])
      [4] = .ok (out, localShape) ∧ Replicated (lineLayout [.axis NONE]) 2 out := by
  have hserved : Served (lineLayout [.axis NONE]) [.axis NONE] [4] [2, 2] := by
    refine ⟨by decide, fun h => absurd h.1 (by decide), ["tp"], rfl, fun _ => ⟨?_, .inr ?_⟩⟩
    · intro hpartial
      cases hpartial
    · intro mapping hmapping
      rw [mem_singleton.mp hmapping]
      rfl
  have hall := (@inferReshape_onlyValueErrors_iff asciiStr "Reshape" (some (lineLayout [.axis NONE]))
    [4] [2, 2] [2, -1] (by
      rintro layout ⟨⟩ tensorMap ⟨⟩
      exact lineLayout_layoutOf)
    (by decide) (by decide) (.inr ⟨[2], [], 2, rfl, rfl⟩) rfl).mpr
    (by
      rintro layout ⟨⟩ tensorMap ⟨⟩
      exact hserved)
  refine hall.1 _ rfl _ rfl fun mapping hmapping => ?_
  rw [mem_singleton.mp hmapping]
  rfl

/-- One element in two dimensions stays as it is, and the index runs off the groups. -/
theorem inferReshape_ones_overrun :
    ¬ ∀ error, inferReshape asciiStr "Reshape" (some (lineLayout [.axis NONE, .axis NONE]))
        (.sequence [1, 1]) [1, 1] = .error error → error.isValueError = true := by
  intro h
  have hfalse := h .indexOutOfRange rfl
  cases hfalse

end HyperParallel.Shard
