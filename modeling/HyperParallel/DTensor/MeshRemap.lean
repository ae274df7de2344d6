import HyperParallel.DTensor.MeshLayout
import HyperParallel.Foundation.Tiling
import Mathlib.Algebra.BigOperators.Ring.List
import Mathlib.Data.Finset.Card
import Mathlib.Data.Finset.Union

/-!
# Laying a mesh over a rank map

A layout is laid over the positions of a rank map: the groups are the ranks at
its translates, peeled off in the order of their anchors.  The positions decide,
not the ranks they hold.
-/

namespace HyperParallel.DTensor

open Foundation Foundation.OffsetLists Foundation.Tiling List

inductive RemapError where
  | emptyLayout
  | notPartition (worldSize : Nat)
  | indexOutOfBounds (index : Int) (worldSize : Nat)
  deriving DecidableEq, Repr

structure RemappedMesh (ρ : Type*) where
  shape : List Nat
  groups : List (List ρ)
  deriving DecidableEq, Repr

structure PeeledGroups where
  groups : List (List Int) := []
  used : Finset Int := ∅

namespace MeshLayout

variable {ρ : Type*}

def peelAnchor (worldSize : Nat) (baseOffsets : List Int) (state : PeeledGroups) (anchor : Int) :
    PeeledGroups :=
  if anchor ∈ state.used then state
  else
    let group := translate baseOffsets anchor
    if group.any fun index => decide ((worldSize : Int) ≤ index) then state
    else if group.any fun index => decide (index ∈ state.used) then state
    else
      { groups := state.groups ++ [group]
        used := state.used ∪ group.toFinset }

/-- `range(world_size)`. -/
def positions (worldSize : Nat) : List Int := (List.range worldSize).map fun i : Nat => (i : Int)

def rankAt (rankMap : List ρ) (index : Int) : Except RemapError ρ :=
  match pyGet? rankMap index with
  | some rank => .ok rank
  | none => .error (.indexOutOfBounds index rankMap.length)

def remapToNumpy (layout : MeshLayout) (rankMap : List ρ) : Except RemapError (RemappedMesh ρ) := do
  let baseOffsets := layout.allRanksFromZero
  if baseOffsets.length = 0 then
    .error .emptyLayout
  else
    let peeled := (positions rankMap.length).foldl (peelAnchor rankMap.length baseOffsets) {}
    if peeled.used.card ≠ rankMap.length then
      .error (.notPartition rankMap.length)
    else do
      let groups ← peeled.groups.mapM fun group => group.mapM (rankAt rankMap)
      .ok { shape := groups.length :: layout.topLevelSizes, groups }

/-- `check_non_overlap`. -/
def checkNonOverlap (layout : MeshLayout) : Bool :=
  let ranks := layout.allRanksFromZero
  decide (ranks.length = ranks.toFinset.card)

theorem checkNonOverlap_iff (layout : MeshLayout) :
    layout.checkNonOverlap = true ↔ layout.allRanksFromZero.Nodup := by
  rw [checkNonOverlap, decide_eq_true_eq]
  constructor
  · intro hlen
    have hdedup : layout.allRanksFromZero.dedup = layout.allRanksFromZero :=
      (dedup_sublist _).eq_of_length (by rw [← card_toFinset, ← hlen])
    exact dedup_eq_self.mp hdedup
  · intro hnodup
    exact (toFinset_card_of_nodup hnodup).symm

theorem zero_mem_sumsOf {lists : List (List Int)} (h : ∀ xs ∈ lists, (0 : Int) ∈ xs) :
    (0 : Int) ∈ sumsOf lists := by
  induction lists with
  | nil => exact mem_singleton_self 0
  | cons first rest ih =>
    rw [sumsOf_cons, sums]
    refine mem_flatMap.mpr ⟨0, h first mem_cons_self, ?_⟩
    exact mem_map.mpr ⟨0, ih fun xs hxs => h xs (mem_cons_of_mem first hxs), rfl⟩

theorem zero_mem_allRanksFromZero {layout : MeshLayout} (h : layout.allRanksFromZero ≠ []) :
    (0 : Int) ∈ layout.allRanksFromZero := by
  have hnumel : layout.numel ≠ 0 := by
    rw [← length_allRanksFromZero]
    exact fun hlen => h (eq_nil_of_length_eq_zero hlen)
  rw [allRanksFromZero_eq_leaves]
  refine zero_mem_sumsOf fun xs hxs => ?_
  obtain ⟨leaf, hleaf, rfl⟩ := mem_map.mp hxs
  have hsize : leaf.1 ≠ 0 := fun hzero =>
    hnumel (prod_eq_zero (mem_map.mpr ⟨leaf, hleaf, hzero⟩))
  exact mem_map.mpr ⟨0, mem_range.mpr (Nat.pos_of_ne_zero hsize), by simp⟩

/-! ## The peeling -/

variable {worldSize : Nat} {anchor : Int} {anchors : List Int} {groups : List (List ρ)}

theorem mem_positions {index : Int} :
    index ∈ positions worldSize ↔ 0 ≤ index ∧ index < worldSize := by
  constructor
  · intro h
    obtain ⟨i, hi, rfl⟩ := mem_map.mp h
    have hlt := mem_range.mp hi
    omega
  · rintro ⟨hpos, hlt⟩
    exact mem_map.mpr ⟨index.toNat, mem_range.mpr (by omega), by omega⟩

theorem positions_pairwise (worldSize : Nat) : (positions worldSize).Pairwise (· < ·) := by
  refine pairwise_map.mpr (pairwise_lt_range.imp ?_)
  intro i j hij
  exact Int.ofNat_lt.mpr hij

@[simp] theorem length_positions (worldSize : Nat) : (positions worldSize).length = worldSize := by
  simp [positions]

structure PeeledAt (baseOffsets : List Int) (state : PeeledGroups) (chosen : List Int) : Prop where
  groups : state.groups = chosen.map (translate baseOffsets)
  used : ∀ index, index ∈ state.used ↔ index ∈ cover baseOffsets chosen

variable {baseOffsets : List Int} {rankMap : List ρ}

theorem peelAnchor_peeledAt {chosen : List Int} {state : PeeledGroups}
    (hpos : ∀ offset ∈ baseOffsets, 0 ≤ offset) (hstate : PeeledAt baseOffsets state chosen)
    (hanchor : 0 ≤ anchor) :
    PeeledAt baseOffsets (peelAnchor worldSize baseOffsets state anchor)
      (peel baseOffsets (positions worldSize) chosen anchor) := by
  have hfits : Fits baseOffsets (positions worldSize) chosen anchor ↔
      anchor ∉ state.used ∧
        ∀ index ∈ translate baseOffsets anchor, ¬ (worldSize : Int) ≤ index ∧ index ∉ state.used := by
    unfold Fits
    rw [hstate.used anchor]
    refine and_congr_right fun _ => forall₂_congr fun index hindex => ?_
    rw [hstate.used index, mem_positions]
    obtain ⟨offset, hoffset, rfl⟩ := mem_map.mp hindex
    have hnonneg : 0 ≤ anchor + offset := Int.add_nonneg hanchor (hpos offset hoffset)
    rw [and_iff_right hnonneg, Int.not_le]
  unfold peelAnchor peel
  by_cases hanchorUsed : anchor ∈ state.used
  · rw [if_pos hanchorUsed, if_neg fun h => (hfits.mp h).1 hanchorUsed]
    exact hstate
  rw [if_neg hanchorUsed]
  by_cases hoverflow :
      ((translate baseOffsets anchor).any fun index => decide ((worldSize : Int) ≤ index)) = true
  · rw [if_pos hoverflow, if_neg]
    · exact hstate
    · intro h
      obtain ⟨index, hindex, hle⟩ := any_eq_true.mp hoverflow
      exact ((hfits.mp h).2 index hindex).1 (of_decide_eq_true hle)
  rw [if_neg hoverflow]
  by_cases hoverlap :
      ((translate baseOffsets anchor).any fun index => decide (index ∈ state.used)) = true
  · rw [if_pos hoverlap, if_neg]
    · exact hstate
    · intro h
      obtain ⟨index, hindex, hused⟩ := any_eq_true.mp hoverlap
      exact ((hfits.mp h).2 index hindex).2 (of_decide_eq_true hused)
  rw [if_neg hoverlap, if_pos]
  · refine ⟨?_, ?_⟩
    · rw [hstate.groups, map_append, map_singleton]
    · intro index
      rw [Finset.mem_union, hstate.used, mem_toFinset, cover_append, cover_singleton, mem_append]
  · refine hfits.mpr ⟨hanchorUsed, fun index hindex => ⟨?_, ?_⟩⟩
    · exact fun hle => hoverflow (any_eq_true.mpr ⟨index, hindex, decide_eq_true hle⟩)
    · exact fun hused => hoverlap (any_eq_true.mpr ⟨index, hindex, decide_eq_true hused⟩)

theorem foldl_peelAnchor_peeledAt {baseOffsets : List Int}
    (hpos : ∀ offset ∈ baseOffsets, 0 ≤ offset) (hanchors : ∀ a ∈ anchors, 0 ≤ a) :
    PeeledAt baseOffsets (anchors.foldl (peelAnchor worldSize baseOffsets) {})
      (anchors.foldl (peel baseOffsets (positions worldSize)) []) := by
  induction anchors using reverseRecOn with
  | nil => exact ⟨rfl, fun index => by simp [cover]⟩
  | append_singleton anchors anchor ih =>
    rw [foldl_append, foldl_append]
    exact peelAnchor_peeledAt hpos (ih fun a ha => hanchors a (mem_append_left _ ha))
      (hanchors anchor (by simp))

/-! ## The ranks at the positions -/

theorem group_ranks {group : List ρ}
    (h : Forall₂ (fun offset rank => rankMap[(anchor + offset).toNat]? = some rank)
      baseOffsets group) :
    group.map some =
      (translate baseOffsets anchor).map fun index : Int => rankMap[index.toNat]? := by
  induction h with
  | nil => rfl
  | cons hrank _ ih =>
    rw [map_cons, ih, ← hrank]
    rfl

theorem flatten_perm_of_tiles
    (htiles : Tiles baseOffsets anchors (positions rankMap.length))
    (hgroups : Forall₂ (fun anchor group => Forall₂
      (fun offset rank => rankMap[(anchor + offset).toNat]? = some rank) baseOffsets group)
      anchors groups) :
    groups.flatten.Perm rankMap := by
  have hranks : groups.flatten.map some =
      (cover baseOffsets anchors).map fun index : Int => rankMap[index.toNat]? := by
    clear htiles
    induction hgroups with
    | nil => rfl
    | cons hgroup _ ih =>
      rw [flatten_cons, map_append, group_ranks hgroup, ih, cover_cons, map_append]
  have hall : (positions rankMap.length).map (fun index : Int => rankMap[index.toNat]?) =
      rankMap.map some := by
    rw [positions, map_map]
    refine ext_getElem (by simp) fun i hi _ => ?_
    simp at hi
    simp [hi]
  have hperm := htiles.map fun index : Int => rankMap[index.toNat]?
  rw [← hranks, hall] at hperm
  exact (map_perm_map_iff (Option.some_injective ρ)).mp hperm

theorem rankAt_eq_ok_iff {index : Int} {rank : ρ} (hpos : 0 ≤ index) :
    rankAt rankMap index = .ok rank ↔ rankMap[index.toNat]? = some rank := by
  have hread : pyGet? rankMap index = rankMap[index.toNat]? := by rw [pyGet?, if_pos hpos]
  unfold rankAt
  rw [hread]
  split
  · rename_i found hfound
    rw [hfound, Except.ok.injEq, Option.some.injEq]
  · rename_i hnone
    rw [hnone]
    constructor
    · exact fun h => by cases h
    · exact fun h => by cases h

structure GroupsAt (layout : MeshLayout) (rankMap : List ρ) (anchors : List Int)
    (mesh : RemappedMesh ρ) : Prop where
  tiles : Tiles layout.allRanksFromZero anchors (positions rankMap.length)
  shape : mesh.shape = anchors.length :: layout.topLevelSizes
  groups : List.Forall₂ (fun anchor group => List.Forall₂
    (fun offset rank => rankMap[(anchor + offset).toNat]? = some rank)
    layout.allRanksFromZero group) anchors mesh.groups
  partition : mesh.groups.flatten.Perm rankMap

theorem group_eq_ok_iff {group : List ρ}
    (hpos : ∀ index ∈ translate baseOffsets anchor, 0 ≤ index) :
    (translate baseOffsets anchor).mapM (rankAt rankMap) = .ok group ↔
      Forall₂ (fun offset rank => rankMap[(anchor + offset).toNat]? = some rank)
        baseOffsets group := by
  rw [mapM_eq_ok_iff, Tiling.translate, forall₂_map_left_iff]
  induction baseOffsets generalizing group with
  | nil => simp
  | cons offset offsets ih =>
    cases group with
    | nil => simp
    | cons rank ranks =>
      rw [forall₂_cons, forall₂_cons, rankAt_eq_ok_iff (hpos _ mem_cons_self),
        ih fun index hindex => hpos index (mem_cons_of_mem _ hindex)]

theorem groups_eq_ok_iff {rankMap : List ρ} {baseOffsets anchors : List Int}
    (hpos : ∀ index ∈ cover baseOffsets anchors, 0 ≤ index) :
    ((anchors.map (translate baseOffsets)).mapM fun group => group.mapM (rankAt rankMap)) =
        .ok groups ↔
      Forall₂ (fun anchor group => Forall₂
        (fun offset rank => rankMap[(anchor + offset).toNat]? = some rank) baseOffsets group)
        anchors groups := by
  rw [mapM_eq_ok_iff, forall₂_map_left_iff]
  induction anchors generalizing groups with
  | nil => simp
  | cons anchor anchors ih =>
    rw [cover_cons] at hpos
    cases groups with
    | nil => simp
    | cons group groups =>
      rw [forall₂_cons, forall₂_cons,
        group_eq_ok_iff fun index hindex => hpos index (mem_append_left _ hindex),
        ih fun index hindex => hpos index (mem_append_right _ hindex)]

theorem remapToNumpy_eq_ok_iff {layout : MeshLayout} {rankMap : List ρ}
    (hnonempty : layout.allRanksFromZero ≠ []) (hdistinct : layout.allRanksFromZero.Nodup)
    (hpos : ∀ offset ∈ layout.allRanksFromZero, 0 ≤ offset) (mesh : RemappedMesh ρ) :
    layout.remapToNumpy rankMap = .ok mesh ↔
      GroupsAt layout rankMap ((positions rankMap.length).foldl
        (peel layout.allRanksFromZero (positions rankMap.length)) []) mesh := by
  have hpositions : ∀ a ∈ positions rankMap.length, 0 ≤ a := fun a ha => (mem_positions.mp ha).1
  have hpeeled := @foldl_peelAnchor_peeledAt rankMap.length _ _ hpos hpositions
  obtain ⟨hnodup, hsub⟩ := @peel_sound _ _ _ (positions rankMap.length) _ hdistinct
    (positions rankMap.length)
  have hlen : layout.allRanksFromZero.length ≠ 0 := fun h => hnonempty (eq_nil_of_length_eq_zero h)
  unfold remapToNumpy
  simp only [if_neg hlen]
  generalize (positions rankMap.length).foldl (peelAnchor rankMap.length layout.allRanksFromZero) {} =
    peeled at hpeeled ⊢
  generalize (positions rankMap.length).foldl
    (peel layout.allRanksFromZero (positions rankMap.length)) [] = chosen at hpeeled hnodup hsub ⊢
  have hcard : peeled.used.card = (cover layout.allRanksFromZero chosen).length := by
    rw [← toFinset_card_of_nodup hnodup]
    congr 1
    ext index
    rw [hpeeled.used, mem_toFinset]
  have hread := fun groups => @groups_eq_ok_iff _ groups rankMap _ chosen
    fun index hindex => (mem_positions.mp (hsub hindex)).1
  have htiles := tiles_iff_length hnodup hsub
  rw [length_positions, ← hcard] at htiles
  rw [hpeeled.groups]
  constructor
  · intro h
    split at h
    · cases h
    · rename_i hfull
      obtain ⟨groups, hgroups, h⟩ := bind_eq_ok h
      obtain rfl := Except.ok.inj h
      have hranks := (hread groups).mp hgroups
      have htiled := htiles.mpr (not_not.mp hfull)
      refine ⟨htiled, ?_, hranks, flatten_perm_of_tiles htiled hranks⟩
      rw [hranks.length_eq]
  · rintro ⟨htiled, hshape, hranks, -⟩
    rw [if_neg (not_not.mpr (htiles.mp htiled)), (hread mesh.groups).mpr hranks]
    obtain ⟨shape, groups⟩ := mesh
    have hshape' : shape = groups.length :: layout.topLevelSizes := by
      rw [← hranks.length_eq]
      exact hshape
    rw [hshape']
    rfl

theorem exists_groups
    (htiles : Tiles baseOffsets anchors (positions rankMap.length)) :
    ∃ groups : List (List ρ), Forall₂ (fun anchor group => Forall₂
      (fun offset rank => rankMap[(anchor + offset).toNat]? = some rank) baseOffsets group)
      anchors groups := by
  have hmem : ∀ index ∈ cover baseOffsets anchors, 0 ≤ index ∧ index < rankMap.length :=
    fun index hindex => mem_positions.mp (htiles.mem_iff.mp hindex)
  have hread : ∃ groups, ((anchors.map (translate baseOffsets)).mapM
      fun group => group.mapM (rankAt rankMap)) = .ok groups := by
    refine exists_mapM_eq_ok fun group hgroup => ?_
    obtain ⟨anchor, hanchor, rfl⟩ := mem_map.mp hgroup
    refine exists_mapM_eq_ok fun index hindex => ?_
    have hcovered : index ∈ cover baseOffsets anchors := mem_flatMap.mpr ⟨anchor, hanchor, hindex⟩
    obtain ⟨hpos, hlt⟩ := hmem index hcovered
    exact ⟨_, (rankAt_eq_ok_iff hpos).mpr (getElem?_eq_getElem (by omega))⟩
  obtain ⟨groups, hgroups⟩ := hread
  exact ⟨groups, (groups_eq_ok_iff fun index hindex => (hmem index hindex).1).mp hgroups⟩

/-- A layout is laid over a rank map exactly when its positions can be partitioned into translates. -/
theorem remapToNumpy_exact (layout : MeshLayout) (rankMap : List ρ)
    (hnonempty : layout.allRanksFromZero ≠ []) (hdistinct : layout.checkNonOverlap = true)
    (hpos : ∀ offset ∈ layout.allRanksFromZero, 0 ≤ offset) :
    ((∃ mesh, layout.remapToNumpy rankMap = .ok mesh) ↔
        ∃ anchors, Tiles layout.allRanksFromZero anchors (positions rankMap.length)) ∧
      ∀ mesh, layout.remapToNumpy rankMap = .ok mesh →
        ∃ anchors, GroupsAt layout rankMap anchors mesh := by
  have hnodup := (checkNonOverlap_iff layout).mp hdistinct
  have hok := @remapToNumpy_eq_ok_iff _ layout rankMap hnonempty hnodup hpos
  refine ⟨⟨?_, ?_⟩, fun mesh hmesh => ⟨_, (hok mesh).mp hmesh⟩⟩
  · rintro ⟨mesh, hmesh⟩
    exact ⟨_, ((hok mesh).mp hmesh).tiles⟩
  · intro htiling
    have htiles := (peel_tiles_iff hnodup (zero_mem_allRanksFromZero hnonempty) hpos
      (positions_pairwise rankMap.length)).mpr htiling
    obtain ⟨groups, hgroups⟩ := exists_groups htiles
    exact ⟨⟨_, groups⟩, (hok _).mpr ⟨htiles, rfl, hgroups, flatten_perm_of_tiles htiles hgroups⟩⟩

theorem remapToNumpy_exact_halves :
    ((∃ mesh, (axis 2 2).remapToNumpy [5, 6, 7, 8] = .ok mesh) ↔
        ∃ anchors, Tiles (axis 2 2).allRanksFromZero anchors (positions [5, 6, 7, 8].length)) ∧
      ∀ mesh, (axis 2 2).remapToNumpy [5, 6, 7, 8] = .ok mesh →
        ∃ anchors, GroupsAt (axis 2 2) [5, 6, 7, 8] anchors mesh :=
  remapToNumpy_exact (axis 2 2) [5, 6, 7, 8] (by decide) (by decide) (by decide)

/-- The ranks 0, 1, 4 and 5 are laid out though no translates of 0 and 2 make them up; a negative
stride is laid out backwards; and an empty layout is refused even over no ranks. -/
theorem remapToNumpy_not_exact :
    (¬ ∀ (layout : MeshLayout) (ranks : List Int), layout.checkNonOverlap = true → ranks.Nodup →
      ((∃ mesh, layout.remapToNumpy ranks = .ok mesh) ↔
        ∃ anchors, Tiles layout.allRanksFromZero anchors ranks)) ∧
    (¬ ∀ (layout : MeshLayout) (rankMap : List Int) (mesh : RemappedMesh Int),
      layout.checkNonOverlap = true → layout.remapToNumpy rankMap = .ok mesh →
        ∃ anchors, GroupsAt layout rankMap anchors mesh) ∧
    ¬ ∀ (layout : MeshLayout) (rankMap : List Int), layout.checkNonOverlap = true →
      (∃ anchors, Tiles layout.allRanksFromZero anchors (positions rankMap.length)) →
        ∃ mesh, layout.remapToNumpy rankMap = .ok mesh := by
  refine ⟨?_, ?_, ?_⟩
  · intro h
    obtain ⟨anchors, htiles⟩ := (h (axis 2 2) [0, 1, 4, 5] (by decide) (by decide)).mp
      ⟨⟨[2, 2], [[0, 4], [1, 5]]⟩, by decide⟩
    have hzero : (0 : Int) ∈ cover (axis 2 2).allRanksFromZero anchors :=
      htiles.mem_iff.mpr (by decide)
    obtain ⟨a, ha, o, ho, hao⟩ := mem_cover.mp hzero
    have hcovered : ∀ p ∈ (axis 2 2).allRanksFromZero, a + p ∈ [(0 : Int), 1, 4, 5] :=
      fun p hp => htiles.mem_iff.mp (mem_cover.mpr ⟨a, ha, p, hp, rfl⟩)
    have hfirst := hcovered 0 (by decide)
    have hsecond := hcovered 2 (by decide)
    have ho' : o = 0 ∨ o = 2 := by simpa [steps, range_succ, eq_comm] using ho
    simp at hfirst hsecond
    omega
  · intro h
    obtain ⟨anchors, hat⟩ := h (axis 2 (-1)) [7, 8] ⟨[1, 2], [[7, 8]]⟩ (by decide) (by decide)
    have hgroups := hat.groups
    rcases forall₂_cons_right_iff.mp hgroups with ⟨a, rest, hgroup, hrest, hanchors⟩
    obtain rfl := forall₂_nil_right_iff.mp hrest
    have htiles := hat.tiles
    rw [hanchors, Tiles, cover_singleton] at htiles
    have hlast : ∀ p ∈ (axis 2 (-1)).allRanksFromZero, a + p ∈ positions 2 :=
      fun p hp => htiles.mem_iff.mp (mem_map_of_mem hp)
    have ha := mem_positions.mp (hlast 0 (by decide))
    have hb := mem_positions.mp (hlast (-1) (by decide))
    obtain rfl : a = 1 := by omega
    rcases forall₂_cons_right_iff.mp hgroup with ⟨o, offsets, hrank, -, hoffsets⟩
    rw [show (axis 2 (-1)).allRanksFromZero = [0, -1] by decide] at hoffsets
    obtain rfl := (cons.inj hoffsets).1
    exact absurd hrank (by decide)
  · intro h
    obtain ⟨mesh, hmesh⟩ := h (axis 0 1) [] (by decide) ⟨[], List.Perm.refl []⟩
    exact absurd hmesh (by
      rw [show (axis 0 1).remapToNumpy ([] : List Int) = .error .emptyLayout by decide]
      intro hcase
      cases hcase)

end MeshLayout

end HyperParallel.DTensor
