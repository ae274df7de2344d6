import HyperParallel.Foundation.CutShape
import HyperParallel.Shard.Reshape
import Mathlib.Algebra.Order.BigOperators.GroupWithZero.List
import Mathlib.Data.List.GetD

/-!
# The walk of a reshape

Merging the axes of the input and walking over the target both regroup
dimensions: in a group only the first one is cut.  The walk completes the groups
from the right, and what it does not reach are groups of a single element.
-/

namespace HyperParallel.Shard

open Foundation DTensor List

/-- A dimension of positive size and its map value. -/
abbrev MappedDim := Nat × DimMapping

/-! ## What the code reads of the mesh -/

def readDim (meshNdim : Nat) (axis : Int) : Nat := if axis = NONE then 0 else meshDimOf meshNdim axis

def readSize (meshShape : MeshShape) (axis : Int) : Nat :=
  meshShape.getD (readDim meshShape.length axis) 0

def AxisOk (meshNdim : Nat) (axis : Int) : Prop := axis = NONE ∨ 0 ≤ axis ∧ axis < meshNdim

def EntryOk (meshNdim : Nat) (mapping : DimMapping) : Prop :=
  ∀ axis ∈ mapping.mappedDims, AxisOk meshNdim axis

theorem readDim_lt {meshNdim : Nat} (hpos : 0 < meshNdim) {axis : Int} (h : AxisOk meshNdim axis) :
    readDim meshNdim axis < meshNdim := by
  rw [readDim]
  split
  · exact hpos
  · rename_i hnone
    exact meshDimOf_lt (h.resolve_left hnone)

theorem readAt_of_axis {α : Type} {xs : List α} {meshNdim : Nat} (hlen : xs.length = meshNdim)
    (hpos : 0 < meshNdim) {axis : Int} (h : AxisOk meshNdim axis) (hlt : readDim meshNdim axis < xs.length) :
    readAt xs (-1 - axis) = .ok xs[readDim meshNdim axis] := by
  have hread : pyGet? xs (-1 - axis) = some xs[readDim meshNdim axis] := by
    by_cases hnone : axis = NONE
    · have hzero : -1 - axis = 0 := by rw [hnone]; rfl
      have hdim : readDim meshNdim axis = 0 := if_pos hnone
      rw [hzero, pyGet?_of_lt (le_refl 0) (by simpa [hlen] using hpos)]
      simp [hdim]
    · obtain ⟨hnonneg, hbelow⟩ := h.resolve_left hnone
      have hdim : readDim meshNdim axis = meshDimOf meshNdim axis := if_neg hnone
      have hplace : ((xs.length : Int) + (-1 - axis)).toNat = readDim meshNdim axis := by
        rw [hdim, meshDimOf, hlen]
        congr 1
        ring
      rw [pyGet?, if_neg (by omega), if_pos (by omega), hplace, getElem?_eq_getElem hlt]
  rw [readAt, hread]

theorem sizeOfAxis_eq {meshShape : MeshShape} (hpos : 0 < meshShape.length) {axis : Int}
    (h : AxisOk meshShape.length axis) : sizeOfAxis meshShape axis = .ok (readSize meshShape axis) := by
  have hlt := readDim_lt hpos h
  rw [sizeOfAxis, readAt_of_axis rfl hpos h hlt, readSize, getD_eq_getElem _ _ hlt]

def shardCount (meshShape : MeshShape) (mapping : DimMapping) : Nat :=
  (mapping.mappedDims.map (readSize meshShape)).prod

theorem mapM_sizeOfAxis {meshShape : MeshShape} (hpos : 0 < meshShape.length) {axes : List Int}
    (h : ∀ axis ∈ axes, AxisOk meshShape.length axis) :
    axes.mapM (sizeOfAxis meshShape) = .ok (axes.map (readSize meshShape)) :=
  mapM_eq_ok fun axis haxis => sizeOfAxis_eq hpos (h axis haxis)

theorem ReshapeRequest.shardSize_eq (request : ReshapeRequest) (hpos : 0 < request.meshShape.length)
    {mapping : DimMapping} (h : EntryOk request.meshShape.length mapping) :
    request.shardSize mapping = .ok (shardCount request.meshShape mapping) := by
  cases mapping with
  | axis id =>
    rw [ReshapeRequest.shardSize, sizeOfAxis_eq hpos (h id (by simp [DimMapping.mappedDims]))]
    simp [shardCount, DimMapping.mappedDims]
  | axes ids =>
    have hids : ∀ id ∈ ids, AxisOk request.meshShape.length id := h
    rw [ReshapeRequest.shardSize, mapM_sizeOfAxis hpos hids]
    rfl

/-! ## Resolving the target -/

def Targets (dst : List Int) (target : List Nat) : Prop :=
  dst = target.map Nat.cast ∨
    ∃ (front back : List Nat) (size : Nat), target = front ++ size :: back ∧
      dst = front.map Nat.cast ++ (-1) :: back.map Nat.cast

theorem prod_map_cast (xs : List Nat) : (xs.map (Nat.cast : Nat → Int)).prod = (xs.prod : Int) := by
  induction xs with
  | nil => rfl
  | cons x xs ih => rw [map_cons, prod_cons, ih, prod_cons, Nat.cast_mul]

theorem getDynamicShapeInfo_cast (shape : List Nat) :
    (getDynamicShapeInfo (shape.map Nat.cast)).isDynamic = false ∧
      (getDynamicShapeInfo (shape.map Nat.cast)).totalSize = shape.prod := by
  have hprod := prod_map_cast shape
  refine ⟨?_, hprod⟩
  rw [getDynamicShapeInfo]
  simp only [hprod, decide_eq_false_iff_not]
  omega

theorem foldl_dynamicAxis (sizes : List Nat) (start : Nat) (axis : Int) :
    ((sizes.map (Nat.cast : Nat → Int)).zipIdx start).foldl
      (fun (axis : Int) entry => if entry.1 < 0 then (entry.2 : Int) else axis) axis = axis := by
  induction sizes generalizing start with
  | nil => rfl
  | cons size sizes ih =>
    rw [map_cons, zipIdx_cons, foldl_cons, if_neg (by simp)]
    exact ih (start + 1)

theorem getDynamicShapeInfo_open {front back : List Nat} (hpos : 0 < front.prod * back.prod) :
    getDynamicShapeInfo (front.map Nat.cast ++ (-1) :: back.map Nat.cast) =
      ⟨true, front.length, -(front.prod * back.prod : Nat)⟩ := by
  have hprod : (front.map (Nat.cast : Nat → Int) ++ (-1) :: back.map Nat.cast).prod =
      -((front.prod * back.prod : Nat) : Int) := by
    rw [prod_append, prod_cons, prod_map_cast, prod_map_cast]
    push_cast
    ring
  have haxis : ((front.map (Nat.cast : Nat → Int) ++ (-1) :: back.map Nat.cast).zipIdx).foldl
      (fun (axis : Int) (entry : Int × Nat) => if entry.1 < 0 then (entry.2 : Int) else axis) (-1 : Int) =
        (front.length : Int) := by
    rw [zipIdx_append, foldl_append, foldl_dynamicAxis, zipIdx_cons,
      foldl_cons, if_pos (by norm_num), foldl_dynamicAxis]
    simp
  rw [getDynamicShapeInfo, haxis, hprod]
  simp only [DynamicShapeInfo.mk.injEq, decide_eq_true_eq, and_true]
  omega

theorem handleDynamicShape_eq {shape target : List Nat} {dst : List Int} (hdst : Targets dst target)
    (hpos : ∀ size ∈ target, 0 < size) (hprod : target.prod = shape.prod) :
    handleDynamicShape (shape.map Nat.cast) dst =
      .ok ⟨shape.map Nat.cast, target.map Nat.cast, false⟩ := by
  obtain ⟨hinput, hinputSize⟩ := getDynamicShapeInfo_cast shape
  unfold handleDynamicShape
  rcases hdst with rfl | ⟨front, back, size, rfl, rfl⟩
  · obtain ⟨houtput, houtputSize⟩ := getDynamicShapeInfo_cast target
    simp only [hinput, houtput, hinputSize, houtputSize, hprod]
    simp
  · have hall := prod_pos fun size hsize => hpos size hsize
    rw [prod_append, prod_cons] at hall hprod
    have hrest : 0 < front.prod * back.prod := by
      refine Nat.pos_of_ne_zero fun hzero => ?_
      have hswap : front.prod * (size * back.prod) = size * (front.prod * back.prod) := by ring
      rw [hswap, hzero, Nat.mul_zero] at hall
      exact absurd hall (lt_irrefl 0)
    have hdiv : (-(shape.prod : Int)).fdiv (-((front.prod * back.prod : Nat) : Int)) = size := by
      rw [Int.neg_fdiv_neg, ← hprod]
      have hswap : ((front.prod * (size * back.prod) : Nat) : Int) =
          (size : Int) * ((front.prod * back.prod : Nat) : Int) := by
        push_cast
        ring
      rw [hswap]
      exact Int.mul_fdiv_cancel _ (by exact_mod_cast hrest.ne')
    rw [getDynamicShapeInfo_open hrest]
    simp only [hinput, hinputSize, hdiv]
    simp

/-! ## Merging the axes -/

open CutShape

/-- The sizes waiting for a leading axis, and the groups complete so far. -/
def mergeInto (dim : MappedDim) (state : Nat × List MappedDim) : Nat × List MappedDim :=
  if dim.2 ≠ .axis NONE then (1, (state.1 * dim.1, dim.2) :: state.2)
  else (state.1 * dim.1, state.2)

def mergedGroups (dims : List MappedDim) : List MappedDim :=
  let state := dims.foldr mergeInto (1, [])
  match dims with
  | [] => []
  | first :: _ => if first.2 = .axis NONE then (state.1, .axis NONE) :: state.2 else state.2

def groupSizes (groups : List MappedDim) : List Int := groups.map fun group => (group.1 : Int)

def groupMaps (groups : List MappedDim) : TensorMap := groups.map Prod.snd

theorem foldr_mergeAxis_eq (shape : List Nat) (tensorMap : TensorMap) :
    ((shape.map Nat.cast).zip tensorMap).foldr mergeAxis (1, [], []) =
      ((((shape.zip tensorMap).foldr mergeInto (1, [])).1 : Int),
        groupSizes ((shape.zip tensorMap).foldr mergeInto (1, [])).2,
        groupMaps ((shape.zip tensorMap).foldr mergeInto (1, [])).2) := by
  induction shape generalizing tensorMap with
  | nil => rfl
  | cons size shape ih =>
    cases tensorMap with
    | nil => rfl
    | cons mapping tensorMap =>
      rw [map_cons, zip_cons_cons, zip_cons_cons, foldr_cons, foldr_cons, ih, mergeAxis, mergeInto]
      split <;> simp [groupSizes, groupMaps]

theorem mergeUnsharedAxis_eq {shape : List Nat} {tensorMap : TensorMap}
    (hlen : tensorMap.length = shape.length) (hne : shape ≠ []) :
    mergeUnsharedAxis (shape.map Nat.cast) tensorMap =
      .ok (groupSizes (mergedGroups (shape.zip tensorMap)),
        groupMaps (mergedGroups (shape.zip tensorMap))) := by
  unfold mergeUnsharedAxis
  rw [if_neg (by simp [hlen]), foldr_mergeAxis_eq]
  cases tensorMap with
  | nil => exact absurd (eq_nil_of_length_eq_zero hlen.symm) hne
  | cons mapping tensorMap =>
    cases shape with
    | nil => exact absurd rfl hne
    | cons size shape =>
      rw [zip_cons_cons, mergedGroups]
      dsimp only
      split <;> rfl

theorem mergeUnsharedAxis_nil (tensorMap : TensorMap) (h : tensorMap.length = 0) :
    mergeUnsharedAxis [] tensorMap = .error .indexOutOfRange := by
  obtain rfl := eq_nil_of_length_eq_zero h
  rfl

section Cuts

variable (count index : DimMapping → Nat)

def cutOf (dim : MappedDim) : Cut := ⟨dim.1, count dim.2, index dim.2⟩

variable {count index}

theorem cutOf_none (hcount : count (.axis NONE) = 1) (hindex : index (.axis NONE) = 0) (size : Nat) :
    cutOf count index (size, .axis NONE) = .plain size := by
  rw [cutOf, hcount, hindex]
  rfl

theorem cutOf_widen (size more : Nat) (mapping : DimMapping) :
    (cutOf count index (size, mapping)).widen more = cutOf count index (size * more, mapping) := rfl

theorem foldr_mergeInto_regroup (hcount : count (.axis NONE) = 1) (hindex : index (.axis NONE) = 0)
    (dims : List MappedDim) :
    ∃ (pending : List Nat) (rest : List Cut), dims.map (cutOf count index) = pending.map .plain ++ rest ∧
      (dims.foldr mergeInto (1, [])).1 = pending.prod ∧
      Regroup rest ((dims.foldr mergeInto (1, [])).2.map (cutOf count index)) := by
  induction dims with
  | nil => exact ⟨[], [], rfl, rfl, .nil⟩
  | cons dim dims ih =>
    obtain ⟨pending, rest, hdims, hprod, hregroup⟩ := ih
    rw [map_cons, foldr_cons, mergeInto, hdims]
    by_cases hnone : dim.2 = .axis NONE
    · refine ⟨dim.1 :: pending, rest, ?_, ?_, ?_⟩
      · have hdim : dim = (dim.1, .axis NONE) := by rw [← hnone]
        rw [hdim, cutOf_none hcount hindex]
        rfl
      · rw [if_neg (by simpa using hnone), hprod, prod_cons, Nat.mul_comm]
      · rw [if_neg (by simpa using hnone)]
        exact hregroup
    · refine ⟨[], cutOf count index dim :: (pending.map .plain ++ rest), rfl, ?_, ?_⟩
      · rw [if_pos hnone]
        rfl
      · rw [if_pos hnone, hprod, map_cons, Nat.mul_comm, ← cutOf_widen]
        exact .lead _ pending hregroup

theorem mergedGroups_regroup (hcount : count (.axis NONE) = 1) (hindex : index (.axis NONE) = 0)
    (dims : List MappedDim) :
    Regroup (dims.map (cutOf count index)) ((mergedGroups dims).map (cutOf count index)) := by
  cases dims with
  | nil => exact .nil
  | cons dim dims =>
    obtain ⟨pending, rest, hdims, hprod, hregroup⟩ := foldr_mergeInto_regroup hcount hindex dims
    rw [mergedGroups, map_cons, hdims, foldr_cons, mergeInto]
    by_cases hnone : dim.2 = .axis NONE
    · rw [if_pos hnone, if_neg (by simpa using hnone), hprod, map_cons, Nat.mul_comm, ← cutOf_widen]
      have hdim : dim = (dim.1, .axis NONE) := by rw [← hnone]
      rw [← hdim]
      exact .lead _ pending hregroup
    · rw [if_neg hnone, if_pos hnone, hprod, map_cons, Nat.mul_comm, ← cutOf_widen]
      exact .lead _ pending hregroup

end Cuts

/-! ## Completing groups -/

theorem readAt_natCast {α : Type} {xs : List α} {i : Nat} (hi : i < xs.length) :
    readAt xs i = .ok xs[i] := by
  rw [readAt, pyGet?_natCast, getElem?_eq_getElem hi]

theorem mem_of_readAt {α : Type} {xs : List α} {i : Int} {x : α} (h : readAt xs i = .ok x) :
    x ∈ xs := by
  unfold readAt pyGet? at h
  split at h
  · rename_i found hfound
    obtain rfl := Except.ok.inj h
    split at hfound
    · exact mem_of_getElem? hfound
    · split at hfound
      · exact mem_of_getElem? hfound
      · cases hfound
  · cases h

structure GroupsOk (meshShape : MeshShape) (groups : List MappedDim) : Prop where
  mesh : 0 < meshShape.length
  size_pos : ∀ group ∈ groups, 0 < group.1
  entry : ∀ group ∈ groups, EntryOk meshShape.length group.2
  sharded : ∀ group ∈ groups, group.2 ≠ .axis NONE → 2 ≤ shardCount meshShape group.2

def Completes (meshShape : MeshShape) (mapping : DimMapping) (size : Nat) : Prop :=
  mapping ≠ .axis NONE → shardCount meshShape mapping ∣ size

section Walk

variable {request : ReshapeRequest} {groups : List MappedDim}

theorem completeGroup_of_readAt (hgroups : GroupsOk request.meshShape groups) {cursor : Int}
    {mapping : DimMapping} (hread : readAt (groupMaps groups) cursor = .ok mapping) {size : Nat}
    (hsize : 0 < size) :
    (Completes request.meshShape mapping size ∧
        request.completeGroup (groupMaps groups) cursor size = .ok mapping) ∨
      (¬ Completes request.meshShape mapping size ∧
        request.completeGroup (groupMaps groups) cursor size = .error request.cannotReshape) := by
  obtain ⟨group, hgroup, hmapping⟩ := mem_map.mp (mem_of_readAt hread)
  rw [ReshapeRequest.completeGroup, hread]
  simp only [bind, Except.bind]
  by_cases hnone : mapping = .axis NONE
  · left
    refine ⟨fun hne => absurd hnone hne, ?_⟩
    rw [if_neg (not_not.mpr hnone)]
  · rw [if_pos hnone, ReshapeRequest.validateReshapeShard,
      request.shardSize_eq hgroups.mesh (hmapping ▸ hgroups.entry group hgroup)]
    have htwo := hgroups.sharded group hgroup (by rwa [hmapping])
    rw [hmapping] at htwo
    simp only [bind, Except.bind]
    rw [if_neg (show ¬ (size : Int) < 0 by omega)]
    have hmod : (size : Int).fmod (shardCount request.meshShape mapping) = 0 ↔
        shardCount request.meshShape mapping ∣ size := by
      rw [Int.fmod_eq_emod_of_nonneg _ (by omega), ← Int.dvd_iff_emod_eq_zero]
      exact Int.natCast_dvd_natCast
    by_cases hdvd : shardCount request.meshShape mapping ∣ size
    · left
      have hle := Nat.le_of_dvd hsize hdvd
      refine ⟨fun _ => hdvd, ?_⟩
      rw [if_neg]
      rintro (hlt | hne)
      · omega
      · exact hne (hmod.mpr hdvd)
    · right
      refine ⟨fun h => hdvd (h hnone), ?_⟩
      rw [if_pos (.inr fun hzero => hdvd (hmod.mp hzero))]

theorem readAt_groupMaps {front back : List MappedDim} {group : MappedDim}
    (hsplit : groups = front ++ group :: back) :
    readAt (groupMaps groups) front.length = .ok group.2 := by
  rw [readAt_natCast (by simp [groupMaps, hsplit])]
  simp [groupMaps, hsplit]

/-- The size that the cursor moves to. -/
theorem readAt_previous {before front back : List MappedDim} {previous : MappedDim}
    (hbefore : before = front ++ [previous]) (hsplit : groups = before ++ back) :
    ((before.length : Nat) : Int) - 1 = (front.length : Nat) ∧
      readAt (groupSizes groups) (front.length : Nat) = .ok ((previous.1 : Nat) : Int) := by
  constructor
  · simp [hbefore]
  · rw [readAt_natCast (by simp [groupSizes, hsplit, hbefore])]
    simp [groupSizes, hsplit, hbefore]

theorem prod_of_completed {size total : Nat} {rest : List Nat} (hsize : 0 < size)
    (hprod : (size :: rest).prod = total * size) : rest.prod = total := by
  rw [prod_cons, Nat.mul_comm] at hprod
  exact Nat.eq_of_mul_eq_mul_right hsize hprod

theorem prod_of_shared {size total quotient : Nat} {rest : List Nat} (hsize : 0 < size)
    (hprod : (size :: rest).prod = total * (size * quotient)) : rest.prod = total * quotient := by
  rw [prod_cons, Nat.mul_left_comm] at hprod
  exact Nat.eq_of_mul_eq_mul_left hsize hprod

theorem walk_cons (groups : List MappedDim) {size : Nat} (hsize : 0 < size) (rest : List Int)
    (cursor : Int) (curSize : Nat) (out : TensorMap) :
    request.walk (groupSizes groups) (groupMaps groups) (size :: rest) cursor curSize out =
      if ¬ size ∣ curSize then .error request.cannotReshape
      else if curSize = size then do
        let mapVal ← request.completeGroup (groupMaps groups) cursor size
        let nextSize ← readAt (groupSizes groups) (cursor - 1)
        request.walk (groupSizes groups) (groupMaps groups) rest (cursor - 1) nextSize (mapVal :: out)
      else
        request.walk (groupSizes groups) (groupMaps groups) rest cursor ((curSize / size : Nat) : Int)
          (.axis NONE :: out) := by
  have hmod : (curSize : Int).fmod size = 0 ↔ size ∣ curSize := by
    rw [Int.fmod_eq_emod_of_nonneg _ (by omega), ← Int.dvd_iff_emod_eq_zero]
    exact Int.natCast_dvd_natCast
  have hdiv : (curSize : Int).fdiv size = ((curSize / size : Nat) : Int) := by
    rw [Int.fdiv_eq_ediv_of_nonneg _ (by omega)]
    rfl
  rw [ReshapeRequest.walk, if_neg (show ¬ (size : Int) = 0 by omega), hdiv]
  by_cases hdvd : size ∣ curSize
  · rw [if_neg (not_not.mpr (hmod.mpr hdvd)), if_neg (not_not.mpr hdvd)]
    have hone : ((curSize / size : Nat) : Int) = 1 ↔ curSize = size := by
      rw [Nat.cast_eq_one]
      constructor
      · intro h
        rw [← Nat.div_mul_cancel hdvd, h, Nat.one_mul]
      · rintro rfl
        exact Nat.div_self hsize
    by_cases heq : curSize = size
    · rw [if_pos (hone.mpr heq), if_pos heq]
    · rw [if_neg (fun h => heq (hone.mp h)), if_neg heq]
  · rw [if_pos (fun h => hdvd (hmod.mp h)), if_pos hdvd]

theorem walk_ones (hgroups : GroupsOk request.meshShape groups) (n : Nat) {cursor : Int}
    {curSize : Nat} {out result : TensorMap}
    (h : request.walk (groupSizes groups) (groupMaps groups)
      ((replicate n 1).map (Nat.cast : Nat → Int)) cursor curSize out = .ok result) :
    result = replicate n (.axis NONE) ++ out := by
  induction n generalizing cursor curSize out with
  | zero => exact (Except.ok.inj h).symm
  | succ n ih =>
    rw [replicate_succ, map_cons, walk_cons groups Nat.one_pos,
      if_neg (not_not.mpr (Nat.one_dvd curSize))] at h
    rw [replicate_succ', append_assoc]
    split at h
    · obtain ⟨mapVal, hmapVal, h⟩ := bind_eq_ok h
      obtain ⟨nextSize, hnext, h⟩ := bind_eq_ok h
      obtain ⟨group, hgroup, rfl⟩ := mem_map.mp (mem_of_readAt hnext)
      have hread : readAt (groupMaps groups) cursor = .ok mapVal := by
        obtain ⟨found, hfound, hrest⟩ := bind_eq_ok hmapVal
        split at hrest
        · obtain ⟨_, _, hrest⟩ := bind_eq_ok hrest
          rw [hfound, hrest]
        · rw [hfound, hrest]
      have hnone : mapVal = .axis NONE := by
        by_contra hne
        obtain ⟨other, hother, hmap⟩ := mem_map.mp (mem_of_readAt hread)
        have htwo := hgroups.sharded other hother (by rwa [hmap])
        rcases completeGroup_of_readAt hgroups hread Nat.one_pos with ⟨hcompletes, -⟩ | ⟨-, herror⟩
        · have hle := Nat.le_of_dvd Nat.one_pos (hcompletes hne)
          rw [hmap] at htwo
          omega
        · rw [hmapVal] at herror
          cases herror
      rw [hnone] at h
      exact ih h
    · exact ih h

def shardMaps (maps : TensorMap) : TensorMap := maps.filter fun mapping => mapping ≠ .axis NONE

theorem shardMaps_append (front back : TensorMap) :
    shardMaps (front ++ back) = shardMaps front ++ shardMaps back :=
  List.filter_append ..

structure Reached (meshShape : MeshShape) (front : List MappedDim) (dst : List Nat)
    (maps : TensorMap) : Prop where
  length_eq : maps.length = dst.length
  completes : ∀ dim ∈ dst.zip maps, Completes meshShape dim.2 dim.1
  visited : ∃ unvisited visited, front = unvisited ++ visited ∧ (∀ group ∈ unvisited, group.1 = 1) ∧
    shardMaps maps = shardMaps (groupMaps visited) ∧
    ∀ group ∈ visited, Completes meshShape group.2 group.1

theorem completes_none (meshShape : MeshShape) (size : Nat) : Completes meshShape (.axis NONE) size :=
  fun h => absurd rfl h

theorem replicate_reached (meshShape : MeshShape) {front : List MappedDim}
    (hone : ∀ group ∈ front, group.1 = 1) {dst : List Nat} :
    Reached meshShape front dst (replicate dst.length (.axis NONE)) where
  length_eq := by simp
  completes := by
    intro dim hdim
    have hmap := eq_of_mem_replicate (of_mem_zip hdim).2
    rw [hmap]
    exact completes_none meshShape dim.1
  visited := by
    refine ⟨front, [], by simp, hone, ?_, by simp⟩
    simp [shardMaps, groupMaps]

variable {front : List MappedDim}

theorem Reached.snoc {meshShape : MeshShape} {dst : List Nat} {maps : TensorMap}
    (h : Reached meshShape front dst maps) {size : Nat} {group : MappedDim}
    (hcompletes : Completes meshShape group.2 size) (hdvd : size ∣ group.1) :
    Reached meshShape (front ++ [group]) (dst ++ [size]) (maps ++ [group.2]) where
  length_eq := by simp [h.length_eq]
  completes := by
    intro dim hdim
    rw [zip_append h.length_eq.symm] at hdim
    rcases mem_append.mp hdim with hold | hnew
    · exact h.completes dim hold
    · rw [mem_singleton.mp hnew]
      exact hcompletes
  visited := by
    obtain ⟨unvisited, visited, rfl, hone, hmaps, hall⟩ := h.visited
    refine ⟨unvisited, visited ++ [group], by rw [append_assoc], hone, ?_, ?_⟩
    · rw [shardMaps_append, hmaps, ← shardMaps_append]
      simp [groupMaps]
    · intro other hother
      rcases mem_append.mp hother with hold | hnew
      · exact hall other hold
      · rw [mem_singleton.mp hnew]
        exact fun hne => (hcompletes hne).trans hdvd

theorem Reached.snoc_none {meshShape : MeshShape} {dst : List Nat} {maps : TensorMap}
    (h : Reached meshShape front dst maps) (size : Nat) :
    Reached meshShape front (dst ++ [size]) (maps ++ [.axis NONE]) where
  length_eq := by simp [h.length_eq]
  completes := by
    intro dim hdim
    rw [zip_append h.length_eq.symm] at hdim
    rcases mem_append.mp hdim with hold | hnew
    · exact h.completes dim hold
    · rw [mem_singleton.mp hnew]
      exact completes_none meshShape size
  visited := by
    obtain ⟨unvisited, visited, hfront, hone, hmaps, hall⟩ := h.visited
    refine ⟨unvisited, visited, hfront, hone, ?_, hall⟩
    rw [shardMaps_append, hmaps]
    simp [shardMaps]

def OnesPlain (count index : DimMapping → Nat) (groups : List MappedDim) : Prop :=
  ∀ group ∈ groups, group.1 = 1 → cutOf count index group = .plain 1

theorem regroup_ones {count index : DimMapping → Nat} (hplain : OnesPlain count index front)
    (hone : ∀ group ∈ front, group.1 = 1) {cuts closed : List Cut} (h : Regroup cuts closed) :
    Regroup cuts (front.map (cutOf count index) ++ closed) := by
  induction front with
  | nil => exact h
  | cons group front ih =>
    rw [map_cons, cons_append, hplain group mem_cons_self (hone group mem_cons_self)]
    exact .dropOne (ih (fun other hother => hplain other (mem_cons_of_mem _ hother))
      fun other hother => hone other (mem_cons_of_mem _ hother))

theorem regroup_replicate {cuts closed : List Cut} (h : Regroup cuts closed) (n : Nat) :
    Regroup (replicate n (.plain 1) ++ cuts) closed := by
  induction n with
  | zero => exact h
  | succ n ih => exact .one ih

theorem map_cutOf_ones {count index : DimMapping → Nat} (hcount : count (.axis NONE) = 1)
    (hindex : index (.axis NONE) = 0) (n : Nat) :
    ((replicate n 1).zip (replicate n (.axis NONE))).map (cutOf count index) =
      replicate n (.plain 1) := by
  rw [zip_replicate', map_replicate, cutOf_none hcount hindex]

theorem eq_replicate_of_prod {sizes : List Nat} (h : sizes.prod = 1) :
    sizes = replicate sizes.length 1 := by
  refine eq_replicate_iff.mpr ⟨rfl, fun size hsize => ?_⟩
  have hdvd : size ∣ 1 := h ▸ dvd_prod hsize
  exact Nat.dvd_one.mp hdvd

theorem sizes_eq_one_of_prod (h : (front.map Prod.fst).prod = 1) :
    ∀ group ∈ front, group.1 = 1 := by
  intro group hgroup
  have hdvd : group.1 ∣ 1 := h ▸ dvd_prod (mem_map_of_mem hgroup)
  exact Nat.dvd_one.mp hdvd

theorem walk_regroup (hgroups : GroupsOk request.meshShape groups) {rdst : List Nat}
    (hpos : ∀ size ∈ rdst, 0 < size) {back : List MappedDim} {group : MappedDim}
    (hsplit : groups = front ++ group :: back) {curSize : Nat} (pending : List Nat)
    (hcur : 0 < curSize) (hprod : rdst.prod = (front.map Prod.fst).prod * curSize)
    (hgroup : group.1 = curSize * pending.prod) (hpending : curSize = 1 → pending = [])
    {out result : TensorMap}
    (h : request.walk (groupSizes groups) (groupMaps groups) (rdst.map Nat.cast) front.length curSize
      out = .ok result) :
    ∃ maps, result = maps ++ out ∧ Reached request.meshShape (front ++ [group]) rdst.reverse maps ∧
      ∀ (count index : DimMapping → Nat), count (.axis NONE) = 1 → index (.axis NONE) = 0 →
        OnesPlain count index groups → ∀ closed, Regroup closed (back.map (cutOf count index)) →
          Regroup ((rdst.reverse.zip maps).map (cutOf count index) ++ (pending.map .plain ++ closed))
            (groups.map (cutOf count index)) := by
  induction rdst generalizing front group back curSize pending out with
  | nil =>
    rw [prod_nil] at hprod
    have hfront : (front.map Prod.fst).prod = 1 := Nat.eq_one_of_mul_eq_one_right hprod.symm
    have hone : curSize = 1 := Nat.eq_one_of_mul_eq_one_left hprod.symm
    obtain rfl := hpending hone
    have hsizes : ∀ other ∈ front ++ [group], other.1 = 1 := by
      intro other hother
      rcases mem_append.mp hother with hold | hnew
      · exact sizes_eq_one_of_prod hfront other hold
      · rw [mem_singleton.mp hnew, hgroup, hone]
        rfl
    refine ⟨[], (Except.ok.inj h).symm, replicate_reached _ hsizes, ?_⟩
    intro count index _ _ hplain closed hclosed
    have hgroups' : groups.map (cutOf count index) =
        (front ++ [group]).map (cutOf count index) ++ back.map (cutOf count index) := by
      rw [hsplit, ← map_append, append_assoc]
      rfl
    rw [hgroups']
    refine regroup_ones (fun other hother => hplain other ?_) hsizes hclosed
    rw [hsplit]
    rcases mem_append.mp hother with hold | hnew
    · exact mem_append_left _ hold
    · rw [mem_singleton.mp hnew]
      simp
  | cons size rest ih =>
    have hsize : 0 < size := hpos size mem_cons_self
    have hrestPos : ∀ other ∈ rest, 0 < other := fun other hother =>
      hpos other (mem_cons_of_mem _ hother)
    rw [map_cons, walk_cons groups hsize] at h
    split at h
    · cases h
    rename_i hdvd
    replace hdvd := not_not.mp hdvd
    split at h
    · -- The dimension completes the group.
      rename_i heq
      subst heq
      obtain ⟨mapVal, hmapVal, h⟩ := bind_eq_ok h
      obtain ⟨nextSize, hnext, h⟩ := bind_eq_ok h
      have hcompletes : Completes request.meshShape group.2 curSize ∧ mapVal = group.2 := by
        rcases completeGroup_of_readAt hgroups (readAt_groupMaps hsplit) hsize with
          ⟨hcompletes, hok⟩ | ⟨-, herror⟩
        · exact ⟨hcompletes, Except.ok.inj (hmapVal.symm.trans hok)⟩
        · rw [hmapVal] at herror
          cases herror
      obtain ⟨hcompletes, rfl⟩ := hcompletes
      have hrestProd := prod_of_completed hsize hprod
      have hcut : ∀ count index : DimMapping → Nat,
          (cutOf count index (curSize, group.2)).widen pending.prod = cutOf count index group := by
        intro count index
        rw [cutOf_widen, ← hgroup]
      rcases eq_nil_or_concat front with rfl | ⟨before, previous, rfl⟩
      · -- It was the first group.
        have hones := eq_replicate_of_prod hrestProd
        rw [hones] at h
        have hresult : result = replicate rest.length (.axis NONE) ++ group.2 :: out := by
          obtain ⟨nextNat, hnat⟩ : ∃ n : Nat, nextSize = n := by
            obtain ⟨other, -, hother⟩ := mem_map.mp (mem_of_readAt hnext)
            exact ⟨other.1, hother.symm⟩
          rw [hnat] at h
          exact walk_ones hgroups rest.length h
        have hempty := @replicate_reached request.meshShape [] (by simp) rest.reverse
        rw [length_reverse] at hempty
        refine ⟨replicate rest.length (.axis NONE) ++ [group.2], by rw [hresult]; simp, ?_, ?_⟩
        · rw [reverse_cons]
          exact hempty.snoc hcompletes ⟨pending.prod, hgroup⟩
        · intro count index hcount hindex _ closed hclosed
          have hzip : (rest.reverse.zip (replicate rest.length (.axis NONE))).map
              (cutOf count index) = replicate rest.length (.plain 1) := by
            rw [hones, reverse_replicate, length_replicate]
            exact map_cutOf_ones hcount hindex rest.length
          rw [reverse_cons, zip_append (by simp), map_append, hzip, hsplit]
          simp only [zip_cons_cons, zip_nil_right, map_cons, map_nil,
            nil_append, append_assoc, singleton_append]
          refine regroup_replicate ?_ rest.length
          rw [← hcut count index]
          exact .lead _ pending hclosed
      · -- The cursor moves to the group before it.
        rw [concat_eq_append] at *
        obtain ⟨hcursor, hprevious⟩ := readAt_previous rfl hsplit
        rw [hcursor, hprevious] at hnext
        rw [hcursor, ← Except.ok.inj hnext] at h
        have hsplit' : groups = before ++ previous :: (group :: back) := by
          rw [hsplit, append_assoc]
          rfl
        have hpreviousPos := hgroups.size_pos previous (by rw [hsplit']; simp)
        have hrestProd' : rest.prod = (before.map Prod.fst).prod * previous.1 := by
          rw [hrestProd]
          simp
        obtain ⟨maps, hresult, hreached, hregroup⟩ := ih hrestPos hsplit' [] hpreviousPos
          hrestProd' (by simp) (fun _ => rfl) h
        refine ⟨maps ++ [group.2], by rw [hresult]; simp, ?_, ?_⟩
        · rw [reverse_cons]
          exact hreached.snoc hcompletes ⟨pending.prod, hgroup⟩
        · intro count index hcount hindex hplain closed hclosed
          have hlead : Regroup (cutOf count index (curSize, group.2) :: (pending.map .plain ++ closed))
              ((group :: back).map (cutOf count index)) := by
            rw [map_cons, ← hcut count index]
            exact .lead _ pending hclosed
          have hrest := hregroup count index hcount hindex hplain _ hlead
          rw [reverse_cons, zip_append hreached.length_eq.symm, map_append, append_assoc]
          exact hrest
    · -- The dimension is one of several of the group.
      rename_i hne
      obtain ⟨quotient, rfl⟩ := hdvd
      rw [Nat.mul_div_cancel_left _ hsize] at h
      have hquotient : quotient ≠ 1 := by
        rintro rfl
        exact hne (Nat.mul_one size)
      have hquotientPos : 0 < quotient := Nat.pos_of_mul_pos_left hcur
      have hrestProd := prod_of_shared hsize hprod
      obtain ⟨maps, hresult, hreached, hregroup⟩ := ih hrestPos hsplit (size :: pending)
        hquotientPos hrestProd (by rw [hgroup, prod_cons]; ring)
        (fun h => absurd h hquotient) h
      refine ⟨maps ++ [.axis NONE], by rw [hresult]; simp, ?_, ?_⟩
      · rw [reverse_cons]
        exact hreached.snoc_none size
      · intro count index hcount hindex hplain closed hclosed
        have hrest := hregroup count index hcount hindex hplain closed hclosed
        rw [reverse_cons, zip_append hreached.length_eq.symm, map_append, append_assoc]
        simpa [cutOf_none hcount hindex] using hrest

/-! ## Where the walk fails -/

theorem walk_past {n last : Nat} (hlast : last ≠ 1) (out : TensorMap) :
    request.walk (groupSizes groups) (groupMaps groups) ((replicate n 1).map Nat.cast) (-1) last
      out = .ok (replicate n (.axis NONE) ++ out) := by
  induction n generalizing out with
  | zero => rfl
  | succ n ih =>
    rw [replicate_succ, map_cons, walk_cons groups Nat.one_pos,
      if_neg (not_not.mpr (Nat.one_dvd last)), if_neg hlast, Nat.div_one, ih, replicate_succ',
      append_assoc]
    rfl

theorem readAt_last {group : MappedDim} {before : List MappedDim} (h : groups = before ++ [group]) :
    readAt (groupSizes groups) (-1) = .ok (group.1 : Int) := by
  have hread : pyGet? (groupSizes groups) (-1) = some (group.1 : Int) := by
    have hlen : (groupSizes groups).length = before.length + 1 := by simp [groupSizes, h]
    have hplace : (((groupSizes groups).length : Int) + -1).toNat = before.length := by omega
    rw [pyGet?, if_neg (by omega), if_pos (by omega), hplace]
    simp [groupSizes, h]
  rw [readAt, hread]

/-- Where the last group has more than one element, only a target that does not fit is refused. -/
theorem walk_error (hgroups : GroupsOk request.meshShape groups) {before : List MappedDim}
    {last : MappedDim} (hlastSplit : groups = before ++ [last]) (hlast : last.1 ≠ 1) {rdst : List Nat}
    (hpos : ∀ size ∈ rdst, 0 < size) {front back : List MappedDim} {group : MappedDim}
    (hsplit : groups = front ++ group :: back) {curSize : Nat} (hcur : 0 < curSize)
    (hprod : rdst.prod = (front.map Prod.fst).prod * curSize) {out : TensorMap} {error : ReshapeError}
    (h : request.walk (groupSizes groups) (groupMaps groups) (rdst.map Nat.cast) front.length curSize
      out = .error error) : error = request.cannotReshape := by
  induction rdst generalizing front group back curSize out with
  | nil => cases h
  | cons size rest ih =>
    have hsize : 0 < size := hpos size mem_cons_self
    have hrestPos : ∀ other ∈ rest, 0 < other := fun other hother =>
      hpos other (mem_cons_of_mem _ hother)
    rw [map_cons, walk_cons groups hsize] at h
    split at h
    · exact (Except.error.inj h).symm
    rename_i hdvd
    replace hdvd := not_not.mp hdvd
    split at h
    · rename_i heq
      subst heq
      have hrestProd := prod_of_completed hsize hprod
      rcases completeGroup_of_readAt hgroups (readAt_groupMaps hsplit) hsize with
        ⟨-, hok⟩ | ⟨-, herror⟩
      · rw [hok] at h
        rcases eq_nil_or_concat front with rfl | ⟨previousFront, previous, rfl⟩
        · have hcursor : ((([] : List MappedDim).length : Nat) : Int) - 1 = -1 := rfl
          rw [hcursor] at h
          simp only [bind, Except.bind, readAt_last hlastSplit] at h
          rw [eq_replicate_of_prod hrestProd, walk_past hlast] at h
          cases h
        · rw [concat_eq_append] at *
          obtain ⟨hcursor, hnext⟩ := readAt_previous rfl hsplit
          simp only [bind, Except.bind, hcursor, hnext] at h
          have hsplit' : groups = previousFront ++ previous :: (group :: back) := by
            rw [hsplit, append_assoc]
            rfl
          refine ih hrestPos hsplit' (hgroups.size_pos previous (by rw [hsplit']; simp)) ?_ h
          rw [hrestProd]
          simp
      · rw [herror] at h
        exact (Except.error.inj h).symm
    · obtain ⟨quotient, rfl⟩ := hdvd
      rw [Nat.mul_div_cancel_left _ hsize] at h
      exact ih hrestPos hsplit (Nat.pos_of_mul_pos_left hcur) (prod_of_shared hsize hprod) h

theorem walk_unsharded {last curSize : Nat} (hlast : last ≠ 1) {rdst : List Nat}
    (hpos : ∀ size ∈ rdst, 0 < size) (hcur : 0 < curSize) (hprod : rdst.prod = curSize)
    (out : TensorMap) :
    request.walk (groupSizes [(last, .axis NONE)]) (groupMaps [(last, .axis NONE)])
      (rdst.map Nat.cast) 0 curSize out = .ok (replicate rdst.length (.axis NONE) ++ out) := by
  induction rdst generalizing curSize out with
  | nil => rfl
  | cons size rest ih =>
    have hsize : 0 < size := hpos size mem_cons_self
    have hrestPos : ∀ other ∈ rest, 0 < other := fun other hother =>
      hpos other (mem_cons_of_mem _ hother)
    have hdvd : size ∣ curSize := ⟨rest.prod, by rw [← hprod, prod_cons]⟩
    rw [map_cons, walk_cons _ hsize, if_neg (not_not.mpr hdvd)]
    rw [length_cons, replicate_succ', append_assoc]
    split
    · rename_i heq
      subst heq
      rw [prod_cons] at hprod
      have hrestProd : rest.prod = 1 := Nat.eq_of_mul_eq_mul_left hsize (by rw [hprod, Nat.mul_one])
      have hread : readAt (groupSizes [(last, .axis NONE)]) (0 - 1) = .ok (last : Int) :=
        readAt_last (nil_append _).symm
      have hcomplete : request.completeGroup (groupMaps [(last, .axis NONE)]) 0 curSize =
          .ok (.axis NONE) := rfl
      rw [hcomplete]
      simp only [bind, Except.bind, hread]
      have hones := eq_replicate_of_prod hrestProd
      have hpast := @walk_past request [(last, .axis NONE)] rest.length last hlast (.axis NONE :: out)
      rw [← hones] at hpast
      exact hpast
    · obtain ⟨quotient, rfl⟩ := hdvd
      rw [Nat.mul_div_cancel_left _ hsize]
      refine ih hrestPos (Nat.pos_of_mul_pos_left hcur) ?_ _
      rw [prod_cons] at hprod
      exact Nat.eq_of_mul_eq_mul_left hsize hprod

/-- The groups themselves are a target that is reached, where every one of them can be completed. -/
theorem walk_visited (hgroups : GroupsOk request.meshShape groups) {visited : List MappedDim}
    (hcompletes : ∀ group ∈ visited, Completes request.meshShape group.2 group.1)
    {unvisited before back : List MappedDim} {group : MappedDim} (hvisited : visited = before ++ [group])
    (hsplit : groups = unvisited ++ visited ++ back) (out : TensorMap) :
    request.walk (groupSizes groups) (groupMaps groups) ((visited.map Prod.fst).reverse.map Nat.cast)
      (unvisited ++ before).length group.1 out = .ok (groupMaps visited ++ out) := by
  induction before using reverseRecOn generalizing visited group back out with
  | nil =>
    subst hvisited
    have hsize : 0 < group.1 := hgroups.size_pos group (by rw [hsplit]; simp)
    have hread := @readAt_groupMaps groups (unvisited ++ []) back group (by rw [hsplit]; simp)
    have hok := (completeGroup_of_readAt hgroups hread hsize).resolve_right
      fun h => h.1 (hcompletes group (by simp))
    obtain ⟨nextSize, hnext⟩ : ∃ nextSize,
        readAt (groupSizes groups) (((unvisited ++ []).length : Nat) - 1) = .ok nextSize := by
      rcases eq_nil_or_concat unvisited with rfl | ⟨front, previous, rfl⟩
      · obtain ⟨others, last, hlast⟩ : ∃ others last, groups = others ++ [last] := by
          rcases eq_nil_or_concat groups with hnil | ⟨others, last, hlast⟩
          · rw [hnil] at hsplit
            simp at hsplit
          · exact ⟨others, last, by rw [hlast, concat_eq_append]⟩
        exact ⟨_, readAt_last hlast⟩
      · rw [concat_eq_append] at *
        obtain ⟨hcursor, hnext⟩ := @readAt_previous groups (front ++ [previous] ++ []) front
          (group :: back) previous (append_nil _) (by rw [hsplit]; simp)
        exact ⟨_, by rw [hcursor, hnext]⟩
    simp only [nil_append, map_cons, map_nil, reverse_singleton]
    rw [walk_cons groups hsize, if_neg (not_not.mpr (dvd_refl _)), if_pos rfl, hok.2]
    simp only [bind, Except.bind, hnext]
    rfl
  | append_singleton before previous ih =>
    subst hvisited
    have hsize : 0 < group.1 := hgroups.size_pos group (by rw [hsplit]; simp)
    have hread := @readAt_groupMaps groups (unvisited ++ (before ++ [previous])) back group
      (by rw [hsplit]; simp)
    have hok := (completeGroup_of_readAt hgroups hread hsize).resolve_right
      fun h => h.1 (hcompletes group (by simp))
    obtain ⟨hcursor, hnext⟩ := @readAt_previous groups (unvisited ++ (before ++ [previous]))
      (unvisited ++ before) (group :: back) previous (append_assoc ..).symm (by rw [hsplit]; simp)
    rw [map_append, reverse_append, map_append]
    simp only [map_cons, map_nil, reverse_singleton, singleton_append]
    rw [walk_cons groups hsize, if_neg (not_not.mpr (dvd_refl _)), if_pos rfl, hok.2]
    simp only [bind, Except.bind, hcursor, hnext]
    have hsplit' : groups = unvisited ++ (before ++ [previous]) ++ (group :: back) := by
      rw [hsplit]
      simp
    rw [ih (fun other hother => hcompletes other (mem_append_left _ hother)) rfl hsplit']
    simp [groupMaps]

end Walk

end HyperParallel.Shard
