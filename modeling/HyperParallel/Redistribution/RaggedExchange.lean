import HyperParallel.Checkpoint.Ragged
import HyperParallel.Foundation.IntervalExchange

/-!
# Ragged to ragged

A change of the units only moves a ragged tensor with one variable all-to-all.
Every rank computes from the two layouts what it sends to each rank of the axis
and what it gets from each: the overlaps of its own interval with theirs.
-/

namespace HyperParallel.Redistribution

open Foundation Foundation.IntervalExchange List
open DTensor (Layout RaggedShardInfo RaggedShard DeviceMesh)
open Checkpoint (PlanError getLocalRank raggedConflict raggedInterval)

inductive RaggedError where
  /-- What the computation of a slice raises. -/
  | slice (error : PlanError)
  | localRankOutOfRange (meshDimSize localRank : Nat)
  | raggedMissing
  | meshDimsDiffer (source target : Nat)
  | dimsDiffer (source target : List Nat)
  | meshesDiffer
  | sourceStorage (localNumel : Nat) (inputSplits : List Nat)
  | exchangeSizes
  | targetStorage (localNumel : Nat) (outputSplits : List Nat)
  deriving DecidableEq, Repr

/-- `_compute_ragged_slice` for a given coordinate. -/
def computeRaggedSliceAt (globalShape : List Nat) (layout : Layout) (localRank : Nat) :
    Except RaggedError (Nat × Nat) :=
  match layout.raggedShard with
  | none => .error (.slice .raggedMissing)
  | some info =>
    let ragged := info.placement
    let prefixCells := (globalShape.take ragged.dims.length).prod
    let meshDimSize := layout.mesh.meshShape.getD info.meshDim 0
    match raggedConflict info (layout.placements.getD []) with
    | some meshDim => .error (.slice (.onlyReplicateBesideRagged meshDim))
    | none =>
      if globalShape.length < ragged.dims.length then .error (.slice .raggedDimsExceedRank)
      else if ragged.localUnits.length ≠ meshDimSize then
        .error (.slice (.raggedUnitsMismatch ragged.localUnits.length meshDimSize))
      else if prefixCells % ragged.localUnits.sum ≠ 0 then
        .error (.slice (.raggedNotDivisible prefixCells ragged.localUnits.sum))
      else if meshDimSize ≤ localRank then
        .error (.localRankOutOfRange meshDimSize localRank)
      else .ok (raggedInterval globalShape ragged localRank)

def localRankOf (mesh : DeviceMesh) (rank meshDim : Nat) : Except RaggedError Nat :=
  (getLocalRank mesh rank meshDim).mapError .slice

/-- What a rank sends to each rank of the axis, and what it gets from each. -/
def computeRaggedAllToAllSplits (globalShape : List Nat) (fromLayout toLayout : Layout)
    (rank : Nat) : Except RaggedError (List Nat × List Nat) :=
  match fromLayout.raggedShard, toLayout.raggedShard with
  | some sourceInfo, some targetInfo =>
    if sourceInfo.meshDim ≠ targetInfo.meshDim then
      .error (.meshDimsDiffer sourceInfo.meshDim targetInfo.meshDim)
    else if sourceInfo.placement.dims ≠ targetInfo.placement.dims then
      .error (.dimsDiffer sourceInfo.placement.dims targetInfo.placement.dims)
    else do
      let meshDim := sourceInfo.meshDim
      let sourceRank ← localRankOf fromLayout.mesh rank meshDim
      let targetRank ← localRankOf toLayout.mesh rank meshDim
      let sourceInterval ← computeRaggedSliceAt globalShape fromLayout sourceRank
      let targetInterval ← computeRaggedSliceAt globalShape toLayout targetRank
      let inputSplits ← (List.range (toLayout.mesh.meshShape.getD meshDim 0)).mapM
        fun other => do .ok (overlap sourceInterval (← computeRaggedSliceAt globalShape toLayout other))
      let outputSplits ← (List.range (fromLayout.mesh.meshShape.getD meshDim 0)).mapM
        fun other => do .ok (overlap (← computeRaggedSliceAt globalShape fromLayout other) targetInterval)
      .ok (inputSplits, outputSplits)
  | _, _ => .error .raggedMissing

/-! ## The exchange of a group -/

structure AllToAllCall (α : Type*) where
  input : List α
  inputSplits : List Nat
  outputSplits : List Nat

variable {α : Type*}

/-- The collective, over the calls of a group in its order: it completes when both ends of
every pair name the same size. -/
def allToAllSingle (calls : List (AllToAllCall α)) : Except RaggedError (List (List α)) :=
  if ∀ sender ∈ calls.zipIdx, ∀ receiver ∈ calls.zipIdx,
      sender.1.inputSplits[receiver.2]? = receiver.1.outputSplits[sender.2]? then
    .ok (calls.zipIdx.map fun receiver =>
      calls.flatMap fun sender => piece sender.input sender.inputSplits receiver.2)
  else .error .exchangeSizes

def raggedCall (globalShape : List Nat) (fromLayout toLayout : Layout) (rank : Nat)
    (flatInput : List α) : Except RaggedError (AllToAllCall α) :=
  if fromLayout.mesh.meshShape ≠ toLayout.mesh.meshShape ∨
      fromLayout.mesh.rankList ≠ toLayout.mesh.rankList then .error .meshesDiffer
  else
    match computeRaggedAllToAllSplits globalShape fromLayout toLayout rank with
    | .error error => .error error
    | .ok (inputSplits, outputSplits) =>
      if flatInput.length ≠ inputSplits.sum then
        .error (.sourceStorage flatInput.length inputSplits)
      else .ok ⟨flatInput, inputSplits, outputSplits⟩

/-- A rank that is alone on the axis keeps its elements. -/
def exchangeGroup (calls : List (AllToAllCall α)) : Except RaggedError (List (List α)) :=
  if calls.length = 1 then .ok (calls.map AllToAllCall.input) else allToAllSingle calls

/-- `ragged_to_ragged` on all ranks of one group, which is listed in the order of the collective. -/
def raggedToRagged (globalShape : List Nat) (fromLayout toLayout : Layout) (group : List Nat)
    (held : Nat → List α) : Except RaggedError (List (List α)) := do
  let calls ← group.mapM fun rank => raggedCall globalShape fromLayout toLayout rank (held rank)
  let outputs ← exchangeGroup calls
  (calls.zip outputs).mapM fun entry =>
    if entry.2.length ≠ entry.1.outputSplits.sum then
      .error (.targetStorage entry.2.length entry.1.outputSplits)
    else .ok entry.2

/-! ## The cuts of a ragged tensor -/

section Cuts

variable (globalShape : List Nat) (ragged : RaggedShard)

def raggedCut (localRank : Nat) : Nat := (raggedInterval globalShape ragged localRank).1

variable {globalShape ragged}

theorem raggedInterval_eq_cuts (localRank : Nat) :
    raggedInterval globalShape ragged localRank =
      (raggedCut globalShape ragged localRank, raggedCut globalShape ragged (localRank + 1)) := by
  have hsum : (ragged.localUnits.take (localRank + 1)).sum =
      (ragged.localUnits.take localRank).sum + ragged.localUnits.getD localRank 0 := by
    rw [take_add_one, sum_append, getD_eq_getElem?_getD]
    cases ragged.localUnits[localRank]? <;> simp
  simp only [raggedCut, raggedInterval, hsum, Nat.add_mul]

theorem raggedCut_mono : Monotone (raggedCut globalShape ragged) := by
  refine monotone_nat_of_le_succ fun localRank => ?_
  have hinterval := @raggedInterval_eq_cuts globalShape ragged localRank
  have hle : (raggedInterval globalShape ragged localRank).1 ≤
      (raggedInterval globalShape ragged localRank).2 := Nat.le_add_right _ _
  rw [hinterval] at hle
  exact hle

@[simp] theorem raggedCut_zero : raggedCut globalShape ragged 0 = 0 := by
  simp [raggedCut, raggedInterval]

theorem raggedCut_length
    (hdivides : (globalShape.take ragged.dims.length).prod % ragged.localUnits.sum = 0) :
    raggedCut globalShape ragged ragged.localUnits.length = globalShape.prod := by
  have hcells := Nat.mul_div_cancel' (Nat.dvd_of_mod_eq_zero hdivides)
  simp only [raggedCut, raggedInterval, take_length]
  rw [hcells, ← prod_append, take_append_drop]

end Cuts

/-! ## Layouts whose slices are computed -/

/-- What the computation of a slice checks. -/
structure RaggedOver (globalShape : List Nat) (layout : Layout) (info : RaggedShardInfo) :
    Prop where
  ragged : layout.raggedShard = some info
  onlyReplicate : raggedConflict info (layout.placements.getD []) = none
  dims : info.placement.dims.length ≤ globalShape.length
  units : info.placement.localUnits.length = layout.mesh.meshShape.getD info.meshDim 0
  divides : (globalShape.take info.placement.dims.length).prod % info.placement.localUnits.sum = 0

section Slices

variable {globalShape : List Nat} {layout : Layout} {info : RaggedShardInfo}

theorem raggedOver_of_ok {rank : Nat} {interval : Nat × Nat} (hinfo : layout.raggedShard = some info)
    (h : Checkpoint.computeRaggedSlice globalShape layout rank = .ok interval) :
    RaggedOver globalShape layout info := by
  rw [Checkpoint.computeRaggedSlice, hinfo] at h
  dsimp only at h
  cases hconflict : raggedConflict info (layout.placements.getD []) with
  | some meshDim =>
    rw [hconflict] at h
    cases h
  | none =>
    rw [hconflict] at h
    dsimp only at h
    split at h
    · cases h
    · rename_i hdims
      split at h
      · cases h
      · rename_i hunits
        split at h
        · cases h
        · rename_i hdivides
          exact ⟨hinfo, hconflict, Nat.le_of_not_lt hdims, not_not.mp hunits, not_not.mp hdivides⟩

theorem RaggedOver.slice (h : RaggedOver globalShape layout info) (rank : Nat) :
    Checkpoint.computeRaggedSlice globalShape layout rank =
      (getLocalRank layout.mesh rank info.meshDim).map
        (raggedInterval globalShape info.placement) := by
  rw [Checkpoint.computeRaggedSlice, h.ragged]
  simp only [h.onlyReplicate]
  rw [if_neg (Nat.not_lt.mpr h.dims), if_neg (not_not.mpr h.units), if_neg (not_not.mpr h.divides)]

theorem RaggedOver.sliceAt (h : RaggedOver globalShape layout info) {localRank : Nat}
    (hrank : localRank < info.placement.localUnits.length) :
    computeRaggedSliceAt globalShape layout localRank =
      .ok (raggedCut globalShape info.placement localRank,
        raggedCut globalShape info.placement (localRank + 1)) := by
  rw [computeRaggedSliceAt, h.ragged]
  simp only [h.onlyReplicate]
  rw [if_neg (Nat.not_lt.mpr h.dims), if_neg (not_not.mpr h.units), if_neg (not_not.mpr h.divides),
    if_neg (by rw [← h.units]; exact Nat.not_le.mpr hrank), raggedInterval_eq_cuts]

end Slices

/-! ## The splits -/

structure UnitsChange (fromLayout toLayout : Layout) (sourceInfo targetInfo : RaggedShardInfo) :
    Prop where
  source : fromLayout.raggedShard = some sourceInfo
  target : toLayout.raggedShard = some targetInfo
  meshShape : fromLayout.mesh.meshShape = toLayout.mesh.meshShape
  rankList : fromLayout.mesh.rankList = toLayout.mesh.rankList
  meshDim : sourceInfo.meshDim = targetInfo.meshDim
  dims : sourceInfo.placement.dims = targetInfo.placement.dims
  onlyReplicate : raggedConflict targetInfo (toLayout.placements.getD []) = none
  ranks : sourceInfo.placement.localUnits.length = targetInfo.placement.localUnits.length
  totals : sourceInfo.placement.localUnits.sum = targetInfo.placement.localUnits.sum

section Splits

variable {globalShape : List Nat} {fromLayout toLayout : Layout}
  {sourceInfo targetInfo : RaggedShardInfo}

theorem UnitsChange.overTarget (h : UnitsChange fromLayout toLayout sourceInfo targetInfo)
    (hover : RaggedOver globalShape fromLayout sourceInfo) :
    RaggedOver globalShape toLayout targetInfo where
  ragged := h.target
  onlyReplicate := h.onlyReplicate
  dims := h.dims ▸ hover.dims
  units := by rw [← h.ranks, hover.units, h.meshShape, h.meshDim]
  divides := by rw [← h.dims, ← h.totals, hover.divides]

def sendSizes (globalShape : List Nat) (source target : RaggedShard) (localRank : Nat) : List Nat :=
  splitSizes (raggedCut globalShape source localRank, raggedCut globalShape source (localRank + 1))
    (raggedCut globalShape target) source.localUnits.length

theorem computeRaggedAllToAllSplits_eq (h : UnitsChange fromLayout toLayout sourceInfo targetInfo)
    (hover : RaggedOver globalShape fromLayout sourceInfo) {rank localRank : Nat}
    (hrank : getLocalRank fromLayout.mesh rank sourceInfo.meshDim = .ok localRank)
    (hlt : localRank < sourceInfo.placement.localUnits.length) :
    computeRaggedAllToAllSplits globalShape fromLayout toLayout rank =
      .ok (sendSizes globalShape sourceInfo.placement targetInfo.placement localRank,
        sendSizes globalShape targetInfo.placement sourceInfo.placement localRank) := by
  have hover' := h.overTarget hover
  have hrank' : getLocalRank toLayout.mesh rank sourceInfo.meshDim = .ok localRank := by
    rw [← hrank, getLocalRank, getLocalRank, h.meshShape, h.rankList]
  have hinputs : (range (toLayout.mesh.meshShape.getD sourceInfo.meshDim 0)).mapM
      (fun other => do
        .ok (overlap (raggedCut globalShape sourceInfo.placement localRank,
          raggedCut globalShape sourceInfo.placement (localRank + 1))
          (← computeRaggedSliceAt globalShape toLayout other))) =
      .ok (sendSizes globalShape sourceInfo.placement targetInfo.placement localRank) := by
    rw [h.meshDim, ← hover'.units, sendSizes, splitSizes, h.ranks]
    refine mapM_eq_ok fun other hother => ?_
    rw [hover'.sliceAt (mem_range.mp hother)]
    rfl
  have houtputs : (range (fromLayout.mesh.meshShape.getD sourceInfo.meshDim 0)).mapM
      (fun other => do
        .ok (overlap (← computeRaggedSliceAt globalShape fromLayout other)
          (raggedCut globalShape targetInfo.placement localRank,
            raggedCut globalShape targetInfo.placement (localRank + 1)))) =
      .ok (sendSizes globalShape targetInfo.placement sourceInfo.placement localRank) := by
    rw [← hover.units, sendSizes, splitSizes, ← h.ranks]
    refine mapM_eq_ok fun other hother => ?_
    rw [hover.sliceAt (mem_range.mp hother), overlap_comm]
    rfl
  rw [computeRaggedAllToAllSplits, h.source, h.target]
  dsimp only
  rw [if_neg (not_not.mpr h.meshDim), if_neg (not_not.mpr h.dims), localRankOf, localRankOf, hrank,
    hrank']
  simp only [Except.mapError, bind, Except.bind]
  rw [hover.sliceAt hlt, hover'.sliceAt (h.ranks ▸ hlt)]
  simp only [bind, Except.bind] at hinputs houtputs ⊢
  rw [hinputs, houtputs]

theorem getElem?_sendSizes {source target : RaggedShard}
    (hunits : source.localUnits.length = target.localUnits.length) {sender receiver : Nat}
    (hsender : sender < source.localUnits.length) (hreceiver : receiver < source.localUnits.length) :
    (sendSizes globalShape source target sender)[receiver]? =
        some (overlap (raggedCut globalShape source sender, raggedCut globalShape source (sender + 1))
          (raggedCut globalShape target receiver, raggedCut globalShape target (receiver + 1))) ∧
      (sendSizes globalShape target source receiver)[sender]? =
        some (overlap (raggedCut globalShape source sender, raggedCut globalShape source (sender + 1))
          (raggedCut globalShape target receiver, raggedCut globalShape target (receiver + 1))) := by
  constructor
  · simp [sendSizes, splitSizes, getElem?_range hreceiver]
  · rw [overlap_comm]
    simp [sendSizes, splitSizes, getElem?_range (hunits ▸ hsender)]

theorem sum_sendSizes {source target : RaggedShard}
    (hsource : (globalShape.take source.dims.length).prod % source.localUnits.sum = 0)
    (htarget : (globalShape.take target.dims.length).prod % target.localUnits.sum = 0)
    (hunits : source.localUnits.length = target.localUnits.length) {localRank : Nat}
    (hlt : localRank < source.localUnits.length) :
    (sendSizes globalShape source target localRank).sum =
      raggedCut globalShape source (localRank + 1) - raggedCut globalShape source localRank := by
  have hlast : raggedCut globalShape source (localRank + 1) ≤
      raggedCut globalShape target source.localUnits.length := by
    rw [hunits, raggedCut_length htarget, ← raggedCut_length hsource]
    exact raggedCut_mono hlt
  have hfirst : raggedCut globalShape target 0 ≤ raggedCut globalShape source localRank := by
    rw [raggedCut_zero]
    exact Nat.zero_le _
  exact sum_splitSizes_of_covers (raggedCut_mono (Nat.le_add_right localRank 1)) raggedCut_mono
    hfirst hlast

end Splits

/-! ## The exchange gives each rank its target interval -/

def HoldsRagged (globalShape : List Nat) (layout : Layout) (flat : List α) (held : Nat → List α) :
    Prop :=
  flat.length = globalShape.prod ∧
    ∀ rank ∈ layout.mesh.rankList, ∃ interval,
      Checkpoint.computeRaggedSlice globalShape layout rank = .ok interval ∧
        held rank = segment flat interval.1 interval.2

/-- The exchange among `n` ranks, each named by its coordinate on the axis. -/
structure ExactExchange (globalShape : List Nat) (fromLayout toLayout : Layout) (flat : List α)
    (held : Nat → List α) (n : Nat) (peer : Nat → Nat) (inputSplits outputSplits : Nat → List Nat) :
    Prop where
  computed : ∀ i < n, computeRaggedAllToAllSplits globalShape fromLayout toLayout (peer i) =
    .ok (inputSplits i, outputSplits i)
  lengths : ∀ i < n, (inputSplits i).length = n ∧ (outputSplits i).length = n
  sizesAgree : ∀ i < n, ∀ j < n, (inputSplits i)[j]? = (outputSplits j)[i]?
  sourceTotal : ∀ i < n, (inputSplits i).sum = (held (peer i)).length
  target : ∀ j < n, ∃ interval,
    Checkpoint.computeRaggedSlice globalShape toLayout (peer j) = .ok interval ∧
      (outputSplits j).sum = interval.2 - interval.1 ∧
      received n (fun i => held (peer i)) inputSplits j = segment flat interval.1 interval.2

section Exchange

variable {globalShape : List Nat} {fromLayout toLayout : Layout}
  {sourceInfo targetInfo : RaggedShardInfo} {flat : List α} {held : Nat → List α}

theorem mem_rankList_of_getLocalRank {mesh : DeviceMesh} {rank meshDim localRank : Nat}
    (h : getLocalRank mesh rank meshDim = .ok localRank) : rank ∈ mesh.rankList := by
  unfold getLocalRank at h
  split at h
  · rename_i hmem
    exact hmem
  · cases h

theorem HoldsRagged.at_coordinate (hheld : HoldsRagged globalShape fromLayout flat held)
    (hinfo : fromLayout.raggedShard = some sourceInfo) {rank localRank : Nat}
    (hrank : getLocalRank fromLayout.mesh rank sourceInfo.meshDim = .ok localRank) :
    RaggedOver globalShape fromLayout sourceInfo ∧
      held rank = segment flat (raggedCut globalShape sourceInfo.placement localRank)
        (raggedCut globalShape sourceInfo.placement (localRank + 1)) := by
  obtain ⟨interval, hslice, hsegment⟩ := hheld.2 rank (mem_rankList_of_getLocalRank hrank)
  have hover := raggedOver_of_ok hinfo hslice
  refine ⟨hover, ?_⟩
  rw [hover.slice, hrank] at hslice
  obtain rfl := Except.ok.inj hslice
  rw [hsegment, raggedInterval_eq_cuts]

theorem received_sendSizes (hchange : UnitsChange fromLayout toLayout sourceInfo targetInfo)
    (hheld : HoldsRagged globalShape fromLayout flat held) {peer : Nat → Nat}
    (hpeer : ∀ i < sourceInfo.placement.localUnits.length,
      getLocalRank fromLayout.mesh (peer i) sourceInfo.meshDim = .ok i)
    {j : Nat} (hj : j < sourceInfo.placement.localUnits.length) :
    received sourceInfo.placement.localUnits.length (fun i => held (peer i))
        (sendSizes globalShape sourceInfo.placement targetInfo.placement) j =
      segment flat (raggedCut globalShape targetInfo.placement j)
        (raggedCut globalShape targetInfo.placement (j + 1)) := by
  have hover := (hheld.at_coordinate hchange.source (hpeer j hj)).1
  have hreceived : received sourceInfo.placement.localUnits.length (fun i => held (peer i))
      (sendSizes globalShape sourceInfo.placement targetInfo.placement) j =
      received sourceInfo.placement.localUnits.length
        (fun i => segment flat (raggedCut globalShape sourceInfo.placement i)
          (raggedCut globalShape sourceInfo.placement (i + 1)))
        (sendSizes globalShape sourceInfo.placement targetInfo.placement) j := by
    unfold received
    refine flatMap_congr fun i hi => ?_
    dsimp only
    rw [(hheld.at_coordinate hchange.source (hpeer i (mem_range.mp hi))).2]
  rw [hreceived]
  refine received_splitSizes flat raggedCut_mono raggedCut_mono raggedCut_zero raggedCut_zero ?_ hj
  rw [raggedCut_length hover.divides, hchange.ranks,
    raggedCut_length (hchange.overTarget hover).divides]

theorem sum_sendSizes_eq_length (hchange : UnitsChange fromLayout toLayout sourceInfo targetInfo)
    (hheld : HoldsRagged globalShape fromLayout flat held) {rank i : Nat}
    (hrank : getLocalRank fromLayout.mesh rank sourceInfo.meshDim = .ok i)
    (hi : i < sourceInfo.placement.localUnits.length) :
    (sendSizes globalShape sourceInfo.placement targetInfo.placement i).sum = (held rank).length := by
  obtain ⟨hover, hsegment⟩ := hheld.at_coordinate hchange.source hrank
  have hle : raggedCut globalShape sourceInfo.placement (i + 1) ≤ flat.length := by
    rw [hheld.1, ← raggedCut_length hover.divides]
    exact raggedCut_mono hi
  rw [hsegment, length_segment hle,
    sum_sendSizes hover.divides (hchange.overTarget hover).divides hchange.ranks hi]

end Exchange

theorem zipIdx_map_range {β : Type*} (f : Nat → β) (n : Nat) :
    ((range n).map f).zipIdx = (range n).map fun i => (f i, i) := by
  apply ext_getElem
  · simp
  · intro i hi hi'
    simp

def threeRanks : DeviceMesh where
  meshShape := [3]
  meshDimNames := none
  rankList := [0, 1, 2]
  names_ok := by simp
  ranks_ok := rfl

def unitsOf (first second third : Nat) (hpos : 0 < first + second + third) : RaggedShard where
  dims := [0]
  localUnits := [first, second, third]
  dims_ne_nil := by simp
  dims_prefix := rfl
  units_pos := by
    simp only [sum_cons, sum_nil]
    omega

def threeRankLayout (ragged : RaggedShard) : Layout where
  mesh := threeRanks
  tensorMap := some [.axis DTensor.NONE, .axis DTensor.NONE]
  partialOps := [none]
  placements := some [.raggedShard ragged]
  raggedShard := some ⟨0, ragged⟩
  tensorShape := none
  tensorStride := none
  tensorDtype := ""
  compactStr := ""

theorem threeRanks_change :
    UnitsChange (threeRankLayout (unitsOf 2 0 1 (by decide)))
      (threeRankLayout (unitsOf 0 1 2 (by decide))) ⟨0, unitsOf 2 0 1 (by decide)⟩
      ⟨0, unitsOf 0 1 2 (by decide)⟩ where
  source := rfl
  target := rfl
  meshShape := rfl
  rankList := rfl
  meshDim := rfl
  dims := rfl
  onlyReplicate := by decide
  ranks := rfl
  totals := rfl

/-- The elements of a tensor of shape `[3, 2]`, as the three ranks hold them. -/
def threeRanksHeld : Nat → List Nat
  | 0 => [10, 11, 12, 13]
  | 2 => [14, 15]
  | _ => []

theorem threeRanks_held :
    HoldsRagged [3, 2] (threeRankLayout (unitsOf 2 0 1 (by decide))) [10, 11, 12, 13, 14, 15]
      threeRanksHeld := by
  refine ⟨rfl, fun rank hrank => ?_⟩
  have hcases : rank = 0 ∨ rank = 1 ∨ rank = 2 := by simpa [threeRankLayout, threeRanks] using hrank
  rcases hcases with rfl | rfl | rfl
  · exact ⟨(0, 4), rfl, rfl⟩
  · exact ⟨(4, 4), rfl, rfl⟩
  · exact ⟨(4, 6), rfl, rfl⟩

end HyperParallel.Redistribution
