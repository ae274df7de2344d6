import HyperParallel.Pipeline.MPipe

/-!
# The transfers of the MPipe schedule

Prefix, body and cooldown are each the views of one list of events, and so is the
whole order: what a rank sends to another is what that one receives, in order.
-/

namespace HyperParallel.Pipeline.ScheduleMPipeTranspose

open Foundation List
open Rendezvous (Event Realizes view gather scatter view_gather view_scatter)

variable (schedule : ScheduleMPipeTranspose)

/-! ## The body -/

def bodyRuns (rank : Nat) (slot : Slot) : List MpipeStep :=
  if slot ≠ .bubble ∧ slot.isLoad = false then
    if rank = 0 ∧ ¬(schedule.hasTrainablePreprocess = false ∧ schedule.overflowMode = .full) then
      schedule.inlineForward slot ++ .body slot :: schedule.inlineBackward slot
    else [.body slot]
  else []

variable {schedule}

variable (rank : Nat)

theorem bodySteps_eq :
    schedule.bodySteps rank =
      (schedule.toScheduleInterleaved1F1B.constructExecOrder rank).flatMap
        (schedule.bodyRuns rank) := by
  by_cases hzero : rank = 0
  · subst hzero
    rw [bodySteps, if_pos rfl, insertRank0PreprocessSteps, bodyOrder]
    by_cases hplain : schedule.hasTrainablePreprocess = false ∧ schedule.overflowMode = .full
    · rw [if_pos hplain, map_eq_flatMap, ListOrder.flatMap_filter_eq]
      congr 1
      funext slot
      simp [bodyRuns, hplain]
    · rw [if_neg hplain, ListOrder.flatMap_filter_eq]
      congr 1
      funext slot
      simp only [bodyRuns, hplain, not_false_eq_true, and_self, if_true, decide_eq_true_eq]
  · rw [bodySteps, if_neg hzero, bodyOrder, map_eq_flatMap, ListOrder.flatMap_filter_eq]
    congr 1
    funext slot
    simp [bodyRuns, hzero]

theorem map_mpipeAction_bodyRuns (slot : Slot) :
    (schedule.bodyRuns rank slot).map schedule.mpipeAction =
      (action schedule.realStageNum slot).rewrite (schedule.bodyRuns rank) .body := by
  cases slot with
  | bubble => simp [bodyRuns, action, Rendezvous.Action.rewrite]
  | overlap type first second =>
    simp only [bodyRuns, action, Rendezvous.Action.rewrite, inlineForward, inlineBackward]
    split_ifs <;> simp [mpipeAction, action]
  | step leaf =>
    obtain ⟨micro, type, stage⟩ := leaf
    cases type <;> cases stage <;>
      simp only [bodyRuns, action, Rendezvous.Action.rewrite, inlineForward, inlineBackward] <;>
      split_ifs <;> simp_all [mpipeAction, action, Slot.isLoad]

theorem constructExecOrder_base :
    schedule.toScheduleInterleaved1F1B.constructExecOrder =
      schedule.toScheduleInterleaved1F1B.commOrder := by
  have hsplit : schedule.enableDxdwSplit = false := by
    cases h : schedule.enableDxdwSplit with
    | false => rfl
    | true => simpa [schedule.overlapBF_eq] using schedule.split_overlap h
  rw [ScheduleInterleaved1F1B.constructExecOrder, hsplit]
  rfl

theorem commOrder_eq_nil {rank : Nat} (hrank : schedule.realStageNum ≤ rank) :
    schedule.toScheduleInterleaved1F1B.commOrder rank = [] := by
  have hpos := schedule.realStageNum_pos
  have hscan : columnScanInsertComms .loop schedule.stageNum schedule.realStageNum
      (expandOverlapSlots schedule.computeOrder) rank = [] := by
    rw [columnScan_eq, flatMap_eq_nil_iff]
    intro timeStep _
    rw [append_eq_nil_iff]
    constructor
    · refine eq_nil_iff_forall_not_mem.mpr fun slot hslot => ?_
      have := (mem_emittedAt.mp hslot).1
      omega
    · refine eq_nil_iff_forall_not_mem.mpr fun slot hslot => ?_
      obtain ⟨source, hsource, step, hcolumn, hmem⟩ := mem_commsAt.mp hslot
      have howner := (hcolumn.spec ScheduleInterleaved1F1B.computeOrder_isComputeSchedule hsource).2
      have hnext := Nat.mod_lt (step.stageIndex + 1) hpos
      have hprev := Nat.mod_lt (step.stageIndex - 1) hpos
      rcases (mem_insertCommsForStep howner).mp hmem with
        ⟨-, -, -, ⟨rfl, -⟩ | ⟨rfl, -⟩⟩ | ⟨-, -, -, ⟨rfl, -⟩ | ⟨rfl, -⟩⟩ <;> omega
  rw [ScheduleInterleaved1F1B.commOrder, addSendRecv, insertDataloadBeforeFwd, hscan]
  rfl

theorem body_realizable :
    ∃ events, Realizes events fun rank => (schedule.bodySteps rank).map schedule.mpipeAction := by
  have hcompute := @ScheduleInterleaved1F1B.computeOrder_isComputeSchedule
    schedule.toScheduleInterleaved1F1B
  obtain ⟨events, hevents⟩ :=
    (columnScan_realizable hcompute schedule.stageNum).insertDataloadBeforeFwd
  refine ⟨events.flatMap (Event.rewrite schedule.bodyRuns .body), fun rank => ?_⟩
  rw [← hevents.rewrite schedule.bodyRuns MpipePayload.body rank]
  dsimp only
  rw [bodySteps_eq, constructExecOrder_base, map_flatMap]
  simp only [map_mpipeAction_bodyRuns, Pipeline.actions, flatMap_map]
  rfl

theorem bodySteps_eq_nil {rank : Nat} (hrank : schedule.realStageNum ≤ rank) :
    schedule.bodySteps rank = [] := by
  rw [bodySteps_eq, constructExecOrder_base, commOrder_eq_nil hrank]
  rfl

/-! ## The prefix -/

theorem numTransposeMicroBatches_pos : 0 < schedule.numTransposeMicroBatches :=
  Nat.lt_min.mpr ⟨schedule.realStageNum_pos, schedule.microBatchNum_pos⟩

theorem owner_lt (micro : Nat) : schedule.owner micro < schedule.realStageNum :=
  Nat.lt_of_lt_of_le (ownerOf_lt numTransposeMicroBatches_pos _) (Nat.min_le_left _ _)

variable (schedule) in
def transposed : List Nat :=
  List.range (transposedMicros schedule.numTransposeMicroBatches schedule.microBatchNum
    schedule.overflowMode)

theorem ownedMicros_eq :
    prefixOwnedMicros rank schedule.numTransposeMicroBatches schedule.microBatchNum
      schedule.overflowMode = schedule.transposed.filter (schedule.owner · = rank) :=
  prefixOwnedMicros_eq numTransposeMicroBatches_pos rank _

theorem nonOwned_eq : schedule.nonOwned = schedule.transposed.filter (schedule.owner · ≠ 0) := by
  rw [nonOwned, transposed]
  have hpos := schedule.numTransposeMicroBatches_pos
  cases hmode : schedule.overflowMode with
  | full =>
    refine filter_congr fun micro hmicro => ?_
    simp [prefixOwnedMicros_eq hpos, transposedMicros, owner, hmode, mem_range.mp hmicro]
  | min =>
    -- rank 0 owns its own one only
    obtain ⟨last, hlast⟩ := Nat.exists_eq_add_of_le' hpos
    have hself : ∀ micro ∈ List.range' 1 last, schedule.owner micro ≠ 0 := by
      intro micro hmicro
      rw [mem_range'_1] at hmicro
      rw [owner, hmode, ownerOf]
      split <;> omega
    have hzero : schedule.owner 0 = 0 := by
      rw [owner, hmode, ownerOf]
      split <;> rfl
    simp only [transposedMicros, hlast, range_eq_range']
    rw [Nat.succ_eq_add_one, List.range'_succ, filter_cons,
      filter_eq_self.mpr fun micro hmicro => by simp [hself micro hmicro]]
    simp [hzero]

theorem map_mpipeAction_localPrefix :
    (schedule.localPrefix rank).map schedule.mpipeAction =
      (schedule.localPrefix rank).map .run := by
  refine map_congr_left fun step hstep => ?_
  simp only [localPrefix, mem_append, mem_flatMap] at hstep
  rcases hstep with hbroadcast | ⟨micro, -, hstep⟩
  · split at hbroadcast
    · obtain rfl := mem_singleton.mp hbroadcast
      rfl
    · cases hbroadcast
  · rcases mem_cons.mp hstep with rfl | hforward
    · rfl
    · split at hforward
      · cases hforward
      · obtain rfl := mem_singleton.mp hforward
        rfl

variable (schedule) in
def prefixEvents (payload : Nat → MpipePayload) : List (Event Nat MpipeStep MpipePayload) :=
  gather 0 schedule.owner payload schedule.transposed

theorem view_prefixEvents (payload : Nat → MpipePayload) (rank : Nat) :
    view rank (schedule.prefixEvents payload) =
      if rank ≠ 0 then
        (prefixOwnedMicros rank schedule.numTransposeMicroBatches schedule.microBatchNum
          schedule.overflowMode).map fun micro => .send 0 (payload micro)
      else schedule.nonOwned.map fun micro => .recv (schedule.owner micro) (payload micro) := by
  rw [prefixEvents, view_gather, ownedMicros_eq, nonOwned_eq]
  by_cases hrank : rank = 0 <;> simp [hrank]

theorem prefixOwned_eq_nil {rank : Nat} (hrank : schedule.realStageNum ≤ rank) :
    prefixOwnedMicros rank schedule.numTransposeMicroBatches schedule.microBatchNum
      schedule.overflowMode = [] := by
  unfold prefixOwnedMicros
  exact if_pos (Nat.le_trans (Nat.min_le_left _ _) hrank)

variable (schedule) in
def transferEvents : List (Event Nat MpipeStep MpipePayload) :=
  schedule.prefixEvents .data ++
    if schedule.isDataloadOnly then [] else
      schedule.prefixEvents .features ++
        if schedule.shipGraph then schedule.prefixEvents .graphInput else []

theorem view_transferEvents :
    view rank schedule.transferEvents =
      (if rank ≠ 0 then
        prefixTransferSteps (prefixOwnedMicros rank schedule.numTransposeMicroBatches
          schedule.microBatchNum schedule.overflowMode) prefixSendTypes schedule.isDataloadOnly
          schedule.shipGraph
      else
        prefixTransferSteps schedule.nonOwned prefixRecvTypes schedule.isDataloadOnly
          schedule.shipGraph).map schedule.mpipeAction := by
  rw [transferEvents]
  cases schedule.isDataloadOnly <;> cases schedule.shipGraph <;> by_cases hrank : rank = 0 <;>
    simp [view_prefixEvents, prefixTransferSteps, prefixSendTypes, prefixRecvTypes, mpipeAction,
      hrank, Function.comp_def]

theorem prefix_realizable :
    ∃ events, Realizes events fun rank =>
      if rank < schedule.realStageNum then
        (schedule.buildTransposePrefix rank).map schedule.mpipeAction else [] := by
  refine ⟨(range schedule.realStageNum).flatMap (fun rank =>
      (schedule.localPrefix rank).map (Event.run rank)) ++ schedule.transferEvents, fun rank => ?_⟩
  dsimp only
  rw [Rendezvous.view_append, Rendezvous.view_flatMap_runs nodup_range, view_transferEvents]
  by_cases hrank : rank < schedule.realStageNum
  · simp only [hrank, if_true, mem_range, buildTransposePrefix, map_append,
      map_mpipeAction_localPrefix]
  · have hnone := schedule.prefixOwned_eq_nil (Nat.le_of_not_lt hrank)
    have hzero : rank ≠ 0 := by
      rintro rfl
      exact hrank schedule.realStageNum_pos
    simp [hrank, hnone, hzero, prefixTransferSteps]

/-! ## The cooldown -/

theorem suffix_realizable :
    ∃ events, Realizes events fun rank =>
      if rank < schedule.realStageNum then
        (schedule.cooldownSuffix rank).map schedule.mpipeAction else [] := by
  have hpos := schedule.realStageNum_pos
  by_cases howner : schedule.ownerBackward = true
  · refine ⟨scatter 0 schedule.owner .gradient (range schedule.microBatchNum) ++
      (range schedule.realStageNum).flatMap fun rank =>
        [MpipeStep.mpipe .gradReduce none].map (Event.run rank), fun rank => ?_⟩
    dsimp only
    rw [Rendezvous.view_append, Rendezvous.view_flatMap_runs nodup_range, view_scatter,
      cooldownSuffix, if_pos howner, buildOwnerBackwardSuffix]
    have hnone : schedule.numTransposeMicroBatches ≤ rank →
        (range schedule.microBatchNum).filter (schedule.owner · = rank) = [] := by
      intro hle
      refine filter_eq_nil_iff.mpr fun micro _ => ?_
      have hlt : schedule.owner micro < schedule.numTransposeMicroBatches :=
        ownerOf_lt numTransposeMicroBatches_pos _
      simp only [decide_eq_true_eq]
      omega
    by_cases hrank : rank < schedule.realStageNum
    · by_cases hzero : rank = 0
      · simp [hzero, hpos, mpipeAction]
      · by_cases hlt : rank < schedule.numTransposeMicroBatches
        · simp [hzero, hrank, hlt, mpipeAction]
        · simp [hzero, hrank, hlt, hnone (Nat.le_of_not_lt hlt), mpipeAction]
    · have hle : schedule.numTransposeMicroBatches ≤ rank :=
        Nat.le_trans (Nat.min_le_left _ _) (Nat.le_of_not_lt hrank)
      simp [hrank, hnone hle, show rank ≠ 0 by omega]
  · refine ⟨[], fun rank => ?_⟩
    simp [cooldownSuffix, howner]

theorem constructExecOrder_realizable : ∃ events, Realizes events schedule.actions := by
  obtain ⟨front, hfront⟩ := schedule.prefix_realizable
  obtain ⟨body, hbody⟩ := schedule.body_realizable
  obtain ⟨back, hback⟩ := schedule.suffix_realizable
  refine ⟨front ++ body ++ back, fun rank => ?_⟩
  rw [← (hfront.append hbody).append hback rank, actions, constructExecOrder]
  by_cases hrank : rank < schedule.realStageNum
  · simp [hrank]
  · simp [hrank, bodySteps_eq_nil (Nat.le_of_not_lt hrank)]

end HyperParallel.Pipeline.ScheduleMPipeTranspose
