import HyperParallel.Pipeline.Step

/-!
# The column scan

Sends and receives are put into a compute schedule column by column: the items
of all ranks at one time step first, then the communications they cause, even
ranks before odd ones.  Both ends of a communication are appended together, so
the final lists are the views of one list of events.
-/

namespace HyperParallel.Pipeline

open Foundation List
open Rendezvous (Event Realizes view)

inductive ScanItem where
  | slot (slot : Slot)
  | phantom (overlap : Slot) (subStep : MetaStep) (isFirstHalf : Bool)

def expandSlot : Slot → List ScanItem
  | .overlap type first second =>
    [.phantom (.overlap type first second) first true,
     .phantom (.overlap type first second) second false]
  | slot => [.slot slot]

def expandOverlapSlots (scheduler : Schedule) (rank : Nat) : List ScanItem :=
  (scheduler rank).flatMap expandSlot

def appendTo (schedule : Schedule) (rank : Nat) (slots : List Slot) : Schedule :=
  Function.update schedule rank (schedule rank ++ slots)

section Peers

variable (style : Style) (stageNum realStageNum : Nat)

def fwdPeer (stageIndex : Nat) : Option Nat :=
  if stageNum - 1 ≤ stageIndex then none
  else
    let peer := stageToRank stageNum realStageNum style (stageIndex + 1)
    if peer ≠ stageToRank stageNum realStageNum style stageIndex then some peer else none

def bwdPeer (stageIndex : Nat) : Option Nat :=
  if stageIndex ≤ 0 then none
  else
    let peer := stageToRank stageNum realStageNum style (stageIndex - 1)
    if peer ≠ stageToRank stageNum realStageNum style stageIndex then some peer else none

/-- Overlaps are expanded before the scan, so a step is a single one here. -/
def insertCommsForStep (step : MetaStep) (rank : Nat) (newSchedule : Schedule) : Schedule :=
  match step.type with
  | .fwd =>
    match fwdPeer style stageNum realStageNum step.stageIndex with
    | some peer =>
      appendTo
        (appendTo newSchedule rank
          [.step ⟨step.microIndex, .dataSend, step.stageIndex⟩,
           .step ⟨step.microIndex, .fwdSend, step.stageIndex⟩])
        peer
        [.step ⟨step.microIndex, .dataRecv, step.stageIndex + 1⟩,
         .step ⟨step.microIndex, .fwdRecv, step.stageIndex + 1⟩]
    | none => newSchedule
  | .bwd =>
    match bwdPeer style stageNum realStageNum step.stageIndex with
    | some peer =>
      appendTo
        (appendTo newSchedule rank [.step ⟨step.microIndex, .bwdSend, step.stageIndex⟩])
        peer [.step ⟨step.microIndex, .bwdRecv, step.stageIndex - 1⟩]
    | none => newSchedule
  | _ => newSchedule

def insertCommsForItem (item : ScanItem) (rank : Nat) (newSchedule : Schedule) : Schedule :=
  match item with
  | .phantom _ subStep _ => insertCommsForStep style stageNum realStageNum subStep rank newSchedule
  | .slot (.step step) => insertCommsForStep style stageNum realStageNum step rank newSchedule
  | .slot _ => newSchedule

def ScanItem.emitted : ScanItem → List Slot
  | .slot single => [single]
  | .phantom overlap _ isFirstHalf => if isFirstHalf then [overlap] else []

def emitItem (item : ScanItem) (rank : Nat) (newSchedule : Schedule) : Schedule :=
  appendTo newSchedule rank item.emitted

def evenRanks : List Nat := (List.range realStageNum).filter (· % 2 = 0)

def oddRanks : List Nat := (List.range realStageNum).filter (· % 2 = 1)

/-- Apply `visit` to the item of each rank in the column, if it has one. -/
def visitColumn (expanded : Nat → List ScanItem) (timeStep : Nat)
    (visit : ScanItem → Nat → Schedule → Schedule) (ranks : List Nat) (newSchedule : Schedule) :
    Schedule :=
  ranks.foldl (fun newSchedule rank =>
    match (expanded rank)[timeStep]? with
    | some item => visit item rank newSchedule
    | none => newSchedule) newSchedule

def scanColumn (expanded : Nat → List ScanItem) (newSchedule : Schedule) (timeStep : Nat) :
    Schedule :=
  let emitted := visitColumn expanded timeStep emitItem (List.range realStageNum) newSchedule
  let evens := visitColumn expanded timeStep (insertCommsForItem style stageNum realStageNum)
    (evenRanks realStageNum) emitted
  visitColumn expanded timeStep (insertCommsForItem style stageNum realStageNum)
    (oddRanks realStageNum) evens

def maxLength (expanded : Nat → List ScanItem) : Nat :=
  ((List.range realStageNum).map fun rank => (expanded rank).length).foldr max 0

def columnScanInsertComms (expanded : Nat → List ScanItem) : Schedule :=
  (List.range (maxLength realStageNum expanded)).foldl
    (scanColumn style stageNum realStageNum expanded) fun _ => []

def loadsFor (slot : Slot) : List Slot :=
  (slot.leafSteps.filter fun step => step.type = .fwd).map fun step =>
    .step ⟨step.microIndex, .dataLoad, step.stageIndex⟩

def insertDataloadBeforeFwd (schedule : Schedule) : Schedule :=
  fun rank => (schedule rank).flatMap fun slot => loadsFor slot ++ [slot]

def addSendRecv (scheduler : Schedule) : Schedule :=
  insertDataloadBeforeFwd
    (columnScanInsertComms style stageNum realStageNum (expandOverlapSlots scheduler))

end Peers

theorem fwdPeer_loop {stageNum realStageNum stageIndex peer : Nat}
    (h : fwdPeer .loop stageNum realStageNum stageIndex = some peer) :
    peer = (stageIndex + 1) % realStageNum ∧ stageIndex % realStageNum ≠ peer ∧
      stageIndex + 1 < stageNum := by
  rw [fwdPeer] at h
  split at h
  · cases h
  · dsimp only at h
    split at h
    · rename_i hlast hne
      obtain rfl := Option.some.inj h
      exact ⟨rfl, hne.symm, by omega⟩
    · cases h

theorem bwdPeer_loop {stageNum realStageNum stageIndex peer : Nat}
    (h : bwdPeer .loop stageNum realStageNum stageIndex = some peer) :
    peer = (stageIndex - 1) % realStageNum ∧ stageIndex % realStageNum ≠ peer ∧ 0 < stageIndex := by
  rw [bwdPeer] at h
  split at h
  · cases h
  · dsimp only at h
    split at h
    · rename_i hfirst hne
      obtain rfl := Option.some.inj h
      exact ⟨rfl, hne.symm, by omega⟩
    · cases h

/-! ## One list of events -/

def Realizable (realStageNum : Nat) (schedule : Schedule) : Prop :=
  ∃ events, Realizes events (actions realStageNum schedule)

def IsComputeSchedule (realStageNum : Nat) (scheduler : Schedule) : Prop :=
  ∀ rank < realStageNum, ∀ slot ∈ scheduler rank, ∀ step ∈ slot.leafSteps,
    (step.type = .fwd ∨ step.type = .bwd) ∧ step.stageIndex % realStageNum = rank

section Scan

variable {realStageNum : Nat} {schedule : Schedule}

theorem actions_appendTo (schedule : Schedule) (rank : Nat) (slots : List Slot) (k : Nat) :
    actions realStageNum (appendTo schedule rank slots) k =
      actions realStageNum schedule k ++
        if k = rank then slots.map (action realStageNum) else [] := by
  by_cases hk : k = rank
  · simp [actions, appendTo, hk]
  · simp [actions, appendTo, hk]

theorem realizable_nil : Realizable realStageNum fun _ => [] := ⟨[], fun _ => rfl⟩

theorem Realizable.appendRuns (h : Realizable realStageNum schedule) (rank : Nat)
    {slots : List Slot} (hlocal : ∀ slot ∈ slots, action realStageNum slot = .run slot) :
    Realizable realStageNum (appendTo schedule rank slots) := by
  obtain ⟨events, hevents⟩ := h
  refine ⟨events ++ slots.map (Event.run rank), fun k => ?_⟩
  rw [actions_appendTo, hevents k, Rendezvous.view_append, Rendezvous.view_runs,
    map_congr_left hlocal]

theorem Realizable.appendTransfers (h : Realizable realStageNum schedule) {rank peer : Nat}
    (hne : rank ≠ peer) {sends receives : List Slot} (payloads : List Payload)
    (hsends : sends.map (action realStageNum) = payloads.map (.send peer))
    (hreceives : receives.map (action realStageNum) = payloads.map (.recv rank)) :
    Realizable realStageNum (appendTo (appendTo schedule rank sends) peer receives) := by
  obtain ⟨events, hevents⟩ := h
  refine ⟨events ++ Rendezvous.transfers hne payloads, fun k => ?_⟩
  rw [actions_appendTo, actions_appendTo, hevents k, Rendezvous.view_append, hsends, hreceives]
  by_cases hrank : k = rank
  · subst hrank
    rw [Rendezvous.view_transfers_source]
    simp [hne]
  · by_cases hpeer : k = peer
    · subst hpeer
      rw [Rendezvous.view_transfers_target]
      simp [hrank]
    · rw [Rendezvous.view_transfers_other hne payloads hrank hpeer]
      simp [hrank, hpeer]

theorem Realizable.insertCommsForStep (h : Realizable realStageNum schedule) (stageNum : Nat)
    {step : MetaStep} {rank : Nat} (howner : step.stageIndex % realStageNum = rank) :
    Realizable realStageNum
      (insertCommsForStep .loop stageNum realStageNum step rank schedule) := by
  rw [Pipeline.insertCommsForStep]
  split
  · -- forward: the data and the output travel together
    split
    · rename_i peer hpeer
      obtain ⟨rfl, hne, -⟩ := fwdPeer_loop hpeer
      refine h.appendTransfers (howner ▸ hne)
        [⟨.data, step.stageIndex, step.microIndex⟩, ⟨.fwd, step.stageIndex, step.microIndex⟩]
        rfl ?_
      simp [action, howner]
    · exact h
  · split
    · rename_i peer hpeer
      obtain ⟨rfl, hne, hpos⟩ := bwdPeer_loop hpeer
      have hback : step.stageIndex - 1 + 1 = step.stageIndex := by omega
      refine h.appendTransfers (howner ▸ hne) [⟨.bwd, step.stageIndex, step.microIndex⟩] rfl ?_
      simp [action, hback, howner]
    · exact h
  · exact h

variable {scheduler : Schedule}

theorem mem_expandOverlapSlots
    (hcompute : IsComputeSchedule realStageNum scheduler) {rank : Nat} (hrank : rank < realStageNum)
    {item : ScanItem} (hitem : item ∈ expandOverlapSlots scheduler rank) :
    (∀ slot ∈ item.emitted, action realStageNum slot = .run slot) ∧
      ∀ stageNum schedule, Realizable realStageNum schedule → Realizable realStageNum
        (insertCommsForItem .loop stageNum realStageNum item rank schedule) := by
  obtain ⟨slot, hslot, hitem⟩ := mem_flatMap.mp hitem
  have hleaf := hcompute rank hrank slot hslot
  cases slot with
  | bubble =>
    obtain rfl := mem_singleton.mp hitem
    exact ⟨by simp [ScanItem.emitted, action], fun _ _ h => h⟩
  | step leaf =>
    obtain rfl := mem_singleton.mp hitem
    obtain ⟨htype, howner⟩ := hleaf leaf (mem_singleton.mpr rfl)
    refine ⟨?_, fun stageNum schedule h => h.insertCommsForStep stageNum howner⟩
    obtain ⟨micro, type, stage⟩ := leaf
    rcases htype with rfl | rfl <;> simp [ScanItem.emitted, action]
  | overlap type first second =>
    rcases mem_pair.mp hitem with rfl | rfl
    · exact ⟨by simp [ScanItem.emitted, action], fun stageNum schedule h =>
        h.insertCommsForStep stageNum (hleaf first (by simp [Slot.leafSteps])).2⟩
    · exact ⟨by simp [ScanItem.emitted], fun stageNum schedule h =>
        h.insertCommsForStep stageNum (hleaf second (by simp [Slot.leafSteps])).2⟩

theorem Realizable.visitColumn (h : Realizable realStageNum schedule)
    {expanded : Nat → List ScanItem} {timeStep : Nat}
    {visit : ScanItem → Nat → Schedule → Schedule} {ranks : List Nat}
    (hvisit : ∀ rank ∈ ranks, ∀ item ∈ expanded rank, ∀ schedule,
      Realizable realStageNum schedule → Realizable realStageNum (visit item rank schedule)) :
    Realizable realStageNum (visitColumn expanded timeStep visit ranks schedule) := by
  induction ranks generalizing schedule with
  | nil => exact h
  | cons rank ranks ih =>
    rw [Pipeline.visitColumn, foldl_cons]
    refine ih ?_ fun r hr => hvisit r (mem_cons_of_mem rank hr)
    cases hget : (expanded rank)[timeStep]? with
    | none => exact h
    | some item =>
      exact hvisit rank mem_cons_self item (mem_of_getElem? hget) schedule h

theorem Realizable.scanColumn
    (hcompute : IsComputeSchedule realStageNum scheduler) (stageNum timeStep : Nat)
    (h : Realizable realStageNum schedule) :
    Realizable realStageNum (scanColumn .loop stageNum realStageNum
      (expandOverlapSlots scheduler) schedule timeStep) := by
  have hcomms : ∀ ranks : List Nat, (∀ rank ∈ ranks, rank < realStageNum) → ∀ rank ∈ ranks,
      ∀ item ∈ expandOverlapSlots scheduler rank, ∀ schedule,
      Realizable realStageNum schedule → Realizable realStageNum
        (insertCommsForItem .loop stageNum realStageNum item rank schedule) :=
    fun ranks hlt rank hrank item hitem schedule h =>
      (mem_expandOverlapSlots hcompute (hlt rank hrank) hitem).2 stageNum schedule h
  refine Realizable.visitColumn (Realizable.visitColumn (Realizable.visitColumn h ?_) ?_) ?_
  · intro rank hrank item hitem schedule h
    exact h.appendRuns rank (mem_expandOverlapSlots hcompute (mem_range.mp hrank) hitem).1
  · exact hcomms _ fun rank hrank => mem_range.mp (mem_of_mem_filter hrank)
  · exact hcomms _ fun rank hrank => mem_range.mp (mem_of_mem_filter hrank)

theorem columnScan_realizable
    (hcompute : IsComputeSchedule realStageNum scheduler) (stageNum : Nat) :
    Realizable realStageNum
      (columnScanInsertComms .loop stageNum realStageNum (expandOverlapSlots scheduler)) := by
  rw [columnScanInsertComms]
  have hfold : ∀ (columns : List Nat) (schedule : Schedule), Realizable realStageNum schedule →
      Realizable realStageNum (columns.foldl (Pipeline.scanColumn .loop stageNum realStageNum
        (expandOverlapSlots scheduler)) schedule) := by
    intro columns
    induction columns with
    | nil => exact fun _ h => h
    | cons timeStep columns ih =>
      exact fun schedule h => ih _ (Realizable.scanColumn hcompute stageNum timeStep h)
  exact hfold _ _ realizable_nil

theorem map_action_loadsFor (slot : Slot) :
    (loadsFor slot ++ [slot]).map (action realStageNum) =
      (action realStageNum slot).expand loadsFor := by
  cases slot with
  | bubble => rfl
  | step leaf =>
    obtain ⟨micro, type, stage⟩ := leaf
    cases type <;> rfl
  | overlap type first second =>
    have hloads : ∀ load ∈ loadsFor (.overlap type first second),
        action realStageNum load = .run load := by
      intro load hload
      obtain ⟨step, -, rfl⟩ := mem_map.mp hload
      rfl
    rw [map_append, map_congr_left hloads]
    simp [action, Rendezvous.Action.expand]

theorem Realizable.insertDataloadBeforeFwd (h : Realizable realStageNum schedule) :
    Realizable realStageNum (insertDataloadBeforeFwd schedule) := by
  obtain ⟨events, hevents⟩ := h
  refine ⟨events.flatMap (Event.expand loadsFor), fun rank => ?_⟩
  rw [← hevents.expand loadsFor rank]
  simp only [actions, Pipeline.insertDataloadBeforeFwd, map_flatMap, flatMap_map,
    map_action_loadsFor]

end Scan

/--
The lists of the column scan match in order between any two ranks, and no
interleaving of the ranks gets stuck before all have finished.
-/
theorem addSendRecv_deadlockFree (stageNum realStageNum : Nat) (scheduler : Schedule)
    (hcompute : IsComputeSchedule realStageNum scheduler) :
    let queues := actions realStageNum (addSendRecv .loop stageNum realStageNum scheduler)
    (∀ source target, Rendezvous.sentTo target (queues source) =
      Rendezvous.receivedFrom source (queues target)) ∧
    ∀ queues', Rendezvous.Reachable queues queues' → ¬Rendezvous.Finished queues' →
      ∃ queues'', Rendezvous.Step queues' queues'' := by
  intro queues
  obtain ⟨events, hevents⟩ := (columnScan_realizable hcompute stageNum).insertDataloadBeforeFwd
  exact ⟨hevents.sent_eq_received, fun queues' => hevents.not_stuck⟩

/-- Two ranks, two stages, and an overlap on the first rank. -/
theorem addSendRecv_deadlockFree_pair :
    let scheduler : Schedule := fun rank =>
      if rank = 0 then
        [.step ⟨0, .fwd, 0⟩, .bubble, .bubble, .overlap .bwdFwd ⟨0, .bwd, 0⟩ ⟨1, .fwd, 0⟩]
      else [.bubble, .step ⟨0, .fwd, 1⟩, .step ⟨0, .bwd, 1⟩, .bubble, .bubble,
        .step ⟨1, .fwd, 1⟩]
    let queues := actions 2 (addSendRecv .loop 2 2 scheduler)
    (∀ source target, Rendezvous.sentTo target (queues source) =
      Rendezvous.receivedFrom source (queues target)) ∧
    ∀ queues', Rendezvous.Reachable queues queues' → ¬Rendezvous.Finished queues' →
      ∃ queues'', Rendezvous.Step queues' queues'' :=
  addSendRecv_deadlockFree 2 2 _ (by unfold IsComputeSchedule; decide)

end HyperParallel.Pipeline
