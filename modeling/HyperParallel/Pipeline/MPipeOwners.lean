import HyperParallel.Pipeline.MPipeTransfers

/-!
# Data before the forwards of stage 0

Rank 0 loads or receives a micro-batch before it runs the first stage on it.  The
sampler, the schedule and the prefix name the same owners, but for the overflow
that rank 0 loads in place.
-/

namespace HyperParallel.Pipeline.ScheduleMPipeTranspose

open Foundation List
open ListOrder (occurrence_in_front occurrence_in_back occurrence_in_block)

def DataArrived (micro : Nat) (before : List MpipeStep) : Prop :=
  .data .dataLoad micro ∈ before ∨ .data .dataRecv micro ∈ before

instance (micro : Nat) (before : List MpipeStep) : Decidable (DataArrived micro before) :=
  inferInstanceAs (Decidable (_ ∨ _))

theorem DataArrived.mono {micro : Nat} {before later : List MpipeStep}
    (h : DataArrived micro before) (hsub : before ⊆ later) : DataArrived micro later := by
  rcases h with hload | hrecv
  · exact Or.inl (hsub hload)
  · exact Or.inr (hsub hrecv)

def fwdStage0 (micro : Nat) : MpipeStep := .body (.step ⟨micro, .fwd, 0⟩)

variable {schedule : ScheduleMPipeTranspose} {micro : Nat}

theorem arrived_of_transposed (hmicro : micro ∈ schedule.transposed) :
    DataArrived micro (schedule.buildTransposePrefix 0) := by
  by_cases howner : schedule.owner micro = 0
  · left
    have hmem : micro ∈ schedule.transposed.filter (schedule.owner · = 0) :=
      mem_filter.mpr ⟨hmicro, by simpa using howner⟩
    rw [← ownedMicros_eq] at hmem
    simp only [buildTransposePrefix, localPrefix, mem_append, mem_flatMap]
    exact Or.inl (Or.inr ⟨micro, hmem, mem_cons_self⟩)
  · right
    have hmem : micro ∈ schedule.nonOwned := by
      rw [nonOwned_eq]
      exact mem_filter.mpr ⟨hmicro, by simpa using howner⟩
    simp [buildTransposePrefix, prefixTransferSteps, prefixRecvTypes, hmem]

theorem fwdStage0_not_in_front (micro rank : Nat) :
    fwdStage0 micro ∉ schedule.buildTransposePrefix rank := by
  simp only [buildTransposePrefix, localPrefix, prefixTransferSteps, fwdStage0, mem_append]
  split_ifs <;> simp

theorem fwdStage0_not_in_cooldown (micro rank : Nat) :
    fwdStage0 micro ∉ schedule.cooldownSuffix rank := by
  simp only [cooldownSuffix, buildOwnerBackwardSuffix, fwdStage0]
  split_ifs <;> simp

theorem body_mem_bodyRuns {rank : Nat} {slot other : Slot}
    (h : .body other ∈ schedule.bodyRuns rank slot) : other = slot := by
  have hforward : .body other ∉ schedule.inlineForward slot := by
    unfold inlineForward
    split
    · split_ifs <;> simp
    · simp
  have hbackward : .body other ∉ schedule.inlineBackward slot := by
    unfold inlineBackward
    split
    · split_ifs <;> simp
    · simp
  rw [bodyRuns] at h
  split_ifs at h
  · simpa [hforward, hbackward] using h
  · simpa using h
  · cases h

theorem arrived_block {slot : Slot} {front back : List MpipeStep}
    (hoverflow : schedule.overflowMode = .min ∧ schedule.numTransposeMicroBatches ≤ micro)
    (hblock : schedule.bodyRuns 0 slot = front ++ fwdStage0 micro :: back) :
    DataArrived micro front := by
  obtain rfl : .step ⟨micro, .fwd, 0⟩ = slot :=
    body_mem_bodyRuns (h := show fwdStage0 micro ∈ schedule.bodyRuns 0 slot by simp [hblock])
  have hhead : ∃ rest, schedule.bodyRuns 0 (.step ⟨micro, .fwd, 0⟩) =
      .data .dataLoad micro :: rest := by
    simp [bodyRuns, inlineForward, hoverflow, Slot.isLoad]
  obtain ⟨rest, hhead⟩ := hhead
  rw [hhead] at hblock
  cases front with
  | nil => simp [fwdStage0] at hblock
  | cons step front =>
    obtain ⟨rfl, -⟩ := cons.inj hblock
    exact Or.inl mem_cons_self

theorem arrived_before {before after : List MpipeStep} (hmicro : micro < schedule.microBatchNum)
    (h : schedule.constructExecOrder 0 = before ++ fwdStage0 micro :: after) :
    DataArrived micro before := by
  rw [constructExecOrder, if_pos schedule.realStageNum_pos] at h
  obtain ⟨rest, hfront⟩ := occurrence_in_front (fwdStage0_not_in_cooldown micro 0) h
  obtain ⟨middle, rfl, hbody⟩ := occurrence_in_back (fwdStage0_not_in_front micro 0) hfront
  by_cases htransposed : micro ∈ schedule.transposed
  · exact (arrived_of_transposed htransposed).mono (subset_append_left _ _)
  · have hoverflow : schedule.overflowMode = .min ∧ schedule.numTransposeMicroBatches ≤ micro := by
      rw [transposed, mem_range] at htransposed
      cases hmode : schedule.overflowMode with
      | full => exact absurd hmicro (by simpa [hmode, transposedMicros] using htransposed)
      | min => exact ⟨rfl, by simpa [hmode, transposedMicros] using htransposed⟩
    rw [bodySteps_eq] at hbody
    obtain ⟨slot, -, front, back, hblock, hsub⟩ := occurrence_in_block hbody
    exact (arrived_block hoverflow hblock).mono fun step hstep =>
      mem_append_right _ (hsub hstep)

theorem fwdStage0_mem (hmicro : micro < schedule.microBatchNum) :
    fwdStage0 micro ∈ schedule.constructExecOrder 0 := by
  have hrank := schedule.realStageNum_pos
  have hstage : 0 < schedule.stageNum := Nat.mul_pos schedule.nLocalStages_pos hrank
  have hstep := (ScheduleInterleaved1F1B.fwdStep_mem_iff hrank hstage hmicro).mpr (Nat.zero_mod _)
  obtain ⟨slot, hslot, hleaf⟩ := mem_flatMap.mp hstep
  rw [← filter_addSendRecv ScheduleInterleaved1F1B.computeOrder_isComputeSchedule hrank
    schedule.stageNum] at hslot
  have hcomm := mem_of_mem_filter hslot
  -- without overlaps the slot of a forward holds nothing else
  obtain ⟨cursor, hcursor, rfl, -⟩ := ScheduleInterleaved1F1B.fwdSlot_of_mem hrank hcomm hleaf rfl
  have hplain : schedule.fwdSlot 0 cursor.opIndex = .step ⟨micro, .fwd, 0⟩ := by
    rw [ScheduleInterleaved1F1B.fwdSlot, if_neg (by
      simp [ScheduleInterleaved1F1B.Overlapped, schedule.overlapBF_eq]), ← hcursor]
  rw [hplain] at hcomm
  rw [constructExecOrder, if_pos hrank, bodySteps_eq, constructExecOrder_base]
  simp only [mem_append, mem_flatMap]
  refine Or.inl (Or.inr ⟨_, hcomm, ?_⟩)
  simp only [bodyRuns, Slot.isLoad, fwdStage0]
  split_ifs <;> simp_all

/-! ## The whole pass -/

theorem mem_ownedMicros {rank : Nat} :
    micro ∈ schedule.ownedMicros rank ↔
      micro < schedule.microBatchNum ∧ schedule.owner micro = rank :=
  mem_mpipeOwnedMicros schedule.realStageNum_pos _

theorem mem_prefixOwned {rank : Nat} :
    micro ∈ prefixOwnedMicros rank schedule.numTransposeMicroBatches schedule.microBatchNum
        schedule.overflowMode ↔
      micro < schedule.microBatchNum ∧ schedule.owner micro = rank ∧
        (schedule.overflowMode = .min → micro < schedule.numTransposeMicroBatches) := by
  have hle : schedule.numTransposeMicroBatches ≤ schedule.microBatchNum := Nat.min_le_right _ _
  rw [ownedMicros_eq, mem_filter, transposed, mem_range, decide_eq_true_eq]
  cases schedule.overflowMode with
  | full => simp [transposedMicros]
  | min =>
    simp only [transposedMicros, true_imp_iff]
    constructor
    · rintro ⟨hlt, howner⟩
      exact ⟨by omega, howner, hlt⟩
    · rintro ⟨-, howner, hlt⟩
      exact ⟨hlt, howner⟩

/--
What a rank sends is what its peer receives, in order, and no interleaving of the
ranks gets stuck.  Collectives count as local steps.
-/
theorem constructExecOrder_deadlockFree (schedule : ScheduleMPipeTranspose) :
    (∀ source target, Rendezvous.sentTo target (schedule.actions source) =
      Rendezvous.receivedFrom source (schedule.actions target)) ∧
    ∀ queues, Rendezvous.Reachable schedule.actions queues → ¬Rendezvous.Finished queues →
      ∃ queues', Rendezvous.Step queues queues' := by
  obtain ⟨events, hevents⟩ := schedule.constructExecOrder_realizable
  exact ⟨hevents.sent_eq_received, fun queues => hevents.not_stuck⟩

/--
Every micro-batch has one owner, the same for the schedule and the sampler; the
prefix names it too, unless rank 0 loads the micro-batch in place.  What an owner
sends to rank 0 is what rank 0 receives from it, in order, and the forward of
stage 0 comes after its data.
-/
theorem constructExecOrder_ownersAgree (schedule : ScheduleMPipeTranspose) :
    (∀ micro < schedule.microBatchNum,
      ∃! rank, rank < schedule.realStageNum ∧ micro ∈ schedule.ownedMicros rank) ∧
    (∀ rank micro, micro ∈ schedule.ownedMicros rank ↔
      micro < schedule.microBatchNum ∧ schedule.owner micro = rank) ∧
    (∀ rank micro, micro ∈ prefixOwnedMicros rank schedule.numTransposeMicroBatches
        schedule.microBatchNum schedule.overflowMode ↔
      micro < schedule.microBatchNum ∧ schedule.owner micro = rank ∧
        (schedule.overflowMode = .min → micro < schedule.numTransposeMicroBatches)) ∧
    (∀ rank < schedule.realStageNum, Rendezvous.sentTo 0 (schedule.actions rank) =
      Rendezvous.receivedFrom rank (schedule.actions 0)) ∧
    ∀ micro < schedule.microBatchNum, fwdStage0 micro ∈ schedule.constructExecOrder 0 ∧
      ∀ before after, schedule.constructExecOrder 0 = before ++ fwdStage0 micro :: after →
        DataArrived micro before := by
  obtain ⟨events, hevents⟩ := schedule.constructExecOrder_realizable
  refine ⟨fun micro hmicro => ?_, fun _ _ => mem_ownedMicros, fun _ _ => mem_prefixOwned,
    fun rank _ => hevents.sent_eq_received rank 0, fun micro hmicro =>
      ⟨fwdStage0_mem hmicro, fun before after => arrived_before hmicro⟩⟩
  refine ⟨schedule.owner micro, ⟨schedule.owner_lt micro, mem_ownedMicros.mpr ⟨hmicro, rfl⟩⟩, ?_⟩
  rintro rank ⟨-, hrank⟩
  exact (mem_ownedMicros.mp hrank).2.symm

/-- Two ranks and three micro-batches, the third of which overflows. -/
def overflowing : ScheduleMPipeTranspose where
  realStageNum := 2
  nLocalStages := 1
  microBatchNum := 3
  lessMemory := false
  overlapBF := false
  enableDxdwSplit := false
  realStageNum_pos := by decide
  nLocalStages_pos := Nat.one_pos
  microBatchNum_pos := by decide
  split_overlap := by decide
  overflowMode := .min
  numTransposeLayers := 1
  hasTrainablePreprocess := true
  ownerBackward := false
  overlapBF_eq := rfl
  trainable_of_ownerBackward := by decide

theorem overflowing_ownersAgree :
    (Rendezvous.sentTo 0 (overflowing.actions 1) =
      Rendezvous.receivedFrom 1 (overflowing.actions 0)) ∧
    ∀ before after, overflowing.constructExecOrder 0 = before ++ fwdStage0 2 :: after →
      DataArrived 2 before := by
  obtain ⟨-, -, -, hsent, harrived⟩ := constructExecOrder_ownersAgree overflowing
  exact ⟨hsent 1 (by decide), (harrived 2 (by decide)).2⟩

/-- Two ranks, three micro-batches: rank 0 owns the third, but its prefix leaves it out. -/
theorem overflow_not_in_prefix :
    ¬∀ (realStageNum microBatchNum : Nat) (overflowMode : OverflowMode), 0 < realStageNum →
      ∀ micro < microBatchNum, ∀ rank < realStageNum,
        (micro ∈ mpipeOwnedMicros realStageNum microBatchNum rank overflowMode ↔
          micro ∈ prefixOwnedMicros rank (min realStageNum microBatchNum) microBatchNum
            overflowMode) := by
  intro h
  have hfalse := h 2 3 .min (by decide) 2 (by decide) 0 (by decide)
  revert hfalse
  decide

end HyperParallel.Pipeline.ScheduleMPipeTranspose
