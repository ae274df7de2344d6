import HyperParallel.Pipeline.InterleavedTiming
import HyperParallel.Pipeline.OverlapSplit

/-!
# Data correctness of the interleaved schedule

The columns of producers and consumers decide which receives come in time.
-/

namespace HyperParallel.Pipeline

open Foundation List

def leafCount (schedule : Schedule) (rank : Nat) (step : MetaStep) : Nat :=
  ((schedule rank).flatMap Slot.leafSteps).count step

/-- What a schedule has to do for its micro-batches, whichever way it runs its backwards. -/
structure DataCorrect (stageNum realStageNum microBatchNum : Nat) (execOrder : Schedule) :
    Prop where
  fwdOnce : ∀ rank < realStageNum, ∀ stage < stageNum, ∀ micro < microBatchNum,
    leafCount execOrder rank ⟨micro, .fwd, stage⟩ = if stage % realStageNum = rank then 1 else 0
  bwdOnce : ∀ rank < realStageNum, ∀ stage < stageNum, ∀ micro < microBatchNum,
    let owned := if stage % realStageNum = rank then 1 else 0
    (leafCount execOrder rank ⟨micro, .bwd, stage⟩ = owned ∧
      leafCount execOrder rank ⟨micro, .bwdInput, stage⟩ = 0 ∧
      leafCount execOrder rank ⟨micro, .bwdWeight, stage⟩ = 0) ∨
    (leafCount execOrder rank ⟨micro, .bwd, stage⟩ = 0 ∧
      leafCount execOrder rank ⟨micro, .bwdInput, stage⟩ = owned ∧
      leafCount execOrder rank ⟨micro, .bwdWeight, stage⟩ = owned)
  recvBeforeFwd : ∀ rank < realStageNum, ∀ slot ∈ execOrder rank, ∀ step ∈ slot.leafSteps,
    step.type = .fwd → 0 < step.stageIndex → (step.stageIndex - 1) % realStageNum ≠ rank →
    [.step ⟨step.microIndex, .fwdRecv, step.stageIndex⟩, slot].Sublist (execOrder rank)
  recvBeforeBwd : ∀ rank < realStageNum, ∀ slot ∈ execOrder rank, ∀ step ∈ slot.leafSteps,
    (step.type = .bwd ∨ step.type = .bwdInput) → step.stageIndex + 1 < stageNum →
    (step.stageIndex + 1) % realStageNum ≠ rank →
    [.step ⟨step.microIndex, .bwdRecv, step.stageIndex⟩, slot].Sublist (execOrder rank)
  fwdBeforeSend : ∀ rank < realStageNum, ∀ micro stage,
    .step ⟨micro, .fwdSend, stage⟩ ∈ execOrder rank →
    ∃ slot, ⟨micro, .fwd, stage⟩ ∈ slot.leafSteps ∧
      [slot, .step ⟨micro, .fwdSend, stage⟩].Sublist (execOrder rank)
  bwdBeforeSend : ∀ rank < realStageNum, ∀ micro stage,
    .step ⟨micro, .bwdSend, stage⟩ ∈ execOrder rank →
    ∃ slot, (⟨micro, .bwd, stage⟩ ∈ slot.leafSteps ∨ ⟨micro, .bwdInput, stage⟩ ∈ slot.leafSteps) ∧
      [slot, .step ⟨micro, .bwdSend, stage⟩].Sublist (execOrder rank)

/-! ## Correctness through the split -/

theorem mem_leafSteps_splitSlot {slot : Slot} {step : MetaStep}
    (h : step ∈ (splitSlot slot).leafSteps) :
    step ∈ slot.leafSteps ∨
      step.type = .bwdInput ∧ ⟨step.microIndex, .bwd, step.stageIndex⟩ ∈ slot.leafSteps := by
  unfold splitSlot at h
  split at h
  · rcases mem_pair.mp h with rfl | rfl
    · exact Or.inr ⟨rfl, mem_cons_self⟩
    · exact Or.inl (mem_cons_of_mem _ mem_cons_self)
  · exact Or.inl h

theorem leafSteps_splitSlot {slot : Slot} {step : MetaStep} (h : step ∈ slot.leafSteps) :
    step ∈ (splitSlot slot).leafSteps ∨
      step.type = .bwd ∧ ⟨step.microIndex, .bwdInput, step.stageIndex⟩ ∈ (splitSlot slot).leafSteps := by
  unfold splitSlot
  split
  · rcases mem_pair.mp h with rfl | rfl
    · exact Or.inr ⟨rfl, mem_cons_self⟩
    · exact Or.inl (mem_cons_of_mem _ mem_cons_self)
  · exact Or.inl h

theorem splitSlot_eq_step {source : Slot} {step : MetaStep} (h : splitSlot source = .step step) :
    source = .step step := by
  unfold splitSlot at h
  split at h
  · cases h
  · exact h

theorem DataCorrect.split {stageNum realStageNum microBatchNum : Nat} {execOrder : Schedule}
    (h : DataCorrect stageNum realStageNum microBatchNum execOrder)
    (hunsplit : ∀ rank < realStageNum, Unsplit (execOrder rank)) :
    DataCorrect stageNum realStageNum microBatchNum (splitOverlapDxdw execOrder) where
  fwdOnce rank hrank stage hstage micro hmicro := by
    rw [leafCount, splitOverlapDxdw, count_fwd_splitOrder (hunsplit rank hrank)]
    exact h.fwdOnce rank hrank stage hstage micro hmicro
  bwdOnce rank hrank stage hstage micro hmicro := by
    have hbwd := count_bwd_splitOrder (hunsplit rank hrank) micro stage
    have hweight := count_weight_splitOrder (hunsplit rank hrank) micro stage
    have hnone : ((execOrder rank).flatMap Slot.leafSteps).count ⟨micro, .bwdInput, stage⟩ = 0 := by
      refine count_eq_zero.mpr fun hmem => ?_
      obtain ⟨slot, hslot, hleaf⟩ := mem_flatMap.mp hmem
      exact (hunsplit rank hrank slot hslot _ hleaf).1 rfl
    have hwhole := h.bwdOnce rank hrank stage hstage micro hmicro
    simp only [leafCount, splitOverlapDxdw] at hwhole ⊢
    rw [hweight]
    split_ifs at hwhole ⊢ <;> omega
  recvBeforeFwd rank hrank slot hslot step hstep htype hpos hpeer := by
    rcases mem_splitOrder (hunsplit rank hrank) hslot with hweight | ⟨source, hsource, rfl⟩
    · cases slot with
      | step leaf =>
        obtain rfl := mem_singleton.mp hstep
        obtain ⟨micro, type, stage⟩ := step
        obtain rfl : type = .fwd := htype
        cases hweight
      | bubble => cases hstep
      | overlap type first second => cases hweight
    rcases mem_leafSteps_splitSlot hstep with hleaf | ⟨hinput, -⟩
    · have hpair := h.recvBeforeFwd rank hrank source hsource step hleaf htype hpos hpeer
      exact (splitOrder_pair_iff (hunsplit rank hrank) (hpair.subset mem_cons_self)
        hsource).mpr hpair
    · rw [htype] at hinput
      cases hinput
  recvBeforeBwd rank hrank slot hslot step hstep htype hlast hpeer := by
    rcases mem_splitOrder (hunsplit rank hrank) hslot with hweight | ⟨source, hsource, rfl⟩
    · cases slot with
      | step leaf =>
        obtain rfl := mem_singleton.mp hstep
        obtain ⟨micro, type, stage⟩ := step
        rcases htype with htype | htype <;> obtain rfl := htype <;> cases hweight
      | bubble => cases hstep
      | overlap type first second => cases hweight
    have hpair : [.step ⟨step.microIndex, .bwdRecv, step.stageIndex⟩, source].Sublist
        (execOrder rank) := by
      rcases mem_leafSteps_splitSlot hstep with hleaf | ⟨-, hleaf⟩
      · exact h.recvBeforeBwd rank hrank source hsource step hleaf htype hlast hpeer
      · exact h.recvBeforeBwd rank hrank source hsource ⟨step.microIndex, .bwd, step.stageIndex⟩
          hleaf (Or.inl rfl) hlast hpeer
    exact (splitOrder_pair_iff (hunsplit rank hrank) (hpair.subset mem_cons_self)
      hsource).mpr hpair
  fwdBeforeSend rank hrank micro stage hsend := by
    rcases mem_splitOrder (hunsplit rank hrank) hsend with hweight | ⟨source, hsource, heq⟩
    · cases hweight
    obtain rfl := splitSlot_eq_step heq
    obtain ⟨slot, hleaf, hpair⟩ := h.fwdBeforeSend rank hrank micro stage hsource
    refine ⟨splitSlot slot, ?_, (splitOrder_pair_iff (hunsplit rank hrank)
      (hpair.subset mem_cons_self) hsource).mpr hpair⟩
    rcases leafSteps_splitSlot hleaf with h | ⟨h, -⟩
    · exact h
    · cases h
  bwdBeforeSend rank hrank micro stage hsend := by
    rcases mem_splitOrder (hunsplit rank hrank) hsend with hweight | ⟨source, hsource, heq⟩
    · cases hweight
    obtain rfl := splitSlot_eq_step heq
    obtain ⟨slot, hleaf, hpair⟩ := h.bwdBeforeSend rank hrank micro stage hsource
    refine ⟨splitSlot slot, ?_, (splitOrder_pair_iff (hunsplit rank hrank)
      (hpair.subset mem_cons_self) hsource).mpr hpair⟩
    rcases hleaf with hleaf | hleaf
    · rcases leafSteps_splitSlot hleaf with h | ⟨-, h⟩
      · exact Or.inl h
      · exact Or.inr h
    · rcases leafSteps_splitSlot hleaf with h | ⟨h, -⟩
      · exact Or.inr h
      · cases h

namespace ScheduleInterleaved1F1B

variable (schedule : ScheduleInterleaved1F1B)

def commOrder : Schedule :=
  addSendRecv .loop schedule.stageNum schedule.realStageNum schedule.computeOrder

def constructExecOrder : Schedule :=
  if schedule.enableDxdwSplit then splitOverlapDxdw schedule.commOrder else schedule.commOrder

variable {schedule}

/-! ## The compute order -/

theorem computeOrder_of_lt {rank : Nat} (hrank : rank < schedule.realStageNum) :
    schedule.computeOrder rank = schedule.constructStageExecOrder rank := if_pos hrank

theorem stage_mod {chunk rank : Nat} (hrank : rank < schedule.realStageNum) :
    (chunk * schedule.realStageNum + rank) % schedule.realStageNum = rank := by
  rw [Nat.mul_add_mod_self_right, Nat.mod_eq_of_lt hrank]

theorem computeOrder_isComputeSchedule :
    IsComputeSchedule schedule.realStageNum schedule.computeOrder := by
  intro rank hrank slot hslot step hstep
  rw [computeOrder_of_lt hrank] at hslot
  obtain ⟨cursor, rfl | rfl⟩ := mem_leafSteps.mp (mem_flatMap.mpr ⟨slot, hslot, hstep⟩)
  · rw [fwdStep_cursor]
    exact ⟨Or.inl rfl, stage_mod hrank⟩
  · rw [bwdStep_cursor]
    exact ⟨Or.inr rfl, stage_mod hrank⟩

theorem computeOrder_nodup {rank : Nat} (hrank : rank < schedule.realStageNum) :
    ((schedule.computeOrder rank).flatMap Slot.leafSteps).Nodup := by
  rw [computeOrder_of_lt hrank]
  exact schedule.leafSteps_nodup rank

theorem fwdStep_mem_iff {rank stage micro : Nat} (hrank : rank < schedule.realStageNum)
    (hstage : stage < schedule.stageNum) (hmicro : micro < schedule.microBatchNum) :
    ⟨micro, .fwd, stage⟩ ∈ (schedule.computeOrder rank).flatMap Slot.leafSteps ↔
      stage % schedule.realStageNum = rank := by
  rw [computeOrder_of_lt hrank, mem_leafSteps]
  constructor
  · rintro ⟨cursor, h | h⟩
    · rw [fwdStep_cursor, MetaStep.mk.injEq] at h
      rw [h.2.2, stage_mod hrank]
    · rw [bwdStep_cursor] at h
      simp at h
  · intro howner
    obtain ⟨cursor, hchunk, rfl⟩ := exists_cursor_micro
      (Nat.div_lt_of_lt_mul (by rwa [stageNum, Nat.mul_comm] at hstage) :
        stage / schedule.realStageNum < schedule.nLocalStages) hmicro
    refine ⟨cursor, Or.inl ?_⟩
    rw [fwdStep_cursor, hchunk, ← howner, Nat.div_add_mod']

theorem bwdStep_mem_iff {rank stage micro : Nat} (hrank : rank < schedule.realStageNum)
    (hstage : stage < schedule.stageNum) (hmicro : micro < schedule.microBatchNum) :
    ⟨micro, .bwd, stage⟩ ∈ (schedule.computeOrder rank).flatMap Slot.leafSteps ↔
      stage % schedule.realStageNum = rank := by
  rw [computeOrder_of_lt hrank, mem_leafSteps]
  constructor
  · rintro ⟨cursor, h | h⟩
    · rw [fwdStep_cursor] at h
      simp at h
    · rw [bwdStep_cursor, MetaStep.mk.injEq] at h
      rw [h.2.2, stage_mod hrank]
  · intro howner
    have hdiv : stage / schedule.realStageNum < schedule.nLocalStages :=
      Nat.div_lt_of_lt_mul (by rwa [stageNum, Nat.mul_comm] at hstage)
    have hsplit := Nat.div_add_mod' stage schedule.realStageNum
    rw [howner] at hsplit
    generalize stage / schedule.realStageNum = chunk at hdiv hsplit
    obtain ⟨cursor, hchunk, rfl⟩ := exists_cursor_micro
      (show schedule.nLocalStages - 1 - chunk < schedule.nLocalStages by omega) hmicro
    refine ⟨cursor, Or.inr ?_⟩
    rw [bwdStep_cursor, hchunk, ← hsplit,
      show schedule.nLocalStages - 1 - (schedule.nLocalStages - 1 - chunk) = chunk by omega]

variable {step : MetaStep} {slot : Slot}

theorem leafCount_commOrder {rank : Nat} (hrank : rank < schedule.realStageNum)
    (hstep : step.type = .fwd ∨ step.type = .bwd ∨ step.type = .bwdInput ∨ step.type = .bwdWeight) :
    leafCount schedule.commOrder rank step =
      if step ∈ (schedule.computeOrder rank).flatMap Slot.leafSteps then 1 else 0 := by
  rw [leafCount, commOrder, count_addSendRecv computeOrder_isComputeSchedule hrank _ hstep,
    (computeOrder_nodup hrank).count]

theorem mem_computeOrder {rank : Nat} (hrank : rank < schedule.realStageNum)
    (hslot : slot ∈ schedule.commOrder rank) (hstep : step ∈ slot.leafSteps)
    (htype : step.type = .fwd ∨ step.type = .bwd ∨ step.type = .bwdInput ∨
      step.type = .bwdWeight) : slot.isCompute = true ∧ slot ∈ schedule.computeOrder rank := by
  have hcompute : slot.isCompute = true := by
    cases hcomm : slot.isCompute with
    | true => rfl
    | false => exact absurd hstep (not_mem_leafSteps_of_comm htype slot hcomm)
  refine ⟨hcompute, ?_⟩
  rw [← filter_addSendRecv computeOrder_isComputeSchedule hrank schedule.stageNum]
  exact mem_filter.mpr ⟨hslot, hcompute⟩

theorem mem_fwdSlot (stageIndex opIndex : Nat) :
    schedule.fwdStep stageIndex opIndex ∈ (schedule.fwdSlot stageIndex opIndex).leafSteps := by
  rw [fwdSlot]
  split <;> simp [Slot.leafSteps]

theorem mem_bwdSlot (stageIndex opIndex : Nat) :
    schedule.bwdStep stageIndex opIndex ∈ (schedule.bwdSlot stageIndex opIndex).leafSteps := by
  rw [bwdSlot]
  split <;> simp [Slot.leafSteps]

section Receives

variable {rank : Nat} (hrank : rank < schedule.realStageNum)
include hrank

theorem fwdSlot_of_mem {slot : Slot} (hslot : slot ∈ schedule.commOrder rank) {step : MetaStep}
    (hstep : step ∈ slot.leafSteps) (htype : step.type = .fwd) :
    ∃ cursor : schedule.Cursor, step = schedule.fwdStep rank cursor.opIndex ∧
      slot = schedule.fwdSlot rank cursor.opIndex ∧ slot.isCompute = true := by
  obtain ⟨hcompute, hmem⟩ := mem_computeOrder hrank hslot hstep (Or.inl htype)
  rw [computeOrder_of_lt hrank] at hmem
  obtain ⟨cursor, rfl | rfl⟩ := mem_leafSteps.mp (mem_flatMap.mpr ⟨slot, hmem, hstep⟩)
  · exact ⟨cursor, rfl, slot_unique (schedule.leafSteps_nodup rank) hmem
      (fwdSlot_emitted hrank cursor.opIndex_lt).mem hstep (mem_fwdSlot rank _), hcompute⟩
  · cases htype

theorem bwdSlot_of_mem {slot : Slot} (hslot : slot ∈ schedule.commOrder rank) {step : MetaStep}
    (hstep : step ∈ slot.leafSteps) (htype : step.type = .bwd ∨ step.type = .bwdInput) :
    ∃ cursor : schedule.Cursor, step = schedule.bwdStep rank cursor.opIndex ∧
      slot = schedule.bwdSlot rank cursor.opIndex ∧ slot.isCompute = true := by
  obtain ⟨hcompute, hmem⟩ := mem_computeOrder hrank hslot hstep (by tauto)
  rw [computeOrder_of_lt hrank] at hmem
  obtain ⟨cursor, rfl | rfl⟩ := mem_leafSteps.mp (mem_flatMap.mpr ⟨slot, hmem, hstep⟩)
  · rcases htype with h | h <;> cases h
  · exact ⟨cursor, rfl, slot_unique (schedule.leafSteps_nodup rank) hmem
      (bwdSlot_emitted hrank cursor.opIndex_lt).mem hstep (mem_bwdSlot rank _), hcompute⟩

end Receives

theorem fwdSlot_isCompute (stageIndex opIndex : Nat) :
    (schedule.fwdSlot stageIndex opIndex).isCompute = true := by
  rw [fwdSlot]
  split
  · rfl
  · simp [Slot.isCompute, fwdStep]

theorem bwdSlot_isCompute (stageIndex opIndex : Nat) :
    (schedule.bwdSlot stageIndex opIndex).isCompute = true := by
  rw [bwdSlot]
  split
  · rfl
  · simp [Slot.isCompute, bwdStep]

theorem stage_lt {chunk rank : Nat} (hchunk : chunk < schedule.nLocalStages)
    (hrank : rank < schedule.realStageNum) :
    chunk * schedule.realStageNum + rank < schedule.stageNum := by
  have hle := Nat.mul_le_mul_right schedule.realStageNum (Nat.succ_le_of_lt hchunk)
  rw [Nat.succ_mul] at hle
  rw [stageNum]
  omega

theorem lastStage_lt : schedule.lastStage < schedule.realStageNum :=
  Nat.sub_lt schedule.realStageNum_pos Nat.one_pos

section Neighbours

variable {source rank : Nat} (hsource : source < schedule.realStageNum)
  (hrank : rank < schedule.realStageNum) (hne : source ≠ rank) {cursor next : schedule.Cursor}
  (hmicro : cursor.micro = next.micro)
include hsource hrank hne hmicro

theorem fwdRecv_before_iff_column
    (hstage : cursor.chunk * schedule.realStageNum + source + 1 =
      next.chunk * schedule.realStageNum + rank) :
    [.step ⟨next.micro, .fwdRecv, next.chunk * schedule.realStageNum + rank⟩,
        schedule.fwdSlot rank next.opIndex].Sublist (schedule.commOrder rank) ↔
      schedule.fwdColumn source cursor.opIndex < schedule.fwdEmitColumn rank next.opIndex := by
  have hstep : (⟨next.micro, .fwd, cursor.chunk * schedule.realStageNum + source⟩ : MetaStep) =
      schedule.fwdStep source cursor.opIndex := by rw [fwdStep_cursor, hmicro]
  have hslot : (schedule.fwdSlot rank next.opIndex).leafSteps ≠ [] :=
    ne_nil_of_mem (mem_fwdSlot rank next.opIndex)
  rw [← hstage, commOrder, fwdRecv_before_iff computeOrder_isComputeSchedule hrank
    (hstage ▸ stage_lt next.chunk_lt hrank) (hstage ▸ stage_mod hrank)
    (by rwa [stage_mod hsource]) (fwdSlot_isCompute rank next.opIndex), stage_mod hsource, hstep,
    computeOrder_of_lt hrank, computeOrder_of_lt hsource]
  constructor
  · rintro ⟨s, t, hlt, ht, hs⟩
    rwa [← hs.unique (schedule.leafSteps_nodup source) (fwd_inColumn hsource cursor.opIndex_lt),
      ← ht.unique (schedule.leafSteps_nodup rank) hslot (fwdSlot_emitted hrank next.opIndex_lt)]
  · exact fun hlt => ⟨_, _, hlt, fwdSlot_emitted hrank next.opIndex_lt,
      fwd_inColumn hsource cursor.opIndex_lt⟩

theorem bwdRecv_before_of_column
    (hstage : (schedule.nLocalStages - 1 - cursor.chunk) * schedule.realStageNum + source =
      (schedule.nLocalStages - 1 - next.chunk) * schedule.realStageNum + rank + 1)
    (hlt : schedule.bwdColumn source cursor.opIndex < schedule.bwdColumn rank next.opIndex) :
    [.step ⟨next.micro, .bwdRecv,
        (schedule.nLocalStages - 1 - next.chunk) * schedule.realStageNum + rank⟩,
      schedule.bwdSlot rank next.opIndex].Sublist (schedule.commOrder rank) := by
  have hstep : (⟨next.micro, .bwd,
      (schedule.nLocalStages - 1 - cursor.chunk) * schedule.realStageNum + source⟩ : MetaStep) =
      schedule.bwdStep source cursor.opIndex := by rw [bwdStep_cursor, hmicro]
  rw [commOrder, bwdRecv_before_iff computeOrder_isComputeSchedule hrank (stage_mod hrank)
    (by rwa [← hstage, stage_mod hsource]) (bwdSlot_isCompute rank next.opIndex), ← hstage,
    stage_mod hsource, hstep, computeOrder_of_lt hrank, computeOrder_of_lt hsource]
  exact ⟨_, _, hlt, bwdSlot_emitted hrank next.opIndex_lt, bwd_inColumn hsource cursor.opIndex_lt⟩

end Neighbours

theorem exists_cursor_before {next : schedule.Cursor} (hpos : 0 < next.chunk) :
    ∃ cursor : schedule.Cursor, next.round = cursor.round ∧ next.chunk = cursor.chunk + 1 ∧
      next.offset = cursor.offset ∧ cursor.micro = next.micro := by
  have hchunk := next.chunk_lt
  exact ⟨⟨next.round, next.chunk - 1, next.offset, next.round_lt, by omega, next.offset_lt⟩, rfl,
    (Nat.sub_add_cancel hpos).symm, rfl, rfl⟩

/-- The overlap takes a forward early and the warmup leaves no room for it. -/
def LateReceive (schedule : ScheduleInterleaved1F1B) : Prop :=
  schedule.lessMemory = true ∧ schedule.overlapBF = true ∧ 2 ≤ schedule.realStageNum ∧
    2 ≤ schedule.microBatchNum

theorem two_le_of_overlapped {stageIndex opIndex : Nat} (hranks : 2 ≤ schedule.realStageNum)
    (hop : opIndex < schedule.nLocalStages * schedule.microBatchNum)
    (hover : schedule.Overlapped stageIndex opIndex) : 2 ≤ schedule.microBatchNum := by
  by_contra hnot
  have hlate := hover.2
  have htotal := schedule.total_eq
  have hsize := schedule.roundSize_of_short (by omega)
  rw [warmupOps_eq, hsize] at hlate
  omega

theorem recvBeforeFwd_of_not_late (hgood : ¬schedule.LateReceive) {rank : Nat}
    (hrank : rank < schedule.realStageNum) (hslot : slot ∈ schedule.commOrder rank)
    (hstep : step ∈ slot.leafSteps) (htype : step.type = .fwd)
    (hpos : 0 < step.stageIndex) (hpeer : (step.stageIndex - 1) % schedule.realStageNum ≠ rank) :
    [.step ⟨step.microIndex, .fwdRecv, step.stageIndex⟩, slot].Sublist (schedule.commOrder rank) := by
  obtain ⟨next, rfl, rfl, -⟩ := fwdSlot_of_mem hrank hslot hstep htype
  have hP := schedule.realStageNum_pos
  rw [fwdStep_cursor] at hpos hpeer ⊢
  dsimp only at hpos hpeer ⊢
  cases rank with
  | succ source =>
    refine (fwdRecv_before_iff_column (show source < schedule.realStageNum by omega) hrank
      (by omega) rfl rfl).mpr ?_
    refine (fwdColumn_lt_succ_iff hrank next.opIndex_lt).mpr ?_
    rintro ⟨hless, hover⟩
    exact hgood ⟨hless, hover.1, by omega, two_le_of_overlapped (by omega) next.opIndex_lt hover⟩
  | zero =>
    have hchunk : 0 < next.chunk := by
      by_contra hzero
      obtain hzero : next.chunk = 0 := by omega
      simp [hzero] at hpos
    obtain ⟨cursor, hround, hchunk, hoffset, hmicro⟩ := exists_cursor_before hchunk
    have hranks : 2 ≤ schedule.realStageNum := by
      by_contra hone
      obtain hone : schedule.realStageNum = 1 := by omega
      rw [hone] at hpeer
      omega
    refine (fwdRecv_before_iff_column lastStage_lt hrank ?_ hmicro ?_).mpr
      (Cursor.fwdColumn_lt_wrap hranks hround hchunk hoffset)
    · simp only [lastStage]
      omega
    · rw [hchunk, Nat.succ_mul, lastStage]
      omega

theorem recvBeforeBwd {rank : Nat}
    (hrank : rank < schedule.realStageNum) (hslot : slot ∈ schedule.commOrder rank)
    (hstep : step ∈ slot.leafSteps) (htype : step.type = .bwd ∨ step.type = .bwdInput)
    (hlast : step.stageIndex + 1 < schedule.stageNum)
    (hpeer : (step.stageIndex + 1) % schedule.realStageNum ≠ rank) :
    [.step ⟨step.microIndex, .bwdRecv, step.stageIndex⟩, slot].Sublist (schedule.commOrder rank) := by
  obtain ⟨next, rfl, rfl, -⟩ := bwdSlot_of_mem hrank hslot hstep htype
  rw [bwdStep_cursor] at hlast hpeer ⊢
  dsimp only at hlast hpeer ⊢
  have hnext := next.chunk_lt
  by_cases hsource : rank + 1 < schedule.realStageNum
  · exact bwdRecv_before_of_column hsource hrank (by omega) rfl rfl (bwdColumn_succ_lt hsource _)
  obtain hrankLast : rank = schedule.lastStage := by
    simp only [lastStage]
    omega
  have hP : schedule.lastStage + 1 = schedule.realStageNum := Nat.sub_add_cancel schedule.realStageNum_pos
  subst hrankLast
  have hchunk : 0 < next.chunk := by
    by_contra hzero
    obtain hzero : next.chunk = 0 := by omega
    have hle := Nat.mul_le_mul_right schedule.realStageNum
      (Nat.succ_le_of_lt schedule.nLocalStages_pos)
    obtain ⟨chunks, hchunks⟩ := Nat.exists_eq_add_one_of_ne_zero schedule.nLocalStages_pos.ne'
    rw [hzero, stageNum, hchunks, Nat.sub_zero, Nat.add_sub_cancel, Nat.succ_mul] at hlast
    omega
  obtain ⟨cursor, hround, hchunk, hoffset, hmicro⟩ := exists_cursor_before hchunk
  have hchunks : schedule.nLocalStages - 1 - cursor.chunk =
      schedule.nLocalStages - 1 - next.chunk + 1 := by omega
  refine bwdRecv_before_of_column schedule.realStageNum_pos hrank ?_ hmicro ?_
    (Cursor.bwdColumn_lt_wrap hround hchunk hoffset)
  · intro hzero
    rw [Nat.add_assoc, hP, ← Nat.succ_mul, Nat.mul_mod_left, ← hzero] at hpeer
    exact hpeer rfl
  · rw [hchunks, Nat.succ_mul]
    omega

theorem commOrder_unsplit {rank : Nat} (hrank : rank < schedule.realStageNum) :
    Unsplit (schedule.commOrder rank) := by
  intro slot hslot step hstep
  constructor
  · intro htype
    have hmem := (mem_computeOrder hrank hslot hstep (by tauto)).2
    have hspec := computeOrder_isComputeSchedule rank hrank slot hmem step hstep
    simp [htype] at hspec
  · intro htype
    have hmem := (mem_computeOrder hrank hslot hstep (by tauto)).2
    have hspec := computeOrder_isComputeSchedule rank hrank slot hmem step hstep
    simp [htype] at hspec

theorem commOrder_dataCorrect (hgood : ¬schedule.LateReceive) :
    DataCorrect schedule.stageNum schedule.realStageNum schedule.microBatchNum
      schedule.commOrder where
  fwdOnce rank hrank stage hstage micro hmicro := by
    rw [leafCount_commOrder hrank (Or.inl rfl)]
    exact if_congr (fwdStep_mem_iff hrank hstage hmicro) rfl rfl
  bwdOnce rank hrank stage hstage micro hmicro := by
    have hnone : ∀ type, type = .bwdInput ∨ type = .bwdWeight →
        leafCount schedule.commOrder rank ⟨micro, type, stage⟩ = 0 := by
      intro type htype
      refine count_eq_zero.mpr fun hmem => ?_
      obtain ⟨slot, hslot, hstep⟩ := mem_flatMap.mp hmem
      have hspec := commOrder_unsplit hrank slot hslot _ hstep
      rcases htype with rfl | rfl <;> simp at hspec
    refine Or.inl ⟨?_, hnone _ (Or.inl rfl), hnone _ (Or.inr rfl)⟩
    rw [leafCount_commOrder hrank (Or.inr (Or.inl rfl))]
    exact if_congr (bwdStep_mem_iff hrank hstage hmicro) rfl rfl
  recvBeforeFwd _ hrank _ hslot _ := recvBeforeFwd_of_not_late hgood hrank hslot
  recvBeforeBwd _ hrank _ hslot _ := recvBeforeBwd hrank hslot
  fwdBeforeSend rank hrank micro stage hsend := by
    obtain ⟨slot, -, hstep, hpair⟩ := send_after_slot computeOrder_isComputeSchedule hrank
      (computeOrder_nodup hrank) (Or.inl ⟨rfl, rfl⟩) hsend
    exact ⟨slot, hstep, hpair⟩
  bwdBeforeSend rank hrank micro stage hsend := by
    obtain ⟨slot, -, hstep, hpair⟩ := send_after_slot computeOrder_isComputeSchedule hrank
      (computeOrder_nodup hrank) (Or.inr ⟨rfl, rfl⟩) hsend
    exact ⟨slot, Or.inl hstep, hpair⟩

theorem constructExecOrder_of_not_late (hgood : ¬schedule.LateReceive) :
    DataCorrect schedule.stageNum schedule.realStageNum schedule.microBatchNum
      schedule.constructExecOrder := by
  rw [constructExecOrder]
  split
  · exact (commOrder_dataCorrect hgood).split fun rank hrank => commOrder_unsplit hrank
  · exact commOrder_dataCorrect hgood

theorem not_recvBeforeFwd_of_late (hlate : schedule.LateReceive) :
    ∃ cursor : schedule.Cursor, ¬[.step ⟨cursor.micro, .fwdRecv,
        cursor.chunk * schedule.realStageNum + schedule.lastStage⟩,
      schedule.fwdSlot schedule.lastStage cursor.opIndex].Sublist
        (schedule.commOrder schedule.lastStage) := by
  obtain ⟨hless, hoverlap, hranks, hmicros⟩ := hlate
  have hcap := schedule.warmupOps_eq schedule.lastStage
  have htotal := schedule.total_eq
  have hchunk := schedule.lastChunk_le
  have hlast := schedule.lastStage_lt
  rw [stagger_last, Nat.zero_min, Nat.add_zero] at hcap
  obtain ⟨cursor, hop⟩ := exists_cursor (show schedule.warmupOps schedule.lastStage + 1 <
    schedule.nLocalStages * schedule.microBatchNum by omega)
  have hover : schedule.Overlapped schedule.lastStage cursor.opIndex := ⟨hoverlap, by omega⟩
  have hprev : schedule.lastStage - 1 + 1 = schedule.lastStage := by
    simp only [lastStage]
    omega
  refine ⟨cursor, fun hpair => ?_⟩
  rw [fwdRecv_before_iff_column (show schedule.lastStage - 1 < schedule.realStageNum by omega) hlast
    (by omega) (rfl : cursor.micro = cursor.micro) (by omega)] at hpair
  have hiff := fwdColumn_lt_succ_iff
    (show schedule.lastStage - 1 + 1 < schedule.realStageNum by omega) cursor.opIndex_lt
  rw [hprev] at hiff
  exact hiff.mp hpair ⟨hless, hover⟩

theorem not_dataCorrect_of_late (hlate : schedule.LateReceive) :
    ¬DataCorrect schedule.stageNum schedule.realStageNum schedule.microBatchNum
      schedule.constructExecOrder := by
  intro hcorrect
  obtain ⟨cursor, hfails⟩ := not_recvBeforeFwd_of_late hlate
  have hranks := hlate.2.2.1
  have hlast := schedule.lastStage_lt
  set slot := schedule.fwdSlot schedule.lastStage cursor.opIndex with hslotDef
  have hslot : slot ∈ schedule.commOrder schedule.lastStage := by
    have hmem := (fwdSlot_emitted hlast cursor.opIndex_lt).mem
    rw [← computeOrder_of_lt hlast, ← filter_addSendRecv computeOrder_isComputeSchedule hlast
      schedule.stageNum] at hmem
    exact mem_of_mem_filter hmem
  have hstep : ⟨cursor.micro, .fwd, cursor.chunk * schedule.realStageNum + schedule.lastStage⟩ ∈
      slot.leafSteps := by
    rw [← fwdStep_cursor]
    exact mem_fwdSlot _ _
  have hlastEq : schedule.lastStage = schedule.realStageNum - 1 := rfl
  have hpeer : (cursor.chunk * schedule.realStageNum + schedule.lastStage - 1) %
      schedule.realStageNum ≠ schedule.lastStage := by
    rw [Nat.add_sub_assoc (by omega), stage_mod (by omega)]
    omega
  rw [constructExecOrder] at hcorrect
  split at hcorrect
  · have hunsplit := commOrder_unsplit hlast
    have hleaf := (leafSteps_splitSlot hstep).resolve_right (by simp)
    have hpair := hcorrect.recvBeforeFwd schedule.lastStage hlast (splitSlot slot)
      (splitSlot_mem hunsplit hslot) _ hleaf rfl (by dsimp only; omega) hpeer
    obtain hweight | ⟨recv, hrecv, heq⟩ := mem_splitOrder hunsplit (hpair.subset mem_cons_self)
    · cases hweight
    obtain rfl := splitSlot_eq_step heq
    exact hfails ((splitOrder_pair_iff hunsplit hrecv hslot).mp hpair)
  · exact hfails (hcorrect.recvBeforeFwd schedule.lastStage hlast slot hslot _ hstep rfl
      (by dsimp only; omega) hpeer)

/-! ## Main result -/

/--
The interleaved schedule is data-correct unless the shallow warmup meets the
overlap on several ranks with several micro-batches.
-/
theorem constructExecOrder_dataCorrect_iff (schedule : ScheduleInterleaved1F1B) :
    DataCorrect schedule.stageNum schedule.realStageNum schedule.microBatchNum
        schedule.constructExecOrder ↔
      ¬(schedule.lessMemory = true ∧ schedule.overlapBF = true ∧ 2 ≤ schedule.realStageNum ∧
        2 ≤ schedule.microBatchNum) := by
  exact ⟨fun hcorrect hlate => not_dataCorrect_of_late hlate hcorrect,
    constructExecOrder_of_not_late⟩

/-- Two ranks, one chunk, two micro-batches: the overlap on rank 1 runs before its receive. -/
theorem constructExecOrder_fails_shallow_overlap :
    let schedule : ScheduleInterleaved1F1B :=
      ⟨2, 1, 2, true, true, false, by decide, by decide, by decide, by simp⟩
    ¬DataCorrect schedule.stageNum schedule.realStageNum schedule.microBatchNum
      schedule.constructExecOrder :=
  not_dataCorrect_of_late ⟨rfl, rfl, by decide, by decide⟩

end ScheduleInterleaved1F1B

end HyperParallel.Pipeline
