import HyperParallel.Pipeline.InterleavedColumns

/-!
# Producers and consumers in columns

A consumer comes at least one column after its producer on the neighbouring
rank, except that an overlap takes its forward one column early: with the shallow
warmup this is the producer's own column.
-/

namespace HyperParallel.Pipeline.ScheduleInterleaved1F1B

variable {schedule : ScheduleInterleaved1F1B} {stageIndex opIndex : Nat}

variable (schedule) in
/-- How much longer a rank warms up than the next one. -/
def gap : Nat := if schedule.lessMemory then 1 else 2

theorem gap_eq (schedule : ScheduleInterleaved1F1B) :
    schedule.lessMemory = true ∧ schedule.gap = 1 ∨
      schedule.lessMemory = false ∧ schedule.gap = 2 := by
  cases h : schedule.lessMemory <;> simp [gap, h]

section

variable (hstage : stageIndex + 1 < schedule.realStageNum)

include hstage

theorem stagger_succ :
    schedule.stagger stageIndex = schedule.stagger (stageIndex + 1) + schedule.gap := by
  simp only [stagger, depth, gap]
  split <;> omega

theorem reach_succ :
    schedule.reach stageIndex = schedule.reach (stageIndex + 1) + schedule.gap := by
  rw [reach, reach, stagger_succ hstage, Nat.add_assoc]

theorem warmupOps_mono : schedule.warmupOps (stageIndex + 1) ≤ schedule.warmupOps stageIndex := by
  rw [warmupOps_eq, warmupOps_eq, stagger_succ hstage]
  omega

end

theorem fullIndex_of_not_lt (hwarm : ¬opIndex < schedule.warmupOps stageIndex)
    (hop : opIndex < schedule.nLocalStages * schedule.microBatchNum) :
    schedule.fullIndex opIndex =
      schedule.reach stageIndex + (opIndex - schedule.warmupOps stageIndex) := by
  have hplace := schedule.fullIndex_steady
    (show opIndex - schedule.warmupOps stageIndex < schedule.fwdBwdOps stageIndex by
      simp only [fwdBwdOps]
      omega)
  rwa [Nat.add_sub_cancel' (by omega)] at hplace

theorem fwdColumn_lt_succ_iff (hstage : stageIndex + 1 < schedule.realStageNum)
    (hop : opIndex < schedule.nLocalStages * schedule.microBatchNum) :
    schedule.fwdColumn stageIndex opIndex < schedule.fwdEmitColumn (stageIndex + 1) opIndex ↔
      ¬(schedule.lessMemory = true ∧ schedule.Overlapped (stageIndex + 1) opIndex) := by
  have hmono := warmupOps_mono hstage
  have hreach := reach_succ hstage
  have hlast : schedule.lastStage = schedule.realStageNum - 1 := rfl
  by_cases hwarm : opIndex < schedule.warmupOps (stageIndex + 1)
  · have hsolo : ¬schedule.Overlapped (stageIndex + 1) opIndex := fun h => by
      have := h.2
      omega
    rw [fwdEmitColumn, if_neg hsolo, fwdColumn, fwdColumn, if_pos hwarm, if_pos (by omega)]
    simp only [hsolo, and_false, not_false_eq_true, iff_true]
    omega
  have hplace := fullIndex_of_not_lt hwarm hop
  have hcap := schedule.warmupOps_eq stageIndex
  have hcap' := schedule.warmupOps_eq (stageIndex + 1)
  rw [stagger_succ hstage] at hcap
  have hgap := schedule.gap_eq
  have hover : schedule.Overlapped (stageIndex + 1) opIndex →
      schedule.warmupOps (stageIndex + 1) < opIndex := fun h => h.2
  by_cases hpred : opIndex < schedule.warmupOps stageIndex
  · -- the producer still warms up
    have hfree : ¬(schedule.lessMemory = true ∧ schedule.Overlapped (stageIndex + 1) opIndex) := by
      rintro ⟨hless, h⟩
      have hlate := hover h
      rw [hless] at hgap
      simp only [Bool.true_eq_false, false_and, or_false, true_and] at hgap
      omega
    rw [iff_true_right hfree, fwdEmitColumn, fwdColumn, fwdColumn, if_pos hpred, if_neg hwarm]
    split <;> rename_i h
    · have hlate := hover h
      omega
    · omega
  · have hplace' := fullIndex_of_not_lt hpred hop
    rw [fwdEmitColumn, fwdColumn, fwdColumn, if_neg hpred, if_neg hwarm]
    rcases hgap with ⟨hless, hgap⟩ | ⟨hless, hgap⟩
    · simp only [hless, true_and]
      split <;> rename_i h
      · simp only [h, not_true_eq_false, iff_false]
        have hlate := hover h
        omega
      · simp only [h, not_false_eq_true, iff_true]
        omega
    · simp only [hless, Bool.false_eq_true, false_and, not_false_eq_true, iff_true]
      split <;> omega

variable {cursor next : schedule.Cursor}

theorem Cursor.fullIndex_nextChunk (hround : next.round = cursor.round)
    (hchunk : next.chunk = cursor.chunk + 1) (hoffset : next.offset = cursor.offset) :
    schedule.fullIndex next.opIndex = schedule.fullIndex cursor.opIndex +
      max schedule.realStageNum (schedule.roundSize cursor.round) := by
  rw [next.fullIndex, cursor.fullIndex, hround, hchunk, hoffset, Nat.succ_mul]
  omega

theorem reach_first (schedule : ScheduleInterleaved1F1B) :
    schedule.reach 0 = schedule.reach schedule.lastStage + schedule.stagger 0 := by
  rw [reach, reach, stagger_last, Nat.add_zero]

theorem stagger_first_lt (schedule : ScheduleInterleaved1F1B) :
    schedule.stagger 0 + 1 < 2 * schedule.realStageNum := by
  have hbound := schedule.stagger_le 0
  have hP := schedule.realStageNum_pos
  simp only [depth] at hbound
  omega

theorem Cursor.wrap_of_warmup (hround : next.round = cursor.round)
    (hchunk : next.chunk = cursor.chunk + 1) (hoffset : next.offset = cursor.offset)
    (hwarm : next.opIndex < schedule.warmupOps 0) :
    cursor.opIndex < schedule.warmupOps schedule.lastStage := by
  by_contra hpred
  have hplace := fullIndex_nextChunk hround hchunk hoffset
  have hsteady := fullIndex_of_not_lt hpred cursor.opIndex_lt
  have hstagger := schedule.stagger_first_lt
  have hcap := schedule.warmupOps_eq 0
  have hcapLast := schedule.warmupOps_eq schedule.lastStage
  rw [stagger_last, Nat.zero_min, Nat.add_zero] at hcapLast
  rw [reach, stagger_last, Nat.add_zero] at hsteady
  have hlater : cursor.opIndex ≤ next.opIndex := by
    rw [opIndex, opIndex, hround, hchunk, hoffset, Nat.succ_mul]
    omega
  -- the place of the next forward is capped by the warmup
  have hfirst : schedule.fullIndex next.opIndex + 1 ≤
      (schedule.nLocalStages - 1) * max schedule.realStageNum (schedule.roundSize 0) +
        min (schedule.stagger 0) schedule.microBatchNum := by
    have hlast := schedule.fullIndex_lastChunk (Or.inl (show
      min (schedule.stagger 0) schedule.microBatchNum - 1 < schedule.microBatchNum by omega))
    have hmono := schedule.fullIndex_mono (show next.opIndex ≤
      (schedule.nLocalStages - 1) * schedule.roundSize 0 +
        (min (schedule.stagger 0) schedule.microBatchNum - 1) by omega)
    omega
  have hlong : schedule.realStageNum ≤ schedule.microBatchNum := by omega
  have hchunks : schedule.nLocalStages * schedule.roundSize 0 =
      (schedule.nLocalStages - 1) * schedule.roundSize 0 + schedule.roundSize 0 := by
    obtain ⟨chunks, hchunks⟩ := Nat.exists_eq_add_one_of_ne_zero schedule.nLocalStages_pos.ne'
    rw [hchunks, Nat.add_sub_cancel, Nat.succ_mul]
  have hnext := next.opIndex_lt_next
  have hsize := le_roundSize hlong (schedule.nRounds_pos)
  rw [fullIndex_of_long hlong, Nat.max_eq_right hsize] at hfirst hsteady
  rw [fullIndex_of_long hlong, fullIndex_of_long hlong,
    Nat.max_eq_right (le_roundSize hlong cursor.round_lt)] at hplace
  rw [hround] at hnext
  by_cases hzero : cursor.round = 0
  · rw [hzero, roundStart_succ nRounds_pos, roundStart_zero, Nat.zero_add, hchunks] at hnext
    rw [hzero] at hplace
    omega
  · have hstart := schedule.roundStart_mono (show 0 + 1 ≤ cursor.round by omega)
      (Nat.le_of_lt cursor.round_lt)
    rw [roundStart_succ nRounds_pos, roundStart_zero, Nat.zero_add] at hstart
    have hbefore := Nat.mul_le_mul_left schedule.nLocalStages hstart
    have hsize' := le_roundSize hlong cursor.round_lt
    have hop : schedule.nLocalStages * schedule.roundStart cursor.round ≤ cursor.opIndex := by
      rw [opIndex]
      omega
    omega

theorem Cursor.fwdColumn_lt_wrap (hranks : 2 ≤ schedule.realStageNum)
    (hround : next.round = cursor.round) (hchunk : next.chunk = cursor.chunk + 1)
    (hoffset : next.offset = cursor.offset) :
    schedule.fwdColumn schedule.lastStage cursor.opIndex < schedule.fwdEmitColumn 0 next.opIndex := by
  have hplace := fullIndex_nextChunk hround hchunk hoffset
  have hreach := schedule.reach_first
  have hstagger := schedule.stagger_first_lt
  have hlast : schedule.lastStage = schedule.realStageNum - 1 := rfl
  by_cases hwarm : next.opIndex < schedule.warmupOps 0
  · have hpred := wrap_of_warmup hround hchunk hoffset hwarm
    have hsolo : ¬schedule.Overlapped 0 next.opIndex := fun h => by
      have := h.2
      omega
    rw [fwdEmitColumn, if_neg hsolo, fwdColumn, fwdColumn, if_pos hwarm, if_pos hpred]
    omega
  have hsteady := fullIndex_of_not_lt hwarm next.opIndex_lt
  have hover : schedule.Overlapped 0 next.opIndex → schedule.warmupOps 0 < next.opIndex := fun h => h.2
  by_cases hpred : cursor.opIndex < schedule.warmupOps schedule.lastStage
  · rw [fwdEmitColumn, fwdColumn, fwdColumn, if_pos hpred, if_neg hwarm]
    split <;> rename_i h
    · have := hover h
      omega
    · omega
  · have hpredSteady := fullIndex_of_not_lt hpred cursor.opIndex_lt
    rw [fwdEmitColumn, fwdColumn, fwdColumn, if_neg hpred, if_neg hwarm]
    split <;> omega

theorem bwdColumn_succ_lt (hstage : stageIndex + 1 < schedule.realStageNum) (opIndex : Nat) :
    schedule.bwdColumn (stageIndex + 1) opIndex < schedule.bwdColumn stageIndex opIndex := by
  have hreach := reach_succ hstage
  have hgap := schedule.gap_eq
  rw [bwdColumn, bwdColumn, hreach]
  omega

theorem Cursor.bwdColumn_lt_wrap (hround : next.round = cursor.round)
    (hchunk : next.chunk = cursor.chunk + 1) (hoffset : next.offset = cursor.offset) :
    schedule.bwdColumn 0 cursor.opIndex < schedule.bwdColumn schedule.lastStage next.opIndex := by
  have hplace := fullIndex_nextChunk hround hchunk hoffset
  have hreach := schedule.reach_first
  have hstagger := schedule.stagger_first_lt
  rw [bwdColumn, bwdColumn, hplace]
  omega

end HyperParallel.Pipeline.ScheduleInterleaved1F1B
