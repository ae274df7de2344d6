import HyperParallel.Pipeline.Rounds
import HyperParallel.Pipeline.ScanOrder

/-!
# The phases of the interleaved schedule

The loops of a rank's order are written as one block for each operation, and the
counters of the loops are read off the cursor of the operation.
-/

namespace HyperParallel.Pipeline.ScheduleInterleaved1F1B

open Foundation List

variable (schedule : ScheduleInterleaved1F1B)

/-! ## Operations of a rank -/

/-- The counter after the first operations. -/
def fwdSeen (stageIndex opIndex : Nat) : MicroIndex :=
  ((List.range opIndex).map (schedule.forwardStageIndex · stageIndex)).reverse

def bwdSeen (stageIndex opIndex : Nat) : MicroIndex :=
  ((List.range opIndex).map (schedule.backwardStageIndex · stageIndex)).reverse

def fwdStep (stageIndex opIndex : Nat) : MetaStep :=
  let stage := schedule.forwardStageIndex opIndex stageIndex
  ⟨(schedule.fwdSeen stageIndex opIndex).get stage, .fwd, stage⟩

def bwdStep (stageIndex opIndex : Nat) : MetaStep :=
  let stage := schedule.backwardStageIndex opIndex stageIndex
  ⟨(schedule.bwdSeen stageIndex opIndex).get stage, .bwd, stage⟩

def warmupPad (stageIndex warmupOps opIndex : Nat) : Nat :=
  if schedule.shortMicro ∧ (schedule.fwdStep stageIndex opIndex).microIndex = schedule.lastMicro ∧
      (opIndex ≠ warmupOps - 1 ∨ stageIndex = schedule.lastStage) then schedule.trailingBubble
  else 0

def steadyPad (stageIndex opIndex : Nat) : Nat :=
  if schedule.shortMicro ∧ (schedule.bwdStep stageIndex opIndex).microIndex = schedule.lastMicro ∧
      stageIndex = schedule.lastStage then 2 * schedule.trailingBubble
  else 0

def cooldownPad (stageIndex opIndex : Nat) : Nat :=
  if schedule.shortMicro ∧ (schedule.bwdStep stageIndex opIndex).microIndex = schedule.lastMicro then
    2 * schedule.trailingBubble
  else 0

def warmupPhase (stageIndex warmupOps : Nat) : List Slot :=
  (List.range warmupOps).flatMap fun op =>
    .step (schedule.fwdStep stageIndex op) :: bubbles (schedule.warmupPad stageIndex warmupOps op)

def steadyPhase (stageIndex warmupOps fwdBwdOps : Nat) : List Slot :=
  (List.range fwdBwdOps).flatMap fun op =>
    .step (schedule.fwdStep stageIndex (warmupOps + op)) ::
      .step (schedule.bwdStep stageIndex op) :: bubbles (schedule.steadyPad stageIndex op)

def overlapPhase (stageIndex warmupOps fwdBwdOps : Nat) : List Slot :=
  let needPad := schedule.shortMicro ∧ stageIndex = schedule.lastStage ∧
    (schedule.bwdStep stageIndex (fwdBwdOps - 1)).microIndex = schedule.lastMicro
  if fwdBwdOps = 0 then [] else
    .step (schedule.fwdStep stageIndex warmupOps) ::
    (List.range (fwdBwdOps - 1)).map (fun op => .overlap .bwdFwd (schedule.bwdStep stageIndex op)
      (schedule.fwdStep stageIndex (warmupOps + op + 1))) ++
    .step (schedule.bwdStep stageIndex (fwdBwdOps - 1)) ::
    bubbles (if needPad then 2 * schedule.trailingBubble else 0)

def cooldownPhase (stageIndex warmupOps fwdBwdOps : Nat) : List Slot :=
  (List.range warmupOps).flatMap fun op =>
    .bubble :: .step (schedule.bwdStep stageIndex (fwdBwdOps + op)) ::
      bubbles (schedule.cooldownPad stageIndex (fwdBwdOps + op))

variable {schedule} {stageIndex : Nat}

theorem fwdSeen_succ (opIndex : Nat) :
    (schedule.fwdSeen stageIndex opIndex).advance (schedule.forwardStageIndex opIndex stageIndex) =
      schedule.fwdSeen stageIndex (opIndex + 1) := by
  simp [fwdSeen, MicroIndex.advance, range_succ]

theorem bwdSeen_succ (opIndex : Nat) :
    (schedule.bwdSeen stageIndex opIndex).advance (schedule.backwardStageIndex opIndex stageIndex) =
      schedule.bwdSeen stageIndex (opIndex + 1) := by
  simp [bwdSeen, MicroIndex.advance, range_succ]

theorem emitWarmupOps_eq (warmupOps : Nat) :
    schedule.emitWarmupOps stageIndex warmupOps [] =
      (schedule.warmupPhase stageIndex warmupOps, schedule.fwdSeen stageIndex warmupOps) := by
  -- the last operation of the warmup stays fixed through the loop
  simp only [emitWarmupOps, warmupPhase, warmupPad]
  generalize warmupOps - 1 = last
  induction warmupOps with
  | zero => rfl
  | succ n ih =>
    rw [range_succ, foldl_append, ih, foldl_cons, foldl_nil, flatMap_append, flatMap_singleton]
    simp only [fwdSeen_succ, append_assoc]
    rfl

variable (warmupOps fwdBwdOps : Nat) (cursor : schedule.Cursor)

theorem emit1f1bOps_eq :
    schedule.emit1f1bOps stageIndex warmupOps fwdBwdOps (schedule.fwdSeen stageIndex warmupOps) [] =
      (schedule.steadyPhase stageIndex warmupOps fwdBwdOps,
        schedule.fwdSeen stageIndex (warmupOps + fwdBwdOps),
        schedule.bwdSeen stageIndex fwdBwdOps) := by
  rw [emit1f1bOps, steadyPhase]
  induction fwdBwdOps with
  | zero => rfl
  | succ n ih =>
    rw [range_succ, foldl_append, ih, foldl_cons, foldl_nil, ← Nat.add_assoc,
      flatMap_append, flatMap_singleton]
    simp only [fwdSeen_succ, bwdSeen_succ, append_assoc]
    rfl

theorem collectFwdBwdSteps_eq :
    schedule.collectFwdBwdSteps stageIndex warmupOps fwdBwdOps
        (schedule.fwdSeen stageIndex warmupOps) [] =
      ((range fwdBwdOps).map fun op => schedule.fwdStep stageIndex (warmupOps + op),
        (range fwdBwdOps).map (schedule.bwdStep stageIndex),
        schedule.fwdSeen stageIndex (warmupOps + fwdBwdOps),
        schedule.bwdSeen stageIndex fwdBwdOps) := by
  rw [collectFwdBwdSteps]
  induction fwdBwdOps with
  | zero => rfl
  | succ n ih =>
    rw [range_succ, foldl_append, ih, foldl_cons, foldl_nil, ← Nat.add_assoc,
      map_append, map_append]
    simp [fwdStep, bwdStep, fwdSeen_succ, bwdSeen_succ]

theorem pairIntoOverlapBF_range (fwdSteps bwdSteps : Nat → MetaStep) (n : Nat) :
    pairIntoOverlapBF ((range (n + 1)).map fwdSteps) ((range (n + 1)).map bwdSteps) =
      .step (fwdSteps 0) :: (range n).map (fun op =>
        .overlap .bwdFwd (bwdSteps op) (fwdSteps (op + 1))) ++ [.step (bwdSteps n)] := by
  have hzip : zipWith (Slot.overlap .bwdFwd) ((range (n + 1)).map bwdSteps)
      ((range (n + 1)).map fwdSteps).tail =
      (range n).map fun op => .overlap .bwdFwd (bwdSteps op) (fwdSteps (op + 1)) := by
    refine ext_getElem (by simp) fun k h₁ h₂ => ?_
    simp [getElem_zipWith]
  have hlast : ((range (n + 1)).map bwdSteps).getLast? = some (bwdSteps n) := by
    simp [range_succ]
  have hhead : ((range (n + 1)).map fwdSteps).head? = some (fwdSteps 0) := by
    simp [range_succ_eq_map]
  rw [pairIntoOverlapBF, hzip, hlast, hhead]
  simp

theorem emit1f1bOverlapOps_eq :
    schedule.emit1f1bOverlapOps stageIndex warmupOps fwdBwdOps
        (schedule.fwdSeen stageIndex warmupOps) [] =
      (schedule.overlapPhase stageIndex warmupOps fwdBwdOps,
        schedule.fwdSeen stageIndex (warmupOps + fwdBwdOps),
        schedule.bwdSeen stageIndex fwdBwdOps) := by
  rw [emit1f1bOverlapOps, collectFwdBwdSteps_eq]
  cases fwdBwdOps with
  | zero => simp [overlapPhase, pairIntoOverlapBF, bubbles]
  | succ n =>
    dsimp only
    rw [pairIntoOverlapBF_range]
    simp [overlapPhase, range_succ, Nat.add_assoc]

theorem emitCooldownOps_eq :
    schedule.emitCooldownOps stageIndex warmupOps fwdBwdOps (2 * warmupOps + fwdBwdOps)
        (schedule.bwdSeen stageIndex fwdBwdOps) =
      (schedule.cooldownPhase stageIndex warmupOps fwdBwdOps,
        schedule.bwdSeen stageIndex (fwdBwdOps + warmupOps)) := by
  rw [emitCooldownOps, show 2 * warmupOps + fwdBwdOps - (warmupOps + fwdBwdOps) = warmupOps by omega,
    cooldownPhase]
  have hop : ∀ k, warmupOps + fwdBwdOps + k - warmupOps = fwdBwdOps + k := by omega
  simp only [hop]
  generalize warmupOps = n
  induction n with
  | zero => rfl
  | succ n ih =>
    rw [range_succ, foldl_append, ih, foldl_cons, foldl_nil, ← Nat.add_assoc,
      flatMap_append, flatMap_singleton]
    simp only [bwdSeen_succ, append_assoc]
    rfl

theorem constructStageExecOrder_eq (stageIndex : Nat) :
    schedule.constructStageExecOrder stageIndex =
      let warmupOps := schedule.warmupOps stageIndex
      let fwdBwdOps := schedule.nLocalStages * schedule.microBatchNum - warmupOps
      bubbles stageIndex ++ (schedule.warmupPhase stageIndex warmupOps ++
        (bubbles (schedule.stagger stageIndex - schedule.microBatchNum) ++
        (bubbles (schedule.depth stageIndex) ++
        ((if schedule.overlapBF then schedule.overlapPhase stageIndex warmupOps fwdBwdOps
          else schedule.steadyPhase stageIndex warmupOps fwdBwdOps) ++
        schedule.cooldownPhase stageIndex warmupOps fwdBwdOps)))) := by
  rw [constructStageExecOrder]
  simp only [emitWarmupOps_eq, emit1f1bOverlapOps_eq, emit1f1bOps_eq]
  cases schedule.overlapBF <;> simp [emitCooldownOps_eq]

/-! ## Steps and cursors -/

theorem count_map_of_injOn {f : Nat → Nat} {l : List Nat} {x : Nat}
    (hinj : ∀ a ∈ l, f a = f x → a = x) : (l.map f).count (f x) = l.count x := by
  rw [List.count, countP_map, List.count]
  refine countP_congr fun a ha => ?_
  simp only [Function.comp_apply, beq_iff_eq]
  exact ⟨hinj a ha, fun h => by rw [h]⟩

theorem fwdStep_cursor (stageIndex : Nat) :
    schedule.fwdStep stageIndex cursor.opIndex =
      ⟨cursor.micro, .fwd, cursor.chunk * schedule.realStageNum + stageIndex⟩ := by
  have hcount := count_map_of_injOn (f := (· * schedule.realStageNum + stageIndex))
    (l := (range cursor.opIndex).map schedule.localIndex) (x := cursor.chunk)
    fun a _ h => Nat.eq_of_mul_eq_mul_right schedule.realStageNum_pos (Nat.add_right_cancel h)
  rw [map_map] at hcount
  simp only [fwdStep, forwardStageIndex, cursor.localIndex, fwdSeen, MicroIndex.get,
    count_reverse, MetaStep.mk.injEq, and_true]
  rw [← cursor.seen, seen]
  exact hcount

theorem bwdStep_cursor (stageIndex : Nat) :
    schedule.bwdStep stageIndex cursor.opIndex =
      ⟨cursor.micro, .bwd,
        (schedule.nLocalStages - 1 - cursor.chunk) * schedule.realStageNum + stageIndex⟩ := by
  have hchunk := cursor.chunk_lt
  have hcount := count_map_of_injOn
    (f := fun chunk => (schedule.nLocalStages - 1 - chunk) * schedule.realStageNum + stageIndex)
    (l := (range cursor.opIndex).map schedule.localIndex) (x := cursor.chunk) (by
      intro a ha h
      obtain ⟨op, hop, rfl⟩ := mem_map.mp ha
      obtain ⟨earlier, rfl⟩ := exists_cursor
        (Nat.lt_trans (mem_range.mp hop) cursor.opIndex_lt)
      have heq := Nat.eq_of_mul_eq_mul_right schedule.realStageNum_pos (Nat.add_right_cancel h)
      have hearlier := earlier.chunk_lt
      rw [earlier.localIndex] at heq ⊢
      omega)
  rw [map_map] at hcount
  simp only [bwdStep, backwardStageIndex, cursor.localIndex, bwdSeen, MicroIndex.get,
    count_reverse, MetaStep.mk.injEq, and_true]
  rw [← cursor.seen, seen]
  exact hcount

/-! ## Places in full rounds -/

variable (schedule) in
/-- The place of an operation if a short round is filled up with bubbles. -/
def fullIndex (opIndex : Nat) : Nat :=
  if schedule.microBatchNum < schedule.realStageNum then
    opIndex / schedule.microBatchNum * schedule.realStageNum + opIndex % schedule.microBatchNum
  else opIndex

theorem fullIndex_of_long (hlong : schedule.realStageNum ≤ schedule.microBatchNum) (opIndex : Nat) :
    schedule.fullIndex opIndex = opIndex := if_neg (by omega)

theorem fullIndex_of_short (hshort : schedule.microBatchNum < schedule.realStageNum)
    (chunk : Nat) {offset : Nat} (hoffset : offset < schedule.microBatchNum) :
    schedule.fullIndex (chunk * schedule.microBatchNum + offset) =
      chunk * schedule.realStageNum + offset := by
  have hM := schedule.microBatchNum_pos
  rw [fullIndex, if_pos hshort, Nat.add_comm (chunk * _) offset, Nat.add_mul_div_right _ _ hM,
    Nat.div_eq_of_lt hoffset, Nat.add_mul_mod_self_right, Nat.mod_eq_of_lt hoffset, Nat.zero_add]

@[simp] theorem fullIndex_zero : schedule.fullIndex 0 = 0 := by simp [fullIndex]

theorem fullIndex_succ (opIndex : Nat) :
    schedule.fullIndex (opIndex + 1) = schedule.fullIndex opIndex + 1 +
      if schedule.microBatchNum < schedule.realStageNum ∧
          opIndex % schedule.microBatchNum = schedule.lastMicro then schedule.trailingBubble
      else 0 := by
  by_cases hshort : schedule.microBatchNum < schedule.realStageNum
  · have hM := schedule.microBatchNum_pos
    obtain ⟨chunk, offset, hoffset, rfl⟩ : ∃ chunk offset, offset < schedule.microBatchNum ∧
        opIndex = chunk * schedule.microBatchNum + offset :=
      ⟨_, _, Nat.mod_lt opIndex hM, (Nat.div_add_mod' opIndex schedule.microBatchNum).symm⟩
    have hmod : (chunk * schedule.microBatchNum + offset) % schedule.microBatchNum = offset := by
      rw [Nat.mul_add_mod_self_right, Nat.mod_eq_of_lt hoffset]
    rw [fullIndex_of_short hshort _ hoffset, hmod]
    simp only [hshort, true_and, lastMicro, trailingBubble]
    by_cases hlast : offset = schedule.microBatchNum - 1
    · have hnext : chunk * schedule.microBatchNum + offset + 1 =
          (chunk + 1) * schedule.microBatchNum + 0 := by
        rw [Nat.succ_mul]
        omega
      rw [hnext, fullIndex_of_short hshort _ hM, if_pos hlast, Nat.succ_mul]
      omega
    · rw [Nat.add_assoc, fullIndex_of_short hshort _ (by omega), if_neg hlast]
      omega
  · rw [fullIndex_of_long (by omega), fullIndex_of_long (by omega), if_neg fun h => hshort h.1]

theorem fullIndex_mono {opIndex later : Nat} (hle : opIndex ≤ later) :
    schedule.fullIndex opIndex + (later - opIndex) ≤ schedule.fullIndex later := by
  induction later, hle using Nat.le_induction with
  | base => omega
  | succ later hle ih =>
    rw [fullIndex_succ]
    omega

theorem Cursor.fullIndex :
    schedule.fullIndex cursor.opIndex =
      schedule.nLocalStages * schedule.roundStart cursor.round +
        cursor.chunk * max schedule.realStageNum (schedule.roundSize cursor.round) +
        cursor.offset := by
  have hround := cursor.round_lt
  have hoffset := cursor.offset_lt
  by_cases hshort : schedule.microBatchNum < schedule.realStageNum
  · rw [nRounds_of_short hshort] at hround
    obtain hzero : cursor.round = 0 := by omega
    rw [hzero, roundSize_of_short hshort] at hoffset
    rw [opIndex, hzero, roundSize_of_short hshort, roundStart_zero, Nat.mul_zero, Nat.zero_add,
      fullIndex_of_short hshort _ hoffset, Nat.max_eq_left (Nat.le_of_lt hshort), Nat.zero_add]
  · have hlong : schedule.realStageNum ≤ schedule.microBatchNum := by omega
    rw [fullIndex_of_long hlong, Nat.max_eq_right (le_roundSize hlong hround), opIndex]

theorem Cursor.micro_of_short (hshort : schedule.microBatchNum < schedule.realStageNum)
    (cursor : schedule.Cursor) : cursor.micro = cursor.opIndex % schedule.microBatchNum := by
  have hround := cursor.round_lt
  have hoffset := cursor.offset_lt
  rw [nRounds_of_short hshort] at hround
  obtain hzero : cursor.round = 0 := by omega
  rw [hzero, roundSize_of_short hshort] at hoffset
  rw [micro, opIndex, hzero, roundSize_of_short hshort, roundStart_zero, Nat.mul_zero, Nat.zero_add,
    Nat.zero_add, Nat.add_comm, Nat.add_mul_mod_self_right, Nat.mod_eq_of_lt hoffset]

section Pads

variable {opIndex : Nat} (hop : opIndex < schedule.nLocalStages * schedule.microBatchNum)
include hop

theorem warmupPad_eq (warmupOps : Nat) :
    schedule.warmupPad stageIndex warmupOps opIndex =
      if (schedule.microBatchNum < schedule.realStageNum ∧
          opIndex % schedule.microBatchNum = schedule.lastMicro) ∧
          (opIndex ≠ warmupOps - 1 ∨ stageIndex = schedule.lastStage) then schedule.trailingBubble
      else 0 := by
  obtain ⟨cursor, rfl⟩ := exists_cursor hop
  simp only [warmupPad, fwdStep_cursor, shortMicro_iff]
  by_cases hshort : schedule.microBatchNum < schedule.realStageNum
  · simp [hshort, cursor.micro_of_short hshort]
  · simp [hshort]

theorem steadyPad_eq :
    schedule.steadyPad stageIndex opIndex =
      if (schedule.microBatchNum < schedule.realStageNum ∧
          opIndex % schedule.microBatchNum = schedule.lastMicro) ∧
          stageIndex = schedule.lastStage then 2 * schedule.trailingBubble
      else 0 := by
  obtain ⟨cursor, rfl⟩ := exists_cursor hop
  simp only [steadyPad, bwdStep_cursor, shortMicro_iff]
  by_cases hshort : schedule.microBatchNum < schedule.realStageNum
  · simp [hshort, cursor.micro_of_short hshort]
  · simp [hshort]

theorem cooldownPad_eq :
    schedule.cooldownPad stageIndex opIndex =
      2 * if schedule.microBatchNum < schedule.realStageNum ∧
          opIndex % schedule.microBatchNum = schedule.lastMicro then schedule.trailingBubble
        else 0 := by
  obtain ⟨cursor, rfl⟩ := exists_cursor hop
  simp only [cooldownPad, bwdStep_cursor, shortMicro_iff]
  by_cases hshort : schedule.microBatchNum < schedule.realStageNum
  · simp [hshort, cursor.micro_of_short hshort]
  · simp [hshort]

end Pads

end HyperParallel.Pipeline.ScheduleInterleaved1F1B
