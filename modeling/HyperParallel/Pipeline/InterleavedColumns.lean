import HyperParallel.Pipeline.InterleavedPhases

/-!
# The columns of the interleaved schedule

The bubbles of the schedule make the column of an operation a linear function of
its place in full rounds, on every rank.
-/

namespace HyperParallel.Pipeline.ScheduleInterleaved1F1B

open Foundation List

variable {schedule : ScheduleInterleaved1F1B} {stageIndex : Nat}

/-! ## Widths of the phases -/

theorem nRounds_eq_one (hlt : schedule.microBatchNum < 2 * schedule.realStageNum) :
    schedule.nRounds = 1 := by
  by_cases hshort : schedule.microBatchNum < schedule.realStageNum
  · exact nRounds_of_short hshort
  · rw [nRounds_of_long (by omega)]
    exact Nat.div_eq_of_lt_le (by omega) (by omega)

theorem roundSize_zero_le : schedule.roundSize 0 ≤ schedule.microBatchNum := by
  have hstart := schedule.roundStart_mono (nRounds_pos : 0 + 1 ≤ _) (Nat.le_refl _)
  rwa [roundStart_succ nRounds_pos, roundStart_zero, Nat.zero_add, roundStart_nRounds] at hstart

theorem roundSize_zero_of_lt (hlt : schedule.microBatchNum < 2 * schedule.realStageNum) :
    schedule.roundSize 0 = schedule.microBatchNum := by
  have htotal := schedule.roundStart_nRounds
  rwa [nRounds_eq_one hlt, roundStart_succ nRounds_pos, roundStart_zero, Nat.zero_add] at htotal

theorem stagger_le (stageIndex : Nat) : schedule.stagger stageIndex ≤ 2 * schedule.depth stageIndex := by
  rw [stagger]
  split <;> omega

theorem stagger_pos (hstage : stageIndex < schedule.realStageNum)
    (hlast : stageIndex ≠ schedule.lastStage) : 0 < schedule.stagger stageIndex := by
  have hdepth : 0 < schedule.depth stageIndex := by
    simp only [depth, lastStage] at hlast ⊢
    omega
  rw [stagger]
  split <;> omega

theorem stagger_last : schedule.stagger schedule.lastStage = 0 := by
  simp [stagger, depth, lastStage]

theorem total_eq :
    schedule.nLocalStages * schedule.microBatchNum =
      (schedule.nLocalStages - 1) * schedule.microBatchNum + schedule.microBatchNum := by
  obtain ⟨chunks, hchunks⟩ := Nat.exists_eq_add_one_of_ne_zero schedule.nLocalStages_pos.ne'
  rw [hchunks, Nat.add_sub_cancel, Nat.succ_mul]

theorem lastChunk_le :
    (schedule.nLocalStages - 1) * schedule.roundSize 0 ≤
      (schedule.nLocalStages - 1) * schedule.microBatchNum :=
  Nat.mul_le_mul_left _ roundSize_zero_le

theorem warmupOps_eq (stageIndex : Nat) :
    schedule.warmupOps stageIndex =
      (schedule.nLocalStages - 1) * schedule.roundSize 0 +
        min (schedule.stagger stageIndex) schedule.microBatchNum := by
  have htotal := schedule.total_eq
  have hchunk := schedule.lastChunk_le
  rw [warmupOps, ← roundSize, Nat.mul_comm schedule.microBatchNum]
  by_cases hlong : schedule.stagger stageIndex ≤ schedule.microBatchNum
  · omega
  · have hstagger := schedule.stagger_le stageIndex
    have hround := schedule.roundSize_zero_of_lt (by
      simp only [depth] at hstagger
      omega)
    rw [hround]
    omega

theorem warmupOps_le (stageIndex : Nat) :
    schedule.warmupOps stageIndex ≤ schedule.nLocalStages * schedule.microBatchNum := by
  have htotal := schedule.total_eq
  have hchunk := schedule.lastChunk_le
  rw [warmupOps_eq]
  omega

variable (schedule) in
/-- The place of the first operation after the warmup, if nothing caps it. -/
def reach (stageIndex : Nat) : Nat :=
  (schedule.nLocalStages - 1) * max schedule.realStageNum (schedule.roundSize 0) +
    schedule.stagger stageIndex

theorem fullIndex_lastChunk {offset : Nat}
    (hoffset : offset < schedule.microBatchNum ∨ schedule.realStageNum ≤ schedule.microBatchNum) :
    schedule.fullIndex ((schedule.nLocalStages - 1) * schedule.roundSize 0 + offset) =
      (schedule.nLocalStages - 1) * max schedule.realStageNum (schedule.roundSize 0) + offset := by
  by_cases hshort : schedule.microBatchNum < schedule.realStageNum
  · rw [roundSize_of_short hshort, fullIndex_of_short hshort _ (by omega),
      Nat.max_eq_left (Nat.le_of_lt hshort)]
  · have hlong : schedule.realStageNum ≤ schedule.microBatchNum := by omega
    rw [fullIndex_of_long hlong, Nat.max_eq_right (le_roundSize hlong nRounds_pos)]

@[simp] theorem width_bubbles (count : Nat) : width (bubbles count) = count := by
  induction count with
  | zero => rfl
  | succ count ih =>
    rw [bubbles, replicate_succ, width_cons, ← bubbles, ih, length_expandSlot_bubble, Nat.add_comm]

theorem warmupPhase_start {op : Nat} (hop : op + 1 < schedule.warmupOps stageIndex ∨
      op < schedule.warmupOps stageIndex ∧ stageIndex = schedule.lastStage) :
    schedule.fullIndex (op + 1) = schedule.fullIndex op +
      width (.step (schedule.fwdStep stageIndex op) ::
        bubbles (schedule.warmupPad stageIndex (schedule.warmupOps stageIndex) op)) := by
  have hle := schedule.warmupOps_le stageIndex
  rw [fullIndex_succ, width_cons, width_bubbles, warmupPad_eq (by omega), length_expandSlot_step]
  simp only [show op ≠ schedule.warmupOps stageIndex - 1 ∨ stageIndex = schedule.lastStage by omega,
    and_true]
  omega

theorem width_warmupPhase (hstage : stageIndex < schedule.realStageNum) :
    width (schedule.warmupPhase stageIndex (schedule.warmupOps stageIndex)) +
      (schedule.stagger stageIndex - schedule.microBatchNum) = schedule.reach stageIndex := by
  have hM := schedule.microBatchNum_pos
  have hwarmup := schedule.warmupOps_eq stageIndex
  have hle := schedule.warmupOps_le stageIndex
  rw [warmupPhase, reach]
  by_cases hlast : stageIndex = schedule.lastStage
  · rw [width_flatMap_range _ schedule.fullIndex fullIndex_zero fun op hop =>
      warmupPhase_start (Or.inr ⟨hop, hlast⟩), hwarmup, hlast, stagger_last, Nat.zero_min,
      fullIndex_lastChunk (Or.inl hM), Nat.zero_sub, Nat.add_zero]
  · have hstagger := stagger_pos hstage hlast
    obtain ⟨last, hsucc⟩ := Nat.exists_eq_add_one_of_ne_zero
      (show schedule.warmupOps stageIndex ≠ 0 by omega)
    have hfront := width_flatMap_range (n := last) (fun op => .step (schedule.fwdStep stageIndex op) ::
      bubbles (schedule.warmupPad stageIndex (schedule.warmupOps stageIndex) op))
      schedule.fullIndex fullIndex_zero fun op hop => warmupPhase_start (Or.inl (by omega))
    have hpad : schedule.warmupPad stageIndex (schedule.warmupOps stageIndex) last = 0 := by
      rw [warmupPad_eq (by omega)]
      exact if_neg fun h => by omega
    have hplace := schedule.fullIndex_lastChunk (Or.inl (show
      min (schedule.stagger stageIndex) schedule.microBatchNum - 1 < schedule.microBatchNum by omega))
    rw [show (schedule.nLocalStages - 1) * schedule.roundSize 0 +
      (min (schedule.stagger stageIndex) schedule.microBatchNum - 1) = last by omega] at hplace
    generalize schedule.warmupOps stageIndex = warmupOps at *
    subst hsucc
    rw [range_succ, flatMap_append, width_append, hfront, flatMap_singleton,
      width_cons, hpad, width_bubbles, length_expandSlot_step, hplace]
    omega

variable (schedule) in
def fwdBwdOps (stageIndex : Nat) : Nat :=
  schedule.nLocalStages * schedule.microBatchNum - schedule.warmupOps stageIndex

theorem fullIndex_steady {op : Nat} (hop : op < schedule.fwdBwdOps stageIndex) :
    schedule.fullIndex (schedule.warmupOps stageIndex + op) = schedule.reach stageIndex + op := by
  have htotal := schedule.total_eq
  have hchunk := schedule.lastChunk_le
  rw [fwdBwdOps, warmupOps_eq] at hop
  by_cases hshort : schedule.microBatchNum < schedule.realStageNum
  · have hround := roundSize_of_short hshort
    rw [warmupOps_eq, Nat.add_assoc, fullIndex_lastChunk (Or.inl _), reach]
    · rw [hround] at hop hchunk
      omega
    · rw [hround] at hop hchunk
      omega
  · have hlong : schedule.realStageNum ≤ schedule.microBatchNum := by omega
    have hstagger : schedule.stagger stageIndex ≤ schedule.microBatchNum := by
      by_contra hnot
      have hbound := schedule.stagger_le stageIndex
      have hround := schedule.roundSize_zero_of_lt (by
        simp only [depth] at hbound
        omega)
      rw [hround] at hop
      omega
    rw [warmupOps_eq, Nat.add_assoc, fullIndex_lastChunk (Or.inr hlong), reach]
    omega

theorem fullIndex_of_lt_steady {op : Nat} (hop : op < schedule.fwdBwdOps stageIndex ∨
      op ≤ schedule.fwdBwdOps stageIndex ∧ 0 < schedule.stagger stageIndex) :
    schedule.fullIndex op = op := by
  have htotal := schedule.total_eq
  rw [fwdBwdOps, warmupOps_eq] at hop
  by_cases hshort : schedule.microBatchNum < schedule.realStageNum
  · have hM := schedule.microBatchNum_pos
    rw [roundSize_of_short hshort] at hop
    have hplace := fullIndex_of_short hshort 0 (show op < schedule.microBatchNum by omega)
    simpa using hplace
  · exact fullIndex_of_long (by omega) op

theorem steady_start (hstage : stageIndex < schedule.realStageNum) {op : Nat}
    (hop : op < schedule.fwdBwdOps stageIndex) :
    2 * schedule.fullIndex (op + 1) = 2 * schedule.fullIndex op + 2 +
      schedule.steadyPad stageIndex op := by
  have htotal : op < schedule.nLocalStages * schedule.microBatchNum := by
    simp only [fwdBwdOps] at hop
    omega
  rw [steadyPad_eq htotal]
  by_cases hlast : stageIndex = schedule.lastStage
  · simp only [hlast, and_true, fullIndex_succ]
    split <;> omega
  · have hstagger := stagger_pos hstage hlast
    rw [if_neg fun h => hlast h.2, fullIndex_of_lt_steady (Or.inl hop),
      fullIndex_of_lt_steady (Or.inr ⟨hop, hstagger⟩)]
    omega

/-! ## Columns -/

variable (schedule) in
def fwdColumn (stageIndex opIndex : Nat) : Nat :=
  if opIndex < schedule.warmupOps stageIndex then stageIndex + schedule.fullIndex opIndex
  else schedule.reach stageIndex + schedule.lastStage + 2 * (opIndex - schedule.warmupOps stageIndex)

variable (schedule) in
def bwdColumn (stageIndex opIndex : Nat) : Nat :=
  schedule.reach stageIndex + schedule.realStageNum + 2 * schedule.fullIndex opIndex

variable (schedule) in
def Overlapped (stageIndex opIndex : Nat) : Prop :=
  schedule.overlapBF = true ∧ schedule.warmupOps stageIndex < opIndex

instance (stageIndex opIndex : Nat) : Decidable (schedule.Overlapped stageIndex opIndex) :=
  inferInstanceAs (Decidable (_ ∧ _))

variable (schedule) in
def fwdSlot (stageIndex opIndex : Nat) : Slot :=
  if schedule.Overlapped stageIndex opIndex then
    .overlap .bwdFwd
      (schedule.bwdStep stageIndex (opIndex - schedule.warmupOps stageIndex - 1))
      (schedule.fwdStep stageIndex opIndex)
  else .step (schedule.fwdStep stageIndex opIndex)

variable (schedule) in
def fwdEmitColumn (stageIndex opIndex : Nat) : Nat :=
  schedule.fwdColumn stageIndex opIndex - if schedule.Overlapped stageIndex opIndex then 1 else 0

variable (schedule) in
def bwdSlot (stageIndex opIndex : Nat) : Slot :=
  if schedule.overlapBF = true ∧ opIndex + 1 < schedule.fwdBwdOps stageIndex then
    .overlap .bwdFwd (schedule.bwdStep stageIndex opIndex)
      (schedule.fwdStep stageIndex (schedule.warmupOps stageIndex + opIndex + 1))
  else .step (schedule.bwdStep stageIndex opIndex)

variable (schedule) in
def frontPhase (stageIndex : Nat) : List Slot :=
  bubbles stageIndex ++ (schedule.warmupPhase stageIndex (schedule.warmupOps stageIndex) ++
    (bubbles (schedule.stagger stageIndex - schedule.microBatchNum) ++
      bubbles (schedule.depth stageIndex)))

variable (schedule) in
def middlePhase (stageIndex : Nat) : List Slot :=
  if schedule.overlapBF then
    schedule.overlapPhase stageIndex (schedule.warmupOps stageIndex) (schedule.fwdBwdOps stageIndex)
  else
    schedule.steadyPhase stageIndex (schedule.warmupOps stageIndex) (schedule.fwdBwdOps stageIndex)

theorem constructStageExecOrder_phases (stageIndex : Nat) :
    schedule.constructStageExecOrder stageIndex =
      schedule.frontPhase stageIndex ++ (schedule.middlePhase stageIndex ++
        schedule.cooldownPhase stageIndex (schedule.warmupOps stageIndex)
          (schedule.fwdBwdOps stageIndex)) := by
  rw [constructStageExecOrder_eq, frontPhase, middlePhase]
  simp [fwdBwdOps]

theorem width_frontPhase (hstage : stageIndex < schedule.realStageNum) :
    width (schedule.frontPhase stageIndex) = schedule.reach stageIndex + schedule.lastStage := by
  have hwarmup := width_warmupPhase hstage
  simp only [frontPhase, width_append, width_bubbles, depth, lastStage]
  omega

theorem warmupOps_add_fwdBwdOps (stageIndex : Nat) :
    schedule.warmupOps stageIndex + schedule.fwdBwdOps stageIndex =
      schedule.nLocalStages * schedule.microBatchNum :=
  Nat.add_sub_cancel' (schedule.warmupOps_le stageIndex)

theorem warmup_itemAt {property : ScanItem → Prop} {op : Nat}
    (hop : op < schedule.warmupOps stageIndex)
    (h : ItemAt property [.step (schedule.fwdStep stageIndex op)] 0) :
    ItemAt property (schedule.constructStageExecOrder stageIndex)
      (schedule.fwdColumn stageIndex op) := by
  have hphase := ItemAt.flatMap_range (fun op => .step (schedule.fwdStep stageIndex op) ::
      bubbles (schedule.warmupPad stageIndex (schedule.warmupOps stageIndex) op))
    schedule.fullIndex fullIndex_zero
    (fun earlier hearlier => warmupPhase_start (Or.inl (by omega))) hop
    (h.append_left (bubbles _))
  have hfront := ItemAt.append_right (bubbles stageIndex)
    (hphase.append_left (bubbles (schedule.stagger stageIndex - schedule.microBatchNum) ++
      bubbles (schedule.depth stageIndex)))
  rw [width_bubbles] at hfront
  rw [constructStageExecOrder_phases, fwdColumn, if_pos hop]
  exact hfront.append_left _

theorem middle_itemAt (hstage : stageIndex < schedule.realStageNum) {property : ScanItem → Prop}
    {timeStep : Nat} (h : ItemAt property (schedule.middlePhase stageIndex) timeStep) :
    ItemAt property (schedule.constructStageExecOrder stageIndex)
      (schedule.reach stageIndex + schedule.lastStage + timeStep) := by
  have hitem := ItemAt.append_right (schedule.frontPhase stageIndex) (h.append_left
    (schedule.cooldownPhase stageIndex (schedule.warmupOps stageIndex)
      (schedule.fwdBwdOps stageIndex)))
  rwa [width_frontPhase hstage, ← constructStageExecOrder_phases] at hitem

theorem steady_itemAt (hstage : stageIndex < schedule.realStageNum)
    (hplain : schedule.overlapBF = false) {property : ScanItem → Prop} {op timeStep : Nat}
    (hop : op < schedule.fwdBwdOps stageIndex)
    (h : ItemAt property [.step (schedule.fwdStep stageIndex (schedule.warmupOps stageIndex + op)),
      .step (schedule.bwdStep stageIndex op)] timeStep) :
    ItemAt property (schedule.constructStageExecOrder stageIndex)
      (schedule.reach stageIndex + schedule.lastStage + (2 * op + timeStep)) := by
  refine middle_itemAt hstage ?_
  have hphase := ItemAt.flatMap_range (fun op =>
      .step (schedule.fwdStep stageIndex (schedule.warmupOps stageIndex + op)) ::
        .step (schedule.bwdStep stageIndex op) :: bubbles (schedule.steadyPad stageIndex op))
    (fun op => 2 * schedule.fullIndex op) (by simp) (fun earlier hearlier => by
      have hstart := steady_start hstage (show earlier < schedule.fwdBwdOps stageIndex by omega)
      simp only [width_cons, length_expandSlot_step, width_bubbles]
      omega) hop (h.append_left (bubbles _))
  rw [fullIndex_of_lt_steady (Or.inl hop)] at hphase
  simpa only [middlePhase, hplain, Bool.false_eq_true, if_false, steadyPhase] using hphase

theorem middlePhase_overlap (hoverlap : schedule.overlapBF = true) {last : Nat}
    (hlast : last + 1 = schedule.fwdBwdOps stageIndex) :
    schedule.middlePhase stageIndex =
      [.step (schedule.fwdStep stageIndex (schedule.warmupOps stageIndex))] ++
      ((range last).flatMap (fun op => [.overlap .bwdFwd (schedule.bwdStep stageIndex op)
        (schedule.fwdStep stageIndex (schedule.warmupOps stageIndex + op + 1))]) ++
      ([.step (schedule.bwdStep stageIndex last)] ++
        bubbles (schedule.steadyPad stageIndex last))) := by
  have hpad : (schedule.shortMicro ∧ stageIndex = schedule.lastStage ∧
      (schedule.bwdStep stageIndex last).microIndex = schedule.lastMicro) ↔
      schedule.shortMicro ∧ (schedule.bwdStep stageIndex last).microIndex = schedule.lastMicro ∧
        stageIndex = schedule.lastStage := by tauto
  rw [middlePhase, if_pos hoverlap, overlapPhase, ← hlast]
  simp [steadyPad, hpad, map_eq_flatMap]

section Overlap

variable (hstage : stageIndex < schedule.realStageNum) (hoverlap : schedule.overlapBF = true)
  {property : ScanItem → Prop} {op timeStep : Nat}
include hstage hoverlap

theorem overlap_first_itemAt (hpos : 0 < schedule.fwdBwdOps stageIndex)
    (h : ItemAt property [.step (schedule.fwdStep stageIndex (schedule.warmupOps stageIndex))]
      timeStep) :
    ItemAt property (schedule.constructStageExecOrder stageIndex)
      (schedule.reach stageIndex + schedule.lastStage + timeStep) := by
  refine middle_itemAt hstage ?_
  rw [middlePhase_overlap hoverlap (Nat.sub_add_cancel hpos)]
  exact h.append_left _

theorem overlap_pair_itemAt (hop : op + 1 < schedule.fwdBwdOps stageIndex)
    (h : ItemAt property [.overlap .bwdFwd (schedule.bwdStep stageIndex op)
      (schedule.fwdStep stageIndex (schedule.warmupOps stageIndex + op + 1))] timeStep) :
    ItemAt property (schedule.constructStageExecOrder stageIndex)
      (schedule.reach stageIndex + schedule.lastStage + (1 + (2 * op + timeStep))) := by
  obtain ⟨rest, hrest⟩ := Nat.exists_eq_add_of_lt hop
  refine middle_itemAt hstage ?_
  rw [middlePhase_overlap hoverlap (show op + rest + 1 + 1 - 1 + 1 = _ by omega)]
  refine ItemAt.append_right [.step _] (ItemAt.append_left _ ?_)
  exact h.flatMap_range _ (2 * ·) rfl (fun _ _ => rfl) (by omega)

theorem overlap_last_itemAt (hop : op + 1 = schedule.fwdBwdOps stageIndex)
    (h : ItemAt property [.step (schedule.bwdStep stageIndex op)] timeStep) :
    ItemAt property (schedule.constructStageExecOrder stageIndex)
      (schedule.reach stageIndex + schedule.lastStage + (1 + (2 * op + timeStep))) := by
  refine middle_itemAt hstage ?_
  rw [middlePhase_overlap hoverlap hop]
  refine ItemAt.append_right [.step _] ?_
  have hback := ItemAt.append_right ((range op).flatMap fun op =>
      [.overlap .bwdFwd (schedule.bwdStep stageIndex op)
        (schedule.fwdStep stageIndex (schedule.warmupOps stageIndex + op + 1))])
    (h.append_left (bubbles (schedule.steadyPad stageIndex op)))
  rwa [width_flatMap_range _ (2 * ·) rfl fun _ _ => rfl] at hback

end Overlap

theorem width_middlePhase (hstage : stageIndex < schedule.realStageNum) :
    width (schedule.middlePhase stageIndex) =
      2 * schedule.fullIndex (schedule.fwdBwdOps stageIndex) := by
  cases hoverlap : schedule.overlapBF with
  | false =>
    rw [middlePhase, hoverlap, if_neg (by simp), steadyPhase]
    refine width_flatMap_range _ (fun op => 2 * schedule.fullIndex op) (by simp) fun op hop => ?_
    have hstart := steady_start hstage hop
    simp only [width_cons, length_expandSlot_step, width_bubbles]
    omega
  | true =>
    cases hops : schedule.fwdBwdOps stageIndex with
    | zero =>
      rw [middlePhase, if_pos hoverlap, overlapPhase, if_pos hops]
      simp
    | succ last =>
      have hstart := steady_start hstage (show last < schedule.fwdBwdOps stageIndex by omega)
      have hlast := fullIndex_of_lt_steady
        (Or.inl (show last < schedule.fwdBwdOps stageIndex by omega))
      rw [middlePhase_overlap hoverlap hops.symm, hstart, hlast, width_append, width_append,
        width_append, width_flatMap_range _ (2 * ·) rfl fun _ _ => rfl]
      simp only [width_cons, width_nil, length_expandSlot_step, width_bubbles]
      omega

theorem cooldown_itemAt (hstage : stageIndex < schedule.realStageNum) {property : ScanItem → Prop}
    {op : Nat} (hop : op < schedule.warmupOps stageIndex)
    (h : ItemAt property
      [.step (schedule.bwdStep stageIndex (schedule.fwdBwdOps stageIndex + op))] 0) :
    ItemAt property (schedule.constructStageExecOrder stageIndex)
      (schedule.bwdColumn stageIndex (schedule.fwdBwdOps stageIndex + op)) := by
  have htotal := schedule.warmupOps_add_fwdBwdOps stageIndex
  have hmono := schedule.fullIndex_mono (Nat.le_add_right (schedule.fwdBwdOps stageIndex) op)
  have hphase := ItemAt.flatMap_range (fun op =>
      .bubble :: .step (schedule.bwdStep stageIndex (schedule.fwdBwdOps stageIndex + op)) ::
        bubbles (schedule.cooldownPad stageIndex (schedule.fwdBwdOps stageIndex + op)))
    (fun op => 2 * (schedule.fullIndex (schedule.fwdBwdOps stageIndex + op) -
      schedule.fullIndex (schedule.fwdBwdOps stageIndex))) (by simp) (fun earlier hearlier => by
      have hmono := schedule.fullIndex_mono
        (Nat.le_add_right (schedule.fwdBwdOps stageIndex) earlier)
      simp only [width_cons, length_expandSlot_step, length_expandSlot_bubble, width_bubbles,
        ← Nat.add_assoc, fullIndex_succ]
      rw [cooldownPad_eq (by omega)]
      omega) hop (ItemAt.append_right [.bubble] (h.append_left (bubbles _)))
  have hback := ItemAt.append_right (schedule.frontPhase stageIndex)
    (ItemAt.append_right (schedule.middlePhase stageIndex) hphase)
  rw [width_frontPhase hstage, width_middlePhase hstage] at hback
  rw [constructStageExecOrder_phases, bwdColumn]
  have hP := schedule.realStageNum_pos
  rw [show width [Slot.bubble] = 1 from rfl] at hback
  rwa [show schedule.reach stageIndex + schedule.realStageNum +
      2 * schedule.fullIndex (schedule.fwdBwdOps stageIndex + op) =
    schedule.reach stageIndex + schedule.lastStage +
      (2 * schedule.fullIndex (schedule.fwdBwdOps stageIndex) +
        (2 * (schedule.fullIndex (schedule.fwdBwdOps stageIndex + op) -
          schedule.fullIndex (schedule.fwdBwdOps stageIndex)) + (1 + 0))) by
    simp only [lastStage]
    omega]

section Columns

variable (hstage : stageIndex < schedule.realStageNum) {opIndex : Nat}
  (hop : opIndex < schedule.nLocalStages * schedule.microBatchNum)
include hstage hop

theorem fwd_itemAt {property : ScanItem → Prop} (half : Nat)
    (h : ItemAt property [schedule.fwdSlot stageIndex opIndex] half) :
    ItemAt property (schedule.constructStageExecOrder stageIndex)
      (schedule.fwdEmitColumn stageIndex opIndex + half) := by
  by_cases hwarm : opIndex < schedule.warmupOps stageIndex
  · have hsolo : ¬schedule.Overlapped stageIndex opIndex := fun hover => by
      have := hover.2
      omega
    rw [fwdSlot, if_neg hsolo] at h
    have hzero : half = 0 := by
      obtain ⟨item, hget, -⟩ := h
      have := (List.getElem?_eq_some_iff.mp hget).1
      exact Nat.lt_one_iff.mp this
    subst hzero
    rw [fwdEmitColumn, if_neg hsolo]
    exact warmup_itemAt hwarm h
  obtain ⟨op, rfl⟩ := Nat.exists_eq_add_of_le (Nat.le_of_not_lt hwarm)
  have hlt : op < schedule.fwdBwdOps stageIndex := by
    simp only [fwdBwdOps]
    omega
  rw [fwdEmitColumn, fwdColumn, if_neg hwarm, Nat.add_sub_cancel_left]
  by_cases hover : schedule.Overlapped stageIndex (schedule.warmupOps stageIndex + op)
  · obtain ⟨pred, rfl⟩ := Nat.exists_eq_add_one_of_ne_zero (show op ≠ 0 by
      rintro rfl
      exact Nat.lt_irrefl _ hover.2)
    rw [fwdSlot, if_pos hover, Nat.add_sub_cancel_left, Nat.add_sub_cancel] at h
    have hitem := overlap_pair_itemAt hstage hover.1 hlt h
    rw [if_pos hover]
    rwa [show schedule.reach stageIndex + schedule.lastStage + 2 * (pred + 1) - 1 + half =
      schedule.reach stageIndex + schedule.lastStage + (1 + (2 * pred + half)) by omega]
  · rw [fwdSlot, if_neg hover] at h
    rw [if_neg hover, Nat.sub_zero, Nat.add_assoc _ (2 * op)]
    cases hoverlap : schedule.overlapBF with
    | false =>
      exact steady_itemAt hstage hoverlap hlt
        (h.append_left [.step (schedule.bwdStep stageIndex op)])
    | true =>
      obtain rfl : op = 0 := by
        by_contra hne
        exact hover ⟨hoverlap, by omega⟩
      simpa using overlap_first_itemAt hstage hoverlap hlt h

theorem bwd_itemAt {property : ScanItem → Prop} (half : Nat)
    (h : ItemAt property [schedule.bwdSlot stageIndex opIndex] half) :
    ItemAt property (schedule.constructStageExecOrder stageIndex)
      (schedule.bwdColumn stageIndex opIndex + half) := by
  have hP := schedule.realStageNum_pos
  have htotal := schedule.warmupOps_add_fwdBwdOps stageIndex
  by_cases hcool : schedule.fwdBwdOps stageIndex ≤ opIndex
  · have hsolo : ¬(schedule.overlapBF = true ∧ opIndex + 1 < schedule.fwdBwdOps stageIndex) := by
      omega
    rw [bwdSlot, if_neg hsolo] at h
    have hzero : half = 0 := by
      obtain ⟨item, hget, -⟩ := h
      have := (List.getElem?_eq_some_iff.mp hget).1
      exact Nat.lt_one_iff.mp this
    subst hzero
    obtain ⟨op, rfl⟩ := Nat.exists_eq_add_of_le hcool
    exact cooldown_itemAt hstage (by omega) h
  have hplace := fullIndex_of_lt_steady (Or.inl (Nat.lt_of_not_le hcool))
  rw [bwdColumn, hplace, show schedule.reach stageIndex + schedule.realStageNum + 2 * opIndex +
      half = schedule.reach stageIndex + schedule.lastStage + (1 + (2 * opIndex + half)) by
    simp only [lastStage]
    omega]
  cases hoverlap : schedule.overlapBF with
  | false =>
    rw [bwdSlot, if_neg (by simp [hoverlap])] at h
    have hitem := steady_itemAt hstage hoverlap (Nat.lt_of_not_le hcool)
      (ItemAt.append_right
        [.step (schedule.fwdStep stageIndex (schedule.warmupOps stageIndex + opIndex))] h)
    rwa [show width [Slot.step (schedule.fwdStep stageIndex
        (schedule.warmupOps stageIndex + opIndex))] = 1 from rfl,
      show 2 * opIndex + (1 + half) = 1 + (2 * opIndex + half) by omega] at hitem
  | true =>
    by_cases hpair : opIndex + 1 < schedule.fwdBwdOps stageIndex
    · rw [bwdSlot, if_pos ⟨hoverlap, hpair⟩] at h
      exact overlap_pair_itemAt hstage hoverlap hpair h
    · rw [bwdSlot, if_neg fun hover => hpair hover.2] at h
      exact overlap_last_itemAt hstage hoverlap (by omega) h

theorem fwdSlot_emitted :
    EmittedIn (schedule.constructStageExecOrder stageIndex) (schedule.fwdSlot stageIndex opIndex)
      (schedule.fwdEmitColumn stageIndex opIndex) := by
  refine fwd_itemAt hstage hop 0 ?_
  rw [fwdSlot]
  split
  · exact ⟨_, rfl, mem_singleton.mpr rfl⟩
  · exact ⟨_, rfl, mem_singleton.mpr rfl⟩

theorem bwdSlot_emitted :
    EmittedIn (schedule.constructStageExecOrder stageIndex) (schedule.bwdSlot stageIndex opIndex)
      (schedule.bwdColumn stageIndex opIndex) := by
  refine bwd_itemAt hstage hop 0 ?_
  rw [bwdSlot]
  split
  · exact ⟨_, rfl, mem_singleton.mpr rfl⟩
  · exact ⟨_, rfl, mem_singleton.mpr rfl⟩

theorem bwd_inColumn :
    InColumn (schedule.constructStageExecOrder stageIndex) (schedule.bwdStep stageIndex opIndex)
      (schedule.bwdColumn stageIndex opIndex) := by
  refine bwd_itemAt hstage hop 0 ?_
  rw [bwdSlot]
  split
  · exact ⟨_, rfl, rfl⟩
  · exact ⟨_, rfl, rfl⟩

theorem fwd_inColumn :
    InColumn (schedule.constructStageExecOrder stageIndex) (schedule.fwdStep stageIndex opIndex)
      (schedule.fwdColumn stageIndex opIndex) := by
  by_cases hover : schedule.Overlapped stageIndex opIndex
  · have hsecond : InColumn [schedule.fwdSlot stageIndex opIndex]
        (schedule.fwdStep stageIndex opIndex) 1 := by
      rw [fwdSlot, if_pos hover]
      exact ⟨_, rfl, rfl⟩
    have hitem := fwd_itemAt hstage hop 1 hsecond
    rw [fwdEmitColumn, if_pos hover] at hitem
    have hwarm : ¬opIndex < schedule.warmupOps stageIndex := by
      have := hover.2
      omega
    have hpos : 0 < schedule.fwdColumn stageIndex opIndex := by
      rw [fwdColumn, if_neg hwarm]
      have := hover.2
      omega
    rwa [Nat.sub_add_cancel hpos] at hitem
  · have honly : InColumn [schedule.fwdSlot stageIndex opIndex]
        (schedule.fwdStep stageIndex opIndex) 0 := by
      rw [fwdSlot, if_neg hover]
      exact ⟨_, rfl, rfl⟩
    have hitem := fwd_itemAt hstage hop 0 honly
    rwa [fwdEmitColumn, if_neg hover] at hitem

end Columns

/-! ## What an order computes -/

theorem leafSteps_bubbles (count : Nat) : (bubbles count).flatMap Slot.leafSteps = [] := by
  simp [bubbles, Slot.leafSteps]

theorem leafSteps_middlePhase (stageIndex : Nat) :
    (schedule.middlePhase stageIndex).flatMap Slot.leafSteps =
      (range (schedule.fwdBwdOps stageIndex)).flatMap fun op =>
        [schedule.fwdStep stageIndex (schedule.warmupOps stageIndex + op),
          schedule.bwdStep stageIndex op] := by
  cases hoverlap : schedule.overlapBF with
  | false =>
    rw [middlePhase, hoverlap, if_neg (by simp), steadyPhase, flatMap_assoc]
    simp [Slot.leafSteps, leafSteps_bubbles]
  | true =>
    cases hops : schedule.fwdBwdOps stageIndex with
    | zero =>
      rw [middlePhase, if_pos hoverlap, overlapPhase, if_pos hops]
      rfl
    | succ last =>
      rw [middlePhase_overlap hoverlap hops.symm]
      simp only [flatMap_append, leafSteps_bubbles, append_nil, flatMap_assoc,
        flatMap_singleton, Slot.leafSteps]
      generalize schedule.warmupOps stageIndex = warmupOps
      clear hops
      induction last with
      | zero => rfl
      | succ last ih =>
        rw [range_succ (n := last + 1), flatMap_append, ← ih, range_succ]
        simp [Nat.add_assoc]

theorem leafSteps_perm (stageIndex : Nat) :
    ((schedule.constructStageExecOrder stageIndex).flatMap Slot.leafSteps).Perm
      ((range (schedule.nLocalStages * schedule.microBatchNum)).map
          (schedule.fwdStep stageIndex) ++
        (range (schedule.nLocalStages * schedule.microBatchNum)).map
          (schedule.bwdStep stageIndex)) := by
  have htotal := schedule.warmupOps_add_fwdBwdOps stageIndex
  have hwarm : (schedule.warmupPhase stageIndex (schedule.warmupOps stageIndex)).flatMap
      Slot.leafSteps = (range (schedule.warmupOps stageIndex)).map
        (schedule.fwdStep stageIndex) := by
    rw [warmupPhase, flatMap_assoc, map_eq_flatMap]
    simp [Slot.leafSteps, leafSteps_bubbles]
  have hcool : (schedule.cooldownPhase stageIndex (schedule.warmupOps stageIndex)
      (schedule.fwdBwdOps stageIndex)).flatMap Slot.leafSteps =
      (range (schedule.warmupOps stageIndex)).map fun op =>
        schedule.bwdStep stageIndex (schedule.fwdBwdOps stageIndex + op) := by
    rw [cooldownPhase, flatMap_assoc, map_eq_flatMap]
    simp [Slot.leafSteps, leafSteps_bubbles]
  have hmiddle := map_append_flatMap_perm (range (schedule.fwdBwdOps stageIndex))
    (fun op => schedule.fwdStep stageIndex (schedule.warmupOps stageIndex + op))
    fun op => [schedule.bwdStep stageIndex op]
  rw [← map_eq_flatMap] at hmiddle
  have hfwd : (range (schedule.nLocalStages * schedule.microBatchNum)).map
      (schedule.fwdStep stageIndex) = (range (schedule.warmupOps stageIndex)).map
        (schedule.fwdStep stageIndex) ++ (range (schedule.fwdBwdOps stageIndex)).map
          fun op => schedule.fwdStep stageIndex (schedule.warmupOps stageIndex + op) := by
    rw [← htotal, range_add, map_append, map_map]
    rfl
  have hbwd : (range (schedule.nLocalStages * schedule.microBatchNum)).map
      (schedule.bwdStep stageIndex) = (range (schedule.fwdBwdOps stageIndex)).map
        (schedule.bwdStep stageIndex) ++ (range (schedule.warmupOps stageIndex)).map
          fun op => schedule.bwdStep stageIndex (schedule.fwdBwdOps stageIndex + op) := by
    rw [← htotal, Nat.add_comm, range_add, map_append, map_map]
    rfl
  rw [constructStageExecOrder_phases, frontPhase, hfwd, hbwd]
  simp only [flatMap_append, leafSteps_bubbles, nil_append, hwarm, hcool,
    leafSteps_middlePhase, append_assoc]
  refine List.Perm.append_left _ ?_
  rw [← append_assoc]
  exact hmiddle.symm.append_right _

theorem get_lt_get_of_eq {f : Nat → Nat} {op later : Nat} (hlt : op < later) (heq : f op = f later) :
    MicroIndex.get ((range op).map f).reverse (f op) <
      MicroIndex.get ((range later).map f).reverse (f later) := by
  obtain ⟨rest, rfl⟩ := Nat.exists_eq_add_of_lt hlt
  rw [MicroIndex.get, MicroIndex.get, count_reverse, count_reverse, ← heq,
    show op + rest + 1 = op + 1 + rest by omega, range_add, range_succ]
  simp only [map_append, count_append, map_cons, map_nil, count_singleton_self]
  omega

theorem fwdStep_injective (stageIndex : Nat) : Function.Injective (schedule.fwdStep stageIndex) := by
  intro op later h
  simp only [fwdStep, MetaStep.mk.injEq] at h
  obtain ⟨hmicro, -, hstage⟩ := h
  rcases Nat.lt_trichotomy op later with hlt | heq | hlt
  · exact absurd hmicro (Nat.ne_of_lt (get_lt_get_of_eq hlt hstage))
  · exact heq
  · exact absurd hmicro.symm (Nat.ne_of_lt (get_lt_get_of_eq hlt hstage.symm))

theorem bwdStep_injective (stageIndex : Nat) : Function.Injective (schedule.bwdStep stageIndex) := by
  intro op later h
  simp only [bwdStep, MetaStep.mk.injEq] at h
  obtain ⟨hmicro, -, hstage⟩ := h
  rcases Nat.lt_trichotomy op later with hlt | heq | hlt
  · exact absurd hmicro (Nat.ne_of_lt (get_lt_get_of_eq hlt hstage))
  · exact heq
  · exact absurd hmicro.symm (Nat.ne_of_lt (get_lt_get_of_eq hlt hstage.symm))

theorem leafSteps_nodup (stageIndex : Nat) :
    ((schedule.constructStageExecOrder stageIndex).flatMap Slot.leafSteps).Nodup := by
  refine (schedule.leafSteps_perm stageIndex).nodup_iff.mpr ?_
  refine nodup_append.mpr ⟨nodup_range.map (fwdStep_injective stageIndex),
    nodup_range.map (bwdStep_injective stageIndex), fun a ha b hb => ?_⟩
  obtain ⟨op, -, rfl⟩ := mem_map.mp ha
  obtain ⟨op', -, rfl⟩ := mem_map.mp hb
  simp [fwdStep, bwdStep]

theorem mem_leafSteps {step : MetaStep} :
    step ∈ (schedule.constructStageExecOrder stageIndex).flatMap Slot.leafSteps ↔
      ∃ cursor : schedule.Cursor, step = schedule.fwdStep stageIndex cursor.opIndex ∨
        step = schedule.bwdStep stageIndex cursor.opIndex := by
  rw [(schedule.leafSteps_perm stageIndex).mem_iff, mem_append, mem_map, mem_map]
  constructor
  · rintro (⟨op, hop, rfl⟩ | ⟨op, hop, rfl⟩)
    · obtain ⟨cursor, rfl⟩ := exists_cursor (mem_range.mp hop)
      exact ⟨cursor, Or.inl rfl⟩
    · obtain ⟨cursor, rfl⟩ := exists_cursor (mem_range.mp hop)
      exact ⟨cursor, Or.inr rfl⟩
  · rintro ⟨cursor, rfl | rfl⟩
    · exact Or.inl ⟨_, mem_range.mpr cursor.opIndex_lt, rfl⟩
    · exact Or.inr ⟨_, mem_range.mpr cursor.opIndex_lt, rfl⟩

end HyperParallel.Pipeline.ScheduleInterleaved1F1B
