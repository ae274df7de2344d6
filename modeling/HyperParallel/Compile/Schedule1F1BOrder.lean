import HyperParallel.Compile.Schedule1F1B
import HyperParallel.Pipeline.OneFOneB

/-!
# The order of the 1F1B driver

The driver of a stage makes the steps of the 1F1B order of that stage, with its
own instructions for each of them.
-/

namespace HyperParallel.Compile.Schedule1F1B

open Foundation List
open Pipeline
open Pipeline.OneFOneB (constructStageOrder warmupMicroBatches warmupBlock steadyBlock
  cooldownBlock leaf sendPair recvPair)

/-! ## The calls of a driver -/

section Calls

variable (ppDegree numMicrobatches stageIdx : Nat)

def warmupCalls (k : Nat) : List Call :=
  [.recvActivation k] ++
  (if ¬stageIdx % 2 = 0 ∧ 0 < k then [.sendPending (some (k - 1))] else []) ++ [.applyForward k] ++
  if stageIdx % 2 = 0 ∧ k ≠ warmupCount ppDegree numMicrobatches stageIdx - 1 then [.sendForward k]
  else [.keepPending k]

def backwardCalls (bwdIndex : Nat) (pendingIndex : Option Nat) : List Call :=
  [.recvGradient bwdIndex] ++ (if 0 < bwdIndex then [.waitSends (bwdIndex - 1)] else []) ++
  (if pendingIndex.isSome then [.sendPending pendingIndex] else []) ++
  [.applyBackward bwdIndex, .releaseOuts bwdIndex]

def steadyCalls (fwdIndex bwdIndex : Nat) : List Call :=
  backwardCalls bwdIndex (some (fwdIndex - 1)) ++
  [.recvActivation fwdIndex, .applyForward fwdIndex, .keepPending fwdIndex]

theorem foldl_warmupTurn {n : Nat} (hn : n ≤ warmupCount ppDegree numMicrobatches stageIdx) :
    (range n).foldl (warmupTurn ppDegree numMicrobatches stageIdx) ⟨[], 0, 0, none⟩ =
      { calls := (range n).flatMap (warmupCalls ppDegree numMicrobatches stageIdx)
        fwdIndex := n
        bwdIndex := 0
        pendingIndex :=
          if n = 0 ∨ stageIdx % 2 = 0 ∧ n ≠ warmupCount ppDegree numMicrobatches stageIdx then none
          else some (n - 1) } := by
  induction n with
  | zero => simp
  | succ n ih =>
    rw [range_succ, foldl_append, ih (by omega), flatMap_append]
    simp only [foldl_cons, foldl_nil, warmupTurn, flatMap_singleton, warmupCalls]
    by_cases heven : stageIdx % 2 = 0
    · by_cases hlast : n = warmupCount ppDegree numMicrobatches stageIdx - 1
      · have hdone : n + 1 = warmupCount ppDegree numMicrobatches stageIdx := by omega
        simp [heven, ← hdone]
      · have hopen : n + 1 ≠ warmupCount ppDegree numMicrobatches stageIdx := by omega
        have hbefore : n ≠ warmupCount ppDegree numMicrobatches stageIdx := by omega
        simp [heven, hlast, hopen, hbefore]
    · by_cases hpos : n = 0
      · simp [heven, hpos]
      · simp [heven, hpos, Nat.pos_of_ne_zero hpos]

theorem iterate_backwardTurn (n : Nat) (driver : Driver) :
    backwardTurn^[n] driver =
      { calls := driver.calls ++ (range n).flatMap fun k =>
          backwardCalls (driver.bwdIndex + k) (if k = 0 then driver.pendingIndex else none)
        fwdIndex := driver.fwdIndex
        bwdIndex := driver.bwdIndex + n
        pendingIndex := if n = 0 then driver.pendingIndex else none } := by
  induction n with
  | zero => simp
  | succ n ih =>
    rw [Function.iterate_succ_apply', ih, backwardTurn, range_succ, flatMap_append]
    simp [backwardCalls, Nat.add_assoc]

theorem iterate_steadyTurn (n : Nat) {driver : Driver} (hpos : 0 < driver.fwdIndex)
    (hpending : driver.pendingIndex = some (driver.fwdIndex - 1)) :
    steadyTurn^[n] driver =
      { calls := driver.calls ++ (range n).flatMap fun k =>
          steadyCalls (driver.fwdIndex + k) (driver.bwdIndex + k)
        fwdIndex := driver.fwdIndex + n
        bwdIndex := driver.bwdIndex + n
        pendingIndex := some (driver.fwdIndex + n - 1) } := by
  induction n with
  | zero =>
    rw [Function.iterate_zero_apply]
    cases driver
    simp_all
  | succ n ih =>
    rw [Function.iterate_succ_apply', ih, steadyTurn, backwardTurn, range_succ, flatMap_append]
    simp [steadyCalls, backwardCalls, Nat.add_assoc]

variable {ppDegree numMicrobatches stageIdx}

theorem forward_eq (hmicro : ppDegree ≤ numMicrobatches) (hstage : stageIdx < ppDegree)
    (microbatchSize : Nat) :
    forward ppDegree numMicrobatches stageIdx microbatchSize =
      let warmup := warmupCount ppDegree numMicrobatches stageIdx
      .ok ((range warmup).flatMap (warmupCalls ppDegree numMicrobatches stageIdx) ++
        (range (numMicrobatches - warmup)).flatMap (fun k => steadyCalls (warmup + k) k) ++
        (range warmup).flatMap (fun k => backwardCalls (numMicrobatches - warmup + k)
          (if k = 0 then some (numMicrobatches - 1) else none)) ++ [.flushPendingSends]) := by
  have hpos : 0 < warmupCount ppDegree numMicrobatches stageIdx := by
    simp only [warmupCount]
    omega
  have hle : warmupCount ppDegree numMicrobatches stageIdx ≤ numMicrobatches := by
    simp only [warmupCount]
    omega
  unfold forward
  simp only [show ¬numMicrobatches < ppDegree by omega, if_false,
    foldl_warmupTurn _ _ _ (Nat.le_refl _)]
  rw [iterate_steadyTurn _ hpos (by simp; omega), iterate_backwardTurn]
  simp [Nat.add_sub_cancel' hle]

end Calls

/-! ## The instructions of a step -/

section Expand

variable {α : Type*} {numStages : Nat} (split : Split α numStages) (numMicrobatches k : Nat)

abbrev Eager (numStages numMicrobatches k micro : Nat) : Prop :=
  k % 2 = 0 ∧ micro + 1 < warmupMicroBatches numStages numMicrobatches k

def waitActions (bwdIndex : Nat) : List Action :=
  if 0 < bwdIndex then expand split k (.waitSends (bwdIndex - 1)) else []

def closeActions (micro : Nat) : List Action :=
  free (.accumulateGrads micro) :: expand split k (.releaseOuts micro)

def seedActions (micro : Nat) : List Action :=
  expand split k (.recvGradient micro) ++ waitActions split k micro ++
    expand split k (.sendPending (some micro))

/-- What the driver does where the order has a step. -/
def expandStep (micro : Nat) : MetaStepType → List Action
  | .fwdRecv => expand split k (.recvActivation micro)
  | .fwd =>
    (if k = 0 then expand split k (.recvActivation micro) else []) ++
    expand split k (.applyForward micro) ++
    if Eager numStages numMicrobatches k micro then []
    else expand split k (.keepPending micro)
  | .fwdSend =>
    if Eager numStages numMicrobatches k micro then
      expand split k (.sendForward micro)
    else expand split k (.sendPending (some micro))
  | .bwdRecv => expand split k (.recvGradient micro) ++ waitActions split k micro
  | .bwd =>
    (if isLast numStages k then seedActions split k micro else []) ++
    free (.applyBackward micro) :: if k = 0 then closeActions split k micro else []
  | .bwdSend =>
    ((List.range (gradOut split.crossing k)).map fun index =>
      ⟨.sendGradient micro index, .send (k - 1) micro⟩) ++ closeActions split k micro
  | _ => []

def expandSlot : Slot → List Action
  | .step ⟨micro, type, _⟩ => expandStep split numMicrobatches k micro type
  | _ => []

@[simp] theorem expandSlot_leaf (micro stage : Nat) (type : MetaStepType) :
    expandSlot split numMicrobatches k (leaf micro type stage) =
      expandStep split numMicrobatches k micro type := rfl

variable {numMicrobatches k}

theorem warmupCalls_expand {i : Nat} (hi : i < warmupMicroBatches numStages numMicrobatches k) :
    (warmupCalls numStages numMicrobatches k i).flatMap (expand split k) =
      (warmupBlock numStages numMicrobatches k i 0).flatMap
        (expandSlot split numMicrobatches k) := by
  have hwarm : warmupCount numStages numMicrobatches k =
      warmupMicroBatches numStages numMicrobatches k := Nat.min_comm _ _
  unfold warmupCalls warmupBlock sendPair recvPair
  rw [hwarm]
  by_cases heven : k % 2 = 0
  · by_cases hlast : i = warmupMicroBatches numStages numMicrobatches k - 1
    · have hstop : ¬i + 1 < warmupMicroBatches numStages numMicrobatches k := by omega
      by_cases hfirst : k = 0
      · simp [heven, ← hlast, expandStep, Eager, hstop, if_pos hfirst]
      · simp [heven, ← hlast, expandStep, Eager, hstop, if_neg hfirst]
    · have hmore : i + 1 < warmupMicroBatches numStages numMicrobatches k := by omega
      by_cases hfirst : k = 0
      · simp [heven, hlast, expandStep, Eager, hmore, if_pos hfirst]
      · simp [heven, hlast, expandStep, Eager, hmore, if_neg hfirst]
  · have hfirst : k ≠ 0 := by
      rintro rfl
      exact heven rfl
    by_cases hpos : 0 < i
    · simp [heven, hpos, expandStep, Eager, hfirst]
    · simp [heven, hpos, expandStep, Eager, hfirst]

theorem backwardCalls_expand (bwdIndex : Nat) (pendingIndex : Option Nat) :
    (backwardCalls bwdIndex pendingIndex).flatMap (expand split k) =
      expand split k (.recvGradient bwdIndex) ++ waitActions split k bwdIndex ++
      (if pendingIndex.isSome then expand split k (.sendPending pendingIndex) else []) ++
      expand split k (.applyBackward bwdIndex) ++ expand split k (.releaseOuts bwdIndex) := by
  unfold backwardCalls waitActions
  split_ifs <;> simp

theorem bwd_expand (numMicrobatches bwdIndex : Nat) :
    expand split k (.applyBackward bwdIndex) ++ expand split k (.releaseOuts bwdIndex) =
      free (.applyBackward bwdIndex) :: (if k = 0 then closeActions split k bwdIndex else []) ++
      if k ≠ 0 then expandStep split numMicrobatches k bwdIndex .bwdSend else [] := by
  by_cases hfirst : k = 0
  · subst hfirst
    simp [expand, closeActions, gradOut_zero]
  · simp [hfirst, expand, expandStep, closeActions]

theorem steadyCalls_expand {fwdIndex bwdIndex : Nat}
    (hwarm : warmupMicroBatches numStages numMicrobatches k ≤ fwdIndex)
    (hfwd : isLast numStages k → fwdIndex - 1 = bwdIndex) :
    (steadyCalls fwdIndex bwdIndex).flatMap (expand split k) =
      (steadyBlock numStages k fwdIndex bwdIndex).flatMap (expandSlot split numMicrobatches k) := by
  have heager : ¬Eager numStages numMicrobatches k fwdIndex := fun h => by
    have := h.2
    omega
  unfold steadyCalls
  rw [flatMap_append, backwardCalls_expand, append_assoc _ (expand split k
    (.applyBackward bwdIndex)), bwd_expand split numMicrobatches]
  have hpending : ¬Eager numStages numMicrobatches k (fwdIndex - 1) := fun h => by
    have := h.2
    omega
  unfold steadyBlock sendPair recvPair
  by_cases hlast : k = numStages - 1
  · rw [hfwd hlast]
    by_cases hfirst : k = 0
    · simp [expandStep, seedActions, heager, if_pos hlast, if_pos hfirst]
    · simp [expandStep, seedActions, heager, if_pos hlast, if_neg hfirst]
  · by_cases hfirst : k = 0
    · simp [expandStep, heager, hpending, if_neg hlast, if_pos hfirst]
    · simp [expandStep, heager, hpending, if_neg hlast, if_neg hfirst]

theorem cooldownCalls_expand {j : Nat} (hle : numStages ≤ numMicrobatches) (hstage : k < numStages)
    (hj : j < warmupMicroBatches numStages numMicrobatches k) :
    let bwdIndex := numMicrobatches - warmupMicroBatches numStages numMicrobatches k + j
    (backwardCalls bwdIndex (if j = 0 then some (numMicrobatches - 1) else none)).flatMap
        (expand split k) =
      (cooldownBlock numStages numMicrobatches k numMicrobatches bwdIndex).flatMap
        (expandSlot split numMicrobatches k) := by
  intro bwdIndex
  have hwarm : warmupMicroBatches numStages numMicrobatches k = numStages - k := by
    simp only [warmupMicroBatches]
    omega
  have hindex : bwdIndex =
      numMicrobatches - warmupMicroBatches numStages numMicrobatches k + j := rfl
  have hpending : ¬Eager numStages numMicrobatches k (numMicrobatches - 1) := fun h => by
    have := h.2
    omega
  rw [backwardCalls_expand, append_assoc _ (expand split k (.applyBackward bwdIndex)),
    bwd_expand split numMicrobatches]
  unfold cooldownBlock sendPair
  by_cases hlast : k = numStages - 1
  · have hzero : j = 0 := by omega
    have hall : numMicrobatches - 1 = bwdIndex := by omega
    rw [if_pos hzero, hall]
    by_cases hfirst : k = 0
    · simp [expandStep, seedActions, if_pos hlast, if_pos hfirst]
    · simp [expandStep, seedActions, if_pos hlast, if_neg hfirst]
  · by_cases hzero : j = 0
    · have hturn : bwdIndex = numMicrobatches -
          warmupMicroBatches numStages numMicrobatches k := by omega
      rw [if_pos hzero]
      by_cases hfirst : k = 0
      · simp [expandStep, hpending, if_neg hlast, if_pos hfirst, if_pos hturn]
      · simp [expandStep, hpending, if_neg hlast, if_neg hfirst, if_pos hturn]
    · have hturn : bwdIndex ≠ numMicrobatches -
          warmupMicroBatches numStages numMicrobatches k := by omega
      rw [if_neg hzero]
      by_cases hfirst : k = 0
      · simp [expandStep, if_neg hlast, if_pos hfirst, if_neg hturn]
      · simp [expandStep, if_neg hlast, if_neg hfirst, if_neg hturn]

theorem program_eq (hle : numStages ≤ numMicrobatches) (hstage : k < numStages)
    (microbatchSize : Nat) :
    program split numMicrobatches microbatchSize k =
      (constructStageOrder numStages numMicrobatches k).flatMap
        (expandSlot split numMicrobatches k) ++ [⟨.flushPendingSends, .wait none⟩] := by
  have hwarm : warmupCount numStages numMicrobatches k =
      warmupMicroBatches numStages numMicrobatches k := Nat.min_comm _ _
  have hcount : warmupMicroBatches numStages numMicrobatches k = numStages - k := by
    simp only [warmupMicroBatches]
    omega
  have hlong : ¬OneFOneB.Short numStages numMicrobatches k := by
    simp only [OneFOneB.Short]
    omega
  rw [program, if_pos hstage, forward_eq hle hstage, OneFOneB.constructStageOrder_eq]
  simp only [hwarm, if_neg hlong, append_nil, flatMap_append, flatMap_assoc]
  congr 1
  congr 1
  · congr 1
    · refine flatMap_congr ?_
      intro i hi
      exact warmupCalls_expand split (mem_range.mp hi)
    · refine flatMap_congr ?_
      intro i hi
      refine steadyCalls_expand split (Nat.le_add_right _ _) ?_
      intro hlast
      omega
  · refine flatMap_congr ?_
    intro j hj
    exact cooldownCalls_expand split hle hstage (mem_range.mp hj)

end Expand

end HyperParallel.Compile.Schedule1F1B
