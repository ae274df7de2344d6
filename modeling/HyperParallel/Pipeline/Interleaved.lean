import HyperParallel.Pipeline.ColumnScan
import Mathlib.Algebra.Ring.Nat

/-!
# The interleaved 1F1B schedule

Each rank holds several stages, one for each local chunk.  The micro-batches come
in rounds; a round goes through all chunks before the next one starts.  Every
rank warms up with forwards, alternates forward and backward, and cools down with
backwards; bubbles keep the columns of the ranks aligned.
-/

namespace HyperParallel.Pipeline

structure ScheduleInterleaved1F1B where
  realStageNum : Nat
  nLocalStages : Nat
  microBatchNum : Nat
  lessMemory : Bool
  overlapBF : Bool
  enableDxdwSplit : Bool
  realStageNum_pos : 0 < realStageNum
  nLocalStages_pos : 0 < nLocalStages
  microBatchNum_pos : 0 < microBatchNum
  split_overlap : enableDxdwSplit = true → overlapBF = true

/-- The index after the last element that is at most `x`, in a sorted list. -/
def bisectRight (values : List Nat) (x : Nat) : Nat := (values.takeWhile (· ≤ x)).length

def accumulate (values : List Nat) : List Nat :=
  (List.range values.length).map fun k => (values.take (k + 1)).sum

/-- A counter of micro-batches, as the stages it was advanced for; absent stages are at zero. -/
abbrev MicroIndex := List Nat

def MicroIndex.get (microIndex : MicroIndex) (stageIndex : Nat) : Nat := microIndex.count stageIndex

def MicroIndex.advance (microIndex : MicroIndex) (stageIndex : Nat) : MicroIndex :=
  stageIndex :: microIndex

def bubbles (count : Nat) : List Slot := List.replicate count .bubble

namespace ScheduleInterleaved1F1B

variable (schedule : ScheduleInterleaved1F1B)

def stageNum : Nat := schedule.nLocalStages * schedule.realStageNum

/-! ## Rounds -/

def nRounds : Nat := max 1 (schedule.microBatchNum / schedule.realStageNum)

def shortMicro : Bool := schedule.microBatchNum < schedule.realStageNum

def nExtraMicrobatch : Nat := schedule.microBatchNum % schedule.realStageNum

def base : Int :=
  if schedule.shortMicro then schedule.microBatchNum - schedule.realStageNum
  else (schedule.nExtraMicrobatch / schedule.nRounds : Nat)

def remainder : Nat :=
  if schedule.shortMicro then 0 else schedule.nExtraMicrobatch % schedule.nRounds

def nMicrobatchPerRound : List Nat :=
  (List.range schedule.nRounds).map fun i =>
    if i < schedule.remainder then (schedule.realStageNum + schedule.base + 1).toNat
    else (schedule.realStageNum + schedule.base).toNat

def nMicrobatchPerRoundAccu : List Nat :=
  0 :: (accumulate schedule.nMicrobatchPerRound).map (· * schedule.nLocalStages)

def depth (stageIndex : Nat) : Nat := schedule.realStageNum - 1 - stageIndex

/-- How far the warmup of a rank reaches beyond that of the last one. -/
def stagger (stageIndex : Nat) : Nat :=
  if schedule.lessMemory then schedule.depth stageIndex else 2 * schedule.depth stageIndex

def warmupOps (stageIndex : Nat) : Nat :=
  let warmupOpsLastStage := (schedule.nLocalStages - 1) * schedule.nMicrobatchPerRound.getD 0 0
  min (warmupOpsLastStage + schedule.stagger stageIndex)
    (schedule.microBatchNum * schedule.nLocalStages)

def localIndex (opIndex : Nat) : Nat :=
  let accuIndex := bisectRight schedule.nMicrobatchPerRoundAccu opIndex - 1
  (opIndex - schedule.nMicrobatchPerRoundAccu.getD accuIndex 0) /
    schedule.nMicrobatchPerRound.getD accuIndex 0

def forwardStageIndex (opIndex stageIndex : Nat) : Nat :=
  schedule.localIndex opIndex * schedule.realStageNum + stageIndex

def backwardStageIndex (opIndex stageIndex : Nat) : Nat :=
  (schedule.nLocalStages - 1 - schedule.localIndex opIndex) * schedule.realStageNum + stageIndex

/-! ## Phases -/

def trailingBubble : Nat := schedule.realStageNum - schedule.microBatchNum

def lastMicro : Nat := schedule.microBatchNum - 1

def lastStage : Nat := schedule.realStageNum - 1

def emitWarmupOps (stageIndex warmupOps : Nat) (fwdStageMicroIndex : MicroIndex) :
    List Slot × MicroIndex :=
  (List.range warmupOps).foldl (fun (ops, microIndex) opIdx =>
    let fwdStageIdx := schedule.forwardStageIndex opIdx stageIndex
    let fwdMicroIdx := microIndex.get fwdStageIdx
    let needPad := schedule.shortMicro ∧ fwdMicroIdx = schedule.lastMicro ∧
      (opIdx ≠ warmupOps - 1 ∨ stageIndex = schedule.lastStage)
    (ops ++ [.step ⟨fwdMicroIdx, .fwd, fwdStageIdx⟩] ++
      bubbles (if needPad then schedule.trailingBubble else 0),
      microIndex.advance fwdStageIdx)) ([], fwdStageMicroIndex)

def emit1f1bOps (stageIndex warmupOps fwdBwdOps : Nat)
    (fwdStageMicroIndex bwdStageMicroIndex : MicroIndex) : List Slot × MicroIndex × MicroIndex :=
  (List.range fwdBwdOps).foldl (fun (ops, fwdMicroIndex, bwdMicroIndex) bwdIdx =>
    let fwdStageIdx := schedule.forwardStageIndex (warmupOps + bwdIdx) stageIndex
    let bwdStageIdx := schedule.backwardStageIndex bwdIdx stageIndex
    let bwdMicroIdx := bwdMicroIndex.get bwdStageIdx
    let needPad := schedule.shortMicro ∧ bwdMicroIdx = schedule.lastMicro ∧
      stageIndex = schedule.lastStage
    (ops ++ [.step ⟨fwdMicroIndex.get fwdStageIdx, .fwd, fwdStageIdx⟩,
        .step ⟨bwdMicroIdx, .bwd, bwdStageIdx⟩] ++
      bubbles (if needPad then 2 * schedule.trailingBubble else 0),
      fwdMicroIndex.advance fwdStageIdx, bwdMicroIndex.advance bwdStageIdx))
    ([], fwdStageMicroIndex, bwdStageMicroIndex)

def collectFwdBwdSteps (stageIndex warmupOps fwdBwdOps : Nat)
    (fwdStageMicroIndex bwdStageMicroIndex : MicroIndex) :
    List MetaStep × List MetaStep × MicroIndex × MicroIndex :=
  (List.range fwdBwdOps).foldl (fun (fwdSteps, bwdSteps, fwdMicroIndex, bwdMicroIndex) bwdIdx =>
    let fwdStageIdx := schedule.forwardStageIndex (warmupOps + bwdIdx) stageIndex
    let bwdStageIdx := schedule.backwardStageIndex bwdIdx stageIndex
    (fwdSteps ++ [⟨fwdMicroIndex.get fwdStageIdx, .fwd, fwdStageIdx⟩],
      bwdSteps ++ [⟨bwdMicroIndex.get bwdStageIdx, .bwd, bwdStageIdx⟩],
      fwdMicroIndex.advance fwdStageIdx, bwdMicroIndex.advance bwdStageIdx))
    ([], [], fwdStageMicroIndex, bwdStageMicroIndex)

def pairIntoOverlapBF (fwdSteps bwdSteps : List MetaStep) : List Slot :=
  fwdSteps.head?.toList.map .step ++
    List.zipWith (.overlap .bwdFwd) bwdSteps fwdSteps.tail ++
    bwdSteps.getLast?.toList.map .step

def emit1f1bOverlapOps (stageIndex warmupOps fwdBwdOps : Nat)
    (fwdStageMicroIndex bwdStageMicroIndex : MicroIndex) : List Slot × MicroIndex × MicroIndex :=
  let (fwdSteps, bwdSteps, fwdMicroIndex, bwdMicroIndex) :=
    schedule.collectFwdBwdSteps stageIndex warmupOps fwdBwdOps fwdStageMicroIndex
      bwdStageMicroIndex
  let needPad := schedule.shortMicro ∧ stageIndex = schedule.lastStage ∧
    bwdSteps.getLast?.map MetaStep.microIndex = some schedule.lastMicro
  (pairIntoOverlapBF fwdSteps bwdSteps ++
    bubbles (if needPad then 2 * schedule.trailingBubble else 0), fwdMicroIndex, bwdMicroIndex)

def emitCooldownOps (stageIndex warmupOps fwdBwdOps totalOps : Nat)
    (bwdStageMicroIndex : MicroIndex) : List Slot × MicroIndex :=
  (List.range (totalOps - (warmupOps + fwdBwdOps))).foldl (fun (ops, microIndex) k =>
    let bwdStageIdx := schedule.backwardStageIndex (warmupOps + fwdBwdOps + k - warmupOps) stageIndex
    let bwdMicroIdx := microIndex.get bwdStageIdx
    let needPad := schedule.shortMicro ∧ bwdMicroIdx = schedule.lastMicro
    (ops ++ [.bubble, .step ⟨bwdMicroIdx, .bwd, bwdStageIdx⟩] ++
      bubbles (if needPad then 2 * schedule.trailingBubble else 0),
      microIndex.advance bwdStageIdx)) ([], bwdStageMicroIndex)

def constructStageExecOrder (stageIndex : Nat) : List Slot :=
  let warmupOps := schedule.warmupOps stageIndex
  let fwdBwdOps := schedule.nLocalStages * schedule.microBatchNum - warmupOps
  let totalOps := 2 * warmupOps + fwdBwdOps
  let (warmup, fwdMicroIndex) := schedule.emitWarmupOps stageIndex warmupOps []
  let (steady, _, bwdMicroIndex) :=
    if schedule.overlapBF then
      schedule.emit1f1bOverlapOps stageIndex warmupOps fwdBwdOps fwdMicroIndex []
    else schedule.emit1f1bOps stageIndex warmupOps fwdBwdOps fwdMicroIndex []
  let (cooldown, _) :=
    schedule.emitCooldownOps stageIndex warmupOps fwdBwdOps totalOps bwdMicroIndex
  bubbles stageIndex ++ warmup ++
    bubbles (schedule.stagger stageIndex - schedule.microBatchNum) ++
    bubbles (schedule.depth stageIndex) ++ steady ++ cooldown

def computeOrder : Schedule := fun rank =>
  if rank < schedule.realStageNum then schedule.constructStageExecOrder rank else []

end ScheduleInterleaved1F1B

end HyperParallel.Pipeline
