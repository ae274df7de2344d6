import HyperParallel.Pipeline.InterleavedOrder
import Mathlib.Order.Interval.Finset.Nat

/-!
# The MPipe transpose schedule

The first micro-batches are loaded and preprocessed by all ranks at once, before
the interleaved order starts; every owner then ships what it has to rank 0.  The
transfers go around the body order of the ranks, which keeps its own.
-/

namespace HyperParallel.Pipeline

open Foundation List

/-- Who takes the micro-batches that are more than the ranks. -/
inductive OverflowMode where
  | full
  | min
  deriving DecidableEq, Repr

/-! ## Owners -/

def ownerOf (numTransposeMicroBatches : Nat) (overflowMode : OverflowMode) (micro : Nat) : Nat :=
  match overflowMode with
  | .min => if numTransposeMicroBatches ≤ micro then 0 else micro
  | .full => micro % numTransposeMicroBatches

def mpipeOwnedMicros (ppSize microBatchNum ppRank : Nat) (mode : OverflowMode) : Finset Nat :=
  let numTransposeMicroBatches := min ppSize microBatchNum
  if numTransposeMicroBatches ≤ ppRank then ∅ else
    match mode with
    | .full => (Finset.range microBatchNum).filter (· % numTransposeMicroBatches = ppRank)
    | .min =>
      if ppRank = 0 then insert 0 (Finset.Ico numTransposeMicroBatches microBatchNum)
      else {ppRank}

def prefixOwnedMicros (rank numTransposeMicroBatches microBatchNum : Nat)
    (overflowMode : OverflowMode) : List Nat :=
  if numTransposeMicroBatches ≤ rank then [] else
    match overflowMode with
    | .min => [rank]
    | .full => (List.range microBatchNum).filter (· % numTransposeMicroBatches = rank)

/-! ## Steps -/

inductive MpipeStepType where
  | paramBroadcast
  | transposeFwd
  | fwdSend
  | fwdRecv
  | graphSend
  | graphRecv
  | transposeBwd
  | gradSend
  | gradRecvWithBackward
  | gradReduce
  deriving DecidableEq, Repr

inductive MpipeStep where
  | body (slot : Slot)
  | data (type : MetaStepType) (micro : Nat)
  | mpipe (type : MpipeStepType) (micro : Option Nat)
  deriving DecidableEq, Repr

def prefixSendTypes : MetaStepType × MpipeStepType × MpipeStepType :=
  (.dataSend, .fwdSend, .graphSend)

def prefixRecvTypes : MetaStepType × MpipeStepType × MpipeStepType :=
  (.dataRecv, .fwdRecv, .graphRecv)

def prefixTransferSteps (micros : List Nat)
    (stepTypes : MetaStepType × MpipeStepType × MpipeStepType)
    (isDataloadOnly shipGraph : Bool) : List MpipeStep :=
  micros.map (.data stepTypes.1) ++
    if isDataloadOnly then [] else
      micros.map (fun micro => .mpipe stepTypes.2.1 (some micro)) ++
        if shipGraph then micros.map fun micro => .mpipe stepTypes.2.2 (some micro) else []

structure ScheduleMPipeTranspose extends ScheduleInterleaved1F1B where
  overflowMode : OverflowMode
  numTransposeLayers : Nat
  hasTrainablePreprocess : Bool
  ownerBackward : Bool
  overlapBF_eq : overlapBF = false
  trainable_of_ownerBackward : ownerBackward = true → hasTrainablePreprocess = true

namespace ScheduleMPipeTranspose

variable (schedule : ScheduleMPipeTranspose)

def numTransposeMicroBatches : Nat := min schedule.realStageNum schedule.microBatchNum

def ownedMicros (ppRank : Nat) : Finset Nat :=
  mpipeOwnedMicros schedule.realStageNum schedule.microBatchNum ppRank schedule.overflowMode

def owner (micro : Nat) : Nat :=
  ownerOf schedule.numTransposeMicroBatches schedule.overflowMode micro

def isDataloadOnly : Bool := schedule.numTransposeLayers = 0

def shipGraph : Bool := schedule.hasTrainablePreprocess && !schedule.ownerBackward

/-! ## The order of a rank -/

def localPrefix (rank : Nat) : List MpipeStep :=
  (if schedule.hasTrainablePreprocess && !schedule.isDataloadOnly then
      [.mpipe .paramBroadcast (some rank)] else []) ++
    (prefixOwnedMicros rank schedule.numTransposeMicroBatches schedule.microBatchNum
      schedule.overflowMode).flatMap fun micro =>
        .data .dataLoad micro ::
          if schedule.isDataloadOnly then [] else [.mpipe .transposeFwd (some micro)]

def nonOwned : List Nat :=
  match schedule.overflowMode with
  | .min => List.range' 1 (schedule.numTransposeMicroBatches - 1)
  | .full => (List.range schedule.microBatchNum).filter (· ∉
      prefixOwnedMicros 0 schedule.numTransposeMicroBatches schedule.microBatchNum
        schedule.overflowMode)

def buildTransposePrefix (rank : Nat) : List MpipeStep :=
  schedule.localPrefix rank ++
    if rank ≠ 0 then
      prefixTransferSteps (prefixOwnedMicros rank schedule.numTransposeMicroBatches
        schedule.microBatchNum schedule.overflowMode) prefixSendTypes schedule.isDataloadOnly
        schedule.shipGraph
    else
      prefixTransferSteps schedule.nonOwned prefixRecvTypes schedule.isDataloadOnly
        schedule.shipGraph

def buildOwnerBackwardSuffix (rank : Nat) : List MpipeStep :=
  if rank = 0 then
    ((List.range schedule.microBatchNum).filter (schedule.owner · ≠ 0)).map fun micro =>
      .mpipe .gradSend (some micro)
  else if rank < schedule.numTransposeMicroBatches then
    ((List.range schedule.microBatchNum).filter (schedule.owner · = rank)).map fun micro =>
      .mpipe .gradRecvWithBackward (some micro)
  else []

def inlineForward : Slot → List MpipeStep
  | .step ⟨micro, .fwd, 0⟩ =>
    if schedule.overflowMode = .min ∧ schedule.numTransposeMicroBatches ≤ micro then
      .data .dataLoad micro ::
        if schedule.isDataloadOnly then [] else [.mpipe .transposeFwd (some micro)]
    else []
  | _ => []

def inlineBackward : Slot → List MpipeStep
  | .step ⟨micro, .bwd, 0⟩ =>
    if schedule.hasTrainablePreprocess && !schedule.ownerBackward then
      [.mpipe .transposeBwd (some micro)]
    else []
  | _ => []

def insertRank0PreprocessSteps (order : List Slot) : List MpipeStep :=
  if schedule.hasTrainablePreprocess = false ∧ schedule.overflowMode = .full then
    order.map .body
  else
    order.flatMap fun slot =>
      schedule.inlineForward slot ++ .body slot :: schedule.inlineBackward slot

def bodyOrder (rank : Nat) : List Slot :=
  (schedule.toScheduleInterleaved1F1B.constructExecOrder rank).filter fun slot =>
    slot ≠ .bubble ∧ slot.isLoad = false

def bodySteps (rank : Nat) : List MpipeStep :=
  if rank = 0 then schedule.insertRank0PreprocessSteps (schedule.bodyOrder 0)
  else (schedule.bodyOrder rank).map .body

def cooldownSuffix (rank : Nat) : List MpipeStep :=
  if schedule.ownerBackward then
    schedule.buildOwnerBackwardSuffix rank ++ [.mpipe .gradReduce none]
  else []

def constructExecOrder (rank : Nat) : List MpipeStep :=
  if rank < schedule.realStageNum then
    schedule.buildTransposePrefix rank ++ schedule.bodySteps rank ++ schedule.cooldownSuffix rank
  else []

/-! ## What the steps do -/

end ScheduleMPipeTranspose

inductive MpipePayload where
  | body (payload : Payload)
  | data (micro : Nat)
  | features (micro : Nat)
  | graphInput (micro : Nat)
  | gradient (micro : Nat)
  deriving DecidableEq, Repr

namespace ScheduleMPipeTranspose

variable (schedule : ScheduleMPipeTranspose)

/-- Rank 0 is one end of every transfer of the transpose, the owner the other. -/
def mpipeAction : MpipeStep → Rendezvous.Action Nat MpipeStep MpipePayload
  | .body slot =>
    match action schedule.realStageNum slot with
    | .run _ => .run (.body slot)
    | .send peer payload => .send peer (.body payload)
    | .recv peer payload => .recv peer (.body payload)
  | .data .dataSend micro => .send 0 (.data micro)
  | .data .dataRecv micro => .recv (schedule.owner micro) (.data micro)
  | .mpipe .fwdSend (some micro) => .send 0 (.features micro)
  | .mpipe .fwdRecv (some micro) => .recv (schedule.owner micro) (.features micro)
  | .mpipe .graphSend (some micro) => .send 0 (.graphInput micro)
  | .mpipe .graphRecv (some micro) => .recv (schedule.owner micro) (.graphInput micro)
  | .mpipe .gradSend (some micro) => .send (schedule.owner micro) (.gradient micro)
  | .mpipe .gradRecvWithBackward (some micro) => .recv 0 (.gradient micro)
  | step => .run step

def actions : Rendezvous.Queues Nat MpipeStep MpipePayload :=
  fun rank => (schedule.constructExecOrder rank).map schedule.mpipeAction

end ScheduleMPipeTranspose

/-! ## The owners agree -/

section Owners

variable {ppSize microBatchNum : Nat}

theorem ownerOf_lt {numTransposeMicroBatches micro : Nat} (hpos : 0 < numTransposeMicroBatches)
    (overflowMode : OverflowMode) :
    ownerOf numTransposeMicroBatches overflowMode micro < numTransposeMicroBatches := by
  cases overflowMode with
  | full => exact Nat.mod_lt micro hpos
  | min =>
    rw [ownerOf]
    split <;> omega

theorem mem_mpipeOwnedMicros {micro rank : Nat} (hsize : 0 < ppSize) (mode : OverflowMode) :
    micro ∈ mpipeOwnedMicros ppSize microBatchNum rank mode ↔
      micro < microBatchNum ∧ ownerOf (min ppSize microBatchNum) mode micro = rank := by
  unfold mpipeOwnedMicros
  dsimp only
  by_cases hrank : min ppSize microBatchNum ≤ rank
  · simp only [hrank, if_true, Finset.notMem_empty, false_iff, not_and]
    intro hmicro
    have howner := @ownerOf_lt _ micro
      (Nat.lt_min.mpr ⟨hsize, Nat.lt_of_le_of_lt (Nat.zero_le micro) hmicro⟩) mode
    omega
  · rw [if_neg hrank]
    cases mode with
    | full => simp [ownerOf]
    | min =>
      by_cases hzero : rank = 0
      · simp only [hzero, if_true, Finset.mem_insert, Finset.mem_Ico, ownerOf]
        split <;> omega
      · simp only [hzero, if_false, Finset.mem_singleton, ownerOf]
        split <;> omega

def transposedMicros (numTransposeMicroBatches microBatchNum : Nat) : OverflowMode → Nat
  | .full => microBatchNum
  | .min => numTransposeMicroBatches

theorem prefixOwnedMicros_eq {numTransposeMicroBatches : Nat}
    (hpos : 0 < numTransposeMicroBatches) (rank : Nat) (overflowMode : OverflowMode) :
    prefixOwnedMicros rank numTransposeMicroBatches microBatchNum overflowMode =
      (range (transposedMicros numTransposeMicroBatches microBatchNum overflowMode)).filter
        (ownerOf numTransposeMicroBatches overflowMode · = rank) := by
  by_cases hrank : numTransposeMicroBatches ≤ rank
  · unfold prefixOwnedMicros
    rw [if_pos hrank, eq_comm, filter_eq_nil_iff]
    intro micro _
    have howner := @ownerOf_lt _ micro hpos overflowMode
    simp only [decide_eq_true_eq]
    omega
  · unfold prefixOwnedMicros
    rw [if_neg hrank]
    cases overflowMode with
    | full => rfl
    | min =>
      -- below the bound every micro-batch is its own owner
      have hself : (range numTransposeMicroBatches).filter
          (fun micro => decide (ownerOf numTransposeMicroBatches .min micro = rank)) =
          (range numTransposeMicroBatches).filter (· == rank) := by
        refine filter_congr fun micro hmicro => ?_
        have hlt := mem_range.mp hmicro
        rw [ownerOf, if_neg (by omega)]
        rfl
      simp only [transposedMicros]
      rw [hself, filter_beq, count_eq_one_of_mem nodup_range
        (mem_range.mpr (by omega))]
      rfl

end Owners

end HyperParallel.Pipeline
