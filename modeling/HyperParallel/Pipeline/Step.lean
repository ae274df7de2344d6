import HyperParallel.Foundation.Rendezvous

/-!
# Steps of a pipeline schedule

A schedule gives every rank a list of slots: a bubble, one step, or a pair of
compute steps that overlap.  A communication step names the stage that runs it;
its peer is the rank of the neighbouring stage.
-/

namespace HyperParallel.Pipeline

open Foundation

inductive MetaStepType where
  | dataLoad
  | dataSend
  | dataRecv
  | fwd
  | bwd
  | bwdInput
  | bwdWeight
  | fwdRecv
  | fwdSend
  | bwdRecv
  | bwdSend
  deriving DecidableEq, Repr

structure MetaStep where
  microIndex : Nat
  type : MetaStepType
  stageIndex : Nat
  deriving DecidableEq, Repr

inductive OverlapType where
  | fwdBwd
  | bwdFwd
  deriving DecidableEq, Repr

inductive Slot where
  | bubble
  | step (step : MetaStep)
  | overlap (type : OverlapType) (first second : MetaStep)
  deriving DecidableEq, Repr

abbrev Schedule := Nat → List Slot

/-- How the stages are laid out over the ranks. -/
inductive Style where
  | loop
  | v
  deriving DecidableEq, Repr

def stageToRank (stageNum realStageNum : Nat) : Style → Nat → Nat
  | .loop, stageIndex => stageIndex % realStageNum
  | .v, stageIndex =>
    if stageIndex < realStageNum then stageIndex else stageNum - 1 - stageIndex

def Slot.leafSteps : Slot → List MetaStep
  | .bubble => []
  | .step leaf => [leaf]
  | .overlap _ first second => [first, second]

/-! ## What a communication step does -/

inductive Kind where
  | data
  | fwd
  | bwd
  deriving DecidableEq, Repr

structure Payload where
  kind : Kind
  stage : Nat
  micro : Nat
  deriving DecidableEq, Repr

def action (realStageNum : Nat) : Slot → Rendezvous.Action Nat Slot Payload
  | .step ⟨micro, .dataSend, stage⟩ => .send ((stage + 1) % realStageNum) ⟨.data, stage, micro⟩
  | .step ⟨micro, .fwdSend, stage⟩ => .send ((stage + 1) % realStageNum) ⟨.fwd, stage, micro⟩
  | .step ⟨micro, .bwdSend, stage⟩ => .send ((stage - 1) % realStageNum) ⟨.bwd, stage, micro⟩
  | .step ⟨micro, .dataRecv, stage⟩ => .recv ((stage - 1) % realStageNum) ⟨.data, stage - 1, micro⟩
  | .step ⟨micro, .fwdRecv, stage⟩ => .recv ((stage - 1) % realStageNum) ⟨.fwd, stage - 1, micro⟩
  | .step ⟨micro, .bwdRecv, stage⟩ => .recv ((stage + 1) % realStageNum) ⟨.bwd, stage + 1, micro⟩
  | slot => .run slot

def actions (realStageNum : Nat) (schedule : Schedule) : Rendezvous.Queues Nat Slot Payload :=
  fun rank => (schedule rank).map (action realStageNum)

end HyperParallel.Pipeline
