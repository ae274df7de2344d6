import HyperParallel.Pipeline.Step

/-!
# Orders with containers

After the compute and transfer steps of an order are placed, later passes merge
steps into containers and insert parameter and swap steps.
-/

namespace HyperParallel.Pipeline

inductive StepKind where
  | base (type : MetaStepType)
  | batchSendRecv
  | overlapFB
  | overlapBF
  | fsdpUnshard
  | fsdpReshard
  | fsdpReduceGrad
  | swapLaunchOffload
  | swapWaitOffload
  | swapLaunchLoad
  | swapWaitLoad
  deriving DecidableEq, Repr

namespace StepKind

def IsOverlap (kind : StepKind) : Prop := kind = .overlapFB ∨ kind = .overlapBF

def IsFsdp (kind : StepKind) : Prop :=
  kind = .fsdpUnshard ∨ kind = .fsdpReshard ∨ kind = .fsdpReduceGrad

def IsSwap (kind : StepKind) : Prop :=
  kind = .swapLaunchOffload ∨ kind = .swapWaitOffload ∨ kind = .swapLaunchLoad ∨
    kind = .swapWaitLoad

/-- `_COMPUTE_META_STEP_TYPES` -/
def IsCompute (kind : StepKind) : Prop :=
  kind = .base .fwd ∨ kind = .base .bwd ∨ kind = .base .bwdInput ∨ kind = .base .bwdWeight

def IsComm (kind : StepKind) : Prop :=
  kind = .base .fwdRecv ∨ kind = .base .fwdSend ∨ kind = .base .bwdRecv ∨
    kind = .base .bwdSend ∨ kind = .batchSendRecv

instance : DecidablePred IsOverlap := fun _ => inferInstanceAs (Decidable (_ ∨ _))
instance : DecidablePred IsFsdp := fun _ => inferInstanceAs (Decidable (_ ∨ _))
instance : DecidablePred IsSwap := fun _ => inferInstanceAs (Decidable (_ ∨ _))
instance : DecidablePred IsCompute := fun _ => inferInstanceAs (Decidable (_ ∨ _))
instance : DecidablePred IsComm := fun _ => inferInstanceAs (Decidable (_ ∨ _))

end StepKind

inductive OrderStep where
  | mk (microIndex : Option Nat) (kind : StepKind) (stageIndex : Option Nat)
      (subSteps : List OrderStep)

namespace OrderStep

def microIndex : OrderStep → Option Nat
  | ⟨microIndex, _, _, _⟩ => microIndex

def kind : OrderStep → StepKind
  | ⟨_, kind, _, _⟩ => kind

def stageIndex : OrderStep → Option Nat
  | ⟨_, _, stageIndex, _⟩ => stageIndex

def subSteps : OrderStep → List OrderStep
  | ⟨_, _, _, subSteps⟩ => subSteps

def leaf (microIndex : Option Nat) (kind : StepKind) (stageIndex : Option Nat) : OrderStep :=
  ⟨microIndex, kind, stageIndex, []⟩

mutual

def decEq : (step step' : OrderStep) → Decidable (step = step')
  | ⟨micro, kind, stage, subSteps⟩, ⟨micro', kind', stage', subSteps'⟩ =>
    match decEqAll subSteps subSteps' with
    | isTrue hsub =>
      decidable_of_iff (micro = micro' ∧ kind = kind' ∧ stage = stage')
        ⟨fun ⟨hmicro, hkind, hstage⟩ => hmicro ▸ hkind ▸ hstage ▸ hsub ▸ rfl,
          fun h => by cases h; exact ⟨rfl, rfl, rfl⟩⟩
    | isFalse hsub => isFalse fun h => hsub (by cases h; rfl)

def decEqAll : (steps steps' : List OrderStep) → Decidable (steps = steps')
  | [], [] => isTrue rfl
  | [], _ :: _ => isFalse nofun
  | _ :: _, [] => isFalse nofun
  | step :: steps, step' :: steps' =>
    match decEq step step', decEqAll steps steps' with
    | isTrue hfirst, isTrue hrest => isTrue (hfirst ▸ hrest ▸ rfl)
    | isFalse hfirst, _ => isFalse fun h => hfirst (List.cons.inj h).1
    | _, isFalse hrest => isFalse fun h => hrest (List.cons.inj h).2

end

instance : DecidableEq OrderStep := decEq

mutual

def leafMetaSteps : OrderStep → List OrderStep
  | ⟨micro, kind, stage, subSteps⟩ =>
    if kind.IsOverlap ∧ subSteps ≠ [] then leafMetaStepsAll subSteps
    else [⟨micro, kind, stage, subSteps⟩]

def leafMetaStepsAll : List OrderStep → List OrderStep
  | [] => []
  | step :: steps => leafMetaSteps step ++ leafMetaStepsAll steps

end

end OrderStep

abbrev Action := Option OrderStep

def iterLeafMetaSteps (action : Action) : List OrderStep :=
  (action.map OrderStep.leafMetaSteps).getD []

example : iterLeafMetaSteps (some ⟨none, .overlapBF, none,
    [.leaf (some 1) (.base .bwd) (some 0), .leaf (some 2) (.base .fwd) (some 0)]⟩) =
    [.leaf (some 1) (.base .bwd) (some 0), .leaf (some 2) (.base .fwd) (some 0)] := by
  decide

theorem iterLeafMetaSteps_of_not_overlap {step : OrderStep} (h : ¬step.kind.IsOverlap) :
    iterLeafMetaSteps (some step) = [step] := by
  obtain ⟨microIndex, kind, stageIndex, subSteps⟩ := step
  exact if_neg fun h' => h h'.1

theorem iterLeafMetaSteps_leaf (microIndex : Option Nat) (kind : StepKind)
    (stageIndex : Option Nat) :
    iterLeafMetaSteps (some (.leaf microIndex kind stageIndex)) =
      [.leaf microIndex kind stageIndex] :=
  if_neg fun h => h.2 rfl

end HyperParallel.Pipeline
