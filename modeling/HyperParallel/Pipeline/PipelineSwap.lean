import HyperParallel.Foundation.PyDict
import HyperParallel.Pipeline.StepTree

/-!
# Swap steps of an order

The activations of a chunk leave the device after its forward and come back
before its backward.  Launches and waits are put before or after the containers
of the order, at places that are computed before anything is put in.
-/

namespace HyperParallel.Pipeline

open Foundation

def minSwapGap : Nat := 4

/-! ## Compute leaves -/

def iterComputeLeafSteps : Action → List OrderStep
  | none => []
  | some step =>
    if step.kind.IsCompute then [step]
    else if step.kind.IsOverlap then step.subSteps.filter fun sub => sub.kind.IsCompute
    else []

/-- A compute step with the container it is in, among all entries and among those that
compute. -/
structure ComputeLeaf where
  step : OrderStep
  containerIndex : Nat
  computeIndex : Nat

abbrev ChunkKey := Option Nat × Option Nat

def OrderStep.chunk (step : OrderStep) : ChunkKey := (step.stageIndex, step.microIndex)

def collectComputeLeavesFrom (containerIndex computeIndex : Nat) :
    List Action → List ComputeLeaf × List Nat
  | [] => ([], [])
  | action :: order =>
    let leafSteps := iterComputeLeafSteps action
    if leafSteps = [] then collectComputeLeavesFrom (containerIndex + 1) computeIndex order
    else
      let rest := collectComputeLeavesFrom (containerIndex + 1) (computeIndex + 1) order
      (leafSteps.map (⟨·, containerIndex, computeIndex⟩) ++ rest.1, containerIndex :: rest.2)

def collectComputeLeaves (order : List Action) : List ComputeLeaf × List Nat :=
  collectComputeLeavesFrom 0 0 order

def indexLeaves (selects : StepKind → Prop) [DecidablePred selects] (leaves : List ComputeLeaf) :
    PyDict ChunkKey ComputeLeaf :=
  (leaves.filter fun leaf => selects leaf.step.kind).foldl
    (fun index leaf => index.set leaf.step.chunk leaf) .empty

def IsForward (kind : StepKind) : Prop := kind = .base .fwd

/-- The steps that need the activations back; those for weights do not. -/
def IsBackward (kind : StepKind) : Prop := kind = .base .bwd ∨ kind = .base .bwdInput

instance : DecidablePred IsForward := fun _ => inferInstanceAs (Decidable (_ = _))
instance : DecidablePred IsBackward := fun _ => inferInstanceAs (Decidable (_ ∨ _))

def fwdIndex (order : List Action) : PyDict ChunkKey ComputeLeaf :=
  indexLeaves IsForward (collectComputeLeaves order).1

def bwdIndex (order : List Action) : PyDict ChunkKey ComputeLeaf :=
  indexLeaves IsBackward (collectComputeLeaves order).1

/-! ## Anchors -/

def IsCommAction (action : Action) : Prop := ∃ step ∈ action, step.kind.IsComm

instance : DecidablePred IsCommAction := fun action =>
  match action with
  | none => isFalse fun ⟨_, hmem, _⟩ => nomatch hmem
  | some step => decidable_of_iff step.kind.IsComm
      ⟨fun h => ⟨step, rfl, h⟩, fun ⟨_, hmem, h⟩ => Option.some.inj hmem ▸ h⟩

/-- The last of the transfer steps that follow. -/
def commBlockAnchor (order : List Action) (index : Nat) : Nat :=
  index + ((order.drop (index + 1)).takeWhile fun action => IsCommAction action).length

def sendType (kind : StepKind) : Option StepKind :=
  if kind = .base .fwd then some (.base .fwdSend)
  else if kind = .base .bwd ∨ kind = .base .bwdInput then some (.base .bwdSend)
  else none

def sendsFor (send : StepKind) (step : OrderStep) : Action → Bool
  | none => false
  | some next =>
    (next.kind = send ∧ next.chunk = step.chunk) ||
      (next.kind = .batchSendRecv &&
        next.subSteps.any fun sub => sub.kind = send ∧ sub.chunk = step.chunk)

def postComputeAnchor (order : List Action) (index : Nat) : Nat :=
  let fallback := commBlockAnchor order index
  match order[index]?.join with
  | none => fallback
  | some step =>
    match sendType step.kind with
    | none => fallback
    | some send =>
      ((List.range' (index + 1) (fallback - index)).find? fun next =>
        sendsFor send step order[next]?.join).getD fallback

def HasFsdpSteps (order : List Action) : Prop :=
  ∃ action ∈ order, ∃ step ∈ action, step.kind.IsFsdp

def IsUnshardOf (stage : Option Nat) (action : Action) : Prop :=
  ∃ step ∈ action, step.kind = .fsdpUnshard ∧ step.stageIndex = stage

instance (stage : Option Nat) : DecidablePred (IsUnshardOf stage) := fun action =>
  match action with
  | none => isFalse fun ⟨_, hmem, _⟩ => nomatch hmem
  | some step => decidable_of_iff (step.kind = .fsdpUnshard ∧ step.stageIndex = stage)
      ⟨fun h => ⟨step, rfl, h⟩, fun ⟨_, hmem, h⟩ => Option.some.inj hmem ▸ h⟩

instance (order : List Action) : Decidable (HasFsdpSteps order) :=
  decidable_of_iff (order.any fun action => action.any fun step => step.kind.IsFsdp) (by
    simp [HasFsdpSteps, Option.any_eq_true])

/-- Where the load is launched: before the last container between, or with parameter steps,
before the last unshard for the backward. -/
def loadLaunchAnchor (order : List Action) (fwdLeaf bwdLeaf : ComputeLeaf)
    (computeBetween : List Nat) : Nat :=
  if ¬HasFsdpSteps order then computeBetween.getLast?.getD 0
  else
    ((List.range' (fwdLeaf.containerIndex + 1)
        (bwdLeaf.containerIndex - 1 - fwdLeaf.containerIndex)).reverse.find? fun index =>
      IsUnshardOf bwdLeaf.step.stageIndex order[index]?.join).getD bwdLeaf.containerIndex

/-! ## Steps -/

def swapStep (kind : StepKind) (chunk : ChunkKey) : OrderStep := .leaf chunk.2 kind chunk.1

abbrev SwapEntry := Nat × (Nat × OrderStep)

/-- The steps of a chunk before and after their anchors, when there is enough in between. -/
def chunkSwapActions (order : List Action) (fwdLeaf bwdLeaf : ComputeLeaf)
    (containers : List Nat) : Option (List SwapEntry × List SwapEntry) :=
  if bwdLeaf.computeIndex < fwdLeaf.computeIndex + minSwapGap then none
  else
    let computeBetween := (List.range' (fwdLeaf.computeIndex + 1)
      (bwdLeaf.computeIndex - (fwdLeaf.computeIndex + 1))).filterMap fun index =>
        containers[index]?
    match computeBetween with
    | [] => none
    | first :: _ =>
      let chunk := fwdLeaf.step.chunk
      some
        ([(loadLaunchAnchor order fwdLeaf bwdLeaf computeBetween,
            (20, swapStep .swapLaunchLoad chunk)),
          (bwdLeaf.containerIndex, (10, swapStep .swapWaitLoad chunk))],
        [(fwdLeaf.containerIndex, (20, swapStep .swapLaunchOffload chunk)),
          (postComputeAnchor order first, (10, swapStep .swapWaitOffload chunk))])

def swapEntries (order : List Action) : List (List SwapEntry × List SwapEntry) :=
  (fwdIndex order).entries.filterMap fun entry => do
    let bwdLeaf ← (bwdIndex order).get? entry.1
    chunkSwapActions order entry.2 bwdLeaf (collectComputeLeaves order).2

def collectSwapActions (order : List Action) :
    PyDict Nat (List (Nat × OrderStep)) × PyDict Nat (List (Nat × OrderStep)) :=
  (PyDict.group ((swapEntries order).flatMap Prod.fst),
    PyDict.group ((swapEntries order).flatMap Prod.snd))

def stepsByPriority (prioritySteps : List (Nat × OrderStep)) : List Action :=
  (prioritySteps.mergeSort fun left right => right.1 ≤ left.1).map fun entry => some entry.2

def injectPipelineSwapSteps (order : List Action) : List Action :=
  let maps := collectSwapActions order
  order.zipIdx.flatMap fun (action, index) =>
    stepsByPriority ((maps.1.get? index).getD []) ++
      action :: stepsByPriority ((maps.2.get? index).getD [])

/-! ## Lifecycles -/

def IsSwapAction (action : Action) : Prop := ∃ step ∈ action, step.kind.IsSwap

def IsSwapOf (chunk : ChunkKey) (action : Action) : Prop :=
  ∃ step ∈ action, step.kind.IsSwap ∧ step.chunk = chunk

instance : DecidablePred IsSwapAction := fun action =>
  match action with
  | none => isFalse fun ⟨_, hmem, _⟩ => nomatch hmem
  | some step => decidable_of_iff step.kind.IsSwap
      ⟨fun h => ⟨step, rfl, h⟩, fun ⟨_, hmem, h⟩ => Option.some.inj hmem ▸ h⟩

instance (chunk : ChunkKey) : DecidablePred (IsSwapOf chunk) := fun action =>
  match action with
  | none => isFalse fun ⟨_, hmem, _⟩ => nomatch hmem
  | some step => decidable_of_iff (step.kind.IsSwap ∧ step.chunk = chunk)
      ⟨fun h => ⟨step, rfl, h⟩, fun ⟨_, hmem, h⟩ => Option.some.inj hmem ▸ h⟩

def LastContainer (selects : StepKind → Prop) (order : List Action) (chunk : ChunkKey)
    (index : Nat) : Prop :=
  (∃ leaf ∈ iterComputeLeafSteps order[index]?.join, selects leaf.kind ∧ leaf.chunk = chunk) ∧
    ∀ later > index, ¬∃ leaf ∈ iterComputeLeafSteps order[later]?.join,
      selects leaf.kind ∧ leaf.chunk = chunk

/-- The containers of the forward and of the backward of a chunk that is managed: enough
containers that compute lie in between. -/
structure Managed (order : List Action) (chunk : ChunkKey) (fwd bwd : Nat) : Prop where
  forward : LastContainer IsForward order chunk fwd
  backward : LastContainer IsBackward order chunk bwd
  gap : minSwapGap ≤ (((order.take bwd).drop (fwd + 1)).countP fun action =>
    iterComputeLeafSteps action ≠ []) + 1

/-- Between the containers of the chunk are its four swap steps in order, and none is
elsewhere. -/
def Lifecycle (order result : List Action) (chunk : ChunkKey) (fwd bwd : Nat) : Prop :=
  ∃ before fwdAction between bwdAction after,
    result = before ++ fwdAction :: between ++ bwdAction :: after ∧
    order[fwd]? = some fwdAction ∧ order[bwd]? = some bwdAction ∧
    before.filter (fun action => ¬IsSwapAction action) = order.take fwd ∧
    between.filter (fun action => ¬IsSwapAction action) = (order.take bwd).drop (fwd + 1) ∧
    before.filter (fun action => IsSwapOf chunk action) = [] ∧
    between.filter (fun action => IsSwapOf chunk action) =
      [some (swapStep .swapLaunchOffload chunk), some (swapStep .swapWaitOffload chunk),
        some (swapStep .swapLaunchLoad chunk), some (swapStep .swapWaitLoad chunk)] ∧
    after.filter (fun action => IsSwapOf chunk action) = []

structure KeepsLifecycles (order result : List Action) : Prop where
  erased : result.filter (fun action => ¬IsSwapAction action) = order
  lifecycle : ∀ chunk fwd bwd, Managed order chunk fwd bwd → Lifecycle order result chunk fwd bwd

/-- When the stage of a managed chunk is unsharded between its containers, some container that
computes lies between the forward and the last such unshard. -/
def UnshardsLate (order : List Action) : Prop :=
  ∀ chunk fwd bwd, Managed order chunk fwd bwd → ∀ unshard, fwd < unshard → unshard < bwd →
    IsUnshardOf chunk.1 order[unshard]?.join →
    (∀ later, unshard < later → later < bwd → ¬IsUnshardOf chunk.1 order[later]?.join) →
      ∃ index, fwd < index ∧ index < unshard ∧ iterComputeLeafSteps order[index]?.join ≠ []

end HyperParallel.Pipeline
