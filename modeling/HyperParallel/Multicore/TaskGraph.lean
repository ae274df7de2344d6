import HyperParallel.Multicore.RuntimeConfig

/-!
# Task graphs

A graph of operators over shared tensors.  Traversed in topological order, an
operator is split into tasks when the tensors it names are split already; a
tensor counts as split when its producer has more than one task.
-/

namespace HyperParallel.Multicore

open Foundation

inductive DispatchMode where
  | push
  | pull
  deriving DecidableEq, Repr

/-- The topology; construction rejects values that the checks of `__post_init__` reject. -/
structure TaskSplitValue where
  tp : Nat
  ep : Nat
  seqSize : Nat
  allExpertNum : Nat
  topK : Nat
  dispatchMode : DispatchMode
  tp_pos : 0 < tp := by decide
  ep_pos : 0 < ep := by decide
  seqSize_pos : 0 < seqSize := by decide
  allExpertNum_pos : 0 < allExpertNum := by decide
  topK_pos : 0 < topK := by decide
  topK_le : topK ≤ allExpertNum := by decide
  ep_dvd : ep ∣ allExpertNum := by decide

namespace TaskSplitValue

variable (tsv : TaskSplitValue)

def singleRankExpertNum : Nat := tsv.allExpertNum / tsv.ep
def seqAll : Nat := tsv.seqSize * tsv.ep * tsv.topK / tsv.tp
def perExpertSeq : Nat := tsv.seqAll / tsv.topK
def perRankSeq : Nat := tsv.seqAll / tsv.ep
def perExpertSeqToOther : Nat := tsv.seqAll / (tsv.ep * tsv.topK)
def allEventNum : Nat :=
  1 + tsv.allExpertNum + tsv.singleRankExpertNum + tsv.singleRankExpertNum + tsv.singleRankExpertNum

end TaskSplitValue

structure Counters where
  rankId : Nat
  prePreEventNum : Nat := 0
  preEventNum : Nat := 0
  preTaskNum : Nat := 0
  preCubeTaskNum : Nat := 0
  preVectorTaskNum : Nat := 0
  deriving DecidableEq, Repr

inductive OpType where
  | alltoall
  | gmm
  | swiglu
  | swigluGrad
  deriving DecidableEq, Repr

structure TensorSpec where
  shape : List Nat
  paramPosition : Nat
  dtypeSize : Nat := 2
  tensorType : Nat := 0
  transpose : Bool := false
  isDynamic : Bool := false
  deriving DecidableEq, Repr

inductive AllToAllType where
  | dispatch
  | combine
  deriving DecidableEq, Repr

inductive VectorAdvance where
  | vector
  | vectorOnly
  deriving DecidableEq, Repr

inductive CubeAdvance where
  | cube
  | cubeOnly
  | cubeCustom
  deriving DecidableEq, Repr

structure AllToAllFillConfig where
  moeType : AllToAllType
  advance : VectorAdvance
  eventGroup : Nat

structure GmmFillConfig where
  offsetInputs : List Nat := [0]
  transposeInputs : List Nat := []
  rankInEvent : Bool := false
  globalTrigger : Bool := false
  outOffset : Bool := true
  advance : CubeAdvance := .cube
  eventDelta : Nat := 0
  numCubeCores : Nat := 24

structure SwiGLUFillConfig where
  clampBits : UInt32 := 0

inductive FillConfig where
  | allToAll (config : AllToAllFillConfig)
  | gmm (config : GmmFillConfig)
  | swiglu (config : SwiGLUFillConfig)

structure SplitSpec where
  splitInputs : Option (List (Nat × Int))
  taskNumFn : TaskSplitValue → Except ConfigError Nat
  splitOutputDims : List Int := [0]

/-- The names of the operators of the two graphs. -/
inductive OpName where
  | dispatch
  | upProj
  | swiglu
  | downProj
  | combine
  | actGrad
  | w2Grad
  | swigluGrad
  | gateGrad
  | w1Grad
  deriving DecidableEq, Repr

structure OperatorNode where
  name : OpName
  opType : OpType
  inputs : List TensorSpec
  outputs : List TensorSpec
  paramPositions : List Nat
  splitValue : Nat
  splitSpec : SplitSpec
  tilingPosition : Nat := 0
  fillConfig : FillConfig

structure ComputeGraph where
  nodes : List OperatorNode
  edges : List (Nat × Nat)

namespace ComputeGraph

/-- One successor loses a predecessor, and is queued when it was the last one. -/
def release (state : List Nat × List Nat) (succ : Nat) : List Nat × List Nat :=
  let left := state.1.getD succ 0 - 1
  (state.1.set succ left, if left = 0 then state.2 ++ [succ] else state.2)

def kahn (edges : List (Nat × Nat)) : Nat → List Nat → List Nat → List Nat
  | 0, _, _ => []
  | _ + 1, _, [] => []
  | fuel + 1, inDeg, node :: queue =>
    let successors := (edges.filter fun edge => edge.1 = node).map Prod.snd
    let (inDeg, queue) := successors.foldl release (inDeg, queue)
    node :: kahn edges fuel inDeg queue

def topologicalSort (graph : ComputeGraph) : Except ConfigError (List Nat) :=
  let inDeg := (List.range graph.nodes.length).map fun node =>
    graph.edges.countP fun edge => edge.2 = node
  let queue := (List.range graph.nodes.length).filter fun node => inDeg.getD node 0 = 0
  let order := kahn graph.edges graph.nodes.length inDeg queue
  if order.length ≠ graph.nodes.length then .error .cycle else .ok order

abbrev Splits := Nat → Int

def taskNumOf (splits : Splits) (op : OperatorNode) (tsv : TaskSplitValue) :
    Except ConfigError Nat :=
  match op.splitSpec.splitInputs with
  | none => op.splitSpec.taskNumFn tsv
  | some wanted =>
    if wanted.all fun (index, dim) =>
        (op.inputs[index]?.map fun tensor => splits tensor.paramPosition) = some dim then
      op.splitSpec.taskNumFn tsv
    else .ok 1

def markOutputs (taskNum : Nat) (dims : List Int) : List TensorSpec → Splits → Splits
  | [], splits => splits
  | out :: rest, splits =>
    let dim := dims.headD (-1)
    markOutputs taskNum dims.tail rest
      (Function.update splits out.paramPosition (if 1 < taskNum ∧ 0 ≤ dim then dim else -1))

/-- `propagate_splits` along a list of operators: their task counts. -/
def propagate (tsv : TaskSplitValue) : Splits → List OperatorNode → Except ConfigError (List Nat)
  | _, [] => .ok []
  | splits, op :: rest => do
      let taskNum ← taskNumOf splits op tsv
      let counts ← propagate tsv (markOutputs taskNum op.splitSpec.splitOutputDims op.outputs splits)
        rest
      return taskNum :: counts

def propagateSplits (graph : ComputeGraph) (tsv : TaskSplitValue) :
    Except ConfigError (List (OperatorNode × Nat)) := do
  let order ← graph.topologicalSort
  let ops := order.filterMap fun index => graph.nodes[index]?
  let counts ← propagate tsv (fun _ => -1) ops
  return ops.zip counts

/-- `graph.get_op(name).task_num` -/
def getTaskNum (ops : List (OperatorNode × Nat)) (name : OpName) : Except ConfigError Nat :=
  match ops.find? fun op => op.1.name = name with
  | some op => .ok op.2
  | none => .error .missingOp

end ComputeGraph

end HyperParallel.Multicore
