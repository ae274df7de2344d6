import HyperParallel.Multicore.FillTasks

/-!
# The forward and backward graphs

The two graphs of the module and the configuration each rank builds from them.
-/

namespace HyperParallel.Multicore

open Foundation

inductive ExpertWeightLayout where
  | eio
  | eoi
  deriving DecidableEq, Repr

/-- What the graphs take besides the topology. -/
structure GraphSizes where
  dispatchSv : Nat := 128
  swigluSv : Nat := 128
  combineSv : Nat := 128
  upProjSv : Nat := 4096
  downProjSv : Nat := 4096
  actGradSv : Nat := 4096
  w2GradSv : Nat := 4096
  gateGradSv : Nat := 4096
  w1GradSv : Nat := 4096
  hiddenSize : Nat := 7168
  intermediateSize : Nat := 2048
  dtypeSize : Nat := 2
  numCubeCores : Nat := 24
  clampBits : UInt32 := 0
  expertWeightLayout : ExpertWeightLayout := .eio

namespace GraphSizes

variable (sizes : GraphSizes)

def weightIsEoi : Bool := sizes.expertWeightLayout = .eoi

/-- The shape of the weights of one projection, from `input` to `output` features. -/
def weightShape (tsv : TaskSplitValue) (input output : Nat) : List Nat :=
  if sizes.weightIsEoi then [tsv.singleRankExpertNum, output, input]
  else [tsv.singleRankExpertNum, input, output]

end GraphSizes

/-! ### Operators -/

section Operators

variable (sizes : GraphSizes)

def alltoallTaskNum (splitValue : Nat) (tsv : TaskSplitValue) : Except ConfigError Nat :=
  (floorDiv tsv.perExpertSeqToOther splitValue).map fun tiles => tsv.allExpertNum * tiles

def gmmTaskNum (tsv : TaskSplitValue) : Except ConfigError Nat :=
  .ok (sizes.numCubeCores * tsv.singleRankExpertNum)

def swigluTaskNum (tsv : TaskSplitValue) : Except ConfigError Nat :=
  (floorDiv tsv.perExpertSeq sizes.swigluSv).map fun tiles => tiles * tsv.singleRankExpertNum

def positions (inputs outputs : List TensorSpec) : List Nat :=
  (inputs ++ outputs).map TensorSpec.paramPosition

def alltoallOp (name : OpName) (moeType : AllToAllType) (advance : VectorAdvance)
    (eventGroup splitValue : Nat) (splitInputs : Option (List (Nat × Int)))
    (inputs outputs : List TensorSpec) : OperatorNode :=
  { name := name
    opType := .alltoall
    inputs := inputs
    outputs := outputs
    paramPositions := positions inputs outputs
    splitValue := splitValue
    splitSpec := { splitInputs := splitInputs, taskNumFn := alltoallTaskNum splitValue }
    fillConfig := .allToAll { moeType := moeType, advance := advance, eventGroup := eventGroup } }

def dispatchOp (tsv : TaskSplitValue) (inputs outputs : List TensorSpec) : OperatorNode :=
  alltoallOp .dispatch .dispatch .vector tsv.allExpertNum sizes.dispatchSv none inputs outputs

def combineOp (advance : VectorAdvance) (inputs outputs : List TensorSpec) : OperatorNode :=
  alltoallOp .combine .combine advance 1 sizes.combineSv (some [(1, 0)]) inputs outputs

def gmmOp (name : OpName) (config : GmmFillConfig) (activation splitValue tilingPosition : Nat)
    (inputs outputs : List TensorSpec) : OperatorNode :=
  { name := name
    opType := .gmm
    inputs := inputs
    outputs := outputs
    paramPositions := positions inputs outputs
    splitValue := splitValue
    splitSpec := { splitInputs := some [(activation, 0)], taskNumFn := gmmTaskNum sizes }
    tilingPosition := tilingPosition
    fillConfig := .gmm { config with numCubeCores := sizes.numCubeCores } }

def swigluOp (name : OpName) (opType : OpType) (tilingPosition : Nat)
    (inputs outputs : List TensorSpec) : OperatorNode :=
  { name := name
    opType := opType
    inputs := inputs
    outputs := outputs
    paramPositions := positions inputs outputs
    splitValue := sizes.swigluSv
    splitSpec := { splitInputs := some [(0, 0)], taskNumFn := swigluTaskNum sizes }
    tilingPosition := tilingPosition
    fillConfig := .swiglu { clampBits := sizes.clampBits } }

end Operators

/-! ### The forward graph -/

section Forward

variable (sizes : GraphSizes) (tsv : TaskSplitValue)

def rowsSpec (position width : Nat) (tensorType : Nat := 0) (isDynamic : Bool := false)
    (transpose : Bool := false) : TensorSpec :=
  { shape := [tsv.perRankSeq, width], paramPosition := position, dtypeSize := sizes.dtypeSize,
    tensorType := tensorType, isDynamic := isDynamic, transpose := transpose }

def expertsSpec (position dtypeSize : Nat) : TensorSpec :=
  { shape := [tsv.allExpertNum], paramPosition := position, dtypeSize := dtypeSize }

def glistSpec (position : Nat) : TensorSpec :=
  { shape := [tsv.singleRankExpertNum], paramPosition := position, dtypeSize := 8 }

def weightSpec (position input output : Nat) (transpose : Bool := false) : TensorSpec :=
  { shape := sizes.weightShape tsv input output, paramPosition := position,
    dtypeSize := sizes.dtypeSize, tensorType := 1, transpose := transpose }

def target : TensorSpec := rowsSpec sizes tsv 0 sizes.hiddenSize 0 true
def src : TensorSpec := rowsSpec sizes tsv 2 sizes.hiddenSize
def upProjY : TensorSpec := rowsSpec sizes tsv 7 (sizes.intermediateSize * 2) 0 true
def swigluOut : TensorSpec := rowsSpec sizes tsv 8 sizes.intermediateSize 1 true
def downProjY : TensorSpec := rowsSpec sizes tsv 11 sizes.hiddenSize 1 true
def combineOut : TensorSpec := rowsSpec sizes tsv 12 sizes.hiddenSize

def dispatch : OperatorNode :=
  dispatchOp sizes tsv
    [expertsSpec tsv 1 8, src sizes tsv, expertsSpec tsv 3 8, expertsSpec tsv 4 4]
    [target sizes tsv]

def upProj : OperatorNode :=
  gmmOp sizes .upProj { rankInEvent := true } 0 sizes.upProjSv 17
    [target sizes tsv,
      weightSpec sizes tsv 5 sizes.hiddenSize (sizes.intermediateSize * 2) sizes.weightIsEoi,
      glistSpec tsv 6]
    [upProjY sizes tsv]

def swiglu : OperatorNode :=
  swigluOp sizes .swiglu .swiglu 18 [upProjY sizes tsv] [swigluOut sizes tsv]

def downProj : OperatorNode :=
  gmmOp sizes .downProj {} 0 sizes.downProjSv 19
    [swigluOut sizes tsv,
      weightSpec sizes tsv 9 sizes.intermediateSize sizes.hiddenSize sizes.weightIsEoi,
      glistSpec tsv 10]
    [downProjY sizes tsv]

def combine : OperatorNode :=
  combineOp sizes .vector
    [expertsSpec tsv 13 8, downProjY sizes tsv, expertsSpec tsv 14 8, expertsSpec tsv 15 4]
    [combineOut sizes tsv]

/-- `build_forward_graph` -/
def buildForwardGraph : ComputeGraph :=
  { nodes := [dispatch sizes tsv, upProj sizes tsv, swiglu sizes tsv, downProj sizes tsv,
      combine sizes tsv]
    edges := [(0, 1), (1, 2), (2, 3), (3, 4)] }

end Forward

/-! ### The backward graph -/

namespace Backward

variable (sizes : GraphSizes) (tsv : TaskSplitValue)

def target : TensorSpec := rowsSpec sizes tsv 0 sizes.hiddenSize 1 true
def src : TensorSpec := rowsSpec sizes tsv 2 sizes.hiddenSize 1
def w2GradX1 : TensorSpec := rowsSpec sizes tsv 5 sizes.intermediateSize 1 true !sizes.weightIsEoi
def actGradY : TensorSpec := rowsSpec sizes tsv 8 sizes.intermediateSize 1 true
def swigluDy : TensorSpec := rowsSpec sizes tsv 9 (sizes.intermediateSize * 2) 1 true
def swigluOut : TensorSpec := rowsSpec sizes tsv 10 (sizes.intermediateSize * 2) 1 true
def gateGradY : TensorSpec := rowsSpec sizes tsv 12 sizes.hiddenSize 1 true
def combineOut : TensorSpec := rowsSpec sizes tsv 13 sizes.hiddenSize 1
def w1GradX1 : TensorSpec := rowsSpec sizes tsv 17 sizes.hiddenSize 1 true !sizes.weightIsEoi
def glist : TensorSpec := glistSpec tsv 19

def dispatch : OperatorNode :=
  dispatchOp sizes tsv
    [expertsSpec tsv 1 8, src sizes tsv, expertsSpec tsv 3 8, expertsSpec tsv 4 4]
    [target sizes tsv]

def actGrad : OperatorNode :=
  gmmOp sizes .actGrad { rankInEvent := true, advance := .cubeOnly } 0 sizes.actGradSv 20
    [target sizes tsv,
      weightSpec sizes tsv 7 sizes.intermediateSize sizes.hiddenSize !sizes.weightIsEoi,
      glist tsv]
    [actGradY sizes tsv]

def weightGrad (name : OpName) (splitValue tilingPosition eventDelta : Nat)
    (rankInEvent : Bool) (split other out : TensorSpec) : OperatorNode :=
  let config : GmmFillConfig :=
    { offsetInputs := [0, 1], transposeInputs := if sizes.weightIsEoi then [0] else [],
      rankInEvent := rankInEvent, globalTrigger := true, outOffset := false,
      advance := .cubeCustom, eventDelta := eventDelta }
  if sizes.weightIsEoi then
    gmmOp sizes name config 0 splitValue tilingPosition [split, other, glist tsv] [out]
  else gmmOp sizes name config 1 splitValue tilingPosition [other, split, glist tsv] [out]

def w2Grad : OperatorNode :=
  weightGrad sizes tsv .w2Grad sizes.w2GradSv 23 tsv.singleRankExpertNum true
    (target sizes tsv) (w2GradX1 sizes tsv)
    (weightSpec sizes tsv 6 sizes.intermediateSize sizes.hiddenSize)

def swigluGrad : OperatorNode :=
  swigluOp sizes .swigluGrad .swigluGrad 24 [actGradY sizes tsv, swigluDy sizes tsv] [swigluOut sizes tsv]

def gateGrad : OperatorNode :=
  gmmOp sizes .gateGrad {} 0 sizes.gateGradSv 21
    [swigluOut sizes tsv,
      weightSpec sizes tsv 11 sizes.hiddenSize (sizes.intermediateSize * 2) !sizes.weightIsEoi,
      glist tsv]
    [gateGradY sizes tsv]

def combine : OperatorNode :=
  combineOp sizes .vectorOnly
    [expertsSpec tsv 14 8, gateGradY sizes tsv, expertsSpec tsv 15 8, expertsSpec tsv 16 4]
    [combineOut sizes tsv]

def w1Grad : OperatorNode :=
  weightGrad sizes tsv .w1Grad sizes.w1GradSv 22 1 false (swigluOut sizes tsv)
    (w1GradX1 sizes tsv)
    (weightSpec sizes tsv 18 sizes.hiddenSize (sizes.intermediateSize * 2))

/-- `build_backward_graph` -/
def buildBackwardGraph : ComputeGraph :=
  { nodes := [dispatch sizes tsv, actGrad sizes tsv, w2Grad sizes tsv, swigluGrad sizes tsv,
      gateGrad sizes tsv, combine sizes tsv, w1Grad sizes tsv]
    edges := [(0, 1), (0, 2), (1, 3), (3, 4), (4, 5), (4, 6)] }

end Backward

/-! ### Configurations -/

section Configurations

variable (ops : List (OperatorNode × Nat)) (tsv : TaskSplitValue) (rankId numCubeCores : Nat)

def fillGraph : Except ConfigError Filling := do
  let cfg ← allocateGraphConfig ops tsv
  ops.foldlM (fillOp tsv)
    { cfg := { cfg with numWorkers := UInt32.ofNat (2 * numCubeCores) }
      counters := { rankId := rankId } }

def finishConfig (cfg : RuntimeConfig) (taskNum : Nat) (dynamicInputPosition : UInt32) :
    Except ConfigError RuntimeConfig := do
  let cfg := addDynamicData cfg tsv dynamicInputPosition
  let cfg ← configureReadyHandshake
    { cfg with
      taskNum := UInt32.ofNat taskNum
      atomicAddValues := cfg.atomicAddValues.set 0 1 } tsv
  validateRuntimeConfig cfg tsv numCubeCores
  return cfg

/-- `build_config_for_rank` of the forward pass -/
def buildForwardConfig : Except ConfigError RuntimeConfig := do
  let filled ← fillGraph ops tsv rankId numCubeCores
  let dispatchTaskNum ← ComputeGraph.getTaskNum ops .dispatch
  let swigluTaskNum ← ComputeGraph.getTaskNum ops .swiglu
  let combineTaskNum ← ComputeGraph.getTaskNum ops .combine
  let cfg ← addTerminate tsv (combineTaskNum / tsv.ep * tsv.ep) filled
  let cfg ← reviseTaskQueue cfg tsv rankId dispatchTaskNum swigluTaskNum combineTaskNum
  finishConfig tsv numCubeCores cfg (totalTasks ops) 6

/-- `build_config_for_rank` of the backward pass -/
def buildBackwardConfig : Except ConfigError RuntimeConfig := do
  let filled ← fillGraph ops tsv rankId numCubeCores
  let dispatchTaskNum ← ComputeGraph.getTaskNum ops .dispatch
  let swigluTaskNum ← ComputeGraph.getTaskNum ops .swigluGrad
  let actGradTaskNum ← ComputeGraph.getTaskNum ops .actGrad
  let w1GradTaskNum ← ComputeGraph.getTaskNum ops .w1Grad
  let w2GradTaskNum ← ComputeGraph.getTaskNum ops .w2Grad
  let combineTaskNum ← ComputeGraph.getTaskNum ops .combine
  let cfg ← addTerminate tsv
    (w2GradTaskNum + w1GradTaskNum + combineTaskNum / tsv.ep * tsv.ep) filled
  let cfg ← reviseTaskQueue cfg tsv rankId dispatchTaskNum swigluTaskNum combineTaskNum
  let cfg ← reviseGmmTaskQueueBwd cfg tsv actGradTaskNum numCubeCores
  finishConfig tsv numCubeCores cfg (totalTasks ops + 1) 19

end Configurations

inductive Pass where
  | forward
  | backward
  deriving DecidableEq, Repr

def buildConfigForRank (pass : Pass) (sizes : GraphSizes) (tsv : TaskSplitValue)
    (rankId : Nat) : Except ConfigError RuntimeConfig :=
  match pass with
  | .forward => do
      let ops ← (buildForwardGraph sizes tsv).propagateSplits tsv
      buildForwardConfig ops tsv rankId sizes.numCubeCores
  | .backward => do
      let ops ← (Backward.buildBackwardGraph sizes tsv).propagateSplits tsv
      buildBackwardConfig ops tsv rankId sizes.numCubeCores

end HyperParallel.Multicore
