import HyperParallel.Multicore.RuntimeImage
import HyperParallel.Multicore.TaskGraph

/-!
# Filling a configuration with tasks

Each operator writes its descriptors, queue entries and trigger counts behind
those of the operators before it.  Afterwards the queues are reordered, the
terminate task and the handshake are added and the result is validated.
-/

namespace HyperParallel.Multicore

open Foundation

attribute [local instance] fourSlots

structure Filling where
  cfg : RuntimeConfig
  counters : Counters

/-- `td.dim[k] = spec.shape[k]` -/
def dims (shape : List Nat) : Vector UInt32 4 := Vector.ofFn fun k => UInt32.ofNat (shape.getD k 0)

/-- `task.inputs[j] = ...` for every operand, the rest left zero. -/
def tensors (specs : List TensorSpec) (desc : Nat → TensorSpec → TensorDesc) :
    Vector TensorDesc 4 :=
  Vector.ofFn fun j => match specs[j.val]? with
    | some spec => desc j.val spec
    | none => {}

def aicoreCube : UInt32 := 1
def aicoreVector : UInt32 := 2

def bit (b : Bool) : UInt32 := if b then 1 else 0

def emitVector (counters : Counters) (count : Nat) (task : Nat → TaskDesc) (cfg : RuntimeConfig)
    (i : Nat) : Except ConfigError RuntimeConfig := do
  let cfg ← cfg.setTrigger (task i).triggerEvent count
  let cfg ← cfg.setTask (counters.preTaskNum + i) (task i)
  cfg.setVectorIndex (counters.preVectorTaskNum + i) (counters.preTaskNum + i)

def emitCube (counters : Counters) (count : Nat) (task : Nat → TaskDesc) (cfg : RuntimeConfig)
    (i : Nat) : Except ConfigError RuntimeConfig := do
  let cfg ← cfg.setTrigger (task i).triggerEvent count
  let cfg ← cfg.setTask (counters.preTaskNum + i) (task i)
  cfg.setCubeIndex (counters.preCubeTaskNum + i) (counters.preTaskNum + i)

/-- `cfg.task_index_num[kind] += task_num` -/
def addTaskIndexNum (cfg : RuntimeConfig) (kind : Fin 4) (taskNum : Nat) : RuntimeConfig :=
  { cfg with taskIndexNum :=
      cfg.taskIndexNum.set kind (cfg.taskIndexNum.get kind + Int32.ofNat taskNum) kind.isLt }

/-! ### Advancing the counters -/

def advanceTsvVector (c : Counters) (taskNum eventGroupSize : Nat) : Counters :=
  { c with
    preTaskNum := c.preTaskNum + taskNum
    preVectorTaskNum := c.preVectorTaskNum + taskNum
    prePreEventNum := c.preEventNum
    preEventNum := c.preEventNum + eventGroupSize }

def advanceTsvVectorOnly (c : Counters) (taskNum : Nat) : Counters :=
  { c with
    preTaskNum := c.preTaskNum + taskNum
    preVectorTaskNum := c.preVectorTaskNum + taskNum }

def advanceTsvCube (c : Counters) (taskNum eventGroupSize : Nat) : Counters :=
  { c with
    preTaskNum := c.preTaskNum + taskNum
    preCubeTaskNum := c.preCubeTaskNum + taskNum
    prePreEventNum := c.preEventNum
    preEventNum := c.preEventNum + eventGroupSize }

def advanceTsvCubeOnly (c : Counters) (taskNum : Nat) : Counters :=
  { c with
    preTaskNum := c.preTaskNum + taskNum
    preCubeTaskNum := c.preCubeTaskNum + taskNum }

/-! ### AllToAll -/

namespace AllToAllFillConfig

variable (config : AllToAllFillConfig) (op : OperatorNode) (tsv : TaskSplitValue)

def taskType : TaskType :=
  if config.moeType = .dispatch ∧ tsv.dispatchMode = .pull then .shmemGetMem
  else .shmemPutMemSignal

def input (perGENum i : Nat) (j : Nat) (spec : TensorSpec) : TensorDesc :=
  if j = 1 then
    { dataType := UInt32.ofNat spec.dtypeSize
      inputPosition := UInt32.ofNat (op.paramPositions.getD j 0)
      tensorType := UInt32.ofNat spec.tensorType
      dynamicShape := bit spec.isDynamic }
  else
    { dataType := UInt32.ofNat spec.dtypeSize
      inputPosition := UInt32.ofNat (op.paramPositions.getD j 0)
      basePtrOffset := UInt32.ofNat (i / perGENum) }

def output (spec : TensorSpec) : TensorDesc :=
  { tensorType := UInt32.ofNat spec.tensorType
    dataType := UInt32.ofNat spec.dtypeSize
    inputPosition := UInt32.ofNat (op.paramPositions.getD op.inputs.length 0)
    dynamicShape := bit spec.isDynamic }

def dependentEvent (c : Counters) (perGENum i : Nat) : Nat :=
  match config.moeType with
  | .dispatch => c.prePreEventNum + 0
  | .combine => c.prePreEventNum + (i / perGENum) % tsv.singleRankExpertNum + 1

def triggerEvent (c : Counters) (perGENum i : Nat) : Nat :=
  match config.moeType with
  | .dispatch =>
    let res := match tsv.dispatchMode with
      | .pull => c.rankId * tsv.singleRankExpertNum + (i / perGENum) % tsv.singleRankExpertNum
      | .push => i / perGENum
    c.preEventNum + res + 1
  | .combine => tsv.allEventNum

def triggerCount (taskNum : Nat) : Nat :=
  match config.moeType with
  | .dispatch => taskNum * tsv.ep / tsv.allExpertNum
  | .combine => taskNum

def task (c : Counters) (taskNum i : Nat) : TaskDesc :=
  let perGENum := taskNum / tsv.allExpertNum
  { taskType := (config.taskType tsv).code
    taskAicoreType := aicoreCube
    numInputs := UInt32.ofNat op.inputs.length
    numOutputs := UInt32.ofNat op.outputs.length
    inputs := tensors op.inputs (input op perGENum i)
    outputs := tensors (op.outputs.take 1) fun _ spec => output op spec
    dependentEvent := UInt32.ofNat (config.dependentEvent tsv c perGENum i)
    triggerEvent := UInt32.ofNat (config.triggerEvent tsv c perGENum i)
    taskIndex := UInt32.ofNat i
    taskSplitNum := UInt32.ofNat taskNum
    taskSplitValue := UInt32.ofNat op.splitValue
    tilingDataPosition := 0xFFFFFFFF }

def fill (taskNum : Nat) (st : Filling) : Except ConfigError Filling :=
  if taskNum ≠ 0 ∧ taskNum / tsv.allExpertNum = 0 then .error .zeroDivision
  else do
    let cfg ← (List.range taskNum).foldlM (emitVector st.counters
      (config.triggerCount tsv taskNum) (config.task op tsv st.counters taskNum)) st.cfg
    return {
      cfg := addTaskIndexNum cfg 1 taskNum
      counters := match config.advance with
        | .vector => advanceTsvVector st.counters taskNum config.eventGroup
        | .vectorOnly => advanceTsvVectorOnly st.counters taskNum }

end AllToAllFillConfig

/-! ### Grouped matmul -/

namespace GmmFillConfig

variable (config : GmmFillConfig) (op : OperatorNode) (tsv : TaskSplitValue)

def input (dataIndex : Nat) (j : Nat) (spec : TensorSpec) : TensorDesc :=
  { inputPosition := UInt32.ofNat (op.paramPositions.getD j 0)
    tensorType := if j = op.inputs.length - 1 then 0 else UInt32.ofNat spec.tensorType
    dataType := UInt32.ofNat spec.dtypeSize
    basePtrOffset :=
      if j ∈ config.offsetInputs then UInt32.ofNat (dataIndex * 4096 * spec.shape.getD 1 0) else 0
    dynamicShape := if j ∈ config.offsetInputs then bit spec.isDynamic else 0
    transposeFlag := bit (spec.transpose || j ∈ config.transposeInputs)
    dim := dims spec.shape }

def output (dataIndex : Nat) (spec : TensorSpec) : TensorDesc :=
  { tensorType := UInt32.ofNat spec.tensorType
    dataType := UInt32.ofNat spec.dtypeSize
    inputPosition := UInt32.ofNat (op.paramPositions.getD op.inputs.length 0)
    dynamicShape := bit spec.isDynamic
    basePtrOffset :=
      if config.outOffset then UInt32.ofNat (dataIndex * 4096 * spec.shape.getD 1 0) else 0
    dim := if config.outOffset then dims spec.shape else Vector.replicate 4 0 }

def dependentEvent (c : Counters) (dataIndex : Nat) : Nat :=
  let depExtra := if config.rankInEvent then tsv.singleRankExpertNum * c.rankId else 0
  c.prePreEventNum + depExtra + dataIndex + 1

def triggerEvent (c : Counters) (dataIndex : Nat) : Nat :=
  if config.globalTrigger then tsv.allEventNum else c.preEventNum + dataIndex + 1

def task (c : Counters) (taskNum i : Nat) : TaskDesc :=
  let dataIndex := i / config.numCubeCores
  { taskType := TaskType.groupedMatmul.code
    taskAicoreType := aicoreCube
    numInputs := UInt32.ofNat op.inputs.length
    numOutputs := UInt32.ofNat op.outputs.length
    inputs := tensors op.inputs (config.input op dataIndex)
    outputs := tensors (op.outputs.take 1) fun _ spec => config.output op dataIndex spec
    dependentEvent := UInt32.ofNat (config.dependentEvent tsv c dataIndex)
    triggerEvent := UInt32.ofNat (config.triggerEvent tsv c dataIndex)
    taskIndex := UInt32.ofNat i
    taskSplitNum := UInt32.ofNat taskNum
    taskSplitValue := UInt32.ofNat op.splitValue
    tilingDataPosition := UInt32.ofNat op.tilingPosition }

def advanceCounters (c : Counters) (taskNum : Nat) : Except ConfigError Counters :=
  match config.advance with
  | .cube => (floorDiv taskNum config.numCubeCores).map (advanceTsvCube c taskNum)
  | .cubeOnly => .ok (advanceTsvCubeOnly c taskNum)
  | .cubeCustom => .ok (advanceTsvCube c taskNum config.eventDelta)

def fill (taskNum : Nat) (st : Filling) : Except ConfigError Filling :=
  if taskNum ≠ 0 ∧ config.numCubeCores = 0 then .error .zeroDivision
  else do
    let cfg ← (List.range taskNum).foldlM (emitCube st.counters config.numCubeCores
      (config.task op tsv st.counters taskNum)) st.cfg
    let counters ← config.advanceCounters st.counters taskNum
    return { cfg := addTaskIndexNum cfg 0 taskNum, counters := counters }

end GmmFillConfig

/-! ### SwiGLU -/

namespace SwiGLUFillConfig

variable (config : SwiGLUFillConfig) (op : OperatorNode) (tsv : TaskSplitValue)

def tensor (i : Nat) (position : Nat) (spec : TensorSpec) : TensorDesc :=
  { tensorType := 1
    dataType := UInt32.ofNat spec.dtypeSize
    inputPosition := UInt32.ofNat (op.paramPositions.getD position 0)
    basePtrOffset := UInt32.ofNat (i * spec.shape.getD 1 0 * op.splitValue)
    dynamicShape := bit spec.isDynamic
    dim := dims spec.shape }

def task (c : Counters) (numTriggers taskNum i : Nat) : TaskDesc :=
  let evIdx := i / numTriggers
  { taskType :=
      if op.opType = .swiglu then TaskType.swiGlu.code else TaskType.swiGluGrad.code
    taskAicoreType := aicoreVector
    numInputs := UInt32.ofNat op.inputs.length
    numOutputs := UInt32.ofNat op.outputs.length
    inputs := tensors op.inputs fun j spec => tensor op i j spec
    outputs := tensors op.outputs fun j spec => tensor op i (op.inputs.length + j) spec
    dependentEvent := UInt32.ofNat (c.prePreEventNum + evIdx + 1)
    triggerEvent := UInt32.ofNat (c.preEventNum + evIdx + 1)
    taskIndex := UInt32.ofNat i
    taskSplitNum := UInt32.ofNat taskNum
    taskSplitValue := UInt32.ofNat op.splitValue
    extraValue0 := config.clampBits
    tilingDataPosition := UInt32.ofNat op.tilingPosition }

def fill (taskNum : Nat) (st : Filling) : Except ConfigError Filling := do
  let numTriggers ← floorDiv tsv.perExpertSeq op.splitValue
  if taskNum ≠ 0 ∧ numTriggers = 0 then .error .zeroDivision
  else
    let cfg ← (List.range taskNum).foldlM (emitVector st.counters numTriggers
      (config.task op st.counters numTriggers taskNum)) st.cfg
    return {
      cfg := addTaskIndexNum cfg 1 taskNum
      counters := advanceTsvVector st.counters taskNum tsv.singleRankExpertNum }

end SwiGLUFillConfig

/-- `op.fill_config.fill(cfg, op, tsv)` -/
def fillOp (tsv : TaskSplitValue) (st : Filling) (op : OperatorNode × Nat) :
    Except ConfigError Filling :=
  match op.1.fillConfig with
  | .allToAll config => config.fill op.1 tsv op.2 st
  | .gmm config => config.fill op.1 tsv op.2 st
  | .swiglu config => config.fill op.1 tsv op.2 st

/-! ### After the fill loop -/

def terminateTask (c : Counters) : TaskDesc :=
  { taskType := TaskType.terminate.code
    dependentEvent := UInt32.ofNat (c.prePreEventNum + 1)
    triggerEvent := UInt32.ofNat (c.preEventNum + 1) }

def addTerminate (tsv : TaskSplitValue) (triggerCount : Nat) (st : Filling) :
    Except ConfigError RuntimeConfig := do
  let cfg ← st.cfg.setTrigger (UInt32.ofNat tsv.allEventNum) triggerCount
  let task := terminateTask st.counters
  let cfg ← cfg.setTrigger task.triggerEvent 1
  let cfg ← cfg.setTask st.counters.preTaskNum task
  let cfg ← cfg.setVectorIndex st.counters.preVectorTaskNum st.counters.preTaskNum
  return addTaskIndexNum cfg 1 1

/-- `indices[target] = temp[source]` -/
def moveIndex (temp : List Int32) (indices : List Int32) (move : Nat × Nat) :
    Except ConfigError (List Int32) :=
  match temp[move.2]? with
  | some value =>
    if move.1 < indices.length then .ok (indices.set move.1 value) else .error .index
  | none => .error .index

def moveIndices (indices : List Int32) (moves : List (Nat × Nat)) :
    Except ConfigError (List Int32) :=
  moves.foldlM (moveIndex indices) indices

def epRank (tsv : TaskSplitValue) (rankId : Nat) : List Nat :=
  (List.range tsv.ep).map fun peer => (peer + rankId) % tsv.ep

def segmentSources (tsv : TaskSplitValue) (rankId taskCount : Nat) : List Nat :=
  let tasksPerExpert := taskCount / tsv.allExpertNum
  let tasksPerPeer := taskCount / tsv.ep
  (List.range tsv.singleRankExpertNum).flatMap fun expert =>
    (List.range tasksPerExpert).flatMap fun tile =>
      (epRank tsv rankId).map fun peer => peer * tasksPerPeer + expert * tasksPerExpert + tile

def segmentMoves (start : Nat) (sources : List Nat) : List (Nat × Nat) :=
  (List.range sources.length).zip sources |>.map fun (index, source) =>
    (start + index, start + source)

/-- `revise_task_queue`: both segments are read from the queue as it was. -/
def reviseTaskQueue (cfg : RuntimeConfig) (tsv : TaskSplitValue)
    (rankId dispatchTaskNum swigluTaskNum combineTaskNum : Nat) :
    Except ConfigError RuntimeConfig :=
  (moveIndices cfg.vectorTaskIndices
    (segmentMoves 0 (segmentSources tsv rankId dispatchTaskNum) ++
      segmentMoves (dispatchTaskNum + swigluTaskNum)
        (segmentSources tsv rankId combineTaskNum))).map fun indices =>
    { cfg with vectorTaskIndices := indices }

/-- `revise_gmm_task_queue_bwd` -/
def reviseGmmTaskQueueBwd (cfg : RuntimeConfig) (tsv : TaskSplitValue)
    (actGradTaskNum numCubeCores : Nat) : Except ConfigError RuntimeConfig :=
  (moveIndices cfg.cubeTaskIndices
    ((List.range (tsv.singleRankExpertNum * 2)).flatMap fun i =>
      (List.range numCubeCores).map fun j =>
        (i * numCubeCores + j,
          (1 - i % 2) * actGradTaskNum + i / 2 * numCubeCores + j))).map fun indices =>
    { cfg with cubeTaskIndices := indices }

def addDynamicData (cfg : RuntimeConfig) (tsv : TaskSplitValue) (dynamicInputPosition : UInt32) :
    RuntimeConfig :=
  { cfg with dynamicData :=
      { dynamicType := 101
        dynamicInputPosition := dynamicInputPosition
        dynamicGroupSize := UInt32.ofNat tsv.singleRankExpertNum
        dynamicMaxSeqLen := -1 } }

def configureReadyHandshake (cfg : RuntimeConfig) (tsv : TaskSplitValue) :
    Except ConfigError RuntimeConfig :=
  let readyEvent := tsv.allEventNum + 3
  let completionEvent := readyEvent + atomicAddValueLen
  if cfg.eventCapacity.toNat < completionEvent + atomicAddValueLen then .error .readyHandshake
  else do
    let cfg := { cfg with
      readyEvent := if 1 < tsv.ep then UInt32.ofNat readyEvent else 0
      protocolVersion := if tsv.dispatchMode = DispatchMode.pull then 1 else 0
      completionEvent :=
        if tsv.dispatchMode = DispatchMode.pull then UInt32.ofNat completionEvent else 0 }
    let cfg ← cfg.setTrigger (UInt32.ofNat readyEvent) 1
    cfg.setTrigger (UInt32.ofNat completionEvent) cfg.numWorkers.toNat

/-! ### Validation -/

def checkEvents (eventCapacity : Nat) (task : TaskDesc) : Except ConfigError Unit :=
  if (task.dependentEvent ≠ eventInvalidId ∧ eventCapacity ≤ task.dependentEvent.toNat) ∨
      eventCapacity < task.triggerEvent.toNat + atomicAddValueLen then .error .eventRange
  else .ok ()

def checkTaskId (cfg : RuntimeConfig) (taskId : Int32) : Except ConfigError Unit :=
  if taskId.toInt < 0 ∨ (cfg.allTasks.length : Int) ≤ taskId.toInt then .error .taskId
  else checkEvents cfg.allEventNumTriggers.length (cfg.allTasks.getD taskId.toInt.toNat {})

def checkQueue (cfg : RuntimeConfig) (indices : List Int32) (count : Int32) :
    Except ConfigError Unit :=
  if count.toInt < 0 ∨ (indices.length : Int) < count.toInt then .error .taskIndexCount
  else (indices.take count.toInt.toNat).forM (checkTaskId cfg)

def validateRuntimeTaskQueues (cfg : RuntimeConfig) : Except ConfigError Unit := do
  checkQueue cfg cfg.cubeTaskIndices (cfg.taskIndexNum.get 0)
  checkQueue cfg cfg.vectorTaskIndices (cfg.taskIndexNum.get 1)
  checkQueue cfg cfg.mixTaskIndices (cfg.taskIndexNum.get 2)

def validateTaskBounds (task : TaskDesc) : Except ConfigError Unit :=
  if task.taskSplitNum = 0 ∨ task.taskSplitNum ≤ task.taskIndex then .error .taskBounds
  else .ok ()

def validateSwigluTask (task : TaskDesc) (groupSize : Nat) : Except ConfigError Unit :=
  if task.taskSplitNum.toNat < groupSize ∨ task.taskSplitNum.toNat % groupSize ≠ 0 then
    .error .swigluPartition
  else .ok ()

def validateGmmTask (task : TaskDesc) (expectedTasks : Nat) : Except ConfigError Unit :=
  if task.taskSplitNum.toNat ≠ expectedTasks then .error .gmmSplit else .ok ()

def validateShmemTask (task : TaskDesc) (tsv : TaskSplitValue) : Except ConfigError Unit :=
  if task.taskSplitNum.toNat < tsv.allExpertNum ∨
      task.taskSplitNum.toNat % tsv.allExpertNum ≠ 0 then .error .shmemPartition
  else
    let tasksPerExpert := task.taskSplitNum.toNat / tsv.allExpertNum
    if tsv.ep ≤ task.taskIndex.toNat / (tsv.singleRankExpertNum * tasksPerExpert) then
      .error .shmemTarget
    else .ok ()

def validateTask (tsv : TaskSplitValue) (numCubeCores groupSize : Nat) (task : TaskDesc) :
    Except ConfigError Unit :=
  if task.hasType .swiGlu ∨ task.hasType .swiGluGrad then do
    validateTaskBounds task
    validateSwigluTask task groupSize
  else if task.hasType .groupedMatmul then do
    validateTaskBounds task
    validateGmmTask task (numCubeCores * tsv.singleRankExpertNum)
  else if task.hasType .shmemPutMemSignal ∨ task.hasType .shmemGetMem then do
    validateTaskBounds task
    validateShmemTask task tsv
  else .ok ()

def validateRuntimeConfig (cfg : RuntimeConfig) (tsv : TaskSplitValue) (numCubeCores : Nat) :
    Except ConfigError Unit :=
  if numCubeCores = 0 then .error .numCubeCores
  else if cfg.numWorkers.toNat ≠ 2 * numCubeCores then .error .numWorkers
  else if cfg.allTasks.length < cfg.taskNum.toNat then .error .taskNum
  else do
    validateRuntimeTaskQueues cfg
    if cfg.dynamicData.dynamicGroupSize.toNat ≠ tsv.singleRankExpertNum then .error .groupSize
    else
      List.forM (cfg.allTasks.take cfg.taskNum.toNat)
        (validateTask tsv numCubeCores cfg.dynamicData.dynamicGroupSize.toNat)

/-! ### Allocation -/

/-- `mega_moe_event_capacity` -/
def megaMoeEventCapacity (numExperts epSize : Nat) : Nat :=
  let finalEvent := numExperts + 3 * (numExperts / epSize) + 4 + atomicAddValueLen
  max minEventCapacity ((finalEvent + atomicAddValueLen + 15) / 16 * 16)

def totalTasks (ops : List (OperatorNode × Nat)) : Nat := (ops.map Prod.snd).sum

/-- `allocate_graph_config` -/
def allocateGraphConfig (ops : List (OperatorNode × Nat)) (tsv : TaskSplitValue) :
    Except ConfigError RuntimeConfig :=
  allocateRuntimeConfig (1 + totalTasks ops) (megaMoeEventCapacity tsv.allExpertNum tsv.ep)
    tsv.singleRankExpertNum

end HyperParallel.Multicore
