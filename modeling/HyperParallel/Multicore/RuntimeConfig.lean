import HyperParallel.Foundation.PySequence
import Mathlib.Algebra.Ring.Nat

/-!
# Runtime configurations of a task graph

The descriptors the host fills and the device workers read: tensors, tasks and
the queues of task ids for the Cube, Vector and Mix workers.
-/

namespace HyperParallel.Multicore

open Foundation

def eventInvalidId : UInt32 := 0xFFFFFFFF

def atomicAddValueLen : Nat := 8

inductive TaskType where
  | terminate
  | beginTaskGraph
  | swiGlu
  | groupedMatmul
  | shmemPutMemSignal
  | swiGluGrad
  | shmemGetMem
  deriving DecidableEq, Repr

def TaskType.code : TaskType → UInt32
  | .terminate => 0
  | .beginTaskGraph => 10
  | .swiGlu => 102
  | .groupedMatmul => 104
  | .shmemPutMemSignal => 105
  | .swiGluGrad => 106
  | .shmemGetMem => 141

theorem fourSlots : NeZero 4 := ⟨by decide⟩

@[ext]
structure TensorDesc where
  tensorType : UInt32 := 0
  numDims : UInt32 := 0
  dim : Vector UInt32 4 := Vector.replicate 4 0
  stride : Vector UInt32 4 := Vector.replicate 4 0
  dataType : UInt32 := 0
  inputPosition : UInt32 := 0
  basePtrOffset : UInt32 := 0
  transposeFlag : UInt32 := 0
  dynamicShape : UInt32 := 0
  dynamicDim : UInt32 := 0
  deriving DecidableEq, Repr

@[ext]
structure TaskDesc where
  taskType : UInt32 := 0
  taskAicoreType : UInt32 := 0
  numInputs : UInt32 := 0
  numOutputs : UInt32 := 0
  triggerEvent : UInt32 := 0
  dependentEvent : UInt32 := 0
  inputs : Vector TensorDesc 4 := Vector.replicate 4 {}
  outputs : Vector TensorDesc 4 := Vector.replicate 4 {}
  tilingDataPosition : UInt32 := 0
  tilingDataOffset : UInt32 := 0
  taskIndex : UInt32 := 0
  taskSplitNum : UInt32 := 0
  taskSplitValue : UInt32 := 0
  extraValue0 : UInt32 := 0
  extraValue1 : UInt32 := 0
  extraValue2 : UInt32 := 0
  profileDescId : UInt32 := 0xFFFFFFFF
  profileOwnerId : UInt32 := 0xFFFFFFFF
  deriving DecidableEq, Repr

namespace TaskDesc

def hasType (task : TaskDesc) (type : TaskType) : Prop := task.taskType = type.code

instance (task : TaskDesc) (type : TaskType) : Decidable (task.hasType type) :=
  inferInstanceAs (Decidable (task.taskType = type.code))

theorem not_hasType {task : TaskDesc} {type other : TaskType} (h : task.hasType type)
    (hne : type.code ≠ other.code) : ¬task.hasType other :=
  fun hother => hne (h.symm.trans hother)

end TaskDesc

@[ext]
structure EventDesc where
  eventType : UInt32 := 0
  numTriggers : UInt32 := 0
  firstTaskId : UInt32 := 0
  lastTaskId : UInt32 := 0
  deriving DecidableEq, Repr

@[ext]
structure DynamicData where
  dynamicType : UInt32 := 0
  dynamicInputPosition : UInt32 := 0
  dynamicGroupSize : UInt32 := 0
  dynamicMaxSeqLen : Int32 := 0
  deriving DecidableEq, Repr

/-- What the host raises while it builds, checks or serializes a configuration. -/
inductive ConfigError where
  | index
  | zeroDivision
  | cycle
  | missingOp
  | capacity
  | localExperts
  | imageTooLarge
  | readyHandshake
  | numCubeCores
  | numWorkers
  | taskNum
  | taskIndexCount
  | taskId
  | eventRange
  | groupSize
  | taskBounds
  | swigluPartition
  | gmmSplit
  | shmemPartition
  | shmemTarget
  | taskSlots
  | eventArrays
  | groupListScratch
  | serializedSize
  deriving DecidableEq, Repr

/-- The allocation keeps the image below `2 ^ 32` bytes, so that the event
array ends before the id that stands for no event. -/
structure RuntimeConfig where
  taskNum : UInt32 := 0
  numWorkers : UInt32 := 0
  taskCapacity : UInt32 := 0
  eventCapacity : UInt32 := 0
  readyEvent : UInt32 := 0
  diagnosticMode : UInt32 := 0
  aicProfileRecordCapacity : UInt32 := 0
  aivProfileRecordCapacity : UInt32 := 0
  completionEvent : UInt32 := 0
  protocolVersion : UInt32 := 0
  allEventNumTriggers : List Int32
  allTasks : List TaskDesc
  allEvents : List EventDesc := []
  taskIndexNum : Vector Int32 4 := Vector.replicate 4 0
  cubeTaskIndices : List Int32
  vectorTaskIndices : List Int32
  mixTaskIndices : List Int32
  dynamicData : DynamicData := {}
  groupedMatmulGroupList : List Int64 := []
  atomicAddValues : Vector Int32 8 := Vector.replicate 8 0
  events_le : allEventNumTriggers.length ≤ eventInvalidId.toNat

/-! ### Assignments to the arrays -/

namespace RuntimeConfig

def setTrigger (cfg : RuntimeConfig) (event : UInt32) (count : Nat) :
    Except ConfigError RuntimeConfig :=
  if event.toNat < cfg.allEventNumTriggers.length then
    .ok { cfg with
      allEventNumTriggers := cfg.allEventNumTriggers.set event.toNat (Int32.ofNat count)
      events_le := by simpa using cfg.events_le }
  else .error .index

def setTask (cfg : RuntimeConfig) (slot : Nat) (task : TaskDesc) :
    Except ConfigError RuntimeConfig :=
  if slot < cfg.allTasks.length then
    .ok { cfg with allTasks := cfg.allTasks.set slot task }
  else .error .index

def setCubeIndex (cfg : RuntimeConfig) (slot taskId : Nat) : Except ConfigError RuntimeConfig :=
  if slot < cfg.cubeTaskIndices.length then
    .ok { cfg with cubeTaskIndices := cfg.cubeTaskIndices.set slot (Int32.ofNat taskId) }
  else .error .index

def setVectorIndex (cfg : RuntimeConfig) (slot taskId : Nat) :
    Except ConfigError RuntimeConfig :=
  if slot < cfg.vectorTaskIndices.length then
    .ok { cfg with vectorTaskIndices := cfg.vectorTaskIndices.set slot (Int32.ofNat taskId) }
  else .error .index

end RuntimeConfig

/-- `indices[:count]` -/
def slicePrefix {α : Type*} (xs : List α) (count : Int) : List α :=
  xs.take (if count < 0 then (xs.length + count).toNat else count.toNat)

/-- `[cfg.all_tasks[index] for index in indices[:count]]` -/
def RuntimeConfig.queuedTasks (cfg : RuntimeConfig) (indices : List Int32) (count : Int32) :
    Except ConfigError (List TaskDesc) :=
  (slicePrefix indices count.toInt).mapM fun index =>
    match pyGet? cfg.allTasks index.toInt with
    | some task => .ok task
    | none => .error .index

/-- `cfg.all_event_num_triggers[event]` -/
def RuntimeConfig.numTriggers (cfg : RuntimeConfig) (event : UInt32) :
    Except ConfigError Int32 :=
  match cfg.allEventNumTriggers[event.toNat]? with
  | some count => .ok count
  | none => .error .index

def floorDiv (a b : Nat) : Except ConfigError Nat :=
  if b = 0 then .error .zeroDivision else .ok (a / b)

theorem RuntimeConfig.ne_invalid_of_numTriggers {cfg : RuntimeConfig} {event : UInt32}
    {count : Int32} (h : cfg.numTriggers event = .ok count) : event ≠ eventInvalidId := by
  rintro rfl
  unfold numTriggers at h
  rw [List.getElem?_eq_none cfg.events_le] at h
  cases h

end HyperParallel.Multicore
