import HyperParallel.Foundation.WordImage
import HyperParallel.Multicore.RuntimeConfig

/-!
# The runtime image and its device reader

The host sizes and packs the sections of a configuration; the device finds them
again with offsets it computes from the header in its own 32-bit arithmetic.
-/

namespace HyperParallel.Multicore

open Foundation Foundation.FixedWidth
open Foundation.WordImage

attribute [local instance] fourSlots

def minEventCapacity : Nat := 1024
def numWorkersCube : Nat := 24
def minGroupListCapacity : Nat := 512
def groupListCacheLineBytes : Nat := 128
def runtimeHeaderBytes : Nat := 64
def taskDescSize : Nat := 576
def eventDescSize : Nat := 16
def dynamicDataSize : Nat := 16
def runtimeFixedBytes : Nat := runtimeHeaderBytes + 16 + dynamicDataSize + atomicAddValueLen * 4

/-- `_check_capacity` -/
def checkCapacity (value minimum : Nat) : Except ConfigError Unit :=
  if value < minimum ∨ value % 16 ≠ 0 then .error .capacity else .ok ()

def groupedMatmulGroupListCapacity (localExperts : Nat) : Except ConfigError Nat :=
  if localExperts < 2 ^ 32 then
    let alignment := groupListCacheLineBytes / 8
    let stride := (max 1 localExperts + alignment - 1) / alignment * alignment
    .ok (max minGroupListCapacity (numWorkersCube * stride + alignment))
  else .error .localExperts

def runtimeConfigSerializedSize (taskCapacity eventCapacity localExperts : Nat) :
    Except ConfigError Nat := do
  checkCapacity taskCapacity 0
  checkCapacity eventCapacity minEventCapacity
  let scratch ← groupedMatmulGroupListCapacity localExperts
  let size := runtimeFixedBytes + eventCapacity * 20 + taskCapacity * (taskDescSize + 12)
    + scratch * 8
  if size < 2 ^ 32 then return size else .error .imageTooLarge

structure FitsImage (taskCapacity eventCapacity localExperts scratch size : Nat) : Prop where
  task_aligned : taskCapacity % 16 = 0
  event_min : minEventCapacity ≤ eventCapacity
  event_aligned : eventCapacity % 16 = 0
  scratch_eq : groupedMatmulGroupListCapacity localExperts = .ok scratch
  size_eq : size = runtimeFixedBytes + eventCapacity * 20 + taskCapacity * (taskDescSize + 12)
    + scratch * 8
  size_lt : size < 2 ^ 32

theorem checkCapacity_eq_ok {value minimum : Nat} (h : checkCapacity value minimum = .ok ()) :
    minimum ≤ value ∧ value % 16 = 0 := by
  unfold checkCapacity at h
  split at h
  · cases h
  · omega

theorem fitsImage_of_size {taskCapacity eventCapacity localExperts size : Nat}
    (h : runtimeConfigSerializedSize taskCapacity eventCapacity localExperts = .ok size) :
    ∃ scratch, FitsImage taskCapacity eventCapacity localExperts scratch size := by
  obtain ⟨⟨⟩, htask, h⟩ := bind_eq_ok h
  obtain ⟨⟨⟩, hevent, h⟩ := bind_eq_ok h
  obtain ⟨scratch, hscratch, h⟩ := bind_eq_ok h
  simp only at h
  split at h
  · rename_i hlt
    cases h
    exact ⟨scratch, (checkCapacity_eq_ok htask).2, (checkCapacity_eq_ok hevent).1,
      (checkCapacity_eq_ok hevent).2, hscratch, rfl, hlt⟩
  · cases h

/-- `allocate_runtime_config` -/
def allocateRuntimeConfig (taskCapacity eventCapacity localExperts : Nat) :
    Except ConfigError RuntimeConfig :=
  let capacity := (taskCapacity + 15) / 16 * 16
  match h : runtimeConfigSerializedSize capacity eventCapacity localExperts with
  | .error e => .error e
  | .ok _ => (groupedMatmulGroupListCapacity localExperts).map fun scratch =>
    { taskCapacity := UInt32.ofNat capacity
      eventCapacity := UInt32.ofNat eventCapacity
      allEventNumTriggers := List.replicate eventCapacity 0
      -- a zeroed descriptor, profiling ids included
      allTasks := List.replicate capacity { profileDescId := 0, profileOwnerId := 0 }
      allEvents := List.replicate eventCapacity {}
      cubeTaskIndices := List.replicate capacity 0
      vectorTaskIndices := List.replicate capacity 0
      mixTaskIndices := List.replicate capacity 0
      dynamicData := { dynamicGroupSize := UInt32.ofNat localExperts }
      groupedMatmulGroupList := List.replicate scratch 0
      events_le := by
        obtain ⟨scratch', hfits⟩ := fitsImage_of_size h
        have hsize := hfits.size_eq
        have hlt := hfits.size_lt
        rw [List.length_replicate, show eventInvalidId.toNat = 4294967295 from rfl]
        omega }

/-! ### The host side -/

/-- One queue of `runtime_config_task_capacity`. -/
def queueCapacity (numTasks : Nat) (required : Nat) (indices : List Int32) (count : Int32) :
    Except ConfigError Nat :=
  if count.toInt < 0 ∨ (indices.length : Int) < count.toInt then .error .taskIndexCount
  else
    (indices.take count.toInt.toNat).foldlM (fun required taskId =>
      if taskId.toInt < 0 ∨ (numTasks : Int) ≤ taskId.toInt then .error .taskId
      else .ok (max required (taskId.toInt.toNat + 1))) (max required count.toInt.toNat)

def runtimeConfigTaskCapacity (cfg : RuntimeConfig) : Except ConfigError Nat := do
  let tasks := cfg.allTasks.length
  let required ← queueCapacity tasks cfg.taskNum.toNat cfg.cubeTaskIndices (cfg.taskIndexNum.get 0)
  let required ← queueCapacity tasks required cfg.vectorTaskIndices (cfg.taskIndexNum.get 1)
  let required ← queueCapacity tasks required cfg.mixTaskIndices (cfg.taskIndexNum.get 2)
  let capacity := (required + 15) / 16 * 16
  if min tasks (min cfg.cubeTaskIndices.length
      (min cfg.vectorTaskIndices.length cfg.mixTaskIndices.length)) < capacity then
    .error .taskSlots
  else return capacity

def TensorDesc.words (t : TensorDesc) : List UInt32 :=
  [t.tensorType, t.numDims] ++ t.dim.toList ++ t.stride.toList ++
    [t.dataType, t.inputPosition, t.basePtrOffset, t.transposeFlag, t.dynamicShape, t.dynamicDim]

def TaskDesc.wordSections (task : TaskDesc) : List (List UInt32) :=
  [[task.taskType, task.taskAicoreType, task.numInputs, task.numOutputs, task.triggerEvent,
      task.dependentEvent],
    task.inputs.toList.flatMap TensorDesc.words,
    task.outputs.toList.flatMap TensorDesc.words,
    [task.tilingDataPosition, task.tilingDataOffset, task.taskIndex, task.taskSplitNum,
      task.taskSplitValue, task.extraValue0, task.extraValue1, task.extraValue2,
      task.profileDescId, task.profileOwnerId]]

def TaskDesc.words (task : TaskDesc) : List UInt32 := task.wordSections.flatten

def EventDesc.words (event : EventDesc) : List UInt32 :=
  [event.eventType, event.numTriggers, event.firstTaskId, event.lastTaskId]

def DynamicData.words (data : DynamicData) : List UInt32 :=
  [data.dynamicType, data.dynamicInputPosition, data.dynamicGroupSize,
    data.dynamicMaxSeqLen.toUInt32]

def int64Words (value : Int64) : List UInt32 :=
  [UInt32.ofNat value.toUInt64.toNat, UInt32.ofNat (value.toUInt64.toNat / 2 ^ 32)]

def int32Words (values : List Int32) : List UInt32 := values.map Int32.toUInt32

def headerWords (cfg : RuntimeConfig) (capacity eventCapacity : Nat) : List UInt32 :=
  [cfg.taskNum, cfg.numWorkers, UInt32.ofNat capacity, UInt32.ofNat eventCapacity,
    cfg.readyEvent, cfg.diagnosticMode, cfg.aicProfileRecordCapacity,
    cfg.aivProfileRecordCapacity, cfg.completionEvent, cfg.protocolVersion, 0, 0, 0, 0, 0, 0]

def imageSections (cfg : RuntimeConfig) (capacity eventCapacity scratch : Nat) :
    List (List UInt32) :=
  [headerWords cfg capacity eventCapacity,
    int32Words cfg.allEventNumTriggers,
    (cfg.allTasks.take capacity).flatMap TaskDesc.words,
    cfg.allEvents.flatMap EventDesc.words,
    int32Words cfg.taskIndexNum.toList,
    int32Words (cfg.cubeTaskIndices.take capacity),
    int32Words (cfg.vectorTaskIndices.take capacity),
    int32Words (cfg.mixTaskIndices.take capacity),
    cfg.dynamicData.words,
    (cfg.groupedMatmulGroupList.take scratch).flatMap int64Words,
    int32Words cfg.atomicAddValues.toList]

def imageWords (cfg : RuntimeConfig) (capacity eventCapacity scratch : Nat) : List UInt32 :=
  (imageSections cfg capacity eventCapacity scratch).flatten

def serializeRuntimeConfig (cfg : RuntimeConfig) : Except ConfigError (List UInt8) := do
  let capacity ← runtimeConfigTaskCapacity cfg
  let eventCapacity := cfg.allEventNumTriggers.length
  if cfg.allEvents.length ≠ eventCapacity then .error .eventArrays
  else
    let scratch ← groupedMatmulGroupListCapacity cfg.dynamicData.dynamicGroupSize.toNat
    if cfg.groupedMatmulGroupList.length < scratch then .error .groupListScratch
    else
      let expected ← runtimeConfigSerializedSize capacity eventCapacity
        cfg.dynamicData.dynamicGroupSize.toNat
      let image := encode (imageWords cfg capacity eventCapacity scratch)
      if image.length ≠ expected then .error .serializedSize else return image

/-! ### The device side -/

namespace Device

def getTaskNum (image : List UInt8) : UInt32 := readWord image 0
def getNumWorkers (image : List UInt8) : UInt32 := readWord image 4
def getRuntimeTaskCapacity (image : List UInt8) : UInt32 := readWord image (2 * 4)
def getRuntimeEventCapacity (image : List UInt8) : UInt32 := readWord image (3 * 4)
def getReadyEvent (image : List UInt8) : UInt32 := readWord image (4 * 4)
def getDiagnosticMode (image : List UInt8) : UInt32 := readWord image (5 * 4)
def getAicProfileRecordCapacity (image : List UInt8) : UInt32 := readWord image (6 * 4)
def getAivProfileRecordCapacity (image : List UInt8) : UInt32 := readWord image (7 * 4)
def getCompletionEvent (image : List UInt8) : UInt32 := readWord image (8 * 4)
def getProtocolVersion (image : List UInt8) : UInt32 := readWord image (9 * 4)

def getAllEventNumTriggersOffset : UInt32 := 64

def getAllTasksOffset (image : List UInt8) : UInt32 :=
  getAllEventNumTriggersOffset + 4 * getRuntimeEventCapacity image

/-- `task_desc_size`, from the sizes of its parts. -/
def taskDescBytes : UInt32 :=
  let tensorDescSize : UInt32 := 4 * 8 + 4 * 4 * 2
  4 * 6 + 4 * tensorDescSize + 4 * tensorDescSize + 4 * 10

def getAllEventsOffset (image : List UInt8) : UInt32 :=
  getAllTasksOffset image + taskDescBytes * getRuntimeTaskCapacity image

def getTensorDesc (image : List UInt8) (start : Nat) : TensorDesc where
  tensorType := readWord image start
  numDims := readWord image (start + 4)
  dim := Vector.ofFn fun j => readWord image (start + 8 + 4 * j.val)
  stride := Vector.ofFn fun j => readWord image (start + 24 + 4 * j.val)
  dataType := readWord image (start + 40)
  inputPosition := readWord image (start + 44)
  basePtrOffset := readWord image (start + 48)
  transposeFlag := readWord image (start + 52)
  dynamicShape := readWord image (start + 56)
  dynamicDim := readWord image (start + 60)

def getTaskDesc (image : List UInt8) (index : UInt32) : TaskDesc :=
  let start := (getAllTasksOffset image + index * taskDescBytes).toNat
  { taskType := readWord image start
    taskAicoreType := readWord image (start + 4)
    numInputs := readWord image (start + 8)
    numOutputs := readWord image (start + 12)
    triggerEvent := readWord image (start + 16)
    dependentEvent := readWord image (start + 20)
    inputs := Vector.ofFn fun i => getTensorDesc image (start + 24 + 64 * i.val)
    outputs := Vector.ofFn fun i => getTensorDesc image (start + 280 + 64 * i.val)
    tilingDataPosition := readWord image (start + 536)
    tilingDataOffset := readWord image (start + 540)
    taskIndex := readWord image (start + 544)
    taskSplitNum := readWord image (start + 548)
    taskSplitValue := readWord image (start + 552)
    extraValue0 := readWord image (start + 556)
    extraValue1 := readWord image (start + 560)
    extraValue2 := readWord image (start + 564)
    profileDescId := readWord image (start + 568)
    profileOwnerId := readWord image (start + 572) }

def getEventDesc (image : List UInt8) (index : UInt32) : EventDesc :=
  let start := (getAllEventsOffset image + index * 4 * 4).toNat
  { eventType := readWord image start
    numTriggers := readWord image (start + 4)
    firstTaskId := readWord image (start + 8)
    lastTaskId := readWord image (start + 12) }

def getTaskIndexNumOffset (image : List UInt8) : UInt32 :=
  getAllEventsOffset image + getRuntimeEventCapacity image * 4 * 4

/-- `getTaskIndexNumByTaskType`: the Cube, Vector and Mix counts. -/
def getTaskIndexNum (image : List UInt8) (kind : Fin 3) : Int32 :=
  (readWord image ((getAllEventsOffset image + getRuntimeEventCapacity image * 4 * 4).toNat
    + 4 * kind.val)).toInt32

def getCubeTaskIndexsOffset (image : List UInt8) : UInt32 := getTaskIndexNumOffset image + 4 * 4

def getVectorTaskIndexsOffset (image : List UInt8) : UInt32 :=
  getCubeTaskIndexsOffset image + getRuntimeTaskCapacity image * 4

def getMixTaskIndexsOffset (image : List UInt8) : UInt32 :=
  getVectorTaskIndexsOffset image + getRuntimeTaskCapacity image * 4

def getDynamicDataOffset (image : List UInt8) : UInt32 :=
  getMixTaskIndexsOffset image + getRuntimeTaskCapacity image * 4

def getDynamicData (image : List UInt8) : DynamicData :=
  let start := (getDynamicDataOffset image).toNat
  { dynamicType := readWord image start
    dynamicInputPosition := readWord image (start + 4)
    dynamicGroupSize := readWord image (start + 8)
    dynamicMaxSeqLen := (readWord image (start + 12)).toInt32 }

def getGroupedMatmulGroupListOffset (image : List UInt8) : UInt32 :=
  getDynamicDataOffset image + 4 * 4

def getDynamicGroupSize (image : List UInt8) : UInt32 :=
  readWord image ((getDynamicDataOffset image).toNat + 2 * 4)

def getGroupedMatmulGroupListStride (image : List UInt8) : Nat :=
  let groups := (getDynamicGroupSize image).toNat
  let bytes := (if groups = 0 then 1 else groups) * 8
  (bytes + groupListCacheLineBytes - 1) / groupListCacheLineBytes * groupListCacheLineBytes

def getGroupedMatmulGroupListBytes (image : List UInt8) : Nat :=
  let bytes := numWorkersCube * getGroupedMatmulGroupListStride image + groupListCacheLineBytes
  let minimum := minGroupListCapacity * 8
  if bytes > minimum then bytes else minimum

def getGroupedMatmulGroupListOffsetById (image : List UInt8) (workerId : UInt32) : UInt32 :=
  let alignedOffset := (getGroupedMatmulGroupListOffset image + 128 - 1) / 128 * 128
  alignedOffset + UInt32.ofNat (getGroupedMatmulGroupListStride image) * workerId

def getAtomicAddValuesOffset (image : List UInt8) : UInt32 :=
  getGroupedMatmulGroupListOffset image + UInt32.ofNat (getGroupedMatmulGroupListBytes image)

def isRuntimeTailValid (image : List UInt8) (runtimeBytes localExperts : Nat) : Bool :=
  let capacity := (getRuntimeTaskCapacity image).toNat
  let events := (getRuntimeEventCapacity image).toNat
  let header := 64 + events * (4 + eventDescSize) + capacity * (taskDescSize + 3 * 4) + 4 * 4
    + dynamicDataSize
  if 2 ^ 32 ≤ header ∨ runtimeBytes < header then false
  else if localExperts ≠ 0 ∧ (getDynamicGroupSize image).toNat ≠ localExperts then false
  else
    let required := header + getGroupedMatmulGroupListBytes image + atomicAddValueLen * 4
    required < 2 ^ 32 && required ≤ runtimeBytes

end Device

end HyperParallel.Multicore
