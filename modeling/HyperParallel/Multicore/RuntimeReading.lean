import HyperParallel.Multicore.RuntimeImage

/-!
# The device finds every section where the host put it

The sections of a serialized image lie one after the other; below `2 ^ 32`
bytes the offsets the device computes do not wrap and point at them.
-/

namespace HyperParallel.Multicore

open Foundation Foundation.FixedWidth Foundation.WordImage

/-! ### Sections of the image -/

@[simp] theorem TensorDesc.length_words (t : TensorDesc) : t.words.length = 16 := by
  simp [TensorDesc.words]

theorem length_tensorWords (tensors : Vector TensorDesc 4) :
    (tensors.toList.flatMap TensorDesc.words).length = 64 := by
  rw [length_flatMap TensorDesc.length_words, Vector.length_toList]

@[simp] theorem TaskDesc.length_words (task : TaskDesc) : task.words.length = 144 := by
  simp [TaskDesc.words, TaskDesc.wordSections]

@[simp] theorem EventDesc.length_words (event : EventDesc) : event.words.length = 4 := rfl

@[simp] theorem DynamicData.length_words (data : DynamicData) : data.words.length = 4 := rfl

@[simp] theorem length_int64Words (value : Int64) : (int64Words value).length = 2 := rfl

@[simp] theorem length_int32Words (values : List Int32) :
    (int32Words values).length = values.length :=
  List.length_map ..

@[simp] theorem length_headerWords (cfg : RuntimeConfig) (capacity eventCapacity : Nat) :
    (headerWords cfg capacity eventCapacity).length = 16 := rfl

/-- What a successful serialization has checked. -/
structure Serialized (cfg : RuntimeConfig) (image : List UInt8) (capacity scratch : Nat) :
    Prop where
  capacity_eq : runtimeConfigTaskCapacity cfg = .ok capacity
  events : cfg.allEvents.length = cfg.allEventNumTriggers.length
  scratch_le : scratch ≤ cfg.groupedMatmulGroupList.length
  fits : ∃ size, FitsImage capacity cfg.allEventNumTriggers.length
    cfg.dynamicData.dynamicGroupSize.toNat scratch size ∧ image.length = size
  image_eq : image = encode (imageWords cfg capacity cfg.allEventNumTriggers.length scratch)

theorem serialized_of_ok {cfg : RuntimeConfig} {image : List UInt8}
    (h : serializeRuntimeConfig cfg = .ok image) :
    ∃ capacity scratch, Serialized cfg image capacity scratch := by
  obtain ⟨capacity, hcapacity, h⟩ := bind_eq_ok h
  simp only at h
  split at h
  · cases h
  · rename_i hevents
    obtain ⟨scratch, hscratch, h⟩ := bind_eq_ok h
    split at h
    · cases h
    · rename_i hgroups
      obtain ⟨size, hsize, h⟩ := bind_eq_ok h
      split at h
      · cases h
      · rename_i hlength
        obtain ⟨scratch', hfits⟩ := fitsImage_of_size hsize
        obtain rfl : scratch' = scratch := Except.ok.inj (hfits.scratch_eq.symm.trans hscratch)
        obtain rfl := Except.ok.inj h
        exact ⟨capacity, scratch', hcapacity, not_not.mp hevents, Nat.le_of_not_lt hgroups,
          ⟨size, hfits, not_not.mp hlength⟩, rfl⟩

structure CoversQueue (indices : List Int32) (count : Int32) (capacity : Nat) : Prop where
  count_nonneg : 0 ≤ count.toInt
  count_le : count.toInt ≤ capacity
  ids : ∀ (i : Nat) (id : Int32), (i : Int) < count.toInt → indices[i]? = some id →
    0 ≤ id.toInt ∧ id.toInt < capacity

theorem CoversQueue.mono {indices : List Int32} {count : Int32} {capacity capacity' : Nat}
    (h : CoversQueue indices count capacity) (hle : capacity ≤ capacity') :
    CoversQueue indices count capacity' where
  count_nonneg := h.count_nonneg
  count_le := by
    have := h.count_le
    omega
  ids i id hi hget := by
    have := h.ids i id hi hget
    omega

theorem queueCapacity_eq_ok {tasks required required' : Nat} {indices : List Int32}
    {count : Int32} (h : queueCapacity tasks required indices count = .ok required') :
    required ≤ required' ∧ CoversQueue indices count required' := by
  unfold queueCapacity at h
  split at h
  · cases h
  · rename_i hcount
    push Not at hcount
    have hrun := foldlM_invariant
      (fun seen r => max required count.toInt.toNat ≤ r ∧
        ∀ id ∈ seen, 0 ≤ id.toInt ∧ id.toInt < (r : Int))
      (by
        intro seen r id r' hinv hstep
        split at hstep
        · cases hstep
        · rename_i hid
          push Not at hid
          cases hstep
          refine ⟨hinv.1.trans (Nat.le_max_left ..), fun x hx => ?_⟩
          rcases List.mem_append.mp hx with hx | hx
          · have := hinv.2 x hx
            omega
          · obtain rfl := List.mem_singleton.mp hx
            omega)
      ⟨le_rfl, by simp⟩ h
    refine ⟨by omega, hcount.1, by omega, fun i id hi hget => hrun.2 id ?_⟩
    apply List.mem_of_getElem? (i := i)
    rw [List.getElem?_take_of_lt (by omega)]
    exact hget

structure CoversTasks (cfg : RuntimeConfig) (capacity : Nat) : Prop where
  tasks_le : capacity ≤ cfg.allTasks.length
  cube_le : capacity ≤ cfg.cubeTaskIndices.length
  vector_le : capacity ≤ cfg.vectorTaskIndices.length
  mix_le : capacity ≤ cfg.mixTaskIndices.length
  task_num : cfg.taskNum.toNat ≤ capacity
  cube : CoversQueue cfg.cubeTaskIndices (cfg.taskIndexNum.get 0) capacity
  vector : CoversQueue cfg.vectorTaskIndices (cfg.taskIndexNum.get 1) capacity
  mix : CoversQueue cfg.mixTaskIndices (cfg.taskIndexNum.get 2) capacity

theorem coversTasks_of_ok {cfg : RuntimeConfig} {capacity : Nat}
    (h : runtimeConfigTaskCapacity cfg = .ok capacity) : CoversTasks cfg capacity := by
  obtain ⟨cube, hcube, h⟩ := bind_eq_ok h
  obtain ⟨vector, hvector, h⟩ := bind_eq_ok h
  obtain ⟨mix, hmix, h⟩ := bind_eq_ok h
  simp only at h
  split at h
  · cases h
  · rename_i hslots
    obtain rfl := Except.ok.inj h
    obtain ⟨htaskNum, hcube⟩ := queueCapacity_eq_ok hcube
    obtain ⟨hcubeLe, hvector⟩ := queueCapacity_eq_ok hvector
    obtain ⟨hvectorLe, hmix⟩ := queueCapacity_eq_ok hmix
    have hround : mix ≤ (mix + 15) / 16 * 16 := by omega
    have hmin := Nat.le_of_not_lt hslots
    simp only [le_min_iff] at hmin
    exact
      { tasks_le := hmin.1
        cube_le := hmin.2.1
        vector_le := hmin.2.2.1
        mix_le := hmin.2.2.2
        task_num := by omega
        cube := hcube.mono (by omega)
        vector := hvector.mono (by omega)
        mix := hmix.mono hround }

theorem Serialized.covers {cfg : RuntimeConfig} {image : List UInt8} {capacity scratch : Nat}
    (h : Serialized cfg image capacity scratch) : CoversTasks cfg capacity :=
  coversTasks_of_ok h.capacity_eq

section Sections

variable {cfg : RuntimeConfig} {image : List UInt8} {capacity scratch : Nat}

theorem length_taskWords (hcapacity : capacity ≤ cfg.allTasks.length) :
    ((cfg.allTasks.take capacity).flatMap TaskDesc.words).length = 144 * capacity := by
  rw [length_flatMap TaskDesc.length_words, List.length_take, Nat.min_eq_left hcapacity]

theorem length_take_int32Words {indices : List Int32} (hle : capacity ≤ indices.length) :
    (int32Words (indices.take capacity)).length = capacity := by
  rw [length_int32Words, List.length_take, Nat.min_eq_left hle]

theorem length_groupWords (hscratch : scratch ≤ cfg.groupedMatmulGroupList.length) :
    ((cfg.groupedMatmulGroupList.take scratch).flatMap int64Words).length = 2 * scratch := by
  rw [length_flatMap length_int64Words, List.length_take, Nat.min_eq_left hscratch]

/-- Where the sections of an image begin, counted in words. -/
structure Sections (cfg : RuntimeConfig) (words : List UInt32) (capacity scratch : Nat) :
    Prop where
  header : Holds words 0 (headerWords cfg capacity cfg.allEventNumTriggers.length)
  triggers : Holds words 16 (int32Words cfg.allEventNumTriggers)
  tasks : Holds words (16 + cfg.allEventNumTriggers.length)
    ((cfg.allTasks.take capacity).flatMap TaskDesc.words)
  events : Holds words (16 + cfg.allEventNumTriggers.length + 144 * capacity)
    (cfg.allEvents.flatMap EventDesc.words)
  counts : Holds words (16 + 5 * cfg.allEventNumTriggers.length + 144 * capacity)
    (int32Words cfg.taskIndexNum.toList)
  cube : Holds words (20 + 5 * cfg.allEventNumTriggers.length + 144 * capacity)
    (int32Words (cfg.cubeTaskIndices.take capacity))
  vector : Holds words (20 + 5 * cfg.allEventNumTriggers.length + 145 * capacity)
    (int32Words (cfg.vectorTaskIndices.take capacity))
  mix : Holds words (20 + 5 * cfg.allEventNumTriggers.length + 146 * capacity)
    (int32Words (cfg.mixTaskIndices.take capacity))
  dynamic : Holds words (20 + 5 * cfg.allEventNumTriggers.length + 147 * capacity)
    cfg.dynamicData.words
  atomics : Holds words (24 + 5 * cfg.allEventNumTriggers.length + 147 * capacity + 2 * scratch)
    (int32Words cfg.atomicAddValues.toList)

theorem sections_imageWords (hcovers : CoversTasks cfg capacity)
    (hevents : cfg.allEvents.length = cfg.allEventNumTriggers.length)
    (hscratch : scratch ≤ cfg.groupedMatmulGroupList.length) :
    Sections cfg (imageWords cfg capacity cfg.allEventNumTriggers.length scratch) capacity
      scratch := by
  have hevent : (cfg.allEvents.flatMap EventDesc.words).length
      = 4 * cfg.allEventNumTriggers.length := by
    rw [length_flatMap EventDesc.length_words, hevents]
  have lengths : (imageSections cfg capacity cfg.allEventNumTriggers.length scratch).map
      List.length = [16, cfg.allEventNumTriggers.length, 144 * capacity,
        4 * cfg.allEventNumTriggers.length, 4, capacity, capacity, capacity, 4, 2 * scratch,
        8] := by
    simp only [imageSections, List.map_cons, List.map_nil, length_headerWords,
      length_taskWords hcovers.tasks_le, hevent, length_take_int32Words hcovers.cube_le,
      length_take_int32Words hcovers.vector_le, length_take_int32Words hcovers.mix_le,
      DynamicData.length_words, length_groupWords hscratch, length_int32Words, Vector.length_toList]
  have place : ∀ (i : Nat) {start : Nat} {part : List UInt32},
      (imageSections cfg capacity cfg.allEventNumTriggers.length scratch)[i]? = some part →
      start = (([16, cfg.allEventNumTriggers.length, 144 * capacity,
        4 * cfg.allEventNumTriggers.length, 4, capacity, capacity, capacity, 4, 2 * scratch,
        8] : List Nat).take i).sum →
      Holds (imageWords cfg capacity cfg.allEventNumTriggers.length scratch) start part := by
    intro i start part hpart hstart
    rw [hstart, ← lengths, ← List.map_take, ← List.length_flatten]
    exact holds_flatten hpart
  constructor
  case header => exact place 0 rfl rfl
  case triggers => exact place 1 rfl rfl
  case tasks => exact place 2 rfl rfl
  case events => exact place 3 rfl (by simp [Nat.add_assoc])
  case counts => exact place 4 rfl (by simp; omega)
  case cube => exact place 5 rfl (by simp; omega)
  case vector => exact place 6 rfl (by simp; omega)
  case mix => exact place 7 rfl (by simp; omega)
  case dynamic => exact place 8 rfl (by simp; omega)
  case atomics => exact place 10 rfl (by simp; omega)

theorem Serialized.sections (h : Serialized cfg image capacity scratch) :
    Sections cfg (imageWords cfg capacity cfg.allEventNumTriggers.length scratch) capacity
      scratch :=
  sections_imageWords h.covers h.events h.scratch_le

end Sections

/-! ### Offsets of the device -/

namespace Device

section Offsets

variable {cfg : RuntimeConfig} {image : List UInt8} {capacity scratch : Nat}
  (h : Serialized cfg image capacity scratch)

include h

theorem size_lt : 128 + cfg.allEventNumTriggers.length * 20 + capacity * 588 + scratch * 8
    < 2 ^ 32 := by
  obtain ⟨size, hfits, -⟩ := h.fits
  have hsize := hfits.size_eq
  have hlt := hfits.size_lt
  simp only [runtimeFixedBytes, runtimeHeaderBytes, dynamicDataSize, atomicAddValueLen,
    taskDescSize] at hsize
  omega

theorem readHeader {j : Nat} (hj : j < 16) :
    readWord image (4 * j) = (headerWords cfg capacity cfg.allEventNumTriggers.length)[j] := by
  have hread := h.sections.header.readWord (j := j) hj
  rw [h.image_eq]
  simpa using hread

theorem toNat_taskCapacity : (getRuntimeTaskCapacity image).toNat = capacity := by
  have hsize := size_lt h
  rw [getRuntimeTaskCapacity, show 2 * 4 = 4 * 2 by rfl, readHeader h (by decide)]
  exact UInt32.toNat_ofNat_of_lt' (by
    show capacity < 2 ^ 32
    omega)

theorem toNat_eventCapacity :
    (getRuntimeEventCapacity image).toNat = cfg.allEventNumTriggers.length := by
  have hsize := size_lt h
  rw [getRuntimeEventCapacity, show 3 * 4 = 4 * 3 by rfl, readHeader h (by decide)]
  exact UInt32.toNat_ofNat_of_lt' (by
    show cfg.allEventNumTriggers.length < 2 ^ 32
    omega)

theorem toNat_allTasksOffset :
    (getAllTasksOffset image).toNat = 4 * (16 + cfg.allEventNumTriggers.length) := by
  have hsize := size_lt h
  simp only [getAllTasksOffset, getAllEventNumTriggersOffset, UInt32.toNat_add, UInt32.toNat_mul,
    toNat_eventCapacity h, UInt32.reduceToNat]
  omega

theorem toNat_allEventsOffset : (getAllEventsOffset image).toNat
    = 4 * (16 + cfg.allEventNumTriggers.length + 144 * capacity) := by
  have hsize := size_lt h
  have hdesc : taskDescBytes.toNat = 576 := rfl
  simp only [getAllEventsOffset, UInt32.toNat_add, UInt32.toNat_mul, toNat_allTasksOffset h,
    toNat_taskCapacity h, hdesc]
  omega

theorem toNat_taskIndexNumOffset : (getTaskIndexNumOffset image).toNat
    = 4 * (16 + 5 * cfg.allEventNumTriggers.length + 144 * capacity) := by
  have hsize := size_lt h
  simp only [getTaskIndexNumOffset, UInt32.toNat_add, UInt32.toNat_mul, toNat_allEventsOffset h,
    toNat_eventCapacity h, UInt32.reduceToNat]
  omega

theorem toNat_cubeTaskIndexsOffset : (getCubeTaskIndexsOffset image).toNat
    = 4 * (20 + 5 * cfg.allEventNumTriggers.length + 144 * capacity) := by
  have hsize := size_lt h
  have hfour : (4 * 4 : UInt32).toNat = 16 := rfl
  simp only [getCubeTaskIndexsOffset, UInt32.toNat_add, toNat_taskIndexNumOffset h, hfour]
  omega

theorem toNat_vectorTaskIndexsOffset : (getVectorTaskIndexsOffset image).toNat
    = 4 * (20 + 5 * cfg.allEventNumTriggers.length + 145 * capacity) := by
  have hsize := size_lt h
  simp only [getVectorTaskIndexsOffset, UInt32.toNat_add, UInt32.toNat_mul,
    toNat_cubeTaskIndexsOffset h, toNat_taskCapacity h, UInt32.reduceToNat]
  omega

theorem toNat_mixTaskIndexsOffset : (getMixTaskIndexsOffset image).toNat
    = 4 * (20 + 5 * cfg.allEventNumTriggers.length + 146 * capacity) := by
  have hsize := size_lt h
  simp only [getMixTaskIndexsOffset, UInt32.toNat_add, UInt32.toNat_mul,
    toNat_vectorTaskIndexsOffset h, toNat_taskCapacity h, UInt32.reduceToNat]
  omega

theorem toNat_dynamicDataOffset : (getDynamicDataOffset image).toNat
    = 4 * (20 + 5 * cfg.allEventNumTriggers.length + 147 * capacity) := by
  have hsize := size_lt h
  simp only [getDynamicDataOffset, UInt32.toNat_add, UInt32.toNat_mul,
    toNat_mixTaskIndexsOffset h, toNat_taskCapacity h, UInt32.reduceToNat]
  omega

theorem toNat_groupListOffset : (getGroupedMatmulGroupListOffset image).toNat
    = 4 * (24 + 5 * cfg.allEventNumTriggers.length + 147 * capacity) := by
  have hsize := size_lt h
  have hfour : (4 * 4 : UInt32).toNat = 16 := rfl
  simp only [getGroupedMatmulGroupListOffset, UInt32.toNat_add, toNat_dynamicDataOffset h, hfour]
  omega

theorem dynamicGroupSize_eq : getDynamicGroupSize image = cfg.dynamicData.dynamicGroupSize := by
  rw [getDynamicGroupSize, toNat_dynamicDataOffset h, h.image_eq, show 2 * 4 = 4 * 2 by rfl]
  exact h.sections.dynamic.readWord (j := 2) (by simp)

theorem groupListStride_eq : getGroupedMatmulGroupListStride image
    = 128 * ((max 1 cfg.dynamicData.dynamicGroupSize.toNat + 15) / 16) := by
  simp only [getGroupedMatmulGroupListStride, dynamicGroupSize_eq h, groupListCacheLineBytes]
  split
  · rename_i hzero
    rw [hzero]
    rfl
  · omega

theorem scratch_eq : scratch
    = max 512 (24 * (16 * ((max 1 cfg.dynamicData.dynamicGroupSize.toNat + 15) / 16)) + 16) := by
  obtain ⟨size, hfits, -⟩ := h.fits
  have hscratch := hfits.scratch_eq
  unfold groupedMatmulGroupListCapacity at hscratch
  split at hscratch
  · have hvalue := Except.ok.inj hscratch
    simp only [groupListCacheLineBytes, minGroupListCapacity, numWorkersCube] at hvalue
    omega
  · cases hscratch

theorem groupListBytes_eq : getGroupedMatmulGroupListBytes image = 8 * scratch := by
  have hstride := groupListStride_eq h
  have hscratch := scratch_eq h
  simp only [getGroupedMatmulGroupListBytes, numWorkersCube, groupListCacheLineBytes,
    minGroupListCapacity, hstride]
  split_ifs <;> omega

theorem toNat_atomicAddValuesOffset : (getAtomicAddValuesOffset image).toNat
    = 4 * (24 + 5 * cfg.allEventNumTriggers.length + 147 * capacity + 2 * scratch) := by
  have hsize := size_lt h
  have hbytes : (UInt32.ofNat (getGroupedMatmulGroupListBytes image)).toNat = 8 * scratch := by
    rw [groupListBytes_eq h]
    exact UInt32.toNat_ofNat_of_lt' (by
      show 8 * scratch < 2 ^ 32
      omega)
  simp only [getAtomicAddValuesOffset, UInt32.toNat_add, toNat_groupListOffset h, hbytes]
  omega

end Offsets

/-! ### What the device reads -/

theorem tensorWords_dim (t : TensorDesc) (j : Fin 4) : t.words[2 + j.val]? = some t.dim[j] := by
  rw [TensorDesc.words, List.append_assoc, List.append_assoc,
    List.getElem?_append_right (by simp), List.getElem?_append_left (by simp)]
  simp

theorem tensorWords_stride (t : TensorDesc) (j : Fin 4) :
    t.words[6 + j.val]? = some t.stride[j] := by
  have hindex : 6 + j.val - 2 - 4 = j.val := by omega
  rw [TensorDesc.words, List.append_assoc, List.append_assoc,
    List.getElem?_append_right (by simp; omega), List.getElem?_append_right (by simp; omega),
    List.getElem?_append_left (by simp; omega)]
  simp [hindex]

theorem tensorWords_tail (t : TensorDesc) (j : Nat) :
    t.words[10 + j]? = [t.dataType, t.inputPosition, t.basePtrOffset, t.transposeFlag,
      t.dynamicShape, t.dynamicDim][j]? := by
  rw [TensorDesc.words, List.getElem?_append_right (by simp)]
  congr 1
  simp

theorem getTensorDesc_eq {words : List UInt32} {k : Nat} {t : TensorDesc}
    (h : Holds words k t.words) : getTensorDesc (encode words) (4 * k) = t := by
  have hread : ∀ {j : Nat} {word : UInt32}, t.words[j]? = some word →
      readWord (encode words) (4 * k + 4 * j) = word := h.readWord_of_getElem?
  have tail : ∀ {j : Nat} {word : UInt32}, [t.dataType, t.inputPosition, t.basePtrOffset,
      t.transposeFlag, t.dynamicShape, t.dynamicDim][j]? = some word →
      readWord (encode words) (4 * k + 4 * (10 + j)) = word :=
    fun hj => hread ((tensorWords_tail t _).trans hj)
  apply TensorDesc.ext
  case tensorType => exact hread (j := 0) rfl
  case numDims => exact hread (j := 1) rfl
  case dim =>
    apply Vector.ext
    intro j hj
    have := hread (tensorWords_dim t ⟨j, hj⟩)
    rw [Nat.mul_add, ← Nat.add_assoc] at this
    simpa [getTensorDesc] using this
  case stride =>
    apply Vector.ext
    intro j hj
    have := hread (tensorWords_stride t ⟨j, hj⟩)
    rw [Nat.mul_add, ← Nat.add_assoc] at this
    simpa [getTensorDesc] using this
  case dataType => exact tail (j := 0) rfl
  case inputPosition => exact tail (j := 1) rfl
  case basePtrOffset => exact tail (j := 2) rfl
  case transposeFlag => exact tail (j := 3) rfl
  case dynamicShape => exact tail (j := 4) rfl
  case dynamicDim => exact tail (j := 5) rfl

theorem getTensors_eq {words : List UInt32} {k : Nat} {tensors : Vector TensorDesc 4}
    (h : Holds words k (tensors.toList.flatMap TensorDesc.words)) :
    (Vector.ofFn fun i : Fin 4 => getTensorDesc (encode words) (4 * k + 64 * i.val)) = tensors := by
  apply Vector.ext
  intro i hi
  have hrecord : Holds (tensors.toList.flatMap TensorDesc.words) (16 * i) (tensors[i]).words :=
    holds_flatMap TensorDesc.length_words (by simp [hi])
  have := getTensorDesc_eq (h.trans hrecord)
  rw [Nat.mul_add, ← Nat.mul_assoc] at this
  simpa using this

theorem taskWords_section (task : TaskDesc) {i start : Nat} {part : List UInt32}
    (hpart : task.wordSections[i]? = some part)
    (hstart : (([6, 64, 64, 10] : List Nat).take i).sum = start) :
    Holds task.words start part := by
  have lengths : task.wordSections.map List.length = [6, 64, 64, 10] := by
    simp only [TaskDesc.wordSections, List.map_cons, List.map_nil, length_tensorWords]
    rfl
  rw [← hstart, ← lengths, ← List.map_take, ← List.length_flatten]
  exact holds_flatten hpart

section Fields

variable {words : List UInt32} {k : Nat} {task : TaskDesc} (h : Holds words k task.words)
include h

theorem readTaskHead {j : Nat} {word : UInt32}
    (hj : [task.taskType, task.taskAicoreType, task.numInputs, task.numOutputs,
      task.triggerEvent, task.dependentEvent][j]? = some word) :
    readWord (encode words) (4 * k + 4 * j) = word :=
  (h.trans (taskWords_section task (i := 0) rfl rfl)).readWord_of_getElem? hj

theorem readTaskTail {j : Nat} {word : UInt32}
    (hj : [task.tilingDataPosition, task.tilingDataOffset, task.taskIndex, task.taskSplitNum,
      task.taskSplitValue, task.extraValue0, task.extraValue1, task.extraValue2,
      task.profileDescId, task.profileOwnerId][j]? = some word) :
    readWord (encode words) (4 * k + 536 + 4 * j) = word := by
  have := (h.trans (taskWords_section task (i := 3) rfl rfl)).readWord_of_getElem? hj
  rwa [Nat.mul_add] at this

end Fields

section Sections

variable {cfg : RuntimeConfig} {image : List UInt8} {capacity scratch : Nat}
  (h : Serialized cfg image capacity scratch)
include h

theorem getTaskDesc_eq {i : Nat} {task : TaskDesc} (hi : i < capacity)
    (htask : cfg.allTasks[i]? = some task) : getTaskDesc image (UInt32.ofNat i) = task := by
  have hsize := size_lt h
  have hrecord : Holds (imageWords cfg capacity cfg.allEventNumTriggers.length scratch)
      (16 + cfg.allEventNumTriggers.length + 144 * i) task.words :=
    h.sections.tasks.trans
      (holds_flatMap TaskDesc.length_words (by rw [List.getElem?_take_of_lt hi, htask]))
  have hstart : (getAllTasksOffset image + UInt32.ofNat i * taskDescBytes).toNat
      = 4 * (16 + cfg.allEventNumTriggers.length + 144 * i) := by
    have hindex : (UInt32.ofNat i).toNat = i :=
      UInt32.toNat_ofNat_of_lt' (by
        show i < 2 ^ 32
        omega)
    have hdesc : taskDescBytes.toNat = 576 := rfl
    simp only [UInt32.toNat_add, UInt32.toNat_mul, toNat_allTasksOffset h, hindex, hdesc]
    omega
  have hinputs := getTensors_eq (hrecord.trans (taskWords_section task (i := 1) rfl rfl))
  have houtputs := getTensors_eq (hrecord.trans (taskWords_section task (i := 2) rfl rfl))
  rw [Nat.mul_add] at hinputs houtputs
  have head := @readTaskHead _ _ _ hrecord
  have tail := @readTaskTail _ _ _ hrecord
  rw [← h.image_eq] at hinputs houtputs head tail
  unfold getTaskDesc
  rw [hstart]
  apply TaskDesc.ext
  case taskType => exact head (j := 0) rfl
  case taskAicoreType => exact head (j := 1) rfl
  case numInputs => exact head (j := 2) rfl
  case numOutputs => exact head (j := 3) rfl
  case triggerEvent => exact head (j := 4) rfl
  case dependentEvent => exact head (j := 5) rfl
  case inputs => exact hinputs
  case outputs => exact houtputs
  case tilingDataPosition => exact tail (j := 0) rfl
  case tilingDataOffset => exact tail (j := 1) rfl
  case taskIndex => exact tail (j := 2) rfl
  case taskSplitNum => exact tail (j := 3) rfl
  case taskSplitValue => exact tail (j := 4) rfl
  case extraValue0 => exact tail (j := 5) rfl
  case extraValue1 => exact tail (j := 6) rfl
  case extraValue2 => exact tail (j := 7) rfl
  case profileDescId => exact tail (j := 8) rfl
  case profileOwnerId => exact tail (j := 9) rfl

theorem getEventDesc_eq {i : Nat} {event : EventDesc} (hi : cfg.allEvents[i]? = some event) :
    getEventDesc image (UInt32.ofNat i) = event := by
  have hsize := size_lt h
  have hlt : i < cfg.allEventNumTriggers.length := by
    rw [← h.events]
    exact (List.getElem?_eq_some_iff.mp hi).1
  have hrecord := h.sections.events.trans (holds_flatMap EventDesc.length_words hi)
  have hstart : (getAllEventsOffset image + UInt32.ofNat i * 4 * 4).toNat
      = 4 * (16 + cfg.allEventNumTriggers.length + 144 * capacity + 4 * i) := by
    have hindex : (UInt32.ofNat i).toNat = i :=
      UInt32.toNat_ofNat_of_lt' (by
        show i < 2 ^ 32
        omega)
    simp only [UInt32.toNat_add, UInt32.toNat_mul, toNat_allEventsOffset h, hindex,
      UInt32.reduceToNat]
    omega
  have hread : ∀ {j : Nat} {word : UInt32}, event.words[j]? = some word → readWord image
      (4 * (16 + cfg.allEventNumTriggers.length + 144 * capacity + 4 * i) + 4 * j) = word := by
    rw [h.image_eq]
    exact hrecord.readWord_of_getElem?
  unfold getEventDesc
  rw [hstart]
  apply EventDesc.ext
  case eventType => exact hread (j := 0) rfl
  case numTriggers => exact hread (j := 1) rfl
  case firstTaskId => exact hread (j := 2) rfl
  case lastTaskId => exact hread (j := 3) rfl

theorem getDynamicData_eq : getDynamicData image = cfg.dynamicData := by
  have hread : ∀ {j : Nat} {word : UInt32}, cfg.dynamicData.words[j]? = some word →
      readWord image
        (4 * (20 + 5 * cfg.allEventNumTriggers.length + 147 * capacity) + 4 * j) = word := by
    rw [h.image_eq]
    exact h.sections.dynamic.readWord_of_getElem?
  unfold getDynamicData
  rw [toNat_dynamicDataOffset h]
  apply DynamicData.ext
  case dynamicType => exact hread (j := 0) rfl
  case dynamicInputPosition => exact hread (j := 1) rfl
  case dynamicGroupSize => exact hread (j := 2) rfl
  case dynamicMaxSeqLen =>
    have := hread (j := 3) rfl
    exact (congrArg UInt32.toInt32 this).trans (Int32.toInt32_toUInt32 _)

theorem readInt32 {start j : Nat} {values : List Int32} {value : Int32}
    (hsection : Holds (imageWords cfg capacity cfg.allEventNumTriggers.length scratch) start
      (int32Words values)) (hj : values[j]? = some value) :
    (readWord image (4 * start + 4 * j)).toInt32 = value := by
  have hword : (int32Words values)[j]? = some value.toUInt32 := by
    rw [int32Words, List.getElem?_map, hj, Option.map_some]
  rw [h.image_eq, hsection.readWord_of_getElem? hword]
  exact Int32.toInt32_toUInt32 _

end Sections

end Device

end HyperParallel.Multicore
