import Mathlib.Order.Interval.Set.Disjoint
import HyperParallel.Multicore.RuntimeReading
import Mathlib.Order.CompletePartialOrder

/-!
# Reading an image back, and the scratch of the Cube workers

A serialized image reads back field by field.  The scratch section is sized for
a fixed number of Cube workers; the region of a worker is computed from its id,
so the workers own disjoint regions inside the section only while there are few
enough of them.
-/

namespace HyperParallel.Multicore

open Foundation Foundation.WordImage List

namespace Device

/-- The getters of the device return what the host configuration holds. -/
structure ReadsBack (cfg : RuntimeConfig) (image : List UInt8) (capacity : Nat) : Prop where
  taskNum : getTaskNum image = cfg.taskNum
  numWorkers : getNumWorkers image = cfg.numWorkers
  taskCapacity : (getRuntimeTaskCapacity image).toNat = capacity
  eventCapacity : (getRuntimeEventCapacity image).toNat = cfg.allEventNumTriggers.length
  readyEvent : getReadyEvent image = cfg.readyEvent
  diagnosticMode : getDiagnosticMode image = cfg.diagnosticMode
  aicProfile : getAicProfileRecordCapacity image = cfg.aicProfileRecordCapacity
  aivProfile : getAivProfileRecordCapacity image = cfg.aivProfileRecordCapacity
  completionEvent : getCompletionEvent image = cfg.completionEvent
  protocolVersion : getProtocolVersion image = cfg.protocolVersion
  triggers : ∀ (i : Nat) (value : Int32), cfg.allEventNumTriggers[i]? = some value →
    (readWord image (getAllEventNumTriggersOffset.toNat + 4 * i)).toInt32 = value
  descriptors : ∀ i < capacity, cfg.allTasks[i]? = some (getTaskDesc image (UInt32.ofNat i))
  events : ∀ (i : Nat) (event : EventDesc), cfg.allEvents[i]? = some event →
    getEventDesc image (UInt32.ofNat i) = event
  counts : ∀ kind : Fin 3, getTaskIndexNum image kind = cfg.taskIndexNum.get kind.castSucc
  cube : ∀ i < capacity, cfg.cubeTaskIndices[i]?
    = some (readWord image ((getCubeTaskIndexsOffset image).toNat + 4 * i)).toInt32
  vector : ∀ i < capacity, cfg.vectorTaskIndices[i]?
    = some (readWord image ((getVectorTaskIndexsOffset image).toNat + 4 * i)).toInt32
  mix : ∀ i < capacity, cfg.mixTaskIndices[i]?
    = some (readWord image ((getMixTaskIndexsOffset image).toNat + 4 * i)).toInt32
  dynamicData : getDynamicData image = cfg.dynamicData
  atomics : ∀ i : Fin 8, (readWord image ((getAtomicAddValuesOffset image).toNat
    + 4 * i.val)).toInt32 = cfg.atomicAddValues.get i
  queued : CoversTasks cfg capacity

section Image

variable {cfg : RuntimeConfig} {image : List UInt8} {capacity scratch : Nat}
  (h : Serialized cfg image capacity scratch)
include h

theorem readQueue {start i : Nat} {indices : List Int32} (hcapacity : capacity ≤ indices.length)
    (hsection : Holds (imageWords cfg capacity cfg.allEventNumTriggers.length scratch) start
      (int32Words (indices.take capacity))) (hi : i < capacity) :
    indices[i]? = some (readWord image (4 * start + 4 * i)).toInt32 := by
  have hlt : i < indices.length := by omega
  have hvalue : (indices.take capacity)[i]? = some indices[i] := by
    rw [getElem?_take_of_lt hi, getElem?_eq_getElem hlt]
  rw [readInt32 h hsection hvalue, getElem?_eq_getElem hlt]

theorem readsBack : ReadsBack cfg image capacity := by
  have hheader : ∀ {j : Nat} {word : UInt32},
      (headerWords cfg capacity cfg.allEventNumTriggers.length)[j]? = some word →
      readWord image (4 * j) = word := by
    intro j word hj
    obtain ⟨hlt, rfl⟩ := List.getElem?_eq_some_iff.mp hj
    exact readHeader h hlt
  have hcovers := h.covers
  have hsections := h.sections
  constructor
  case taskNum => exact hheader (j := 0) rfl
  case numWorkers => exact hheader (j := 1) rfl
  case taskCapacity => exact toNat_taskCapacity h
  case eventCapacity => exact toNat_eventCapacity h
  case readyEvent => exact hheader (j := 4) rfl
  case diagnosticMode => exact hheader (j := 5) rfl
  case aicProfile => exact hheader (j := 6) rfl
  case aivProfile => exact hheader (j := 7) rfl
  case completionEvent => exact hheader (j := 8) rfl
  case protocolVersion => exact hheader (j := 9) rfl
  case triggers => exact fun i value hi => readInt32 h hsections.triggers hi
  case descriptors =>
    intro i hi
    have hlt : i < cfg.allTasks.length := hi.trans_le hcovers.tasks_le
    rw [getTaskDesc_eq h hi (getElem?_eq_getElem hlt), getElem?_eq_getElem hlt]
  case events => exact fun i event hi => getEventDesc_eq h hi
  case counts =>
    intro kind
    have hcount : cfg.taskIndexNum.toList[kind.val]? = some (cfg.taskIndexNum.get kind.castSucc) := by
      rw [getElem?_eq_getElem (by simp; omega)]
      rfl
    have hread := readInt32 h hsections.counts hcount
    rw [← toNat_taskIndexNumOffset h] at hread
    exact hread
  case cube =>
    intro i hi
    rw [toNat_cubeTaskIndexsOffset h]
    exact readQueue h hcovers.cube_le hsections.cube hi
  case vector =>
    intro i hi
    rw [toNat_vectorTaskIndexsOffset h]
    exact readQueue h hcovers.vector_le hsections.vector hi
  case mix =>
    intro i hi
    rw [toNat_mixTaskIndexsOffset h]
    exact readQueue h hcovers.mix_le hsections.mix hi
  case dynamicData => exact getDynamicData_eq h
  case atomics =>
    intro i
    have hvalue : cfg.atomicAddValues.toList[i.val]? = some (cfg.atomicAddValues.get i) := by
      rw [getElem?_eq_getElem (by simp)]
      rfl
    rw [toNat_atomicAddValuesOffset h]
    exact readInt32 h hsections.atomics hvalue
  case queued => exact hcovers

theorem isRuntimeTailValid_image :
    isRuntimeTailValid image image.length cfg.dynamicData.dynamicGroupSize.toNat = true := by
  obtain ⟨size, hfits, hlength⟩ := h.fits
  have hsize := hfits.size_eq
  have hlt := hfits.size_lt
  simp only [runtimeFixedBytes, runtimeHeaderBytes, dynamicDataSize, atomicAddValueLen,
    taskDescSize] at hsize
  simp only [isRuntimeTailValid, toNat_taskCapacity h, toNat_eventCapacity h, groupListBytes_eq h,
    dynamicGroupSize_eq h, eventDescSize, taskDescSize, dynamicDataSize, atomicAddValueLen, hlength]
  rw [if_neg (by omega), if_neg (by simp)]
  simp only [Bool.and_eq_true, decide_eq_true_eq]
  omega

end Image

/-! ### Regions of the group-list section -/

def regionStart (image : List UInt8) (worker : Nat) : Nat :=
  (getGroupedMatmulGroupListOffsetById image (UInt32.ofNat worker)).toNat

def region (image : List UInt8) (worker : Nat) : Set Nat :=
  Set.Ico (regionStart image worker)
    (regionStart image worker + getGroupedMatmulGroupListStride image)

def groupListSection (image : List UInt8) : Set Nat :=
  Set.Ico (getGroupedMatmulGroupListOffset image).toNat (getAtomicAddValuesOffset image).toNat

structure Isolated (image : List UInt8) (numCores : Nat) : Prop where
  inside : ∀ worker < numCores, region image worker ⊆ groupListSection image
  disjoint : ∀ worker < numCores, ∀ other < numCores, worker ≠ other →
    Disjoint (region image worker) (region image other)

def cacheLines (localExperts : Nat) : Nat := (max 1 localExperts + 15) / 16

section Regions

variable {cfg : RuntimeConfig} {image : List UInt8} {capacity scratch : Nat}
  (h : Serialized cfg image capacity scratch)
include h

/-- The first address of the section, and the first cache line boundary behind it:
the section never begins on one. -/
theorem exists_aligned : ∃ aligned,
    ((getGroupedMatmulGroupListOffset image + 128 - 1) / 128 * 128).toNat = aligned ∧
    (getGroupedMatmulGroupListOffset image).toNat + 32 ≤ aligned ∧
    aligned ≤ (getGroupedMatmulGroupListOffset image).toNat + 96 := by
  obtain ⟨size, hfits, -⟩ := h.fits
  have htask := hfits.task_aligned
  have hevent := hfits.event_aligned
  have hsize := size_lt h
  have hscratch := scratch_eq h
  have hoffset := toNat_groupListOffset h
  have hline : (128 : UInt32).toNat = 128 := rfl
  have hadd : (getGroupedMatmulGroupListOffset image + 128).toNat
      = (getGroupedMatmulGroupListOffset image).toNat + 128 := by
    rw [UInt32.toNat_add, hline]
    omega
  have hsub : (getGroupedMatmulGroupListOffset image + 128 - 1).toNat
      = (getGroupedMatmulGroupListOffset image).toNat + 127 := by
    rw [UInt32.toNat_sub_of_le _ _ (by rw [UInt32.le_iff_toNat_le, hadd]; simp), hadd]
    simp
  -- both capacities are multiples of 16, which fixes the offset up to 64 bytes
  obtain ⟨k, hk⟩ : ∃ k, (getGroupedMatmulGroupListOffset image).toNat = 96 + 64 * k :=
    ⟨5 * (cfg.allEventNumTriggers.length / 16) + 147 * (capacity / 16), by omega⟩
  have hround : 96 + 64 * k + 32 ≤ (96 + 64 * k + 127) / 128 * 128 ∧
      (96 + 64 * k + 127) / 128 * 128 ≤ 96 + 64 * k + 96 := by
    rcases Nat.mod_two_eq_zero_or_one k with hparity | hparity <;> omega
  refine ⟨_, rfl, ?_⟩
  rw [UInt32.toNat_mul, UInt32.toNat_div, hsub, hline, hk, Nat.mod_eq_of_lt (by omega)]
  exact hround

omit h in
theorem cacheLines_pos (cfg : RuntimeConfig) : 1 ≤ cacheLines cfg.dynamicData.dynamicGroupSize.toNat := by
  unfold cacheLines
  omega

theorem section_lines : 2 * scratch
    = 32 * max 32 (24 * cacheLines cfg.dynamicData.dynamicGroupSize.toNat + 1) := by
  have hscratch := scratch_eq h
  unfold cacheLines
  omega

theorem regionStart_eq {worker aligned : Nat}
    (haligned : ((getGroupedMatmulGroupListOffset image + 128 - 1) / 128 * 128).toNat = aligned)
    (hle : aligned ≤ (getGroupedMatmulGroupListOffset image).toNat + 96)
    (hroom : cacheLines cfg.dynamicData.dynamicGroupSize.toNat * worker
      ≤ max 31 (24 * cacheLines cfg.dynamicData.dynamicGroupSize.toNat)) :
    regionStart image worker
      = aligned + 128 * (cacheLines cfg.dynamicData.dynamicGroupSize.toNat * worker) := by
  have hsize := size_lt h
  have hlines := section_lines h
  have hpos := cacheLines_pos cfg
  have hoffset := toNat_groupListOffset h
  have hstride := groupListStride_eq h
  change getGroupedMatmulGroupListStride image
    = 128 * cacheLines cfg.dynamicData.dynamicGroupSize.toNat at hstride
  have hworker : worker ≤ cacheLines cfg.dynamicData.dynamicGroupSize.toNat * worker :=
    Nat.le_mul_of_pos_left worker hpos
  have hid : (UInt32.ofNat worker).toNat = worker :=
    UInt32.toNat_ofNat_of_lt' (by
      show worker < 2 ^ 32
      omega)
  have hbytes : (UInt32.ofNat (getGroupedMatmulGroupListStride image)).toNat
      = 128 * cacheLines cfg.dynamicData.dynamicGroupSize.toNat := by
    rw [hstride]
    exact UInt32.toNat_ofNat_of_lt' (by
      show 128 * cacheLines cfg.dynamicData.dynamicGroupSize.toNat < 2 ^ 32
      omega)
  unfold regionStart getGroupedMatmulGroupListOffsetById
  simp only [UInt32.toNat_add, UInt32.toNat_mul (_ : UInt32) (UInt32.ofNat worker), haligned, hid,
    hbytes, Nat.mul_assoc]
  omega

theorem groupListSection_eq : groupListSection image
    = Set.Ico (getGroupedMatmulGroupListOffset image).toNat
      ((getGroupedMatmulGroupListOffset image).toNat + 8 * scratch) := by
  rw [groupListSection, toNat_atomicAddValuesOffset h, toNat_groupListOffset h]
  congr 1
  omega

theorem region_eq {worker aligned : Nat}
    (haligned : ((getGroupedMatmulGroupListOffset image + 128 - 1) / 128 * 128).toNat = aligned)
    (hle : aligned ≤ (getGroupedMatmulGroupListOffset image).toNat + 96)
    (hroom : cacheLines cfg.dynamicData.dynamicGroupSize.toNat * worker
      ≤ max 31 (24 * cacheLines cfg.dynamicData.dynamicGroupSize.toNat)) :
    region image worker
      = Set.Ico (aligned + 128 * (cacheLines cfg.dynamicData.dynamicGroupSize.toNat * worker))
        (aligned + 128 * (cacheLines cfg.dynamicData.dynamicGroupSize.toNat * (worker + 1))) := by
  have hstride := groupListStride_eq h
  change getGroupedMatmulGroupListStride image
    = 128 * cacheLines cfg.dynamicData.dynamicGroupSize.toNat at hstride
  rw [region, regionStart_eq h haligned hle hroom, hstride, Nat.mul_succ, Nat.mul_add 128,
    Nat.add_assoc]

theorem isolated_of_few {numCores : Nat}
    (hfew : numCores ≤ 24 ∨ numCores * cacheLines cfg.dynamicData.dynamicGroupSize.toNat ≤ 31) :
    Isolated image numCores := by
  obtain ⟨aligned, haligned, hlow, hle⟩ := exists_aligned h
  have hlines := section_lines h
  have hregionEq := fun worker => @region_eq _ _ _ _ h worker _ haligned hle
  generalize cacheLines cfg.dynamicData.dynamicGroupSize.toNat = lines at *
  -- the region of a participating worker ends within the lines of the section
  have hend : ∀ worker < numCores, lines * (worker + 1) ≤ max 31 (24 * lines) := by
    intro worker hworker
    have hmul : lines * (worker + 1) ≤ lines * numCores := Nat.mul_le_mul_left lines hworker
    rcases hfew with hfew | hfew
    · have := Nat.mul_le_mul_left lines hfew
      omega
    · rw [Nat.mul_comm numCores] at hfew
      omega
  have hregion : ∀ worker < numCores, region image worker
      = Set.Ico (aligned + 128 * (lines * worker)) (aligned + 128 * (lines * (worker + 1))) := by
    intro worker hworker
    have hend := hend worker hworker
    exact hregionEq worker (by
      rw [Nat.mul_succ] at hend
      omega)
  constructor
  case inside =>
    intro worker hworker
    have hend := hend worker hworker
    rw [hregion worker hworker, groupListSection_eq h]
    exact Set.Ico_subset_Ico (by omega) (by omega)
  case disjoint =>
    have hordered : ∀ worker other, worker < other → other < numCores →
        Disjoint (region image worker) (region image other) := by
      intro worker other hlt hother
      rw [hregion worker (by omega), hregion other hother]
      have hmul : lines * (worker + 1) ≤ lines * other := Nat.mul_le_mul_left lines hlt
      exact Set.Ico_disjoint_Ico.mpr (by omega)
    intro worker hworker other hother hne
    rcases Nat.lt_or_gt_of_ne hne with hlt | hlt
    · exact hordered worker other hlt hother
    · exact (hordered other worker hlt hworker).symm

theorem few_of_isolated {numCores : Nat} (hisolated : Isolated image numCores) :
    numCores ≤ 24 ∨ numCores * cacheLines cfg.dynamicData.dynamicGroupSize.toNat ≤ 31 := by
  obtain ⟨aligned, haligned, hlow, hle⟩ := exists_aligned h
  have hlines := section_lines h
  have hpos := cacheLines_pos cfg
  have hregionEq := fun worker => @region_eq _ _ _ _ h worker _ haligned hle
  generalize cacheLines cfg.dynamicData.dynamicGroupSize.toNat = lines at *
  by_contra hmany
  push Not at hmany
  let first := max 24 (31 / lines)
  have hfirst : first < numCores := by
    apply max_lt hmany.1
    exact (Nat.div_lt_iff_lt_mul hpos).mpr hmany.2
  have hroom : lines * first ≤ max 31 (24 * lines) := by
    rcases max_choice 24 (31 / lines) with heq | heq
    · rw [show first = 24 from heq]
      omega
    · rw [show first = 31 / lines from heq]
      have := Nat.mul_div_le 31 lines
      omega
  have hbeyond : max 32 (25 * lines) ≤ lines * (first + 1) := by
    have hdiv : lines * (31 / lines + 1) ≤ lines * (first + 1) :=
      Nat.mul_le_mul_left lines (Nat.succ_le_succ (Nat.le_max_right ..))
    have hfixed : lines * (24 + 1) ≤ lines * (first + 1) :=
      Nat.mul_le_mul_left lines (Nat.succ_le_succ (Nat.le_max_left ..))
    have := Nat.lt_mul_div_succ 31 hpos
    omega
  have hinside := hisolated.inside first hfirst
  rw [hregionEq first hroom, groupListSection_eq h,
    Set.Ico_subset_Ico_iff (by rw [Nat.mul_succ]; omega)] at hinside
  omega

end Regions

end Device

end HyperParallel.Multicore
