import HyperParallel.Multicore.GroupListRegions
import HyperParallel.Multicore.MoeGraphs

/-!
# The image of a built configuration on the device

What a rank builds is validated, so its image reads back with the group size of
the topology.  Nothing bounds the number of Cube cores: past the capacity of the
scratch the regions leave their section.
-/

namespace HyperParallel.Multicore

open Foundation Foundation.FixedWidth
open Foundation.WordImage

section Built

variable {pass : Pass} {sizes : GraphSizes} {tsv : TaskSplitValue} {rankId : Nat}

variable {cfg : RuntimeConfig}

theorem groupSize_of_validate {numCubeCores : Nat}
    (h : validateRuntimeConfig cfg tsv numCubeCores = .ok ()) :
    cfg.dynamicData.dynamicGroupSize.toNat = tsv.singleRankExpertNum := by
  unfold validateRuntimeConfig at h
  split at h
  · cases h
  split at h
  · cases h
  split at h
  · cases h
  obtain ⟨⟨⟩, -, h⟩ := bind_eq_ok h
  split at h
  · cases h
  · rename_i hsize
    exact not_not.mp hsize

theorem finishConfig_of_build
    (h : buildConfigForRank pass sizes tsv rankId = .ok cfg) :
    ∃ (queued : RuntimeConfig) (taskNum : Nat) (position : UInt32),
      finishConfig tsv sizes.numCubeCores queued taskNum position = .ok cfg := by
  cases pass with
  | forward =>
    obtain ⟨ops, -, h⟩ := bind_eq_ok h
    obtain ⟨filled, -, h⟩ := bind_eq_ok h
    obtain ⟨_, -, h⟩ := bind_eq_ok h
    obtain ⟨_, -, h⟩ := bind_eq_ok h
    obtain ⟨_, -, h⟩ := bind_eq_ok h
    obtain ⟨_, -, h⟩ := bind_eq_ok h
    obtain ⟨queued, -, h⟩ := bind_eq_ok h
    exact ⟨queued, _, _, h⟩
  | backward =>
    obtain ⟨ops, -, h⟩ := bind_eq_ok h
    obtain ⟨filled, -, h⟩ := bind_eq_ok h
    obtain ⟨_, -, h⟩ := bind_eq_ok h
    obtain ⟨_, -, h⟩ := bind_eq_ok h
    obtain ⟨_, -, h⟩ := bind_eq_ok h
    obtain ⟨_, -, h⟩ := bind_eq_ok h
    obtain ⟨_, -, h⟩ := bind_eq_ok h
    obtain ⟨_, -, h⟩ := bind_eq_ok h
    obtain ⟨_, -, h⟩ := bind_eq_ok h
    obtain ⟨_, -, h⟩ := bind_eq_ok h
    obtain ⟨queued, -, h⟩ := bind_eq_ok h
    exact ⟨queued, _, _, h⟩

theorem validated_of_build
    (h : buildConfigForRank pass sizes tsv rankId = .ok cfg) :
    validateRuntimeConfig cfg tsv sizes.numCubeCores = .ok () := by
  obtain ⟨queued, taskNum, position, hfinish⟩ := finishConfig_of_build h
  obtain ⟨ready, -, hfinish⟩ := bind_eq_ok hfinish
  obtain ⟨⟨⟩, hvalid, hfinish⟩ := bind_eq_ok hfinish
  cases hfinish
  exact hvalid

end Built

def wordCount (cfg : RuntimeConfig) (capacity scratch : Nat) : Nat :=
  32 + cfg.allEventNumTriggers.length + 144 * (cfg.allTasks.take capacity).length +
    4 * cfg.allEvents.length + (cfg.cubeTaskIndices.take capacity).length +
    (cfg.vectorTaskIndices.take capacity).length + (cfg.mixTaskIndices.take capacity).length +
    2 * (cfg.groupedMatmulGroupList.take scratch).length

theorem length_encode_image (cfg : RuntimeConfig) (capacity eventCapacity scratch : Nat) :
    (encode (imageWords cfg capacity eventCapacity scratch)).length =
      4 * wordCount cfg capacity scratch := by
  rw [encode, length_flatMap (fun _ => length_littleEndian 4 _), imageWords, imageSections,
    wordCount]
  simp only [List.flatten_cons, List.flatten_nil, List.length_append, List.length_nil,
    length_headerWords, length_int32Words, length_flatMap TaskDesc.length_words,
    length_flatMap EventDesc.length_words, length_flatMap length_int64Words,
    DynamicData.length_words, Vector.length_toList]
  omega

/-- What the serialization asks of a configuration, without its bytes. -/
def checkImage (cfg : RuntimeConfig) : Except ConfigError Unit := do
  let capacity ← runtimeConfigTaskCapacity cfg
  let groups := cfg.dynamicData.dynamicGroupSize.toNat
  let scratch ← groupedMatmulGroupListCapacity groups
  let size ← runtimeConfigSerializedSize capacity cfg.allEventNumTriggers.length groups
  if cfg.allEvents.length = cfg.allEventNumTriggers.length ∧
      scratch ≤ cfg.groupedMatmulGroupList.length ∧ 4 * wordCount cfg capacity scratch = size then
    .ok ()
  else .error .serializedSize

theorem serialize_of_checkImage {cfg : RuntimeConfig} (h : checkImage cfg = .ok ()) :
    ∃ image, serializeRuntimeConfig cfg = .ok image := by
  obtain ⟨capacity, hcapacity, h⟩ := bind_eq_ok h
  obtain ⟨scratch, hscratch, h⟩ := bind_eq_ok h
  obtain ⟨size, hsize, h⟩ := bind_eq_ok h
  split at h
  · rename_i hfits
    refine ⟨encode (imageWords cfg capacity cfg.allEventNumTriggers.length scratch), ?_⟩
    rw [serializeRuntimeConfig, hcapacity]
    change (if _ then _ else _) = _
    rw [if_neg (not_not.mpr hfits.1), hscratch]
    change (if _ then _ else _) = _
    rw [if_neg (Nat.not_lt.mpr hfits.2.1), hsize]
    change (if _ then _ else _) = _
    rw [if_neg (not_not.mpr ((length_encode_image ..).trans hfits.2.2))]
    rfl
  · cases h

namespace Device

theorem image_reads_back_iff (pass : Pass) (sizes : GraphSizes) (tsv : TaskSplitValue)
    (rankId : Nat) {cfg : RuntimeConfig} {image : List UInt8}
    (hbuild : buildConfigForRank pass sizes tsv rankId = .ok cfg)
    (himage : serializeRuntimeConfig cfg = .ok image) :
    ((∃ capacity, runtimeConfigTaskCapacity cfg = .ok capacity ∧ ReadsBack cfg image capacity) ∧
        isRuntimeTailValid image image.length tsv.singleRankExpertNum = true ∧
        Isolated image sizes.numCubeCores) ↔
      sizes.numCubeCores ≤ 24 ∨ sizes.numCubeCores * cacheLines tsv.singleRankExpertNum ≤ 31 := by
  obtain ⟨capacity, scratch, hserialized⟩ := serialized_of_ok himage
  have hgroup := groupSize_of_validate (validated_of_build hbuild)
  rw [← hgroup]
  constructor
  · rintro ⟨-, -, hisolated⟩
    exact few_of_isolated hserialized hisolated
  · intro hfew
    exact ⟨⟨capacity, hserialized.capacity_eq, readsBack hserialized⟩,
      isRuntimeTailValid_image hserialized, isolated_of_few hserialized hfew⟩

def manyCores : GraphSizes := { numCubeCores := 32 }

def fewCores : GraphSizes := { numCubeCores := 2 }

def oneExpert : TaskSplitValue :=
  { tp := 1, ep := 1, seqSize := 256, allExpertNum := 1, topK := 1, dispatchMode := .push }

theorem build_oneExpert {sizes : GraphSizes}
    (h : (buildConfigForRank .forward sizes oneExpert 0 >>= checkImage).isOk = true) :
    ∃ cfg image, buildConfigForRank .forward sizes oneExpert 0 = .ok cfg ∧
      serializeRuntimeConfig cfg = .ok image := by
  cases hresult : buildConfigForRank .forward sizes oneExpert 0 >>= checkImage with
  | error e =>
    rw [hresult] at h
    cases h
  | ok _ =>
    obtain ⟨cfg, hcfg, hcheck⟩ := bind_eq_ok hresult
    obtain ⟨image, himage⟩ := serialize_of_checkImage hcheck
    exact ⟨cfg, image, hcfg, himage⟩

theorem image_reads_back_two_cores : ∃ cfg image,
    buildConfigForRank .forward fewCores oneExpert 0 = .ok cfg ∧
    serializeRuntimeConfig cfg = .ok image ∧ Isolated image 2 := by
  obtain ⟨cfg, image, hbuild, himage⟩ := @build_oneExpert fewCores (by decide +kernel)
  have hreads := (image_reads_back_iff .forward fewCores oneExpert 0 hbuild himage).mpr
    (Or.inl (by decide))
  exact ⟨cfg, image, hbuild, himage, hreads.2.2⟩

theorem regions_leave_section : ¬∀ (pass : Pass) (sizes : GraphSizes) (tsv : TaskSplitValue)
    (rankId : Nat) (cfg : RuntimeConfig) (image : List UInt8),
    buildConfigForRank pass sizes tsv rankId = .ok cfg → serializeRuntimeConfig cfg = .ok image →
    (∃ capacity, runtimeConfigTaskCapacity cfg = .ok capacity ∧ ReadsBack cfg image capacity) ∧
      isRuntimeTailValid image image.length tsv.singleRankExpertNum = true ∧
      Isolated image sizes.numCubeCores := by
  intro hall
  obtain ⟨cfg, image, hbuild, himage⟩ := @build_oneExpert manyCores (by decide +kernel)
  have hisolated := (hall .forward manyCores oneExpert 0 cfg image hbuild himage).2.2
  obtain ⟨capacity, scratch, hserialized⟩ := serialized_of_ok himage
  have hfew := few_of_isolated hserialized hisolated
  rw [groupSize_of_validate (validated_of_build hbuild)] at hfew
  revert hfew
  decide

end Device

end HyperParallel.Multicore
