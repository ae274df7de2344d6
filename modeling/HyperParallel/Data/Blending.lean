import HyperParallel.Foundation.PySequence
import Mathlib.Algebra.BigOperators.Ring.List
import Mathlib.Algebra.Order.BigOperators.Group.List
import Mathlib.Data.List.GetD
import Mathlib.Data.Rat.Floor

/-!
# Blends of several sources

Every source of a blend is assigned its share of the samples, rounded up.  The
schedule of the blend gives each sample to the source that is furthest behind
its weight.  The weights are taken as exact rationals.
-/

namespace HyperParallel.Data

open Foundation List

inductive BlendMode where
  | no
  | inter
  | intra
deriving DecidableEq, Repr

inductive BlendError where
  | lengthMismatch
  | tooManyDatasets
  | weightsNotPositive
  | tooManyWeights
  | notEnoughSamples (dataset available requested : Nat)
deriving DecidableEq, Repr

def normalizeWeights (weights : List ℚ) : List ℚ := weights.map (· / weights.sum)

def getWeightsAndSizesForBlend (weights : List ℚ) (targets : List Nat) (blendMode : BlendMode)
    (datasetMargin : ℚ) : List ℚ × List (List Nat) :=
  match blendMode with
  | .no =>
    let normalized := normalizeWeights weights
    (normalized, normalized.map fun weight => targets.map fun target : Nat =>
      ⌈(target : ℚ) * weight * datasetMargin⌉.toNat)
  | _ =>
    (weights, weights.map fun _ => targets.map fun target : Nat =>
      ⌈(target : ℚ) / (weights.length : ℚ)⌉.toNat)

def blendedSize (sizesPerDataset : List (List Nat)) (split : Nat) : Nat :=
  (sizesPerDataset.map fun sizes => sizes.getD split 0).sum

def samplingError (weights : List ℚ) (samplePosition : ℚ) (currentSamples : List Nat)
    (dataset : Nat) : ℚ :=
  weights.getD dataset 0 * samplePosition - (currentSamples.getD dataset 0 : ℚ)

/-- The source furthest behind, the first of several. -/
def maximumErrorIndex (weights : List ℚ) (samplePosition : ℚ) (currentSamples : List Nat) : Nat :=
  ((List.range' 1 (weights.length - 1)).foldl (fun best dataset =>
    let error := samplingError weights samplePosition currentSamples dataset
    if best.1 < error then (error, dataset) else best)
      (samplingError weights samplePosition currentSamples 0, 0)).2

structure BlendState where
  currentSamples : List Nat
  entries : List (Nat × Nat)
deriving DecidableEq, Repr

def blendStep (weights : List ℚ) (state : BlendState) (sampleIndex : Nat) : BlendState :=
  let samplePosition := max (sampleIndex : ℚ) 1
  let dataset := maximumErrorIndex weights samplePosition state.currentSamples
  let used := state.currentSamples.getD dataset 0
  ⟨state.currentSamples.set dataset (used + 1), state.entries ++ [(dataset, used)]⟩

def blendRun (weights : List ℚ) (size : Nat) : BlendState :=
  (List.range size).foldl (blendStep weights) ⟨List.replicate weights.length 0, []⟩

/-- Dataset ids have 16 bits. -/
def buildBlendingIndices (weights : List ℚ) (size : Nat) : Except BlendError (List (Nat × Nat)) :=
  if weights.length = 0 ∨ 32768 < weights.length then .error .tooManyWeights
  else .ok (blendRun weights size).entries

/-- `np.bincount(dataset_index, minlength=len(datasets))`. -/
def requestedCounts (entries : List (Nat × Nat)) (datasets : Nat) : List Nat :=
  (List.range datasets).map fun dataset => entries.countP fun entry => entry.1 = dataset

def checkCounts (datasets : List Nat) (counts : List Nat) : Except BlendError Unit :=
  (counts.zip datasets).zipIdx.forM fun entry =>
    if entry.1.2 < entry.1.1 then .error (.notEnoughSamples entry.2 entry.1.2 entry.1.1) else .ok ()

def blendedDataset (datasets : List Nat) (weights : List ℚ) (size : Nat) :
    Except BlendError (List (Nat × Nat)) :=
  if datasets = [] ∨ datasets.length ≠ weights.length then .error .lengthMismatch
  else if 32767 ≤ datasets.length then .error .tooManyDatasets
  else if weights.any (· ≤ 0) then .error .weightsNotPositive
  else do
    let entries ← buildBlendingIndices (normalizeWeights weights) size
    checkCounts datasets (requestedCounts entries datasets.length)
    .ok entries

/-! ## The schedule -/

section Schedule

variable {weights : List ℚ}

theorem samplingError_le_maximum (samplePosition : ℚ) (currentSamples : List Nat)
    (hne : weights ≠ []) :
    maximumErrorIndex weights samplePosition currentSamples < weights.length ∧
      ∀ dataset < weights.length, samplingError weights samplePosition currentSamples dataset ≤
        samplingError weights samplePosition currentSamples
          (maximumErrorIndex weights samplePosition currentSamples) := by
  have hlen : 0 < weights.length := length_pos_iff.mpr hne
  -- after the sources below `1 + n`, the best of them and its error are known
  have hscan : ∀ n, n < weights.length →
      let best := (List.range' 1 n).foldl (fun best dataset =>
        let error := samplingError weights samplePosition currentSamples dataset
        if best.1 < error then (error, dataset) else best)
          (samplingError weights samplePosition currentSamples 0, 0)
      best.1 = samplingError weights samplePosition currentSamples best.2 ∧ best.2 ≤ n ∧
        ∀ dataset ≤ n, samplingError weights samplePosition currentSamples dataset ≤ best.1 := by
    intro n
    induction n with
    | zero =>
      intro _
      refine ⟨rfl, le_rfl, fun dataset hdataset => ?_⟩
      obtain rfl : dataset = 0 := by omega
      exact le_rfl
    | succ n ih =>
      intro hn
      obtain ⟨herror, hindex, hmax⟩ := ih (by omega)
      rw [List.range'_concat, foldl_append]
      generalize (List.range' 1 n).foldl _ _ = best at herror hindex hmax ⊢
      simp only [foldl_cons, foldl_nil, Nat.one_mul]
      split
      · rename_i hlt
        refine ⟨rfl, by omega, fun dataset hdataset => ?_⟩
        rcases Nat.lt_or_ge n dataset with hnew | hold
        · obtain rfl : dataset = 1 + n := by omega
          exact le_rfl
        · exact (hmax dataset hold).trans hlt.le
      · rename_i hge
        refine ⟨herror, by omega, fun dataset hdataset => ?_⟩
        rcases Nat.lt_or_ge n dataset with hnew | hold
        · obtain rfl : dataset = 1 + n := by omega
          exact not_lt.mp hge
        · exact hmax dataset hold
  obtain ⟨herror, hindex, hmax⟩ := hscan (weights.length - 1) (by omega)
  refine ⟨?_, fun dataset hdataset => ?_⟩
  · exact lt_of_le_of_lt hindex (by omega)
  · rw [maximumErrorIndex, ← herror]
    exact hmax dataset (by omega)

theorem sum_samplingError (samplePosition : ℚ) {currentSamples : List Nat}
    (hlen : currentSamples.length = weights.length) :
    ((range weights.length).map
        (samplingError weights samplePosition currentSamples)).sum =
      weights.sum * samplePosition - (currentSamples.sum : ℚ) := by
  induction weights generalizing currentSamples with
  | nil =>
    obtain rfl := length_eq_zero_iff.mp hlen
    simp
  | cons weight weights ih =>
    cases currentSamples with
    | nil => simp at hlen
    | cons used currentSamples =>
      have hrest := ih (Nat.succ.inj hlen)
      rw [length_cons, range_succ_eq_map, map_cons, map_map, sum_cons]
      have hshift : (samplingError (weight :: weights) samplePosition (used :: currentSamples)) ∘
          Nat.succ = samplingError weights samplePosition currentSamples := by
        funext dataset
        simp [samplingError]
      rw [hshift, hrest]
      simp only [samplingError, getD_cons_zero, sum_cons, Nat.cast_add]
      ring

theorem samplingError_maximum_nonneg {samplePosition : ℚ} {currentSamples : List Nat}
    (hlen : currentSamples.length = weights.length) (hne : weights ≠ [])
    (hsum : (currentSamples.sum : ℚ) ≤ weights.sum * samplePosition) :
    0 ≤ samplingError weights samplePosition currentSamples
      (maximumErrorIndex weights samplePosition currentSamples) := by
  by_contra hneg
  rw [not_le] at hneg
  obtain ⟨hlt, hmax⟩ := samplingError_le_maximum samplePosition currentSamples hne
  have htotal := sum_samplingError samplePosition hlen
  have hle : ((range weights.length).map
      (samplingError weights samplePosition currentSamples)).sum ≤
        (range weights.length).length • samplingError weights samplePosition currentSamples
          (maximumErrorIndex weights samplePosition currentSamples) := by
    rw [← length_map (samplingError weights samplePosition currentSamples)]
    refine sum_le_card_nsmul _ _ fun error herror => ?_
    obtain ⟨dataset, hdataset, rfl⟩ := mem_map.mp herror
    exact hmax dataset (mem_range.mp hdataset)
  have hpos : 0 < (range weights.length).length := by
    rw [length_range]
    exact length_pos_iff.mpr hne
  have hsmul := nsmul_neg hneg hpos.ne'
  linarith

/-- The state before sample `step`, with no source beyond what it was assigned. -/
structure BlendState.Within (weights : List ℚ) (assigned : List Nat) (step : Nat)
    (state : BlendState) : Prop where
  length_eq : state.currentSamples.length = weights.length
  sum_eq : state.currentSamples.sum = step
  counts : ∀ dataset, (state.entries.countP fun entry => entry.1 = dataset) =
    state.currentSamples.getD dataset 0
  within : ∀ dataset, state.currentSamples.getD dataset 0 ≤ assigned.getD dataset 0

theorem sum_set_succ {samples : List Nat} {dataset : Nat} (h : dataset < samples.length) :
    (samples.set dataset (samples.getD dataset 0 + 1)).sum = samples.sum + 1 := by
  induction samples generalizing dataset with
  | nil => simp at h
  | cons used samples ih =>
    cases dataset with
    | zero =>
      simp only [set_cons_zero, getD_cons_zero, sum_cons]
      omega
    | succ dataset =>
      have hrest := ih (Nat.lt_of_succ_lt_succ h)
      simp only [set_cons_succ, getD_cons_succ, sum_cons, hrest]
      omega

theorem getD_set_succ {samples : List Nat} {dataset : Nat} (h : dataset < samples.length)
    (used other : Nat) :
    (samples.set dataset used).getD other 0 =
      if other = dataset then used else samples.getD other 0 := by
  rw [getD_eq_getElem?_getD, getElem?_set]
  split
  · rename_i heq
    subst heq
    simp
  · rename_i hne
    rw [if_neg (Ne.symm hne), getD_eq_getElem?_getD]

/--
The total, which the rounding up has inflated, outgrows no source: at its last sample every
source is still short of what it was assigned.
-/
def TotalFits (weights : List ℚ) (assigned : List Nat) (size : Nat) : Prop :=
  ∀ dataset < weights.length,
    weights.getD dataset 0 * ((size : ℚ) - 1) < (assigned.getD dataset 0 : ℚ)

variable {assigned : List Nat} {size : Nat}

theorem BlendState.Within.lt_assigned {step : Nat} {state : BlendState}
    (h : state.Within weights assigned step) (hne : weights ≠ []) (hsum : weights.sum = 1)
    (hpos : ∀ dataset, 0 ≤ weights.getD dataset 0) (hstep : step < size)
    (hfits : TotalFits weights assigned size) :
    let dataset := maximumErrorIndex weights (max (step : ℚ) 1) state.currentSamples
    state.currentSamples.getD dataset 0 < assigned.getD dataset 0 := by
  intro dataset
  obtain ⟨hlt, -⟩ := samplingError_le_maximum (max (step : ℚ) 1) state.currentSamples hne
  have hsize : (step : ℚ) ≤ (size : ℚ) - 1 := by
    have hcast : ((step + 1 : Nat) : ℚ) ≤ (size : ℚ) := Nat.cast_le.mpr hstep
    push_cast at hcast
    linarith
  have hfit := hfits dataset hlt
  by_contra hfull
  have hfull : (assigned.getD dataset 0 : ℚ) ≤ (state.currentSamples.getD dataset 0 : ℚ) :=
    Nat.cast_le.mpr (not_lt.mp hfull)
  rcases Nat.eq_zero_or_pos step with rfl | hstart
  · -- nothing is handed out yet, so the source was assigned nothing
    have hnone : state.currentSamples.getD dataset 0 = 0 := by
      have hle := le_sum_of_mem (getElem_mem (h.length_eq ▸ hlt))
      rw [h.sum_eq] at hle
      rw [getD_eq_getElem _ _ (h.length_eq ▸ hlt)]
      exact Nat.le_zero.mp hle
    rw [hnone, Nat.cast_zero] at hfull
    have hnonneg := mul_nonneg (hpos dataset) (le_trans (Nat.cast_nonneg 0) hsize)
    linarith
  · have hone : (1 : ℚ) ≤ (step : ℚ) := by
      have hcast : ((1 : Nat) : ℚ) ≤ (step : ℚ) := Nat.cast_le.mpr hstart
      simpa using hcast
    have hbehind : 0 ≤ samplingError weights (max (step : ℚ) 1) state.currentSamples dataset := by
      apply samplingError_maximum_nonneg h.length_eq hne
      rw [h.sum_eq, hsum, one_mul]
      exact le_max_left _ _
    rw [samplingError, max_eq_left hone] at hbehind
    have hshare := mul_le_mul_of_nonneg_left hsize (hpos dataset)
    linarith

theorem BlendState.Within.step {step : Nat} {state : BlendState}
    (h : state.Within weights assigned step) (hne : weights ≠ []) (hsum : weights.sum = 1)
    (hpos : ∀ dataset, 0 ≤ weights.getD dataset 0) (hstep : step < size)
    (hfits : TotalFits weights assigned size) :
    (blendStep weights state step).Within weights assigned (step + 1) := by
  obtain ⟨hlt, -⟩ := samplingError_le_maximum (max (step : ℚ) 1) state.currentSamples hne
  have hchosen := h.lt_assigned hne hsum hpos hstep hfits
  generalize hdataset : maximumErrorIndex weights (max (step : ℚ) 1) state.currentSamples = dataset
    at hlt hchosen
  have hin : dataset < state.currentSamples.length := h.length_eq ▸ hlt
  simp only [blendStep, hdataset]
  constructor
  · rw [length_set, h.length_eq]
  · rw [sum_set_succ hin, h.sum_eq]
  · intro other
    rw [countP_append, h.counts, getD_set_succ hin]
    by_cases hother : other = dataset
    · subst hother
      simp
    · rw [if_neg hother, countP_cons_of_neg (by simpa using Ne.symm hother)]
      simp
  · intro other
    rw [getD_set_succ hin]
    split
    · rename_i heq
      subst heq
      exact hchosen
    · exact h.within other

theorem blendRun_within (hne : weights ≠ []) (hsum : weights.sum = 1)
    (hpos : ∀ dataset, 0 ≤ weights.getD dataset 0)
    (hfits : TotalFits weights assigned size) :
    (blendRun weights size).Within weights assigned size := by
  have hprefix : ∀ step ≤ size, ((range step).foldl (blendStep weights)
      ⟨replicate weights.length 0, []⟩).Within weights assigned step := by
    intro step
    induction step with
    | zero =>
      intro _
      refine ⟨by simp, by simp, fun dataset => ?_, fun dataset => ?_⟩
      · simp only [range_zero, foldl_nil, countP_nil]
        rw [getD_eq_getElem?_getD, getElem?_replicate]
        split <;> rfl
      · simp only [range_zero, foldl_nil]
        rw [getD_eq_getElem?_getD, getElem?_replicate]
        split <;> simp
    | succ step ih =>
      intro hstep
      rw [range_succ, foldl_append]
      exact (ih (by omega)).step hne hsum hpos hstep hfits
  exact hprefix size le_rfl

end Schedule

/-! ## A planned blend -/

def assignedSizes (weights : List ℚ) (targets : List Nat) (datasetMargin : ℚ) (split : Nat) :
    List Nat :=
  (getWeightsAndSizesForBlend weights targets .no datasetMargin).2.map fun sizes =>
    sizes.getD split 0

def plannedBlend (weights : List ℚ) (targets : List Nat) (datasetMargin : ℚ) (split : Nat)
    (datasets : List Nat) : Except BlendError (List (Nat × Nat)) :=
  let plan := getWeightsAndSizesForBlend weights targets .no datasetMargin
  blendedDataset datasets plan.1 (blendedSize plan.2 split)

def BlendBuilds (weights : List ℚ) (targets : List Nat) (datasetMargin : ℚ) (split : Nat)
    (datasets : List Nat) : Prop :=
  ∃ entries, plannedBlend weights targets datasetMargin split datasets = .ok entries ∧
    ∀ dataset, (entries.countP fun entry => entry.1 = dataset) ≤
      (assignedSizes weights targets datasetMargin split).getD dataset 0

theorem sum_normalizeWeights {weights : List ℚ} (hne : weights ≠ [])
    (hpos : ∀ weight ∈ weights, 0 < weight) : (normalizeWeights weights).sum = 1 := by
  have hsum : 0 < weights.sum := sum_pos _ hpos hne
  simp only [normalizeWeights, div_eq_mul_inv]
  rw [sum_map_mul_right, map_id', mul_inv_cancel₀ hsum.ne']

theorem normalizeWeights_pos {weights : List ℚ} (hpos : ∀ weight ∈ weights, 0 < weight) :
    ∀ weight ∈ normalizeWeights weights, 0 < weight := by
  intro weight hweight
  obtain ⟨old, hold, rfl⟩ := mem_map.mp hweight
  exact div_pos (hpos old hold) (sum_pos _ hpos (ne_nil_of_mem hold))

theorem normalizeWeights_of_sum {weights : List ℚ} (h : weights.sum = 1) :
    normalizeWeights weights = weights := by
  simp [normalizeWeights, h]

theorem checkCounts_ok {datasets counts : List Nat}
    (h : ∀ dataset < datasets.length, counts.getD dataset 0 ≤ datasets.getD dataset 0) :
    checkCounts datasets counts = .ok () := by
  refine forM_eq_ok fun entry hentry => ?_
  obtain ⟨⟨count, available⟩, dataset⟩ := entry
  have hzip := mem_zipIdx_iff_getElem?.mp hentry
  rw [getElem?_zip_eq_some] at hzip
  obtain ⟨hcount, havailable⟩ := hzip
  have hdataset : dataset < datasets.length := (List.getElem?_eq_some_iff.mp havailable).1
  have hle := h dataset hdataset
  rw [getD_eq_getElem?_getD, getD_eq_getElem?_getD] at hle
  dsimp only at hcount havailable
  rw [hcount, havailable, Option.getD_some, Option.getD_some] at hle
  exact if_neg (not_lt.mpr hle)

end HyperParallel.Data
