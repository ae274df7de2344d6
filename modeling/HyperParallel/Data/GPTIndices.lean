import HyperParallel.Data.SampleCut
import HyperParallel.Foundation.FloatRound
import Mathlib.Algebra.Group.Action.Defs

/-!
# Indices of a token dataset

Documents are repeated for as many epochs as the requested samples need, and
shuffled; samples are cut from their tokens, and shuffled.  A final epoch of
which few samples are needed is kept apart in both.
-/

namespace HyperParallel.Data

open Foundation List

variable {τ σ : Type}

/-! ## Epochs -/

def epochLoop (numTokensPerEpoch requestedTokens : Nat) (hpos : 1 < numTokensPerEpoch)
    (numEpochs accumulatedTokens : Nat) : Nat :=
  if accumulatedTokens < requestedTokens then
    epochLoop numTokensPerEpoch requestedTokens hpos (numEpochs + 1)
      (accumulatedTokens + numTokensPerEpoch)
  else numEpochs
termination_by requestedTokens - accumulatedTokens

/-- `int(0.80 * samples_per_epoch)`, where `0.80` is the double next to it. -/
def thresholdSamples (samplesPerEpoch : Nat) : Nat :=
  FloatRound.roundToEven 53 (3602879701896397 * FloatRound.roundToEven 53 samplesPerEpoch) / 2 ^ 52

structure EpochPlan where
  numEpochs : Nat
  separateFinalEpoch : Bool
  samplesWithoutFinalEpoch : Int
deriving DecidableEq, Repr

def planEpochs (numTokensPerEpoch numSamples sequenceLength : Nat) (addExtra : Bool)
    (hpos : 1 < numTokensPerEpoch) : EpochPlan :=
  let extraToken := extraTokens addExtra
  let numEpochs := epochLoop numTokensPerEpoch (numSamples * sequenceLength + extraToken) hpos 0 0
  if numEpochs = 1 then ⟨numEpochs, false, 0⟩
  else
    let samplesWithoutFinalEpoch : Int :=
      (((numEpochs : Int) - 1) * numTokensPerEpoch - extraToken) / sequenceLength
    let samplesFromFinalEpoch := numSamples - samplesWithoutFinalEpoch
    let samplesPerEpoch := (numTokensPerEpoch - extraToken) / sequenceLength
    ⟨numEpochs, samplesFromFinalEpoch < thresholdSamples samplesPerEpoch, samplesWithoutFinalEpoch⟩

/-! ## Shuffled indices -/

section Shuffled

variable (shuffle : σ → List Int → List Int × σ)

def shuffleEpochs (documents : List Nat) (numEpochs : Nat) (randomState : σ) : List Int × σ :=
  shuffle randomState ((List.replicate numEpochs (documents.map Nat.cast)).flatten)

def buildDocumentIndex (documents : List Nat) (numEpochs : Nat) (randomState : σ)
    (separateFinalEpoch : Bool) : List Int × σ :=
  if !separateFinalEpoch || numEpochs = 1 then shuffleEpochs shuffle documents numEpochs randomState
  else
    let firstEpochs := shuffleEpochs shuffle documents (numEpochs - 1) randomState
    let finalEpoch := shuffleEpochs shuffle documents 1 firstEpochs.2
    (firstEpochs.1 ++ finalEpoch.1, finalEpoch.2)

/-- `numpy.arange` -/
def arange (start stop : Int) : List Int :=
  (List.range (stop - start).toNat).map fun i => start + (i : Nat)

def buildShuffleIndex (numSamples : Int) (totalSize : Nat) (randomState : σ) : List Int × σ :=
  let firstRange := shuffle randomState (arange 0 numSamples)
  if numSamples = totalSize then firstRange
  else
    let finalRange := shuffle firstRange.2 (arange numSamples totalSize)
    (firstRange.1 ++ finalRange.1, finalRange.2)

end Shuffled

/-! ## The dataset -/

structure GPTDataset.Config (τ : Type) where
  sequenceLength : Nat
  /-- Checked when the configuration is made. -/
  sequenceLength_pos : 0 < sequenceLength
  addExtraTokenToSequence : Bool
  dropLastPartialValidationSequence : Bool
  padTokenId : τ

structure GPTDataset (τ : Type) where
  config : GPTDataset.Config τ
  sequences : List (List τ)
  indices : List Nat
  numSamples : Nat
  validSplit : Bool

structure GPTIndices where
  documentIndex : List Int
  sampleIndex : List (Nat × Int)
  shuffleIndex : List Int
deriving DecidableEq, Repr

namespace GPTDataset

/-- Training and test samples are always whole. -/
def dropLastPartialSequence (dataset : GPTDataset τ) : Bool :=
  if dataset.validSplit then dataset.config.dropLastPartialValidationSequence else true

def numTokensPerEpoch (dataset : GPTDataset τ) : Nat :=
  (dataset.indices.map fun documentId => (dataset.sequences[documentId]?.getD []).length).sum

def plan (dataset : GPTDataset τ) (hpos : 1 < dataset.numTokensPerEpoch) : EpochPlan :=
  planEpochs dataset.numTokensPerEpoch dataset.numSamples dataset.config.sequenceLength
    dataset.config.addExtraTokenToSequence hpos

def buildDocumentSampleShuffleIndices (shuffle : σ → List Int → List Int × σ) (randomState : σ)
    (dataset : GPTDataset τ) : Except String GPTIndices :=
  if dataset.indices.any fun documentId => dataset.sequences.length ≤ documentId then
    .error "index is out of bounds"
  else if hpos : 1 < dataset.numTokensPerEpoch then do
    let plan := dataset.plan hpos
    let (documentIndex, randomState) :=
      buildDocumentIndex shuffle dataset.indices plan.numEpochs randomState plan.separateFinalEpoch
    let sampleIndex ← buildSampleIdx (dataset.sequences.map fun sequence => (sequence.length : Int))
      documentIndex dataset.config.sequenceLength plan.numEpochs dataset.numTokensPerEpoch
      dataset.dropLastPartialSequence dataset.config.addExtraTokenToSequence
    let numSamples : Int := if plan.separateFinalEpoch then plan.samplesWithoutFinalEpoch
      else (sampleIndex.length - 1 : Nat)
    let (shuffleIndex, _) := buildShuffleIndex shuffle numSamples (sampleIndex.length - 1) randomState
    return ⟨documentIndex, sampleIndex, shuffleIndex⟩
  else .error "The selected indexed split must contain at least two tokens"

def queryDocumentSampleShuffleIndices (dataset : GPTDataset τ) (indices : GPTIndices)
    (index : Int) : Except String (TokenSample τ) :=
  match pyGet? indices.shuffleIndex index with
  | none => .error "index is out of bounds"
  | some shuffledIndex =>
    assembleSample (readRange dataset.sequences) indices.documentIndex indices.sampleIndex
      dataset.config.sequenceLength dataset.config.addExtraTokenToSequence
      dataset.config.padTokenId shuffledIndex

end GPTDataset

/-! ## Epochs are enough, and few of the last one -/

theorem le_epochLoop {numTokensPerEpoch requestedTokens numEpochs accumulatedTokens : Nat}
    (hpos : 1 < numTokensPerEpoch) (h : accumulatedTokens = numEpochs * numTokensPerEpoch) :
    requestedTokens ≤
      epochLoop numTokensPerEpoch requestedTokens hpos numEpochs accumulatedTokens *
        numTokensPerEpoch := by
  fun_induction epochLoop numTokensPerEpoch requestedTokens hpos numEpochs accumulatedTokens with
  | case1 numEpochs accumulatedTokens _ ih => exact ih (by rw [h, Nat.succ_mul])
  | case2 numEpochs accumulatedTokens henough => omega

theorem thresholdSamples_le (samplesPerEpoch : Nat) :
    thresholdSamples samplesPerEpoch ≤ samplesPerEpoch := by
  have hinner := @FloatRound.roundToEven_le 53 (by decide) samplesPerEpoch
  have houter := @FloatRound.roundToEven_le 53 (by decide)
    (3602879701896397 * FloatRound.roundToEven 53 samplesPerEpoch)
  rw [thresholdSamples]
  omega

section Plan

variable {numTokensPerEpoch numSamples sequenceLength : Nat} {addExtra : Bool}
  {hpos : 1 < numTokensPerEpoch}

theorem planEpochs_covers :
    numSamples * sequenceLength + extraTokens addExtra ≤
      (planEpochs numTokensPerEpoch numSamples sequenceLength addExtra hpos).numEpochs *
        numTokensPerEpoch := by
  have henough : numSamples * sequenceLength + extraTokens addExtra ≤ _ :=
    le_epochLoop hpos (Nat.zero_mul numTokensPerEpoch).symm
  rw [planEpochs]
  split
  · rename_i hone
    rwa [hone] at henough ⊢
  · exact henough

theorem planEpochs_separate (hlength : 0 < sequenceLength)
    (h : (planEpochs numTokensPerEpoch numSamples sequenceLength addExtra
      hpos).separateFinalEpoch = true) :
    2 ≤ (planEpochs numTokensPerEpoch numSamples sequenceLength addExtra hpos).numEpochs ∧
      (planEpochs numTokensPerEpoch numSamples sequenceLength addExtra
          hpos).samplesWithoutFinalEpoch =
        ((((planEpochs numTokensPerEpoch numSamples sequenceLength addExtra hpos).numEpochs - 1) *
          numTokensPerEpoch - extraTokens addExtra) / sequenceLength : Nat) := by
  have henough := @planEpochs_covers numTokensPerEpoch numSamples sequenceLength addExtra hpos
  rw [planEpochs] at h henough ⊢
  split
  · rename_i hone
    rw [if_pos hone] at h
    cases h
  · rename_i hone
    rw [if_neg hone] at h henough
    dsimp only at h henough ⊢
    revert h henough hone
    generalize epochLoop numTokensPerEpoch
      (numSamples * sequenceLength + extraTokens addExtra) hpos 0 0 = numEpochs
    intro h henough hone
    rw [decide_eq_true_iff] at h
    have htwo : 2 ≤ numEpochs := by
      by_contra hless
      obtain rfl : numEpochs = 0 := by omega
      have hnone : numSamples * sequenceLength = 0 ∧ extraTokens addExtra = 0 := by omega
      obtain rfl : numSamples = 0 := by
        rcases Nat.mul_eq_zero.mp hnone.1 with hzero | hzero
        · exact hzero
        · omega
      have hthreshold := thresholdSamples_le
        ((numTokensPerEpoch - extraTokens addExtra) / sequenceLength)
      rw [hnone.2] at h hthreshold
      have hfloor : numTokensPerEpoch / sequenceLength * sequenceLength ≤ numTokensPerEpoch :=
        Nat.div_mul_le_self _ _
      have hbelow : ((0 : Int) - 1) * numTokensPerEpoch / sequenceLength ≤
          -((numTokensPerEpoch / sequenceLength : Nat) : Int) := by
        refine Int.ediv_le_of_le_mul (by omega) ?_
        have hcast : ((numTokensPerEpoch / sequenceLength * sequenceLength : Nat) : Int) ≤
            numTokensPerEpoch := by omega
        rw [Nat.cast_mul] at hcast
        rw [Int.neg_mul]
        omega
      rw [Nat.cast_zero, Int.sub_zero] at h
      rw [Nat.sub_zero] at h hthreshold
      omega
    refine ⟨htwo, ?_⟩
    have hextra := extraTokens_le addExtra
    have htokens : numTokensPerEpoch ≤ (numEpochs - 1) * numTokensPerEpoch :=
      Nat.le_mul_of_pos_left _ (by omega)
    have hcast : ((numEpochs : Int) - 1) * numTokensPerEpoch - (extraTokens addExtra : Nat) =
        (((numEpochs - 1) * numTokensPerEpoch - extraTokens addExtra : Nat) : Int) := by
      rw [Nat.cast_sub (by omega), Nat.cast_mul, Nat.cast_sub (by omega)]
      rfl
    rw [hcast, ← Int.natCast_ediv]

end Plan

/-! ## What is shuffled -/

section Shuffle

variable {shuffle : σ → List Int → List Int × σ}

theorem shuffleEpochs_perm (hshuffle : ∀ s xs, (shuffle s xs).1.Perm xs) (documents : List Nat)
    (numEpochs : Nat) (randomState : σ) :
    ∃ order : List Nat, (shuffleEpochs shuffle documents numEpochs randomState).1 =
        order.map Nat.cast ∧ order.Perm (replicate numEpochs documents).flatten := by
  have hperm := hshuffle randomState ((replicate numEpochs (documents.map Nat.cast)).flatten)
  rw [← map_replicate, ← map_flatten] at hperm
  refine ⟨(shuffleEpochs shuffle documents numEpochs randomState).1.map Int.toNat, ?_, ?_⟩
  · rw [map_map]
    refine (map_congr_left (g := id) fun x hx => ?_).trans (map_id _) |>.symm
    rw [shuffleEpochs, ← map_replicate, ← map_flatten] at hx
    obtain ⟨documentId, -, rfl⟩ := mem_map.mp (hperm.mem_iff.mp hx)
    rfl
  · have hback := hperm.map Int.toNat
    rw [map_map] at hback
    have hid : (replicate numEpochs documents).flatten.map (Int.toNat ∘ Nat.cast) =
        (replicate numEpochs documents).flatten := map_id _
    rw [hid] at hback
    rw [shuffleEpochs, ← map_replicate, ← map_flatten]
    exact hback

theorem buildDocumentIndex_spec (hshuffle : ∀ s xs, (shuffle s xs).1.Perm xs)
    (documents : List Nat) {numEpochs : Nat} (randomState : σ) {separateFinalEpoch : Bool}
    (hepochs : separateFinalEpoch = true → 2 ≤ numEpochs) :
    ∃ order : List Nat,
      (buildDocumentIndex shuffle documents numEpochs randomState separateFinalEpoch).1 =
        order.map Nat.cast ∧
      order.Perm (replicate numEpochs documents).flatten ∧
      (separateFinalEpoch = true → ∃ first final, order = first ++ final ∧
        first.Perm (replicate (numEpochs - 1) documents).flatten ∧ final.Perm documents) := by
  rw [buildDocumentIndex]
  cases separateFinalEpoch with
  | false =>
    obtain ⟨order, horder, hperm⟩ := shuffleEpochs_perm hshuffle documents numEpochs randomState
    exact ⟨order, horder, hperm, by simp⟩
  | true =>
    have htwo := hepochs rfl
    rw [if_neg (by simp; omega)]
    obtain ⟨first, hfirst, hfirstPerm⟩ :=
      shuffleEpochs_perm hshuffle documents (numEpochs - 1) randomState
    obtain ⟨final, hfinal, hfinalPerm⟩ := shuffleEpochs_perm hshuffle documents 1
      (shuffleEpochs shuffle documents (numEpochs - 1) randomState).2
    have hone : (replicate 1 documents).flatten = documents := by simp
    rw [hone] at hfinalPerm
    refine ⟨first ++ final, ?_, ?_, fun _ => ⟨first, final, rfl, hfirstPerm, hfinalPerm⟩⟩
    · dsimp only
      rw [hfirst, hfinal, map_append]
    · obtain ⟨epochs, rfl⟩ : ∃ epochs, numEpochs = epochs + 1 := ⟨numEpochs - 1, by omega⟩
      rw [replicate_succ', flatten_append, flatten_singleton]
      exact hfirstPerm.append hfinalPerm

theorem mem_arange {start stop i : Int} : i ∈ arange start stop ↔ start ≤ i ∧ i < stop := by
  simp only [arange, mem_map, mem_range]
  constructor
  · rintro ⟨k, hk, rfl⟩
    omega
  · rintro ⟨hle, hlt⟩
    exact ⟨(i - start).toNat, by omega, by omega⟩

theorem length_arange (start stop : Int) : (arange start stop).length = (stop - start).toNat := by
  simp [arange]

theorem buildShuffleIndex_spec (hshuffle : ∀ s xs, (shuffle s xs).1.Perm xs)
    {numSamples totalSize : Nat} (hle : numSamples ≤ totalSize) (randomState : σ) {index : Nat}
    (hindex : index < totalSize) :
    ∃ i : Nat, (buildShuffleIndex shuffle numSamples totalSize randomState).1[index]? =
        some (i : Int) ∧ i < totalSize ∧ (index < numSamples → i < numSamples) := by
  obtain ⟨firstRange, hfirst⟩ : ∃ firstRange,
    shuffle randomState (arange 0 numSamples) = firstRange := ⟨_, rfl⟩
  have hfirstPerm := hshuffle randomState (arange 0 numSamples)
  rw [hfirst] at hfirstPerm
  have hfirstLength := hfirstPerm.length_eq
  rw [length_arange] at hfirstLength
  have hfrom : ∀ k : Nat, k < numSamples → ∃ i : Nat, firstRange.1[k]? = some (i : Int) ∧
      i < numSamples := by
    intro k hk
    have hget := getElem?_eq_getElem (l := firstRange.1) (i := k) (by omega)
    have hmem := mem_arange.mp (hfirstPerm.mem_iff.mp (mem_of_getElem? hget))
    obtain ⟨i, hi⟩ := Int.eq_ofNat_of_zero_le hmem.1
    rw [hi] at hget hmem
    exact ⟨i, hget, by omega⟩
  rw [buildShuffleIndex, hfirst]
  dsimp only
  by_cases hall : (numSamples : Int) = totalSize
  · rw [if_pos hall]
    obtain ⟨i, hget, hlt⟩ := hfrom index (by omega)
    exact ⟨i, hget, by omega, fun _ => hlt⟩
  · rw [if_neg hall]
    obtain ⟨finalRange, hfinal⟩ : ∃ finalRange,
      shuffle firstRange.2 (arange numSamples totalSize) = finalRange := ⟨_, rfl⟩
    have hfinalPerm := hshuffle firstRange.2 (arange numSamples totalSize)
    rw [hfinal] at hfinalPerm
    have hfinalLength := hfinalPerm.length_eq
    rw [length_arange] at hfinalLength
    rw [hfinal]
    rcases Nat.lt_or_ge index numSamples with hlow | hhigh
    · obtain ⟨i, hget, hlt⟩ := hfrom index hlow
      refine ⟨i, ?_, by omega, fun _ => hlt⟩
      rw [getElem?_append_left (by omega)]
      exact hget
    · have hget := getElem?_eq_getElem (l := finalRange.1) (i := index - firstRange.1.length)
        (by omega)
      have hmem := mem_arange.mp (hfinalPerm.mem_iff.mp (mem_of_getElem? hget))
      obtain ⟨i, hi⟩ := Int.eq_ofNat_of_zero_le (a := finalRange.1[index - firstRange.1.length])
        (by omega)
      rw [hi] at hget hmem
      refine ⟨i, ?_, by omega, by omega⟩
      rw [getElem?_append_right (by omega)]
      exact hget

end Shuffle

/-! ## The tokens of some epochs -/

theorem length_tokenStream (documents : List (List τ)) (order : List Nat) :
    (tokenStream documents order).length =
      (order.map fun documentId => (documents[documentId]?.getD []).length).sum := by
  rw [tokenStream, documentsOf, length_flatten, map_map]
  rfl

theorem length_tokenStream_of_perm {documents : List (List τ)} {order indices : List Nat}
    {numEpochs : Nat} (h : order.Perm (replicate numEpochs indices).flatten) :
    (tokenStream documents order).length = numEpochs * (tokenStream documents indices).length := by
  rw [length_tokenStream, length_tokenStream, (h.map _).sum_eq, map_flatten,
    map_replicate, sum_flatten, map_replicate, sum_replicate, smul_eq_mul]

theorem tokenStream_append (documents : List (List τ)) (first final : List Nat) :
    tokenStream documents (first ++ final) =
      tokenStream documents first ++ tokenStream documents final := by
  simp [tokenStream, documentsOf]

theorem InStore.of_perm {documents : List (List τ)} {order indices : List Nat} {numEpochs : Nat}
    (hvalid : InStore documents indices)
    (h : order.Perm (replicate numEpochs indices).flatten) : InStore documents order := by
  intro documentId hmem
  obtain ⟨epoch, hepoch, hin⟩ := mem_flatten.mp (h.mem_iff.mp hmem)
  rw [eq_of_mem_replicate hepoch] at hin
  exact hvalid documentId hin

theorem sampleWindow_append {first final : List τ} {sequenceLength extra i : Nat}
    (h : i * sequenceLength + (sequenceLength + extra) ≤ first.length) :
    sampleWindow (first ++ final) sequenceLength extra i =
        sampleWindow first sequenceLength extra i ∧
      (sampleWindow first sequenceLength extra i).length = sequenceLength + extra := by
  rw [sampleWindow, sampleWindow, drop_append_of_le_length (by omega),
    take_append_of_le_length (by rw [length_drop]; omega), length_take, length_drop]
  exact ⟨rfl, by omega⟩

/-! ## Datasets -/

/-- What the samples of a dataset are taken from, and where. -/
structure GPTDataset.ReadsStream (dataset : GPTDataset τ) (plan : EpochPlan)
    (indices : GPTIndices) (order : List Nat) : Prop where
  documentIndex : indices.documentIndex = order.map Nat.cast
  epochs : order.Perm (List.replicate plan.numEpochs dataset.indices).flatten
  cutsStream : CutsStream dataset.sequences order dataset.config.sequenceLength
    dataset.config.addExtraTokenToSequence dataset.dropLastPartialSequence
    dataset.config.padTokenId indices.sampleIndex
  /-- Every sample that was asked for is one of those cut from the stream. -/
  requested : ∀ index < dataset.numSamples, ∃ i : Nat, ∃ sample,
    pyGet? indices.shuffleIndex (index : Nat) = some (i : Int) ∧
      i + 1 < indices.sampleIndex.length ∧
      dataset.queryDocumentSampleShuffleIndices indices (index : Nat) = .ok sample
  /-- The samples before those of a separate final epoch read the other epochs only. -/
  finalEpoch : plan.separateFinalEpoch = true →
    ∃ first final, order = first ++ final ∧
      first.Perm (List.replicate (plan.numEpochs - 1) dataset.indices).flatten ∧
      final.Perm dataset.indices ∧
      ∀ index : Nat, (index : Int) < plan.samplesWithoutFinalEpoch → ∃ i : Nat, ∃ sample,
        dataset.queryDocumentSampleShuffleIndices indices index = .ok sample ∧
        sample.text = sampleWindow (tokenStream dataset.sequences first)
          dataset.config.sequenceLength
          (extraTokens dataset.config.addExtraTokenToSequence) i ∧
        sample.text.length = dataset.config.sequenceLength +
          extraTokens dataset.config.addExtraTokenToSequence

section Datasets

variable {shuffle : σ → List Int → List Int × σ} {dataset : GPTDataset τ}

theorem GPTDataset.query_eq {indices : GPTIndices} {index i : Nat}
    (h : indices.shuffleIndex[index]? = some (i : Int)) :
    dataset.queryDocumentSampleShuffleIndices indices index =
      assembleSample (readRange dataset.sequences) indices.documentIndex indices.sampleIndex
        dataset.config.sequenceLength dataset.config.addExtraTokenToSequence
        dataset.config.padTokenId i := by
  rw [GPTDataset.queryDocumentSampleShuffleIndices, pyGet?_natCast, h]

theorem GPTDataset.build_readsStream (hshuffle : ∀ s xs, (shuffle s xs).1.Perm xs)
    (hvalid : InStore dataset.sequences dataset.indices) (hpos : 1 < dataset.numTokensPerEpoch)
    (randomState : σ) :
    ∃ indices order, dataset.buildDocumentSampleShuffleIndices shuffle randomState = .ok indices ∧
      dataset.ReadsStream (dataset.plan hpos) indices order := by
  obtain ⟨plan, hplan⟩ : ∃ plan, dataset.plan hpos = plan := ⟨_, rfl⟩
  have hseparate := @planEpochs_separate _ dataset.numSamples _
    dataset.config.addExtraTokenToSequence hpos dataset.config.sequenceLength_pos
  have hcovers := @planEpochs_covers _ dataset.numSamples dataset.config.sequenceLength
    dataset.config.addExtraTokenToSequence hpos
  rw [← GPTDataset.plan, hplan] at hseparate hcovers
  obtain ⟨order, horder, hepochs, hfinal⟩ := buildDocumentIndex_spec hshuffle dataset.indices
    randomState fun hsep => (hseparate hsep).1
  have hstore : InStore dataset.sequences order := hvalid.of_perm hepochs
  have htokens : (tokenStream dataset.sequences order).length =
      plan.numEpochs * dataset.numTokensPerEpoch := by
    rw [length_tokenStream_of_perm hepochs, length_tokenStream, GPTDataset.numTokensPerEpoch]
  have hcover : extraTokens dataset.config.addExtraTokenToSequence ≤
      (tokenStream dataset.sequences order).length := by omega
  obtain ⟨rows, hrows, hbound⟩ := @buildSampleIdx_rowsBound _ _ _ _ _ _
    dataset.dropLastPartialSequence _ dataset.config.sequenceLength_pos hstore htokens hcover
  have hcuts := hbound.cutsStream dataset.config.padTokenId dataset.config.sequenceLength_pos hstore
    hcover
  obtain ⟨count, hcount⟩ : ∃ count, sampleCount (tokenStream dataset.sequences order).length
    dataset.config.sequenceLength (extraTokens dataset.config.addExtraTokenToSequence)
    dataset.dropLastPartialSequence = count := ⟨_, rfl⟩
  have hlength : rows.length = count + 1 := hcount ▸ hcuts.length_eq
  have hrequested : dataset.numSamples ≤ count := by
    rw [← hcount]
    exact le_sampleCount dataset.config.sequenceLength_pos (by omega)
  -- the first range ends with the samples of the other epochs, or with all samples
  obtain ⟨split, hsplit, hsplitLe, hsplitSep⟩ : ∃ split : Nat,
      (if plan.separateFinalEpoch then plan.samplesWithoutFinalEpoch
        else ((rows.length - 1 : Nat) : Int)) = split ∧ split ≤ count ∧
      (plan.separateFinalEpoch = true → split = ((plan.numEpochs - 1) * dataset.numTokensPerEpoch -
        extraTokens dataset.config.addExtraTokenToSequence) / dataset.config.sequenceLength) := by
    cases hsep : plan.separateFinalEpoch with
    | false => exact ⟨count, by rw [hlength]; rfl, le_rfl, by simp⟩
    | true =>
      obtain ⟨htwo, hwithout⟩ := hseparate hsep
      refine ⟨_, hwithout, ?_, fun _ => rfl⟩
      rw [← hcount]
      refine le_sampleCount dataset.config.sequenceLength_pos ?_
      have hfloor := Nat.div_mul_le_self ((plan.numEpochs - 1) * dataset.numTokensPerEpoch -
        extraTokens dataset.config.addExtraTokenToSequence) dataset.config.sequenceLength
      have hless : (plan.numEpochs - 1) * dataset.numTokensPerEpoch ≤
          plan.numEpochs * dataset.numTokensPerEpoch := Nat.mul_le_mul_right _ (by omega)
      have hextra := extraTokens_le dataset.config.addExtraTokenToSequence
      have hmany : dataset.numTokensPerEpoch ≤
          (plan.numEpochs - 1) * dataset.numTokensPerEpoch :=
        Nat.le_mul_of_pos_left _ (by omega)
      omega
  obtain ⟨state, hstate⟩ : ∃ state, (buildDocumentIndex shuffle dataset.indices plan.numEpochs
    randomState plan.separateFinalEpoch).2 = state := ⟨_, rfl⟩
  have hshuffled := @buildShuffleIndex_spec _ _ hshuffle split count hsplitLe state
  refine ⟨⟨order.map Nat.cast, rows, (buildShuffleIndex shuffle split count state).1⟩, order, ?_,
    rfl, hplan ▸ hepochs, hcuts, fun index hindex => ?_, fun hsep => ?_⟩
  · have hinside : ¬(dataset.indices.any fun documentId =>
        decide (dataset.sequences.length ≤ documentId)) = true := by
      simp only [any_eq_true, decide_eq_true_eq, not_exists, not_and, not_le]
      exact hvalid
    rw [GPTDataset.buildDocumentSampleShuffleIndices, if_neg hinside, dif_pos hpos]
    simp only [hplan, horder, hstate, hrows]
    change Except.ok _ = Except.ok _
    rw [hsplit, hlength, Nat.add_sub_cancel]
  · obtain ⟨i, hget, hlt, -⟩ := @hshuffled index (by omega)
    obtain ⟨sample, hsample, -⟩ := hcuts.sample i (by omega)
    exact ⟨i, sample, (pyGet?_natCast _ _).trans hget, by dsimp only; omega,
      (GPTDataset.query_eq hget).trans hsample⟩
  · rw [hplan] at hsep ⊢
    obtain ⟨htwo, hwithout⟩ := hseparate hsep
    obtain ⟨first, final, rfl, hfirst, hfinalPerm⟩ := hfinal hsep
    refine ⟨first, final, rfl, hfirst, hfinalPerm, fun index hindex => ?_⟩
    have hbelow : index < split := by
      rw [if_pos hsep] at hsplit
      omega
    obtain ⟨i, hget, hlt, hkept⟩ := @hshuffled index (by omega)
    obtain ⟨sample, hsample, htext, -⟩ := hcuts.sample i (by omega)
    have hfirstTokens : (tokenStream dataset.sequences first).length =
        (plan.numEpochs - 1) * dataset.numTokensPerEpoch := by
      rw [length_tokenStream_of_perm hfirst, length_tokenStream, GPTDataset.numTokensPerEpoch]
    have hends : i * dataset.config.sequenceLength + (dataset.config.sequenceLength +
        extraTokens dataset.config.addExtraTokenToSequence) ≤
          (tokenStream dataset.sequences first).length := by
      have hmul : (i + 1) * dataset.config.sequenceLength ≤
          (plan.numEpochs - 1) * dataset.numTokensPerEpoch -
            extraTokens dataset.config.addExtraTokenToSequence :=
        (Nat.le_div_iff_mul_le dataset.config.sequenceLength_pos).mp
          (hsplitSep hsep ▸ Nat.succ_le_of_lt (hkept hbelow))
      rw [Nat.succ_mul] at hmul
      have hextra := extraTokens_le dataset.config.addExtraTokenToSequence
      have hmany : dataset.numTokensPerEpoch ≤
          (plan.numEpochs - 1) * dataset.numTokensPerEpoch :=
        Nat.le_mul_of_pos_left _ (by omega)
      omega
    obtain ⟨hsame, hfull⟩ := @sampleWindow_append _ _ (tokenStream dataset.sequences final) _ _ _
      hends
    rw [tokenStream_append, hsame, hfull, Nat.sub_self, replicate_zero, append_nil] at htext
    exact ⟨i, sample, (GPTDataset.query_eq hget).trans hsample, htext, by rw [htext, hfull]⟩

theorem buildSampleIdx_uncovered {documents : List (List τ)} {order : List Nat}
    {sequenceLength numEpochs numTokensPerEpoch : Nat} {dropLast addExtra : Bool}
    (hlength : 0 < sequenceLength)
    (htokens : (tokenStream documents order).length = numEpochs * numTokensPerEpoch)
    (huncovered : (tokenStream documents order).length < extraTokens addExtra) :
    buildSampleIdx (documents.map fun document => (document.length : Int)) (order.map Nat.cast)
        sequenceLength numEpochs numTokensPerEpoch dropLast addExtra =
      .error "Token count must cover the extra token" := by
  have hproduct : (numEpochs : Int) * numTokensPerEpoch =
      ((tokenStream documents order).length : Nat) := by
    rw [htokens, Nat.cast_mul]
  rw [buildSampleIdx]
  simp only [hproduct, ← cast_extraTokens]
  rw [if_neg (by omega), if_pos (by omega)]

/--
A sample index for as many tokens as there are is built, and cuts the stream into samples, unless
the tokens do not cover the extra one; and a dataset of two tokens or more, for whatever its
generator shuffles to, has all the samples that were asked for, and reads nothing of a separate
final epoch in its first range.
-/
theorem gptSamples_cutStream (hshuffle : ∀ s xs, (shuffle s xs).1.Perm xs) :
    (∀ (documents : List (List τ)) (order : List Nat)
        (sequenceLength numEpochs numTokensPerEpoch : Nat) (dropLast addExtra : Bool)
        (padTokenId : τ), 0 < sequenceLength → InStore documents order →
      (tokenStream documents order).length = numEpochs * numTokensPerEpoch →
      let built := buildSampleIdx (documents.map fun document => (document.length : Int))
        (order.map Nat.cast) sequenceLength numEpochs numTokensPerEpoch dropLast addExtra
      if (tokenStream documents order).length < extraTokens addExtra then
        built = .error "Token count must cover the extra token"
      else ∃ rows, built = .ok rows ∧
        CutsStream documents order sequenceLength addExtra dropLast padTokenId rows) ∧
    ∀ (dataset : GPTDataset τ) (randomState : σ), InStore dataset.sequences dataset.indices →
      if hpos : 1 < dataset.numTokensPerEpoch then
        ∃ indices order,
          dataset.buildDocumentSampleShuffleIndices shuffle randomState = .ok indices ∧
            dataset.ReadsStream (dataset.plan hpos) indices order
      else dataset.buildDocumentSampleShuffleIndices shuffle randomState =
        .error "The selected indexed split must contain at least two tokens" := by
  constructor
  · intro documents order sequenceLength numEpochs numTokensPerEpoch dropLast addExtra padTokenId
      hlength hvalid htokens built
    split
    · rename_i huncovered
      exact buildSampleIdx_uncovered hlength htokens huncovered
    · rename_i hcovered
      have hcover := not_lt.mp hcovered
      obtain ⟨rows, hrows, hbound⟩ :=
        @buildSampleIdx_rowsBound _ _ _ _ _ _ dropLast _ hlength hvalid htokens hcover
      exact ⟨rows, hrows, hbound.cutsStream padTokenId hlength hvalid hcover⟩
  · intro dataset randomState hvalid
    split
    · rename_i hpos
      exact dataset.build_readsStream hshuffle hvalid hpos randomState
    · rename_i hpos
      have hinside : ¬(dataset.indices.any fun documentId =>
          decide (dataset.sequences.length ≤ documentId)) = true := by
        simp only [any_eq_true, decide_eq_true_eq, not_exists, not_and, not_le]
        exact hvalid
      rw [GPTDataset.buildDocumentSampleShuffleIndices, if_neg hinside, dif_neg hpos]

end Datasets

/-! ### A small split -/

section SmallSplit

def smallSplit : GPTDataset Nat where
  config := ⟨2, Nat.two_pos, true, true, 0⟩
  sequences := [[1, 2, 3], [], [4, 5]]
  indices := [0, 1, 2]
  numSamples := 3
  validSplit := false

theorem smallSplit_readsStream : ∃ indices order,
    smallSplit.buildDocumentSampleShuffleIndices (fun s xs => (xs.reverse, s)) () = .ok indices ∧
      smallSplit.ReadsStream (smallSplit.plan (by decide)) indices order :=
  (dif_pos (by decide)).mp ((gptSamples_cutStream (fun _ xs => xs.reverse_perm)).2 smallSplit ()
    (by unfold InStore; decide))

theorem emptyDocument_throws :
    (tokenStream [([] : List Nat)] [0]).length = 1 * 0 ∧
      buildSampleIdx [0] [0] 1 1 0 true true =
        .error "Token count must cover the extra token" := by
  decide

end SmallSplit

end HyperParallel.Data
