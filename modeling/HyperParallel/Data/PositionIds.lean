import HyperParallel.Data.Boundaries
import HyperParallel.Foundation.Dealing
import HyperParallel.Foundation.Grid

/-!
# Positions that start again with every document

The dataset resets the positions of one row at its EOD tokens.  The batch path
resets the slice of one context-parallel rank from the boundaries of all rows.
Both number a position from the last boundary before it.
-/

namespace HyperParallel.Data

open Foundation Foundation.CutPoints List

/-! ## The dataset -/

structure GPTDatasetConfig where
  eod : Option Int
  eodMaskLoss : Bool
  resetPositionIds : Bool
  resetAttentionMask : Bool

structure LtorState where
  attentionMask : List (List Nat)
  positionIds : List Int
  prevIndex : Nat

/-- `attention_mask[0, next_index:, :next_index] = 0` -/
def blankBefore (nextIndex : Nat) (attentionMask : List (List Nat)) : List (List Nat) :=
  Grid.update (fun i j value => if nextIndex ≤ i ∧ j < nextIndex then 0 else value) attentionMask

/-- `position_ids[next_index:] -= amount` -/
def shiftFrom (nextIndex : Nat) (amount : Int) (positionIds : List Int) : List Int :=
  positionIds.mapIdx fun index value => if nextIndex ≤ index then value - amount else value

def resetAtEod (config : GPTDatasetConfig) (state : LtorState) (eodIndex : Nat) : LtorState :=
  let nextIndex := eodIndex + 1
  let state := if config.resetAttentionMask then
      { state with attentionMask := blankBefore nextIndex state.attentionMask }
    else state
  if config.resetPositionIds then
    { state with
      positionIds := shiftFrom nextIndex (nextIndex - state.prevIndex) state.positionIds
      prevIndex := nextIndex }
  else state

structure LtorFields where
  attentionMask : List (List Bool)
  lossMask : List Nat
  positionIds : List Int

/-- `_get_ltor_masks_and_position_ids`; in the result `true` marks a pair that is masked. -/
def getLtorMasksAndPositionIds (config : GPTDatasetConfig) (tokens : List Int) : LtorFields :=
  let seqLength := tokens.length
  let state : LtorState :=
    { attentionMask := Grid.table seqLength seqLength fun i j => if j ≤ i then 1 else 0
      positionIds := (List.range seqLength).map fun index : Nat => (index : Int)
      prevIndex := 0 }
  let state := if config.resetPositionIds || config.resetAttentionMask then
      (eodIndices config.eod tokens).foldl (resetAtEod config) state
    else state
  { attentionMask := Grid.update (fun _ _ value => value == 0) state.attentionMask
    lossMask := tokens.map fun token =>
      if config.eodMaskLoss && config.eod == some token then 0 else 1
    positionIds := state.positionIds }

def resetPosition (eods : List Nat) (index : Nat) : Int :=
  index - lastCut 0 (eods.map (· + 1)) index

section Dataset

variable {config : GPTDatasetConfig}

theorem resetAtEod_positionIds (h : config.resetPositionIds = true) (state : LtorState)
    (eodIndex : Nat) :
    (resetAtEod config state eodIndex).positionIds =
        shiftFrom (eodIndex + 1) ((eodIndex + 1 : Nat) - state.prevIndex) state.positionIds ∧
      (resetAtEod config state eodIndex).prevIndex = eodIndex + 1 := by
  cases hmask : config.resetAttentionMask <;> simp [resetAtEod, h, hmask]

theorem resetAtEod_attentionMask (h : config.resetAttentionMask = true) (state : LtorState)
    (eodIndex : Nat) :
    (resetAtEod config state eodIndex).attentionMask =
      blankBefore (eodIndex + 1) state.attentionMask := by
  cases hreset : config.resetPositionIds <;> simp [resetAtEod, h, hreset]

theorem shiftFrom_map_range (nextIndex : Nat) (amount : Int) (seqLength : Nat) (f : Nat → Int) :
    shiftFrom nextIndex amount ((range seqLength).map f) =
      (range seqLength).map fun index =>
        if nextIndex ≤ index then f index - amount else f index := by
  apply ext_getElem (by simp [shiftFrom])
  intro index _ _
  simp [shiftFrom]

theorem foldl_resetAtEod_positionIds (h : config.resetPositionIds = true) {seqLength : Nat}
    {eods : List Nat} (hsorted : eods.Pairwise (· < ·)) {state : LtorState} {f : Nat → Int}
    (hstate : state.positionIds = (range seqLength).map f)
    (hprev : ∀ eodIndex ∈ eods, state.prevIndex ≤ eodIndex) :
    (eods.foldl (resetAtEod config) state).positionIds =
      (range seqLength).map fun index => f index -
        ((lastCut state.prevIndex (eods.map (· + 1)) index : Int) - state.prevIndex) := by
  induction eods generalizing state f with
  | nil => simp [hstate]
  | cons eodIndex eods ih =>
    obtain ⟨hafter, hsorted⟩ := pairwise_cons.mp hsorted
    obtain ⟨hpositions, hindex⟩ := resetAtEod_positionIds h state eodIndex
    rw [hstate, shiftFrom_map_range] at hpositions
    rw [foldl_cons, ih hsorted hpositions (by
      intro other hother
      rw [hindex]
      exact hafter other hother), hindex]
    refine map_congr_left fun index _ => ?_
    rw [map_cons, lastCut_cons]
    by_cases hle : eodIndex + 1 ≤ index
    · rw [if_pos hle, if_pos hle]
      omega
    · have hlater : ∀ cut ∈ eods.map (· + 1), index < cut := by
        intro cut hcut
        obtain ⟨other, hother, rfl⟩ := mem_map.mp hcut
        have := hafter other hother
        omega
      rw [if_neg hle, if_neg hle, lastCut_of_gt hlater, lastCut_of_gt hlater]
      omega

theorem getLtor_positionIds (h : config.resetPositionIds = true) (tokens : List Int) :
    (getLtorMasksAndPositionIds config tokens).positionIds =
      (range tokens.length).map (resetPosition (eodIndices config.eod tokens)) := by
  simp only [getLtorMasksAndPositionIds, h, Bool.true_or, if_true]
  rw [foldl_resetAtEod_positionIds h (eodIndices_pairwise _ _) rfl (fun _ _ => Nat.zero_le _)]
  refine map_congr_left fun index _ => ?_
  simp [resetPosition]

/-- The pairs that stay visible: the past, back to the last EOD token. -/
def SameDocument (eods : List Nat) (i j : Nat) : Prop :=
  j ≤ i ∧ ∀ eodIndex ∈ eods, ¬ (eodIndex + 1 ≤ i ∧ j < eodIndex + 1)

instance (eods : List Nat) (i j : Nat) : Decidable (SameDocument eods i j) :=
  inferInstanceAs (Decidable (_ ∧ _))

theorem foldl_resetAtEod_attentionMask (h : config.resetAttentionMask = true) {seqLength : Nat}
    {eods : List Nat} {state : LtorState} {f : Nat → Nat → Nat}
    (hstate : state.attentionMask = Grid.table seqLength seqLength f) :
    (eods.foldl (resetAtEod config) state).attentionMask =
      Grid.table seqLength seqLength fun i j =>
        if ∀ eodIndex ∈ eods, ¬ (eodIndex + 1 ≤ i ∧ j < eodIndex + 1) then f i j else 0 := by
  induction eods generalizing state f with
  | nil => simp [hstate]
  | cons eodIndex eods ih =>
    have hmask := resetAtEod_attentionMask h state eodIndex
    rw [hstate, blankBefore, Grid.update_table] at hmask
    rw [foldl_cons, ih hmask]
    refine Grid.table_congr fun i _ j _ => ?_
    simp only [forall_mem_cons]
    by_cases hblank : eodIndex + 1 ≤ i ∧ j < eodIndex + 1
    · simp only [hblank, and_self, not_true_eq_false, false_and, if_true, if_false, ite_self]
    · simp only [hblank, not_false_eq_true, true_and, if_false]

theorem getLtor_attentionMask (h : config.resetAttentionMask = true) (tokens : List Int) :
    (getLtorMasksAndPositionIds config tokens).attentionMask =
      Grid.table tokens.length tokens.length fun i j =>
        !decide (SameDocument (eodIndices config.eod tokens) i j) := by
  simp only [getLtorMasksAndPositionIds, h, Bool.or_true, if_true]
  rw [foldl_resetAtEod_attentionMask h rfl, Grid.update_table]
  refine Grid.table_congr fun i _ j _ => ?_
  by_cases hpast : j ≤ i
  · by_cases hall : ∀ eodIndex ∈ eodIndices config.eod tokens,
        ¬ (eodIndex + 1 ≤ i ∧ j < eodIndex + 1)
    · have hsame : SameDocument (eodIndices config.eod tokens) i j := ⟨hpast, hall⟩
      rw [if_pos hall]
      simp [hpast, hsame]
    · have hsame : ¬ SameDocument (eodIndices config.eod tokens) i j := fun h => hall h.2
      rw [if_neg hall]
      simp [hsame]
  · have hsame : ¬ SameDocument (eodIndices config.eod tokens) i j := fun h => hpast h.1
    simp [hpast, hsame]

end Dataset

/-! ## The batch path -/

/-- One pair of neighbouring boundaries, cut to the interval of the rank. -/
def resetSegment (globalSeqLen cpSeqStart localSeqLen : Nat) (localPositionIds : List (List Int))
    (segment : Nat × Nat) : Except String (List (List Int)) :=
  if globalSeqLen = 0 then .error "integer division or modulo by zero"
  else
    let seqLen := segment.2 - segment.1
    let batchIdx := segment.1 / globalSeqLen
    let seqStartInBatch := segment.1 % globalSeqLen
    let seqEndInBatch := seqStartInBatch + seqLen
    let sliceStart := max seqStartInBatch cpSeqStart
    let sliceEnd := min seqEndInBatch (cpSeqStart + localSeqLen)
    if sliceStart ≥ sliceEnd then .ok localPositionIds
    else if batchIdx < localPositionIds.length then
      .ok (localPositionIds.modify batchIdx (List.mapIdx fun index value =>
        if sliceStart - cpSeqStart ≤ index ∧ index < sliceEnd - cpSeqStart
        then value - seqStartInBatch else value))
    else .error "index is out of bounds for dimension 0"

/-- `TextParallelBatch._build_local_position_ids` -/
def buildLocalPositionIds (resetPositionIds : Bool) (cpSize cpRank batchSize localSeqLen : Nat)
    (cuSeqLens : List Nat) : Except String (List (List Int)) :=
  let globalSeqLen := localSeqLen * cpSize
  let cpSeqStart := cpRank * localSeqLen
  let localPositionIds := Grid.table batchSize localSeqLen fun _ index => (cpSeqStart + index : Int)
  if resetPositionIds then
    (cuSeqLens.zip cuSeqLens.tail).foldlM (resetSegment globalSeqLen cpSeqStart localSeqLen)
      localPositionIds
  else .ok localPositionIds

def Covers (seqLen batchIdx index : Nat) (segment : Nat × Nat) : Prop :=
  segment.1 / seqLen = batchIdx ∧
    segment.1 % seqLen ≤ index ∧ index < segment.1 % seqLen + (segment.2 - segment.1)

instance (seqLen batchIdx index : Nat) : DecidablePred (Covers seqLen batchIdx index) :=
  fun _ => inferInstanceAs (Decidable (_ ∧ _))

section BatchPath

variable {seqLen batchSize cpSeqStart localSeqLen : Nat}

theorem resetSegment_table {segment : Nat × Nat} (hseqLen : 0 < seqLen)
    (hsegment : segment.1 / seqLen < batchSize) (f : Nat → Nat → Int) :
    resetSegment seqLen cpSeqStart localSeqLen (Grid.table batchSize localSeqLen f) segment =
      .ok (Grid.table batchSize localSeqLen fun batchIdx index =>
        if Covers seqLen batchIdx (cpSeqStart + index) segment
        then f batchIdx index - (segment.1 % seqLen : Nat) else f batchIdx index) := by
  simp only [resetSegment]
  rw [if_neg (by omega), Grid.length_table, if_pos hsegment, Grid.modify_table]
  split
  · refine congrArg Except.ok (Grid.table_congr fun batchIdx _ index hindex => ?_)
    rw [if_neg]
    rintro ⟨-, hle, hlt⟩
    omega
  · refine congrArg Except.ok (Grid.table_congr fun batchIdx _ index hindex => ?_)
    by_cases hrow : batchIdx = segment.1 / seqLen
    · rw [if_pos hrow]
      refine if_congr ?_ rfl rfl
      rw [Covers, hrow]
      omega
    · rw [if_neg hrow, if_neg fun h => hrow h.1.symm]

theorem foldlM_resetSegment {segments : List (Nat × Nat)} (hseqLen : 0 < seqLen)
    (hsegments : ∀ segment ∈ segments, segment.1 / seqLen < batchSize) (f : Nat → Nat → Int) :
    segments.foldlM (resetSegment seqLen cpSeqStart localSeqLen)
        (Grid.table batchSize localSeqLen f) =
      .ok (Grid.table batchSize localSeqLen fun batchIdx index =>
        segments.foldl (fun value segment =>
          if Covers seqLen batchIdx (cpSeqStart + index) segment
          then value - (segment.1 % seqLen : Nat) else value) (f batchIdx index)) := by
  induction segments generalizing f with
  | nil => rfl
  | cons segment segments ih =>
    rw [foldlM_cons, resetSegment_table hseqLen (hsegments segment mem_cons_self)]
    exact ih (fun other hother => hsegments other (mem_cons_of_mem _ hother)) _

theorem buildLocalPositionIds_eq {cpSize cpRank : Nat} {cuSeqLens : List Nat}
    {start : Nat → Nat → Nat} (hseqLen : 0 < localSeqLen * cpSize)
    (hsegments : ∀ segment ∈ cuSeqLens.zip cuSeqLens.tail,
      segment.1 < batchSize * (localSeqLen * cpSize) ∧ segment.1 < segment.2)
    (hdisjoint : (cuSeqLens.zip cuSeqLens.tail).Pairwise fun segment later => segment.2 ≤ later.1)
    (hstart : ∀ batchIdx < batchSize, ∀ index < localSeqLen,
      ∃ segment ∈ cuSeqLens.zip cuSeqLens.tail,
        segment.1 = batchIdx * (localSeqLen * cpSize) + start batchIdx (cpRank * localSeqLen + index) ∧
        start batchIdx (cpRank * localSeqLen + index) ≤ cpRank * localSeqLen + index ∧
        cpRank * localSeqLen + index < localSeqLen * cpSize ∧
        batchIdx * (localSeqLen * cpSize) + (cpRank * localSeqLen + index) < segment.2) :
    buildLocalPositionIds true cpSize cpRank batchSize localSeqLen cuSeqLens =
      .ok (Grid.table batchSize localSeqLen fun batchIdx index =>
        ((cpRank * localSeqLen + index : Nat) : Int) -
          start batchIdx (cpRank * localSeqLen + index)) := by
  simp only [buildLocalPositionIds, if_true]
  rw [foldlM_resetSegment hseqLen fun segment hmem =>
    Nat.div_lt_of_lt_mul (by rw [Nat.mul_comm]; exact (hsegments segment hmem).1)]
  refine congrArg Except.ok (Grid.table_congr fun batchIdx hbatch index hindex => ?_)
  obtain ⟨segment, hmem, hsegment, hle, hlt, hstop⟩ := hstart batchIdx hbatch index hindex
  have hdiv : segment.1 / (localSeqLen * cpSize) = batchIdx := by
    rw [hsegment, Nat.mul_comm, Nat.mul_add_div hseqLen, Nat.div_eq_of_lt (by omega), Nat.add_zero]
  have hmod : segment.1 % (localSeqLen * cpSize) =
      start batchIdx (cpRank * localSeqLen + index) := by
    rw [hsegment, Nat.mul_comm, Nat.mul_add_mod, Nat.mod_eq_of_lt (by omega)]
  have hcovers : Covers (localSeqLen * cpSize) batchIdx (cpRank * localSeqLen + index) segment :=
    ⟨hdiv, by rw [hmod]; exact hle, by rw [hmod]; omega⟩
  -- the segments do not meet, so only this one changes the entry
  have hunique : (cuSeqLens.zip cuSeqLens.tail).Pairwise fun segment later =>
      ¬ (Covers (localSeqLen * cpSize) batchIdx (cpRank * localSeqLen + index) segment ∧
        Covers (localSeqLen * cpSize) batchIdx (cpRank * localSeqLen + index) later) := by
    refine List.Pairwise.imp_of_mem (fun {a b} ha hb hle hboth => ?_) hdisjoint
    obtain ⟨⟨hrow, hlow, hhigh⟩, hrow', hlow', -⟩ := hboth
    have := (hsegments a ha).2
    have hsplit := Nat.div_add_mod a.1 (localSeqLen * cpSize)
    have hsplit' := Nat.div_add_mod b.1 (localSeqLen * cpSize)
    rw [hrow] at hsplit
    rw [hrow'] at hsplit'
    omega
  rw [foldl_ite_of_unique hmem hcovers hunique, hmod]
  push_cast
  ring

end BatchPath

/-! ## Both count from the same places -/

section Agreement

variable {eod : Option Int} {batch : TokenBatch} {cuSeqLens : List Nat}

theorem BoundariesExact.exists_segment (h : BoundariesExact eod batch cuSeqLens)
    {batchIdx index : Nat} (hbatch : batchIdx < batch.batchSize) (hindex : index < batch.seqLen) :
    ∃ segment ∈ cuSeqLens.zip cuSeqLens.tail,
      segment.1 = batchIdx * batch.seqLen +
        lastCut 0 ((eodIndices eod (batch.row batchIdx)).map (· + 1)) index ∧
      batchIdx * batch.seqLen + index < segment.2 := by
  obtain ⟨cuts, rfl⟩ := h.exists_cons
  have hrow : (batchIdx + 1) * batch.seqLen ≤ batch.batchSize * batch.seqLen :=
    Nat.mul_le_mul_right _ hbatch
  rw [Nat.succ_mul] at hrow
  obtain ⟨segment, hmem, hlow, hhigh⟩ :=
    CutPoints.exists_segment h.increasing h.getLast? (Nat.zero_le (batchIdx * batch.seqLen + index))
      (by omega)
  obtain ⟨hstart, -, -, hcuts⟩ := segment_spec h.increasing hmem
  have hfirst : batchIdx * batch.seqLen ≤ segment.1 := by
    rcases hcuts _ (h.rowStart_mem (Nat.le_of_lt hbatch)) with hle | hle
    · exact hle
    · omega
  obtain ⟨offset, hoffset⟩ := Nat.exists_eq_add_of_le hfirst
  refine ⟨segment, hmem, ?_, hhigh⟩
  rw [hoffset]
  refine congrArg _ (IsSegmentStart.unique ?_ (lastCut_isSegmentStart (Nat.zero_le index) ?_ ?_))
  · refine ⟨?_, by omega, fun cut hcut hle => ?_, Nat.zero_le _⟩
    · rcases Nat.eq_zero_or_pos offset with hzero | hpos
      · exact .inl hzero
      · rw [hoffset] at hstart
        exact .inr ((h.mem_inside hbatch hpos (by omega)).mp hstart)
    · obtain ⟨eodIdx, -, rfl⟩ := mem_map.mp hcut
      have hlisted := (h.mem_inside hbatch (Nat.succ_pos eodIdx) (by omega)).mpr hcut
      rcases hcuts _ hlisted with hle | hle
      · omega
      · omega
  · intro cut hcut
    obtain ⟨eodIdx, -, rfl⟩ := mem_map.mp hcut
    exact Nat.succ_pos eodIdx
  · exact pairwise_map.mpr ((eodIndices_pairwise eod _).imp fun hlt => Nat.succ_lt_succ hlt)

theorem buildLocalPositionIds_exact (h : BoundariesExact eod batch cuSeqLens)
    {cpSize cpRank localSeqLen : Nat} (hseqLen : localSeqLen * cpSize = batch.seqLen)
    (hpos : 0 < batch.seqLen) (hrank : cpRank < cpSize) :
    buildLocalPositionIds true cpSize cpRank batch.batchSize localSeqLen cuSeqLens =
      .ok (Grid.table batch.batchSize localSeqLen fun batchIdx index =>
        resetPosition (eodIndices eod (batch.row batchIdx)) (cpRank * localSeqLen + index)) := by
  obtain ⟨cuts, rfl⟩ := h.exists_cons
  have hslice : (cpRank + 1) * localSeqLen ≤ batch.seqLen := by
    rw [← hseqLen, Nat.mul_comm localSeqLen]
    exact Nat.mul_le_mul_right _ hrank
  rw [Nat.succ_mul] at hslice
  refine buildLocalPositionIds_eq (by omega) (fun segment hmem => ?_)
    (segments_pairwise h.increasing) (fun batchIdx hbatch index hindex => ?_)
  · obtain ⟨-, hstop, hlt, -⟩ := segment_spec h.increasing hmem
    rw [hseqLen]
    exact ⟨Nat.lt_of_lt_of_le hlt (h.le_total (mem_cons_of_mem _ hstop)), hlt⟩
  · obtain ⟨segment, hmem, hstart, hstop⟩ :=
      h.exists_segment hbatch (show cpRank * localSeqLen + index < batch.seqLen by omega)
    rw [hseqLen]
    have hcut := lastCut_le (0 : Nat) ((eodIndices eod (batch.row batchIdx)).map (· + 1))
      (Nat.zero_le (cpRank * localSeqLen + index))
    exact ⟨segment, hmem, hstart, hcut, by omega, hstop⟩

def gatherRow (locals : List (List (List Int))) (batchIdx : Nat) : List Int :=
  locals.flatMap fun localPositionIds => localPositionIds.getD batchIdx []

theorem gatherRow_exact (h : BoundariesExact eod batch cuSeqLens) {cpSize localSeqLen : Nat}
    (hseqLen : localSeqLen * cpSize = batch.seqLen) (hpos : 0 < batch.seqLen) :
    ∃ locals, (range cpSize).mapM (fun cpRank =>
        buildLocalPositionIds true cpSize cpRank batch.batchSize localSeqLen cuSeqLens) = .ok locals ∧
      ∀ batchIdx < batch.batchSize, gatherRow locals batchIdx =
        (range batch.seqLen).map (resetPosition (eodIndices eod (batch.row batchIdx))) := by
  refine ⟨_, mapM_eq_ok fun cpRank hrank =>
    buildLocalPositionIds_exact h hseqLen hpos (mem_range.mp hrank), fun batchIdx hbatch => ?_⟩
  rw [gatherRow, flatMap_map, ← hseqLen, Nat.mul_comm localSeqLen, ← Dealing.flatMap_range_shift]
  refine flatMap_congr fun cpRank _ => ?_
  rw [getD_eq_getElem?_getD, Grid.table, Grid.getElem?_map_range, if_pos hbatch]
  rfl

end Agreement

end HyperParallel.Data
