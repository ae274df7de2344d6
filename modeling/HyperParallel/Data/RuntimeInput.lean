import HyperParallel.Data.PositionIds

/-!
# Dense attention masks from boundaries

The model side blanks, for every boundary, what lies before it in the same row.
The dataset blanks what lies up to every EOD token.  Where the boundaries are
exact the two masks allow the same pairs.
-/

namespace HyperParallel.Data

open Foundation Foundation.CutPoints List

inductive AttentionMode where
  | dense
  | compressed
  deriving DecidableEq, Repr

structure AttentionRuntime where
  mode : AttentionMode
  createMask : Bool
  resetMask : Bool
  slidingWindow : Option Int

/-- `true` marks a pair that is allowed; the axis of size one is left out. -/
abbrev DenseMask := List (List (List Bool))

structure AttentionInputs where
  attentionMask : Option DenseMask
  swaMask : Option DenseMask

namespace AttentionRuntime

/-- `attention_mask[batch_index, 0, row_sequence_start:, :row_sequence_start] = False` -/
def blankSequence (seqLength : Nat) (attentionMask : DenseMask) (sequenceStart : Nat) :
    Except String DenseMask :=
  if seqLength = 0 then .error "integer division or modulo by zero"
  else
    let batchIndex := sequenceStart / seqLength
    let rowSequenceStart := sequenceStart % seqLength
    if batchIndex < attentionMask.length then
      .ok (attentionMask.modify batchIndex (Grid.update fun i j value =>
        if rowSequenceStart ≤ i ∧ j < rowSequenceStart then false else value))
    else .error "index is out of bounds for dimension 0"

/-- `attention_mask & ~outside_window` -/
def windowMask (slidingWindow : Int) (attentionMask : DenseMask) : DenseMask :=
  attentionMask.map (Grid.update fun i j value =>
    value && !decide ((i : Int) - (j : Int) > slidingWindow))

/-- `AttentionRuntime._build_dense_attention_masks` -/
def buildDenseAttentionMasks (runtime : AttentionRuntime) (cuSeqLens : List Nat)
    (microBatchSize seqLength : Nat) : Except String (DenseMask × Option DenseMask) :=
  if cuSeqLens.length < 2 ∨ cuSeqLens.head? ≠ some 0 then
    .error "cu_seq_lens must contain a leading zero and at least one sequence"
  else if ∃ segment ∈ cuSeqLens.zip cuSeqLens.tail, segment.2 ≤ segment.1 then
    .error "cu_seq_lens must be strictly increasing"
  else if cuSeqLens.getLast? ≠ some (microBatchSize * seqLength) then
    .error "cu_seq_lens must cover the physical batch length"
  else
    let attentionBatchSize := if runtime.resetMask then microBatchSize else 1
    let attentionMask := List.replicate attentionBatchSize
      (Grid.table seqLength seqLength fun i j => decide (j ≤ i))
    let attentionMask := if runtime.resetMask then
        cuSeqLens.dropLast.foldlM (blankSequence seqLength) attentionMask
      else .ok attentionMask
    attentionMask.map fun attentionMask =>
      (attentionMask, runtime.slidingWindow.map fun slidingWindow =>
        windowMask slidingWindow attentionMask)

/-- `AttentionRuntime.build_runtime_inputs` on the slice of one context-parallel rank -/
def buildRuntimeInputs (runtime : AttentionRuntime) (microBatchSize localSequenceLength cpSize : Nat)
    (cuSeqLens : List Nat) : Except String AttentionInputs :=
  if !runtime.createMask || runtime.mode == .compressed then
    .ok { attentionMask := none, swaMask := none }
  else
    let globalSequenceLength := localSequenceLength * cpSize
    (runtime.buildDenseAttentionMasks cuSeqLens microBatchSize globalSequenceLength).map
      fun masks => { attentionMask := some masks.1, swaMask := masks.2 }

def maskTable (batchSize seqLength : Nat) (f : Nat → Nat → Nat → Bool) : DenseMask :=
  (List.range batchSize).map fun batchIndex => Grid.table seqLength seqLength (f batchIndex)

section Masks

variable {batchSize seqLength : Nat}

theorem blankSequence_maskTable {sequenceStart : Nat} (hpos : 0 < seqLength)
    (hstart : sequenceStart / seqLength < batchSize) (f : Nat → Nat → Nat → Bool) :
    blankSequence seqLength (maskTable batchSize seqLength f) sequenceStart =
      .ok (maskTable batchSize seqLength fun batchIndex i j => f batchIndex i j &&
        !decide (sequenceStart / seqLength = batchIndex ∧
          sequenceStart % seqLength ≤ i ∧ j < sequenceStart % seqLength)) := by
  simp only [blankSequence]
  rw [if_neg (by omega), if_pos (by simpa [maskTable] using hstart)]
  refine congrArg Except.ok (ext_getElem (by simp [maskTable]) fun batchIndex hlt _ => ?_)
  rw [getElem_modify]
  simp only [maskTable, getElem_map, getElem_range]
  by_cases hrow : sequenceStart / seqLength = batchIndex
  · rw [if_pos hrow, Grid.update_table]
    refine Grid.table_congr fun i _ j _ => ?_
    by_cases hblank : sequenceStart % seqLength ≤ i ∧ j < sequenceStart % seqLength
    · simp [hrow, hblank]
    · rw [if_neg hblank, decide_eq_false fun h => hblank h.2]
      simp
  · rw [if_neg hrow]
    refine Grid.table_congr fun i _ j _ => ?_
    rw [decide_eq_false fun h => hrow h.1]
    simp

theorem foldlM_blankSequence {starts : List Nat} (hpos : 0 < seqLength)
    (hstarts : ∀ sequenceStart ∈ starts, sequenceStart / seqLength < batchSize)
    (f : Nat → Nat → Nat → Bool) :
    starts.foldlM (blankSequence seqLength) (maskTable batchSize seqLength f) =
      .ok (maskTable batchSize seqLength fun batchIndex i j => f batchIndex i j &&
        starts.all fun sequenceStart => !decide (sequenceStart / seqLength = batchIndex ∧
          sequenceStart % seqLength ≤ i ∧ j < sequenceStart % seqLength)) := by
  induction starts generalizing f with
  | nil =>
    refine congrArg Except.ok (map_congr_left fun batchIndex _ => Grid.table_congr ?_)
    intro i _ j _
    simp
  | cons sequenceStart starts ih =>
    rw [foldlM_cons, blankSequence_maskTable hpos (hstarts _ mem_cons_self)]
    refine (ih (fun other hother => hstarts other (mem_cons_of_mem _ hother)) _).trans ?_
    refine congrArg Except.ok (map_congr_left fun batchIndex _ => Grid.table_congr ?_)
    intro i _ j _
    simp only [all_cons, Bool.and_assoc]

end Masks

end AttentionRuntime

section Agreement

variable {eod : Option Int} {batch : TokenBatch} {cuSeqLens : List Nat}

theorem BoundariesExact.sameDocument_iff (h : BoundariesExact eod batch cuSeqLens)
    {batchIdx i j : Nat} (hbatch : batchIdx < batch.batchSize) (hi : i < batch.seqLen) :
    SameDocument (eodIndices eod (batch.row batchIdx)) i j ↔
      j ≤ i ∧ ∀ sequenceStart ∈ cuSeqLens.dropLast, ¬ (sequenceStart / batch.seqLen = batchIdx ∧
        sequenceStart % batch.seqLen ≤ i ∧ j < sequenceStart % batch.seqLen) := by
  have hpos : 0 < batch.seqLen := by omega
  refine and_congr_right fun _ => ⟨fun hall sequenceStart hmem => ?_, fun hall eodIdx heod => ?_⟩
  · rintro ⟨hrow, hle, hlt⟩
    have hsplit := Nat.div_add_mod' sequenceStart batch.seqLen
    rw [hrow] at hsplit
    have hmem := dropLast_subset _ hmem
    rw [← hsplit] at hmem
    obtain ⟨eodIdx, heod, heq⟩ := mem_map.mp
      ((h.mem_inside hbatch (by omega) (by omega)).mp hmem)
    exact hall eodIdx heod (by omega)
  · rintro ⟨hle, hlt⟩
    have hmem := (h.mem_inside hbatch (Nat.succ_pos eodIdx) (by omega)).mpr
      (mem_map.mpr ⟨eodIdx, heod, rfl⟩)
    -- it is inside a row, so it is not the last boundary
    have hdrop : batchIdx * batch.seqLen + (eodIdx + 1) ∈ cuSeqLens.dropLast := by
      refine mem_dropLast_of_ne hmem fun hlast => ?_
      have heq := Option.some.inj (h.getLast?.symm.trans hlast)
      have hrow : (batchIdx + 1) * batch.seqLen ≤ batch.batchSize * batch.seqLen :=
        Nat.mul_le_mul_right _ hbatch
      rw [Nat.succ_mul] at hrow
      omega
    refine hall _ hdrop ⟨?_, ?_, ?_⟩
    · rw [Nat.mul_comm, Nat.mul_add_div hpos, Nat.div_eq_of_lt (by omega), Nat.add_zero]
    · rw [Nat.mul_comm, Nat.mul_add_mod, Nat.mod_eq_of_lt (by omega)]
      exact hle
    · rw [Nat.mul_comm, Nat.mul_add_mod, Nat.mod_eq_of_lt (by omega)]
      exact hlt

theorem buildDenseAttentionMasks_exact (h : BoundariesExact eod batch cuSeqLens)
    (hbatch : 0 < batch.batchSize) (hpos : 0 < batch.seqLen) {runtime : AttentionRuntime}
    (hreset : runtime.resetMask = true) :
    ∃ slidingWindowMask,
      runtime.buildDenseAttentionMasks cuSeqLens batch.batchSize batch.seqLen =
        .ok (AttentionRuntime.maskTable batch.batchSize batch.seqLen fun batchIdx i j =>
          decide (SameDocument (eodIndices eod (batch.row batchIdx)) i j), slidingWindowMask) := by
  obtain ⟨cuts, rfl⟩ := h.exists_cons
  have hlast := h.getLast?
  have hlength : ¬ ((0 :: cuts).length < 2 ∨ (0 :: cuts).head? ≠ some 0) := by
    have htotal := Nat.mul_pos hbatch hpos
    cases cuts with
    | nil =>
      have : 0 = batch.batchSize * batch.seqLen := by simpa using hlast
      omega
    | cons cut cuts => simp
  have hincreasing : ¬ ∃ segment ∈ (0 :: cuts).zip (0 :: cuts).tail, segment.2 ≤ segment.1 := by
    rintro ⟨segment, hmem, hle⟩
    have := (segment_spec h.increasing hmem).2.2.1
    omega
  have hstarts : ∀ sequenceStart ∈ (0 :: cuts).dropLast,
      sequenceStart / batch.seqLen < batch.batchSize := by
    intro sequenceStart hmem
    refine Nat.div_lt_of_lt_mul ?_
    rw [Nat.mul_comm]
    exact lt_of_mem_dropLast h.increasing hlast hmem
  have htriangle : replicate batch.batchSize
      (Grid.table batch.seqLen batch.seqLen fun i j => decide (j ≤ i)) =
        AttentionRuntime.maskTable batch.batchSize batch.seqLen fun _ i j => decide (j ≤ i) := by
    simp [AttentionRuntime.maskTable]
  have hsame : (AttentionRuntime.maskTable batch.batchSize batch.seqLen fun batchIdx i j =>
      decide (j ≤ i) && (0 :: cuts).dropLast.all fun sequenceStart =>
        !decide (sequenceStart / batch.seqLen = batchIdx ∧
          sequenceStart % batch.seqLen ≤ i ∧ j < sequenceStart % batch.seqLen)) =
      AttentionRuntime.maskTable batch.batchSize batch.seqLen fun batchIdx i j =>
        decide (SameDocument (eodIndices eod (batch.row batchIdx)) i j) := by
    refine map_congr_left fun batchIdx hrow => Grid.table_congr fun i hi j _ => ?_
    rw [Bool.eq_iff_iff, decide_eq_true_iff, h.sameDocument_iff (mem_range.mp hrow) hi]
    simp only [Bool.and_eq_true, decide_eq_true_iff, all_eq_true, Bool.not_eq_true',
      decide_eq_false_iff_not]
  refine ⟨runtime.slidingWindow.map fun slidingWindow => AttentionRuntime.windowMask slidingWindow
    (AttentionRuntime.maskTable batch.batchSize batch.seqLen fun batchIdx i j =>
      decide (SameDocument (eodIndices eod (batch.row batchIdx)) i j)), ?_⟩
  rw [AttentionRuntime.buildDenseAttentionMasks, if_neg hlength, if_neg hincreasing,
    if_neg (not_not_intro hlast)]
  simp only [hreset, if_true, htriangle]
  rw [AttentionRuntime.foldlM_blankSequence hpos hstarts, hsame]
  rfl

/-- Every runtime input built from the recovered boundaries is what the dataset computes. -/
def RuntimeAgrees (eod : Option Int) (batch : TokenBatch) (cpSize localSeqLen : Nat) : Prop :=
  ∃ cuSeqLens, resolve eod batch = .ok cuSeqLens ∧ BoundariesExact eod batch cuSeqLens ∧
    (∃ locals, (List.range cpSize).mapM (fun cpRank =>
        buildLocalPositionIds true cpSize cpRank batch.batchSize localSeqLen cuSeqLens) = .ok locals ∧
      ∀ config : GPTDatasetConfig, config.eod = eod → config.resetPositionIds = true →
        ∀ batchIdx < batch.batchSize, gatherRow locals batchIdx =
          (getLtorMasksAndPositionIds config (batch.row batchIdx)).positionIds) ∧
    ∀ runtime : AttentionRuntime,
      runtime.mode = .dense → runtime.createMask = true → runtime.resetMask = true →
      ∃ mask swaMask, runtime.buildRuntimeInputs batch.batchSize localSeqLen cpSize cuSeqLens =
          .ok { attentionMask := some mask, swaMask := swaMask } ∧
        ∀ config : GPTDatasetConfig, config.eod = eod → config.resetAttentionMask = true →
          mask = (List.range batch.batchSize).map fun batchIdx =>
            Grid.update (fun _ _ masked => !masked)
              (getLtorMasksAndPositionIds config (batch.row batchIdx)).attentionMask

theorem runtimeAgrees_iff {cpSize localSeqLen : Nat} (hseqLen : localSeqLen * cpSize = batch.seqLen) :
    RuntimeAgrees eod batch cpSize localSeqLen ↔ 0 < batch.batchSize ∧ Resolvable eod batch := by
  constructor
  · rintro ⟨cuSeqLens, hresolve, hexact, -, hmask⟩
    have hbatch : 0 < batch.batchSize := by
      by_contra hnone
      have hzero : batch.batchSize = 0 := by omega
      obtain ⟨mask, swaMask, hbuild, -⟩ := hmask ⟨.dense, true, true, none⟩ rfl rfl rfl
      -- without a row the only boundary is the leading zero
      obtain ⟨rfl, -⟩ := resolve_eq_ok hresolve
      rw [hzero] at hbuild
      cases hbuild
    exact ⟨hbatch, resolvable_of_exact hbatch hresolve hexact⟩
  · rintro ⟨hbatch, hpos, htotal, hseparated⟩
    have hexact := @resolve_exact eod batch hpos hseparated
    refine ⟨_, exists_resolve hpos htotal, hexact, ?_, fun runtime hmode hcreate hreset => ?_⟩
    · obtain ⟨locals, hlocals, hrows⟩ := gatherRow_exact hexact hseqLen hpos
      refine ⟨locals, hlocals, fun config heod hreset batchIdx hrow => ?_⟩
      rw [hrows batchIdx hrow, getLtor_positionIds hreset, heod, batch.length_row hrow]
    · obtain ⟨swaMask, hbuild⟩ := buildDenseAttentionMasks_exact hexact hbatch hpos hreset
      refine ⟨AttentionRuntime.maskTable batch.batchSize batch.seqLen fun batchIdx i j =>
        decide (SameDocument (eodIndices eod (batch.row batchIdx)) i j), swaMask, ?_,
        fun config heod hreset => ?_⟩
      · rw [AttentionRuntime.buildRuntimeInputs, hmode, hcreate, if_neg (by decide)]
        simp only [hseqLen]
        rw [hbuild]
        rfl
      · refine map_congr_left fun batchIdx hrow => ?_
        rw [getLtor_attentionMask hreset, heod, batch.length_row (mem_range.mp hrow),
          Grid.update_table]
        simp only [Bool.not_not]

def twoRows : TokenBatch where
  seqLen := 4
  rows := [[5, 6, 0, 0], [7, 0, 8, 9]]
  rows_length := by decide

theorem runtimeAgrees_twoRows : RuntimeAgrees (some 0) twoRows 2 2 :=
  (runtimeAgrees_iff (by decide)).mpr ⟨by decide, by decide, by decide, by decide⟩

def adjacentEods : TokenBatch where
  seqLen := 6
  rows := [[0, 0, 7, 0, 8, 9]]
  rows_length := by decide

theorem runtimeAgrees_fails_adjacentEods : ¬ RuntimeAgrees (some 0) adjacentEods 2 3 := by
  rintro ⟨cuSeqLens, hresolve, hexact, -⟩
  have hseparated := (resolvable_of_exact (by decide) hresolve hexact).separated 0 (by decide)
  exact absurd (hseparated 0 (by decide) (by decide)) (by decide)

end Agreement

example : resolve (some 0) adjacentEods = .ok [0, 1, 6] := by decide

end HyperParallel.Data
