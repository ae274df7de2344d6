import HyperParallel.Foundation.CutPoints
import HyperParallel.Foundation.PySequence
import Mathlib.Algebra.Ring.Nat

/-!
# Sequence boundaries of Indexed batches

A batch of packed rows carries no boundaries: they are recovered from the
tokens that end a document.  `resolve` lists them for the rows laid end to end,
and the list is complete unless a row has two such tokens in a row before its
last position.
-/

namespace HyperParallel.Data

open Foundation.CutPoints List

/-- `input_ids`, a rectangle of tokens. -/
structure TokenBatch where
  seqLen : Nat
  rows : List (List Int)
  rows_length : ∀ row ∈ rows, row.length = seqLen

namespace TokenBatch

def batchSize (batch : TokenBatch) : Nat := batch.rows.length

def row (batch : TokenBatch) (batchIdx : Nat) : List Int := batch.rows.getD batchIdx []

theorem length_row (batch : TokenBatch) {batchIdx : Nat} (h : batchIdx < batch.batchSize) :
    (batch.row batchIdx).length = batch.seqLen := by
  apply batch.rows_length
  rw [batchSize] at h
  rw [row, getD_eq_getElem?_getD, getElem?_eq_getElem h]
  exact getElem_mem h

end TokenBatch

/-- `arange(n)[row == eod]`; no token equals a missing `eod`. -/
def eodIndices (eod : Option Int) (row : List Int) : List Nat :=
  (List.range row.length).filter fun index => eod.isSome && row[index]? == eod

theorem mem_eodIndices {eod : Option Int} {row : List Int} {index : Nat} :
    index ∈ eodIndices eod row ↔ ∃ token, eod = some token ∧ row[index]? = some token := by
  simp only [eodIndices, mem_filter, mem_range, Bool.and_eq_true, beq_iff_eq,
    Option.isSome_iff_exists]
  constructor
  · rintro ⟨-, ⟨token, rfl⟩, h⟩
    exact ⟨token, rfl, h⟩
  · rintro ⟨token, rfl, h⟩
    exact ⟨(List.getElem?_eq_some_iff.mp h).1, ⟨token, rfl⟩, h⟩

theorem lt_of_mem_eodIndices {eod : Option Int} {row : List Int} {index : Nat}
    (h : index ∈ eodIndices eod row) : index < row.length := by
  obtain ⟨token, -, hget⟩ := mem_eodIndices.mp h
  exact (List.getElem?_eq_some_iff.mp hget).1

theorem eodIndices_pairwise (eod : Option Int) (row : List Int) :
    (eodIndices eod row).Pairwise (· < ·) :=
  List.Pairwise.filter _ List.pairwise_lt_range

/-! ## The resolver -/

/-- The loop over the EOD tokens of one row, which starts at `batch_idx * seq_len`. -/
def eodSeqEnds (rowStart : Nat) (prevEodIdx : Int) : List Nat → List Nat
  | [] => []
  | eodIdx :: rest =>
    if (eodIdx : Int) = prevEodIdx then []
    else (rowStart + eodIdx + 1) :: eodSeqEnds rowStart (eodIdx + 1) rest

def resolveRow (eod : Option Int) (batch : TokenBatch) (seqEnds : List Nat) (batchIdx : Nat) :
    List Nat :=
  let seqEnds :=
    seqEnds ++ eodSeqEnds (batchIdx * batch.seqLen) (-1) (eodIndices eod (batch.row batchIdx))
  let rowEnd := (batchIdx + 1) * batch.seqLen
  if seqEnds.getLast? = some rowEnd then seqEnds else seqEnds ++ [rowEnd]

def seqEnds (eod : Option Int) (batch : TokenBatch) (batchSize : Nat) : List Nat :=
  (List.range batchSize).foldl (resolveRow eod batch) []

def int32Max : Nat := 2 ^ 31 - 1

/-- `IndexedBoundaryResolver.resolve` -/
def resolve (eod : Option Int) (batch : TokenBatch) : Except String (List Nat) :=
  let boundaries := 0 :: seqEnds eod batch batch.batchSize
  if boundaries.all (· ≤ int32Max) then .ok boundaries
  else .error "value cannot be converted to type int32_t without overflow"

/-- The places of the joined rows where a document may begin or end. -/
def IsBoundary (eod : Option Int) (batch : TokenBatch) (batchSize position : Nat) : Prop :=
  ∃ batchIdx < batchSize,
    (∃ eodIdx ∈ eodIndices eod (batch.row batchIdx), position = batchIdx * batch.seqLen + eodIdx + 1) ∨
      position = (batchIdx + 1) * batch.seqLen

/-- No EOD token directly follows another, unless the row ends with it. -/
def Separated (seqLen : Nat) (eods : List Nat) : Prop :=
  ∀ eodIdx ∈ eods, eodIdx + 1 ∈ eods → eodIdx + 2 = seqLen

instance (seqLen : Nat) (eods : List Nat) : Decidable (Separated seqLen eods) :=
  inferInstanceAs (Decidable (∀ eodIdx ∈ eods, _))

section Row

variable {rowStart seqLen : Nat} {prevEodIdx : Int} {eods : List Nat}

theorem mem_of_mem_eodSeqEnds {position : Nat} (h : position ∈ eodSeqEnds rowStart prevEodIdx eods) :
    ∃ eodIdx ∈ eods, position = rowStart + eodIdx + 1 := by
  induction eods generalizing prevEodIdx with
  | nil => cases h
  | cons eodIdx rest ih =>
    rw [eodSeqEnds] at h
    split at h
    · cases h
    · rcases mem_cons.mp h with rfl | h
      · exact ⟨eodIdx, mem_cons_self, rfl⟩
      · obtain ⟨other, hother, hposition⟩ := ih h
        exact ⟨other, mem_cons_of_mem _ hother, hposition⟩

theorem eodSeqEnds_pairwise (hsorted : eods.Pairwise (· < ·)) :
    (eodSeqEnds rowStart prevEodIdx eods).Pairwise (· < ·) := by
  induction eods generalizing prevEodIdx with
  | nil => exact .nil
  | cons eodIdx rest ih =>
    obtain ⟨hafter, hsorted⟩ := pairwise_cons.mp hsorted
    rw [eodSeqEnds]
    split
    · exact .nil
    · refine .cons (fun position hposition => ?_) (ih hsorted)
      obtain ⟨other, hother, rfl⟩ := mem_of_mem_eodSeqEnds hposition
      have := hafter other hother
      omega

theorem mem_eodSeqEnds (hsorted : eods.Pairwise (· < ·)) (hlt : ∀ eodIdx ∈ eods, eodIdx < seqLen)
    (hseparated : Separated seqLen eods)
    (hprev : ∀ eodIdx ∈ eods, (eodIdx : Int) = prevEodIdx → eodIdx + 1 = seqLen)
    {eodIdx : Nat} (h : eodIdx ∈ eods) :
    rowStart + eodIdx + 1 ∈ eodSeqEnds rowStart prevEodIdx eods ∨ eodIdx + 1 = seqLen := by
  induction eods generalizing prevEodIdx with
  | nil => cases h
  | cons first rest ih =>
    obtain ⟨hafter, hsorted⟩ := pairwise_cons.mp hsorted
    rw [eodSeqEnds]
    split
    · rename_i heq
      -- the loop stops here, at the last position of the row
      have hend := hprev first mem_cons_self heq
      rcases mem_cons.mp h with rfl | h
      · exact .inr hend
      · have hfirst := hafter eodIdx h
        have hrow := hlt eodIdx (mem_cons_of_mem _ h)
        omega
    · rcases mem_cons.mp h with rfl | h
      · exact .inl mem_cons_self
      · have hrest := @ih ((first : Int) + 1) hsorted
          (fun other hother => hlt other (mem_cons_of_mem _ hother))
          (fun other hother hnext => hseparated other (mem_cons_of_mem _ hother)
            (mem_cons_of_mem _ hnext))
          (fun other hother heq => by
            have hnext : other = first + 1 := by omega
            have := hseparated first mem_cons_self
              (hnext ▸ mem_cons_of_mem _ hother)
            omega) h
        exact hrest.imp_left (mem_cons_of_mem _)

/-- Two neighbouring EOD tokens lose the place after one of them, if not after an earlier one. -/
theorem exists_lost (hsorted : eods.Pairwise (· < ·)) {eodIdx : Nat} (h : eodIdx ∈ eods)
    (hnext : eodIdx + 1 ∈ eods) :
    ∃ lost ≤ eodIdx, lost + 1 ∈ eods ∧
      rowStart + lost + 2 ∉ eodSeqEnds rowStart prevEodIdx eods := by
  induction eods generalizing prevEodIdx with
  | nil => cases h
  | cons first rest ih =>
    obtain ⟨hafter, hrest⟩ := pairwise_cons.mp hsorted
    rw [eodSeqEnds]
    split
    · exact ⟨eodIdx, Nat.le_refl _, hnext, by simp⟩
    · have hmem : eodIdx + 1 ∈ rest := by
        rcases mem_cons.mp hnext with heq | hnext
        · rcases mem_cons.mp h with rfl | h
          · omega
          · have := hafter eodIdx h
            omega
        · exact hnext
      rcases mem_cons.mp h with rfl | h
      · refine ⟨eodIdx, Nat.le_refl _, hnext, fun hlost => ?_⟩
        rcases mem_cons.mp hlost with heq | hlost
        · omega
        · cases rest with
          | nil => cases hmem
          | cons second rest =>
            -- the next EOD token is the very next position, so the loop stops
            have hsecond : second = eodIdx + 1 := by
              have hle := hafter second mem_cons_self
              rcases mem_cons.mp hmem with heq | hlater
              · exact heq.symm
              · have := (pairwise_cons.mp hrest).1 (eodIdx + 1) hlater
                omega
            rw [eodSeqEnds, if_pos (by omega)] at hlost
            cases hlost
      · obtain ⟨lost, hle, hlost, hnot⟩ := @ih ((first : Int) + 1) hrest h hmem
        refine ⟨lost, hle, mem_cons_of_mem _ hlost, fun hin => ?_⟩
        rcases mem_cons.mp hin with heq | hin
        · have := hafter _ hlost
          omega
        · exact hnot hin

end Row

/-! ## The rows laid end to end -/

section Rows

variable {eod : Option Int} {batch : TokenBatch} {batchSize : Nat}

theorem seqEnds_succ (eod : Option Int) (batch : TokenBatch) (batchSize : Nat) :
    seqEnds eod batch (batchSize + 1) =
      resolveRow eod batch (seqEnds eod batch batchSize) batchSize := by
  rw [seqEnds, range_succ, foldl_append]
  rfl

theorem mem_resolveRow {seqEnds : List Nat} {batchIdx position : Nat} :
    position ∈ resolveRow eod batch seqEnds batchIdx ↔
      position ∈ seqEnds ∨
        position ∈ eodSeqEnds (batchIdx * batch.seqLen) (-1) (eodIndices eod (batch.row batchIdx)) ∨
          position = (batchIdx + 1) * batch.seqLen := by
  simp only [resolveRow]
  split
  · rename_i hlast
    have hmem := mem_of_getLast? hlast
    rw [mem_append] at hmem ⊢
    constructor
    · rintro (h | h)
      · exact .inl h
      · exact .inr (.inl h)
    · rintro (h | h | rfl)
      · exact .inl h
      · exact .inr h
      · exact hmem
  · rw [mem_append, mem_append, mem_singleton, or_assoc]

theorem mem_seqEnds {position : Nat} :
    position ∈ seqEnds eod batch batchSize ↔
      ∃ batchIdx < batchSize,
        position ∈ eodSeqEnds (batchIdx * batch.seqLen) (-1) (eodIndices eod (batch.row batchIdx)) ∨
          position = (batchIdx + 1) * batch.seqLen := by
  induction batchSize with
  | zero => simp [seqEnds]
  | succ batchSize ih =>
    rw [seqEnds_succ, mem_resolveRow, ih]
    constructor
    · rintro (⟨batchIdx, hlt, h⟩ | h)
      · exact ⟨batchIdx, by omega, h⟩
      · exact ⟨batchSize, by omega, h⟩
    · rintro ⟨batchIdx, hlt, h⟩
      rcases Nat.lt_succ_iff_lt_or_eq.mp hlt with hlt | rfl
      · exact .inl ⟨batchIdx, hlt, h⟩
      · exact .inr h

theorem eodSeqEnds_bounds (hsize : batchSize < batch.batchSize) {position : Nat}
    (h : position ∈ eodSeqEnds (batchSize * batch.seqLen) (-1)
      (eodIndices eod (batch.row batchSize))) :
    batchSize * batch.seqLen < position ∧ position ≤ (batchSize + 1) * batch.seqLen := by
  obtain ⟨eodIdx, hmem, rfl⟩ := mem_of_mem_eodSeqEnds h
  have hlt := lt_of_mem_eodIndices hmem
  rw [batch.length_row hsize] at hlt
  rw [Nat.succ_mul]
  omega

theorem seqEnds_bounds (hseqLen : 0 < batch.seqLen) (hsize : batchSize ≤ batch.batchSize)
    {position : Nat} (h : position ∈ seqEnds eod batch batchSize) :
    0 < position ∧ position ≤ batchSize * batch.seqLen := by
  obtain ⟨batchIdx, hlt, h⟩ := mem_seqEnds.mp h
  have hrows : (batchIdx + 1) * batch.seqLen ≤ batchSize * batch.seqLen :=
    Nat.mul_le_mul_right _ hlt
  rcases h with h | rfl
  · have := eodSeqEnds_bounds (by omega) h
    omega
  · exact ⟨Nat.mul_pos (by omega) hseqLen, hrows⟩

theorem seqEnds_pairwise (hseqLen : 0 < batch.seqLen) (hsize : batchSize ≤ batch.batchSize) :
    (seqEnds eod batch batchSize).Pairwise (· < ·) := by
  induction batchSize with
  | zero => exact .nil
  | succ batchSize ih =>
    have hrow := @eodSeqEnds_bounds eod batch batchSize hsize
    have hrows := @seqEnds_bounds eod batch batchSize hseqLen (by omega)
    have hsucc : (batchSize + 1) * batch.seqLen = batchSize * batch.seqLen + batch.seqLen :=
      Nat.succ_mul _ _
    have hjoined : (seqEnds eod batch batchSize ++ eodSeqEnds (batchSize * batch.seqLen) (-1)
        (eodIndices eod (batch.row batchSize))).Pairwise (· < ·) := by
      refine pairwise_append.mpr
        ⟨ih (by omega), eodSeqEnds_pairwise (eodIndices_pairwise _ _), fun a ha b hb => ?_⟩
      have := hrows ha
      have := hrow hb
      omega
    rw [seqEnds_succ]
    simp only [resolveRow]
    split
    · exact hjoined
    · rename_i hlast
      refine pairwise_append.mpr ⟨hjoined, pairwise_singleton _ _, fun a ha b hb => ?_⟩
      obtain rfl := mem_singleton.mp hb
      refine lt_of_getLast?_ne hjoined (fun cut hcut => ?_) hlast ha
      rcases mem_append.mp hcut with hcut | hcut
      · have := hrows hcut
        omega
      · exact (hrow hcut).2

theorem isBoundary_of_mem {position : Nat} (h : position ∈ seqEnds eod batch batchSize) :
    IsBoundary eod batch batchSize position := by
  obtain ⟨batchIdx, hlt, h⟩ := mem_seqEnds.mp h
  refine ⟨batchIdx, hlt, ?_⟩
  rcases h with h | h
  · exact .inl (mem_of_mem_eodSeqEnds h)
  · exact .inr h

theorem mem_of_isBoundary (hsize : batchSize ≤ batch.batchSize)
    (hseparated : ∀ batchIdx < batchSize,
      Separated batch.seqLen (eodIndices eod (batch.row batchIdx)))
    {position : Nat} (h : IsBoundary eod batch batchSize position) :
    position ∈ seqEnds eod batch batchSize := by
  obtain ⟨batchIdx, hlt, h⟩ := h
  refine mem_seqEnds.mpr ⟨batchIdx, hlt, ?_⟩
  rcases h with ⟨eodIdx, hmem, rfl⟩ | h
  · have hrow : ∀ index ∈ eodIndices eod (batch.row batchIdx), index < batch.seqLen := by
      intro index hindex
      rw [← batch.length_row (Nat.lt_of_lt_of_le hlt hsize)]
      exact lt_of_mem_eodIndices hindex
    have hstart : ∀ index ∈ eodIndices eod (batch.row batchIdx),
        (index : Int) = -1 → index + 1 = batch.seqLen := by
      intro index _ heq
      omega
    rcases mem_eodSeqEnds (eodIndices_pairwise eod _) hrow (hseparated batchIdx hlt) hstart hmem
      with h | h
    · exact .inl h
    · rw [Nat.succ_mul]
      exact .inr (by omega)
  · exact .inr h

theorem exists_boundary_not_mem (hsize : batchSize ≤ batch.batchSize) {batchIdx : Nat}
    (hlt : batchIdx < batchSize)
    (h : ¬ Separated batch.seqLen (eodIndices eod (batch.row batchIdx))) :
    ∃ position, IsBoundary eod batch batchSize position ∧ position ∉ seqEnds eod batch batchSize := by
  obtain ⟨eodIdx, hmem, hnext, hend⟩ : ∃ eodIdx ∈ eodIndices eod (batch.row batchIdx),
      eodIdx + 1 ∈ eodIndices eod (batch.row batchIdx) ∧ eodIdx + 2 ≠ batch.seqLen := by
    simpa only [Separated, not_forall, exists_prop] using h
  have hrow := batch.length_row (Nat.lt_of_lt_of_le hlt hsize)
  have hbound := lt_of_mem_eodIndices hnext
  obtain ⟨lost, hle, hlost, hnot⟩ :=
    @exists_lost (batchIdx * batch.seqLen) (-1) _ (eodIndices_pairwise eod _) eodIdx hmem hnext
  refine ⟨batchIdx * batch.seqLen + (lost + 1) + 1, ⟨batchIdx, hlt, .inl ⟨_, hlost, rfl⟩⟩,
    fun hin => ?_⟩
  obtain ⟨other, hother, hin⟩ := mem_seqEnds.mp hin
  -- the lost place is inside its own row, so no other row lists it
  have hinside : batchIdx * batch.seqLen + (lost + 1) + 1 < (batchIdx + 1) * batch.seqLen := by
    rw [Nat.succ_mul]
    omega
  rcases Nat.lt_trichotomy other batchIdx with hbefore | rfl | hafter
  · have hrows : (other + 1) * batch.seqLen ≤ batchIdx * batch.seqLen :=
      Nat.mul_le_mul_right _ hbefore
    rcases hin with hin | hin
    · have := eodSeqEnds_bounds (by omega) hin
      omega
    · omega
  · rcases hin with hin | hin
    · exact hnot (by simpa [Nat.add_assoc] using hin)
    · omega
  · have hrows : (batchIdx + 1) * batch.seqLen ≤ other * batch.seqLen :=
      Nat.mul_le_mul_right _ hafter
    rcases hin with hin | hin
    · have := eodSeqEnds_bounds (by omega) hin
      omega
    · rw [Nat.succ_mul] at hin
      omega

/-- Increasing, and exactly zero and every place where a document may begin or end. -/
structure BoundariesExact (eod : Option Int) (batch : TokenBatch) (cuSeqLens : List Nat) : Prop where
  increasing : cuSeqLens.Pairwise (· < ·)
  mem_iff : ∀ position,
    position ∈ cuSeqLens ↔ position = 0 ∨ IsBoundary eod batch batch.batchSize position

theorem resolve_eq_ok {cuSeqLens : List Nat} (h : resolve eod batch = .ok cuSeqLens) :
    cuSeqLens = 0 :: seqEnds eod batch batch.batchSize ∧
      ∀ position ∈ seqEnds eod batch batch.batchSize, position ≤ int32Max := by
  simp only [resolve] at h
  split at h
  · rename_i hall
    refine ⟨(Except.ok.inj h).symm, fun position hposition => ?_⟩
    exact of_decide_eq_true (all_eq_true.mp hall position (mem_cons_of_mem _ hposition))
  · cases h

theorem exists_resolve (hseqLen : 0 < batch.seqLen)
    (htotal : batch.batchSize * batch.seqLen ≤ int32Max) :
    resolve eod batch = .ok (0 :: seqEnds eod batch batch.batchSize) := by
  simp only [resolve]
  rw [if_pos]
  refine all_eq_true.mpr fun position hposition => decide_eq_true ?_
  rcases mem_cons.mp hposition with rfl | hposition
  · exact Nat.zero_le _
  · exact Nat.le_trans (seqEnds_bounds hseqLen (Nat.le_refl _) hposition).2 htotal

theorem resolve_exact (hseqLen : 0 < batch.seqLen)
    (hseparated : ∀ batchIdx < batch.batchSize,
      Separated batch.seqLen (eodIndices eod (batch.row batchIdx))) :
    BoundariesExact eod batch (0 :: seqEnds eod batch batch.batchSize) := by
  constructor
  · exact .cons (fun position hposition => (seqEnds_bounds hseqLen (Nat.le_refl _) hposition).1)
      (seqEnds_pairwise hseqLen (Nat.le_refl _))
  · intro position
    rw [mem_cons]
    exact or_congr_right ⟨isBoundary_of_mem, mem_of_isBoundary (Nat.le_refl _) hseparated⟩

/-- What the resolver needs in order to find every boundary. -/
structure Resolvable (eod : Option Int) (batch : TokenBatch) : Prop where
  seqLen_pos : 0 < batch.seqLen
  total_le : batch.batchSize * batch.seqLen ≤ int32Max
  separated : ∀ batchIdx < batch.batchSize,
    Separated batch.seqLen (eodIndices eod (batch.row batchIdx))

theorem resolvable_of_exact {cuSeqLens : List Nat} (hbatch : 0 < batch.batchSize)
    (hresolve : resolve eod batch = .ok cuSeqLens) (h : BoundariesExact eod batch cuSeqLens) :
    Resolvable eod batch := by
  obtain ⟨rfl, hle⟩ := resolve_eq_ok hresolve
  have hlast : batch.batchSize * batch.seqLen ∈ seqEnds eod batch batch.batchSize :=
    mem_seqEnds.mpr ⟨batch.batchSize - 1, by omega, .inr (by rw [Nat.sub_add_cancel hbatch])⟩
  have hpos := (pairwise_cons.mp h.increasing).1 _ hlast
  refine ⟨Nat.pos_of_mul_pos_left hpos, hle _ hlast, fun batchIdx hlt => ?_⟩
  by_contra hnot
  obtain ⟨position, hboundary, hnotMem⟩ := exists_boundary_not_mem (Nat.le_refl _) hlt hnot
  rcases mem_cons.mp ((h.mem_iff position).mpr (.inr hboundary)) with rfl | hmem
  · obtain ⟨other, -, ⟨eodIdx, -, heq⟩ | heq⟩ := hboundary
    · omega
    · exact absurd heq.symm (Nat.mul_pos (by omega) (Nat.pos_of_mul_pos_left hpos)).ne'
  · exact hnotMem hmem

namespace BoundariesExact

variable {cuSeqLens : List Nat}

section

variable (h : BoundariesExact eod batch cuSeqLens)

include h

theorem rowStart_mem {batchIdx : Nat} (hle : batchIdx ≤ batch.batchSize) :
    batchIdx * batch.seqLen ∈ cuSeqLens := by
  rw [h.mem_iff]
  cases batchIdx with
  | zero => exact .inl (Nat.zero_mul _)
  | succ batchIdx => exact .inr ⟨batchIdx, hle, .inr rfl⟩

theorem le_total {position : Nat} (hmem : position ∈ cuSeqLens) :
    position ≤ batch.batchSize * batch.seqLen := by
  rcases (h.mem_iff position).mp hmem with rfl | ⟨batchIdx, hlt, hposition⟩
  · exact Nat.zero_le _
  · have hrows : (batchIdx + 1) * batch.seqLen ≤ batch.batchSize * batch.seqLen :=
      Nat.mul_le_mul_right _ hlt
    rcases hposition with ⟨eodIdx, heod, rfl⟩ | rfl
    · have hrow := lt_of_mem_eodIndices heod
      rw [batch.length_row hlt] at hrow
      rw [Nat.succ_mul] at hrows
      omega
    · exact hrows

theorem exists_cons : ∃ cuts, cuSeqLens = 0 :: cuts := by
  have hzero := (h.mem_iff 0).mpr (.inl rfl)
  cases cuSeqLens with
  | nil => cases hzero
  | cons first cuts =>
    rcases mem_cons.mp hzero with rfl | hlater
    · exact ⟨cuts, rfl⟩
    · have := (pairwise_cons.mp h.increasing).1 0 hlater
      omega

theorem getLast? : cuSeqLens.getLast? = some (batch.batchSize * batch.seqLen) := by
  by_contra hlast
  exact Nat.lt_irrefl _ (lt_of_getLast?_ne h.increasing (fun _ => h.le_total) hlast
    (h.rowStart_mem (Nat.le_refl _)))

theorem mem_inside {batchIdx offset : Nat} (hlt : batchIdx < batch.batchSize) (hpos : 0 < offset)
    (hoffset : offset < batch.seqLen) :
    batchIdx * batch.seqLen + offset ∈ cuSeqLens ↔
      offset ∈ (eodIndices eod (batch.row batchIdx)).map (· + 1) := by
  rw [h.mem_iff, mem_map]
  constructor
  · rintro (hzero | ⟨other, hother, hposition⟩)
    · omega
    · have hrow : ∀ index ∈ eodIndices eod (batch.row other), index < batch.seqLen := by
        intro index hindex
        rw [← batch.length_row hother]
        exact lt_of_mem_eodIndices hindex
      rcases Nat.lt_trichotomy other batchIdx with hbefore | rfl | hafter
      · have hrows : (other + 1) * batch.seqLen ≤ batchIdx * batch.seqLen :=
          Nat.mul_le_mul_right _ hbefore
        rcases hposition with ⟨eodIdx, heod, heq⟩ | heq
        · have := hrow eodIdx heod
          rw [Nat.succ_mul] at hrows
          omega
        · omega
      · rcases hposition with ⟨eodIdx, heod, heq⟩ | heq
        · exact ⟨eodIdx, heod, by omega⟩
        · rw [Nat.succ_mul] at heq
          omega
      · have hrows : (batchIdx + 1) * batch.seqLen ≤ other * batch.seqLen :=
          Nat.mul_le_mul_right _ hafter
        rw [Nat.succ_mul] at hrows
        rcases hposition with ⟨eodIdx, heod, heq⟩ | heq
        · omega
        · rw [Nat.succ_mul] at heq
          omega
  · rintro ⟨eodIdx, heod, rfl⟩
    exact .inr ⟨batchIdx, hlt, .inl ⟨eodIdx, heod, by omega⟩⟩

end

end BoundariesExact

end Rows

end HyperParallel.Data
