import HyperParallel.Pipeline.Interleaved
import Mathlib.Tactic.Ring

/-!
# Rounds of micro-batches

An operation of a rank is a round, a chunk and an offset in the round.  The
cursor of an operation names the stage and the micro-batch it works on.
-/

namespace HyperParallel.Pipeline.ScheduleInterleaved1F1B

open List

variable (schedule : ScheduleInterleaved1F1B)

def roundSize (round : Nat) : Nat := schedule.nMicrobatchPerRound.getD round 0

def roundStart (round : Nat) : Nat := (schedule.nMicrobatchPerRound.take round).sum

variable {schedule}

theorem shortMicro_iff :
    schedule.shortMicro = true ↔ schedule.microBatchNum < schedule.realStageNum := by
  simp [shortMicro]

theorem nRounds_pos : 0 < schedule.nRounds := Nat.lt_of_lt_of_le Nat.zero_lt_one (Nat.le_max_left _ _)

theorem nRounds_of_short (hshort : schedule.microBatchNum < schedule.realStageNum) :
    schedule.nRounds = 1 := by
  rw [nRounds, Nat.div_eq_of_lt hshort]
  rfl

theorem nRounds_of_long (hlong : schedule.realStageNum ≤ schedule.microBatchNum) :
    schedule.nRounds = schedule.microBatchNum / schedule.realStageNum :=
  Nat.max_eq_right (Nat.div_pos hlong schedule.realStageNum_pos)

theorem length_nMicrobatchPerRound : schedule.nMicrobatchPerRound.length = schedule.nRounds := by
  simp [nMicrobatchPerRound]

theorem roundSize_of_short (hshort : schedule.microBatchNum < schedule.realStageNum) :
    schedule.roundSize 0 = schedule.microBatchNum := by
  simp [roundSize, nMicrobatchPerRound, nRounds_of_short hshort, remainder, base,
    shortMicro_iff.mpr hshort]

variable {round : Nat}

theorem roundSize_of_long (hlong : schedule.realStageNum ≤ schedule.microBatchNum)
    (hround : round < schedule.nRounds) :
    schedule.roundSize round =
      schedule.realStageNum + schedule.nExtraMicrobatch / schedule.nRounds +
        if round < schedule.nExtraMicrobatch % schedule.nRounds then 1 else 0 := by
  have hshort : schedule.shortMicro = false := by simp [shortMicro, hlong]
  rw [roundSize, nMicrobatchPerRound, getD_eq_getElem?_getD, getElem?_map,
    getElem?_range hround, Option.map_some, Option.getD_some]
  simp only [remainder, base, hshort, Bool.false_eq_true, if_false]
  generalize schedule.nExtraMicrobatch / schedule.nRounds = base
  split <;> omega

theorem roundStart_zero : schedule.roundStart 0 = 0 := rfl

theorem roundStart_succ (hround : round < schedule.nRounds) :
    schedule.roundStart (round + 1) = schedule.roundStart round + schedule.roundSize round := by
  have hlt : round < schedule.nMicrobatchPerRound.length := by rwa [length_nMicrobatchPerRound]
  rw [roundStart, roundStart, roundSize, take_succ_eq_append_getElem hlt, sum_append,
    getD_eq_getElem?_getD, getElem?_eq_getElem hlt]
  simp

theorem roundStart_of_long (hlong : schedule.realStageNum ≤ schedule.microBatchNum)
    (hround : round ≤ schedule.nRounds) :
    schedule.roundStart round =
      round * (schedule.realStageNum + schedule.nExtraMicrobatch / schedule.nRounds) +
        min round (schedule.nExtraMicrobatch % schedule.nRounds) := by
  induction round with
  | zero => simp [roundStart_zero]
  | succ round ih =>
    rw [roundStart_succ hround, ih (Nat.le_of_lt hround), roundSize_of_long hlong hround,
      Nat.succ_mul]
    split <;> omega

theorem roundStart_nRounds : schedule.roundStart schedule.nRounds = schedule.microBatchNum := by
  by_cases hshort : schedule.microBatchNum < schedule.realStageNum
  · rw [nRounds_of_short hshort, roundStart_succ nRounds_pos, roundSize_of_short hshort,
      roundStart_zero, Nat.zero_add]
  · have hlong : schedule.realStageNum ≤ schedule.microBatchNum := by omega
    have hrest := Nat.mod_lt schedule.nExtraMicrobatch schedule.nRounds_pos
    rw [roundStart_of_long hlong (Nat.le_refl _), Nat.min_eq_right (Nat.le_of_lt hrest), Nat.mul_add,
      Nat.add_assoc, Nat.div_add_mod, nRounds_of_long hlong, nExtraMicrobatch, Nat.mul_comm]
    exact Nat.div_add_mod _ _

theorem roundSize_pos (hround : round < schedule.nRounds) : 0 < schedule.roundSize round := by
  have hP := schedule.realStageNum_pos
  have hM := schedule.microBatchNum_pos
  by_cases hshort : schedule.microBatchNum < schedule.realStageNum
  · rw [nRounds_of_short hshort] at hround
    obtain rfl : round = 0 := by omega
    rwa [roundSize_of_short hshort]
  · rw [roundSize_of_long (by omega) hround, Nat.add_assoc]
    exact Nat.add_pos_left hP _

theorem le_roundSize (hlong : schedule.realStageNum ≤ schedule.microBatchNum)
    (hround : round < schedule.nRounds) : schedule.realStageNum ≤ schedule.roundSize round := by
  rw [roundSize_of_long hlong hround, Nat.add_assoc]
  exact Nat.le_add_right _ _

theorem roundStart_mono {later : Nat} (hle : round ≤ later) (hlater : later ≤ schedule.nRounds) :
    schedule.roundStart round ≤ schedule.roundStart later := by
  induction later, hle using Nat.le_induction with
  | base => exact Nat.le_refl _
  | succ later hle ih =>
    rw [roundStart_succ hlater]
    exact Nat.le_trans (ih (Nat.le_of_lt hlater)) (Nat.le_add_right _ _)

theorem nMicrobatchPerRoundAccu_eq :
    schedule.nMicrobatchPerRoundAccu =
      (range (schedule.nRounds + 1)).map fun round =>
        schedule.roundStart round * schedule.nLocalStages := by
  rw [nMicrobatchPerRoundAccu, accumulate, length_nMicrobatchPerRound, range_succ_eq_map,
    map_cons, map_map, map_map, roundStart_zero, Nat.zero_mul]
  rfl

/-! ## Cursors -/

variable (schedule) in
/-- Where an operation stands. -/
structure Cursor where
  round : Nat
  chunk : Nat
  offset : Nat
  round_lt : round < schedule.nRounds
  chunk_lt : chunk < schedule.nLocalStages
  offset_lt : offset < schedule.roundSize round

namespace Cursor

variable (cursor : schedule.Cursor)

def opIndex : Nat :=
  schedule.nLocalStages * schedule.roundStart cursor.round +
    cursor.chunk * schedule.roundSize cursor.round + cursor.offset

def micro : Nat := schedule.roundStart cursor.round + cursor.offset

theorem chunk_le :
    (cursor.chunk + 1) * schedule.roundSize cursor.round ≤
      schedule.nLocalStages * schedule.roundSize cursor.round :=
  Nat.mul_le_mul_right _ cursor.chunk_lt

theorem opIndex_lt_next :
    cursor.opIndex < schedule.nLocalStages * schedule.roundStart (cursor.round + 1) := by
  have hchunk := cursor.chunk_le
  have hoffset := cursor.offset_lt
  rw [roundStart_succ cursor.round_lt, Nat.mul_add, opIndex]
  rw [Nat.succ_mul] at hchunk
  omega

theorem opIndex_lt : cursor.opIndex < schedule.nLocalStages * schedule.microBatchNum := by
  refine Nat.lt_of_lt_of_le cursor.opIndex_lt_next (Nat.mul_le_mul_left _ ?_)
  rw [← roundStart_nRounds]
  exact roundStart_mono cursor.round_lt (Nat.le_refl _)

theorem bisectRight_range {f : Nat → Nat} {n k x : Nat} (hk : k < n) (hle : ∀ j ≤ k, f j ≤ x)
    (hlt : k + 1 < n → x < f (k + 1)) : bisectRight ((range n).map f) x = k + 1 := by
  obtain ⟨rest, rfl⟩ := Nat.exists_eq_add_of_lt hk
  rw [bisectRight, show k + rest + 1 = k + 1 + rest by omega, range_add, map_append,
    takeWhile_append_of_pos]
  · rw [length_append, length_map, length_range]
    cases rest with
    | zero => simp
    | succ rest =>
      have hnext := hlt (by omega)
      rw [range_succ_eq_map, map_cons, map_cons, takeWhile_cons_of_neg (by simpa using hnext)]
      rfl
  · intro y hy
    obtain ⟨j, hj, rfl⟩ := mem_map.mp hy
    rw [mem_range] at hj
    simpa using hle j (by omega)

theorem accuIndex :
    bisectRight schedule.nMicrobatchPerRoundAccu cursor.opIndex - 1 = cursor.round := by
  have hround := cursor.round_lt
  rw [nMicrobatchPerRoundAccu_eq, bisectRight_range (k := cursor.round) (by omega)]
  · rfl
  · intro j hj
    have hmono := roundStart_mono hj (Nat.le_of_lt hround)
    rw [Nat.mul_comm, opIndex]
    exact Nat.le_trans (Nat.mul_le_mul_left _ hmono) (by omega)
  · intro _
    rw [Nat.mul_comm]
    exact cursor.opIndex_lt_next

theorem localIndex : schedule.localIndex cursor.opIndex = cursor.chunk := by
  have hround := cursor.round_lt
  have hpos := roundSize_pos hround
  have hstart : schedule.nMicrobatchPerRoundAccu.getD cursor.round 0 =
      schedule.nLocalStages * schedule.roundStart cursor.round := by
    rw [nMicrobatchPerRoundAccu_eq, getD_eq_getElem?_getD, getElem?_map,
      getElem?_range (by omega), Option.map_some, Option.getD_some, Nat.mul_comm]
  rw [ScheduleInterleaved1F1B.localIndex, cursor.accuIndex, hstart, ← roundSize, opIndex,
    Nat.add_assoc, Nat.add_sub_cancel_left, Nat.add_comm, Nat.add_mul_div_right _ _ hpos,
    Nat.div_eq_of_lt cursor.offset_lt, Nat.zero_add]

theorem ext_opIndex {a b : schedule.Cursor} (h : a.opIndex = b.opIndex) : a = b := by
  have hround : a.round = b.round := by rw [← a.accuIndex, h, b.accuIndex]
  have hchunk : a.chunk = b.chunk := by rw [← a.localIndex, h, b.localIndex]
  have hoffset : a.offset = b.offset := by
    rw [opIndex, opIndex, hround, hchunk] at h
    omega
  obtain ⟨round, chunk, offset, _, _, _⟩ := a
  obtain ⟨round', chunk', offset', _, _, _⟩ := b
  simp_all

end Cursor

def seen (schedule : ScheduleInterleaved1F1B) (opIndex chunk : Nat) : Nat :=
  ((List.range opIndex).map schedule.localIndex).count chunk

theorem seen_succ (opIndex chunk : Nat) :
    schedule.seen (opIndex + 1) chunk =
      schedule.seen opIndex chunk + if schedule.localIndex opIndex = chunk then 1 else 0 := by
  rw [seen, range_succ, map_append, count_append]
  simp [seen, count_singleton]

theorem exists_cursor_seen {opIndex : Nat}
    (hlt : opIndex < schedule.nLocalStages * schedule.microBatchNum) :
    ∃ cursor : schedule.Cursor, cursor.opIndex = opIndex ∧ ∀ chunk < schedule.nLocalStages,
      schedule.seen opIndex chunk = schedule.roundStart cursor.round +
        if chunk < cursor.chunk then schedule.roundSize cursor.round
        else if chunk = cursor.chunk then cursor.offset else 0 := by
  induction opIndex with
  | zero =>
    refine ⟨⟨0, 0, 0, nRounds_pos, schedule.nLocalStages_pos, roundSize_pos nRounds_pos⟩, ?_⟩
    simp [Cursor.opIndex, roundStart_zero, seen]
  | succ opIndex ih =>
    obtain ⟨cursor, hop, hseen⟩ := ih (by omega)
    have hlocal : schedule.localIndex opIndex = cursor.chunk := by rw [← hop, cursor.localIndex]
    have hoffset := cursor.offset_lt
    by_cases hnext : cursor.offset + 1 < schedule.roundSize cursor.round
    · -- the next micro-batch of the round
      refine ⟨⟨cursor.round, cursor.chunk, cursor.offset + 1, cursor.round_lt, cursor.chunk_lt,
        hnext⟩, ?_, fun chunk hchunk => ?_⟩
      · rw [← hop]
        rfl
      · rw [seen_succ, hseen chunk hchunk, hlocal]
        dsimp only
        split_ifs <;> omega
    by_cases hchunk : cursor.chunk + 1 < schedule.nLocalStages
    · -- the next chunk
      refine ⟨⟨cursor.round, cursor.chunk + 1, 0, cursor.round_lt, hchunk, by omega⟩, ?_,
        fun chunk hlt => ?_⟩
      · rw [← hop]
        simp only [Cursor.opIndex, Nat.succ_mul]
        omega
      · rw [seen_succ, hseen chunk hlt, hlocal]
        dsimp only
        split_ifs <;> omega
    · -- the next round
      have hlast : cursor.chunk + 1 = schedule.nLocalStages := by
        have := cursor.chunk_lt
        omega
      have hend : opIndex + 1 =
          schedule.nLocalStages * schedule.roundStart (cursor.round + 1) := by
        rw [← hop, roundStart_succ cursor.round_lt, Cursor.opIndex, Nat.mul_add, ← hlast,
          Nat.succ_mul _ (schedule.roundSize _)]
        omega
      have hround : cursor.round + 1 < schedule.nRounds := by
        by_contra hnot
        obtain heq : cursor.round + 1 = schedule.nRounds := by
          have := cursor.round_lt
          omega
        rw [heq, roundStart_nRounds] at hend
        omega
      refine ⟨⟨cursor.round + 1, 0, 0, hround, schedule.nLocalStages_pos, roundSize_pos hround⟩,
        ?_, fun chunk hlt => ?_⟩
      · simp [Cursor.opIndex, hend]
      · rw [seen_succ, hseen chunk hlt, hlocal]
        dsimp only
        rw [roundStart_succ cursor.round_lt]
        split_ifs <;> omega

theorem exists_cursor {opIndex : Nat}
    (hlt : opIndex < schedule.nLocalStages * schedule.microBatchNum) :
    ∃ cursor : schedule.Cursor, cursor.opIndex = opIndex := by
  obtain ⟨cursor, hop, -⟩ := exists_cursor_seen hlt
  exact ⟨cursor, hop⟩

theorem Cursor.seen (cursor : schedule.Cursor) :
    schedule.seen cursor.opIndex cursor.chunk = cursor.micro := by
  obtain ⟨cursor', hop, hseen⟩ := exists_cursor_seen cursor.opIndex_lt
  obtain rfl := Cursor.ext_opIndex hop
  rw [hseen _ cursor'.chunk_lt, if_neg (Nat.lt_irrefl _), if_pos rfl, micro]

theorem exists_cursor_micro {chunk micro : Nat} (hchunk : chunk < schedule.nLocalStages)
    (hmicro : micro < schedule.microBatchNum) :
    ∃ cursor : schedule.Cursor, cursor.chunk = chunk ∧ cursor.micro = micro := by
  have hround : ∀ n ≤ schedule.nRounds, micro < schedule.roundStart n →
      ∃ round < n, schedule.roundStart round ≤ micro ∧ micro < schedule.roundStart (round + 1) := by
    intro n
    induction n with
    | zero =>
      intro _ h
      simp [roundStart_zero] at h
    | succ n ih =>
      intro hn h
      by_cases hbefore : micro < schedule.roundStart n
      · obtain ⟨round, hlt, hspec⟩ := ih (by omega) hbefore
        exact ⟨round, by omega, hspec⟩
      · exact ⟨n, by omega, by omega, h⟩
  obtain ⟨round, hlt, hle, hnext⟩ :=
    hround schedule.nRounds (Nat.le_refl _) (by rwa [roundStart_nRounds])
  rw [roundStart_succ hlt] at hnext
  refine ⟨⟨round, chunk, micro - schedule.roundStart round, hlt, hchunk, by omega⟩, rfl, ?_⟩
  simp only [Cursor.micro]
  omega

end HyperParallel.Pipeline.ScheduleInterleaved1F1B
