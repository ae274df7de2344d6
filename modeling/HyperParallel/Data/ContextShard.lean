import HyperParallel.Foundation.IntervalExchange
import HyperParallel.Foundation.PyDict
import HyperParallel.Foundation.PySequence

/-!
# Batches cut along the context-parallel mesh

The rows of a batch are padded and cut into one slice for every rank.  A row is
a sequence of packs, each an actual length and a padded one; a rank recomputes
both for the part of the packs that lies in its slice.
-/

namespace HyperParallel.Data

open Foundation List
open Foundation.IntervalExchange

structure SequenceRows where
  width : Nat
  rows : List (List Int)
  length_eq : ∀ row ∈ rows, row.length = width
deriving Repr

inductive BatchField where
  | tensor (value : SequenceRows)
  | other (text : String)
deriving Repr

abbrev CpBatch := PyDict String BatchField

inductive ContextShardError where
  | missingInputIds
  | emptyPositionIds
  | missingPaddedRow
  | lensNotTensor
deriving DecidableEq, Repr

def SENTINEL : Int := -1000

def padValue (key : String) : Int := if key = "labels" then -100 else 0

def padBlock (key : String) (padLen : Nat) (row : List Int) : List Int :=
  if key = "position_ids" then (List.range padLen).map fun i => row.getLastD 0 + (i + 1)
  else List.replicate padLen (padValue key)

@[simp] theorem length_padBlock (key : String) (padLen : Nat) (row : List Int) :
    (padBlock key padLen row).length = padLen := by
  unfold padBlock
  split <;> simp

def SequenceRows.pad (value : SequenceRows) (key : String) (padLen : Nat) : SequenceRows where
  width := value.width + padLen
  rows := value.rows.map fun row => row ++ padBlock key padLen row
  length_eq := by
    intro row hrow
    obtain ⟨old, hold, rfl⟩ := mem_map.mp hrow
    rw [length_append, value.length_eq old hold, length_padBlock]

/-- `v[..., lo:hi]`. -/
def SequenceRows.slice (value : SequenceRows) (lo hi : Nat) : SequenceRows where
  width := min (hi - lo) (value.width - lo)
  rows := value.rows.map fun row => segment row lo hi
  length_eq := by
    intro row hrow
    obtain ⟨old, hold, rfl⟩ := mem_map.mp hrow
    rw [IntervalExchange.segment, length_take, length_drop, value.length_eq old hold]

def padField (padLen : Nat) (key : String) : BatchField → BatchField
  | .other text => .other text
  | .tensor value =>
    if key = "qkv_format" ∨ key = "seq_lens" ∨ key = "seq_lens_padded" then .tensor value
    else .tensor (value.pad key padLen)

def emptyPositions (batch : CpBatch) : Bool :=
  match batch.get? "position_ids" with
  | some (.tensor value) => value.width = 0
  | _ => false

def padBatchForCp (batch : CpBatch) (padLen : Nat) : Except ContextShardError CpBatch :=
  if padLen = 0 then .ok batch
  else if emptyPositions batch then .error .emptyPositionIds
  else .ok (batch.mapWithKey (padField padLen))

/-- The lengths of one row's packs inside a slice, from the pack at `offset` on. -/
def shardSeqLensRow (lo hi : Int) : Int → List (Int × Int) → List (Int × Int)
  | _, [] => []
  | offset, (rawLen, rawPad) :: rest =>
    if rawLen = SENTINEL then []
    else
      let packStart := offset
      let packEnd := offset + rawPad
      let interStart := max packStart lo
      let interEnd := min packEnd hi
      let others := shardSeqLensRow lo hi packEnd rest
      if interEnd ≤ interStart then others
      else
        let localActual := max (min (packStart + rawLen) hi - max packStart lo) 0
        let localPad := interEnd - interStart
        if 0 < localActual ∨ 0 < localPad then (localActual, localPad) :: others else others

def shardSeqLensRows (lo hi : Int) :
    List (List Int) → List (List Int) → Except ContextShardError (List (List (Int × Int)))
  | [], _ => .ok []
  | _ :: _, [] => .error .missingPaddedRow
  | row :: rows, padded :: paddedRows => do
      let others ← shardSeqLensRows lo hi rows paddedRows
      .ok (shardSeqLensRow lo hi 0 (row.zip padded) :: others)

def sentinelRow (width : Nat) (row : List Int) : List Int :=
  row ++ List.replicate (width - row.length) SENTINEL

/-- `max_local_packs`, which is at least one. -/
def maxLocalPacks (packs : List (List (Int × Int))) : Nat :=
  packs.foldl (fun width row => max width row.length) 1

theorem length_le_maxLocalPacks {packs : List (List (Int × Int))} {row : List (Int × Int)}
    (hrow : row ∈ packs) : row.length ≤ maxLocalPacks packs := by
  have hle : ∀ (packs : List (List (Int × Int))) (width : Nat),
      width ≤ packs.foldl (fun width row => max width row.length) width ∧
        ∀ row ∈ packs, row.length ≤ packs.foldl (fun width row => max width row.length) width := by
    intro packs
    induction packs with
    | nil => simp
    | cons row packs ih =>
      intro width
      obtain ⟨hwidth, hrows⟩ := ih (max width row.length)
      refine ⟨(le_max_left _ _).trans hwidth, fun other hother => ?_⟩
      rcases mem_cons.mp hother with rfl | hother
      · exact (le_max_right _ _).trans hwidth
      · exact hrows other hother
  exact (hle packs 1).2 row hrow

def sentinelRows (packs : List (List (Int × Int))) (length : Int × Int → Int) : SequenceRows where
  width := maxLocalPacks packs
  rows := packs.map fun row => sentinelRow (maxLocalPacks packs) (row.map length)
  length_eq := by
    intro row hrow
    obtain ⟨old, hold, rfl⟩ := mem_map.mp hrow
    rw [sentinelRow, length_append, length_replicate, length_map]
    exact Nat.add_sub_cancel' (length_le_maxLocalPacks hold)

def shardSeqLensForCp (seqLens seqLensPadded : SequenceRows) (cpRank chunk : Nat) :
    Except ContextShardError (SequenceRows × SequenceRows) := do
  let lo := cpRank * chunk
  let hi := lo + chunk
  let packs ← shardSeqLensRows lo hi seqLens.rows seqLensPadded.rows
  .ok (sentinelRows packs Prod.fst, sentinelRows packs Prod.snd)

def sliceField (lo hi : Nat) (key : String) : BatchField → BatchField
  | .other text => .other text
  | .tensor value => if key = "qkv_format" then .tensor value else .tensor (value.slice lo hi)

/-- `(-seq_len) % (cp_size * 2)`. -/
def cpPadLen (seqLen cpSize : Nat) : Nat := ((-(seqLen : Int)) % ((cpSize * 2 : Nat) : Int)).toNat

def cpChunk (seqLen cpSize : Nat) : Nat := (seqLen + cpPadLen seqLen cpSize) / cpSize

def shardBatchForCp (batch : CpBatch) (cpSize cpRank : Nat) :
    Except ContextShardError CpBatch :=
  if cpSize ≤ 1 then .ok batch
  else
    match batch.get? "input_ids" with
    | some (.tensor inputIds) => do
        let seqLen := inputIds.width
        let padLen := cpPadLen seqLen cpSize
        let chunk := cpChunk seqLen cpSize
        let lo := cpRank * chunk
        let hi := lo + chunk
        let padded ← padBatchForCp batch padLen
        let out :=
          ((padded.erase "seq_lens").erase "seq_lens_padded").mapWithKey (sliceField lo hi)
        match batch.get? "seq_lens", batch.get? "seq_lens_padded" with
        | some (.tensor seqLens), some (.tensor seqLensPadded) =>
          let lens ← shardSeqLensForCp seqLens seqLensPadded cpRank chunk
          .ok ((out.set "seq_lens" (.tensor lens.1)).set "seq_lens_padded" (.tensor lens.2))
        | some _, some _ => .error .lensNotTensor
        | _, _ => .ok out
    | _ => .error .missingInputIds

/-! ## Packs -/

structure Pack where
  start : Nat
  actual : Nat
  padded : Nat
deriving Repr

def packsFrom : Nat → List (Nat × Nat) → List Pack
  | _, [] => []
  | offset, (actual, padded) :: rest => ⟨offset, actual, padded⟩ :: packsFrom (offset + padded) rest

def Pack.piece (slice : Nat × Nat) (pack : Pack) : Nat × Nat :=
  (max slice.1 pack.start, min slice.2 (pack.start + pack.padded))

def Pack.inside (slice : Nat × Nat) (pack : Pack) : Nat × Nat :=
  (overlap slice (pack.start, pack.start + pack.actual),
    overlap slice (pack.start, pack.start + pack.padded))

def packsIn (slice : Nat × Nat) (packs : List (Nat × Nat)) : List Pack :=
  (packsFrom 0 packs).filter fun pack => 0 < (pack.inside slice).2

def HoldsPacks (packs : List (Nat × Nat)) (lens padded : List Int) : Prop :=
  ∃ fill, lens = packs.map (fun pack => (pack.1 : Int)) ++ List.replicate fill SENTINEL ∧
    padded = packs.map (fun pack => (pack.2 : Int)) ++ List.replicate fill SENTINEL

/-- The pieces follow one another from `start` to `stop`. -/
def Tiles : Nat → Nat → List (Nat × Nat) → Prop
  | start, stop, [] => start = stop
  | start, stop, piece :: rest => piece.1 = start ∧ piece.1 < piece.2 ∧ Tiles piece.2 stop rest

theorem shardSeqLensRow_sentinels (lo hi offset : Int) (fill : Nat) :
    shardSeqLensRow lo hi offset (replicate fill (SENTINEL, SENTINEL)) = [] := by
  cases fill with
  | zero => rfl
  | succ fill => rw [replicate_succ, shardSeqLensRow, if_pos rfl]

theorem shardSeqLensRow_packs (lo hi offset fill : Nat) {packs : List (Nat × Nat)}
    (hle : ∀ pack ∈ packs, pack.1 ≤ pack.2) :
    shardSeqLensRow lo hi offset (packs.map (fun pack => ((pack.1 : Int), (pack.2 : Int))) ++
        replicate fill (SENTINEL, SENTINEL)) =
      (((packsFrom offset packs).filter fun pack => 0 < (pack.inside (lo, hi)).2).map
        (Pack.inside (lo, hi))).map fun pack => ((pack.1 : Int), (pack.2 : Int)) := by
  induction packs generalizing offset with
  | nil => simpa [packsFrom] using shardSeqLensRow_sentinels lo hi offset fill
  | cons pack packs ih =>
    obtain ⟨actual, padded⟩ := pack
    have hpack : actual ≤ padded := hle _ mem_cons_self
    have hrest := ih (offset + padded) (fun pack hpack => hle pack (mem_cons_of_mem _ hpack))
    have hlen : ¬(actual : Int) = SENTINEL := by
      unfold SENTINEL
      omega
    rw [map_cons, cons_append, shardSeqLensRow, if_neg hlen, packsFrom]
    push_cast at hrest
    simp only [hrest]
    by_cases hempty : min (offset + padded) hi ≤ max offset lo
    · have hcode : min ((offset : Int) + padded) hi ≤ max (offset : Int) lo := by omega
      have hnone : ¬0 < ((Pack.mk offset actual padded).inside (lo, hi)).2 := by
        simp only [Pack.inside, overlap]
        omega
      rw [if_pos hcode, filter_cons_of_neg (by simpa using hnone)]
    · have hcode : ¬min ((offset : Int) + padded) hi ≤ max (offset : Int) lo := by omega
      have hsome : 0 < ((Pack.mk offset actual padded).inside (lo, hi)).2 := by
        simp only [Pack.inside, overlap]
        omega
      have hmeets : 0 < max (min ((offset : Int) + actual) hi - max (offset : Int) lo) 0 ∨
          0 < min ((offset : Int) + padded) hi - max (offset : Int) lo := by
        right
        omega
      rw [if_neg hcode, if_pos hmeets, filter_cons_of_pos (by simpa using hsome),
        map_cons, map_cons]
      congr 1
      simp only [Pack.inside, overlap, Prod.mk.injEq]
      constructor <;> omega

theorem tiles_pieces {slice : Nat × Nat} (hslice : slice.1 ≤ slice.2) (offset : Nat)
    (packs : List (Nat × Nat)) :
    Tiles (clamp slice offset) (clamp slice (offset + (packs.map Prod.snd).sum))
      (((packsFrom offset packs).filter fun pack => 0 < (pack.inside slice).2).map
        (Pack.piece slice)) := by
  induction packs generalizing offset with
  | nil => simp [packsFrom, Tiles]
  | cons pack packs ih =>
    obtain ⟨actual, padded⟩ := pack
    have hrest := ih (offset + padded)
    rw [Nat.add_assoc] at hrest
    rw [packsFrom, map_cons, sum_cons]
    by_cases hmeets : 0 < ((Pack.mk offset actual padded).inside slice).2
    · rw [filter_cons_of_pos (by simpa using hmeets), map_cons]
      simp only [Pack.inside, overlap] at hmeets
      have hstart : max slice.1 offset = clamp slice offset := by
        unfold clamp
        omega
      have hstop : min slice.2 (offset + padded) = clamp slice (offset + padded) := by
        unfold clamp
        omega
      refine ⟨hstart, ?_, ?_⟩
      · simp only [Pack.piece]
        omega
      · simp only [Pack.piece, hstop]
        exact hrest
    · rw [filter_cons_of_neg (by simpa using hmeets)]
      simp only [Pack.inside, overlap] at hmeets
      have hsame : clamp slice offset = clamp slice (offset + padded) := by
        unfold clamp
        omega
      rw [hsame]
      exact hrest

/-! ## The slices of all ranks -/

section Slices

variable {seqLen cpSize : Nat}

def rowPadLen (seqLen cpSize : Nat) : Nat := if cpSize ≤ 1 then 0 else cpPadLen seqLen cpSize

def rowChunk (seqLen cpSize : Nat) : Nat := if cpSize ≤ 1 then seqLen else cpChunk seqLen cpSize

def cpSlice (seqLen cpSize rank : Nat) : Nat × Nat :=
  (rank * rowChunk seqLen cpSize, rank * rowChunk seqLen cpSize + rowChunk seqLen cpSize)

theorem dvd_add_cpPadLen (hcp : 0 < cpSize) : cpSize ∣ seqLen + cpPadLen seqLen cpSize := by
  have hpos : (0 : Int) < ((cpSize * 2 : Nat) : Int) := by omega
  have hnonneg := Int.emod_nonneg (-(seqLen : Int)) hpos.ne'
  have hcast : ((seqLen + cpPadLen seqLen cpSize : Nat) : Int) =
      ((cpSize * 2 : Nat) : Int) * -((-(seqLen : Int)) / ((cpSize * 2 : Nat) : Int)) := by
    have hsplit := Int.mul_ediv_add_emod (-(seqLen : Int)) ((cpSize * 2 : Nat) : Int)
    unfold cpPadLen
    rw [Int.natCast_add, Int.toNat_of_nonneg hnonneg, Int.mul_neg]
    omega
  have hdvd : ((cpSize * 2 : Nat) : Int) ∣ ((seqLen + cpPadLen seqLen cpSize : Nat) : Int) :=
    ⟨_, hcast⟩
  exact Nat.dvd_trans (Nat.dvd_mul_right cpSize 2) (Int.natCast_dvd_natCast.mp hdvd)

theorem mul_rowChunk (hcp : 0 < cpSize) :
    cpSize * rowChunk seqLen cpSize = seqLen + rowPadLen seqLen cpSize := by
  unfold rowChunk rowPadLen
  split
  · obtain rfl : cpSize = 1 := by omega
    omega
  · exact Nat.mul_div_cancel' (dvd_add_cpPadLen hcp)

theorem sum_overlap_cpSlice (hcp : 0 < cpSize) {start stop : Nat} (hle : start ≤ stop)
    (hstop : stop ≤ seqLen) :
    ((range cpSize).map fun rank => overlap (cpSlice seqLen cpSize rank) (start, stop)).sum =
      stop - start := by
  have hmono : Monotone fun rank => rank * rowChunk seqLen cpSize :=
    fun first second hle => Nat.mul_le_mul_right _ hle
  have hall := @mul_rowChunk seqLen cpSize hcp
  have hsum := @sum_splitSizes_of_covers (fun rank => rank * rowChunk seqLen cpSize) (start, stop)
    cpSize hle hmono (by simp) (by simp only []; omega)
  rw [← hsum, splitSizes]
  congr 1
  refine map_congr_left fun rank _ => ?_
  rw [overlap_comm, cpSlice, Nat.add_mul, Nat.one_mul]

end Slices

/-! ## The shard of a rank -/

structure PackedBatch (batch : CpBatch) (seqLen : Nat) (packRows : List (List (Nat × Nat))) :
    Prop where
  inputIds : ∃ ids, batch.get? "input_ids" = some (.tensor ids) ∧ ids.width = seqLen
  positionIds : ∀ ids, batch.get? "position_ids" = some (.tensor ids) → ids.width = seqLen
  lens : ∃ lens padded, batch.get? "seq_lens" = some (.tensor lens) ∧
    batch.get? "seq_lens_padded" = some (.tensor padded) ∧
      lens.rows.length = padded.rows.length ∧
        List.Forall₂ (fun packs row => HoldsPacks packs row.1 row.2) packRows
          (lens.rows.zip padded.rows)
  actual_le : ∀ packs ∈ packRows, ∀ pack ∈ packs, pack.1 ≤ pack.2
  sum_le : ∀ packs ∈ packRows, (packs.map Prod.snd).sum ≤ seqLen

structure RankShard (batch : CpBatch) (seqLen cpSize : Nat) (packRows : List (List (Nat × Nat)))
    (rank : Nat) (out : CpBatch) : Prop where
  slices : ∀ key value, key ∉ ["qkv_format", "seq_lens", "seq_lens_padded"] →
    batch.get? key = some (.tensor value) → value.width = seqLen →
      ∃ shard, out.get? key = some (.tensor shard) ∧ shard.rows = value.rows.map fun row =>
        segment (row ++ padBlock key (rowPadLen seqLen cpSize) row) (cpSlice seqLen cpSize rank).1
          (cpSlice seqLen cpSize rank).2
  lens : ∃ lens padded, out.get? "seq_lens" = some (.tensor lens) ∧
    out.get? "seq_lens_padded" = some (.tensor padded) ∧ lens.rows.length = padded.rows.length ∧
      List.Forall₂ (fun packs row => ∃ shard, HoldsPacks shard row.1 row.2 ∧
        shard.filter (0 < ·.2) = (packsIn (cpSlice seqLen cpSize rank) packs).map
          (Pack.inside (cpSlice seqLen cpSize rank))) packRows (lens.rows.zip padded.rows)

structure PacksAddUp (seqLen cpSize : Nat) (packs : List (Nat × Nat)) : Prop where
  actual : ∀ pack ∈ packsFrom 0 packs, ((List.range cpSize).map fun rank =>
    (pack.inside (cpSlice seqLen cpSize rank)).1).sum = pack.actual
  padded : ∀ pack ∈ packsFrom 0 packs, ((List.range cpSize).map fun rank =>
    (pack.inside (cpSlice seqLen cpSize rank)).2).sum = pack.padded
  tiles : ∀ rank, Tiles (cpSlice seqLen cpSize rank).1
    (clamp (cpSlice seqLen cpSize rank) (packs.map Prod.snd).sum)
      ((packsIn (cpSlice seqLen cpSize rank) packs).map (Pack.piece (cpSlice seqLen cpSize rank)))

variable {packRows : List (List (Nat × Nat))} {packs : List (Nat × Nat)}

theorem mem_packsFrom {offset : Nat} {pack : Pack} (h : pack ∈ packsFrom offset packs) :
    (pack.actual, pack.padded) ∈ packs ∧
      pack.start + pack.padded ≤ offset + (packs.map Prod.snd).sum := by
  induction packs generalizing offset with
  | nil => simp [packsFrom] at h
  | cons first packs ih =>
    obtain ⟨actual, padded⟩ := first
    rw [packsFrom] at h
    rw [map_cons, sum_cons]
    rcases mem_cons.mp h with rfl | h
    · exact ⟨mem_cons_self, by dsimp only; omega⟩
    · obtain ⟨hmem, hle⟩ := ih h
      exact ⟨mem_cons_of_mem _ hmem, by omega⟩

theorem packsAddUp {seqLen cpSize : Nat} (hcp : 0 < cpSize)
    (hactual : ∀ pack ∈ packs, pack.1 ≤ pack.2) (hsum : (packs.map Prod.snd).sum ≤ seqLen) :
    PacksAddUp seqLen cpSize packs where
  actual := by
    intro pack hpack
    obtain ⟨hmem, hend⟩ := mem_packsFrom hpack
    have hle := hactual _ hmem
    have hall := @sum_overlap_cpSlice seqLen cpSize hcp _ _
      (Nat.le_add_right pack.start pack.actual) (by omega)
    rwa [Nat.add_sub_cancel_left] at hall
  padded := by
    intro pack hpack
    obtain ⟨hmem, hend⟩ := mem_packsFrom hpack
    have hall := @sum_overlap_cpSlice seqLen cpSize hcp _ _
      (Nat.le_add_right pack.start pack.padded) (by omega)
    rwa [Nat.add_sub_cancel_left] at hall
  tiles := by
    intro rank
    have htiles := @tiles_pieces (cpSlice seqLen cpSize rank) (Nat.le_add_right _ _) 0 packs
    have hfirst : clamp (cpSlice seqLen cpSize rank) 0 = (cpSlice seqLen cpSize rank).1 := by
      unfold clamp
      omega
    rwa [hfirst, Nat.zero_add] at htiles

theorem holdsPacks_sentinelRow (packs : List (Nat × Nat)) (width : Nat) :
    HoldsPacks packs
      (sentinelRow width ((packs.map fun pack => ((pack.1 : Int), (pack.2 : Int))).map Prod.fst))
      (sentinelRow width
        ((packs.map fun pack => ((pack.1 : Int), (pack.2 : Int))).map Prod.snd)) := by
  refine ⟨width - packs.length, ?_, ?_⟩ <;> simp [sentinelRow, Function.comp_def]

theorem shardSeqLensRows_packs (lo hi : Nat) {lens padded : List (List Int)}
    (hlen : lens.length = padded.length)
    (hactual : ∀ packs ∈ packRows, ∀ pack ∈ packs, pack.1 ≤ pack.2)
    (hrows : Forall₂ (fun packs row => HoldsPacks packs row.1 row.2) packRows
      (lens.zip padded)) :
    shardSeqLensRows lo hi lens padded = .ok (packRows.map fun packs =>
      ((packsIn (lo, hi) packs).map (Pack.inside (lo, hi))).map
        fun pack => ((pack.1 : Int), (pack.2 : Int))) := by
  induction packRows generalizing lens padded with
  | nil =>
    cases lens with
    | nil => rfl
    | cons row lens =>
      cases padded with
      | nil => simp at hlen
      | cons paddedRow padded => simp at hrows
  | cons packs packRows ih =>
    cases lens with
    | nil => simp at hrows
    | cons row lens =>
      cases padded with
      | nil => simp at hlen
      | cons paddedRow padded =>
        rw [zip_cons_cons, forall₂_cons] at hrows
        obtain ⟨⟨fill, hrow, hpadded⟩, hrest⟩ := hrows
        dsimp only at hrow hpadded
        have hzip : row.zip paddedRow =
            packs.map (fun pack => ((pack.1 : Int), (pack.2 : Int))) ++
              replicate fill (SENTINEL, SENTINEL) := by
          rw [hrow, hpadded, zip_append (by simp), zip_map', zip_replicate']
        have htail := ih (Nat.succ.inj hlen)
          (fun packs hpacks => hactual packs (mem_cons_of_mem _ hpacks)) hrest
        have hhead := shardSeqLensRow_packs lo hi 0 fill (hactual packs mem_cons_self)
        rw [shardSeqLensRows, htail, hzip]
        simp only [Bind.bind, Except.bind, map_cons]
        rw [Int.natCast_zero] at hhead
        rw [hhead]
        rfl

theorem inside_whole {seqLen : Nat} (offset : Nat) (hactual : ∀ pack ∈ packs, pack.1 ≤ pack.2)
    (hsum : offset + (packs.map Prod.snd).sum ≤ seqLen) :
    ((packsFrom offset packs).filter fun pack => 0 < (pack.inside (0, seqLen)).2).map
      (Pack.inside (0, seqLen)) = packs.filter (0 < ·.2) := by
  induction packs generalizing offset with
  | nil => rfl
  | cons pack packs ih =>
    obtain ⟨actual, padded⟩ := pack
    have hle : actual ≤ padded := hactual _ mem_cons_self
    rw [map_cons, sum_cons] at hsum
    have hrest := ih (offset + padded)
      (fun pack hpack => hactual pack (mem_cons_of_mem _ hpack)) (by omega)
    have hinside : (Pack.mk offset actual padded).inside (0, seqLen) = (actual, padded) := by
      simp only [Pack.inside, overlap, Prod.mk.injEq]
      constructor <;> omega
    rw [packsFrom, filter_cons, filter_cons, hinside, ← hrest]
    split
    · rw [map_cons, hinside]
    · rfl

variable {batch : CpBatch}

theorem PackedBatch.rankShard_one {seqLen : Nat} (h : PackedBatch batch seqLen packRows) :
    RankShard batch seqLen 1 packRows 0 batch where
  slices := by
    intro key value _ hvalue hwidth
    refine ⟨value, hvalue, ?_⟩
    have hwhole : ∀ row ∈ value.rows, segment (row ++ padBlock key (rowPadLen seqLen 1) row)
        (cpSlice seqLen 1 0).1 (cpSlice seqLen 1 0).2 = row := by
      intro row hrow
      have hblock : padBlock key (rowPadLen seqLen 1) row = [] := by
        rw [← length_eq_zero_iff, length_padBlock]
        rfl
      rw [hblock, append_nil]
      have hstart : (cpSlice seqLen 1 0).1 = 0 := Nat.zero_mul _
      rw [hstart]
      apply segment_full
      rw [value.length_eq row hrow, hwidth]
      simp [cpSlice, rowChunk]
    conv_lhs => rw [← map_id value.rows]
    exact map_congr_left fun row hrow => (hwhole row hrow).symm
  lens := by
    obtain ⟨lens, padded, hlens, hpadded, hlength, hrows⟩ := h.lens
    refine ⟨lens, padded, hlens, hpadded, hlength, ?_⟩
    have hslice : cpSlice seqLen 1 0 = (0, seqLen) := by simp [cpSlice, rowChunk]
    rw [hslice]
    have hall := (forall₂_and_left packRows _).mpr
      ⟨fun packs hpacks => And.intro (h.actual_le packs hpacks) (h.sum_le packs hpacks), hrows⟩
    refine hall.imp ?_
    rintro packs row ⟨⟨hactual, hsum⟩, hholds⟩
    exact ⟨packs, hholds, (inside_whole 0 hactual (by simpa using hsum)).symm⟩

theorem get?_erase_lens {key : String}
    (hkey : key ∉ ["qkv_format", "seq_lens", "seq_lens_padded"]) :
    ((batch.erase "seq_lens").erase "seq_lens_padded").get? key = batch.get? key := by
  simp only [mem_cons, not_mem_nil, or_false, not_or] at hkey
  rw [PyDict.get?_erase, if_neg hkey.2.2, PyDict.get?_erase, if_neg hkey.2.1]

theorem PackedBatch.padBatchForCp {seqLen : Nat}
    (h : PackedBatch batch seqLen packRows) (cpSize : Nat) :
    ∃ padded, padBatchForCp batch (cpPadLen seqLen cpSize) = .ok padded ∧
      ∀ key value, key ∉ ["qkv_format", "seq_lens", "seq_lens_padded"] →
        batch.get? key = some (.tensor value) →
          ∃ wide, padded.get? key = some (.tensor wide) ∧ wide.rows = value.rows.map fun row =>
            row ++ padBlock key (cpPadLen seqLen cpSize) row := by
  unfold Data.padBatchForCp
  split
  · rename_i hzero
    refine ⟨batch, rfl, fun key value _ hvalue => ⟨value, hvalue, ?_⟩⟩
    have hnone : ∀ row, padBlock key (cpPadLen seqLen cpSize) row = [] := by
      intro row
      rw [← length_eq_zero_iff, length_padBlock, hzero]
    simp [hnone]
  · rename_i hpad
    have hseq : seqLen ≠ 0 := by
      rintro rfl
      exact hpad (by simp [cpPadLen])
    have hpositions : emptyPositions batch = false := by
      unfold emptyPositions
      split
      · rename_i value hvalue
        rw [h.positionIds value hvalue]
        simpa using hseq
      · rfl
    rw [hpositions, if_neg (by simp)]
    refine ⟨_, rfl, fun key value hkey hvalue =>
      ⟨value.pad key (cpPadLen seqLen cpSize), ?_, rfl⟩⟩
    simp only [mem_cons, not_mem_nil, or_false, not_or] at hkey
    rw [PyDict.get?_mapWithKey, hvalue, Option.map_some, padField, if_neg]
    simp [hkey]

theorem get?_set_lens (out : CpBatch) (lens padded : BatchField) :
    ((out.set "seq_lens" lens).set "seq_lens_padded" padded).get? "seq_lens" = some lens ∧
      ((out.set "seq_lens" lens).set "seq_lens_padded" padded).get? "seq_lens_padded" =
        some padded := by
  constructor
  · rw [PyDict.get?_set_of_ne _ _ (by decide), PyDict.get?_set, if_pos rfl]
  · rw [PyDict.get?_set, if_pos rfl]

theorem PackedBatch.rankShard_many {seqLen : Nat}
    (h : PackedBatch batch seqLen packRows) {cpSize : Nat} (hcp : 1 < cpSize) (rank : Nat) :
    ∃ out, shardBatchForCp batch cpSize rank = .ok out ∧
      RankShard batch seqLen cpSize packRows rank out := by
  obtain ⟨ids, hids, rfl⟩ := h.inputIds
  obtain ⟨lens, padded, hlens, hpadded, hlength, hrows⟩ := h.lens
  obtain ⟨wide, hwide, hwideRows⟩ := h.padBatchForCp cpSize
  have hslice : cpSlice ids.width cpSize rank =
      (rank * cpChunk ids.width cpSize, rank * cpChunk ids.width cpSize + cpChunk ids.width cpSize) := by
    rw [cpSlice, rowChunk, if_neg (by omega)]
  have hpacks := shardSeqLensRows_packs (rank * cpChunk ids.width cpSize)
    (rank * cpChunk ids.width cpSize + cpChunk ids.width cpSize) hlength h.actual_le hrows
  rw [← hslice] at hpacks
  obtain ⟨locals, hlocals⟩ : ∃ locals, locals = packRows.map fun packs =>
    ((packsIn (cpSlice ids.width cpSize rank) packs).map
      (Pack.inside (cpSlice ids.width cpSize rank))).map
        fun pack => ((pack.1 : Int), (pack.2 : Int)) := ⟨_, rfl⟩
  rw [← hlocals] at hpacks
  have hrun : shardBatchForCp batch cpSize rank = .ok
      (((((wide.erase "seq_lens").erase "seq_lens_padded").mapWithKey
        (sliceField (cpSlice ids.width cpSize rank).1 (cpSlice ids.width cpSize rank).2)).set
          "seq_lens" (.tensor (sentinelRows locals Prod.fst))).set
            "seq_lens_padded" (.tensor (sentinelRows locals Prod.snd))) := by
    rw [shardBatchForCp, if_neg (by omega), hids]
    simp only [hwide, hlens, hpadded, shardSeqLensForCp, hpacks, Bind.bind, Except.bind]
    rw [hslice]
  refine ⟨_, hrun, ?_, ?_⟩
  · intro key value hkey hvalue _
    obtain ⟨wideValue, hwideValue, hwideMap⟩ := hwideRows key value hkey hvalue
    have hplain := hkey
    simp only [mem_cons, not_mem_nil, or_false, not_or] at hplain
    refine ⟨wideValue.slice (cpSlice ids.width cpSize rank).1 (cpSlice ids.width cpSize rank).2,
      ?_, ?_⟩
    · rw [PyDict.get?_set_of_ne _ _ hplain.2.2, PyDict.get?_set_of_ne _ _ hplain.2.1,
        PyDict.get?_mapWithKey, get?_erase_lens hkey, hwideValue, Option.map_some, sliceField,
        if_neg hplain.1]
    · change wideValue.rows.map (fun row => segment row _ _) = _
      rw [hwideMap, map_map, rowPadLen, if_neg (by omega)]
      rfl
  · refine ⟨_, _, (get?_set_lens _ _ _).1, (get?_set_lens _ _ _).2, ?_, ?_⟩
    · simp [sentinelRows]
    · simp only [sentinelRows]
      rw [zip_map', forall₂_map_right_iff]
      generalize maxLocalPacks locals = width
      rw [hlocals, forall₂_map_right_iff, forall₂_same]
      intro packs _
      refine ⟨(packsIn (cpSlice ids.width cpSize rank) packs).map
        (Pack.inside (cpSlice ids.width cpSize rank)), holdsPacks_sentinelRow _ _, ?_⟩
      rw [filter_eq_self]
      intro part hpart
      obtain ⟨pack, hpack, rfl⟩ := mem_map.mp hpart
      exact (mem_filter.mp hpack).2

structure KeepsPacks (batch : CpBatch) (seqLen : Nat) (packRows : List (List (Nat × Nat)))
    (cpSize : Nat) : Prop where
  ranks : ∀ rank < cpSize, ∃ out, shardBatchForCp batch cpSize rank = .ok out ∧
    RankShard batch seqLen cpSize packRows rank out
  packs : ∀ packs ∈ packRows, PacksAddUp seqLen cpSize packs

theorem shardBatchForCp_keepsPacks {batch : CpBatch} {seqLen : Nat}
    {packRows : List (List (Nat × Nat))} (h : PackedBatch batch seqLen packRows) {cpSize : Nat}
    (hcp : 0 < cpSize) : KeepsPacks batch seqLen packRows cpSize where
  ranks := by
    intro rank hrank
    by_cases hone : cpSize = 1
    · subst hone
      obtain rfl : rank = 0 := by omega
      exact ⟨batch, rfl, h.rankShard_one⟩
    · exact h.rankShard_many (by omega) rank
  packs := by
    intro packs hpacks
    exact packsAddUp hcp (h.actual_le packs hpacks) (h.sum_le packs hpacks)

def twoPacks : CpBatch where
  entries := [
    ("input_ids", .tensor ⟨6, [[1, 2, 3, 0, 4, 0]], by decide⟩),
    ("seq_lens", .tensor ⟨3, [[2, 1, -1000]], by decide⟩),
    ("seq_lens_padded", .tensor ⟨3, [[3, 2, -1000]], by decide⟩)]
  nodup := by decide

theorem packedBatch_twoPacks : PackedBatch twoPacks 6 [[(2, 3), (1, 2)]] where
  inputIds := ⟨_, rfl, rfl⟩
  positionIds := by
    intro ids hids
    cases hids
  lens := ⟨_, _, rfl, rfl, rfl, .cons ⟨1, rfl, rfl⟩ .nil⟩
  actual_le := by decide
  sum_le := by decide

theorem twoPacks_keepsPacks : KeepsPacks twoPacks 6 [[(2, 3), (1, 2)]] 2 :=
  shardBatchForCp_keepsPacks packedBatch_twoPacks (by decide)

end HyperParallel.Data
