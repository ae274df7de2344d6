import HyperParallel.DTensor.AlongAxes
import HyperParallel.DTensor.Slice
import HyperParallel.Foundation.FloatRound

/-!
# Flash attention on a sequence split

The query of an attention call may be cut along its sequence while every rank has
all keys.  The arguments of the call are adjusted on each rank so that the kernel,
which numbers the rows it gets from zero, masks them as the whole call would: the
token window is moved, an explicit mask is cut and cumulative lengths of documents
are clamped to the slice.
-/

namespace HyperParallel.Shard.FlashAttention

open Foundation DTensor

inductive InputLayout where
  | bsh
  | sbh
  | bnsd
  | bsnd
  | tnd
  deriving DecidableEq, Repr

/-- The dimension `"seq"` of the layout, or `"total"`. -/
def InputLayout.seqDim : InputLayout → Nat
  | .bsh => 1
  | .sbh => 0
  | .bnsd => 2
  | .bsnd => 1
  | .tnd => 0

inductive SparseMode where
  | defaultMask
  | allMask
  | leftUpCausal
  | rightDownCausal
  | band
  deriving DecidableEq, Repr

inductive UpdateMode where
  | leftUpToLeftUp
  | leftUpToRightDown
  | rightDownToRightDown
  deriving DecidableEq, Repr

def SparseMode.updateMode : SparseMode → UpdateMode
  | .defaultMask => .leftUpToLeftUp
  | .allMask => .leftUpToLeftUp
  | .leftUpCausal => .leftUpToRightDown
  | .rightDownCausal => .rightDownToRightDown
  | .band => .rightDownToRightDown

/-- A mask of two or four dimensions; `rows` is its last dimension but one. -/
inductive Mask where
  | rank2 (rows : Nat) (entry : Nat → Nat → Bool)
  | rank4 (rows : Nat) (entry : Nat → Nat → Nat → Nat → Bool)

namespace Mask

def rows : Mask → Nat
  | .rank2 rows _ => rows
  | .rank4 rows _ => rows

def blocks (batch head row column : Nat) : Mask → Bool
  | .rank2 _ entry => entry row column
  | .rank4 _ entry => entry batch head row column

/-- `mask[..., offset:offset + length, :]` -/
def slice (offset length : Nat) : Mask → Mask
  | .rank2 _ entry => .rank2 length fun row => entry (offset + row)
  | .rank4 _ entry => .rank4 length fun batch head row => entry batch head (offset + row)

end Mask

structure AttentionArgs where
  sparseMode : SparseMode
  preTockens : Int
  nextTockens : Int
  actualSeqQlen : Option (List Int)
  actualSeqKvlen : Option (List Int)
  attenMask : Option Mask

inductive FlashError where
  | lbSplitNumMissing
  | kvSequenceSharding (seqSplitNum kvSeqSplitNum : Nat)
  | tndSparseMode (got : SparseMode)
  | tndGlobalLength (query key : Nat)
  | tndSplitNum (query key : Nat)
  | tndLocalLength (query key : Nat)
  | tndSeqLengthsMissing
  | seqLengthsMismatch (query key : Nat)
  | lbMaskRows (rows expected : Nat)
  deriving DecidableEq, Repr

/-! ## The split of the sequence -/

structure MeshLayout where
  meshShape : MeshShape
  rankList : List Nat
  tensorMap : TensorMap
  sizes_pos : ∀ size ∈ meshShape, 0 < size
  ranks_length : rankList.length = meshShape.prod
  ranks_nodup : rankList.Nodup
  wellFormed : WellFormed meshShape.length tensorMap

namespace MeshLayout

variable (layout : MeshLayout)

def getDeviceNumAlongAxis (axis : Int) : Nat :=
  layout.meshShape.getD (meshDimOf layout.meshShape.length axis) 0

def getRankListAlongAxis (rank : Nat) (axis : Int) : List Nat :=
  let coord := calculateMeshCoordinateForRank layout.meshShape (layout.rankList.idxOf rank)
  let dimIndex := meshDimOf layout.meshShape.length axis
  (List.range (layout.getDeviceNumAlongAxis axis)).map fun v =>
    layout.rankList.getD (MixedRadix.value layout.meshShape (coord.set dimIndex v)) 0

def getDimSplitNum (dimIdx : Nat) : Nat :=
  match layout.tensorMap[dimIdx]? with
  | none => 1
  | some (.axis axis) => if axis = NONE then 1 else layout.getDeviceNumAlongAxis axis
  | some (.axes axes) => axes.foldl (fun total axis =>
    if axis = NONE then total else total * layout.getDeviceNumAlongAxis axis) 1

def indexAlongAxis (rank : Nat) (axis : Int) : Nat :=
  let rankList := layout.getRankListAlongAxis rank axis
  if rank ∈ rankList then rankList.idxOf rank else 0

def getSplitId (rank dimIdx : Nat) : Nat :=
  match layout.tensorMap[dimIdx]? with
  | none => 0
  | some (.axis axis) => if axis = NONE then 0 else layout.indexAlongAxis rank axis
  | some (.axes axes) =>
    match (axes.filter (· ≠ NONE)).getLast? with
    | none => 0
    | some axis => layout.indexAlongAxis rank axis

end MeshLayout

/-! ## The adjusted arguments -/

def isAttnMaskCompressed : SparseMode → Bool
  | .leftUpCausal | .rightDownCausal | .band => true
  | .defaultMask | .allMask => false

def adjustAttenMaskForSeqSplit (attenMask : Option Mask) (sparseMode : SparseMode)
    (splitId localQLen seqSplitNum : Nat) : Option Mask :=
  match attenMask with
  | none => none
  | some mask =>
    if isAttnMaskCompressed sparseMode then some mask
    else if mask.rows ≠ localQLen * seqSplitNum then some mask
    else some (mask.slice (splitId * localQLen) localQLen)

def validateAttenMaskForLb (attenMask : Option Mask) (sparseMode : SparseMode)
    (localQLen seqSplitNum : Nat) : Except FlashError Unit :=
  match attenMask with
  | none => .ok ()
  | some mask =>
    if isAttnMaskCompressed sparseMode then .ok ()
    else if mask.rows ≠ localQLen * seqSplitNum then
      .error (.lbMaskRows mask.rows (localQLen * seqSplitNum))
    else .ok ()

def computeSparseParams (sparseMode : SparseMode) (preTockens nextTockens : Int)
    (splitId splitNum localQLen globalKvLen : Nat) : SparseMode × Int × Int :=
  if sparseMode = .allMask then (sparseMode, preTockens, nextTockens)
  else
    let (newPre, newNext) : Int × Int :=
      if sparseMode = .defaultMask ∨ sparseMode = .band then (preTockens, nextTockens)
      else (globalKvLen, 0)
    let newSparseMode := if sparseMode ≠ .defaultMask then .band else sparseMode
    match sparseMode.updateMode with
    | .leftUpToLeftUp =>
      (newSparseMode, newPre - splitId * localQLen, newNext + splitId * localQLen)
    | .leftUpToRightDown =>
      let offset : Int := globalKvLen - (splitId + 1) * localQLen
      (newSparseMode, newPre + offset, newNext - offset)
    | .rightDownToRightDown =>
      let offset : Int := ((splitNum : Int) - splitId - 1) * localQLen
      (newSparseMode, newPre + offset, newNext - offset)

def clamp (lower upper x : Int) : Int := min (max x lower) upper

/-- `torch.relu(x.float()).long()` -/
def reluLong (x : Int) : Int := FloatRound.roundToEven 24 x.toNat

def broadcastSub (xs ys : List Int) : Option (List Int) :=
  if xs.length = ys.length then some (List.zipWith (· - ·) xs ys)
  else if ys.length = 1 then some (xs.map (· - ys.headD 0))
  else if xs.length = 1 then some (ys.map (xs.headD 0 - ·))
  else none

def restoreLast (sliceTk : Nat) (old new : List Int) : Option (List Int) :=
  match new with
  | [] => some []
  | _ :: _ => do
      let last ← old[new.length - 1]?
      return if last = sliceTk then new.set (new.length - 1) sliceTk else new

def adjustActualSeqLen (sliceTq sliceTk : Nat) (actualSeqQlen actualSeqKvlen : List Int)
    (splitId : Nat) (kvIsSharded : Bool) : Except FlashError (List Int × List Int) :=
  let qlenOffset := actualSeqQlen.map fun length : Int => length - sliceTq * splitId
  let newQlen := qlenOffset.map (clamp 0 sliceTq)
  if kvIsSharded then
    .ok (newQlen,
      actualSeqKvlen.map fun length : Int => clamp 0 sliceTk (length - sliceTk * splitId))
  else
    let kvlenOffset := List.zipWith (· - ·) (qlenOffset.map reluLong) newQlen
    match (broadcastSub actualSeqKvlen kvlenOffset).bind (restoreLast sliceTk actualSeqKvlen) with
    | none => .error (.seqLengthsMismatch actualSeqQlen.length actualSeqKvlen.length)
    | some newKvlen => .ok (newQlen, newKvlen)

def keySplitNum (keyLayout : Option MeshLayout) (dimIdx : Nat) : Nat :=
  match keyLayout with
  | none => 1
  | some layout => layout.getDimSplitNum dimIdx

def adjustTndLayoutParams (layout : MeshLayout) (keyLayout : Option MeshLayout)
    (args : AttentionArgs) (seqSplitNum splitId kvSeqSplitNum localQLen localKvLen : Nat) :
    Except FlashError AttentionArgs := do
  let querySeqSplit := layout.getDimSplitNum InputLayout.tnd.seqDim
  let batchSplitNum := keySplitNum keyLayout InputLayout.tnd.seqDim
  let s1SplitNum := if batchSplitNum = 0 then querySeqSplit else querySeqSplit / batchSplitNum
  if 1 < s1SplitNum then
    if args.sparseMode ≠ .rightDownCausal then throw (.tndSparseMode args.sparseMode)
    if localQLen * seqSplitNum ≠ localKvLen * kvSeqSplitNum then
      throw (.tndGlobalLength (localQLen * seqSplitNum) (localKvLen * kvSeqSplitNum))
    if querySeqSplit ≠ batchSplitNum * s1SplitNum then
      throw (.tndSplitNum querySeqSplit batchSplitNum)
  else if localQLen ≠ localKvLen then throw (.tndLocalLength localQLen localKvLen)
  match args.actualSeqQlen, args.actualSeqKvlen with
  | some actualSeqQlen, some actualSeqKvlen =>
    let (newQlen, newKvlen) ← adjustActualSeqLen localQLen localKvLen actualSeqQlen
      actualSeqKvlen splitId (1 < kvSeqSplitNum)
    return { args with actualSeqQlen := some newQlen, actualSeqKvlen := some newKvlen }
  | _, _ => throw .tndSeqLengthsMissing

/-- `lb` is the split index and number that a load-balanced call sets in its thread. -/
def applySeqSplitAdjustments (layout : MeshLayout) (keyLayout : Option MeshLayout)
    (inputLayout : InputLayout) (args : AttentionArgs) (rank seqSplitNum localQLen localKvLen : Nat)
    (lb : Option (Nat × Option Nat)) : Except FlashError AttentionArgs :=
  if ¬(1 < seqSplitNum ∨ lb.isSome) then .ok args
  else do
    let (splitId, seqSplitNum) ← match lb with
      | some (_, none) => .error .lbSplitNumMissing
      | some (lbSplitId, some lbSplitNum) => .ok (lbSplitId, lbSplitNum)
      | none => .ok (layout.getSplitId rank inputLayout.seqDim, seqSplitNum)
    let kvSeqSplitNum := keySplitNum keyLayout inputLayout.seqDim
    if inputLayout ≠ .tnd ∧ 1 < kvSeqSplitNum then
      throw (.kvSequenceSharding seqSplitNum kvSeqSplitNum)
    let (sparseMode, preTockens, nextTockens) := computeSparseParams args.sparseMode
      args.preTockens args.nextTockens splitId seqSplitNum localQLen (localKvLen * kvSeqSplitNum)
    let adjusted ← if inputLayout = .tnd then
        adjustTndLayoutParams layout keyLayout args seqSplitNum splitId kvSeqSplitNum localQLen
          localKvLen
      else .ok { args with
        sparseMode := sparseMode
        preTockens := preTockens
        nextTockens := nextTockens }
    if lb.isSome then
      validateAttenMaskForLb args.attenMask adjusted.sparseMode localQLen seqSplitNum
    return { adjusted with
      attenMask := adjustAttenMaskForSeqSplit args.attenMask adjusted.sparseMode splitId localQLen
        seqSplitNum }

/-! ## What the kernel allows -/

def windowAllows (args : AttentionArgs) (queryLength keyLength : Int) (batch head : Nat)
    (row column : Int) : Prop :=
  let masked := ∃ mask ∈ args.attenMask, mask.blocks batch head row.toNat column.toNat = true
  let corner := row + (keyLength - queryLength)
  match args.sparseMode with
  | .defaultMask => row - args.preTockens ≤ column ∧ column ≤ row + args.nextTockens ∧ ¬masked
  | .allMask => ¬masked
  | .leftUpCausal => column ≤ row
  | .rightDownCausal => column ≤ corner
  | .band => corner - args.preTockens ≤ column ∧ column ≤ corner + args.nextTockens

def docStart (lengths : List Int) (doc : Nat) : Int :=
  if doc = 0 then 0 else lengths.getD (doc - 1) 0

def docStop (lengths : List Int) (doc : Nat) : Int := lengths.getD doc 0

def inDoc (lengths : List Int) (doc : Nat) (position : Int) : Prop :=
  doc < lengths.length ∧ docStart lengths doc ≤ position ∧ position < docStop lengths doc

/-- The rows of a call may see these keys; documents are told apart only in `TND`. -/
def allows (inputLayout : InputLayout) (args : AttentionArgs) (queryLength keyLength : Nat)
    (batch head doc row column : Nat) : Prop :=
  row < queryLength ∧ column < keyLength ∧
    match inputLayout, args.actualSeqQlen, args.actualSeqKvlen with
    | .tnd, some qlen, some kvlen =>
      inDoc qlen doc row ∧ inDoc kvlen doc column ∧
        windowAllows args (docStop qlen doc - docStart qlen doc)
          (docStop kvlen doc - docStart kvlen doc) batch head (row - docStart qlen doc)
          (column - docStart kvlen doc)
    | _, _, _ => doc = 0 ∧ windowAllows args queryLength keyLength batch head row column

open List

/-! ## The slice of a rank -/

/-- One axis cuts the queries into `splitNum` slices, that of the rank starts at `start`, and every
rank has all keys. -/
structure Slices (layout : MeshLayout) (keyLayout : Option MeshLayout) (dimIdx rank : Nat)
    (axis : Int) (localQLen splitNum start : Nat) : Prop where
  mapped : layout.tensorMap[dimIdx]? = some (.axis axis)
  isAxis : axis ≠ NONE
  member : rank ∈ layout.rankList
  number : layout.getDimSplitNum dimIdx = splitNum
  cut : 1 < splitNum
  slice : (dimSlice layout.meshShape [] (layout.rankList.idxOf rank) (localQLen * splitNum)
    (.axis axis)).1 = start
  keys : keySplitNum keyLayout dimIdx = 1

section Slices

variable {layout : MeshLayout} {keyLayout : Option MeshLayout} {dimIdx rank : Nat} {axis : Int}
  {localQLen splitNum start : Nat}

theorem indexAlongAxis_eq (haxis : 0 ≤ axis ∧ axis < layout.meshShape.length)
    (hrank : rank ∈ layout.rankList) :
    layout.indexAlongAxis rank axis =
      axisCoordinate layout.meshShape (layout.rankList.idxOf rank) axis := by
  have hdim := meshDimOf_lt haxis
  have hlen := layout.ranks_length
  have hidx := hlen ▸ idxOf_lt_length_iff.mpr hrank
  have hplace := axisCoordinate_lt layout.sizes_pos (layout.rankList.idxOf rank) haxis
  have hlist : layout.getRankListAlongAxis rank axis =
      (onAxis layout.meshShape (meshDimOf layout.meshShape.length axis)
        (layout.rankList.idxOf rank)).map (layout.rankList.getD · 0) := by
    simp [MeshLayout.getRankListAlongAxis, MeshLayout.getDeviceNumAlongAxis, onAxis, moveTo,
      calculateMeshCoordinateForRank_eq_digits]
  have hnodup : (layout.getRankListAlongAxis rank axis).Nodup := by
    rw [hlist]
    refine (onAxis_nodup hidx hdim).map_on fun a ha b hb heq => ?_
    have ha := hlen ▸ ((mem_onAxis_iff hidx hdim).mp ha).1
    have hb := hlen ▸ ((mem_onAxis_iff hidx hdim).mp hb).1
    rw [getD_eq_getElem _ _ ha, getD_eq_getElem _ _ hb] at heq
    exact layout.ranks_nodup.getElem_inj_iff.mp heq
  have hget : (layout.getRankListAlongAxis rank axis)[
      axisCoordinate layout.meshShape (layout.rankList.idxOf rank) axis]? = some rank := by
    rw [hlist, onAxis, getElem?_map, getElem?_map, getElem?_range hplace, Option.map_some,
      Option.map_some, axisCoordinate, calculateMeshCoordinateForRank_eq_digits,
      getD_eq_getElem (MixedRadix.digits _ _) _ (by simpa using hdim), moveTo, set_getElem_self,
      MixedRadix.value_digits hidx, getD_idxOf hrank]
  obtain ⟨hlt, heq⟩ := List.getElem?_eq_some_iff.mp hget
  rw [MeshLayout.indexAlongAxis, if_pos (mem_of_getElem? hget)]
  simpa only [heq] using hnodup.idxOf_getElem _ hlt

theorem Slices.exists_splitId
    (h : Slices layout keyLayout dimIdx rank axis localQLen splitNum start) :
    ∃ splitId < splitNum, layout.getSplitId rank dimIdx = splitId ∧ start = splitId * localQLen ∧
      start + localQLen ≤ localQLen * splitNum := by
  obtain ⟨hmap, haxis, hrank, rfl, -, rfl, -⟩ := h
  have hused : (DimMapping.axis axis).usedAxes = [axis] := by
    simp [DimMapping.usedAxes, DimMapping.mappedDims, haxis]
  have hrange := layout.wellFormed.entry (mem_of_getElem? hmap) axis (by simp [hused])
  have hplace := axisCoordinate_lt layout.sizes_pos (layout.rankList.idxOf rank) hrange
  simp only [MeshLayout.getSplitId, MeshLayout.getDimSplitNum, hmap, if_neg haxis,
    indexAlongAxis_eq hrange hrank, MeshLayout.getDeviceNumAlongAxis, dimSlice, dimLevels,
    dimCoordinates, hused, map_cons, map_nil, Chunking.narrow, axisLevel, not_mem_nil, if_false,
    Nat.mul_comm localQLen]
  rw [balancedRule_even _ _ _ (Nat.zero_lt_of_lt hplace) hplace]
  refine ⟨_, hplace, rfl, rfl, ?_⟩
  rw [Nat.add_zero, ← Nat.succ_mul]
  exact Nat.mul_le_mul_right _ hplace

end Slices

/-! ## Windows -/

/-- The arguments of a rank outside `TND`. -/
def adjustedArgs (args : AttentionArgs) (splitId splitNum localQLen keyLen : Nat) : AttentionArgs :=
  let (mode, pre, next) := computeSparseParams args.sparseMode args.preTockens args.nextTockens
    splitId splitNum localQLen keyLen
  { args with
    sparseMode := mode
    preTockens := pre
    nextTockens := next
    attenMask := adjustAttenMaskForSeqSplit args.attenMask mode splitId localQLen splitNum }

theorem windowAllows_adjustedArgs {args : AttentionArgs} {batch head splitId splitNum localQLen keyLen
    row column : Nat} (hid : splitId < splitNum) (hrow : row < localQLen)
    (hmask : ∀ mask ∈ args.attenMask, isAttnMaskCompressed args.sparseMode = false →
      mask.rows = localQLen * splitNum) :
    windowAllows (adjustedArgs args splitId splitNum localQLen keyLen) localQLen keyLen batch head row
        column ↔
      windowAllows args (localQLen * splitNum : Nat) keyLen batch head
          (splitId * localQLen + row : Nat) column ∧
        (args.sparseMode = .leftUpCausal → splitId * localQLen + row ≤ column + keyLen) := by
  obtain ⟨sparseMode, preTockens, nextTockens, qlen, kvlen, attenMask⟩ := args
  have hmasked (huncompressed : isAttnMaskCompressed sparseMode = false) :
      (∃ mask ∈ adjustAttenMaskForSeqSplit attenMask sparseMode splitId localQLen splitNum,
        mask.blocks batch head row column = true) ↔
      ∃ mask ∈ attenMask, mask.blocks batch head (splitId * localQLen + row) column = true := by
    cases attenMask with
    | none => simp [adjustAttenMaskForSeqSplit]
    | some mask =>
      have hrows := hmask mask rfl huncompressed
      cases mask <;> simp_all [adjustAttenMaskForSeqSplit, Mask.slice, Mask.blocks, Mask.rows]
  -- The bounds are linear in the rows before the slice and the rows of the whole call.
  have hafter : ((splitId : Int) + 1) * localQLen = splitId * localQLen + localQLen := by ring
  have hbehind : ((splitNum : Int) - splitId - 1) * localQLen =
      localQLen * splitNum - splitId * localQLen - localQLen := by ring
  have hle : (splitId : Int) * localQLen + localQLen ≤ localQLen * splitNum := by
    rw [← hafter, Int.mul_comm (localQLen : Int)]
    exact Int.mul_le_mul_of_nonneg_right (by omega) (by omega)
  have hrow' : ((splitId : Int) * localQLen + row).toNat = splitId * localQLen + row := by
    exact_mod_cast Int.toNat_natCast (splitId * localQLen + row)
  cases sparseMode <;>
    simp only [windowAllows, adjustedArgs, computeSparseParams, SparseMode.updateMode, reduceCtorEq,
      or_false, or_true, ↓reduceIte, ne_eq, not_true_eq_false, not_false_eq_true, false_implies,
      and_true, Int.toNat_natCast, hafter, hbehind, hrow', Nat.cast_add, Nat.cast_mul, true_implies]
  case defaultMask =>
    rw [hmasked rfl]
    exact and_congr (by omega) (and_congr (by omega) Iff.rfl)
  case allMask => rw [hmasked rfl]
  all_goals omega

theorem allows_iff_windowAllows {inputLayout : InputLayout} (h : inputLayout ≠ .tnd)
    (args : AttentionArgs) (queryLength keyLength batch head doc row column : Nat) :
    allows inputLayout args queryLength keyLength batch head doc row column ↔
      row < queryLength ∧ column < keyLength ∧ doc = 0 ∧
        windowAllows args queryLength keyLength batch head row column := by
  cases inputLayout <;> first | exact absurd rfl h | exact Iff.rfl

/-! ## Documents -/

section Documents

variable {ends : List Int} {doc sliceTq sliceTk splitId : Nat}

theorem docStop_map {f : Int → Int} (hzero : f 0 = 0) :
    docStop (ends.map f) doc = f (docStop ends doc) := by
  rw [docStop, docStop, ← getD_map ends 0 f, hzero]

theorem docStart_map {f : Int → Int} (hzero : f 0 = 0) :
    docStart (ends.map f) doc = f (docStart ends doc) := by
  rw [docStart, docStart]
  split
  · exact hzero.symm
  · exact docStop_map hzero

def localEnds (ends : List Int) (sliceTq splitId : Nat) : List Int :=
  ends.map fun stop => clamp 0 sliceTq (stop - sliceTq * splitId)

/-- A document's keys end with the slice, but the last one keeps its end. -/
def localKeyEnds (ends : List Int) (sliceTq sliceTk splitId : Nat) : List Int :=
  (ends.map (min · (sliceTq * splitId + sliceTq : Int))).set (ends.length - 1) sliceTk

theorem adjustActualSeqLen_whole (hlast : ends.getLast? = some (sliceTk : Int))
    (hexact : ∀ stop ∈ ends, stop < 2 ^ 24) :
    adjustActualSeqLen sliceTq sliceTk ends ends splitId false =
      .ok (localEnds ends sliceTq splitId, localKeyEnds ends sliceTq sliceTk splitId) := by
  have hkeys : broadcastSub ends (zipWith (· - ·)
      ((ends.map fun stop : Int => stop - sliceTq * splitId).map reluLong)
      ((ends.map fun stop : Int => stop - sliceTq * splitId).map (clamp 0 sliceTq))) =
      some (ends.map (min · (sliceTq * splitId + sliceTq : Int))) := by
    rw [broadcastSub, if_pos (by simp), map_map, map_map, zipWith_map, zipWith_self,
      zipWith_map_right, zipWith_self]
    congr 1
    refine map_congr_left fun stop hmem => ?_
    have hsmall := hexact stop hmem
    have hoffset : 0 ≤ (sliceTq : Int) * splitId := Int.mul_nonneg (by omega) (by omega)
    have hrelu : FloatRound.roundToEven 24 (stop - sliceTq * splitId).toNat =
        (stop - sliceTq * splitId).toNat := FloatRound.roundToEven_of_lt (by omega)
    simp only [Function.comp_apply, reluLong, hrelu, clamp]
    omega
  cases ends with
  | nil => simp at hlast
  | cons first rest =>
    rw [getLast?_eq_getElem?, length_cons, Nat.add_sub_cancel, getElem?_eq_getElem (by simp),
      Option.some.injEq] at hlast
    simp only [adjustActualSeqLen, hkeys]
    simp [restoreLast, hlast, localEnds, localKeyEnds, clamp]

theorem local_spans (h : doc < ends.length) :
    docStart (localEnds ends sliceTq splitId) doc =
        clamp 0 sliceTq (docStart ends doc - sliceTq * splitId) ∧
      docStop (localEnds ends sliceTq splitId) doc =
        clamp 0 sliceTq (docStop ends doc - sliceTq * splitId) ∧
      docStart (localKeyEnds ends sliceTq sliceTk splitId) doc =
        min (docStart ends doc) (sliceTq * splitId + sliceTq) ∧
      docStop (localKeyEnds ends sliceTq sliceTk splitId) doc =
        if doc = ends.length - 1 then (sliceTk : Int)
        else min (docStop ends doc) (sliceTq * splitId + sliceTq) := by
  have hoffset : 0 ≤ (sliceTq : Int) * splitId := Int.mul_nonneg (by omega) (by omega)
  have hclamp : clamp 0 sliceTq (0 - sliceTq * splitId) = 0 := by
    simp only [clamp]
    omega
  refine ⟨docStart_map hclamp, docStop_map hclamp, ?_, ?_⟩
  · rw [← @docStart_map _ _ (min · (sliceTq * splitId + sliceTq : Int)) (by omega), docStart,
      docStart, localKeyEnds]
    split
    · rfl
    · rw [getD_eq_getElem?_getD, getD_eq_getElem?_getD, getElem?_set_ne (by omega)]
  · rw [← @docStop_map _ _ (min · (sliceTq * splitId + sliceTq : Int)) (by omega), docStop, docStop,
      localKeyEnds, getD_eq_getElem?_getD, getD_eq_getElem?_getD]
    split
    · rename_i heq
      rw [heq, getElem?_set_self (by rw [length_map]; omega), Option.getD_some]
    · rw [getElem?_set_ne (Ne.symm ‹_›)]

end Documents

/-! ## The calls of the ranks -/

/-- A rank's call allows its rows what the whole call allows the rows from `start` on. -/
def AllowsAlike (inputLayout : InputLayout) (adjusted args : AttentionArgs)
    (localQLen globalQLen keyLen start : Nat) : Prop :=
  ∀ batch head doc row column, row < localQLen →
    (allows inputLayout adjusted localQLen keyLen batch head doc row column ↔
      allows inputLayout args globalQLen keyLen batch head doc (start + row) column)

section Calls

variable {layout : MeshLayout} {keyLayout : Option MeshLayout} {inputLayout : InputLayout}
  {axis : Int} {rank localQLen keyLen splitNum start : Nat} {args : AttentionArgs}

def twoRanks : MeshLayout :=
  ⟨[2], [2, 3], [.axis 0], by decide, rfl, by decide, by decide, by decide⟩

theorem twoRanks_slices : Slices twoRanks none 0 3 0 4 2 4 :=
  ⟨rfl, by decide, by simp [twoRanks], rfl, by decide, rfl, rfl⟩

def causal (sparseMode : SparseMode) (ends : Option (List Int)) : AttentionArgs :=
  ⟨sparseMode, 0, 0, ends, ends, none⟩

end Calls

end HyperParallel.Shard.FlashAttention
