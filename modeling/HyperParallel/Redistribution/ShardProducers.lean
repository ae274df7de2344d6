import HyperParallel.Checkpoint.LocalPlan
import HyperParallel.DTensor.AlongAxes
import HyperParallel.DTensor.StridedOrder
import HyperParallel.Redistribution.OperatorInfer

/-!
# The producers of a shard

Three paths make a local tensor of a global one: a rank slices its own copy, a
source scatters it mesh dimension by mesh dimension, or a replicated tensor is
redistributed.  A local tensor stands here as the box of the global tensor that
it holds, one half-open range for each dimension.
-/

namespace HyperParallel.Redistribution

open Foundation List
open DTensor
open Checkpoint (inferSliceAreaByLayout)

abbrev Box := List (Nat × Nat)

def boxShape (box : Box) : List Nat := box.map fun range => range.2 - range.1

def wholeBox (shape : List Nat) : Box := shape.map fun size => (0, size)

inductive ProducerError where
  | rankNotInList (rank : Nat)
  | sliceUndefined
  | dimOutOfRange (dim : Int)
  | placementsTooShort (length ndim : Nat)
  | stridedShardUnsupported
  | unsupportedPlacement (meshDim : Nat)
  | invalidMeshDimSize (meshDim : Nat)
  | noChunks
  | sourceNotInGroup (source : Nat)
  | chunkOutOfRange
  | unevenUnsupported
  | infer (error : InferError)
  | collective
  deriving DecidableEq, Repr

/-! ## Chunks of a tensor -/

/-- The ranges that `torch.chunk` gives: all but the last of ceil length, maybe fewer than asked. -/
def chunkRanges (size chunks : Nat) : List (Nat × Nat) :=
  let step := (size + chunks - 1) / chunks
  if step = 0 then List.replicate chunks (0, 0)
  else (List.range ((size + step - 1) / step)).map fun k => (k * step, min ((k + 1) * step) size)

def chunk (box : Box) (chunks : Nat) (dim : Int) : Except ProducerError (List Box) :=
  let place := if dim < 0 then dim + box.length else dim
  if place < 0 then .error (.dimOutOfRange dim)
  else
    match box[place.toNat]? with
    | none => .error (.dimOutOfRange dim)
    | some (start, stop) => .ok ((chunkRanges (stop - start) chunks).map fun range =>
      box.set place.toNat (start + range.1, start + range.2))

section Chunks

variable {count : Nat}

theorem ceilDiv_mul (hcount : 0 < count) (width : Nat) :
    (count * width + count - 1) / count = width := by
  rw [show count * width + count - 1 = count - 1 + count * width by omega,
    Nat.add_mul_div_left _ _ hcount, Nat.div_eq_of_lt (by omega), Nat.zero_add]

theorem chunkRanges_mul (hcount : 0 < count) (width : Nat) :
    chunkRanges (count * width) count =
      (range count).map fun k => (k * width, (k + 1) * width) := by
  rw [chunkRanges, ceilDiv_mul hcount]
  split
  · rename_i hzero
    subst hzero
    refine (eq_replicate_iff.mpr ⟨by simp, fun range hrange => ?_⟩).symm
    obtain ⟨k, -, rfl⟩ := mem_map.mp hrange
    simp
  · rename_i hzero
    rw [Nat.mul_comm count width, ceilDiv_mul (Nat.pos_of_ne_zero hzero)]
    refine map_congr_left fun k hk => ?_
    have hfits : (k + 1) * width ≤ width * count := by
      rw [Nat.mul_comm width]
      exact Nat.mul_le_mul_right _ (mem_range.mp hk)
    rw [Nat.min_eq_left hfits]

theorem chunkRanges_short (hcount : 2 ≤ count) {width : Nat} (hwidth : 2 ≤ width) :
    chunkRanges (count * width - 1) count =
      (range count).map fun k => (k * width, min ((k + 1) * width) (count * width - 1)) := by
  have hlong : count * 2 ≤ count * width := Nat.mul_le_mul_left _ hwidth
  have hstep : (count * width - 1 + count - 1) / count = width := by
    rw [show count * width - 1 + count - 1 = count - 2 + count * width by omega,
      Nat.add_mul_div_left _ _ (by omega), Nat.div_eq_of_lt (by omega), Nat.zero_add]
  have hnumber : (count * width - 1 + width - 1) / width = count := by
    have hsum : count * width - 1 + width - 1 = width - 2 + width * count := by
      rw [Nat.mul_comm width count]
      omega
    rw [hsum, Nat.add_mul_div_left _ _ (by omega), Nat.div_eq_of_lt (by omega), Nat.zero_add]
  rw [chunkRanges, hstep, if_neg (by omega), hnumber]

theorem chunkRanges_head (hcount : 0 < count) (size : Nat) :
    ∃ width rest, chunkRanges size count = (0, width) :: rest ∧ size ≤ count * width := by
  have hstep := le_mul_ceilDiv size count hcount
  rw [chunkRanges]
  split
  · rename_i hzero
    obtain ⟨others, rfl⟩ := Nat.exists_eq_add_of_lt hcount
    exact ⟨0, _, replicate_succ, by rwa [hzero] at hstep⟩
  · rename_i hzero
    have hsize : 0 < size := by
      refine Nat.pos_of_ne_zero fun hsize => hzero ?_
      rw [hsize, Nat.zero_add, Nat.div_eq_of_lt (by omega)]
    set step := (size + count - 1) / count
    have hnumber : 0 < (size + step - 1) / step := Nat.div_pos (by omega) (Nat.pos_of_ne_zero hzero)
    obtain ⟨number, hnumber⟩ := Nat.exists_eq_succ_of_ne_zero hnumber.ne'
    rw [hnumber, range_succ_eq_map, map_cons]
    refine ⟨_, _, congrArg₂ _ (by rw [Nat.zero_mul]) rfl, ?_⟩
    rw [Nat.zero_add, Nat.one_mul]
    rcases Nat.le_total step size with hle | hle
    · rwa [Nat.min_eq_left hle]
    · rw [Nat.min_eq_right hle]
      exact Nat.le_mul_of_pos_left _ hcount

/-- If there is a last chunk and it has the quotient's length, little is missing to a multiple. -/
theorem of_chunkRanges_last (hcount : 0 < count) {size : Nat} {range : Nat × Nat}
    (hlast : (chunkRanges size count)[count - 1]? = some range)
    (hlength : range.2 - range.1 = size / count) :
    count ∣ size ∨ size % count + 1 = count ∧ count ≤ size := by
  have hceil := le_mul_ceilDiv size count hcount
  have hdiv := Nat.div_add_mod size count
  have hmod := Nat.mod_lt size hcount
  rw [chunkRanges] at hlast
  split at hlast
  · rename_i hzero
    rw [hzero] at hceil
    left
    rw [show size = 0 by omega]
    exact Nat.dvd_zero count
  · rename_i hzero
    obtain ⟨step, hstep⟩ : ∃ step, step = (size + count - 1) / count := ⟨_, rfl⟩
    rw [← hstep] at hceil hzero hlast
    obtain ⟨hk, hrange⟩ := List.getElem?_eq_some_iff.mp hlast
    rw [length_map, length_range] at hk
    have hstart : (count - 1) * step < size := by
      have hlt := Nat.div_mul_le_self (size + step - 1) step
      have hmul : (count - 1 + 1) * step ≤ (size + step - 1) / step * step :=
        Nat.mul_le_mul_right _ hk
      rw [Nat.add_mul, Nat.one_mul] at hmul
      omega
    rw [getElem_map, getElem_range, Nat.sub_add_cancel hcount] at hrange
    rw [← hrange] at hlength
    dsimp only at hlength
    rw [Nat.min_eq_right hceil] at hlength
    have hall : count * step = (count - 1) * step + step := by
      obtain ⟨others, rfl⟩ := Nat.exists_eq_add_of_lt hcount
      rw [Nat.zero_add, Nat.add_sub_cancel]
      ring
    by_cases hzero : size % count = 0
    · exact .inl (Nat.dvd_of_mod_eq_zero hzero)
    · -- the ceil length is the quotient and one
      right
      have hstepEq : step = size / count + 1 := by
        have hle : step * count ≤ size + count - 1 := hstep ▸ Nat.div_mul_le_self _ _
        rw [Nat.mul_comm] at hle
        refine Nat.le_antisymm ?_ ?_
        · by_contra hlt
          have hmul : count * (size / count + 2) ≤ count * step := Nat.mul_le_mul_left _ (by omega)
          rw [Nat.mul_add] at hmul
          omega
        · by_contra hlt
          have hmul : count * step ≤ count * (size / count) := Nat.mul_le_mul_left _ (by omega)
          omega
      have hmul : count * step = count * (size / count) + count := by
        rw [hstepEq, Nat.mul_add, Nat.mul_one]
      refine ⟨by omega, ?_⟩
      have hpos : 0 < size / count := by omega
      exact Nat.le_of_not_lt fun hlt => by
        rw [Nat.div_eq_of_lt hlt] at hpos
        exact Nat.lt_irrefl _ hpos

theorem chunk_eq {box : Box} {chunks dim : Nat} {range : Nat × Nat} (h : box[dim]? = some range) :
    chunk box chunks dim = .ok ((chunkRanges (range.2 - range.1) chunks).map fun part =>
      box.set dim (range.1 + part.1, range.1 + part.2)) := by
  rw [chunk]
  have hdim : ¬ (dim : Int) < 0 := by omega
  simp only [if_neg hdim, Int.toNat_natCast, h]

end Chunks

/-! ## Slicing the own copy -/

def getSliceData (area : Box) (shape : List Nat) : Box :=
  List.zipWith (fun range size => (min range.1 size, max (min range.1 size) (min range.2 size)))
    area shape

def getSliceTensorByLayout (layout : Layout) (rank : Nat) (shape : List Nat) :
    Except ProducerError Box :=
  if rank ∈ layout.mesh.rankList then
    match inferSliceAreaByLayout layout (layout.mesh.rankList.idxOf rank) shape with
    | none => .error .sliceUndefined
    | some area => .ok (getSliceData area shape)
  else .error (.rankNotInList rank)

/-! ## Scattering from a source -/

def dimSplitRanks (mesh : DeviceMesh) (meshDim rank : Nat) : List Nat :=
  ((onAxis mesh.meshShape meshDim (mesh.rankList.idxOf rank)).map
    (mesh.rankList.getD · 0)).mergeSort

structure Collectives where
  scatter : (outputShape : List Nat) → (members : Nat) → (scatterList : List Box) →
    (groupRank : Nat) → Except ProducerError Box
  broadcast : (own source : Box) → Except ProducerError Box

structure Collectives.Documented (collectives : Collectives) : Prop where
  scatter_eq : ∀ outputShape scatterList groupRank piece,
    (∀ entry ∈ scatterList, boxShape entry = outputShape) → scatterList[groupRank]? = some piece →
      collectives.scatter outputShape scatterList.length scatterList groupRank = .ok piece
  scatter_shape : ∀ outputShape members scatterList groupRank piece,
    collectives.scatter outputShape members scatterList groupRank = .ok piece →
      boxShape piece = outputShape
  broadcast_eq : ∀ own source, boxShape own = boxShape source →
    collectives.broadcast own source = .ok source
  broadcast_shape : ∀ own source result, collectives.broadcast own source = .ok result →
    boxShape result = boxShape own

section Distribute

variable (collectives : Collectives) (mesh : DeviceMesh) (placements : List Placement)
  (srcDataRank : Nat)

def normalizeShardDim (dim : Int) (ndim : Nat) : Int := if dim < 0 then dim + ndim else dim

def scatterChunks (own : Box) (meshDim : Nat) (dim : Int) : Except ProducerError (List Box) :=
  let numChunks := mesh.meshShape.getD meshDim 0
  if numChunks = 0 then .error (.invalidMeshDimSize meshDim)
  else chunk own numChunks (normalizeShardDim dim own.length)

def meshScatter (locals : Nat → Except ProducerError Box) (meshDim rank : Nat) (dim : Int) :
    Except ProducerError Box := do
  let chunks ← scatterChunks mesh (← locals rank) meshDim dim
  match chunks with
  | [] => .error .noChunks
  | first :: _ =>
    let group := dimSplitRanks mesh meshDim rank
    match group[srcDataRank]? with
    | none => .error (.sourceNotInGroup srcDataRank)
    | some source =>
      let scatterList ← scatterChunks mesh (← locals source) meshDim dim
      collectives.scatter (boxShape first) group.length scatterList (group.idxOf rank)

def meshBroadcast (locals : Nat → Except ProducerError Box) (meshDim rank : Nat) :
    Except ProducerError Box := do
  let own ← locals rank
  match (dimSplitRanks mesh meshDim rank)[srcDataRank]? with
  | none => .error (.sourceNotInGroup srcDataRank)
  | some source => collectives.broadcast own (← locals source)

def distributeAlong (locals : Nat → Except ProducerError Box) (meshDim : Nat) :
    Nat → Except ProducerError Box := fun rank =>
  match placements[meshDim]? with
  | some (.stridedShard ..) => .error .stridedShardUnsupported
  | some (.shard dim _) => meshScatter collectives mesh srcDataRank locals meshDim rank dim
  | some .replicate | some (.partialReduce _) =>
    meshBroadcast collectives mesh srcDataRank locals meshDim rank
  | _ => .error (.unsupportedPlacement meshDim)

def localsAfter (shape : List Nat) (meshDims : Nat) : Nat → Except ProducerError Box :=
  (List.range meshDims).foldl (distributeAlong collectives mesh placements srcDataRank)
    fun _ => .ok (wholeBox shape)

def distributeTensorWithCommunication (shape : List Nat) (rank : Nat) :
    Except ProducerError Box :=
  if placements.length < mesh.meshShape.length then
    .error (.placementsTooShort placements.length mesh.meshShape.length)
  else localsAfter collectives mesh placements srcDataRank shape mesh.meshShape.length rank

end Distribute

/-! ## Redistributing a replicated tensor -/

def constructAllSplit (rank : Nat) (x : Box) (splitDim : Int) (splitSize : Nat)
    (group : List Nat) : Except ProducerError Box :=
  if rank ∈ group then do
    match (← chunk x splitSize splitDim)[group.idxOf rank]? with
    | none => .error .chunkOutOfRange
    | some piece => .ok piece
  else .error (.rankNotInList rank)

open RedistributionOperatorInfer (Operation)

def constructOperator (others : Operation → Box → Except ProducerError Box) (rank : Nat) (x : Box) :
    Operation → Except ProducerError Box
  | .allSplit splitDim splitSize group => constructAllSplit rank x splitDim splitSize group
  | operation => others operation x

def replicateToLayout (layout : Layout) (tensorMap : TensorMap) : RedistributionOperatorInfer where
  devMat := ⟨layout.mesh.meshShape⟩
  inTensorMap := tensorMap.map fun _ => .axis NONE
  outTensorMap := tensorMap
  usePermute := true

def redistributeReplicated (others : Operation → Box → Except ProducerError Box) (fuel : Nat)
    (layout : Layout) (tensorMap : TensorMap) (shape : List Nat) (rank : Nat) :
    Except ProducerError Box :=
  if unevenShardMeshDims layout.placements ≠ [] then .error .unevenUnsupported
  else
    match (replicateToLayout layout tensorMap).inferOpsList fuel rank layout.mesh.rankList with
    | .error error => .error (.infer error)
    | .ok operations => operations.foldlM (constructOperator others rank) (wholeBox shape)

/-! ## Agreement -/

structure ShardLayout (layout : Layout) (tensorMap : TensorMap) (placements : List Placement)
    (shape : List Nat) : Prop where
  map_eq : layout.tensorMap = some tensorMap
  placements_eq : layout.placements = some placements
  wellFormed : WellFormed layout.mesh.meshShape.length tensorMap
  encodes : Encodes layout.mesh.meshShape tensorMap placements
  length_eq : tensorMap.length = shape.length
  sizes_pos : ∀ size ∈ layout.mesh.meshShape, 0 < size
  ranks_nodup : layout.mesh.rankList.Nodup
  not_ragged : ∀ placement ∈ placements,
    (∀ ragged, placement ≠ .raggedShard ragged) ∧
      ∀ ragged splitFactor, placement ≠ .stridedRaggedShard ragged splitFactor

def Plain (placements : List Placement) : Prop :=
  ∀ placement ∈ placements, ∀ dim splitFactor uneven pos,
    placement ≠ .stridedShard dim splitFactor uneven pos

def ProducersAgree (collectives : Collectives)
    (others : Operation → Box → Except ProducerError Box) (layout : Layout)
    (tensorMap : TensorMap) (placements : List Placement) (shape : List Nat)
    (srcDataRank : Nat) : Prop :=
  ∀ rank ∈ layout.mesh.rankList, ∃ area,
    inferSliceAreaByLayout layout (layout.mesh.rankList.idxOf rank) shape = some area ∧
    getSliceTensorByLayout layout rank shape = .ok area ∧
    (Plain placements → distributeTensorWithCommunication collectives layout.mesh placements
      srcDataRank shape rank = .ok area) ∧
    (unevenShardMeshDims layout.placements = [] →
      ∃ fuel, redistributeReplicated others fuel layout tensorMap shape rank = .ok area)

end HyperParallel.Redistribution
