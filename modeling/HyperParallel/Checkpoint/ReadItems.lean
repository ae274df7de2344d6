import HyperParallel.Checkpoint.LocalPlan

/-!
# Read items

What a rank needs is a list of chunks, what was saved is another.  Every pair
that overlaps gives a read item: a region of the saved chunk and the region of
the local chunk it is copied to.
-/

namespace HyperParallel.Checkpoint

open Foundation List
open HyperParallel.DTensor (Layout InArea InShape)

variable {α β : Type}

abbrev Area := List (Nat × Nat)

def chunkToArea (chunk : ChunkStorageMetadata) : Area :=
  List.zipWith (fun offset size => (offset, offset + size)) chunk.offsets chunk.sizes

def intersectAxes : Area → Area → Option Area
  | rangeA :: areaA, rangeB :: areaB =>
    let left := max rangeA.1 rangeB.1
    let right := min rangeA.2 rangeB.2
    if right ≤ left then none else (intersectAxes areaA areaB).map ((left, right) :: ·)
  | _, _ => some []

def inferIntersection (areaA areaB : Area) : Except PlanError (Option Area) :=
  if areaA.length ≠ areaB.length then
    .error (.areaDimensionMismatch areaA.length areaB.length)
  else .ok (intersectAxes areaA areaB)

def areaChunk (area : Area) : ChunkStorageMetadata where
  offsets := area.map Prod.fst
  sizes := area.map fun bounds => bounds.2 - bounds.1

def layoutChunks (shape : List Nat) (layout : Layout) (currentRank : Nat) :
    Except PlanError (List ChunkStorageMetadata) :=
  if layout.raggedShard.isSome then
    (computeRaggedBoxes shape layout currentRank).map fun boxes =>
      boxes.map fun box => ⟨box.offsets, box.sizes⟩
  else if layout.tensorMap.isNone then .ok [fullChunk shape]
  else if currentRank ∈ layout.mesh.rankList then
    match inferSliceAreaByLayout layout (layout.mesh.rankList.idxOf currentRank) shape with
    | none => .error .sliceUndefined
    | some area => .ok [areaChunk area]
  else .ok []

def createChunkListForTensor (currentRank : Nat) :
    StateValue α β → Except PlanError (List ChunkStorageMetadata)
  | .leaf (.dtensor tensor) =>
    match tensor.layout with
    | none => .ok [fullChunk tensor.shape]
    | some layout => layoutChunks tensor.shape layout currentRank
  | .leaf (.tensor _ (some info)) => .ok [info.chunk]
  | .leaf (.tensor tensor none) => .ok [fullChunk tensor.shape]
  | _ => .error .noChunkList

def overlapItem (fqn : String) (broadcastable : Bool) (localEntry storageEntry :
    ChunkStorageMetadata × Nat) (overlap : Area) : ReadItem where
  type := .tensor
  destIndex := { fqn := fqn, offset := localEntry.1.offsets, index := some localEntry.2 }
  destOffsets := List.zipWith (fun bounds offset => bounds.1 - offset) overlap localEntry.1.offsets
  storageIndex := { fqn := fqn, offset := storageEntry.1.offsets, index := some storageEntry.2 }
  storageOffsets :=
    List.zipWith (fun bounds offset => bounds.1 - offset) overlap storageEntry.1.offsets
  lengths := overlap.map fun bounds => bounds.2 - bounds.1
  broadcastable := broadcastable

def readItemFor (fqn : String) (broadcastable : Bool) (localEntry storageEntry :
    ChunkStorageMetadata × Nat) : Except PlanError (Option ReadItem) :=
  (inferIntersection (chunkToArea localEntry.1) (chunkToArea storageEntry.1)).map
    (Option.map (overlapItem fqn broadcastable localEntry storageEntry))

def createReadItemsForChunkList (fqn : String) (checkpointMd : TensorStorageMetadata)
    (localChunks : List ChunkStorageMetadata) (broadcastable : Bool := true) :
    Except PlanError (List ReadItem) :=
  (localChunks.zipIdx.mapM fun localEntry =>
    checkpointMd.chunks.zipIdx.mapM fun storageEntry =>
      readItemFor fqn broadcastable localEntry storageEntry).map fun items =>
        items.flatten.reduceOption

/-! ## Tensors and their regions -/

/-- `tensor[slices]`, with one slice for every dimension. -/
def narrowTensorByIndex (tensor : Tensor α) (offsets lengths : List Nat) : Tensor α :=
  if offsets = [] ∨ lengths = [] then tensor
  else { tensor with
    shape := List.zipWith (fun region size =>
      min (region.1 + region.2) size - min region.1 size) (offsets.zip lengths) tensor.shape
    elem := fun y => tensor.elem (List.zipWith (· + ·) offsets y) }

/-- `narrow_tensor_by_index(target, offsets, lengths).copy_(source)`. -/
def copyTensorToTarget (target : Tensor α) (offsets lengths : List Nat) (source : Tensor α) :
    Tensor α :=
  if offsets = [] ∨ lengths = [] then { target with elem := source.elem }
  else { target with
    elem := fun y =>
      if InArea (chunkToArea ⟨offsets, lengths⟩) y then
        source.elem (List.zipWith (· - ·) y offsets)
      else target.elem y }

/-- Element `position` of `tensor.reshape((-1,))`. -/
def Tensor.flat (tensor : Tensor α) (position : Nat) : α :=
  tensor.elem (MixedRadix.digits tensor.shape position)

def getRaggedBoxTensor (tensor : DTensor α) (layout : Layout) (rank : Nat)
    (index : MetadataIndex) : Except PlanError (Tensor α) := do
  let boxes ← computeRaggedBoxes tensor.shape layout rank
  match boxes.find? fun box => decide (box.offsets = index.offset) with
  | none => .error (.boxNotFound index)
  | some box =>
    return { tensor.localTensor with
      shape := box.sizes
      elem := fun y => tensor.localTensor.flat (box.localFlatStart + MixedRadix.value box.sizes y) }

inductive ItemData (α β : Type) where
  | tensor (tensor : Tensor α)
  | object (value : StateValue α β)

def getData (rank : Nat) (stateDict : PyDict String (StateValue α β)) (item : WriteItem) :
    Except PlanError (ItemData α β) :=
  match stateDict.get? item.index.fqn with
  | none => .error (.keyNotFound item.index.fqn)
  | some obj =>
    match item.type with
    | .byteIo => .ok (.object obj)
    | .tensor =>
      match obj with
      | .leaf (.dtensor tensor) =>
        match tensor.layout with
        | some layout =>
          if layout.raggedShard.isSome then
            (getRaggedBoxTensor tensor layout rank item.index).map .tensor
          else .ok (.tensor tensor.localTensor)
        | none => .ok (.tensor tensor.localTensor)
      | .leaf (.tensor tensor _) => .ok (.tensor tensor)
      | _ => .error (.notTensorLike item.index.fqn)

/--
One read: the saved region is copied into the first local chunk at the offsets the item names.
-/
def readInto (store : String × List Nat → Option (Tensor α)) (chunks : List ChunkStorageMetadata)
    (targets : List (Tensor α)) (item : ReadItem) : Except PlanError (List (Tensor α)) :=
  match store item.storageIndex.key with
  | none => .error (.storageInfoNotFound item.storageIndex)
  | some saved =>
    let i := chunks.findIdx fun chunk => decide (chunk.offsets = item.destIndex.offset)
    match targets[i]? with
    | none => .error (.boxNotFound item.destIndex)
    | some target =>
      let tensor := narrowTensorByIndex saved item.storageOffsets item.lengths
      let targetSize := (narrowTensorByIndex target item.destOffsets item.lengths).shape
      if targetSize ≠ tensor.shape then
        .error (.mismatchSizes item.storageIndex targetSize tensor.shape)
      else .ok (targets.set i (copyTensorToTarget target item.destOffsets item.lengths tensor))

def executeRead (store : String × List Nat → Option (Tensor α))
    (chunks : List ChunkStorageMetadata) (items : List ReadItem) (targets : List (Tensor α)) :
    Except PlanError (List (Tensor α)) :=
  items.foldlM (readInto store chunks) targets

/-! ## Overlaps -/

def Inside (overlap area : Area) : Prop :=
  List.Forall₂ (fun inner outer => outer.1 ≤ inner.1 ∧ inner.1 < inner.2 ∧ inner.2 ≤ outer.2)
    overlap area

theorem intersectAxes_inside {areaA areaB overlap : Area} (hlength : areaA.length = areaB.length)
    (h : intersectAxes areaA areaB = some overlap) :
    Inside overlap areaA ∧ Inside overlap areaB := by
  induction areaA generalizing areaB overlap with
  | nil =>
    obtain rfl := length_eq_zero_iff.mp hlength.symm
    cases h
    exact ⟨.nil, .nil⟩
  | cons rangeA areaA ih =>
    cases areaB with
    | nil => simp at hlength
    | cons rangeB areaB =>
      simp only [intersectAxes] at h
      split at h
      · cases h
      · obtain ⟨rest, hrest, rfl⟩ := Option.map_eq_some_iff.mp h
        obtain ⟨hA, hB⟩ := ih (by simpa using hlength) hrest
        exact ⟨.cons (by omega) hA, .cons (by omega) hB⟩

theorem intersectAxes_of_mem {areaA areaB : Area} {x : List Nat} (hA : InArea areaA x)
    (hB : InArea areaB x) : ∃ overlap, intersectAxes areaA areaB = some overlap ∧
      InArea overlap x := by
  induction hA generalizing areaB with
  | nil =>
    cases hB
    exact ⟨[], rfl, .nil⟩
  | @cons rangeA pos areaA x hpos _ ih =>
    cases hB with
    | @cons rangeB _ areaB _ hpos' hrest =>
      obtain ⟨overlap, hoverlap, hmem⟩ := ih hrest
      refine ⟨(max rangeA.1 rangeB.1, min rangeA.2 rangeB.2) :: overlap, ?_,
        .cons ⟨max_le hpos.1 hpos'.1, lt_min hpos.2 hpos'.2⟩ hmem⟩
      simp only [intersectAxes]
      rw [if_neg (by omega), hoverlap]
      rfl

def ChunkStorageMetadata.Matched (chunk : ChunkStorageMetadata) : Prop :=
  chunk.offsets.length = chunk.sizes.length

variable {chunk : ChunkStorageMetadata}

theorem length_chunkToArea (h : chunk.Matched) :
    (chunkToArea chunk).length = chunk.offsets.length := by
  unfold ChunkStorageMetadata.Matched at h
  simp [chunkToArea, h]

theorem inArea_chunkToArea_iff (h : chunk.Matched) {x : List Nat} :
    InArea (chunkToArea chunk) x ↔
      ∃ y, InShape chunk.sizes y ∧ x = zipWith (· + ·) chunk.offsets y := by
  obtain ⟨offsets, sizes⟩ := chunk
  simp only [chunkToArea, ChunkStorageMetadata.Matched] at h ⊢
  induction offsets generalizing sizes x with
  | nil =>
    obtain rfl := length_eq_zero_iff.mp h.symm
    constructor
    · rintro ⟨⟩
      exact ⟨[], .nil, rfl⟩
    · rintro ⟨y, hy, rfl⟩
      exact .nil
  | cons offset offsets ih =>
    cases sizes with
    | nil => simp at h
    | cons size sizes =>
      have hrest := fun x => @ih x sizes (by simpa using h)
      constructor
      · rintro (_ | @⟨_, pos, _, x, hpos, hx⟩)
        obtain ⟨y, hy, rfl⟩ := (hrest x).mp hx
        refine ⟨(pos - offset) :: y, .cons (by dsimp only at hpos ⊢; omega) hy, ?_⟩
        rw [zipWith_cons_cons]
        dsimp only at hpos
        congr 1
        omega
      · rintro ⟨y, hy, rfl⟩
        cases hy with
        | @cons _ pos _ y hpos hy =>
          exact .cons (by dsimp only; omega) ((hrest _).mpr ⟨y, hy, rfl⟩)

def overlapRegion (overlap : Area) (chunk : ChunkStorageMetadata) : ChunkStorageMetadata where
  offsets := List.zipWith (fun bounds offset => bounds.1 - offset) overlap chunk.offsets
  sizes := overlap.map fun bounds => bounds.2 - bounds.1

/-- The region from `offsets` on, `lengths` long, lies inside a block of this size. -/
def RegionInside (offsets lengths sizes : List Nat) : Prop :=
  List.Forall₂ (fun region size => region.1 + region.2 ≤ size) (offsets.zip lengths) sizes

section

variable {overlap : Area} (h : chunk.Matched) (hinside : Inside overlap (chunkToArea chunk))

include h hinside

theorem overlapRegion_inside :
    RegionInside (overlapRegion overlap chunk).offsets (overlapRegion overlap chunk).sizes
      chunk.sizes := by
  obtain ⟨offsets, sizes⟩ := chunk
  simp only [chunkToArea, ChunkStorageMetadata.Matched, overlapRegion] at h hinside ⊢
  induction overlap generalizing offsets sizes with
  | nil =>
    cases offsets with
    | nil =>
      obtain rfl := length_eq_zero_iff.mp h.symm
      exact .nil
    | cons offset offsets =>
      cases sizes with
      | nil => simp at h
      | cons size sizes => cases hinside
  | cons bounds overlap ih =>
    cases offsets with
    | nil => cases hinside
    | cons offset offsets =>
      cases sizes with
      | nil => cases hinside
      | cons size sizes =>
        cases hinside with
        | cons hbounds hinside =>
          refine .cons ?_ (ih offsets sizes (by simpa using h) hinside)
          dsimp only at hbounds ⊢
          omega

theorem overlapRegion_element {z : List Nat} (hz : z.length = overlap.length) :
    zipWith (· + ·) chunk.offsets
        (zipWith (· + ·) (overlapRegion overlap chunk).offsets z) =
      zipWith (· + ·) (overlap.map Prod.fst) z := by
  obtain ⟨offsets, sizes⟩ := chunk
  simp only [chunkToArea, ChunkStorageMetadata.Matched, overlapRegion] at h hinside ⊢
  induction overlap generalizing offsets sizes z with
  | nil =>
    obtain rfl := length_eq_zero_iff.mp hz
    simp
  | cons bounds overlap ih =>
    cases offsets with
    | nil => cases hinside
    | cons offset offsets =>
      cases sizes with
      | nil => cases hinside
      | cons size sizes =>
        cases z with
        | nil => simp at hz
        | cons pos z =>
          cases hinside with
          | cons hbounds hinside =>
            simp only [zipWith_cons_cons, map_cons,
              ih (by simpa using hz) offsets sizes (by simpa using h) hinside]
            dsimp only at hbounds
            congr 1
            omega

theorem overlapRegion_covers {y : List Nat} (hy : InShape chunk.sizes y)
    (hmem : InArea overlap (zipWith (· + ·) chunk.offsets y)) :
    ∃ z, InShape (overlapRegion overlap chunk).sizes z ∧
      y = zipWith (· + ·) (overlapRegion overlap chunk).offsets z := by
  obtain ⟨offsets, sizes⟩ := chunk
  simp only [chunkToArea, ChunkStorageMetadata.Matched, overlapRegion] at h hinside hy hmem ⊢
  induction overlap generalizing offsets sizes y with
  | nil =>
    cases hy with
    | nil => exact ⟨[], .nil, by simp⟩
    | cons _ _ =>
      cases offsets with
      | nil => simp at h
      | cons offset offsets => cases hmem
  | cons bounds overlap ih =>
    cases offsets with
    | nil => cases hinside
    | cons offset offsets =>
      cases hy with
      | nil => simp at h
      | @cons size pos sizes y hpos hy =>
        cases hinside with
        | cons hbounds hinside =>
          cases hmem with
          | cons hin hmem =>
            obtain ⟨z, hz, rfl⟩ := ih offsets sizes (by simpa using h) hinside hy hmem
            dsimp only at hbounds hin
            refine ⟨(offset + pos - bounds.1) :: z, .cons ?_ hz, ?_⟩
            · dsimp only
              omega
            · rw [zipWith_cons_cons, zipWith_cons_cons]
              congr 1
              omega

end

theorem RegionInside.inShape {offsets lengths sizes : List Nat}
    (h : RegionInside offsets lengths sizes) (hlength : offsets.length = lengths.length)
    {z : List Nat} (hz : InShape lengths z) :
    InShape sizes (zipWith (· + ·) offsets z) := by
  unfold RegionInside at h
  induction hz generalizing offsets sizes with
  | nil =>
    obtain rfl := length_eq_zero_iff.mp hlength
    cases h
    exact .nil
  | cons hpos _ ih =>
    cases offsets with
    | nil => simp at hlength
    | cons offset offsets =>
      cases h with
      | cons hle hrest =>
        refine .cons ?_ (ih hrest (by simpa using hlength))
        dsimp only at hle ⊢
        omega

theorem RegionInside.narrow_shape {offsets lengths sizes : List Nat}
    (h : RegionInside offsets lengths sizes) (hlength : offsets.length = lengths.length) :
    zipWith (fun region size => min (region.1 + region.2) size - min region.1 size)
      (offsets.zip lengths) sizes = lengths := by
  unfold RegionInside at h
  induction offsets generalizing lengths sizes with
  | nil =>
    obtain rfl := length_eq_zero_iff.mp hlength.symm
    rfl
  | cons offset offsets ih =>
    cases lengths with
    | nil => simp at hlength
    | cons length lengths =>
      cases h with
      | cons hle hrest =>
        rw [zip_cons_cons, zipWith_cons_cons, ih hrest (by simpa using hlength)]
        dsimp only at hle
        congr 1
        omega

end HyperParallel.Checkpoint
