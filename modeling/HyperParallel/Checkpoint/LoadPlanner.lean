import HyperParallel.Checkpoint.ReadItems
import HyperParallel.Checkpoint.StateDictPaths

/-!
# Loading a state dict

A load planner flattens the state dict it loads into and asks for one read item
for every entry that was saved as bytes, and for every overlap of a local and a
saved chunk of an entry that was saved as a tensor.  What is read is put in
place in the flat and in the original state dict, a file at a time.
-/

namespace HyperParallel.Checkpoint

open Foundation

variable {α β : Type}

inductive LoadError where
  | plan (error : PlanError)
  | stateDict (error : StateDictError)
  | missingKey (fqn : String)
  | sizeMismatch (fqn : String) (saved : List Nat) (current : Option (List Nat))
  | keyNotFound (fqn : String)
  | storageInfoNotFound (index : MetadataIndex)
  | fileNotFound (path : String)
  | tensorNotFound (index : MetadataIndex)
  | mismatchSizes (index : MetadataIndex) (targetSize tensorSize : List Nat)
  | unpickling
  | typeError
deriving DecidableEq, Repr

def LoadError.ofPlan {γ : Type} : Except PlanError γ → Except LoadError γ
  | .ok value => .ok value
  | .error e => .error (.plan e)

def LoadError.ofStateDict {γ : Type} : Except StateDictError γ → Except LoadError γ
  | .ok value => .ok value
  | .error e => .error (.stateDict e)

def StateValue.isTensor : StateValue α β → Bool
  | .leaf leaf => leaf.isTensor
  | _ => false

structure StandardLoadPlanner (α β : Type) where
  rank : Nat
  allowPartialLoad : Bool := false
  metadata : Metadata
  originalStateDict : StateValue α β
  stateDict : PyDict String (StateValue α β)
  nameMapping : PyDict String ObjectPath

def configureLoadPlanner (rank : Nat) (stateDict : StateValue α β) (metadata : Metadata) :
    Except LoadError (StandardLoadPlanner α β) :=
  (LoadError.ofStateDict (flattenStateDict stateDict)).map fun flat => {
    rank := rank
    metadata := metadata
    originalStateDict := stateDict
    stateDict := flat.fqnNames
    nameMapping := flat.mappings }

/-- `getattr(obj, "shape", None)`, or the global shape of its chunk info. -/
def objSize : StateValue α β → Option (List Nat)
  | .leaf (.dtensor tensor) => some tensor.shape
  | .leaf (.tensor tensor none) => some tensor.shape
  | .leaf (.tensor _ (some info)) => some info.globalShape
  | _ => none

def rankOwnsDtensorShard (rank : Nat) : StateValue α β → Bool
  | .leaf (.dtensor tensor) =>
    match tensor.layout with
    | none => true
    | some layout => decide (rank ∈ layout.mesh.rankList)
  | _ => true

def bytesReadItem (fqn : String) : ReadItem where
  type := .byteIo
  destIndex := { fqn := fqn }
  destOffsets := [0]
  storageIndex := { fqn := fqn }
  storageOffsets := [0]
  lengths := [0]

def endsWithAny (name : String) (suffixes : List String) : Bool :=
  suffixes.any fun suffix => decide (suffix.toList <:+ name.toList)

/-- The read items of one entry; `isOnHost` says which entries sit in host memory. -/
def entryReadItems (planner : StandardLoadPlanner α β) (isOnHost : StateValue α β → Bool)
    (entry : String × StateValue α β) : Except LoadError (List ReadItem) :=
  let (fqn, obj) := entry
  match planner.metadata.stateDictMetadata.get? fqn with
  | none =>
    if endsWithAny fqn ["matched_adamw_rms", "step"] then .ok []
    else if planner.allowPartialLoad then .ok []
    else .error (.missingKey fqn)
  | some (.tensor md) =>
    if objSize obj ≠ some md.size then .error (.sizeMismatch fqn md.size (objSize obj))
    else if rankOwnsDtensorShard planner.rank obj then
      LoadError.ofPlan do
        let localChunks ← createChunkListForTensor planner.rank obj
        createReadItemsForChunkList fqn md localChunks (!isOnHost obj)
    else .ok []
  | some .bytes => .ok [bytesReadItem fqn]

def StandardLoadPlanner.buildLocalPlan (planner : StandardLoadPlanner α β)
    (isOnHost : StateValue α β → Bool) : Except LoadError LoadPlan :=
  (planner.stateDict.entries.mapM (entryReadItems planner isOnHost)).map fun items =>
    { items := items.flatten }

/-! ## Putting in place what was read -/

structure LoadState (α β : Type) where
  stateDict : PyDict String (StateValue α β)
  originalStateDict : StateValue α β

def acquireLocal (rank : Nat) (target : Leaf α β) (index : MetadataIndex) :
    Except PlanError (Tensor α) :=
  match target with
  | .dtensor tensor =>
    match tensor.layout with
    | some layout =>
      if layout.raggedShard.isSome then getRaggedBoxTensor tensor layout rank index
      else .ok tensor.localTensor
    | none => .ok tensor.localTensor
  | .tensor tensor _ => .ok tensor
  | _ => .error (.notTensorLike index.fqn)

/-- A box of the local flat buffer of a ragged shard, written in place. -/
def putRaggedBox (tensor : DTensor α) (layout : DTensor.Layout) (rank : Nat)
    (index : MetadataIndex) (box : Tensor α) : Tensor α :=
  match computeRaggedBoxes tensor.shape layout rank with
  | .error _ => tensor.localTensor
  | .ok boxes =>
    match boxes.find? fun box => decide (box.offsets = index.offset) with
    | none => tensor.localTensor
    | some found =>
      { tensor.localTensor with
        elem := fun x =>
          let position := MixedRadix.value tensor.localTensor.shape x
          if found.localFlatStart ≤ position ∧
              position < found.localFlatStart + found.sizes.prod then
            box.elem (MixedRadix.digits found.sizes (position - found.localFlatStart))
          else tensor.localTensor.elem x }

/-- The entry once the tensor acquired from it was written in place. -/
def putLocal (rank : Nat) (target : Leaf α β) (index : MetadataIndex) (written : Tensor α) :
    Leaf α β :=
  match target with
  | .dtensor tensor =>
    match tensor.layout with
    | some layout =>
      if layout.raggedShard.isSome then
        .dtensor { tensor with localTensor := putRaggedBox tensor layout rank index written }
      else .dtensor { tensor with localTensor := written }
    | none => .dtensor { tensor with localTensor := written }
  | .tensor _ info => .tensor written info
  | leaf => leaf

def validateAndCopyTensor (rank : Nat) (req : ReadItem) (tensor : Tensor α) (target : Leaf α β) :
    Except LoadError (Leaf α β) := do
  let acquired ← LoadError.ofPlan (acquireLocal rank target req.destIndex)
  let targetSize := (narrowTensorByIndex acquired req.destOffsets req.lengths).shape
  if targetSize ≠ tensor.shape then
    .error (.mismatchSizes req.storageIndex targetSize tensor.shape)
  else
    .ok (putLocal rank target req.destIndex
      (copyTensorToTarget acquired req.destOffsets req.lengths tensor))

/--
`pickle.dumps` and `pickle.loads`.  A value that cannot be pickled has no bytes, and what is
loaded from the bytes of a value is the value.
-/
structure Pickle (α β : Type) where
  dumps : StateValue α β → Option (List UInt8)
  loads : List UInt8 → Option (StateValue α β)
  loads_dumps : ∀ value content, dumps value = some content → loads content = some value

/-- What was read for an item. -/
inductive Payload (α : Type) where
  | bytes (content : List UInt8)
  | tensor (tensor : Tensor α)

section Apply

variable (pickle : Pickle α β) (setItem : TensorSetItem α β) (planner : StandardLoadPlanner α β)

def applyBytes (state : LoadState α β) (readItem : ReadItem) (value : List UInt8) :
    Except LoadError (LoadState α β) :=
  let fqn := readItem.destIndex.fqn
  match pickle.loads value with
  | none => .error .unpickling
  | some obj =>
    match planner.nameMapping.get? fqn with
    | none => .error (.keyNotFound fqn)
    | some path =>
      (LoadError.ofStateDict (setElement setItem state.originalStateDict path obj)).map
        fun original =>
          { stateDict := state.stateDict.set fqn obj, originalStateDict := original }

def applyTensor (state : LoadState α β) (readItem : ReadItem) (tensor : Tensor α) :
    Except LoadError (LoadState α β) :=
  let fqn := readItem.destIndex.fqn
  match state.stateDict.get? fqn with
  | none => .error (.keyNotFound fqn)
  | some (.leaf target) =>
    (validateAndCopyTensor planner.rank readItem tensor target).map fun written =>
      { stateDict := state.stateDict.set fqn (.leaf written)
        originalStateDict :=
          match planner.nameMapping.get? fqn with
          | none => state.originalStateDict
          | some path => state.originalStateDict.replaceAt path (.leaf written) }
  | some _ => .error (.plan (.notTensorLike fqn))

def applyFetched (state : LoadState α β) (fetched : ReadItem × Payload α) :
    Except LoadError (LoadState α β) :=
  match fetched.1.type, fetched.2 with
  | .byteIo, .bytes content => applyBytes pickle setItem planner state fetched.1 content
  | .tensor, .tensor tensor => applyTensor planner state fetched.1 tensor
  | _, _ => .error .typeError

end Apply

/-! ## Reading the files -/

structure FileSystemReader (α : Type) where
  storageData : PyDict (String × List Nat) StorageInfo
  bytesFile : String → Option (List UInt8)
  tensorFile : String × List Nat → Option (Tensor α)

namespace FileSystemReader

variable (reader : FileSystemReader α)

def getStorageInfo (req : ReadItem) : Except LoadError StorageInfo :=
  match reader.storageData.get? req.storageIndex.key with
  | none => .error (.storageInfoNotFound req.storageIndex)
  | some info => .ok info

/-- `f.seek(offset)`, then `f.read(length)`. -/
def readAt (content : List UInt8) (offset : Nat) (length : Int) : List UInt8 :=
  if length < 0 then content.drop offset else (content.drop offset).take length.toNat

def fetchBytesFile (path : String) (reqs : List ReadItem) :
    Except LoadError (List (ReadItem × Payload α)) :=
  match reader.bytesFile path with
  | none => .error (.fileNotFound path)
  | some content => reqs.mapM fun req =>
    (reader.getStorageInfo req).map fun info =>
      (req, .bytes (readAt content info.offset info.length))

def fetchTensorFile (reqs : List ReadItem) : Except LoadError (List (ReadItem × Payload α)) :=
  reqs.mapM fun req =>
    match reader.tensorFile req.storageIndex.key with
    | none => .error (.tensorNotFound req.storageIndex)
    | some tensor => .ok (req, .tensor (narrowTensorByIndex tensor req.storageOffsets req.lengths))

def groupItemsByFile (items : List ReadItem) : Except LoadError (PyDict String (List ReadItem)) :=
  (items.mapM fun item =>
    (reader.getStorageInfo item).map fun info => (info.relativePath, item)).map PyDict.group

def fetchFile (file : String × List ReadItem) : Except LoadError (List (ReadItem × Payload α)) :=
  if endsWithAny file.1 [".bytes"] then reader.fetchBytesFile file.1 file.2
  else reader.fetchTensorFile file.2

def fetchFromStorage (items : List ReadItem) : Except LoadError (List (ReadItem × Payload α)) := do
  let perFile ← reader.groupItemsByFile items
  return (← perFile.entries.mapM reader.fetchFile).flatten

end FileSystemReader

def itemsByShard (items : List ReadItem) : PyDict (String × List Nat) (List ReadItem) :=
  PyDict.group (items.map fun item => (item.destIndex.key, item))

def privateBatches (reader : FileSystemReader α) (items : List ReadItem) :
    Except LoadError (PyDict String (List ReadItem)) :=
  reader.groupItemsByFile
    ((itemsByShard items).values.filter fun shard =>
      (shard.head?.bind (·.source)).isNone).flatten

def readPrivate (pickle : Pickle α β) (setItem : TensorSetItem α β)
    (planner : StandardLoadPlanner α β) (reader : FileSystemReader α) (items : List ReadItem)
    (state : LoadState α β) : Except LoadError (LoadState α β) := do
  let batches ← privateBatches reader items
  batches.values.foldlM (fun state batch => do
    let fetched ← reader.fetchFromStorage batch
    fetched.foldlM (applyFetched pickle setItem planner) state) state

end HyperParallel.Checkpoint
