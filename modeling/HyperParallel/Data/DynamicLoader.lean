import HyperParallel.Data.CandidateBuffer

/-!
# The dynamic batch loader

The loader fills a candidate buffer from its source and yields a micro-batch
whenever the buffer is ready; at the end of the source it drains the buffer.  A
checkpoint holds the source cursor and the buffer, either the samples themselves
or the indices from which the dataset gives them again.
-/

namespace HyperParallel.Data

open Foundation

variable {α ι : Type}

inductive SourceItem (α : Type) where
  | sample (modelSample : ModelSample α)
  | samples (modelSamples : List (ModelSample α))

/-- `_normalize_source_samples` -/
def normalizeSourceSamples : SourceItem α → List (ModelSample α)
  | .sample modelSample => [modelSample]
  | .samples modelSamples => modelSamples

abbrev ReplayIndex (ι : Type) := ι × Nat

abbrev LoaderBuffer (α ι : Type) := CandidateBuffer α (ReplayIndex ι)

/--
`source` is what the source DataLoader yields in one epoch, batch by batch, each
item with its output index; `getItem` gives an item again.
-/
structure DynamicLoader (α ι : Type) where
  options : BufferOptions
  dpWorldSize : Nat
  saveByIdx : Bool
  canReplay : Bool
  getItem : ι → SourceItem α
  source : List (List (SourceItem α × ι))

structure LoaderState (α ι : Type) where
  candidateBuffer : LoaderBuffer α ι
  sourceCursor : Nat
  resumePending : Bool

def LoaderState.fresh : LoaderState α ι :=
  { candidateBuffer := .empty, sourceCursor := 0, resumePending := false }

inductive SavedBuffer (α ι : Type) where
  | byIdx (indices : List (ReplayIndex ι))
  | full (samples : List (ModelSample α × Nat))

/-- What `state_dict` returns. -/
structure LoaderCheckpoint (α ι : Type) where
  dpWorldSize : Nat
  sourceDataloader : Nat
  buffer : SavedBuffer α ι
  bufferTokenCount : Int

structure Yielded (α ι : Type) where
  before : LoaderBuffer α ι
  samples : List (ModelSample α)
  after : LoaderState α ι

namespace DynamicLoader

variable (loader : DynamicLoader α ι)

/-! ## Reading and yielding -/

def sampleEntries (sourceItem : SourceItem α × ι) :
    List (ModelSample α × Option (ReplayIndex ι)) :=
  if loader.saveByIdx then
    (normalizeSourceSamples sourceItem.1).zipIdx.map fun entry =>
      (entry.1, some (sourceItem.2, entry.2))
  else (normalizeSourceSamples sourceItem.1).map fun modelSample => (modelSample, none)

/-- `put_source_item` of either checkpoint class -/
def putSourceItem (buf : LoaderBuffer α ι) (sourceItem : SourceItem α × ι) :
    Except String (LoaderBuffer α ι) :=
  (loader.sampleEntries sourceItem).foldlM
    (fun buf entry => buf.putItem loader.options entry.1 entry.2) buf

/-- A `while` loop that yields micro-batches; every turn takes a sample, so `fuel` is enough. -/
def drain (ready : LoaderBuffer α ι → Bool) (cursor : Nat) :
    Nat → LoaderBuffer α ι → List (Yielded α ι) × Except String (LoaderBuffer α ι)
  | 0, buf => ([], if ready buf then .error "out of fuel" else .ok buf)
  | fuel + 1, buf =>
    if ready buf then
      match buf.getMicroBatch loader.options with
      | .error message => ([], .error message)
      | .ok (samples, rest) =>
        let later := drain ready cursor fuel rest
        (⟨buf, samples, ⟨rest, cursor, false⟩⟩ :: later.1, later.2)
    else ([], .ok buf)

def drainReady (cursor : Nat) (buf : LoaderBuffer α ι) :
    List (Yielded α ι) × Except String (LoaderBuffer α ι) :=
  loader.drain (CandidateBuffer.isReady loader.options) cursor buf.buffer.length buf

def drainAll (cursor : Nat) (buf : LoaderBuffer α ι) :
    List (Yielded α ι) × Except String (LoaderBuffer α ι) :=
  loader.drain (fun buf => !buf.buffer.isEmpty) cursor buf.buffer.length buf

def andThen (first : List (Yielded α ι) × Except String (LoaderBuffer α ι))
    (next : LoaderBuffer α ι → List (Yielded α ι) × Except String (LoaderBuffer α ι)) :
    List (Yielded α ι) × Except String (LoaderBuffer α ι) :=
  match first.2 with
  | .error message => (first.1, .error message)
  | .ok buf => (first.1 ++ (next buf).1, (next buf).2)

/-- Stages 2 and 3 of `_batch_data_generator`, from the source batches that are left. -/
def readSource : Nat → List (List (SourceItem α × ι)) → LoaderBuffer α ι →
    List (Yielded α ι) × Except String (LoaderBuffer α ι)
  | cursor, [], buf => loader.drainAll cursor buf
  | cursor, sourceSamples :: rest, buf =>
    match sourceSamples.foldlM loader.putSourceItem buf with
    | .error message => ([], .error message)
    | .ok buf => andThen (loader.drainReady (cursor + 1) buf) (readSource (cursor + 1) rest)

/-- `_batch_data_generator` -/
def batchDataGenerator (buf : LoaderBuffer α ι) (cursor : Nat) :
    List (Yielded α ι) × Except String (LoaderBuffer α ι) :=
  andThen (loader.drainReady cursor buf) (loader.readSource cursor (loader.source.drop cursor))

/-- `__iter__`: the buffer survives only when a checkpoint was just loaded. -/
def iter (state : LoaderState α ι) : List (Yielded α ι) × Except String (LoaderBuffer α ι) :=
  if state.resumePending then loader.batchDataGenerator state.candidateBuffer state.sourceCursor
  else loader.batchDataGenerator .empty 0

/-! ## Checkpoints -/

/-- `get_buffer_state` of either checkpoint class -/
def getBufferState (buf : LoaderBuffer α ι) : Except String (SavedBuffer α ι) :=
  if buf.buffer.length ≠ buf.bufferOutputIndices.length then
    .error "Dynamic sample and output-index buffers are inconsistent"
  else if loader.saveByIdx then
    match buf.bufferOutputIndices.mapM id with
    | none => .error "Index-buffer checkpoint requires a replay key for every buffered sample"
    | some indices => .ok (.byIdx indices)
  else .ok (.full buf.buffer)

/-- `state_dict` -/
def stateDict (state : LoaderState α ι) : Except String (LoaderCheckpoint α ι) :=
  (loader.getBufferState state.candidateBuffer).map fun buffer =>
    { dpWorldSize := loader.dpWorldSize
      sourceDataloader := state.sourceCursor
      buffer := buffer
      bufferTokenCount := state.candidateBuffer.bufferTokenCount }

variable [DecidableEq ι]

def cachedModelSamples (cache : Option (ι × List (ModelSample α))) (outputIndex : ι) :
    List (ModelSample α) :=
  match cache with
  | some (cachedOutputIndex, modelSamples) =>
    if outputIndex ≠ cachedOutputIndex then normalizeSourceSamples (loader.getItem outputIndex)
    else modelSamples
  | none => normalizeSourceSamples (loader.getItem outputIndex)

/-- One turn of `_restore_index_buffer` -/
def restoreEntry
    (restored : List (ModelSample α × Nat) × Option (ι × List (ModelSample α)))
    (outputIndexEntry : ReplayIndex ι) :
    Except String (List (ModelSample α × Nat) × Option (ι × List (ModelSample α))) :=
  let modelSamples := loader.cachedModelSamples restored.2 outputIndexEntry.1
  match modelSamples[outputIndexEntry.2]? with
  | none => .error "Buffered sample index is out of range for output index"
  | some modelSample =>
    (sampleCost loader.options.kind modelSample).map fun cost : Nat =>
      (restored.1 ++ [(modelSample, cost)], some (outputIndexEntry.1, modelSamples))

def restoreIndexBuffer (savedBuffer : List (ReplayIndex ι)) :
    Except String (List (ModelSample α × Nat)) :=
  (savedBuffer.foldlM loader.restoreEntry ([], none)).map (·.1)

/-- `restore_buffer` of either checkpoint class -/
def restoreBuffer (savedBuffer : SavedBuffer α ι) :
    Except String (List (ModelSample α × Nat) × List (Option (ReplayIndex ι))) :=
  match loader.saveByIdx, savedBuffer with
  | true, .full samples =>
    if samples.isEmpty then .ok ([], [])
    else .error "save_by_idx=True cannot restore a checkpoint containing full samples"
  | true, .byIdx indices =>
    (loader.restoreIndexBuffer indices).map fun restored => (restored, indices.map some)
  | false, .byIdx indices =>
    if ¬ indices.isEmpty ∧ ¬ loader.canReplay then
      .error "An index-buffer checkpoint requires a replayable Dataset"
    else (loader.restoreIndexBuffer indices).map fun restored =>
      (restored, List.replicate restored.length none)
  | false, .full samples => .ok (samples, List.replicate samples.length none)

/-- `load_state_dict`; the iterator that follows starts from this state. -/
def loadStateDict (checkpoint : LoaderCheckpoint α ι) : Except String (LoaderState α ι) :=
  if checkpoint.dpWorldSize ≠ loader.dpWorldSize then
    .error "Online dataloader resume does not support DP world-size changes"
  else do
    let (restoredBuffer, restoredIndices) ← loader.restoreBuffer checkpoint.buffer
    let restoredTokenCount : Int := ((restoredBuffer.map (·.2)).sum : Nat)
    if restoredTokenCount ≠ checkpoint.bufferTokenCount then
      .error "buffer_token_count does not match the restored dynamic buffer"
    else
      .ok { candidateBuffer :=
              { buffer := restoredBuffer
                bufferOutputIndices := restoredIndices
                bufferTokenCount := restoredTokenCount }
            sourceCursor := checkpoint.sourceDataloader
            resumePending := true }

end DynamicLoader

end HyperParallel.Data
