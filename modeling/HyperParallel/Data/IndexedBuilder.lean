import HyperParallel.Data.IndexFormat
import Mathlib.Data.List.SplitLengths

/-!
# Building indexed datasets

A builder appends items and documents to its data file and merges whole
datasets that were finalized before.  Jobs run one after the other, each with a
builder of its own, and leave their files in a store.  The abstract side is the
corpus a job writes: its sequences, and the boundaries of its documents.
-/

namespace HyperParallel.Data

open Foundation Foundation.FixedWidth

variable {τ : Type}

structure Elements (τ : Type) where
  bits : DType → τ → Nat
  value : DType → Nat → τ
  bits_lt : ∀ dtype t, bits dtype t < 256 ^ dtype.size

namespace Elements

def tobytes (elements : Elements τ) (dtype : DType) (t : τ) : List UInt8 :=
  littleEndian dtype.size (elements.bits dtype t)

def frombytes (elements : Elements τ) (dtype : DType) (bytes : List UInt8) : τ :=
  elements.value dtype (ofLittleEndian bytes)

def Representable (elements : Elements τ) (dtype : DType) (t : τ) : Prop :=
  elements.value dtype (elements.bits dtype t) = t

instance [DecidableEq τ] (elements : Elements τ) (dtype : DType) (t : τ) :
    Decidable (elements.Representable dtype t) :=
  inferInstanceAs (Decidable (elements.value dtype (elements.bits dtype t) = t))

theorem length_tobytes (elements : Elements τ) (dtype : DType) (t : τ) :
    (elements.tobytes dtype t).length = dtype.size :=
  length_littleEndian _ _

theorem frombytes_tobytes {elements : Elements τ} {dtype : DType} {t : τ}
    (h : elements.Representable dtype t) :
    elements.frombytes dtype (elements.tobytes dtype t) = t := by
  rw [frombytes, tobytes, ofLittleEndian_of_lt (elements.bits_lt dtype t), h]

end Elements

structure DatasetFiles where
  idx : List UInt8
  bin : List UInt8
  deriving DecidableEq, Repr

structure IndexReader where
  dtype : DType
  sequenceCount : Nat
  sequenceLengths : List Int
  sequencePointers : List Int
  documentIndices : List Int
  deriving DecidableEq, Repr

namespace Tools

def headerMessages : HeaderMessages where
  header := "Bad header"
  version := "Unsupported index version"
  dtypes := DType.dtypeFromCode
  dtype := "not a valid DType"

def readModes (idx : List UInt8) (multimodal : Bool) (header : Header) (arrays : IndexArrays) :
    Except String (Option (List Int)) :=
  if multimodal then
    (frombuffer idx 1 header.sequenceCount
      ((payloadOffset + 4 * arrays.sequenceLengths.length + 8 * arrays.sequencePointers.length +
        8 * arrays.documentIndices.length : Nat) : Int)).map fun modes =>
          some (modes.map (ofSignedLittleEndian 1))
  else .ok none

def checkIndex (header : Header) (arrays : IndexArrays) : Except String IndexReader :=
  if arrays.sequenceLengths.length ≠ header.sequenceCount then
    .error "Sequence length count does not match the index sequence count"
  else
    match arrays.documentIndices.getLast? with
    | none => .error "index -1 is out of bounds for axis 0 with size 0"
    | some last =>
      if (arrays.sequenceLengths.length : Int) ≠ last then
        .error "Sequence length count does not match the final document index"
      else .ok ⟨header.dtype, header.sequenceCount, arrays.sequenceLengths,
        arrays.sequencePointers, arrays.documentIndices⟩

/-- `_IndexReader` of the tools: the index, and the modes of a multimodal one. -/
def openIndex (idx : List UInt8) (multimodal : Bool) :
    Except String (IndexReader × Option (List Int)) := do
  let header ← readHeader headerMessages idx
  let arrays ← readArrays idx header
  let sequenceModes ← readModes idx multimodal header arrays
  let index ← checkIndex header arrays
  pure (index, sequenceModes)

end Tools

/-- `IndexedDatasetBuilder`; a builder has modes when its dataset is multimodal. -/
structure Builder where
  dtype : DType
  dataFile : List UInt8
  sequenceLengths : List Scalar
  documentIndices : List Int
  sequenceModes : Option (List Int)
  deriving DecidableEq, Repr

namespace Builder

/-- `list.extend`; no Python list outgrows `sys.maxsize`. -/
def extend {α : Type} (xs ys : List α) : Except String (List α) :=
  if xs.length + ys.length < 2 ^ 63 then .ok (xs ++ ys) else .error "MemoryError"

def extendModes (message : String) (held modes : Option (List Int)) :
    Except String (Option (List Int)) :=
  match held, modes with
  | none, _ => .ok none
  | some _, none => .error message
  | some held, some modes => (extend held modes).map some

def init (dtype : DType) (multimodal : Bool) : Builder where
  dtype := dtype
  dataFile := []
  sequenceLengths := []
  documentIndices := [0]
  sequenceModes := if multimodal then some [] else none

def addItem (elements : Elements τ) (b : Builder) (tensor : List τ) (mode : Int) :
    Except String Builder := do
  let sequenceLengths ← extend b.sequenceLengths [.int tensor.length]
  let sequenceModes ← extendModes "" b.sequenceModes (some [mode])
  pure { b with
    dataFile := b.dataFile ++ tensor.flatMap (elements.tobytes b.dtype)
    sequenceLengths := sequenceLengths
    sequenceModes := sequenceModes }

/-- `add_document`; without modes a multimodal builder tries to multiply a list by a list. -/
def addDocument (elements : Elements τ) (b : Builder) (tensor : List τ) (lengths : List Int)
    (modes : Option (List Int)) : Except String Builder := do
  let sequenceLengths ← extend b.sequenceLengths (lengths.map Scalar.int)
  let documentIndices ← extend b.documentIndices [(sequenceLengths.length : Int)]
  let sequenceModes ← extendModes "can't multiply sequence by non-int of type 'list'"
    b.sequenceModes modes
  pure { b with
    dataFile := b.dataFile ++ tensor.flatMap (elements.tobytes b.dtype)
    sequenceLengths := sequenceLengths
    documentIndices := documentIndices
    sequenceModes := sequenceModes }

def endDocument (b : Builder) : Except String Builder := do
  let documentIndices ← extend b.documentIndices [(b.sequenceLengths.length : Int)]
  pure { b with documentIndices := documentIndices }

def addIndex (b : Builder) (files : DatasetFiles) : Except String Builder := do
  let (index, indexModes) ← Tools.openIndex files.idx b.sequenceModes.isSome
  if index.dtype ≠ b.dtype then .error "Index dtype does not match builder dtype" else
  let offset := b.sequenceLengths.length
  let sequenceLengths ← extend b.sequenceLengths (index.sequenceLengths.map Scalar.int32)
  let documentIndices ← extend b.documentIndices
    ((index.documentIndices.map fun d => Int.bmod (offset + d) (2 ^ 64)).drop 1)
  let sequenceModes ← extendModes "sequence_modes cannot be None for a multimodal dataset"
    b.sequenceModes indexModes
  pure { b with
    dataFile := b.dataFile ++ files.bin
    sequenceLengths := sequenceLengths
    documentIndices := documentIndices
    sequenceModes := sequenceModes }

def finalize (b : Builder) : Except String DatasetFiles := do
  let idx ← writeIndex b.dtype b.sequenceLengths b.sequenceModes b.documentIndices
  pure ⟨idx, b.dataFile⟩

end Builder

/-! ## Jobs -/

inductive Call (τ : Type) where
  | addItem (tensor : List τ) (mode : Int)
  | endDocument
  | addDocument (tensor : List τ) (lengths : List Int) (modes : Option (List Int))
  | addIndex (path : Nat)

def Builder.call (elements : Elements τ) (store : List DatasetFiles) (b : Builder) :
    Call τ → Except String Builder
  | .addItem tensor mode => b.addItem elements tensor mode
  | .endDocument => b.endDocument
  | .addDocument tensor lengths modes => b.addDocument elements tensor lengths modes
  | .addIndex path =>
    match store[path]? with
    | none => .error "FileNotFoundError"
    | some files => b.addIndex files

/-- One builder from its construction to `finalize`. -/
structure Job (τ : Type) where
  dtype : DType
  multimodal : Bool
  calls : List (Call τ)

def Job.run (elements : Elements τ) (store : List DatasetFiles) (job : Job τ) :
    Except String DatasetFiles := do
  let b ← job.calls.foldlM (Builder.call elements store) (Builder.init job.dtype job.multimodal)
  b.finalize

def runJobs (elements : Elements τ) (jobs : List (Job τ)) : Except String (List DatasetFiles) :=
  jobs.foldlM (fun store job => (job.run elements store).map fun files => store ++ [files]) []

/-! ## What is written -/

structure Corpus (τ : Type) where
  dtype : DType
  sequences : List (List τ)
  boundaries : List Nat

namespace Corpus

def tokens (c : Corpus τ) : List τ := c.sequences.flatten

def lengths (c : Corpus τ) : List Nat := c.sequences.map List.length

def append (c d : Corpus τ) : Corpus τ where
  dtype := c.dtype
  sequences := c.sequences ++ d.sequences
  boundaries := c.boundaries ++ d.boundaries.tail.map fun boundary => c.sequences.length + boundary

def call (corpora : List (Corpus τ)) (c : Corpus τ) : Call τ → Corpus τ
  | .addItem tensor _ => { c with sequences := c.sequences ++ [tensor] }
  | .endDocument => { c with boundaries := c.boundaries ++ [c.sequences.length] }
  | .addDocument tensor lengths _ =>
    let sequences := c.sequences ++ (lengths.map Int.toNat).splitLengths tensor
    { c with sequences := sequences, boundaries := c.boundaries ++ [sequences.length] }
  | .addIndex path =>
    match corpora[path]? with
    | none => c
    | some d => c.append d

/-- The lengths fit the index, the data file is shorter than the largest pointer, and the tokens
are ones the array type can hold. -/
structure Fits (elements : Elements τ) (c : Corpus τ) : Prop where
  lengths : ∀ s ∈ c.sequences, s.length < 2 ^ 31
  total : c.dtype.size * c.tokens.length < 2 ^ 63
  representable : ∀ t ∈ c.tokens, elements.Representable c.dtype t

end Corpus

def Job.corpus (corpora : List (Corpus τ)) (job : Job τ) : Corpus τ :=
  job.calls.foldl (Corpus.call corpora) ⟨job.dtype, [], [0]⟩

def corporaOf (jobs : List (Job τ)) : List (Corpus τ) :=
  jobs.foldl (fun corpora job => corpora ++ [job.corpus corpora]) []

def Call.Divides : Call τ → Prop
  | .addDocument tensor lengths _ =>
    ∃ sizes : List Nat, lengths = sizes.map Nat.cast ∧ sizes.sum = tensor.length
  | _ => True

end HyperParallel.Data
