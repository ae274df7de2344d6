import HyperParallel.Foundation.FixedWidth
import HyperParallel.Foundation.PySequence

/-!
# The index file

An index file is a fixed header, the number of sequences and of document
boundaries, and three arrays: the length of each sequence, its byte pointer
into the data file, and the boundaries.  A multimodal index ends with a mode for
each sequence.  Whatever integers are written, the two readers get back their
two's complement words.
-/

namespace HyperParallel.Data

open Foundation Foundation.FixedWidth List

inductive DType where
  | uint8
  | int8
  | int16
  | int32
  | int64
  | float64
  | float32
  | uint16
  deriving DecidableEq, Repr

namespace DType

/-- The value of the enumeration member. -/
def code : DType → Nat
  | uint8 => 1
  | int8 => 2
  | int16 => 3
  | int32 => 4
  | int64 => 5
  | float64 => 6
  | float32 => 7
  | uint16 => 8

def size : DType → Nat
  | uint8 | int8 => 1
  | int16 | uint16 => 2
  | int32 | float32 => 4
  | int64 | float64 => 8

/-- `dtype_from_code`: the member with the value. -/
def dtypeFromCode (value : Nat) : Option DType :=
  [uint8, int8, int16, int32, int64, float64, float32, uint16].find? fun dtype =>
    dtype.code = value

theorem dtypeFromCode_code (dtype : DType) : dtypeFromCode dtype.code = some dtype := by
  cases dtype <;> rfl

theorem code_lt (dtype : DType) : dtype.code < 256 ^ 1 := by cases dtype <;> decide

theorem size_pos (dtype : DType) : 0 < dtype.size := by cases dtype <;> decide

end DType

/-- `INDEX_DTYPE_CODES` -/
def indexDtypeCodes : Nat → Option DType
  | 1 => some .uint8
  | 2 => some .int8
  | 3 => some .int16
  | 4 => some .int32
  | 5 => some .int64
  | 6 => some .float64
  | 7 => some .float32
  | 8 => some .uint16
  | _ => none

theorem indexDtypeCodes_code (dtype : DType) : indexDtypeCodes dtype.code = some dtype := by
  cases dtype <;> rfl

/-- `INDEX_HEADER`, the bytes of `MMIDIDX` and two zeros. -/
def indexHeader : List UInt8 := [77, 77, 73, 68, 73, 68, 88, 0, 0]

/-- `INDEX_VERSION` -/
def indexVersion : Nat := 1

/-! ## NumPy integers -/

/-- An integer of a list the builder fills: a Python one, or a NumPy scalar. -/
inductive Scalar where
  | int (v : Int)
  | int32 (v : Int)
  | int64 (v : Int)
  deriving DecidableEq, Repr

namespace Scalar

def value : Scalar → Int
  | int v | int32 v | int64 v => v

/-- A scalar times a Python integer: NumPy takes the Python one as a 64-bit word. -/
def mulInt : Scalar → Int → Scalar
  | int v, k => int (v * k)
  | int32 v, k | int64 v, k => int64 (Int.bmod (v * k) (2 ^ 64))

def add : Scalar → Scalar → Scalar
  | int v, int w => int (v + w)
  | int32 v, int32 w => int32 (Int.bmod (v + w) (2 ^ 32))
  | x, y => int64 (Int.bmod (x.value + y.value) (2 ^ 64))

theorem mulInt_value {x : Scalar} {k : Int} (hlow : 0 ≤ x.value * k)
    (hhigh : x.value * k < 2 ^ 63) : (x.mulInt k).value = x.value * k := by
  cases x with
  | int v => rfl
  | int32 v => exact bmod_of_bounds hlow (by simp only [value] at hhigh; omega)
  | int64 v => exact bmod_of_bounds hlow (by simp only [value] at hhigh; omega)

/-- A scalar that never holds a 32-bit word after its first product. -/
def Wide : Scalar → Prop
  | int _ | int64 _ => True
  | int32 _ => False

theorem mulInt_wide (x : Scalar) (k : Int) : (x.mulInt k).Wide := by cases x <;> trivial

theorem add_wide {x y : Scalar} (hx : x.Wide) (hy : y.Wide) : (x.add y).Wide := by
  cases x <;> cases y <;> trivial

theorem add_value {x y : Scalar} (hx : x.Wide) (hlow : 0 ≤ x.value + y.value)
    (hhigh : x.value + y.value < 2 ^ 63) : (x.add y).value = x.value + y.value := by
  have hword : Int.bmod (x.value + y.value) (2 ^ 64) = x.value + y.value :=
    bmod_of_bounds hlow (by omega)
  cases x with
  | int v =>
    cases y with
    | int w => rfl
    | int32 w => exact hword
    | int64 w => exact hword
  | int32 v => exact hx.elim
  | int64 v => cases y <;> exact hword

end Scalar

/-- The loop of `_sequence_pointers`: where each sequence starts, from the current pointer on. -/
def sequencePointersFrom (itemsize : Int) (currPtr : Scalar) : List Scalar → List Scalar
  | [] => []
  | length :: lengths =>
    currPtr :: sequencePointersFrom itemsize (currPtr.add (length.mulInt itemsize)) lengths

def sequencePointers (dtype : DType) (sequenceLengths : List Scalar) : List Scalar :=
  sequencePointersFrom dtype.size (.int 0) sequenceLengths

theorem length_sequencePointersFrom (itemsize : Int) (currPtr : Scalar) (lengths : List Scalar) :
    (sequencePointersFrom itemsize currPtr lengths).length = lengths.length := by
  induction lengths generalizing currPtr with
  | nil => rfl
  | cons length lengths ih => rw [sequencePointersFrom, length_cons, length_cons, ih]

/-- With no negative length and an end below the word size, no sum or product wraps, whichever
integers the lengths are: each pointer is the item size times the lengths before it. -/
theorem sequencePointersFrom_value {itemsize : Nat} (currPtr : Scalar) (start : Nat)
    {lengths : List Scalar} {sizes : List Nat} (hwide : currPtr.Wide)
    (hstart : currPtr.value = (itemsize * start : Nat))
    (hsizes : lengths.map Scalar.value = sizes.map Nat.cast)
    (hend : itemsize * (start + sizes.sum) < 2 ^ 63) {i : Nat} (hi : i < sizes.length) :
    ((sequencePointersFrom itemsize currPtr lengths).map Scalar.value)[i]? =
      some ((itemsize * (start + (sizes.take i).sum) : Nat) : Int) := by
  induction lengths generalizing currPtr sizes start i with
  | nil =>
    obtain rfl : sizes = [] := by simpa using hsizes.symm
    simp at hi
  | cons length lengths ih =>
    obtain _ | ⟨size, sizes⟩ := sizes
    · simp at hi
    rw [map_cons, map_cons, cons.injEq] at hsizes
    obtain ⟨hsize, hsizes⟩ := hsizes
    rw [sum_cons] at hend
    rw [sequencePointersFrom, map_cons]
    cases i with
    | zero =>
      rw [getElem?_cons_zero, hstart]
      simp
    | succ i =>
      have hproduct : length.value * (itemsize : Int) = (itemsize * size : Nat) := by
        rw [hsize, Nat.cast_mul, Int.mul_comm]
      have hbound : itemsize * (start + size) ≤ itemsize * (start + (size + sizes.sum)) :=
        Nat.mul_le_mul_left _ (by omega)
      have hsplit := Nat.mul_add itemsize start size
      have hmul : (length.mulInt itemsize).value = (itemsize * size : Nat) := by
        rw [Scalar.mulInt_value (by rw [hproduct]; omega) (by rw [hproduct]; omega), hproduct]
      have hnext : (currPtr.add (length.mulInt itemsize)).value =
          (itemsize * (start + size) : Nat) := by
        rw [Scalar.add_value hwide (by rw [hstart, hmul]; omega) (by rw [hstart, hmul]; omega),
          hstart, hmul, hsplit]
        push_cast
        rfl
      have hrest := ih _ _ (Scalar.add_wide hwide (length.mulInt_wide itemsize)) hnext hsizes
        (by rw [Nat.add_assoc]; exact hend) (by simpa using hi)
      rw [getElem?_cons_succ, hrest, take_succ_cons, sum_cons, Nat.add_assoc]

/-- `numpy.array(xs, dtype).tobytes()` for a signed integer type of `width` bytes. -/
def arrayBytes (width : Nat) (xs : List Int) : Except String (List UInt8) :=
  if ∀ x ∈ xs, -2 ^ 63 ≤ x ∧ x < 2 ^ 63 then .ok (xs.flatMap (signedLittleEndian width))
  else .error "Python int too large to convert to C long"

theorem arrayBytes_ok {width : Nat} {xs : List Int} {bytes : List UInt8}
    (h : arrayBytes width xs = .ok bytes) : bytes = xs.flatMap (signedLittleEndian width) := by
  rw [arrayBytes] at h
  split at h
  · exact (Except.ok.inj h).symm
  · cases h

/-- `struct.pack("<Q", n)` -/
def packQ (n : Nat) : Except String (List UInt8) :=
  if n < 2 ^ 64 then .ok (littleEndian 8 n) else .error "int too large to convert"

/-! ## Writing -/

def modesBytes : Option (List Int) → Except String (List UInt8)
  | some sequenceModes => arrayBytes 1 sequenceModes
  | none => .ok []

/-- `_IndexWriter`: the header of `__enter__`, then `write`. -/
def writeIndex (dtype : DType) (sequenceLengths : List Scalar) (sequenceModes : Option (List Int))
    (documentIndices : List Int) : Except String (List UInt8) := do
  let header := indexHeader ++ littleEndian 8 indexVersion ++ littleEndian 1 dtype.code
  let sequenceCount ← packQ sequenceLengths.length
  let documentCount ← packQ documentIndices.length
  let lengths ← arrayBytes 4 (sequenceLengths.map Scalar.value)
  let pointers ← arrayBytes 8 ((sequencePointers dtype sequenceLengths).map Scalar.value)
  let documents ← arrayBytes 8 documentIndices
  let modes ← modesBytes sequenceModes
  pure (header ++ sequenceCount ++ documentCount ++ lengths ++ pointers ++ documents ++ modes)

def indexLayout (dtype : DType) (lengths pointers documents : List Int) (rest : List UInt8) :
    List UInt8 :=
  indexHeader ++ (littleEndian 8 indexVersion ++ (littleEndian 1 dtype.code ++
    (littleEndian 8 lengths.length ++ (littleEndian 8 documents.length ++
      (lengths.flatMap (signedLittleEndian 4) ++ (pointers.flatMap (signedLittleEndian 8) ++
        (documents.flatMap (signedLittleEndian 8) ++ rest)))))))

theorem writeIndex_ok {dtype : DType} {sequenceLengths : List Scalar}
    {sequenceModes : Option (List Int)} {documentIndices : List Int} {idx : List UInt8}
    (h : writeIndex dtype sequenceLengths sequenceModes documentIndices = .ok idx) :
    sequenceLengths.length < 2 ^ 64 ∧ documentIndices.length < 2 ^ 64 ∧
      ∃ modes, idx = indexLayout dtype (sequenceLengths.map Scalar.value)
        ((sequencePointers dtype sequenceLengths).map Scalar.value) documentIndices modes := by
  rw [writeIndex] at h
  obtain ⟨sequenceCount, hsequence, h⟩ := bind_eq_ok h
  obtain ⟨documentCount, hdocument, h⟩ := bind_eq_ok h
  obtain ⟨lengths, hlengths, h⟩ := bind_eq_ok h
  obtain ⟨pointers, hpointers, h⟩ := bind_eq_ok h
  obtain ⟨documents, hdocuments, h⟩ := bind_eq_ok h
  obtain ⟨modes, -, h⟩ := bind_eq_ok h
  rw [packQ] at hsequence hdocument
  split at hsequence
  · split at hdocument
    · rename_i hs hd
      refine ⟨hs, hd, modes, ?_⟩
      rw [← Except.ok.inj h, ← Except.ok.inj hsequence, ← Except.ok.inj hdocument,
        arrayBytes_ok hlengths, arrayBytes_ok hpointers, arrayBytes_ok hdocuments]
      simp only [indexLayout, length_map, append_assoc]
    · cases hdocument
  · cases hsequence

/-! ## Reading -/

/-- `struct.unpack(..., stream.read(width))[0]`, with what is left of the stream. -/
def unpack (width : Nat) (stream : List UInt8) : Except String (Nat × List UInt8) :=
  if stream.length < width then .error "unpack requires a buffer of that many bytes"
  else .ok (ofLittleEndian (stream.take width), stream.drop width)

theorem unpack_littleEndian {width x : Nat} (h : x < 256 ^ width) (rest : List UInt8) :
    unpack width (littleEndian width x ++ rest) = .ok (x, rest) := by
  have hlength := length_littleEndian width x
  rw [unpack, if_neg (by rw [length_append]; omega), take_append_of_le_length (by omega),
    take_of_length_le (by omega), drop_append_of_le_length (by omega), drop_of_length_le (by omega),
    nil_append, ofLittleEndian_of_lt h]

/-- `numpy.frombuffer`, item by item. -/
def frombuffer (buffer : List UInt8) (itemsize : Nat) (count offset : Int) :
    Except String (List (List UInt8)) :=
  if offset < 0 ∨ (buffer.length : Int) < offset then
    .error "offset must be non-negative and no greater than buffer length"
  else
    let available := buffer.length - offset.toNat
    if count < 0 then
      if available % itemsize ≠ 0 then .error "buffer size must be a multiple of element size"
      else .ok (records itemsize (available / itemsize) (buffer.drop offset.toNat))
    else if (available : Int) < count * itemsize then
      .error "buffer is smaller than requested size"
    else .ok (records itemsize count.toNat (buffer.drop offset.toNat))

theorem frombuffer_natCast {buffer : List UInt8} {itemsize count offset : Nat}
    (h : offset + count * itemsize ≤ buffer.length) :
    frombuffer buffer itemsize count offset =
      .ok (records itemsize count (buffer.drop offset)) := by
  have hsize : ((count * itemsize : Nat) : Int) = (count : Int) * itemsize := Nat.cast_mul _ _
  rw [frombuffer, if_neg (by omega)]
  simp only [Int.toNat_natCast]
  rw [if_neg (by omega), if_neg (by omega)]

theorem frombuffer_records {before rest : List UInt8} {encode : Int → List UInt8} {itemsize : Nat}
    (hencode : ∀ x, (encode x).length = itemsize) (xs : List Int) {offset : Nat}
    (hoffset : before.length = offset) :
    frombuffer (before ++ (xs.flatMap encode ++ rest)) itemsize xs.length offset =
      .ok (xs.map encode) := by
  subst hoffset
  have hsize := length_flatMap hencode xs
  have hcomm := Nat.mul_comm itemsize xs.length
  rw [frombuffer_natCast (by simp only [length_append]; omega), drop_left,
    records_flatMap_append hencode]

structure HeaderMessages where
  header : String
  version : String
  dtypes : Nat → Option DType
  dtype : String

structure Header where
  dtype : DType
  sequenceCount : Nat
  documentCount : Nat

def readHeader (messages : HeaderMessages) (file : List UInt8) : Except String Header := do
  if file.take indexHeader.length ≠ indexHeader then throw messages.header
  let (version, stream) ← unpack 8 (file.drop indexHeader.length)
  if version ≠ indexVersion then throw messages.version
  let (dtypeCode, stream) ← unpack 1 stream
  match messages.dtypes dtypeCode with
  | none => throw messages.dtype
  | some dtype =>
    let (sequenceCount, stream) ← unpack 8 stream
    let (documentCount, _) ← unpack 8 stream
    pure ⟨dtype, sequenceCount, documentCount⟩

/-- `stream.tell()` after the header. -/
def payloadOffset : Nat := 34

structure IndexArrays where
  sequenceLengths : List Int
  sequencePointers : List Int
  documentIndices : List Int
  deriving DecidableEq, Repr

def readArrays (file : List UInt8) (header : Header) : Except String IndexArrays := do
  let lengths ← frombuffer file 4 header.sequenceCount payloadOffset
  let pointers ← frombuffer file 8 header.sequenceCount
    ((payloadOffset + 4 * lengths.length : Nat) : Int)
  let documents ← frombuffer file 8 header.documentCount
    ((payloadOffset + 4 * lengths.length + 8 * pointers.length : Nat) : Int)
  pure ⟨lengths.map (ofSignedLittleEndian 4), pointers.map (ofSignedLittleEndian 8),
    documents.map (ofSignedLittleEndian 8)⟩

theorem readHeader_indexLayout (messages : HeaderMessages) {dtype : DType}
    {lengths pointers documents : List Int} (hdtype : messages.dtypes dtype.code = some dtype)
    (hlengths : lengths.length < 2 ^ 64) (hdocuments : documents.length < 2 ^ 64)
    (rest : List UInt8) :
    readHeader messages (indexLayout dtype lengths pointers documents rest) =
      .ok ⟨dtype, lengths.length, documents.length⟩ := by
  have hversion : indexVersion < 256 ^ 8 := by decide
  have htake : (indexLayout dtype lengths pointers documents rest).take indexHeader.length =
      indexHeader := take_left
  have hdrop : (indexLayout dtype lengths pointers documents rest).drop indexHeader.length = _ :=
    drop_left
  have hsequenceCount : ∀ rest, unpack 8 (littleEndian 8 lengths.length ++ rest) =
      .ok (lengths.length, rest) := unpack_littleEndian hlengths
  have hdocumentCount : ∀ rest, unpack 8 (littleEndian 8 documents.length ++ rest) =
      .ok (documents.length, rest) := unpack_littleEndian hdocuments
  simp only [readHeader, htake, hdrop, ne_eq, not_true_eq_false, if_false, bind, Except.bind,
    pure, Except.pure, unpack_littleEndian hversion, unpack_littleEndian dtype.code_lt, hdtype,
    hsequenceCount, hdocumentCount]

theorem readArrays_indexLayout {dtype : DType} {lengths pointers documents : List Int}
    (hpointers : pointers.length = lengths.length) (rest : List UInt8) :
    readArrays (indexLayout dtype lengths pointers documents rest)
        ⟨dtype, lengths.length, documents.length⟩ =
      .ok ⟨lengths.map fun v => Int.bmod v (256 ^ 4), pointers.map fun v => Int.bmod v (256 ^ 8),
        documents.map fun v => Int.bmod v (256 ^ 8)⟩ := by
  let header := indexHeader ++ (littleEndian 8 indexVersion ++ (littleEndian 1 dtype.code ++
    (littleEndian 8 lengths.length ++ littleEndian 8 documents.length)))
  have hheader : header.length = payloadOffset := by
    simp only [header, length_append, length_littleEndian]
    rfl
  have hlengths : (lengths.flatMap (signedLittleEndian 4)).length = 4 * lengths.length :=
    length_flatMap (length_signedLittleEndian 4) lengths
  have hbytes : (pointers.flatMap (signedLittleEndian 8)).length = 8 * pointers.length :=
    length_flatMap (length_signedLittleEndian 8) pointers
  have hfirst : indexLayout dtype lengths pointers documents rest =
      header ++ (lengths.flatMap (signedLittleEndian 4) ++ (pointers.flatMap (signedLittleEndian 8) ++
        (documents.flatMap (signedLittleEndian 8) ++ rest))) := by
    simp only [indexLayout, header, append_assoc]
  have hsecond : indexLayout dtype lengths pointers documents rest =
      (header ++ lengths.flatMap (signedLittleEndian 4)) ++ (pointers.flatMap (signedLittleEndian 8) ++
        (documents.flatMap (signedLittleEndian 8) ++ rest)) := by
    simp only [hfirst, append_assoc]
  have hthird : indexLayout dtype lengths pointers documents rest =
      (header ++ lengths.flatMap (signedLittleEndian 4) ++ pointers.flatMap (signedLittleEndian 8)) ++
        (documents.flatMap (signedLittleEndian 8) ++ rest) := by
    simp only [hfirst, append_assoc]
  have hread₁ : frombuffer (indexLayout dtype lengths pointers documents rest) 4 lengths.length
      payloadOffset = .ok (lengths.map (signedLittleEndian 4)) := by
    rw [hfirst]
    exact frombuffer_records (length_signedLittleEndian 4) lengths hheader
  have hread₂ : frombuffer (indexLayout dtype lengths pointers documents rest) 8 lengths.length
      ((payloadOffset + 4 * lengths.length : Nat) : Int) =
        .ok (pointers.map (signedLittleEndian 8)) := by
    rw [hsecond, ← hpointers]
    exact frombuffer_records (length_signedLittleEndian 8) pointers
      (by rw [length_append, hheader, hlengths, hpointers])
  have hread₃ : frombuffer (indexLayout dtype lengths pointers documents rest) 8 documents.length
      ((payloadOffset + 4 * lengths.length + 8 * pointers.length : Nat) : Int) =
        .ok (documents.map (signedLittleEndian 8)) := by
    rw [hthird]
    exact frombuffer_records (length_signedLittleEndian 8) documents
      (by rw [length_append, length_append, hheader, hlengths, hbytes])
  simp only [readArrays, hread₁, bind, Except.bind, length_map, hread₂, hread₃, pure,
    Except.pure, map_map, Function.comp_def, ofSignedLittleEndian_signedLittleEndian]

end HyperParallel.Data
