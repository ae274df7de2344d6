import HyperParallel.Data.IndexedStore

/-!
# Reading indexed datasets

The data reader takes a sequence, or a range of its tokens, from the payload,
mapped or by reading the file.  Every dataset of a run of
jobs reads back as the corpus that was written, provided its last document was
ended: the reader refuses an index whose boundaries stop short.
-/

namespace HyperParallel.Data

open Foundation Foundation.FixedWidth List

variable {τ : Type} {elements : Elements τ}

def headerMessages : HeaderMessages where
  header := "Invalid indexed Dataset header"
  version := "Unsupported indexed Dataset version"
  dtypes := indexDtypeCodes
  dtype := "KeyError"

def checkBoundaries (header : Header) (arrays : IndexArrays) : Except String IndexReader :=
  if arrays.documentIndices.getLast? = some (header.sequenceCount : Int) then
    .ok ⟨header.dtype, header.sequenceCount, arrays.sequenceLengths, arrays.sequencePointers,
      arrays.documentIndices⟩
  else .error "Indexed Dataset document boundaries do not match its sequence count"

namespace IndexReader

/-- `_IndexReader.__init__` -/
def init (idx : List UInt8) : Except String IndexReader := do
  let header ← readHeader headerMessages idx
  let arrays ← readArrays idx header
  checkBoundaries header arrays

/-- `_IndexReader.__getitem__`: the byte pointer and the token length of one sequence. -/
def getitem (index : IndexReader) (i : Int) : Except String (Int × Int) :=
  match pyGet? index.sequencePointers i, pyGet? index.sequenceLengths i with
  | some pointer, some length => .ok (pointer, length)
  | _, _ => .error "index is out of bounds"

end IndexReader

/-- `IndexedDataReader`; the buffer is the mapped payload, `bin` the file itself. -/
structure IndexedDataReader where
  index : IndexReader
  binBuffer : Option (List UInt8)
  bin : List UInt8

namespace IndexedDataReader

def loadIndex (idx : List UInt8) (reuseIndex : Bool) (cachedIndexReader : Option IndexReader) :
    Except String (IndexReader × Option IndexReader) :=
  match reuseIndex, cachedIndexReader with
  | true, some index => .ok (index, some index)
  | true, none => (IndexReader.init idx).map fun index => (index, some index)
  | false, cached => (IndexReader.init idx).map fun index => (index, cached)

/-- `__init__` -/
def init (files : DatasetFiles) (mmap reuseIndex : Bool)
    (cachedIndexReader : Option IndexReader) :
    Except String (IndexedDataReader × Option IndexReader) := do
  let (index, cachedIndexReader) ← loadIndex files.idx reuseIndex cachedIndexReader
  if mmap then
    if files.bin = [] then .error "cannot mmap an empty file"
    else .ok (⟨index, some files.bin, files.bin⟩, cachedIndexReader)
  else .ok (⟨index, none, files.bin⟩, cachedIndexReader)

/-- `numpy.frombuffer` with the elements of the index's dtype. -/
def elementsAt (elements : Elements τ) (dtype : DType) (buffer : List UInt8) (count offset : Int) :
    Except String (List τ) :=
  (frombuffer buffer dtype.size count offset).map fun items =>
    items.map (elements.frombytes dtype)

/-- The unbuffered read of `get`, which hands over at most `readMax` bytes at once. -/
def readFile (elements : Elements τ) (dtype : DType) (readMax : Nat) (bin : List UInt8)
    (readLength : Nat) (byteOffset : Int) : Except String (List τ) :=
  if byteOffset < 0 then .error "negative seek value"
  else
    let bytes := ((bin.drop byteOffset.toNat).take (dtype.size * readLength)).take readMax
    if bytes.length ≠ readLength * dtype.size then
      .error "Indexed Dataset read returned too few bytes"
    else .ok ((records dtype.size readLength bytes).map (elements.frombytes dtype))

def get (elements : Elements τ) (readMax : Nat) (reader : IndexedDataReader) (index offset : Int)
    (length : Option Int) : Except String (List τ) := do
  let (sequencePointer, sequenceLength) ← reader.index.getitem index
  let readLength := length.getD (sequenceLength - offset)
  if offset < 0 ∨ readLength < 0 ∨ sequenceLength < offset + readLength then
    .error "Token range exceeds sequence length"
  else
    let dtype := reader.index.dtype
    let byteOffset := sequencePointer + offset * dtype.size
    let binBuffer := reader.binBuffer.getD []
    if binBuffer ≠ [] then elementsAt elements dtype binBuffer readLength byteOffset
    else readFile elements dtype readMax reader.bin readLength.toNat byteOffset

/-- `__getitem__` at an integer: from the mapped payload, else through `get`. -/
def getitem (elements : Elements τ) (readMax : Nat) (reader : IndexedDataReader) (index : Int) :
    Except String (List τ) :=
  match reader.binBuffer with
  | some binBuffer => do
      let (sequencePointer, sequenceLength) ← reader.index.getitem index
      elementsAt elements reader.index.dtype binBuffer sequenceLength sequencePointer
  | none => reader.get elements readMax index 0 none

end IndexedDataReader

/-! ## The bytes of a range -/

section Stored

variable {files : DatasetFiles} {c : Corpus τ}

theorem Corpus.tokens_range {c : Corpus τ} {i : Nat} {s : List τ} (hs : c.sequences[i]? = some s)
    {offset length : Nat} (hrange : offset + length ≤ s.length) :
    (c.lengths.take i).sum + offset + length ≤ c.tokens.length ∧
      (c.tokens.drop ((c.lengths.take i).sum + offset)).take length =
        (s.drop offset).take length := by
  obtain ⟨hi, rfl⟩ := List.getElem?_eq_some_iff.mp hs
  have hdrop : c.tokens.drop (c.lengths.take i).sum =
      c.sequences[i] ++ (c.sequences.drop (i + 1)).flatten := by
    rw [Corpus.tokens, Corpus.lengths, drop_sum_flatten, drop_eq_getElem_cons hi, flatten_cons]
  have hlength := congrArg List.length hdrop
  rw [length_drop, length_append] at hlength
  have hsum := sum_take_add_sum_drop c.lengths i
  rw [c.sum_lengths] at hsum
  constructor
  · omega
  · rw [← drop_drop, hdrop, drop_append_of_le_length (by omega),
      take_append_of_le_length (by rw [length_drop]; omega)]

theorem map_frombytes_tobytes {dtype : DType} {tokens : List τ}
    (h : ∀ t ∈ tokens, elements.Representable dtype t) :
    (tokens.map (elements.tobytes dtype)).map (elements.frombytes dtype) = tokens := by
  rw [map_map]
  conv_rhs => rw [← map_id tokens]
  exact map_congr_left fun t ht => Elements.frombytes_tobytes (h t ht)

theorem Stored.records_range (h : Stored elements files c) (hfits : c.Fits elements) {i : Nat}
    {s : List τ} (hs : c.sequences[i]? = some s) {offset length : Nat}
    (hrange : offset + length ≤ s.length) :
    c.dtype.size * ((c.lengths.take i).sum + offset) + length * c.dtype.size ≤ files.bin.length ∧
      (records c.dtype.size length
        (files.bin.drop (c.dtype.size * ((c.lengths.take i).sum + offset)))).map
          (elements.frombytes c.dtype) = (s.drop offset).take length := by
  obtain ⟨hle, htokens⟩ := Corpus.tokens_range hs hrange
  have hsize := length_flatMap (elements.length_tobytes c.dtype) c.tokens
  rw [h.bin, hsize]
  constructor
  · rw [Nat.mul_comm length, ← Nat.mul_add]
    exact Nat.mul_le_mul_left _ hle
  · rw [records_drop_flatMap (elements.length_tobytes c.dtype) hle, htokens]
    refine map_frombytes_tobytes fun t ht => hfits.representable t ?_
    rw [← htokens] at ht
    exact mem_of_mem_drop (mem_of_mem_take ht)

structure Locates (index : IndexReader) (c : Corpus τ) : Prop where
  dtype : index.dtype = c.dtype
  sequenceCount : index.sequenceCount = c.sequences.length
  sequenceLengths : index.sequenceLengths = c.lengths.map Nat.cast
  sequencePointers : ∀ i < c.lengths.length,
    index.sequencePointers[i]? = some ((c.dtype.size * (c.lengths.take i).sum : Nat) : Int)
  documentIndices : index.documentIndices = c.boundaries.map Nat.cast

theorem Stored.init_locates (h : Stored elements files c) (hfits : c.Fits elements)
    (hclosed : c.boundaries.getLast? = some c.sequences.length) :
    ∃ index, IndexReader.init files.idx = .ok index ∧ Locates index c := by
  obtain ⟨-, ⟨pointers, modes, hidx, hpointers, hdocuments, hvalues⟩, hle, hcount⟩ := h
  have hlengths : (c.lengths.map (Nat.cast : Nat → Int)).map (fun v => Int.bmod v (256 ^ 4)) =
      c.lengths.map Nat.cast := by
    refine map_bmod_of_lt (2 ^ 31) (by decide) fun x hx => ?_
    obtain ⟨s, hs, rfl⟩ := mem_map.mp hx
    exact hfits.lengths s hs
  have hindices : (c.boundaries.map (Nat.cast : Nat → Int)).map (fun v => Int.bmod v (256 ^ 8)) =
      c.boundaries.map Nat.cast :=
    map_bmod_of_lt (2 ^ 63) (by decide) fun x hx => Nat.lt_of_le_of_lt (hle x hx) hcount
  have hheader : readHeader headerMessages files.idx =
      .ok ⟨c.dtype, c.sequences.length, c.boundaries.length⟩ := by
    have hread := @readHeader_indexLayout headerMessages c.dtype (c.lengths.map Nat.cast) pointers
      (c.boundaries.map Nat.cast) (indexDtypeCodes_code c.dtype)
      (by rw [length_map, c.length_lengths]; omega) (by rwa [length_map]) modes
    rwa [← hidx, length_map, length_map, c.length_lengths] at hread
  have harrays : readArrays files.idx ⟨c.dtype, c.sequences.length, c.boundaries.length⟩ =
      .ok ⟨c.lengths.map Nat.cast, pointers.map fun v => Int.bmod v (256 ^ 8),
        c.boundaries.map Nat.cast⟩ := by
    have hread := @readArrays_indexLayout c.dtype (c.lengths.map Nat.cast) pointers
      (c.boundaries.map Nat.cast) (by rw [hpointers, length_map]) modes
    rwa [← hidx, hlengths, hindices, length_map, length_map, c.length_lengths] at hread
  refine ⟨⟨c.dtype, c.sequences.length, c.lengths.map Nat.cast,
    pointers.map fun v => Int.bmod v (256 ^ 8), c.boundaries.map Nat.cast⟩, ?_, rfl, rfl, rfl,
    fun i hi => ?_, rfl⟩
  · rw [IndexReader.init, hheader]
    show (readArrays _ _ >>= _) = _
    rw [harrays]
    show checkBoundaries _ _ = _
    rw [checkBoundaries, if_pos (by rw [getLast?_map, hclosed]; rfl)]
  · have hsum := sum_take_add_sum_drop c.lengths i
    rw [c.sum_lengths] at hsum
    have hpointer : c.dtype.size * (c.lengths.take i).sum < 2 ^ 63 :=
      Nat.lt_of_le_of_lt (Nat.mul_le_mul_left _ (by omega)) hfits.total
    show (pointers.map fun v => Int.bmod v (256 ^ 8))[i]? = _
    rw [getElem?_map, hvalues i hi, Option.map_some]
    exact congrArg some (bmod_of_bounds (by omega) (by omega))

theorem Locates.getitem {index : IndexReader} (h : Locates index c) {i : Nat} {s : List τ}
    (hs : c.sequences[i]? = some s) :
    index.getitem i =
      .ok (((c.dtype.size * (c.lengths.take i).sum : Nat) : Int), (s.length : Int)) := by
  have hlength : c.lengths[i]? = some s.length := by
    rw [Corpus.lengths, getElem?_map, hs]
    rfl
  obtain ⟨hi, -⟩ := List.getElem?_eq_some_iff.mp hlength
  rw [IndexReader.getitem, pyGet?_natCast, pyGet?_natCast, h.sequencePointers i hi,
    h.sequenceLengths, getElem?_map, hlength]
  rfl

theorem Stored.elementsAt (h : Stored elements files c) (hfits : c.Fits elements) {i : Nat}
    {s : List τ} (hs : c.sequences[i]? = some s) {offset length : Nat}
    (hrange : offset + length ≤ s.length) :
    IndexedDataReader.elementsAt elements c.dtype files.bin length
      ((c.dtype.size * ((c.lengths.take i).sum + offset) : Nat) : Int) =
        .ok ((s.drop offset).take length) := by
  obtain ⟨hle, hrecords⟩ := h.records_range hfits hs hrange
  rw [IndexedDataReader.elementsAt, frombuffer_natCast hle, Except.map, hrecords]

theorem Stored.readFile (h : Stored elements files c) (hfits : c.Fits elements) {i : Nat}
    {s : List τ} (hs : c.sequences[i]? = some s) {offset length readMax : Nat}
    (hrange : offset + length ≤ s.length) (hread : c.dtype.size * length ≤ readMax) :
    IndexedDataReader.readFile elements c.dtype readMax files.bin length
      ((c.dtype.size * ((c.lengths.take i).sum + offset) : Nat) : Int) =
        .ok ((s.drop offset).take length) := by
  obtain ⟨hle, hrecords⟩ := h.records_range hfits hs hrange
  have hcomm := Nat.mul_comm length c.dtype.size
  rw [IndexedDataReader.readFile, if_neg (by omega)]
  simp only [Int.toNat_natCast]
  rw [take_of_length_le (i := readMax) (by rw [length_take]; omega),
    if_neg (by rw [length_take, length_drop]; omega), records_take, hrecords]

end Stored

/-! ## Reading back -/

/-- The reader opens the files and hands back the corpus: every sequence, every range of its
tokens, the rest of a sequence from any offset, and the boundaries. -/
def ReadsBack (elements : Elements τ) (readMax : Nat) (files : DatasetFiles)
    (mmap reuseIndex : Bool) (cachedIndexReader : Option IndexReader) (c : Corpus τ) : Prop :=
  ∃ reader cached,
    IndexedDataReader.init files mmap reuseIndex cachedIndexReader = .ok (reader, cached) ∧
    (∀ (i : Nat) s, c.sequences[i]? = some s → reader.getitem elements readMax i = .ok s) ∧
    (∀ (i : Nat) s, c.sequences[i]? = some s → ∀ offset length : Nat,
      offset + length ≤ s.length →
        reader.get elements readMax i offset (some length) = .ok ((s.drop offset).take length)) ∧
    (∀ (i : Nat) s, c.sequences[i]? = some s → ∀ offset : Nat, offset ≤ s.length →
      reader.get elements readMax i offset none = .ok (s.drop offset)) ∧
    reader.index.documentIndices = c.boundaries.map Nat.cast

structure Opened (elements : Elements τ) (readMax : Nat) (files : DatasetFiles)
    (reader : IndexedDataReader) (c : Corpus τ) : Prop where
  locates : Locates reader.index c
  bin : reader.bin = files.bin
  binBuffer : (reader.binBuffer = some files.bin ∧ files.bin ≠ []) ∨
    (reader.binBuffer = none ∧ ∀ s ∈ c.sequences, c.dtype.size * s.length ≤ readMax)

section Opened

variable {files : DatasetFiles} {c : Corpus τ} {reader : IndexedDataReader} {readMax : Nat}

section

variable {i : Nat} {s : List τ} (hopened : Opened elements readMax files reader c)
  (hstored : Stored elements files c) (hfits : c.Fits elements) (hs : c.sequences[i]? = some s)

include hopened hstored hfits hs

theorem Opened.get {offset length : Nat} (hrange : offset + length ≤ s.length) (asked : Option Int)
    (hasked : asked.getD ((s.length : Int) - offset) = length) :
    reader.get elements readMax i offset asked = .ok ((s.drop offset).take length) := by
  rw [IndexedDataReader.get, hopened.locates.getitem hs]
  show (if (offset : Int) < 0 ∨ asked.getD ((s.length : Int) - offset) < 0 ∨
    (s.length : Int) < offset + asked.getD ((s.length : Int) - offset) then _ else _) = _
  have hbyte : ((c.dtype.size * (c.lengths.take i).sum : Nat) : Int) +
      (offset : Int) * (c.dtype.size : Int) =
        ((c.dtype.size * ((c.lengths.take i).sum + offset) : Nat) : Int) := by
    rw [Nat.mul_add, Nat.cast_add, Int.mul_comm, ← Nat.cast_mul]
  rw [hasked, if_neg (by omega), hopened.locates.dtype, hbyte, hopened.bin]
  rcases hopened.binBuffer with ⟨hbuffer, hne⟩ | ⟨hbuffer, hread⟩
  · rw [hbuffer, Option.getD_some, if_pos hne]
    exact hstored.elementsAt hfits hs hrange
  · rw [hbuffer, Option.getD_none, if_neg (by simp), Int.toNat_natCast]
    have hmax := hread s (mem_of_getElem? hs)
    have hle : c.dtype.size * length ≤ c.dtype.size * s.length := Nat.mul_le_mul_left _ (by omega)
    exact hstored.readFile hfits hs hrange (by omega)

theorem Opened.getitem : reader.getitem elements readMax i = .ok s := by
  have hrange : 0 + s.length ≤ s.length := by omega
  have hall : (s.drop 0).take s.length = s := by rw [drop_zero, take_length]
  rcases hopened.binBuffer with ⟨hbuffer, -⟩ | ⟨hbuffer, -⟩
  · rw [IndexedDataReader.getitem, hbuffer]
    simp only
    rw [hopened.locates.getitem hs]
    show IndexedDataReader.elementsAt elements reader.index.dtype files.bin s.length _ = _
    rw [hopened.locates.dtype]
    have hread := hstored.elementsAt hfits hs hrange
    rwa [Nat.add_zero, hall] at hread
  · rw [IndexedDataReader.getitem, hbuffer]
    have hread := hopened.get hstored hfits hs hrange none (by simp)
    rwa [hall] at hread

end

end Opened

theorem init_opened (elements : Elements τ) {files : DatasetFiles} {c : Corpus τ}
    {readMax : Nat} {mmap reuseIndex : Bool}
    {cachedIndexReader : Option IndexReader} {index : IndexReader}
    (hindex : IndexReader.init files.idx = .ok index) (hlocates : Locates index c)
    (hcached : reuseIndex = true → ∀ cached, cachedIndexReader = some cached →
      IndexReader.init files.idx = .ok cached)
    (hmmap : mmap = true → files.bin ≠ [])
    (hread : mmap = false → ∀ s ∈ c.sequences, c.dtype.size * s.length ≤ readMax) :
    ∃ reader cached,
      IndexedDataReader.init files mmap reuseIndex cachedIndexReader = .ok (reader, cached) ∧
        Opened elements readMax files reader c := by
  have hload : ∃ cached, IndexedDataReader.loadIndex files.idx reuseIndex cachedIndexReader =
      .ok (index, cached) := by
    cases reuseIndex with
    | false => exact ⟨cachedIndexReader, by rw [IndexedDataReader.loadIndex, hindex]; rfl⟩
    | true =>
      cases cachedIndexReader with
      | none => exact ⟨some index, by rw [IndexedDataReader.loadIndex, hindex]; rfl⟩
      | some cached =>
        obtain rfl : cached = index := Except.ok.inj ((hcached rfl cached rfl).symm.trans hindex)
        exact ⟨some cached, rfl⟩
  obtain ⟨cached, hload⟩ := hload
  cases mmap with
  | false =>
    refine ⟨⟨index, none, files.bin⟩, cached, ?_, hlocates, rfl, .inr ⟨rfl, hread rfl⟩⟩
    rw [IndexedDataReader.init, hload]
    rfl
  | true =>
    refine ⟨⟨index, some files.bin, files.bin⟩, cached, ?_, hlocates, rfl, .inl ⟨rfl, hmmap rfl⟩⟩
    rw [IndexedDataReader.init, hload]
    show (if files.bin = [] then Except.error "cannot mmap an empty file"
      else Except.ok ((⟨index, some files.bin, files.bin⟩ : IndexedDataReader), cached)) = _
    rw [if_neg (hmmap rfl)]

/-- For every run of jobs, merges of merged datasets included: a dataset whose corpus fits and
whose last document was ended reads back, mapped when it holds a token, and otherwise when the
system reads a sequence at once. -/
theorem indexedReadsBack {jobs : List (Job τ)} {store : List DatasetFiles}
    (hdivides : ∀ job ∈ jobs, ∀ call ∈ job.calls, call.Divides)
    (h : runJobs elements jobs = .ok store) {k : Nat} {files : DatasetFiles} {c : Corpus τ}
    (hfiles : store[k]? = some files) (hc : (corporaOf jobs)[k]? = some c)
    (hfits : c.Fits elements) (hclosed : c.boundaries.getLast? = some c.sequences.length)
    {readMax : Nat} {mmap reuseIndex : Bool} {cachedIndexReader : Option IndexReader}
    (hcached : reuseIndex = true → ∀ cached, cachedIndexReader = some cached →
      IndexReader.init files.idx = .ok cached)
    (hmmap : mmap = true → c.tokens ≠ [])
    (hread : mmap = false → ∀ s ∈ c.sequences, c.dtype.size * s.length ≤ readMax) :
    ReadsBack elements readMax files mmap reuseIndex cachedIndexReader c := by
  obtain ⟨hk, rfl⟩ := List.getElem?_eq_some_iff.mp hfiles
  obtain ⟨hk', rfl⟩ := List.getElem?_eq_some_iff.mp hc
  have hstored : Stored elements store[k] (corporaOf jobs)[k] :=
    ((runJobs_holds hdivides h).get hk hk').2 hfits
  obtain ⟨index, hindex, hlocates⟩ := hstored.init_locates hfits hclosed
  have hbin : mmap = true → store[k].bin ≠ [] := by
    intro hmap hnil
    have hsize := length_flatMap (elements.length_tobytes (corporaOf jobs)[k].dtype)
      (corporaOf jobs)[k].tokens
    rw [← hstored.bin, hnil] at hsize
    rcases Nat.mul_eq_zero.mp hsize.symm with hzero | hzero
    · exact absurd hzero (DType.size_pos _).ne'
    · exact hmmap hmap (length_eq_zero_iff.mp hzero)
  obtain ⟨reader, cached, hinit, hopened⟩ :=
    init_opened elements hindex hlocates hcached hbin hread
  refine ⟨reader, cached, hinit, fun i s hs => hopened.getitem hstored hfits hs,
    fun i s hs offset length hrange => hopened.get hstored hfits hs hrange (some (length : Int)) rfl,
    fun i s hs offset hoffset => ?_, hopened.locates.documentIndices⟩
  have hrange : offset + (s.length - offset) ≤ s.length := by omega
  have hrest := hopened.get hstored hfits hs hrange none (by simp only [Option.getD_none]; omega)
  rwa [take_of_length_le (by rw [length_drop])] at hrest

def integerElements : Elements Int where
  bits dtype t := (t % (256 ^ dtype.size : Nat)).toNat
  value dtype word :=
    match dtype with
    | .uint8 | .uint16 => word
    | _ => Int.bmod word (256 ^ dtype.size)
  bits_lt dtype t := by
    have hpos : (0 : Int) < (256 ^ dtype.size : Nat) := by positivity
    have hnonneg := Int.emod_nonneg t hpos.ne'
    have hlt := Int.emod_lt_of_pos t hpos
    omega

def mergingJobs : List (Job Int) :=
  [⟨.int32, false, [.addItem [5, 6, 7] 0, .addItem [-8] 0, .endDocument]⟩,
    ⟨.int32, false, [.addDocument [1, 2, 3] [2, 1] none]⟩,
    ⟨.int32, false, [.addIndex 1, .addItem [9] 0, .endDocument, .addIndex 0]⟩]

theorem indexedReadsBack_mergingJobs :
    ∃ store files c, runJobs integerElements mergingJobs = .ok store ∧ store[2]? = some files ∧
      (corporaOf mergingJobs)[2]? = some c ∧
      c.sequences = [[1, 2], [3], [9], [5, 6, 7], [-8]] ∧ c.boundaries = [0, 2, 3, 5] ∧
      ReadsBack integerElements 2147479552 files true false none c := by
  have hdivides : ∀ job ∈ mergingJobs, ∀ call ∈ job.calls, call.Divides := by
    simp only [mergingJobs, forall_mem_cons, Call.Divides, not_mem_nil, false_implies,
      implies_true, and_true, true_and]
    exact ⟨[2, 1], rfl, rfl⟩
  have hok : (runJobs integerElements mergingJobs).isOk = true := by decide +kernel
  cases hrun : runJobs integerElements mergingJobs with
  | error message =>
    rw [hrun] at hok
    cases hok
  | ok store =>
    have hlength : store.length = 3 := (runJobs_holds hdivides hrun).length_eq
    refine ⟨store, store[2], ⟨.int32, [[1, 2], [3], [9], [5, 6, 7], [-8]], [0, 2, 3, 5]⟩, rfl,
      getElem?_eq_getElem _, rfl, rfl, rfl, ?_⟩
    refine indexedReadsBack hdivides hrun (k := 2) (getElem?_eq_getElem _) rfl ?_ rfl
      (by simp) (by decide) (by simp)
    exact ⟨by decide, by decide, by decide⟩

def RoundTrips (elements : Elements τ) (readMax : Nat) (mmap : Bool) (jobs : List (Job τ)) : Prop :=
  ∀ store, runJobs elements jobs = .ok store → ∀ (k : Nat) files c, store[k]? = some files →
    (corporaOf jobs)[k]? = some c → ReadsBack elements readMax files mmap false none c

/-- No `end_document` after the last item; no token to map; a token the array type wraps. -/
theorem roundTrips_fails :
    ¬ RoundTrips integerElements 2147479552 true [⟨.int32, false, [.addItem [1, 2] 0]⟩] ∧
      ¬ RoundTrips integerElements 2147479552 true [⟨.int32, false, [.endDocument]⟩] ∧
      ¬ RoundTrips integerElements 2147479552 true
        [⟨.uint16, false, [.addDocument [70000] [1] none]⟩] := by
  refine ⟨fun h => ?_, fun h => ?_, fun h => ?_⟩
  · obtain ⟨reader, cached, hinit, -⟩ := h _ rfl 0 _ _ rfl rfl
    cases hinit
  · obtain ⟨reader, cached, hinit, -⟩ := h _ rfl 0 _ _ rfl rfl
    cases hinit
  · obtain ⟨reader, cached, hinit, hget, -⟩ := h _ rfl 0 _ _ rfl rfl
    have htoken := hget 0 [70000] rfl
    cases hinit
    exact absurd htoken (by decide)

end HyperParallel.Data
