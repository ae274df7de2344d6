import HyperParallel.Data.IndexedBuilder

/-!
# What the store holds

Each call keeps the builder's lists and its data file equal to the corpus
written so far.  The files of a job then hold its corpus, with a pointer for
each sequence, and a merge reads back a corpus that an earlier job wrote.
-/

namespace HyperParallel.Data

open Foundation Foundation.FixedWidth List

variable {τ : Type} {elements : Elements τ}

namespace Corpus

@[simp] theorem call_dtype (corpora : List (Corpus τ)) (c : Corpus τ) (call : Call τ) :
    (c.call corpora call).dtype = c.dtype := by
  cases call with
  | addItem tensor mode => rfl
  | endDocument => rfl
  | addDocument tensor lengths modes => rfl
  | addIndex path =>
    rw [Corpus.call]
    split <;> rfl

theorem sequences_sublist_call (corpora : List (Corpus τ)) (c : Corpus τ) (call : Call τ) :
    c.sequences.Sublist (c.call corpora call).sequences := by
  cases call with
  | addItem tensor mode => exact sublist_append_left _ _
  | endDocument => exact List.Sublist.refl _
  | addDocument tensor lengths modes => exact sublist_append_left _ _
  | addIndex path =>
    rw [Corpus.call]
    split
    · exact List.Sublist.refl _
    · exact sublist_append_left _ _

theorem Fits.of_sublist {c d : Corpus τ} (h : d.Fits elements) (hdtype : c.dtype = d.dtype)
    (hsub : c.sequences.Sublist d.sequences) : c.Fits elements := by
  have htokens : c.tokens.Sublist d.tokens := hsub.flatten
  refine ⟨fun s hs => h.lengths s (hsub.subset hs), ?_, fun t ht => ?_⟩
  · rw [hdtype]
    exact Nat.lt_of_le_of_lt (Nat.mul_le_mul_left _ htokens.length_le) h.total
  · rw [hdtype]
    exact h.representable t (htokens.subset ht)

theorem Fits.of_call {corpora : List (Corpus τ)} {c : Corpus τ} {call : Call τ}
    (h : (c.call corpora call).Fits elements) : c.Fits elements :=
  h.of_sublist (c.call_dtype corpora call).symm (c.sequences_sublist_call corpora call)

theorem Fits.of_foldl {corpora : List (Corpus τ)} {c : Corpus τ} {calls : List (Call τ)}
    (h : (calls.foldl (Corpus.call corpora) c).Fits elements) : c.Fits elements := by
  induction calls generalizing c with
  | nil => exact h
  | cons call calls ih => exact (ih h).of_call

theorem sum_lengths (c : Corpus τ) : c.lengths.sum = c.tokens.length := (List.length_flatten).symm

theorem length_lengths (c : Corpus τ) : c.lengths.length = c.sequences.length := List.length_map _

end Corpus

structure Represents (elements : Elements τ) (b : Builder) (c : Corpus τ) : Prop where
  dataFile : b.dataFile = c.tokens.flatMap (elements.tobytes c.dtype)
  lengths : b.sequenceLengths.map Scalar.value = c.lengths.map Nat.cast
  boundaries : b.documentIndices = c.boundaries.map Nat.cast
  boundaries_le : ∀ boundary ∈ c.boundaries, boundary ≤ c.sequences.length
  count : c.sequences.length < 2 ^ 63

def IndexOf (dtype : DType) (idx : List UInt8) : Prop :=
  ∃ lengths pointers documents modes, idx = indexLayout dtype lengths pointers documents modes ∧
    pointers.length = lengths.length ∧ lengths.length < 2 ^ 64 ∧ documents.length < 2 ^ 64

structure Stored (elements : Elements τ) (files : DatasetFiles) (c : Corpus τ) : Prop where
  bin : files.bin = c.tokens.flatMap (elements.tobytes c.dtype)
  idx : ∃ pointers modes,
    files.idx = indexLayout c.dtype (c.lengths.map Nat.cast) pointers
      (c.boundaries.map Nat.cast) modes ∧
    pointers.length = c.lengths.length ∧ c.boundaries.length < 2 ^ 64 ∧
    ∀ i < c.lengths.length,
      pointers[i]? = some ((c.dtype.size * (c.lengths.take i).sum : Nat) : Int)
  boundaries_le : ∀ boundary ∈ c.boundaries, boundary ≤ c.sequences.length
  count : c.sequences.length < 2 ^ 63

theorem Builder.extend_ok {α : Type} {xs ys zs : List α} (h : Builder.extend xs ys = .ok zs) :
    zs = xs ++ ys ∧ zs.length < 2 ^ 63 := by
  rw [Builder.extend] at h
  split at h
  · cases h
    exact ⟨rfl, by rwa [length_append]⟩
  · cases h

/-! ## One call -/

section Calls

variable {b b' : Builder} {c : Corpus τ}

theorem Builder.length_sequenceLengths (h : Represents elements b c) :
    b.sequenceLengths.length = c.sequences.length := by
  have hlength := congrArg List.length h.lengths
  rwa [length_map, length_map, c.length_lengths] at hlength

theorem addItem_represents {tensor : List τ} {mode : Int} (hb : Represents elements b c)
    (hdtype : b.dtype = c.dtype) (h : b.addItem elements tensor mode = .ok b') :
    Represents elements b' { c with sequences := c.sequences ++ [tensor] } := by
  rw [Builder.addItem] at h
  obtain ⟨sequenceLengths, hlengths, h⟩ := bind_eq_ok h
  obtain ⟨sequenceModes, -, h⟩ := bind_eq_ok h
  obtain ⟨rfl, hcount⟩ := Builder.extend_ok hlengths
  cases h
  have hsize := Builder.length_sequenceLengths hb
  refine ⟨?_, ?_, hb.boundaries, fun boundary hboundary => ?_, ?_⟩
  · show b.dataFile ++ tensor.flatMap (elements.tobytes b.dtype) = _
    rw [hb.dataFile, hdtype, Corpus.tokens, Corpus.tokens, flatten_append,
      flatMap_append, flatten_singleton]
  · show (b.sequenceLengths ++ [Scalar.int tensor.length]).map Scalar.value = _
    rw [map_append, hb.lengths]
    simp only [Corpus.lengths, map_append]
    rfl
  · have hle := hb.boundaries_le boundary hboundary
    rw [length_append]
    omega
  · rw [length_append] at hcount ⊢
    rw [← hsize]
    exact hcount

theorem endDocument_represents (hb : Represents elements b c) (h : b.endDocument = .ok b') :
    Represents elements b' { c with boundaries := c.boundaries ++ [c.sequences.length] } := by
  rw [Builder.endDocument] at h
  obtain ⟨documentIndices, hindices, h⟩ := bind_eq_ok h
  obtain ⟨rfl, -⟩ := Builder.extend_ok hindices
  cases h
  refine ⟨hb.dataFile, hb.lengths, ?_, fun boundary hboundary => ?_, hb.count⟩
  · show b.documentIndices ++ [(b.sequenceLengths.length : Int)] = _
    rw [hb.boundaries, Builder.length_sequenceLengths hb, map_append]
    rfl
  · rcases mem_append.mp hboundary with hmem | hmem
    · exact hb.boundaries_le boundary hmem
    · rw [mem_singleton.mp hmem]

theorem addDocument_represents {tensor : List τ} {lengths : List Int} {modes : Option (List Int)}
    (hb : Represents elements b c) (hdtype : b.dtype = c.dtype)
    (hdivides : (Call.addDocument tensor lengths modes).Divides)
    (h : b.addDocument elements tensor lengths modes = .ok b') (corpora : List (Corpus τ)) :
    Represents elements b' (c.call corpora (.addDocument tensor lengths modes)) := by
  obtain ⟨sizes, rfl, hsum⟩ := hdivides
  rw [Builder.addDocument] at h
  obtain ⟨sequenceLengths, hlengths, h⟩ := bind_eq_ok h
  obtain ⟨documentIndices, hindices, h⟩ := bind_eq_ok h
  obtain ⟨sequenceModes, -, h⟩ := bind_eq_ok h
  obtain ⟨rfl, hcount⟩ := Builder.extend_ok hlengths
  obtain ⟨rfl, -⟩ := Builder.extend_ok hindices
  cases h
  have hsize := Builder.length_sequenceLengths hb
  have hsizes : (sizes.map (Nat.cast : Nat → Int)).map Int.toNat = sizes := by
    rw [map_map]
    exact map_id sizes
  have hflatten : (sizes.splitLengths tensor).flatten = tensor := flatten_splitLengths _ _ hsum.ge
  have hparts : (sizes.splitLengths tensor).map List.length = sizes :=
    map_splitLengths_length _ _ hsum.le
  simp only [Corpus.call, hsizes]
  refine ⟨?_, ?_, ?_, fun boundary hboundary => ?_, ?_⟩
  · show b.dataFile ++ tensor.flatMap (elements.tobytes b.dtype) = _
    rw [hb.dataFile, hdtype, Corpus.tokens, Corpus.tokens, flatten_append, flatMap_append, hflatten]
  · show (b.sequenceLengths ++ (sizes.map Nat.cast).map Scalar.int).map Scalar.value = _
    rw [map_append, hb.lengths, map_map, map_map]
    simp only [Corpus.lengths, map_append, hparts]
    rfl
  · show b.documentIndices ++
      [((b.sequenceLengths ++ (sizes.map Nat.cast).map Scalar.int).length : Int)] = _
    rw [hb.boundaries, map_append, length_append, length_append, hsize,
      length_map, length_map, length_splitLengths]
    rfl
  · rcases mem_append.mp hboundary with hmem | hmem
    · have hle := hb.boundaries_le boundary hmem
      rw [length_append]
      omega
    · rw [mem_singleton.mp hmem]
  · rw [length_append, length_map, length_map] at hcount
    rw [length_append, length_splitLengths, ← hsize]
    exact hcount

/-! ## Merging -/

theorem openIndex_ok {dtype : DType} {lengths pointers documents : List Int} {modes : List UInt8}
    {multimodal : Bool} {index : IndexReader} {indexModes : Option (List Int)}
    (hpointers : pointers.length = lengths.length) (hlengths : lengths.length < 2 ^ 64)
    (hdocuments : documents.length < 2 ^ 64)
    (h : Tools.openIndex (indexLayout dtype lengths pointers documents modes) multimodal =
      .ok (index, indexModes)) :
    index.dtype = dtype ∧ index.sequenceLengths = lengths.map (fun v => Int.bmod v (256 ^ 4)) ∧
      index.documentIndices = documents.map fun v => Int.bmod v (256 ^ 8) := by
  rw [Tools.openIndex, readHeader_indexLayout Tools.headerMessages (DType.dtypeFromCode_code dtype) hlengths
    hdocuments] at h
  obtain ⟨header, hheader, h⟩ := bind_eq_ok h
  cases hheader
  rw [readArrays_indexLayout hpointers] at h
  obtain ⟨arrays, harrays, h⟩ := bind_eq_ok h
  cases harrays
  obtain ⟨sequenceModes, -, h⟩ := bind_eq_ok h
  obtain ⟨checked, hchecked, h⟩ := bind_eq_ok h
  cases h
  simp only [Tools.checkIndex] at hchecked
  split at hchecked
  · cases hchecked
  · split at hchecked
    · cases hchecked
    · split at hchecked
      · cases hchecked
      · cases hchecked
        exact ⟨rfl, rfl, rfl⟩

theorem map_bmod_add_of_lt {m : Nat} (bound offset : Nat) {xs : List Nat} (hm : 2 * bound ≤ m)
    (h : ∀ x ∈ xs, offset + x < bound) :
    (xs.map (Nat.cast : Nat → Int)).map (fun v => Int.bmod (offset + v) m) =
      (xs.map (offset + ·)).map Nat.cast := by
  rw [map_map, map_map]
  refine map_congr_left fun x hx => ?_
  have hlt := h x hx
  simp only [Function.comp_apply, Nat.cast_add]
  exact bmod_of_bounds (by omega) (by omega)

theorem map_bmod_of_lt {m : Nat} (bound : Nat) {xs : List Nat} (hm : 2 * bound ≤ m)
    (h : ∀ x ∈ xs, x < bound) :
    (xs.map (Nat.cast : Nat → Int)).map (fun v => Int.bmod v m) = xs.map Nat.cast := by
  simpa using map_bmod_add_of_lt bound 0 hm (by simpa using h)

theorem addIndex_represents {files : DatasetFiles} {d : Corpus τ} (hb : Represents elements b c)
    (hdtype : b.dtype = c.dtype) (hindex : IndexOf d.dtype files.idx)
    (hstored : d.Fits elements → Stored elements files d)
    (hfits : (c.append d).Fits elements) (h : b.addIndex files = .ok b') :
    Represents elements b' (c.append d) := by
  rw [Builder.addIndex] at h
  obtain ⟨⟨index, indexModes⟩, hopen, h⟩ := bind_eq_ok h
  have hindexDtype : index.dtype = d.dtype := by
    obtain ⟨lengths, pointers, documents, modes, hidx, hpointers, hlengths, hdocuments⟩ := hindex
    rw [hidx] at hopen
    exact (openIndex_ok hpointers hlengths hdocuments hopen).1
  simp only at h
  split at h
  · cases h
  · rename_i hsame
    have hdc : d.dtype = c.dtype := by rw [← hdtype, ← hindexDtype]; exact not_not.mp hsame
    have hdfits : d.Fits elements := hfits.of_sublist hdc (sublist_append_right _ _)
    obtain ⟨hbin, ⟨pointers, modes, hidx, hpointers, hdocuments, -⟩, hle, hdcount⟩ := hstored hdfits
    have hread := openIndex_ok (by rw [hpointers, length_map])
      (by rw [length_map, d.length_lengths]; omega) (by rwa [length_map])
      (hidx ▸ hopen)
    have hlengths : index.sequenceLengths = d.lengths.map Nat.cast := by
      rw [hread.2.1]
      refine map_bmod_of_lt (2 ^ 31) (by decide) fun x hx => ?_
      obtain ⟨s, hs, rfl⟩ := mem_map.mp hx
      exact hdfits.lengths s hs
    have hindices : index.documentIndices = d.boundaries.map Nat.cast := by
      rw [hread.2.2]
      exact map_bmod_of_lt (2 ^ 63) (by decide) fun x hx =>
        Nat.lt_of_le_of_lt (hle x hx) hdcount
    obtain ⟨sequenceLengths, hextend, h⟩ := bind_eq_ok h
    obtain ⟨documentIndices, hextendIndices, h⟩ := bind_eq_ok h
    obtain ⟨sequenceModes, -, h⟩ := bind_eq_ok h
    obtain ⟨rfl, hcount⟩ := Builder.extend_ok hextend
    obtain ⟨rfl, -⟩ := Builder.extend_ok hextendIndices
    cases h
    have hsize := Builder.length_sequenceLengths hb
    have htotal : c.sequences.length + d.sequences.length < 2 ^ 63 := by
      rw [length_append, hsize, length_map, hlengths, length_map, d.length_lengths] at hcount
      exact hcount
    have hshift : (d.boundaries.tail.map Nat.cast).map
        (fun v => Int.bmod (c.sequences.length + v) (2 ^ 64)) =
          (d.boundaries.tail.map (c.sequences.length + ·)).map Nat.cast := by
      refine map_bmod_add_of_lt (2 ^ 63) _ (by decide) fun boundary hboundary => ?_
      have hbound := hle boundary (mem_of_mem_tail hboundary)
      exact Nat.lt_of_le_of_lt (Nat.add_le_add_left hbound _) htotal
    refine ⟨?_, ?_, ?_, fun boundary hboundary => ?_, ?_⟩
    · show b.dataFile ++ files.bin = _
      rw [hb.dataFile, hbin, hdc, Corpus.append, Corpus.tokens, Corpus.tokens, Corpus.tokens,
        flatten_append, flatMap_append]
    · show (b.sequenceLengths ++ index.sequenceLengths.map Scalar.int32).map Scalar.value = _
      rw [map_append, hb.lengths, map_map, hlengths]
      simp only [Corpus.lengths, Corpus.append, map_append, map_map]
      rfl
    · show b.documentIndices ++ (index.documentIndices.map fun v =>
        Int.bmod (b.sequenceLengths.length + v) (2 ^ 64)).drop 1 = _
      rw [hb.boundaries, hindices, hsize, ← map_drop, ← map_drop, drop_one, hshift]
      exact (map_append ..).symm
    · show boundary ≤ (c.sequences ++ d.sequences).length
      rw [length_append]
      rcases mem_append.mp hboundary with hmem | hmem
      · have := hb.boundaries_le boundary hmem
        omega
      · obtain ⟨inner, hinner, rfl⟩ := mem_map.mp hmem
        have := hle inner (mem_of_mem_tail hinner)
        omega
    · show (c.sequences ++ d.sequences).length < 2 ^ 63
      rwa [length_append]

end Calls

/-! ## A job -/

def Holds (elements : Elements τ) (files : DatasetFiles) (c : Corpus τ) : Prop :=
  IndexOf c.dtype files.idx ∧ (c.Fits elements → Stored elements files c)

section Jobs

variable {store : List DatasetFiles} {corpora : List (Corpus τ)}
  (hstore : List.Forall₂ (Holds elements) store corpora)

theorem call_dtype {b b' : Builder} {call : Call τ} (h : b.call elements store call = .ok b') :
    b'.dtype = b.dtype := by
  cases call with
  | addItem tensor mode =>
    obtain ⟨_, -, h⟩ := bind_eq_ok h
    obtain ⟨_, -, h⟩ := bind_eq_ok h
    cases h
    rfl
  | endDocument =>
    obtain ⟨_, -, h⟩ := bind_eq_ok h
    cases h
    rfl
  | addDocument tensor lengths modes =>
    obtain ⟨_, -, h⟩ := bind_eq_ok h
    obtain ⟨_, -, h⟩ := bind_eq_ok h
    obtain ⟨_, -, h⟩ := bind_eq_ok h
    cases h
    rfl
  | addIndex path =>
    rw [Builder.call] at h
    split at h
    · cases h
    · obtain ⟨⟨index, indexModes⟩, -, h⟩ := bind_eq_ok h
      simp only at h
      split at h
      · cases h
      · obtain ⟨_, -, h⟩ := bind_eq_ok h
        obtain ⟨_, -, h⟩ := bind_eq_ok h
        obtain ⟨_, -, h⟩ := bind_eq_ok h
        cases h
        rfl

include hstore

theorem call_represents {b b' : Builder} {c : Corpus τ} {call : Call τ}
    (hb : Represents elements b c) (hdtype : b.dtype = c.dtype) (hdivides : call.Divides)
    (hfits : (c.call corpora call).Fits elements) (h : b.call elements store call = .ok b') :
    Represents elements b' (c.call corpora call) := by
  cases call with
  | addItem tensor mode => exact addItem_represents hb hdtype h
  | endDocument => exact endDocument_represents hb h
  | addDocument tensor lengths modes => exact addDocument_represents hb hdtype hdivides h corpora
  | addIndex path =>
    rw [Builder.call] at h
    split at h
    · cases h
    · rename_i files hfiles
      obtain ⟨hpath, rfl⟩ := List.getElem?_eq_some_iff.mp hfiles
      have hpath' : path < corpora.length := hstore.length_eq ▸ hpath
      have hholds := hstore.get hpath hpath'
      simp only [Corpus.call, getElem?_eq_getElem hpath'] at hfits ⊢
      exact addIndex_represents hb hdtype hholds.1 hholds.2 hfits h

theorem calls_represent {b b' : Builder} {c : Corpus τ} {calls : List (Call τ)}
    (hb : Represents elements b c) (hdtype : b.dtype = c.dtype)
    (hdivides : ∀ call ∈ calls, call.Divides)
    (hfits : (calls.foldl (Corpus.call corpora) c).Fits elements)
    (h : calls.foldlM (Builder.call elements store) b = .ok b') :
    Represents elements b' (calls.foldl (Corpus.call corpora) c) := by
  induction calls generalizing b c with
  | nil =>
    cases h
    exact hb
  | cons call calls ih =>
    rw [foldlM_cons] at h
    obtain ⟨next, hcall, h⟩ := bind_eq_ok h
    rw [foldl_cons] at hfits ⊢
    have hnext := call_represents hstore hb hdtype (hdivides call mem_cons_self)
      hfits.of_foldl hcall
    exact ih hnext (by rw [call_dtype hcall, hdtype, Corpus.call_dtype])
      (fun other hother => hdivides other (mem_cons_of_mem _ hother)) hfits h

omit hstore in
theorem calls_dtype {b b' : Builder} {calls : List (Call τ)}
    (h : calls.foldlM (Builder.call elements store) b = .ok b') : b'.dtype = b.dtype := by
  induction calls generalizing b with
  | nil =>
    cases h
    rfl
  | cons call calls ih =>
    rw [foldlM_cons] at h
    obtain ⟨next, hcall, h⟩ := bind_eq_ok h
    rw [ih h, call_dtype hcall]

omit hstore in
theorem corpus_dtype (job : Job τ) (corpora : List (Corpus τ)) :
    (job.corpus corpora).dtype = job.dtype :=
  foldl_invariant (fun _ (c : Corpus τ) => c.dtype = job.dtype) rfl fun _ c call _ hc => by
    rw [Corpus.call_dtype, hc]

omit hstore in
theorem init_represents (dtype : DType) (multimodal : Bool) :
    Represents elements (Builder.init dtype multimodal) (⟨dtype, [], [0]⟩ : Corpus τ) :=
  ⟨rfl, rfl, rfl, by simp, by simp⟩

theorem run_holds {job : Job τ} {files : DatasetFiles}
    (hdivides : ∀ call ∈ job.calls, call.Divides) (h : job.run elements store = .ok files) :
    Holds elements files (job.corpus corpora) := by
  obtain ⟨b, hcalls, h⟩ := bind_eq_ok h
  obtain ⟨idx, hidx, h⟩ := bind_eq_ok h
  cases h
  have hdtype : b.dtype = (job.corpus corpora).dtype := by
    rw [calls_dtype hcalls, corpus_dtype]
    rfl
  obtain ⟨hsequences, hdocuments, modes, hlayout⟩ := writeIndex_ok hidx
  have hpointers : ((sequencePointers b.dtype b.sequenceLengths).map Scalar.value).length =
      (b.sequenceLengths.map Scalar.value).length := by
    rw [length_map, length_map, sequencePointers, length_sequencePointersFrom]
  refine ⟨⟨_, _, _, modes, hdtype ▸ hlayout, hpointers, by rwa [length_map], hdocuments⟩,
    fun hfits => ?_⟩
  have hrepresents := calls_represent hstore (init_represents job.dtype job.multimodal) rfl
    hdivides hfits hcalls
  change Represents elements b (job.corpus corpora) at hrepresents
  have hend : (job.corpus corpora).dtype.size * (0 + (job.corpus corpora).lengths.sum) < 2 ^ 63 := by
    rw [Nat.zero_add, Corpus.sum_lengths]
    exact hfits.total
  refine ⟨hrepresents.dataFile, ⟨(sequencePointers b.dtype b.sequenceLengths).map Scalar.value,
    modes, ?_, ?_, ?_, fun i hi => ?_⟩,
    hrepresents.boundaries_le, hrepresents.count⟩
  · rw [← hrepresents.lengths, ← hrepresents.boundaries, ← hdtype]
    exact hlayout
  · rw [hpointers, hrepresents.lengths, length_map]
  · rwa [hrepresents.boundaries, length_map] at hdocuments
  · have hpointer := sequencePointersFrom_value (.int 0) 0 trivial
      (by simp [Scalar.value]) hrepresents.lengths hend hi
    rw [Nat.zero_add, ← hdtype] at hpointer
    rw [← hdtype]
    exact hpointer

end Jobs

theorem corporaOf_append (jobs : List (Job τ)) (job : Job τ) :
    corporaOf (jobs ++ [job]) = corporaOf jobs ++ [job.corpus (corporaOf jobs)] := by
  rw [corporaOf, foldl_append]
  rfl

theorem runJobs_holds {jobs : List (Job τ)} {store : List DatasetFiles}
    (hdivides : ∀ job ∈ jobs, ∀ call ∈ job.calls, call.Divides)
    (h : runJobs elements jobs = .ok store) :
    Forall₂ (Holds elements) store (corporaOf jobs) := by
  refine foldlM_invariant (fun seen store => (∀ job ∈ seen, ∀ call ∈ job.calls, call.Divides) →
    Forall₂ (Holds elements) store (corporaOf seen)) ?_ (fun _ => .nil) h hdivides
  intro seen store job store' ih hstep hdivides
  obtain ⟨files, hrun, rfl⟩ := map_eq_ok hstep
  have hstore := ih fun other hother => hdivides other (mem_append_left _ hother)
  rw [corporaOf_append]
  exact rel_append hstore (.cons (run_holds hstore (hdivides job (by simp)) hrun) .nil)

end HyperParallel.Data
