import HyperParallel.Foundation.PySequence
import Mathlib.Algebra.BigOperators.Group.List.Basic
import Mathlib.Algebra.Ring.Nat

/-!
# Candidate buffers

Samples wait in a buffer until a micro-batch takes them.  The token-budget
buffer passes over its samples and takes what fits; the packing buffer asks a
selector for indices, validates them, and takes those.  With the first-fit
selector both take the same samples.
-/

namespace HyperParallel.Data

open Foundation List

/-- The forms of `input_ids` a cost can be read from. -/
inductive InputIds where
  | tensor (lastDim : Nat)
  | sequence (length : Nat) (firstLength : Option Nat)
  | other
  deriving DecidableEq, Repr

structure ModelSample (α : Type) where
  packingLength : Option Int
  inputIds : Option InputIds
  content : α
  deriving DecidableEq, Repr

inductive BufferKind where
  | tokenBudget
  | packing
  deriving DecidableEq, Repr

structure BufferOptions where
  kind : BufferKind
  tokenBudget : Nat
  minBufferedSamples : Nat
  tokenBudget_pos : 0 < tokenBudget
  minBufferedSamples_pos : 0 < minBufferedSamples

/-- `_get_input_length` -/
def getInputLength {α : Type} (sample : ModelSample α) : Except String Int :=
  match sample.inputIds with
  | none => .error "Packing samples must provide packing_length or input_ids"
  | some (.tensor lastDim) => .ok lastDim
  | some (.sequence _ (some firstLength)) => .ok firstLength
  | some (.sequence length none) => .ok length
  | some .other => .error "Packing input_ids must be a tensor or sequence"

def getPackingLength {α : Type} (sample : ModelSample α) : Except String Int :=
  match sample.packingLength with
  | some packingLength => .ok packingLength
  | none => getInputLength sample

def sampleCost {α : Type} (kind : BufferKind) (sample : ModelSample α) : Except String Nat :=
  match kind with
  | .tokenBudget =>
    match sample.inputIds with
    | some (.tensor lastDim) =>
      if lastDim = 0 then .error "Dynamic batching samples must contain at least one token"
      else .ok lastDim
    | some _ => .error "input_ids has no shape"
    | none => .error "input_ids"
  | .packing => do
      let cost ← getPackingLength sample
      if cost ≤ 0 then .error "Packing sample cost must be positive" else .ok cost.toNat

theorem sampleCost_pos {α : Type} {kind : BufferKind} {sample : ModelSample α} {cost : Nat}
    (h : sampleCost kind sample = .ok cost) : 0 < cost := by
  cases kind with
  | tokenBudget =>
    simp only [sampleCost] at h
    split at h
    · split at h
      · cases h
      · cases h
        omega
    · cases h
    · cases h
  | packing =>
    simp only [sampleCost] at h
    obtain ⟨length, -, h⟩ := bind_eq_ok h
    split at h
    · cases h
    · cases h
      omega

structure CandidateBuffer (α ι : Type) where
  buffer : List (ModelSample α × Nat)
  bufferOutputIndices : List (Option ι)
  bufferTokenCount : Int

namespace CandidateBuffer

variable {α ι : Type}

def empty : CandidateBuffer α ι :=
  { buffer := [], bufferOutputIndices := [], bufferTokenCount := 0 }

/-- `put_item` -/
def putItem (options : BufferOptions) (buf : CandidateBuffer α ι) (modelSample : ModelSample α)
    (outputIndexEntry : Option ι) : Except String (CandidateBuffer α ι) :=
  (sampleCost options.kind modelSample).map fun cost : Nat =>
    { buffer := buf.buffer ++ [(modelSample, cost)]
      bufferOutputIndices := buf.bufferOutputIndices ++ [outputIndexEntry]
      bufferTokenCount := buf.bufferTokenCount + cost }

/-- `is_ready_for_micro_batch` -/
def isReady (options : BufferOptions) (buf : CandidateBuffer α ι) : Bool :=
  decide (options.minBufferedSamples ≤ buf.buffer.length) &&
    decide ((options.tokenBudget : Int) ≤ buf.bufferTokenCount)

/-! ## The token-budget buffer -/

structure TokenSelection (α ι : Type) where
  selectedSamples : List (ModelSample α)
  selectedTokenCount : Nat
  remainingBuffer : List (ModelSample α × Nat)
  remainingOutputIndices : List (Option ι)

/-- The loop of `TokenBudgetCandidateBuffer.get_micro_batch`. -/
def selectFitting (tokenBudget : Nat) :
    Nat → List ((ModelSample α × Nat) × Option ι) → TokenSelection α ι
  | selectedTokenCount, [] => ⟨[], selectedTokenCount, [], []⟩
  | selectedTokenCount, ((modelSample, sampleLength), outputIndexEntry) :: rest =>
    if selectedTokenCount = 0 ∨ selectedTokenCount + sampleLength ≤ tokenBudget then
      let later := selectFitting tokenBudget (selectedTokenCount + sampleLength) rest
      { later with selectedSamples := modelSample :: later.selectedSamples }
    else
      let later := selectFitting tokenBudget selectedTokenCount rest
      { later with
        remainingBuffer := (modelSample, sampleLength) :: later.remainingBuffer
        remainingOutputIndices := outputIndexEntry :: later.remainingOutputIndices }

def getTokenMicroBatch (options : BufferOptions) (buf : CandidateBuffer α ι) :
    Except String (List (ModelSample α) × CandidateBuffer α ι) :=
  if buf.buffer.isEmpty then .error "Dynamic token buffer is empty"
  else
    let selection := selectFitting options.tokenBudget 0 (buf.buffer.zip buf.bufferOutputIndices)
    .ok (selection.selectedSamples,
      { buffer := selection.remainingBuffer
        bufferOutputIndices := selection.remainingOutputIndices
        bufferTokenCount := buf.bufferTokenCount - selection.selectedTokenCount })

/-! ## The packing buffer -/

/-- The loop of `FirstFitPackingSelector.select_samples_to_pack`. -/
def selectSamplesToPack (kind : BufferKind) (tokenBudget : Nat) :
    Nat → Nat → List (ModelSample α) → Except String (List Nat)
  | _, _, [] => .ok []
  | sampleIndex, selectedCost, sample :: rest => do
      let cost ← sampleCost kind sample
      if selectedCost = 0 ∨ selectedCost + cost ≤ tokenBudget then
        let later ← selectSamplesToPack kind tokenBudget (sampleIndex + 1) (selectedCost + cost) rest
        .ok (sampleIndex :: later)
      else selectSamplesToPack kind tokenBudget (sampleIndex + 1) selectedCost rest

/-- `_validate_selected_indices` -/
def validateSelectedIndices (length : Nat) (selectedIndices : List Nat) : Except String (List Nat) :=
  if ∃ index ∈ selectedIndices, length ≤ index then
    .error "PackingSelector returned an out-of-range candidate index"
  else if selectedIndices.isEmpty then .error "PackingSelector must select at least one candidate"
  else if ¬ selectedIndices.Nodup then
    .error "PackingSelector must not select a candidate more than once"
  else .ok selectedIndices

def getPackingMicroBatch (options : BufferOptions) (buf : CandidateBuffer α ι) :
    Except String (List (ModelSample α) × CandidateBuffer α ι) :=
  if buf.buffer.isEmpty then .error "Packing candidate buffer is empty"
  else do
    let selectedIndices ← selectSamplesToPack options.kind options.tokenBudget 0 0
      (buf.buffer.map (·.1))
    let resolvedIndices ← validateSelectedIndices buf.buffer.length selectedIndices
    let selected := resolvedIndices.filterMap fun index => buf.buffer[index]?
    let remaining := ((buf.buffer.zip buf.bufferOutputIndices).zipIdx.filter
      fun entry => decide (entry.2 ∉ resolvedIndices)).map (·.1)
    .ok (selected.map (·.1),
      { buffer := remaining.map (·.1)
        bufferOutputIndices := remaining.map (·.2)
        bufferTokenCount := buf.bufferTokenCount - ((selected.map (·.2)).sum : Nat) })

/-- `get_micro_batch` of either buffer -/
def getMicroBatch (options : BufferOptions) (buf : CandidateBuffer α ι) :
    Except String (List (ModelSample α) × CandidateBuffer α ι) :=
  match options.kind with
  | .tokenBudget => getTokenMicroBatch options buf
  | .packing => getPackingMicroBatch options buf

/-! ## Both take the first that fit -/

def firstFit {τ : Type} (size : τ → Nat) (budget : Nat) : Nat → List τ → List τ × List τ
  | _, [] => ([], [])
  | used, entry :: rest =>
    if used = 0 ∨ used + size entry ≤ budget then
      ((entry :: (firstFit size budget (used + size entry) rest).1),
        (firstFit size budget (used + size entry) rest).2)
    else ((firstFit size budget used rest).1, entry :: (firstFit size budget used rest).2)

section FirstFit

variable {τ : Type} {size : τ → Nat} {budget : Nat}

theorem firstFit_perm (used : Nat) (entries : List τ) :
    ((firstFit size budget used entries).1 ++ (firstFit size budget used entries).2).Perm entries := by
  induction entries generalizing used with
  | nil => exact .refl _
  | cons entry rest ih =>
    rw [firstFit]
    split
    · exact (ih _).cons entry
    · exact perm_middle.trans ((ih _).cons entry)

theorem firstFit_fst_sublist (used : Nat) (entries : List τ) :
    (firstFit size budget used entries).1.Sublist entries := by
  induction entries generalizing used with
  | nil => exact .slnil
  | cons entry rest ih =>
    rw [firstFit]
    split
    · exact (ih _).cons_cons entry
    · exact (ih _).cons entry

theorem firstFit_snd_sublist (used : Nat) (entries : List τ) :
    (firstFit size budget used entries).2.Sublist entries := by
  induction entries generalizing used with
  | nil => exact .slnil
  | cons entry rest ih =>
    rw [firstFit]
    split
    · exact (ih _).cons entry
    · exact (ih _).cons_cons entry

theorem firstFit_head (entry : τ) (rest : List τ) :
    (firstFit size budget 0 (entry :: rest)).1.head? = some entry := by
  rw [firstFit, if_pos (.inl rfl)]
  rfl

theorem firstFit_sum_le {used : Nat} (hused : 0 < used) (entries : List τ)
    (hsome : (firstFit size budget used entries).1 ≠ []) :
    used + ((firstFit size budget used entries).1.map size).sum ≤ budget := by
  induction entries generalizing used with
  | nil => exact absurd rfl hsome
  | cons entry rest ih =>
    rw [firstFit] at hsome ⊢
    split at hsome
    · rename_i hfits
      rw [if_pos hfits, map_cons, sum_cons]
      by_cases hlater : (firstFit size budget (used + size entry) rest).1 = []
      · rw [hlater]
        simp only [map_nil, sum_nil]
        omega
      · have := ih (show 0 < used + size entry by omega) hlater
        omega
    · rename_i hskip
      rw [if_neg hskip]
      exact ih hused hsome

theorem firstFit_le_budget {entries : List τ} (hpos : ∀ entry ∈ entries, 0 < size entry)
    (h : 1 < (firstFit size budget 0 entries).1.length) :
    ((firstFit size budget 0 entries).1.map size).sum ≤ budget := by
  cases entries with
  | nil => simp [firstFit] at h
  | cons entry rest =>
    rw [firstFit, if_pos (.inl rfl)] at h ⊢
    have hlater : (firstFit size budget (0 + size entry) rest).1 ≠ [] := by
      intro hnil
      rw [hnil] at h
      simp at h
    have := firstFit_sum_le (by have := hpos entry mem_cons_self; omega) rest hlater
    rw [map_cons, sum_cons]
    omega

end FirstFit

/-! ## What a micro-batch takes and leaves -/

def entries (buf : CandidateBuffer α ι) : List ((ModelSample α × Nat) × Option ι) :=
  buf.buffer.zip buf.bufferOutputIndices

def entryCost (entry : (ModelSample α × Nat) × Option ι) : Nat := entry.1.2

def ofEntries (entries : List ((ModelSample α × Nat) × Option ι)) : CandidateBuffer α ι :=
  { buffer := entries.map (·.1)
    bufferOutputIndices := entries.map (·.2)
    bufferTokenCount := ((entries.map entryCost).sum : Nat) }

structure Consistent (options : BufferOptions) (buf : CandidateBuffer α ι) : Prop where
  eq_ofEntries : buf = ofEntries buf.entries
  cost_eq : ∀ entry ∈ buf.entries, sampleCost options.kind entry.1.1 = .ok (entryCost entry)

def taken (options : BufferOptions) (buf : CandidateBuffer α ι) :
    List ((ModelSample α × Nat) × Option ι) :=
  (firstFit entryCost options.tokenBudget 0 buf.entries).1

def remaining (options : BufferOptions) (buf : CandidateBuffer α ι) : CandidateBuffer α ι :=
  ofEntries (firstFit entryCost options.tokenBudget 0 buf.entries).2

section Selection

variable {options : BufferOptions} {buf : CandidateBuffer α ι}

@[simp] theorem entries_ofEntries (entries : List ((ModelSample α × Nat) × Option ι)) :
    (ofEntries entries).entries = entries := by
  rw [CandidateBuffer.entries, ofEntries, zip_map']
  exact map_id entries

theorem taken_append_remaining_perm :
    (taken options buf ++ (remaining options buf).entries).Perm buf.entries := by
  rw [remaining, entries_ofEntries]
  exact firstFit_perm 0 buf.entries

theorem Consistent.isEmpty_iff (h : Consistent options buf) :
    buf.buffer.isEmpty = true ↔ buf.entries = [] := by
  rw [h.eq_ofEntries, entries_ofEntries, ofEntries]
  simp

theorem selectFitting_eq (tokenBudget used : Nat)
    (entries : List ((ModelSample α × Nat) × Option ι)) :
    selectFitting tokenBudget used entries =
      ⟨(firstFit entryCost tokenBudget used entries).1.map (·.1.1),
        used + ((firstFit entryCost tokenBudget used entries).1.map entryCost).sum,
        (firstFit entryCost tokenBudget used entries).2.map (·.1),
        (firstFit entryCost tokenBudget used entries).2.map (·.2)⟩ := by
  induction entries generalizing used with
  | nil => simp [selectFitting, firstFit]
  | cons entry rest ih =>
    obtain ⟨⟨modelSample, cost⟩, outputIndexEntry⟩ := entry
    rw [selectFitting, firstFit]
    have hcost : entryCost ((modelSample, cost), outputIndexEntry) = cost := rfl
    rw [hcost]
    split
    · rw [ih]
      simp only [map_cons, sum_cons, hcost, Nat.add_assoc]
    · rw [ih]
      simp only [map_cons]

theorem Consistent.count_sub_taken (h : Consistent options buf) :
    buf.bufferTokenCount - (((taken options buf).map entryCost).sum : Nat) =
      (buf.remaining options).bufferTokenCount := by
  have hsum := ((@firstFit_perm _ entryCost options.tokenBudget 0 buf.entries).map entryCost).sum_eq
  rw [map_append, sum_append] at hsum
  have hcount : buf.bufferTokenCount = ((buf.entries.map entryCost).sum : Nat) := by
    conv_lhs => rw [h.eq_ofEntries]
    rfl
  rw [hcount, remaining, ofEntries, taken, ← hsum]
  push_cast
  omega

theorem Consistent.getTokenMicroBatch_eq (h : Consistent options buf) (hne : buf.entries ≠ []) :
    getTokenMicroBatch options buf =
      .ok ((taken options buf).map (·.1.1), buf.remaining options) := by
  rw [getTokenMicroBatch, if_neg fun hempty => hne (h.isEmpty_iff.mp hempty)]
  have hselect := selectFitting_eq options.tokenBudget 0 buf.entries
  rw [Nat.zero_add, CandidateBuffer.entries] at hselect
  have hcount := h.count_sub_taken
  rw [hselect]
  exact congrArg Except.ok (Prod.ext rfl (congrArg (CandidateBuffer.mk _ _) hcount))

/-! The packing buffer reaches the same entries through their indices -/

theorem selectSamplesToPack_eq {kind : BufferKind} (tokenBudget used index : Nat)
    {entries : List ((ModelSample α × Nat) × Option ι)}
    (hcost : ∀ entry ∈ entries, sampleCost kind entry.1.1 = .ok (entryCost entry)) :
    selectSamplesToPack kind tokenBudget index used (entries.map (·.1.1)) =
      .ok ((firstFit (fun entry => entryCost entry.1) tokenBudget used (entries.zipIdx index)).1.map
        (·.2)) := by
  induction entries generalizing used index with
  | nil => rfl
  | cons entry rest ih =>
    have hrest := fun other hother => hcost other (mem_cons_of_mem entry hother)
    rw [map_cons, selectSamplesToPack, hcost entry mem_cons_self, zipIdx_cons, firstFit]
    show (if _ then _ else _) = _
    split
    · rw [ih _ _ hrest]
      rfl
    · exact ih _ _ hrest

theorem firstFit_map {τ σ : Type} (f : τ → σ) (size : σ → Nat) (budget used : Nat)
    (entries : List τ) :
    firstFit size budget used (entries.map f) =
      ((firstFit (fun entry => size (f entry)) budget used entries).1.map f,
        (firstFit (fun entry => size (f entry)) budget used entries).2.map f) := by
  induction entries generalizing used with
  | nil => rfl
  | cons entry rest ih =>
    rw [map_cons, firstFit, firstFit]
    split
    · rw [ih]
      rfl
    · rw [ih]
      rfl

theorem firstFit_snd_eq_filter {τ σ : Type} [DecidableEq σ] (key : τ → σ) {size : τ → Nat}
    {budget used : Nat} {entries : List τ} (hnodup : (entries.map key).Nodup) :
    (firstFit size budget used entries).2 =
      entries.filter fun entry => decide (key entry ∉ (firstFit size budget used entries).1.map key) := by
  induction entries generalizing used with
  | nil => rfl
  | cons entry rest ih =>
    obtain ⟨hfresh, hnodup⟩ := nodup_cons.mp hnodup
    rw [firstFit]
    split
    · rw [filter_cons_of_neg (by simp), ih hnodup]
      refine filter_congr fun other hother => ?_
      have hne : key other ≠ key entry := fun heq =>
        hfresh (heq ▸ mem_map_of_mem hother)
      simp [hne]
    · have hout : key entry ∉ (firstFit size budget used rest).1.map key := by
        intro hmem
        obtain ⟨other, hother, heq⟩ := mem_map.mp hmem
        exact hfresh (heq ▸ mem_map_of_mem ((firstFit_fst_sublist _ _).subset hother))
      rw [filter_cons_of_pos (by simpa using hout), ih hnodup]

theorem firstFit_nodup {τ σ : Type} (key : τ → σ) {size : τ → Nat} {budget used : Nat}
    {entries : List τ} (hnodup : (entries.map key).Nodup) :
    ((firstFit size budget used entries).1.map key).Nodup :=
  hnodup.sublist ((firstFit_fst_sublist used entries).map key)

theorem Consistent.getPackingMicroBatch_eq (h : Consistent options buf) (hne : buf.entries ≠ []) :
    getPackingMicroBatch options buf =
      .ok ((taken options buf).map (·.1.1), buf.remaining options) := by
  have hbuffer : buf.buffer = buf.entries.map (·.1) := by
    conv_lhs => rw [h.eq_ofEntries]
    rfl
  have hlength : buf.buffer.length = buf.entries.length := by rw [hbuffer, length_map]
  have hsamples : buf.buffer.map (·.1) = buf.entries.map (·.1.1) := by
    rw [hbuffer, map_map]
    rfl
  have hnodup : (buf.entries.zipIdx.map (·.2)).Nodup := by
    rw [zipIdx_map_snd]
    exact nodup_range'
  have hfit := firstFit_map (fun entry : ((ModelSample α × Nat) × Option ι) × Nat => entry.1)
    entryCost options.tokenBudget 0 buf.entries.zipIdx
  have hleft := @firstFit_snd_eq_filter _ _ _ (fun entry => entry.2)
    (fun entry : ((ModelSample α × Nat) × Option ι) × Nat => entryCost entry.1)
    options.tokenBudget 0 buf.entries.zipIdx hnodup
  have hkeys := @firstFit_nodup _ _ (fun entry => entry.2)
    (fun entry : ((ModelSample α × Nat) × Option ι) × Nat => entryCost entry.1)
    options.tokenBudget 0 buf.entries.zipIdx hnodup
  have hsubset := (@firstFit_fst_sublist _
    (fun entry : ((ModelSample α × Nat) × Option ι) × Nat => entryCost entry.1)
    options.tokenBudget 0 buf.entries.zipIdx).subset
  have hselect := selectSamplesToPack_eq options.tokenBudget 0 0 h.cost_eq
  rw [zipIdx_map_fst] at hfit
  generalize firstFit (fun entry : ((ModelSample α × Nat) × Option ι) × Nat => entryCost entry.1)
    options.tokenBudget 0 buf.entries.zipIdx = parts at hfit hleft hkeys hsubset hselect
  have hget : ∀ entry ∈ parts.1, buf.entries[entry.2]? = some entry.1 := fun entry hentry =>
    mem_zipIdx_iff_getElem?.mp (hsubset hentry)
  have hfirst : parts.1 ≠ [] := by
    intro hnil
    obtain ⟨entry, rest, hcons⟩ := exists_cons_of_ne_nil hne
    have hhead := @firstFit_head _ entryCost options.tokenBudget entry rest
    rw [← hcons, hfit, hnil] at hhead
    cases hhead
  have hresolved : validateSelectedIndices buf.buffer.length (parts.1.map (·.2)) =
      .ok (parts.1.map (·.2)) := by
    rw [validateSelectedIndices, if_neg, if_neg (by simpa using hfirst), if_neg (not_not.mpr hkeys)]
    rintro ⟨index, hindex, hle⟩
    obtain ⟨entry, hentry, rfl⟩ := mem_map.mp hindex
    have := (List.getElem?_eq_some_iff.mp (hget entry hentry)).1
    omega
  have hselected : (parts.1.map (·.2)).filterMap (fun index => buf.buffer[index]?) =
      parts.1.map (·.1.1) := by
    rw [filterMap_map, ← filterMap_eq_map]
    refine filterMap_congr fun entry hentry => ?_
    simp [hbuffer, hget entry hentry]
  have hcount := h.count_sub_taken
  simp only [taken, remaining, hfit] at hcount ⊢
  rw [getPackingMicroBatch, if_neg fun hempty => hne (h.isEmpty_iff.mp hempty), hsamples, hselect]
  show (validateSelectedIndices buf.buffer.length (parts.1.map (·.2)) >>= _) = _
  rw [hresolved]
  show Except.ok _ = _
  simp only [hselected, ← CandidateBuffer.entries.eq_1, ← hleft]
  refine congrArg Except.ok (Prod.ext (by simp [map_map, Function.comp_def]) ?_)
  refine Eq.trans ?_ (congrArg (CandidateBuffer.mk _ _) hcount)
  simp [map_map, Function.comp_def, entryCost]

theorem Consistent.getMicroBatch_eq (h : Consistent options buf) (hne : buf.entries ≠ []) :
    getMicroBatch options buf = .ok ((taken options buf).map (·.1.1), buf.remaining options) := by
  rw [getMicroBatch]
  cases options.kind with
  | tokenBudget => exact h.getTokenMicroBatch_eq hne
  | packing => exact h.getPackingMicroBatch_eq hne

end Selection

end CandidateBuffer

end HyperParallel.Data
