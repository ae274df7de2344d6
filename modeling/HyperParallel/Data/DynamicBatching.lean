import HyperParallel.Data.DynamicLoader

/-!
# Dynamic batching conserves samples and resumes exactly

As long as every sample has a cost, the two lists of the buffer and its count
stay consistent, so every micro-batch takes the first samples that fit.  A state
between two micro-batches determines all later ones, and a checkpoint restores
that state.
-/

namespace HyperParallel.Data

open Foundation CandidateBuffer List

variable {α ι : Type}

namespace DynamicLoader

def EntrySound (loader : DynamicLoader α ι)
    (entry : (ModelSample α × Nat) × Option (ReplayIndex ι)) : Prop :=
  sampleCost loader.options.kind entry.1.1 = .ok (entryCost entry) ∧
    if loader.saveByIdx then
      ∃ outputIndex sampleIndex, entry.2 = some (outputIndex, sampleIndex) ∧
        (normalizeSourceSamples (loader.getItem outputIndex))[sampleIndex]? = some entry.1.1
    else entry.2 = none

structure Sound (loader : DynamicLoader α ι) (buf : LoaderBuffer α ι) : Prop where
  eq_ofEntries : buf = ofEntries buf.entries
  entrySound : ∀ entry ∈ buf.entries, loader.EntrySound entry

structure Replayable (loader : DynamicLoader α ι) : Prop where
  cost : ∀ sourceSamples ∈ loader.source, ∀ sourceItem ∈ sourceSamples,
    ∀ modelSample ∈ normalizeSourceSamples sourceItem.1,
      ∃ cost, sampleCost loader.options.kind modelSample = .ok cost
  replay : loader.saveByIdx = true → ∀ sourceSamples ∈ loader.source, ∀ sourceItem ∈ sourceSamples,
    loader.getItem sourceItem.2 = sourceItem.1

section Buffers

variable {loader : DynamicLoader α ι} {buf : LoaderBuffer α ι}

theorem Sound.consistent (h : loader.Sound buf) : buf.Consistent loader.options :=
  ⟨h.eq_ofEntries, fun entry hentry => (h.entrySound entry hentry).1⟩

theorem sound_ofEntries {entries : List ((ModelSample α × Nat) × Option (ReplayIndex ι))}
    (h : ∀ entry ∈ entries, loader.EntrySound entry) : loader.Sound (ofEntries entries) :=
  ⟨by rw [entries_ofEntries], by rwa [entries_ofEntries]⟩

theorem sound_empty (loader : DynamicLoader α ι) : loader.Sound .empty :=
  ⟨rfl, fun _ h => absurd h List.not_mem_nil⟩

theorem Sound.remaining (h : loader.Sound buf) : loader.Sound (buf.remaining loader.options) :=
  sound_ofEntries fun entry hentry => h.entrySound entry
    ((firstFit_perm 0 buf.entries).subset (List.mem_append_right _ hentry))

theorem Sound.buffer_eq (h : loader.Sound buf) : buf.buffer = buf.entries.map (·.1) := by
  conv_lhs => rw [h.eq_ofEntries]
  rfl

theorem Sound.length_eq (h : loader.Sound buf) : buf.buffer.length = buf.entries.length := by
  rw [h.buffer_eq, length_map]

theorem remaining_length_lt (hne : buf.entries ≠ []) :
    (buf.remaining loader.options).entries.length < buf.entries.length := by
  obtain ⟨entry, rest, hcons⟩ := exists_cons_of_ne_nil hne
  have hperm := (@taken_append_remaining_perm _ _ loader.options buf).length_eq
  have hhead := @firstFit_head _ entryCost loader.options.tokenBudget entry rest
  rw [← hcons] at hhead
  have hpos : 0 < (buf.taken loader.options).length := by
    rw [taken]
    exact length_pos_of_ne_nil fun hnil => by rw [hnil] at hhead; cases hhead
  rw [length_append] at hperm
  omega

theorem Sound.putItem (h : loader.Sound buf) {modelSample : ModelSample α}
    {outputIndex : Option (ReplayIndex ι)} {cost : Nat}
    (hcost : sampleCost loader.options.kind modelSample = .ok cost)
    (hentry : loader.EntrySound ((modelSample, cost), outputIndex)) :
    ∃ next, buf.putItem loader.options modelSample outputIndex = .ok next ∧ loader.Sound next ∧
      next.entries = buf.entries ++ [((modelSample, cost), outputIndex)] := by
  have hput : buf.putItem loader.options modelSample outputIndex =
      .ok (ofEntries (buf.entries ++ [((modelSample, cost), outputIndex)])) := by
    rw [CandidateBuffer.putItem, hcost]
    refine congrArg Except.ok ?_
    conv_lhs => rw [h.eq_ofEntries]
    simp [ofEntries, entryCost]
  refine ⟨_, hput, sound_ofEntries fun entry hmem => ?_, entries_ofEntries _⟩
  rcases mem_append.mp hmem with hmem | hmem
  · exact h.entrySound entry hmem
  · rw [mem_singleton.mp hmem]
    exact hentry

end Buffers

/-! ## Micro-batches, one after another -/

/-- The micro-batches a `while` loop takes from a buffer, and the buffer it leaves. -/
inductive Drains (loader : DynamicLoader α ι) (ready : LoaderBuffer α ι → Bool) (cursor : Nat) :
    LoaderBuffer α ι → List (Yielded α ι) → LoaderBuffer α ι → Prop
  | stop {buf} (hready : ready buf = false) : Drains loader ready cursor buf [] buf
  | take {buf yields last} (hready : ready buf = true) (hne : buf.entries ≠ [])
      (later : Drains loader ready cursor (buf.remaining loader.options) yields last) :
      Drains loader ready cursor buf
        (⟨buf, (buf.taken loader.options).map (·.1.1),
          ⟨buf.remaining loader.options, cursor, false⟩⟩ :: yields) last

/-- A loop that goes on only while there is something to take. -/
def Takes (loader : DynamicLoader α ι) (ready : LoaderBuffer α ι → Bool) : Prop :=
  ∀ buf, loader.Sound buf → ready buf = true → buf.entries ≠ []

section Drains

variable {loader : DynamicLoader α ι} {ready : LoaderBuffer α ι → Bool} {cursor : Nat}
  {buf last : LoaderBuffer α ι} {yields : List (Yielded α ι)}

theorem takes_isReady (loader : DynamicLoader α ι) :
    loader.Takes (CandidateBuffer.isReady loader.options) := by
  intro buf hsound hready hnil
  have hlength := hsound.length_eq
  rw [hnil] at hlength
  have hmin := loader.options.minBufferedSamples_pos
  simp [CandidateBuffer.isReady, hlength] at hready
  omega

theorem takes_nonempty (loader : DynamicLoader α ι) :
    loader.Takes fun buf => !buf.buffer.isEmpty := by
  intro buf hsound hready hnil
  have hempty : buf.buffer = [] := by
    rw [hsound.buffer_eq, hnil]
    rfl
  simp [hempty] at hready

theorem exists_drains (htakes : loader.Takes ready) (hsound : loader.Sound buf) {fuel : Nat}
    (hfuel : buf.entries.length ≤ fuel) :
    ∃ yields last, loader.drain ready cursor fuel buf = (yields, .ok last) ∧
      loader.Drains ready cursor buf yields last := by
  induction fuel generalizing buf with
  | zero =>
    have hnil := length_eq_zero_iff.mp (Nat.le_zero.mp hfuel)
    have hready : ready buf = false := by
      by_contra htrue
      exact htakes buf hsound (by simpa using htrue) hnil
    exact ⟨[], buf, by rw [drain, hready]; rfl, .stop hready⟩
  | succ fuel ih =>
    cases hready : ready buf with
    | false => exact ⟨[], buf, by rw [drain, hready]; rfl, .stop hready⟩
    | true =>
      have hne := htakes buf hsound hready
      have hlt := @remaining_length_lt _ _ loader _ hne
      obtain ⟨yields, last, hdrain, hdrains⟩ := ih hsound.remaining (by omega)
      refine ⟨_, last, ?_, .take hready hne hdrains⟩
      rw [drain, hready, hsound.consistent.getMicroBatch_eq hne]
      simp only [if_true, hdrain]

theorem Drains.sound (h : loader.Drains ready cursor buf yields last) (hsound : loader.Sound buf) :
    loader.Sound last := by
  induction h with
  | stop => exact hsound
  | take _ _ _ ih => exact ih hsound.remaining

theorem Drains.not_ready (h : loader.Drains ready cursor buf yields last) : ready last = false := by
  induction h with
  | stop hready => exact hready
  | take _ _ _ ih => exact ih

theorem Drains.unique {yields' : List (Yielded α ι)} {last' : LoaderBuffer α ι}
    (h : loader.Drains ready cursor buf yields last)
    (h' : loader.Drains ready cursor buf yields' last') : yields = yields' ∧ last = last' := by
  induction h generalizing yields' last' with
  | stop hready =>
    cases h' with
    | stop => exact ⟨rfl, rfl⟩
    | take hready' => rw [hready] at hready'; cases hready'
  | take hready _ _ ih =>
    cases h' with
    | stop hready' => rw [hready] at hready'; cases hready'
    | take _ _ later =>
      obtain ⟨rfl, rfl⟩ := ih later
      exact ⟨rfl, rfl⟩

theorem Drains.perm (h : loader.Drains ready cursor buf yields last) :
    (yields.flatMap (·.samples) ++ last.entries.map (·.1.1)).Perm (buf.entries.map (·.1.1)) := by
  induction h with
  | stop => exact .refl _
  | @take buf yields last _ _ _ ih =>
    have hstep := (@taken_append_remaining_perm _ _ loader.options buf).map (·.1.1)
    rw [map_append] at hstep
    rw [flatMap_cons, append_assoc]
    exact (ih.append_left _).trans hstep

theorem Drains.suffix (h : loader.Drains ready cursor buf yields last) (hsound : loader.Sound buf)
    {before after : List (Yielded α ι)} {yielded : Yielded α ι}
    (hsplit : yields = before ++ yielded :: after) :
    yielded.after.sourceCursor = cursor ∧ loader.Sound yielded.after.candidateBuffer ∧
      loader.Drains ready cursor yielded.after.candidateBuffer after last := by
  induction h generalizing before with
  | stop => simp at hsplit
  | take _ _ later ih =>
    cases before with
    | nil =>
      obtain ⟨rfl, rfl⟩ := cons.inj hsplit
      exact ⟨rfl, hsound.remaining, later⟩
    | cons first before => exact ih hsound.remaining (cons.inj hsplit).2

end Drains

/-! ## The whole generator -/

def sourceSamples (batches : List (List (SourceItem α × ι))) : List (ModelSample α) :=
  batches.flatMap fun batch => batch.flatMap fun sourceItem => normalizeSourceSamples sourceItem.1

def BatchesSound (loader : DynamicLoader α ι) (batches : List (List (SourceItem α × ι))) : Prop :=
  ∀ batch ∈ batches, ∀ sourceItem ∈ batch,
    (∀ modelSample ∈ normalizeSourceSamples sourceItem.1,
      ∃ cost, sampleCost loader.options.kind modelSample = .ok cost) ∧
    (loader.saveByIdx = true → loader.getItem sourceItem.2 = sourceItem.1)

inductive Reads (loader : DynamicLoader α ι) :
    Nat → List (List (SourceItem α × ι)) → LoaderBuffer α ι → List (Yielded α ι) → Prop
  | finish {cursor buf yields last}
      (drains : loader.Drains (fun buf => !buf.buffer.isEmpty) cursor buf yields last) :
      Reads loader cursor [] buf yields
  | batch {cursor batch rest buf filled yields last later}
      (put : batch.foldlM loader.putSourceItem buf = .ok filled) (sound : loader.Sound filled)
      (samples : filled.entries.map (·.1.1) = buf.entries.map (·.1.1) ++ sourceSamples [batch])
      (drains : loader.Drains (CandidateBuffer.isReady loader.options) (cursor + 1) filled yields last)
      (reads : Reads loader (cursor + 1) rest last later) :
      Reads loader cursor (batch :: rest) buf (yields ++ later)

section Generator

variable {loader : DynamicLoader α ι} {ready : LoaderBuffer α ι → Bool} {cursor : Nat}
  {buf last : LoaderBuffer α ι} {yields : List (Yielded α ι)} {yielded : Yielded α ι}
  {arrived : List (ModelSample α)}

theorem putEntries_ok (hsound : loader.Sound buf)
    {entries : List (ModelSample α × Option (ReplayIndex ι))}
    (hentries : ∀ entry ∈ entries, ∃ cost, sampleCost loader.options.kind entry.1 = .ok cost ∧
      loader.EntrySound ((entry.1, cost), entry.2)) :
    ∃ next, entries.foldlM (fun buf entry => buf.putItem loader.options entry.1 entry.2) buf =
        .ok next ∧ loader.Sound next ∧
      next.entries.map (·.1.1) = buf.entries.map (·.1.1) ++ entries.map (·.1) := by
  induction entries generalizing buf with
  | nil => exact ⟨buf, rfl, hsound, by simp⟩
  | cons entry entries ih =>
    obtain ⟨cost, hcost, hentry⟩ := hentries entry mem_cons_self
    obtain ⟨next, hput, hnext, hnextEntries⟩ := hsound.putItem hcost hentry
    obtain ⟨final, hfinal, hfinalSound, hfinalEntries⟩ :=
      ih hnext fun other hother => hentries other (mem_cons_of_mem entry hother)
    refine ⟨final, ?_, hfinalSound, ?_⟩
    · rw [foldlM_cons, hput]
      exact hfinal
    · rw [hfinalEntries, hnextEntries]
      simp

theorem sampleEntries_map (loader : DynamicLoader α ι) (sourceItem : SourceItem α × ι) :
    (loader.sampleEntries sourceItem).map (·.1) = normalizeSourceSamples sourceItem.1 := by
  rw [sampleEntries]
  split
  · rw [map_map]
    exact zipIdx_map_fst 0 _
  · rw [map_map]
    exact map_id _

theorem putSourceItem_ok (hsound : loader.Sound buf) {sourceItem : SourceItem α × ι}
    (hcost : ∀ modelSample ∈ normalizeSourceSamples sourceItem.1,
      ∃ cost, sampleCost loader.options.kind modelSample = .ok cost)
    (hreplay : loader.saveByIdx = true → loader.getItem sourceItem.2 = sourceItem.1) :
    ∃ next, loader.putSourceItem buf sourceItem = .ok next ∧ loader.Sound next ∧
      next.entries.map (·.1.1) =
        buf.entries.map (·.1.1) ++ normalizeSourceSamples sourceItem.1 := by
  rw [← sampleEntries_map loader sourceItem]
  refine putEntries_ok hsound fun entry hentry => ?_
  have hmem : entry.1 ∈ normalizeSourceSamples sourceItem.1 := by
    rw [← sampleEntries_map loader sourceItem]
    exact mem_map_of_mem hentry
  obtain ⟨cost, hcost⟩ := hcost entry.1 hmem
  refine ⟨cost, hcost, hcost, ?_⟩
  rw [sampleEntries] at hentry
  cases hsave : loader.saveByIdx with
  | true =>
    rw [hsave, if_pos rfl] at hentry
    obtain ⟨⟨modelSample, sampleIndex⟩, hpair, rfl⟩ := mem_map.mp hentry
    rw [if_pos rfl]
    refine ⟨sourceItem.2, sampleIndex, rfl, ?_⟩
    rw [hreplay hsave]
    exact mem_zipIdx_iff_getElem?.mp hpair
  | false =>
    rw [hsave, if_neg Bool.false_ne_true] at hentry
    obtain ⟨modelSample, -, rfl⟩ := mem_map.mp hentry
    rw [if_neg Bool.false_ne_true]

theorem putBatch_ok (hsound : loader.Sound buf) {batch : List (SourceItem α × ι)}
    (hbatch : loader.BatchesSound [batch]) :
    ∃ next, batch.foldlM loader.putSourceItem buf = .ok next ∧ loader.Sound next ∧
      next.entries.map (·.1.1) = buf.entries.map (·.1.1) ++ sourceSamples [batch] := by
  have hitems := hbatch batch mem_cons_self
  clear hbatch
  induction batch generalizing buf with
  | nil => exact ⟨buf, rfl, hsound, by simp [sourceSamples]⟩
  | cons sourceItem batch ih =>
    obtain ⟨hcost, hreplay⟩ := hitems sourceItem mem_cons_self
    obtain ⟨next, hput, hnext, hnextEntries⟩ := putSourceItem_ok hsound hcost hreplay
    obtain ⟨final, hfinal, hfinalSound, hfinalEntries⟩ :=
      ih hnext fun other hother => hitems other (mem_cons_of_mem _ hother)
    refine ⟨final, ?_, hfinalSound, ?_⟩
    · rw [foldlM_cons, hput]
      exact hfinal
    · rw [hfinalEntries, hnextEntries]
      simp [sourceSamples]

theorem exists_reads {rest : List (List (SourceItem α × ι))} (hsound : loader.Sound buf)
    (hrest : loader.BatchesSound rest) :
    ∃ yields, loader.readSource cursor rest buf = (yields, .ok (ofEntries [])) ∧
      loader.Reads cursor rest buf yields := by
  induction rest generalizing cursor buf with
  | nil =>
    obtain ⟨yields, last, hdrain, hdrains⟩ := @exists_drains _ _ loader _ cursor buf
      (takes_nonempty loader) hsound _ (Nat.le_of_eq hsound.length_eq.symm)
    have hlast := hdrains.sound hsound
    have hempty : last.entries = [] := by
      have hbuffer : last.buffer = [] := by simpa using hdrains.not_ready
      rw [hlast.buffer_eq] at hbuffer
      exact map_eq_nil_iff.mp hbuffer
    refine ⟨yields, ?_, .finish hdrains⟩
    rw [readSource, drainAll, hdrain, hlast.eq_ofEntries, hempty]
  | cons batch rest ih =>
    obtain ⟨filled, hput, hfilled, hsamples⟩ := @putBatch_ok _ _ loader buf hsound batch
      fun other hother => hrest other (by rw [mem_singleton.mp hother]; exact mem_cons_self)
    obtain ⟨yields, last, hdrain, hdrains⟩ := @exists_drains _ _ loader _ (cursor + 1) filled
      (takes_isReady loader) hfilled _ (Nat.le_of_eq hfilled.length_eq.symm)
    obtain ⟨later, hlater, hreads⟩ := @ih (cursor + 1) last (hdrains.sound hfilled)
      fun other hother => hrest other (mem_cons_of_mem _ hother)
    refine ⟨yields ++ later, ?_, .batch hput hfilled hsamples hdrains hreads⟩
    simp only [readSource, hput, drainReady, hdrain, andThen, hlater]

theorem exists_generated {source : List (List (SourceItem α × ι))} (hsound : loader.Sound buf)
    (hsource : loader.source.drop cursor = source) (hrest : loader.BatchesSound source) :
    ∃ first last later, loader.batchDataGenerator buf cursor = (first ++ later, .ok (ofEntries [])) ∧
      loader.Drains (CandidateBuffer.isReady loader.options) cursor buf first last ∧
      loader.Reads cursor source last later := by
  obtain ⟨first, last, hdrain, hdrains⟩ := @exists_drains _ _ loader _ cursor buf
    (takes_isReady loader) hsound _ (Nat.le_of_eq hsound.length_eq.symm)
  obtain ⟨later, hlater, hreads⟩ := @exists_reads _ _ loader cursor last source
    (hdrains.sound hsound) hrest
  refine ⟨first, last, later, ?_, hdrains, hreads⟩
  simp only [batchDataGenerator, drainReady, hdrain, andThen, hsource, hlater]

theorem Drains.last_empty (hsound : loader.Sound buf)
    (h : loader.Drains (fun buf => !buf.buffer.isEmpty) cursor buf yields last) :
    last.entries = [] := by
  have hbuffer : last.buffer = [] := by simpa using h.not_ready
  rw [(h.sound hsound).buffer_eq] at hbuffer
  exact map_eq_nil_iff.mp hbuffer

variable {rest : List (List (SourceItem α × ι))}

theorem Reads.perm (h : loader.Reads cursor rest buf yields) (hsound : loader.Sound buf) :
    (yields.flatMap (·.samples)).Perm (buf.entries.map (·.1.1) ++ sourceSamples rest) := by
  induction h with
  | finish drains =>
    have hperm := drains.perm
    rw [drains.last_empty hsound] at hperm
    simpa [sourceSamples] using hperm
  | batch _ sound samples drains _ ih =>
    rw [flatMap_append]
    refine ((ih (drains.sound sound)).append_left _).trans ?_
    rw [← append_assoc]
    refine (drains.perm.append_right _).trans (List.Perm.of_eq ?_)
    rw [samples, append_assoc, sourceSamples, sourceSamples, sourceSamples, ← flatMap_append]
    rfl

theorem Reads.unique {yields' : List (Yielded α ι)} (h : loader.Reads cursor rest buf yields)
    (h' : loader.Reads cursor rest buf yields') :
    yields = yields' := by
  induction h generalizing yields' with
  | finish drains =>
    cases h' with
    | finish drains' => exact (drains.unique drains').1
  | batch put _ _ drains _ ih =>
    cases h' with
    | batch put' _ _ drains' reads' =>
      obtain rfl := Except.ok.inj (put.symm.trans put')
      obtain ⟨rfl, rfl⟩ := drains.unique drains'
      rw [ih reads']

theorem Drains.drainAll {first later : List (Yielded α ι)} {middle : LoaderBuffer α ι}
    (hfirst : loader.Drains (CandidateBuffer.isReady loader.options) cursor buf first middle)
    (hlater : loader.Drains (fun buf => !buf.buffer.isEmpty) cursor middle later last)
    (hsound : loader.Sound buf) :
    loader.Drains (fun buf => !buf.buffer.isEmpty) cursor buf (first ++ later) last := by
  induction hfirst with
  | stop => exact hlater
  | take _ hne _ ih =>
    refine .take ?_ hne (ih hlater hsound.remaining)
    rw [hsound.buffer_eq]
    simpa using hne

/-! ## Every state between two micro-batches -/

def Continues (loader : DynamicLoader α ι) (state : LoaderState α ι)
    (yields : List (Yielded α ι)) : Prop :=
  loader.Sound state.candidateBuffer ∧
    loader.batchDataGenerator state.candidateBuffer state.sourceCursor =
      (yields, .ok (ofEntries []))

theorem continues_of_drains {source : List (List (SourceItem α × ι))}
    (hsound : loader.Sound buf) (hsource : loader.source.drop cursor = source)
    (hrest : loader.BatchesSound source) {later : List (Yielded α ι)} {resumePending : Bool}
    (hdrains : loader.Drains (CandidateBuffer.isReady loader.options) cursor buf yields last)
    (hreads : loader.Reads cursor source last later) :
    loader.Continues ⟨buf, cursor, resumePending⟩ (yields ++ later) := by
  obtain ⟨first, middle, rest, hrun, hfirst, hlater⟩ := exists_generated hsound hsource hrest
  obtain ⟨rfl, rfl⟩ := hfirst.unique hdrains
  rw [hlater.unique hreads] at hrun
  exact ⟨hsound, hrun⟩

theorem Reads.continues (h : loader.Reads cursor rest buf yields) (hsound : loader.Sound buf)
    (hsource : loader.source.drop cursor = rest) (hrest : loader.BatchesSound rest)
    {before after : List (Yielded α ι)} {yielded : Yielded α ι}
    (hsplit : yields = before ++ yielded :: after) : loader.Continues yielded.after after := by
  induction h generalizing before with
  | @finish cursor buf yields last drains =>
    obtain ⟨hcursor, hafter, hlater⟩ := drains.suffix hsound hsplit
    obtain ⟨first, middle, rest, hrun, hfirst, hreads⟩ := exists_generated hafter hsource hrest
    cases hreads with
    | finish drains' =>
      obtain ⟨rfl, -⟩ := (hfirst.drainAll drains' hafter).unique hlater
      refine ⟨hafter, ?_⟩
      rw [hcursor, hrun]
  | @batch cursor batch rest buf filled yields last later put sound samples drains reads ih =>
    have hnext : loader.source.drop (cursor + 1) = rest := by
      rw [← drop_drop, hsource]
      rfl
    have hrest' : loader.BatchesSound rest := fun other hother =>
      hrest other (mem_cons_of_mem _ hother)
    rcases append_eq_append_iff.mp hsplit with ⟨front, hbefore, hlater⟩ | ⟨front, hyields, hafter⟩
    · exact ih (drains.sound sound) hnext hrest' hlater
    · cases front with
      | nil =>
        have hlater : later = [] ++ yielded :: after := hafter.symm
        exact ih (drains.sound sound) hnext hrest' hlater
      | cons first front =>
        obtain ⟨rfl, rfl⟩ := cons.inj hafter
        obtain ⟨hcursor, hsoundAfter, hdrains⟩ := drains.suffix sound hyields
        have hcontinues := @continues_of_drains _ _ loader (cursor + 1) _ last front rest
          hsoundAfter hnext hrest' later yielded.after.resumePending hdrains reads
        rw [← hcursor] at hcontinues
        exact hcontinues

/-! ## What a micro-batch takes -/

/-- The micro-batch takes the first samples that fit from a buffer in order of arrival. -/
structure TakenFrom (loader : DynamicLoader α ι) (arrived : List (ModelSample α))
    (yielded : Yielded α ι) : Prop where
  sound : loader.Sound yielded.before
  nonempty : yielded.before.entries ≠ []
  samples_eq : yielded.samples = (yielded.before.taken loader.options).map (·.1.1)
  arrived : (yielded.before.entries.map (·.1.1)).Sublist arrived

theorem Drains.takenFrom (h : loader.Drains ready cursor buf yields last)
    (hsound : loader.Sound buf) {arrived : List (ModelSample α)}
    (harrived : (buf.entries.map (·.1.1)).Sublist arrived) :
    (∀ yielded ∈ yields, loader.TakenFrom arrived yielded) ∧
      (last.entries.map (·.1.1)).Sublist arrived := by
  induction h with
  | stop => exact ⟨fun _ h => absurd h not_mem_nil, harrived⟩
  | @take buf yields last hready hne later ih =>
    have hleft : ((buf.remaining loader.options).entries.map (·.1.1)).Sublist arrived := by
      rw [remaining, entries_ofEntries]
      exact ((firstFit_snd_sublist 0 buf.entries).map (·.1.1)).trans harrived
    obtain ⟨htaken, hlast⟩ := ih hsound.remaining hleft
    refine ⟨fun yielded hmem => ?_, hlast⟩
    rcases mem_cons.mp hmem with rfl | hmem
    · exact ⟨hsound, hne, rfl, harrived⟩
    · exact htaken yielded hmem

theorem Reads.takenFrom (h : loader.Reads cursor rest buf yields) (hsound : loader.Sound buf)
    {seen : List (ModelSample α)} (harrived : (buf.entries.map (·.1.1)).Sublist seen) :
    ∀ yielded ∈ yields, loader.TakenFrom (seen ++ sourceSamples rest) yielded := by
  induction h generalizing seen with
  | finish drains =>
    exact (drains.takenFrom hsound (harrived.trans (sublist_append_left _ _))).1
  | @batch cursor batch rest buf filled yields last later put sound samples drains reads ih =>
    have hseen : seen ++ sourceSamples (batch :: rest) =
        (seen ++ sourceSamples [batch]) ++ sourceSamples rest := by
      simp [sourceSamples]
    have hfilled : (filled.entries.map (·.1.1)).Sublist (seen ++ sourceSamples [batch]) := by
      rw [samples]
      exact harrived.append (List.Sublist.refl _)
    obtain ⟨hfirst, hlast⟩ := drains.takenFrom sound hfilled
    intro yielded hmem
    rw [hseen]
    rcases mem_append.mp hmem with hmem | hmem
    · obtain ⟨hsoundBefore, hne, hsamples, hsublist⟩ := hfirst yielded hmem
      exact ⟨hsoundBefore, hne, hsamples, hsublist.trans (sublist_append_left _ _)⟩
    · exact ih (drains.sound sound) hlast yielded hmem

theorem TakenFrom.head (h : loader.TakenFrom arrived yielded) :
    yielded.samples.head? = (yielded.before.buffer.map (·.1)).head? ∧ yielded.samples ≠ [] := by
  obtain ⟨entry, rest, hcons⟩ := exists_cons_of_ne_nil h.nonempty
  have hhead := @firstFit_head _ entryCost loader.options.tokenBudget entry rest
  rw [← hcons] at hhead
  have hsamples : yielded.samples.head? = some entry.1.1 := by
    rw [h.samples_eq, taken, head?_map, hhead]
    rfl
  refine ⟨?_, fun hnil => ?_⟩
  · rw [hsamples, h.sound.buffer_eq, hcons]
    rfl
  · rw [hnil] at hsamples
    cases hsamples

theorem TakenFrom.within_budget (h : loader.TakenFrom arrived yielded)
    (hseveral : 1 < yielded.samples.length) :
    ∃ costs, yielded.samples.mapM (sampleCost loader.options.kind) = .ok costs ∧
      costs.sum ≤ loader.options.tokenBudget := by
  have hmem : ∀ entry ∈ yielded.before.taken loader.options, entry ∈ yielded.before.entries :=
    fun entry hentry => (firstFit_fst_sublist 0 yielded.before.entries).subset hentry
  have hcost : ∀ entry ∈ yielded.before.entries,
      sampleCost loader.options.kind entry.1.1 = .ok (entryCost entry) :=
    fun entry hentry => (h.sound.entrySound entry hentry).1
  refine ⟨(yielded.before.taken loader.options).map entryCost, ?_, ?_⟩
  · rw [h.samples_eq, mapM_eq_ok_iff, forall₂_map_left_iff, forall₂_map_right_iff, forall₂_same]
    exact fun entry hentry => hcost entry (hmem entry hentry)
  · rw [h.samples_eq, length_map] at hseveral
    exact firstFit_le_budget (fun entry hentry => sampleCost_pos (hcost entry hentry)) hseveral

end Generator

/-! ## Checkpoints -/

section Checkpoints

variable {loader : DynamicLoader α ι} {buf : LoaderBuffer α ι}

theorem Sound.indices_eq (h : loader.Sound buf) :
    buf.bufferOutputIndices = buf.entries.map (·.2) := by
  conv_lhs => rw [h.eq_ofEntries]
  rfl

theorem Sound.count_eq (h : loader.Sound buf) :
    buf.bufferTokenCount = ((buf.buffer.map (·.2)).sum : Nat) := by
  conv_lhs => rw [h.eq_ofEntries]
  rw [h.buffer_eq, map_map]
  rfl

variable [DecidableEq ι]

def CacheSound (loader : DynamicLoader α ι) : Option (ι × List (ModelSample α)) → Prop
  | none => True
  | some (outputIndex, modelSamples) =>
    modelSamples = normalizeSourceSamples (loader.getItem outputIndex)

theorem cachedModelSamples_eq {cache : Option (ι × List (ModelSample α))}
    (hcache : loader.CacheSound cache) (outputIndex : ι) :
    loader.cachedModelSamples cache outputIndex =
      normalizeSourceSamples (loader.getItem outputIndex) := by
  cases cache with
  | none => rfl
  | some kept =>
    rw [cachedModelSamples]
    split
    · rfl
    · rename_i hsame
      rw [not_not.mp hsame]
      exact hcache

theorem restoreEntry_ok {entry : (ModelSample α × Nat) × Option (ReplayIndex ι)} {outputIndex : ι}
    {sampleIndex : Nat} (hcost : sampleCost loader.options.kind entry.1.1 = .ok (entryCost entry))
    (hget : (normalizeSourceSamples (loader.getItem outputIndex))[sampleIndex]? = some entry.1.1)
    {restored : List (ModelSample α × Nat)} {cache : Option (ι × List (ModelSample α))}
    (hcache : loader.CacheSound cache) :
    ∃ cache', loader.restoreEntry (restored, cache) (outputIndex, sampleIndex) =
        .ok (restored ++ [entry.1], cache') ∧ loader.CacheSound cache' := by
  refine ⟨some (outputIndex, normalizeSourceSamples (loader.getItem outputIndex)), ?_, rfl⟩
  simp only [restoreEntry, cachedModelSamples_eq hcache, hget, hcost]
  rfl

theorem restoreIndexBuffer_ok {entries : List ((ModelSample α × Nat) × Option (ReplayIndex ι))}
    {indices : List (ReplayIndex ι)} (hindices : entries.map (·.2) = indices.map some)
    (hsave : loader.saveByIdx = true) (hentries : ∀ entry ∈ entries, loader.EntrySound entry)
    {restored : List (ModelSample α × Nat)} {cache : Option (ι × List (ModelSample α))}
    (hcache : loader.CacheSound cache) :
    ∃ cache', indices.foldlM loader.restoreEntry (restored, cache) =
      .ok (restored ++ entries.map (·.1), cache') := by
  induction entries generalizing indices restored cache with
  | nil =>
    obtain rfl : indices = [] := by simpa using hindices.symm
    exact ⟨cache, by simp; rfl⟩
  | cons entry entries ih =>
    cases indices with
    | nil => cases hindices
    | cons index indices =>
      obtain ⟨hindex, hrest⟩ := cons.inj hindices
      obtain ⟨hcost, hreplay⟩ := hentries entry mem_cons_self
      rw [hsave, if_pos rfl] at hreplay
      obtain ⟨outputIndex, sampleIndex, heq, hget⟩ := hreplay
      obtain rfl : index = (outputIndex, sampleIndex) := Option.some.inj (hindex.symm.trans heq)
      obtain ⟨cache', hstep, hcache'⟩ := @restoreEntry_ok _ _ loader _ entry outputIndex
        sampleIndex hcost hget restored cache hcache
      obtain ⟨final, hfinal⟩ := @ih indices hrest
        (fun other hother => hentries other (mem_cons_of_mem entry hother))
        (restored ++ [entry.1]) cache' hcache'
      refine ⟨final, ?_⟩
      rw [foldlM_cons, hstep]
      refine Eq.trans hfinal ?_
      simp

theorem loadStateDict_stateDict {cursor : Nat} {resumePending : Bool} (hsound : loader.Sound buf) :
    ∃ checkpoint, loader.stateDict ⟨buf, cursor, resumePending⟩ = .ok checkpoint ∧
      loader.loadStateDict checkpoint = .ok ⟨buf, cursor, true⟩ := by
  have hlength : ¬ buf.buffer.length ≠ buf.bufferOutputIndices.length := by
    rw [hsound.buffer_eq, hsound.indices_eq, length_map, length_map]
    exact not_not.mpr rfl
  have hrestored : ∀ saved, loader.getBufferState buf = .ok saved →
      loader.restoreBuffer saved = .ok (buf.buffer, buf.bufferOutputIndices) →
      ∃ checkpoint, loader.stateDict ⟨buf, cursor, resumePending⟩ = .ok checkpoint ∧
        loader.loadStateDict checkpoint = .ok ⟨buf, cursor, true⟩ := by
    intro saved hsaved hrestore
    refine ⟨_, by rw [stateDict, hsaved]; rfl, ?_⟩
    rw [loadStateDict, if_neg (not_not.mpr rfl)]
    simp only [hrestore]
    show (if _ then _ else _) = _
    rw [if_neg (not_not.mpr hsound.count_eq.symm), ← hsound.count_eq]
  cases hsave : loader.saveByIdx with
  | false =>
    refine hrestored (.full buf.buffer) ?_ ?_
    · rw [getBufferState, if_neg hlength, hsave]
      rfl
    · have hnone : buf.bufferOutputIndices = replicate buf.buffer.length none := by
        rw [hsound.indices_eq, hsound.length_eq]
        refine eq_replicate_iff.mpr ⟨length_map _, fun index hindex => ?_⟩
        obtain ⟨entry, hentry, rfl⟩ := mem_map.mp hindex
        have hreplay := (hsound.entrySound entry hentry).2
        rwa [hsave, if_neg Bool.false_ne_true] at hreplay
      simp only [restoreBuffer, hsave]
      rw [← hnone]
  | true =>
    obtain ⟨indices, hindices⟩ := exists_map_some fun index
        (hindex : index ∈ buf.entries.map (·.2)) => by
      obtain ⟨entry, hentry, rfl⟩ := mem_map.mp hindex
      have hreplay := (hsound.entrySound entry hentry).2
      rw [hsave, if_pos rfl] at hreplay
      obtain ⟨outputIndex, sampleIndex, heq, -⟩ := hreplay
      exact ⟨(outputIndex, sampleIndex), heq⟩
    refine hrestored (.byIdx indices) ?_ ?_
    · rw [getBufferState, if_neg hlength, hsave, if_pos rfl, hsound.indices_eq, hindices,
        mapM_map_some]
    · obtain ⟨cache, hfold⟩ := @restoreIndexBuffer_ok _ _ loader _ buf.entries indices hindices hsave
        hsound.entrySound [] none trivial
      simp only [restoreBuffer, hsave, restoreIndexBuffer, hfold]
      rw [hsound.indices_eq, hindices, hsound.buffer_eq]
      rfl

end Checkpoints

/-! ## Conservation and resumption -/

/-- The state after `count` micro-batches of an uninterrupted run. -/
def stateAfter (loader : DynamicLoader α ι) : Nat → LoaderState α ι
  | 0 => .fresh
  | count + 1 => ((loader.iter .fresh).1[count]?.map (·.after)).getD .fresh

/-- What a run of the loader over its whole source does, and what its checkpoints give. -/
structure ConservesAndResumes [DecidableEq ι] (loader : DynamicLoader α ι) : Prop where
  drained : ∃ last, (loader.iter .fresh).2 = .ok last ∧ last.buffer = []
  partition : ((loader.iter .fresh).1.flatMap (·.samples)).Perm (sourceSamples loader.source)
  in_order : ∀ yielded ∈ (loader.iter .fresh).1,
    (yielded.before.buffer.map (·.1)).Sublist (sourceSamples loader.source)
  oldest : ∀ yielded ∈ (loader.iter .fresh).1, yielded.samples ≠ [] ∧
    yielded.samples.head? = (yielded.before.buffer.map (·.1)).head?
  within_budget : ∀ yielded ∈ (loader.iter .fresh).1, 1 < yielded.samples.length →
    ∃ costs, yielded.samples.mapM (sampleCost loader.options.kind) = .ok costs ∧
      costs.sum ≤ loader.options.tokenBudget
  resumes : ∀ count ≤ (loader.iter .fresh).1.length, ∃ checkpoint state,
    loader.stateDict (loader.stateAfter count) = .ok checkpoint ∧
      loader.loadStateDict checkpoint = .ok state ∧
      loader.iter state = ((loader.iter .fresh).1.drop count, (loader.iter .fresh).2)

section Run

variable {loader : DynamicLoader α ι}

theorem Replayable.batchesSound (h : loader.Replayable) : loader.BatchesSound loader.source :=
  fun batch hbatch sourceItem hitem => ⟨h.cost batch hbatch sourceItem hitem,
    fun hsave => h.replay hsave batch hbatch sourceItem hitem⟩

theorem exists_run (h : loader.Replayable) :
    ∃ yields, loader.iter .fresh = (yields, .ok (ofEntries [])) ∧
      loader.Reads 0 loader.source .empty yields := by
  have hsound := sound_empty loader
  obtain ⟨first, last, later, hrun, hfirst, hreads⟩ :=
    exists_generated hsound (drop_zero) h.batchesSound
  -- nothing is buffered yet, so the first stage yields nothing
  have hnone : first = [] ∧ CandidateBuffer.empty = last := by
    cases hfirst with
    | stop => exact ⟨rfl, rfl⟩
    | take hready hne => exact absurd rfl hne
  obtain ⟨rfl, rfl⟩ := hnone
  exact ⟨later, hrun, hreads⟩

theorem continues_stateAfter (h : loader.Replayable) {yields : List (Yielded α ι)}
    (hrun : loader.iter .fresh = (yields, .ok (ofEntries [])))
    (hreads : loader.Reads 0 loader.source .empty yields) {count : Nat}
    (hcount : count ≤ yields.length) :
    loader.Continues (loader.stateAfter count) (yields.drop count) := by
  cases count with
  | zero =>
    refine ⟨sound_empty loader, ?_⟩
    rw [drop_zero]
    exact hrun
  | succ count =>
    have hstate : loader.stateAfter (count + 1) = yields[count].after := by
      simp [stateAfter, hrun, getElem?_eq_getElem hcount]
    rw [hstate]
    have hsplit : yields = yields.take count ++ yields[count] :: yields.drop (count + 1) := by
      rw [cons_getElem_drop_succ, take_append_drop]
    exact hreads.continues (sound_empty loader) drop_zero h.batchesSound hsplit

theorem conservesAndResumes [DecidableEq ι] (h : loader.Replayable) : loader.ConservesAndResumes := by
  obtain ⟨yields, hrun, hreads⟩ := exists_run h
  have hsound := sound_empty loader
  have htaken : ∀ yielded ∈ yields, loader.TakenFrom (sourceSamples loader.source) yielded := by
    have := hreads.takenFrom hsound (nil_sublist [])
    simpa using this
  refine ⟨?_, ?_, ?_, ?_, ?_, ?_⟩
  · exact ⟨_, by rw [hrun], rfl⟩
  · rw [hrun]
    exact hreads.perm hsound
  · intro yielded hmem
    rw [hrun] at hmem
    obtain ⟨hbefore, -, -, harrived⟩ := htaken yielded hmem
    rwa [hbefore.buffer_eq, map_map]
  · intro yielded hmem
    rw [hrun] at hmem
    exact (htaken yielded hmem).head.symm
  · intro yielded hmem
    rw [hrun] at hmem
    exact (htaken yielded hmem).within_budget
  · intro count hcount
    rw [hrun] at hcount ⊢
    obtain ⟨hstate, hgenerates⟩ := continues_stateAfter h hrun hreads hcount
    obtain ⟨checkpoint, hsaved, hloaded⟩ := @loadStateDict_stateDict _ _ loader _ _
      (loader.stateAfter count).sourceCursor (loader.stateAfter count).resumePending hstate
    refine ⟨checkpoint, _, hsaved, hloaded, ?_⟩
    rw [iter, if_pos rfl]
    exact hgenerates

end Run

def threeItems : Nat → SourceItem Unit
  | 0 => .samples [⟨some 3, none, ()⟩, ⟨none, some (.tensor 5), ()⟩]
  | 1 => .sample ⟨some 2, none, ()⟩
  | _ => .samples []

def threeItemLoader : DynamicLoader Unit Nat where
  options := ⟨.packing, 6, 1, by decide, Nat.one_pos⟩
  dpWorldSize := 1
  saveByIdx := true
  canReplay := true
  getItem := threeItems
  source := [[(threeItems 0, 0)], [(threeItems 1, 1), (threeItems 2, 2)]]

theorem conservesAndResumes_threeItemLoader : threeItemLoader.ConservesAndResumes := by
  refine conservesAndResumes ⟨?_, ?_⟩
  · rintro batch (_ | ⟨_, _ | ⟨_, ⟨⟩⟩⟩) item hitem modelSample hsample
    · obtain rfl := mem_singleton.mp hitem
      rcases hsample with _ | ⟨_, _ | ⟨_, ⟨⟩⟩⟩
      · exact ⟨3, rfl⟩
      · exact ⟨5, rfl⟩
    · rcases hitem with _ | ⟨_, _ | ⟨_, ⟨⟩⟩⟩
      · obtain rfl := mem_singleton.mp hsample
        exact ⟨2, rfl⟩
      · cases hsample
  · rintro - batch (_ | ⟨_, _ | ⟨_, ⟨⟩⟩⟩) item hitem
    · obtain rfl := mem_singleton.mp hitem
      rfl
    · rcases hitem with _ | ⟨_, _ | ⟨_, ⟨⟩⟩⟩ <;> rfl

end DynamicLoader

end HyperParallel.Data
