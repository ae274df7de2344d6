import HyperParallel.Pipeline.SwapAnchors

/-!
# What swap injection puts at a place

Each chunk asks for its four steps at its own anchors, and of what all chunks ask
for at a place, the steps of one chunk come out in the order of their priority.
-/

namespace HyperParallel.Pipeline

open Foundation List

/-! ## Steps of one chunk -/

section Entries

variable {order : List Action} {chunk : ChunkKey}

@[simp] theorem swapStep_chunk (kind : StepKind) (chunk : ChunkKey) :
    (swapStep kind chunk).chunk = chunk := rfl

@[simp] theorem swapStep_kind (kind : StepKind) (chunk : ChunkKey) :
    (swapStep kind chunk).kind = kind := rfl

theorem flatMap_filterMap_getD {α β γ : Type*} (items : List α) (f : α → Option β)
    (g : β → List γ) :
    (items.filterMap f).flatMap g = items.flatMap fun item => ((f item).map g).getD [] := by
  induction items with
  | nil => rfl
  | cons item items ih => cases hf : f item <;> simp [hf, ih]

variable {steps : List SwapEntry × List SwapEntry} {entry : ChunkKey × ComputeLeaf}

theorem filter_flatMap_entry {entries : List (ChunkKey × ComputeLeaf)}
    (hnodup : (entries.map Prod.fst).Nodup) (hmem : entry ∈ entries)
    (g : ChunkKey × ComputeLeaf → List SwapEntry)
    (hg : ∀ other ∈ entries, ∀ step ∈ g other, step.2.2.chunk = other.1) :
    (entries.flatMap g).filter (fun step => step.2.2.chunk = entry.1) = g entry := by
  obtain ⟨front, back, rfl⟩ := append_of_mem hmem
  rw [map_append, map_cons] at hnodup
  have hnot := (nodup_cons.mp (nodup_middle.mp hnodup)).1
  rw [mem_append, not_or] at hnot
  have hother : ∀ others : List (ChunkKey × ComputeLeaf), entry.1 ∉ others.map Prod.fst →
      (∀ other ∈ others, ∀ step ∈ g other, step.2.2.chunk = other.1) →
        (others.flatMap g).filter (fun step => step.2.2.chunk = entry.1) = [] := by
    intro others hkey hothers
    refine filter_eq_nil_iff.mpr fun step hstep => ?_
    obtain ⟨other, hmem, hstep⟩ := mem_flatMap.mp hstep
    rw [decide_eq_true_eq, hothers other hmem step hstep]
    rintro heq
    exact hkey (heq ▸ mem_map_of_mem hmem)
  have hself : (g entry).filter (fun step => step.2.2.chunk = entry.1) = g entry :=
    filter_eq_self.mpr fun step hstep => by
      simpa using hg entry hmem step hstep
  rw [flatMap_append, flatMap_cons, filter_append, filter_append, hself,
    hother front hnot.1 fun other hin => hg other (mem_append_left _ hin),
    hother back hnot.2 fun other hin =>
      hg other (mem_append_right _ (mem_cons_of_mem _ hin))]
  simp

theorem chunkSwapActions_steps {fwdLeaf bwdLeaf : ComputeLeaf} {containers : List Nat}
    (h : chunkSwapActions order fwdLeaf bwdLeaf containers = some steps) :
    ∀ step ∈ steps.1 ++ steps.2, step.2.2.kind.IsSwap ∧ step.2.2.chunk = fwdLeaf.step.chunk := by
  rw [chunkSwapActions] at h
  split at h
  · cases h
  · dsimp only at h
    split at h
    · cases h
    · cases h
      simp [StepKind.IsSwap]

def entryActions (order : List Action) (entry : ChunkKey × ComputeLeaf) :
    Option (List SwapEntry × List SwapEntry) :=
  ((bwdIndex order).get? entry.1).bind fun bwdLeaf =>
    chunkSwapActions order entry.2 bwdLeaf (collectComputeLeaves order).2

theorem entryActions_steps (hentry : entry ∈ (fwdIndex order).entries)
    (h : entryActions order entry = some steps) :
    ∀ step ∈ steps.1 ++ steps.2, step.2.2.kind.IsSwap ∧ step.2.2.chunk = entry.1 := by
  obtain ⟨bwdLeaf, -, hsteps⟩ := Option.bind_eq_some_iff.mp h
  have hchunk := (indexLeaves_spec ((fwdIndex order).mem_entries_iff.mp hentry)).2.1
  rw [← hchunk]
  exact chunkSwapActions_steps hsteps

theorem swapEntries_eq (order : List Action) :
    swapEntries order = (fwdIndex order).entries.filterMap (entryActions order) := rfl

theorem swapEntries_isSwap {step : SwapEntry}
    (h : step ∈ (swapEntries order).flatMap Prod.fst ∨
      step ∈ (swapEntries order).flatMap Prod.snd) : step.2.2.kind.IsSwap := by
  have hone : ∀ {steps : List SwapEntry × List SwapEntry}, steps ∈ swapEntries order →
      step ∈ steps.1 ++ steps.2 → step.2.2.kind.IsSwap := by
    intro steps hsteps hstep
    rw [swapEntries_eq] at hsteps
    obtain ⟨entry, hentry, hactions⟩ := mem_filterMap.mp hsteps
    exact (entryActions_steps hentry hactions step hstep).1
  rcases h with h | h
  · obtain ⟨steps, hsteps, hstep⟩ := mem_flatMap.mp h
    exact hone hsteps (mem_append_left _ hstep)
  · obtain ⟨steps, hsteps, hstep⟩ := mem_flatMap.mp h
    exact hone hsteps (mem_append_right _ hstep)

theorem swapEntries_filter (hentry : entry ∈ (fwdIndex order).entries)
    (hsteps : entryActions order entry = some steps) :
    ((swapEntries order).flatMap Prod.fst).filter (fun step => step.2.2.chunk = entry.1) =
        steps.1 ∧
      ((swapEntries order).flatMap Prod.snd).filter (fun step => step.2.2.chunk = entry.1) =
        steps.2 := by
  have hall : ∀ other ∈ (fwdIndex order).entries, ∀ {found},
      entryActions order other = some found → ∀ step ∈ found.1 ++ found.2,
        step.2.2.chunk = other.1 := fun other hother _ hfound step hstep =>
    (entryActions_steps hother hfound step hstep).2
  have hnodup := (fwdIndex order).nodup
  rw [swapEntries_eq, flatMap_filterMap_getD, flatMap_filterMap_getD,
    filter_flatMap_entry hnodup hentry, filter_flatMap_entry hnodup hentry, hsteps]
  · exact ⟨rfl, rfl⟩
  · intro other hother step hstep
    cases hfound : entryActions order other with
    | none => simp [hfound] at hstep
    | some found =>
      rw [hfound] at hstep
      exact hall other hother hfound step (mem_append_right _ hstep)
  · intro other hother step hstep
    cases hfound : entryActions order other with
    | none => simp [hfound] at hstep
    | some found =>
      rw [hfound] at hstep
      exact hall other hother hfound step (mem_append_left _ hstep)

end Entries

/-! ## Anchors of a managed chunk -/

section Anchors

variable {order : List Action} {chunk : ChunkKey} {fwd bwd : Nat}

theorem iterComputeLeafSteps_of_comm {action : Action} (h : IsCommAction action) :
    iterComputeLeafSteps action = [] := by
  obtain ⟨step, rfl, hkind⟩ := h
  rcases hkind with hkind | hkind | hkind | hkind | hkind <;>
    simp [iterComputeLeafSteps, hkind, StepKind.IsCompute, StepKind.IsOverlap]

theorem not_comm_of_unshard {stage : Option Nat} {action : Action}
    (h : IsUnshardOf stage action) : ¬IsCommAction action := by
  obtain ⟨step, rfl, hkind, -⟩ := h
  rintro ⟨step', hstep', hcomm⟩
  cases hstep'
  simp [StepKind.IsComm, hkind] at hcomm

theorem lastUnshard_unique {stage : Option Nat} {unshard unshard' : Nat}
    (h : LastUnshard order stage fwd bwd unshard)
    (h' : LastUnshard order stage fwd bwd unshard') : unshard = unshard' := by
  obtain ⟨-, hlt, hthere, hlast⟩ := h
  obtain ⟨-, hlt', hthere', hlast'⟩ := h'
  rcases Nat.lt_trichotomy unshard unshard' with hless | heq | hgreater
  · exact absurd hthere' (hlast unshard' hless hlt')
  · exact heq
  · exact absurd hthere (hlast' unshard hgreater hlt)

structure Placed (order : List Action) (chunk : ChunkKey) (fwd bwd wait load : Nat) : Prop where
  fwd_lt_wait : fwd < wait
  wait_lt : wait < bwd
  fwd_lt_load : fwd < load
  load_le : load ≤ bwd
  early_iff : load ≤ wait ↔ ∃ unshard, LastUnshard order chunk.1 fwd bwd unshard ∧
    ∀ index, fwd < index → index < unshard → ¬HasCompute order index
  before : ((swapEntries order).flatMap Prod.fst).filter (fun step => step.2.2.chunk = chunk) =
    [(load, (20, swapStep .swapLaunchLoad chunk)), (bwd, (10, swapStep .swapWaitLoad chunk))]
  after : ((swapEntries order).flatMap Prod.snd).filter (fun step => step.2.2.chunk = chunk) =
    [(fwd, (20, swapStep .swapLaunchOffload chunk)), (wait, (10, swapStep .swapWaitOffload chunk))]

theorem entryActions_of_middle {fwdLeaf bwdLeaf : ComputeLeaf} {first : Nat}
    (hchunk : fwdLeaf.step.chunk = chunk) (hget : (bwdIndex order).get? chunk = some bwdLeaf)
    (hgap : fwdLeaf.computeIndex + minSwapGap ≤ bwdLeaf.computeIndex)
    (hhead : ((List.range' (fwdLeaf.computeIndex + 1)
      (bwdLeaf.computeIndex - (fwdLeaf.computeIndex + 1))).filterMap fun index =>
        (collectComputeLeaves order).2[index]?).head? = some first) :
    entryActions order (chunk, fwdLeaf) = some
      ([(loadLaunchAnchor order fwdLeaf bwdLeaf ((List.range' (fwdLeaf.computeIndex + 1)
          (bwdLeaf.computeIndex - (fwdLeaf.computeIndex + 1))).filterMap fun index =>
            (collectComputeLeaves order).2[index]?), (20, swapStep .swapLaunchLoad chunk)),
        (bwdLeaf.containerIndex, (10, swapStep .swapWaitLoad chunk))],
      [(fwdLeaf.containerIndex, (20, swapStep .swapLaunchOffload chunk)),
        (postComputeAnchor order first, (10, swapStep .swapWaitOffload chunk))]) := by
  rw [entryActions, hget, Option.bind_some, chunkSwapActions, if_neg (Nat.not_lt.mpr hgap), hchunk]
  obtain ⟨tail, htail⟩ := head?_eq_some_iff.mp hhead
  dsimp only
  rw [htail]

theorem managed_placed (h : Managed order chunk fwd bwd) :
    ∃ wait load, Placed order chunk fwd bwd wait load := by
  obtain ⟨fwdLeaf, hfwdGet, rfl⟩ := indexLeaves_exists h.forward
  obtain ⟨bwdLeaf, hbwdGet, rfl⟩ := indexLeaves_exists h.backward
  obtain ⟨-, hfwdChunk, hfwdCompute⟩ := indexLeaves_spec hfwdGet
  obtain ⟨-, hbwdChunk, hbwdCompute⟩ := indexLeaves_spec hbwdGet
  have hgap := (managed_gap_iff h.forward h.backward).mp h
  obtain ⟨first, second, last, hmiddle⟩ := managed_middle
    (hasCompute_of_lastContainer h.forward) (hasCompute_of_lastContainer h.backward) hgap
  rw [← hfwdCompute, ← hbwdCompute] at hmiddle hgap
  have hstage : bwdLeaf.step.stageIndex = chunk.1 := congrArg Prod.fst hbwdChunk
  obtain ⟨hfirstWait, hwaitBlock⟩ := postComputeAnchor_bounds order first
  have hcomm := commBlockAnchor_spec order first
  have hwaitSecond : postComputeAnchor order first < second := by
    by_contra hle
    exact hmiddle.secondComputes (iterComputeLeafSteps_of_comm
      (hcomm second hmiddle.first_lt (by omega)))
  have hentry : (chunk, fwdLeaf) ∈ (fwdIndex order).entries :=
    (fwdIndex order).mem_entries_iff.mpr hfwdGet
  have hactions := entryActions_of_middle hfwdChunk hbwdGet hgap hmiddle.head
  have hlt := hmiddle.fwd_lt
  have hle := hmiddle.second_le
  have hlast := hmiddle.last_lt
  refine ⟨postComputeAnchor order first, loadLaunchAnchor order fwdLeaf bwdLeaf
    ((List.range' (fwdLeaf.computeIndex + 1)
      (bwdLeaf.computeIndex - (fwdLeaf.computeIndex + 1))).filterMap fun index =>
        (collectComputeLeaves order).2[index]?), by omega, by omega, ?_, ?_, ?_, ?_, ?_⟩
  · rcases loadLaunchAnchor_cases hmiddle with hunshard | ⟨-, heq | heq⟩
    · exact hunshard.1
    · omega
    · omega
  · rcases loadLaunchAnchor_cases hmiddle with hunshard | ⟨-, heq | heq⟩
    · exact hunshard.2.1.le
    · omega
    · omega
  · rcases loadLaunchAnchor_cases hmiddle with hunshard | ⟨hnone, heq | heq⟩
    · rw [hstage] at hunshard
      constructor
      · intro hearly
        refine ⟨_, hunshard, fun index hindex hindex' => hmiddle.next index hindex ?_⟩
        by_contra hfirst
        -- an unshard is no transfer
        exact not_comm_of_unshard hunshard.2.2.1 (hcomm _ (by omega) (by omega))
      · rintro ⟨unshard, hunshard', hnone⟩
        rw [lastUnshard_unique hunshard hunshard']
        by_contra hlate
        exact hnone first hlt (by omega) hmiddle.firstComputes
    · rw [hstage] at hnone
      exact ⟨fun hearly => by omega, fun ⟨unshard, hunshard, _⟩ =>
        absurd ⟨unshard, hunshard⟩ hnone⟩
    · rw [hstage] at hnone
      exact ⟨fun hearly => by omega, fun ⟨unshard, hunshard, _⟩ =>
        absurd ⟨unshard, hunshard⟩ hnone⟩
  · exact (swapEntries_filter hentry hactions).1
  · exact (swapEntries_filter hentry hactions).2

end Anchors

/-! ## What is put in at a place -/

section Places

variable {order : List Action} {chunk : ChunkKey}

theorem filter_mergeSort (prioritySteps : List (Nat × OrderStep)) (p : Nat × OrderStep → Bool)
    (hsorted : (prioritySteps.filter p).Pairwise fun left right => right.1 ≤ left.1) :
    (prioritySteps.mergeSort fun left right => right.1 ≤ left.1).filter p =
      prioritySteps.filter p := by
  have hsub := @sublist_mergeSort _ (fun left right : Nat × OrderStep =>
      decide (right.1 ≤ left.1)) _
    (fun a b c hab hbc => by simp at hab hbc ⊢; omega) (fun a b => by simp; omega) _
    (hsorted.imp (by simp)) filter_sublist
  have hfilter := hsub.filter p
  rw [filter_filter] at hfilter
  simp only [Bool.and_self] at hfilter
  refine (hfilter.eq_of_length ?_).symm
  exact ((mergeSort_perm _ _).filter p).length_eq.symm

theorem group_getD (pairs : List SwapEntry) (index : Nat) :
    ((PyDict.group pairs).get? index).getD [] =
      (pairs.filter fun pair => pair.1 = index).map Prod.snd := by
  rw [PyDict.get?_group]
  split
  · rename_i hnone
    simp [hnone]
  · rfl

theorem stepsByPriority_isSwap {pairs : List SwapEntry} (hswap : ∀ pair ∈ pairs,
    pair.2.2.kind.IsSwap) {index : Nat} {action : Action}
    (h : action ∈ stepsByPriority (((PyDict.group pairs).get? index).getD [])) :
    IsSwapAction action := by
  rw [stepsByPriority, group_getD] at h
  obtain ⟨entry, hentry, rfl⟩ := mem_map.mp h
  rw [(mergeSort_perm _ _).mem_iff] at hentry
  obtain ⟨pair, hpair, rfl⟩ := mem_map.mp hentry
  exact ⟨_, rfl, hswap pair (mem_of_mem_filter hpair)⟩

theorem stepsByPriority_filter {pairs own : List SwapEntry}
    (hswap : ∀ pair ∈ pairs, pair.2.2.kind.IsSwap)
    (hown : pairs.filter (fun pair => pair.2.2.chunk = chunk) = own)
    (hsorted : own.Pairwise fun left right => right.2.1 ≤ left.2.1) (index : Nat) :
    (stepsByPriority (((PyDict.group pairs).get? index).getD [])).filter
        (fun action => IsSwapOf chunk action) =
      (own.filter fun pair => pair.1 = index).map fun pair => some pair.2.2 := by
  have hin : ((pairs.filter fun pair => pair.1 = index).map Prod.snd).filter
      (fun entry => IsSwapOf chunk (some entry.2)) =
        (own.filter fun pair => pair.1 = index).map Prod.snd := by
    rw [filter_map, ← hown, filter_filter, filter_filter]
    refine congrArg _ (filter_congr fun pair hpair => ?_)
    have hpairSwap := hswap pair hpair
    have hiff : IsSwapOf chunk (some pair.2.2) ↔ pair.2.2.chunk = chunk :=
      ⟨fun ⟨_, hstep, _, hchunk⟩ => Option.some.inj hstep ▸ hchunk,
        fun hchunk => ⟨_, rfl, hpairSwap, hchunk⟩⟩
    simp [hiff, Bool.and_comm]
  rw [stepsByPriority, group_getD, filter_map]
  have hsort := filter_mergeSort ((pairs.filter fun pair => pair.1 = index).map Prod.snd)
    (fun entry => IsSwapOf chunk (some entry.2)) (by
      rw [hin]
      exact pairwise_map.mpr (hsorted.filter _))
  have hcomp : ((fun action => decide (IsSwapOf chunk action)) ∘ fun entry : Nat × OrderStep =>
      some entry.2) = fun entry => decide (IsSwapOf chunk (some entry.2)) := rfl
  rw [hcomp, hsort, hin, map_map]
  rfl

def blocksFrom (order : List Action) (start : Nat) (actions : List Action) : List Action :=
  (actions.zipIdx start).flatMap fun (action, index) =>
    stepsByPriority (((collectSwapActions order).1.get? index).getD []) ++
      action :: stepsByPriority (((collectSwapActions order).2.get? index).getD [])

theorem injectPipelineSwapSteps_eq (order : List Action) :
    injectPipelineSwapSteps order = blocksFrom order 0 order := rfl

theorem blocksFrom_append (start : Nat) (front back : List Action) :
    blocksFrom order start (front ++ back) =
      blocksFrom order start front ++ blocksFrom order (start + front.length) back := by
  rw [blocksFrom, zipIdx_append, flatMap_append]
  rfl

theorem blocksFrom_cons (start : Nat) (action : Action) (actions : List Action) :
    blocksFrom order start (action :: actions) =
      stepsByPriority (((collectSwapActions order).1.get? start).getD []) ++
        action :: stepsByPriority (((collectSwapActions order).2.get? start).getD []) ++
          blocksFrom order (start + 1) actions := by
  rw [blocksFrom, zipIdx_cons, flatMap_cons]
  rfl

theorem filter_steps (index : Nat) :
    (stepsByPriority (((collectSwapActions order).1.get? index).getD [])).filter
        (fun action => ¬IsSwapAction action) = [] ∧
      (stepsByPriority (((collectSwapActions order).2.get? index).getD [])).filter
        (fun action => ¬IsSwapAction action) = [] := by
  constructor
  · refine filter_eq_nil_iff.mpr fun action haction => ?_
    simpa using stepsByPriority_isSwap (fun _ h => swapEntries_isSwap (.inl h)) haction
  · refine filter_eq_nil_iff.mpr fun action haction => ?_
    simpa using stepsByPriority_isSwap (fun _ h => swapEntries_isSwap (.inr h)) haction

theorem blocksFrom_erased {actions : List Action} (hnone : ∀ action ∈ actions,
    ¬IsSwapAction action) (start : Nat) :
    (blocksFrom order start actions).filter (fun action => ¬IsSwapAction action) = actions := by
  induction actions generalizing start with
  | nil => rfl
  | cons action actions ih =>
    rw [blocksFrom_cons, filter_append, filter_append, (filter_steps start).1,
      filter_cons_of_pos (by simpa using hnone action mem_cons_self),
      (filter_steps start).2, ih fun other hother => hnone other (mem_cons_of_mem _ hother)]
    rfl

end Places

end HyperParallel.Pipeline
