import HyperParallel.Pipeline.SwapPlaces

/-!
# Orders with swap steps

What a chunk has between its containers depends only on whether its load is
launched after the place where its offload is waited for.  It is unless the stage
is unsharded right after the forward and not again before the backward.
-/

namespace HyperParallel.Pipeline

open Foundation List

/-! ## The lifecycle of a chunk -/

section Lifecycles

variable {order : List Action} {chunk : ChunkKey} {fwd bwd wait load : Nat}

def stepAt (anchor : Nat) (kind : StepKind) (chunk : ChunkKey) (index : Nat) : List Action :=
  if anchor = index then [some (swapStep kind chunk)] else []

theorem stepAt_self (anchor : Nat) (kind : StepKind) :
    stepAt anchor kind chunk anchor = [some (swapStep kind chunk)] := if_pos rfl

theorem stepAt_of_ne {anchor index : Nat} (h : anchor ≠ index) (kind : StepKind) :
    stepAt anchor kind chunk index = [] := if_neg h

theorem Placed.before_filter (h : Placed order chunk fwd bwd wait load) (index : Nat) :
    (stepsByPriority (((collectSwapActions order).1.get? index).getD [])).filter
        (fun action => IsSwapOf chunk action) =
      stepAt load .swapLaunchLoad chunk index ++ stepAt bwd .swapWaitLoad chunk index := by
  rw [collectSwapActions, stepsByPriority_filter (fun _ hmem => swapEntries_isSwap (.inl hmem))
    h.before (by simp)]
  by_cases hload : load = index <;> by_cases hbwd : bwd = index <;> simp [stepAt, hload, hbwd]

theorem Placed.after_filter (h : Placed order chunk fwd bwd wait load) (index : Nat) :
    (stepsByPriority (((collectSwapActions order).2.get? index).getD [])).filter
        (fun action => IsSwapOf chunk action) =
      stepAt fwd .swapLaunchOffload chunk index ++ stepAt wait .swapWaitOffload chunk index := by
  rw [collectSwapActions, stepsByPriority_filter (fun _ hmem => swapEntries_isSwap (.inr hmem))
    h.after (by simp)]
  by_cases hfwd : fwd = index <;> by_cases hwait : wait = index <;> simp [stepAt, hfwd, hwait]

def chunkAt (chunk : ChunkKey) (fwd bwd wait load index : Nat) : List Action :=
  (stepAt load .swapLaunchLoad chunk index ++ stepAt bwd .swapWaitLoad chunk index) ++
    (stepAt fwd .swapLaunchOffload chunk index ++ stepAt wait .swapWaitOffload chunk index)

theorem Placed.blocks_filter (h : Placed order chunk fwd bwd wait load) {actions : List Action}
    (hnone : ∀ action ∈ actions, ¬IsSwapAction action) (start : Nat) :
    (blocksFrom order start actions).filter (fun action => IsSwapOf chunk action) =
      (List.range' start actions.length).flatMap (chunkAt chunk fwd bwd wait load) := by
  induction actions generalizing start with
  | nil => rfl
  | cons action actions ih =>
    have haction : ¬IsSwapOf chunk action := fun ⟨step, hstep, hkind, _⟩ =>
      hnone action mem_cons_self ⟨step, hstep, hkind⟩
    rw [blocksFrom_cons, filter_append, filter_append,
      filter_cons_of_neg (by simpa using haction), h.before_filter, h.after_filter,
      ih fun other hother => hnone other (mem_cons_of_mem _ hother), length_cons,
      List.range'_succ, flatMap_cons]
    rfl

theorem chunkAt_outside {index : Nat} (hload : load ≠ index) (hbwd : bwd ≠ index)
    (hfwd : fwd ≠ index) (hwait : wait ≠ index) : chunkAt chunk fwd bwd wait load index = [] := by
  simp [chunkAt, stepAt, hload, hbwd, hfwd, hwait]

theorem range'_split {start count place : Nat} (hle : start ≤ place) (hlt : place < start + count) :
    List.range' start count = List.range' start (place - start) ++
      place :: List.range' (place + 1) (start + count - (place + 1)) := by
  obtain ⟨before, rfl⟩ := Nat.exists_eq_add_of_le hle
  obtain ⟨after, rfl⟩ : ∃ after, count = before + (after + 1) := ⟨count - before - 1, by omega⟩
  have hafter : start + (before + (after + 1)) - (start + before + 1) = after := by omega
  rw [← List.range'_append_1, Nat.add_sub_cancel_left, List.range'_succ, hafter]

theorem chunkAt_between {start count : Nat} (hfwd : fwd < start) (hbwd : start + count = bwd)
    (hwait : start ≤ wait) (hwait' : wait < bwd) (hload : start ≤ load) :
    (List.range' start count).flatMap (chunkAt chunk fwd bwd wait load) =
      if load ≤ wait then
        [some (swapStep .swapLaunchLoad chunk), some (swapStep .swapWaitOffload chunk)]
      else if load < bwd then
        [some (swapStep .swapWaitOffload chunk), some (swapStep .swapLaunchLoad chunk)]
      else [some (swapStep .swapWaitOffload chunk)] := by
  have hat : ∀ index, start ≤ index → index < bwd → chunkAt chunk fwd bwd wait load index =
      stepAt load .swapLaunchLoad chunk index ++ stepAt wait .swapWaitOffload chunk index := by
    intro index hle hlt
    rw [chunkAt, stepAt_of_ne (by omega : bwd ≠ index), stepAt_of_ne (by omega : fwd ≠ index)]
    simp
  have hnone : ∀ place count, start ≤ place → place + count ≤ bwd →
      (∀ index, place ≤ index → index < place + count → load ≠ index ∧ wait ≠ index) →
        (List.range' place count).flatMap (chunkAt chunk fwd bwd wait load) = [] := by
    intro place count hle hlt hne
    rw [flatMap_eq_nil_iff]
    intro index hindex
    rw [mem_range'_1] at hindex
    obtain ⟨hnotLoad, hnotWait⟩ := hne index hindex.1 hindex.2
    exact chunkAt_outside hnotLoad (by omega) (by omega) hnotWait
  rcases Nat.lt_trichotomy load wait with hless | rfl | hgreater
  · rw [if_pos hless.le, range'_split hload (by omega), flatMap_append, flatMap_cons,
      range'_split (by omega : load + 1 ≤ wait) (by omega), flatMap_append,
      flatMap_cons, hat load hload (by omega), hat wait hwait hwait', stepAt_self,
      stepAt_self, stepAt_of_ne hless.ne, stepAt_of_ne hless.ne',
      hnone _ _ le_rfl (by omega) fun index h h' => by omega,
      hnone _ _ (by omega) (by omega) fun index h h' => by omega,
      hnone _ _ (by omega) (by omega) fun index h h' => by omega]
    rfl
  · rw [if_pos le_rfl, range'_split hload (by omega), flatMap_append, flatMap_cons,
      hat load hload hwait', stepAt_self, stepAt_self,
      hnone _ _ le_rfl (by omega) fun index h h' => by omega,
      hnone _ _ (by omega) (by omega) fun index h h' => by omega]
    rfl
  · rw [if_neg (by omega), range'_split hwait (by omega), flatMap_append, flatMap_cons,
      hat wait hwait hwait', stepAt_self, stepAt_of_ne hgreater.ne',
      hnone _ _ le_rfl (by omega) fun index h h' => by omega]
    by_cases hin : load < bwd
    · rw [if_pos hin, range'_split (by omega : wait + 1 ≤ load) (by omega), flatMap_append,
        flatMap_cons, hat load hload hin, stepAt_self, stepAt_of_ne hgreater.ne,
        hnone _ _ (by omega) (by omega) fun index h h' => by omega,
        hnone _ _ (by omega) (by omega) fun index h h' => by omega]
      rfl
    · rw [if_neg hin, hnone _ _ (by omega) (by omega) fun index h h' => by omega]
      rfl

theorem order_split {fwdAction bwdAction : Action} (hlt : fwd < bwd)
    (hfwd : order[fwd]? = some fwdAction) (hbwd : order[bwd]? = some bwdAction) :
    order = order.take fwd ++ fwdAction :: ((order.take bwd).drop (fwd + 1) ++
      bwdAction :: order.drop (bwd + 1)) := by
  obtain ⟨hlength, rfl⟩ := List.getElem?_eq_some_iff.mp hfwd
  obtain ⟨hlength', rfl⟩ := List.getElem?_eq_some_iff.mp hbwd
  have hrest : order.drop (fwd + 1) = (order.take bwd).drop (fwd + 1) ++ order.drop bwd := by
    conv_lhs => rw [← take_append_drop bwd order]
    rw [drop_append_of_le_length (by rw [length_take]; omega)]
  conv_lhs => rw [← take_append_drop fwd order]
  rw [drop_eq_getElem_cons hlength, hrest, drop_eq_getElem_cons hlength']

theorem inject_split {fwdAction bwdAction : Action} (hlt : fwd < bwd)
    (hfwd : order[fwd]? = some fwdAction) (hbwd : order[bwd]? = some bwdAction) :
    injectPipelineSwapSteps order =
      (blocksFrom order 0 (order.take fwd) ++
        stepsByPriority (((collectSwapActions order).1.get? fwd).getD [])) ++ fwdAction ::
      (stepsByPriority (((collectSwapActions order).2.get? fwd).getD []) ++
        blocksFrom order (fwd + 1) ((order.take bwd).drop (fwd + 1)) ++
        stepsByPriority (((collectSwapActions order).1.get? bwd).getD [])) ++ bwdAction ::
      (stepsByPriority (((collectSwapActions order).2.get? bwd).getD []) ++
        blocksFrom order (bwd + 1) (order.drop (bwd + 1))) := by
  have hlength := (List.getElem?_eq_some_iff.mp hbwd).1
  have htake : 0 + (order.take fwd).length = fwd := by rw [length_take]; omega
  have hmid : fwd + 1 + ((order.take bwd).drop (fwd + 1)).length = bwd := by
    rw [length_drop, length_take]
    omega
  rw [injectPipelineSwapSteps_eq]
  conv_lhs =>
    arg 3
    rw [order_split hlt hfwd hbwd]
  rw [blocksFrom_append, blocksFrom_cons, blocksFrom_append, blocksFrom_cons, htake, hmid]
  simp only [append_assoc, cons_append]

theorem lifecycle_iff (hnone : ∀ action ∈ order, ¬IsSwapAction action)
    (hbwd : bwd < order.length) (h : Placed order chunk fwd bwd wait load) :
    Lifecycle order (injectPipelineSwapSteps order) chunk fwd bwd ↔ wait < load := by
  have hlt : fwd < bwd := h.fwd_lt_wait.trans h.wait_lt
  have hfwdWait := h.fwd_lt_wait
  have hwaitBwd := h.wait_lt
  have hfwdLoad := h.fwd_lt_load
  have hloadBwd := h.load_le
  have hfwdGet := getElem?_eq_getElem (hlt.trans hbwd)
  have hbwdGet := getElem?_eq_getElem hbwd
  have hresult := inject_split hlt hfwdGet hbwdGet
  have hbefore : (blocksFrom order 0 (order.take fwd) ++
      stepsByPriority (((collectSwapActions order).1.get? fwd).getD [])).filter
        (fun action => IsSwapOf chunk action) = [] := by
    rw [filter_append, h.blocks_filter fun action haction =>
      hnone action (mem_of_mem_take haction), h.before_filter,
      stepAt_of_ne (by omega : load ≠ fwd), stepAt_of_ne (by omega : bwd ≠ fwd),
      append_nil, append_nil, flatMap_eq_nil_iff]
    intro index hindex
    rw [mem_range'_1, length_take] at hindex
    exact chunkAt_outside (by omega) (by omega) (by omega) (by omega)
  have hafter : (stepsByPriority (((collectSwapActions order).2.get? bwd).getD []) ++
      blocksFrom order (bwd + 1) (order.drop (bwd + 1))).filter
        (fun action => IsSwapOf chunk action) = [] := by
    rw [filter_append, h.blocks_filter fun action haction =>
      hnone action (mem_of_mem_drop haction), h.after_filter,
      stepAt_of_ne (by omega : fwd ≠ bwd), stepAt_of_ne (by omega : wait ≠ bwd),
      nil_append, nil_append, flatMap_eq_nil_iff]
    intro index hindex
    rw [mem_range'_1] at hindex
    exact chunkAt_outside (by omega) (by omega) (by omega) (by omega)
  have hbetween : (stepsByPriority (((collectSwapActions order).2.get? fwd).getD []) ++
      blocksFrom order (fwd + 1) ((order.take bwd).drop (fwd + 1)) ++
      stepsByPriority (((collectSwapActions order).1.get? bwd).getD [])).filter
        (fun action => IsSwapOf chunk action) =
      if wait < load then
        [some (swapStep .swapLaunchOffload chunk), some (swapStep .swapWaitOffload chunk),
          some (swapStep .swapLaunchLoad chunk), some (swapStep .swapWaitLoad chunk)]
      else
        [some (swapStep .swapLaunchOffload chunk), some (swapStep .swapLaunchLoad chunk),
          some (swapStep .swapWaitOffload chunk), some (swapStep .swapWaitLoad chunk)] := by
    have hlength : ((order.take bwd).drop (fwd + 1)).length = bwd - (fwd + 1) := by
      rw [length_drop, length_take]
      omega
    rw [filter_append, filter_append, h.after_filter, h.before_filter,
      h.blocks_filter fun action haction =>
        hnone action (mem_of_mem_take (mem_of_mem_drop haction)), hlength,
      chunkAt_between (by omega) (by omega) (by omega) hwaitBwd (by omega), stepAt_self,
      stepAt_self, stepAt_of_ne (by omega : wait ≠ fwd)]
    by_cases horder : wait < load
    · rw [if_pos horder, if_neg (by omega)]
      by_cases hend : load = bwd
      · rw [if_neg (by omega), hend, stepAt_self]
        rfl
      · rw [if_pos (by omega), stepAt_of_ne hend]
        rfl
    · rw [if_neg horder, if_pos (by omega), stepAt_of_ne (by omega : load ≠ bwd)]
      rfl
  have hcontainer : ∀ {index : Nat} {action : Action}, order[index]? = some action →
      ¬IsSwapOf chunk action := fun hget ⟨step, hstep, hkind, _⟩ =>
    hnone _ (mem_of_getElem? hget) ⟨step, hstep, hkind⟩
  have hparts : ∀ {before between after : List Action} {fwdAction bwdAction : Action},
      ¬IsSwapOf chunk fwdAction → ¬IsSwapOf chunk bwdAction →
        (before ++ fwdAction :: between ++ bwdAction :: after).filter
            (fun action => IsSwapOf chunk action) =
          before.filter (fun action => IsSwapOf chunk action) ++
            between.filter (fun action => IsSwapOf chunk action) ++
              after.filter fun action => IsSwapOf chunk action := by
    intro before between after fwdAction bwdAction hfwd hbwd
    simp [filter_append, hfwd, hbwd]
  constructor
  · rintro ⟨before, fwdAction, between, bwdAction, after, heq, hfwd', hbwd', -, -, hnoneBefore,
      hfour, hnoneAfter⟩
    by_contra horder
    have hall := congrArg (List.filter fun action => IsSwapOf chunk action) (hresult.symm.trans heq)
    rw [hparts (hcontainer hfwdGet) (hcontainer hbwdGet), hparts (hcontainer hfwd')
      (hcontainer hbwd'), hbefore, hbetween, hafter, hnoneBefore, hfour, hnoneAfter,
      if_neg horder] at hall
    simp [swapStep, OrderStep.leaf] at hall
  · intro horder
    refine ⟨_, _, _, _, _, hresult, hfwdGet, hbwdGet, ?_, ?_, hbefore, ?_, hafter⟩
    · rw [filter_append, (filter_steps fwd).1, blocksFrom_erased fun action haction =>
        hnone action (mem_of_mem_take haction), append_nil]
    · rw [filter_append, filter_append, (filter_steps fwd).2, (filter_steps bwd).1,
        blocksFrom_erased fun action haction =>
          hnone action (mem_of_mem_take (mem_of_mem_drop haction)),
        append_nil, nil_append]
    · rw [hbetween, if_pos horder]

end Lifecycles

/-- For every order without swap steps, the injected steps keep the lifecycles of the managed
chunks exactly when no stage is unsharded too early for its load. -/
theorem injectPipelineSwapSteps_keepsLifecycles_iff {order : List Action}
    (hnone : ∀ action ∈ order, ¬IsSwapAction action) :
    KeepsLifecycles order (injectPipelineSwapSteps order) ↔ UnshardsLate order := by
  have hlength : ∀ {chunk fwd bwd}, Managed order chunk fwd bwd → bwd < order.length := by
    intro chunk fwd bwd h
    by_contra hout
    obtain ⟨⟨step, hstep, -⟩, -⟩ := h.backward
    rw [getElem?_eq_none (Nat.le_of_not_lt hout)] at hstep
    cases hstep
  constructor
  · intro hkeeps chunk fwd bwd hmanaged unshard hfwd hbwd hthere hlast
    obtain ⟨wait, load, hplaced⟩ := managed_placed hmanaged
    have horder := (lifecycle_iff hnone (hlength hmanaged) hplaced).mp
      (hkeeps.lifecycle chunk fwd bwd hmanaged)
    by_contra hnoCompute
    push Not at hnoCompute
    have hearly := hplaced.early_iff.mpr ⟨unshard, ⟨hfwd, hbwd, hthere, hlast⟩,
      fun index hindex hindex' hcompute => hcompute (hnoCompute index hindex hindex')⟩
    omega
  · intro hlate
    refine ⟨blocksFrom_erased hnone 0, fun chunk fwd bwd hmanaged => ?_⟩
    obtain ⟨wait, load, hplaced⟩ := managed_placed hmanaged
    refine (lifecycle_iff hnone (hlength hmanaged) hplaced).mpr ?_
    by_contra hnot
    obtain ⟨unshard, ⟨hfwd, hbwd, hthere, hlast⟩, hnoCompute⟩ :=
      hplaced.early_iff.mp (Nat.le_of_not_lt hnot)
    obtain ⟨index, hindex, hindex', hcompute⟩ :=
      hlate chunk fwd bwd hmanaged unshard hfwd hbwd hthere hlast
    exact hnoCompute index hindex hindex' hcompute

def fourMicros (parameterSteps : List Action) : List Action :=
  [some (.leaf none .fsdpUnshard (some 0)), some (.leaf (some 0) (.base .fwd) (some 0))] ++
    parameterSteps ++
      [some (.leaf (some 1) (.base .fwd) (some 0)), some (.leaf (some 2) (.base .fwd) (some 0)),
        some (.leaf (some 3) (.base .fwd) (some 0)), some (.leaf (some 0) (.base .bwd) (some 0)),
        some (.leaf (some 1) (.base .bwd) (some 0)), some (.leaf (some 2) (.base .bwd) (some 0)),
        some (.leaf (some 3) (.base .bwd) (some 0)), some (.leaf none .fsdpReshard (some 0))]

theorem fourMicros_keepsLifecycles :
    KeepsLifecycles (fourMicros []) (injectPipelineSwapSteps (fourMicros [])) ↔
      UnshardsLate (fourMicros []) :=
  injectPipelineSwapSteps_keepsLifecycles_iff (by decide)

def reunsharded : List Action :=
  fourMicros [some (.leaf none .fsdpReshard (some 0)), some (.leaf none .fsdpUnshard (some 0))]

theorem reunsharded_managed : Managed reunsharded (some 0, some 0) 1 7 := by
  have hbeyond : ∀ later, 12 ≤ later → iterComputeLeafSteps reunsharded[later]?.join = [] := by
    intro later hlater
    rw [getElem?_eq_none (show reunsharded.length ≤ later from hlater)]
    rfl
  have hlast : ∀ {selects : StepKind → Prop} [DecidablePred selects] {index : Nat},
      (∃ leaf ∈ iterComputeLeafSteps reunsharded[index]?.join,
        selects leaf.kind ∧ leaf.chunk = (some 0, some 0)) →
      (∀ later < 12, index < later → ¬∃ leaf ∈ iterComputeLeafSteps reunsharded[later]?.join,
        selects leaf.kind ∧ leaf.chunk = (some 0, some 0)) →
      LastContainer selects reunsharded (some 0, some 0) index := by
    intro selects _ index hthere hlater
    refine ⟨hthere, fun later hindex => ?_⟩
    rcases Nat.lt_or_ge later 12 with hlt | hge
    · exact hlater later hlt hindex
    · rw [hbeyond later hge]
      simp
  exact ⟨hlast (by decide) (by decide), hlast (by decide) (by decide), by decide⟩

/-- The load of the chunk is launched before its offload is waited for. -/
theorem reunsharded_loadsEarly :
    (∀ action ∈ reunsharded, ¬IsSwapAction action) ∧
      ¬KeepsLifecycles reunsharded (injectPipelineSwapSteps reunsharded) := by
  refine ⟨by decide, fun h => ?_⟩
  obtain ⟨wait, load, hplaced⟩ := managed_placed reunsharded_managed
  have horder := (lifecycle_iff (by decide) (by decide) hplaced).mp
    (h.lifecycle _ _ _ reunsharded_managed)
  have hnext : ∀ later < 7, 3 < later → ¬IsUnshardOf (some 0) reunsharded[later]?.join := by decide
  have hunshard : LastUnshard reunsharded (some 0) 1 7 3 :=
    ⟨by decide, by decide, by decide, fun later hlater hbwd => hnext later hbwd hlater⟩
  have hearly := hplaced.early_iff.mpr ⟨3, hunshard, fun index hfwd hindex => by
    obtain rfl : index = 2 := by omega
    exact fun hcompute => hcompute rfl⟩
  omega

end HyperParallel.Pipeline
