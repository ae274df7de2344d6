import HyperParallel.Pipeline.StepTree

/-!
# Parameter steps of an order

Before each action, the stages of the next compute steps are unsharded, up to a
number, and the others are resharded.  After an action with the backward of the
last micro-batch of a stage, the gradients of the stage are reduced.
-/

namespace HyperParallel.Pipeline

open List

def fsdpStep (kind : StepKind) (stage : Nat) : Action := some (.leaf none kind (some stage))

/-! ## Unsharding ahead -/

section Unshard

variable (managed : List Nat) (maxActiveStages : Nat)

def computedStage (leaf : OrderStep) : Option Nat :=
  if leaf.kind.IsCompute then leaf.stageIndex.filter (· ∈ managed) else none

def nextActiveFrom (stages : List Nat) : List OrderStep → List Nat
  | [] => stages
  | leaf :: leaves =>
    match computedStage managed leaf with
    | none => nextActiveFrom stages leaves
    | some stage =>
      if stage ∈ stages then nextActiveFrom stages leaves
      else if (stages ++ [stage]).length = maxActiveStages then stages ++ [stage]
      else nextActiveFrom (stages ++ [stage]) leaves

def nextActiveStageIndices (actions : List Action) : List Nat :=
  nextActiveFrom managed maxActiveStages [] (actions.flatMap iterLeafMetaSteps)

def unshardReshardFrom (active : List Nat) : List Action → List Action
  | [] => active.map (fsdpStep .fsdpReshard)
  | action :: actions =>
    let next := nextActiveStageIndices managed maxActiveStages (action :: actions)
    let evicted := active.filter (· ∉ next)
    let fetched := next.filter (· ∉ active)
    evicted.map (fsdpStep .fsdpReshard) ++ fetched.map (fsdpStep .fsdpUnshard) ++
      action :: unshardReshardFrom (evicted.foldl List.erase active ++ fetched) actions

def addFsdpUnshardReshard (actions : List Action) : List Action :=
  if managed = [] then actions else unshardReshardFrom managed maxActiveStages [] actions

end Unshard

/-! ## Reducing gradients -/

section Reduce

variable (managed : List Nat) (microBatchNum : Nat)

def reducedStage (leaf : OrderStep) : Option Nat :=
  if leaf.kind = .base .bwd ∨ leaf.kind = .base .bwdWeight then
    if leaf.microIndex.map (fun micro => (micro : Int)) = some ((microBatchNum : Int) - 1) then
      leaf.stageIndex.filter (· ∈ managed)
    else none
  else none

def addStage (stages : List Nat) (stage : Nat) : List Nat :=
  if stage ∈ stages then stages else stages ++ [stage]

def reducedStageIndices (action : Action) : List Nat :=
  ((iterLeafMetaSteps action).filterMap (reducedStage managed microBatchNum)).foldl addStage []

def addFsdpReduceGrad (actions : List Action) : List Action :=
  if managed = [] then actions
  else actions.flatMap fun action =>
    action :: (reducedStageIndices managed microBatchNum action).map (fsdpStep .fsdpReduceGrad)

end Reduce

/-! ## Parameters kept available -/

def IsFsdpAction (action : Action) : Prop := ∃ step ∈ action, step.kind.IsFsdp

def stepUnsharded (unsharded : Finset Nat) : Action → Option (Finset Nat)
  | some ⟨_, .fsdpUnshard, some stage, _⟩ =>
    if stage ∈ unsharded then none else some (insert stage unsharded)
  | some ⟨_, .fsdpReshard, some stage, _⟩ =>
    if stage ∈ unsharded then some (unsharded.erase stage) else none
  | _ => some unsharded

/-- Stages alternate between unsharded and resharded, at most so many are unsharded at once,
managed stages compute while they are, and none is in the end. -/
def Available (managed : List Nat) (maxActiveStages : Nat) : Finset Nat → List Action → Prop
  | unsharded, [] => unsharded = ∅
  | unsharded, action :: actions =>
    (∀ leaf ∈ iterLeafMetaSteps action, ∀ stage, computedStage managed leaf = some stage →
      stage ∈ unsharded) ∧
    ∃ next, stepUnsharded unsharded action = some next ∧ next.card ≤ maxActiveStages ∧
      Available managed maxActiveStages next actions

def HasBackward (stage : Nat) (action : Action) : Prop :=
  ∃ leaf ∈ iterLeafMetaSteps action,
    (leaf.kind = .base .bwd ∨ leaf.kind = .base .bwdWeight) ∧ leaf.stageIndex = some stage

/-- The gradients of the stage are reduced once, after its last backward and before it is
resharded. -/
def ReducedOnce (stage : Nat) (actions : List Action) : Prop :=
  ∃ before action between after,
    actions = before ++ action :: between ++ fsdpStep .fsdpReduceGrad stage :: after ∧
    HasBackward stage action ∧
    (∀ other ∈ between ++ after, ¬HasBackward stage other) ∧
    (∀ other ∈ before ++ between ++ after, other ≠ fsdpStep .fsdpReduceGrad stage) ∧
    ∀ other ∈ between, other ≠ fsdpStep .fsdpReshard stage

def ComputeOrder (actions : List Action) : Prop :=
  ∀ action ∈ actions, ¬IsFsdpAction action ∧ ∀ leaf ∈ iterLeafMetaSteps action, ¬leaf.kind.IsFsdp

instance : DecidablePred IsFsdpAction := fun action =>
  match action with
  | none => isFalse fun ⟨_, hmem, _⟩ => nomatch hmem
  | some step => decidable_of_iff step.kind.IsFsdp
      ⟨fun h => ⟨step, rfl, h⟩, fun ⟨_, hmem, h⟩ => Option.some.inj hmem ▸ h⟩

structure KeepsParameters (managed : List Nat) (maxActiveStages : Nat)
    (actions result : List Action) : Prop where
  erased : result.filter (fun action => ¬IsFsdpAction action) = actions
  available : Available managed maxActiveStages ∅ result
  reduced : ∀ stage ∈ managed, ReducedOnce stage result

/-! ## When they are -/

def computedStages (managed : List Nat) (action : Action) : List Nat :=
  (iterLeafMetaSteps action).filterMap (computedStage managed)

def FitsWindow (managed : List Nat) (maxActiveStages : Nat) (actions : List Action) : Prop :=
  ∀ action ∈ actions, (computedStages managed action).toFinset.card ≤ maxActiveStages

def HasLastBackward (microBatchNum stage : Nat) (action : Action) : Prop :=
  ∃ leaf ∈ iterLeafMetaSteps action,
    (leaf.kind = .base .bwd ∨ leaf.kind = .base .bwdWeight) ∧ leaf.stageIndex = some stage ∧
      leaf.microIndex.map (fun micro => (micro : Int)) = some ((microBatchNum : Int) - 1)

def LastIsLast (microBatchNum stage : Nat) (actions : List Action) : Prop :=
  ∃ front last back, actions = front ++ last :: back ∧
    HasLastBackward microBatchNum stage last ∧
    (∀ action ∈ front, ¬HasLastBackward microBatchNum stage action) ∧
    ∀ action ∈ back, ¬HasBackward stage action

instance (stage : Nat) : DecidablePred (HasBackward stage) := fun _ =>
  inferInstanceAs (Decidable (∃ leaf ∈ _, _))

instance (microBatchNum stage : Nat) : DecidablePred (HasLastBackward microBatchNum stage) :=
  fun _ => inferInstanceAs (Decidable (∃ leaf ∈ _, _))

theorem hasBackward_of_last {microBatchNum stage : Nat} {action : Action}
    (h : HasLastBackward microBatchNum stage action) : HasBackward stage action := by
  obtain ⟨leaf, hleaf, hkind, hstage, -⟩ := h
  exact ⟨leaf, hleaf, hkind, hstage⟩

theorem mem_foldl_addStage {stage : Nat} (found stages : List Nat) :
    stage ∈ found.foldl addStage stages ↔ stage ∈ stages ∨ stage ∈ found := by
  induction found generalizing stages with
  | nil => simp
  | cons first found ih =>
    rw [foldl_cons, ih, addStage, mem_cons]
    split
    · rename_i hfirst
      constructor
      · rintro (h | h)
        · exact .inl h
        · exact .inr (.inr h)
      · rintro (h | rfl | h)
        · exact .inl h
        · exact .inl hfirst
        · exact .inr h
    · rw [mem_append, mem_singleton, or_assoc]

theorem nodup_foldl_addStage (found : List Nat) {stages : List Nat} (hnodup : stages.Nodup) :
    (found.foldl addStage stages).Nodup := by
  induction found generalizing stages with
  | nil => exact hnodup
  | cons first found ih =>
    refine ih ?_
    rw [addStage]
    split
    · exact hnodup
    · rename_i hnew
      exact nodup_append.mpr ⟨hnodup, nodup_singleton _, fun stage hmem other hother =>
        by
          rw [mem_singleton.mp hother]
          rintro rfl
          exact hnew hmem⟩

theorem mem_reducedStageIndices {managed : List Nat} {microBatchNum stage : Nat}
    (hstage : stage ∈ managed) {action : Action} :
    stage ∈ reducedStageIndices managed microBatchNum action ↔
      HasLastBackward microBatchNum stage action := by
  rw [reducedStageIndices, mem_foldl_addStage, mem_filterMap]
  constructor
  · rintro (hnone | ⟨leaf, hleaf, hreduced⟩)
    · cases hnone
    · rw [reducedStage] at hreduced
      split at hreduced
      · rename_i hkind
        split at hreduced
        · rename_i hmicro
          exact ⟨leaf, hleaf, hkind, (Option.filter_eq_some_iff.mp hreduced).1, hmicro⟩
        · cases hreduced
      · cases hreduced
  · rintro ⟨leaf, hleaf, hkind, heq, hmicro⟩
    refine .inr ⟨leaf, hleaf, ?_⟩
    rw [reducedStage, if_pos hkind, if_pos hmicro, heq]
    exact Option.filter_eq_some_iff.mpr ⟨rfl, by simpa using hstage⟩

/-! ## The window -/

section Window

variable {managed : List Nat} {maxActiveStages : Nat}

theorem nextActiveFrom_idle {stages : List Nat} {leaves : List OrderStep}
    (hidle : leaves.filterMap (computedStage managed) = []) :
    nextActiveFrom managed maxActiveStages stages leaves = stages := by
  induction leaves with
  | nil => rfl
  | cons leaf leaves ih =>
    have hnone : computedStage managed leaf = none :=
      filterMap_eq_nil_iff.mp hidle leaf mem_cons_self
    rw [nextActiveFrom, hnone]
    exact ih (filterMap_eq_nil_iff.mpr fun other hother =>
      filterMap_eq_nil_iff.mp hidle other (mem_cons_of_mem _ hother))

theorem nextActiveFrom_window (managed : List Nat) (leaves : List OrderStep) {stages : List Nat}
    (hnodup : stages.Nodup) (hroom : stages.length < maxActiveStages) :
    (nextActiveFrom managed maxActiveStages stages leaves).Nodup ∧
      (nextActiveFrom managed maxActiveStages stages leaves).length ≤ maxActiveStages ∧
      ∀ stage ∈ stages, stage ∈ nextActiveFrom managed maxActiveStages stages leaves := by
  induction leaves generalizing stages with
  | nil => exact ⟨hnodup, hroom.le, fun stage hstage => hstage⟩
  | cons leaf leaves ih =>
    rw [nextActiveFrom]
    cases computedStage managed leaf with
    | none => exact ih hnodup hroom
    | some stage =>
      dsimp only
      split
      · exact ih hnodup hroom
      · rename_i hnew
        have hmore : (stages ++ [stage]).Nodup := by
          have h := nodup_foldl_addStage [stage] hnodup
          rwa [foldl_cons, foldl_nil, addStage, if_neg hnew] at h
        split
        · rename_i hfull
          exact ⟨hmore, hfull.le, fun other hother => mem_append_left _ hother⟩
        · rename_i hnotFull
          have hlength : (stages ++ [stage]).length = stages.length + 1 := by simp
          obtain ⟨hn, hle, hkept⟩ := ih hmore (by omega)
          exact ⟨hn, hle, fun other hother => hkept other (mem_append_left _ hother)⟩

theorem nextActiveFrom_first {stages : List Nat} {first rest : List OrderStep}
    (hnodup : stages.Nodup) (hroom : stages.length < maxActiveStages)
    (hfits : (stages ++ first.filterMap (computedStage managed)).toFinset.card ≤
      maxActiveStages) :
    ∀ stage ∈ first.filterMap (computedStage managed),
      stage ∈ nextActiveFrom managed maxActiveStages stages (first ++ rest) := by
  induction first generalizing stages with
  | nil => exact fun stage hstage => nomatch hstage
  | cons leaf first ih =>
    rw [cons_append, nextActiveFrom]
    cases hcomputed : computedStage managed leaf with
    | none =>
      rw [filterMap_cons_none hcomputed] at hfits ⊢
      exact ih hnodup hroom hfits
    | some stage =>
      rw [filterMap_cons_some hcomputed] at hfits ⊢
      dsimp only
      split
      · rename_i hold
        have hkept := (nextActiveFrom_window managed (first ++ rest) hnodup hroom).2.2
        have hsame : (stages ++ first.filterMap (computedStage managed)).toFinset =
            (stages ++ stage :: first.filterMap (computedStage managed)).toFinset := by
          ext other
          simp only [mem_toFinset, mem_append, mem_cons]
          constructor
          · rintro (h | h)
            · exact .inl h
            · exact .inr (.inr h)
          · rintro (h | rfl | h)
            · exact .inl h
            · exact .inl hold
            · exact .inr h
        rw [← hsame] at hfits
        intro other hother
        rcases mem_cons.mp hother with rfl | hmem
        · exact hkept _ hold
        · exact ih hnodup hroom hfits other hmem
      · rename_i hnew
        have hmore : (stages ++ [stage]).Nodup := by
          have h := nodup_foldl_addStage [stage] hnodup
          rwa [foldl_cons, foldl_nil, addStage, if_neg hnew] at h
        have hall : stages ++ stage :: first.filterMap (computedStage managed) =
            (stages ++ [stage]) ++ first.filterMap (computedStage managed) := by simp
        rw [hall] at hfits
        split
        · -- the window is full, so nothing else comes first
          rename_i hfull
          intro other hother
          have hsub : (stages ++ [stage]).toFinset ⊆
              ((stages ++ [stage]) ++ first.filterMap (computedStage managed)).toFinset := by
            intro x hx
            rw [mem_toFinset] at hx ⊢
            exact mem_append_left _ hx
          have hcard : ((stages ++ [stage]) ++
              first.filterMap (computedStage managed)).toFinset.card ≤
                (stages ++ [stage]).toFinset.card := by
            rw [toFinset_card_of_nodup hmore, hfull]
            exact hfits
          have heq := Finset.eq_of_subset_of_card_le hsub hcard
          have hmem : other ∈ ((stages ++ [stage]) ++
              first.filterMap (computedStage managed)).toFinset := by
            rw [mem_toFinset, ← hall]
            exact mem_append_right _ hother
          rw [← heq, mem_toFinset] at hmem
          exact hmem
        · rename_i hnotFull
          have hlength : (stages ++ [stage]).length = stages.length + 1 := by simp
          intro other hother
          rcases mem_cons.mp hother with rfl | hmem
          · exact (nextActiveFrom_window _ _ hmore (by omega)).2.2 _ (by simp)
          · exact ih hmore (by omega) hfits other hmem

theorem nextActiveStageIndices_window {action : Action} {actions : List Action}
    (hfits : FitsWindow managed maxActiveStages (action :: actions)) :
    (nextActiveStageIndices managed maxActiveStages (action :: actions)).Nodup ∧
      (nextActiveStageIndices managed maxActiveStages (action :: actions)).length ≤
        maxActiveStages ∧
      ∀ stage ∈ computedStages managed action,
        stage ∈ nextActiveStageIndices managed maxActiveStages (action :: actions) := by
  rw [nextActiveStageIndices]
  rcases Nat.eq_zero_or_pos maxActiveStages with hzero | hpos
  · have hnone : ∀ other ∈ action :: actions, computedStages managed other = [] := by
      intro other hother
      have hcard := hfits other hother
      rw [hzero, Nat.le_zero, Finset.card_eq_zero, toFinset_eq_empty_iff] at hcard
      exact hcard
    rw [nextActiveFrom_idle]
    · rw [hnone action mem_cons_self]
      exact ⟨nodup_nil, Nat.zero_le _, fun _ hstage => absurd hstage not_mem_nil⟩
    · rw [filterMap_flatMap, flatMap_eq_nil_iff]
      exact hnone
  · rw [flatMap_cons]
    have hwindow := nextActiveFrom_window managed
      (iterLeafMetaSteps action ++ actions.flatMap iterLeafMetaSteps)
      nodup_nil (show ([] : List Nat).length < maxActiveStages from hpos)
    exact ⟨hwindow.1, hwindow.2.1, nextActiveFrom_first nodup_nil hpos
      (hfits action mem_cons_self)⟩

end Window

/-! ## Runs of the parameter steps -/

section Runs

variable {managed : List Nat} {maxActiveStages : Nat}

theorem computedStage_fsdpStep (managed : List Nat) {kind : StepKind} (hkind : kind.IsFsdp)
    (stage : Nat) : ∀ leaf ∈ iterLeafMetaSteps (fsdpStep kind stage), ∀ other,
      computedStage managed leaf ≠ some other := by
  intro leaf hleaf other
  rw [fsdpStep, iterLeafMetaSteps_leaf, mem_singleton] at hleaf
  have hnot : ¬leaf.kind.IsCompute := by
    rw [hleaf]
    rcases hkind with rfl | rfl | rfl <;> simp [OrderStep.leaf, OrderStep.kind, StepKind.IsCompute]
  rw [computedStage, if_neg hnot]
  exact nofun

theorem stepUnsharded_of_not_fsdp {action : Action} (haction : ¬IsFsdpAction action)
    (unsharded : Finset Nat) : stepUnsharded unsharded action = some unsharded := by
  unfold stepUnsharded
  split
  · exact absurd ⟨_, rfl, .inl rfl⟩ haction
  · exact absurd ⟨_, rfl, .inr (.inl rfl)⟩ haction
  · rfl

variable {unsharded : Finset Nat}

variable {stages : List Nat} {rest : List Action} {actions : List Action}

theorem available_reshards (hnodup : stages.Nodup)
    (hin : ∀ stage ∈ stages, stage ∈ unsharded) (hcard : unsharded.card ≤ maxActiveStages)
    (hrest : Available managed maxActiveStages (unsharded \ stages.toFinset) rest) :
    Available managed maxActiveStages unsharded (stages.map (fsdpStep .fsdpReshard) ++ rest) := by
  induction stages generalizing unsharded with
  | nil => simpa using hrest
  | cons stage stages ih =>
    obtain ⟨hnew, hnodup⟩ := nodup_cons.mp hnodup
    have hstage := hin stage mem_cons_self
    refine ⟨fun leaf hleaf other hother =>
      absurd hother (computedStage_fsdpStep managed (.inr (.inl rfl)) stage leaf hleaf other),
      unsharded.erase stage, if_pos hstage, (Finset.card_erase_le).trans hcard, ?_⟩
    refine ih hnodup (fun other hother => ?_) ((Finset.card_erase_le).trans hcard) ?_
    · refine Finset.mem_erase.mpr ⟨?_, hin other (mem_cons_of_mem _ hother)⟩
      rintro rfl
      exact hnew hother
    · have heq : unsharded.erase stage \ stages.toFinset =
          unsharded \ (stage :: stages).toFinset := by
        ext other
        simp only [Finset.mem_sdiff, Finset.mem_erase, mem_toFinset, mem_cons, not_or]
        tauto
      rwa [heq]

theorem available_unshards (hnodup : stages.Nodup) (hout : ∀ stage ∈ stages, stage ∉ unsharded)
    (hcard : (unsharded ∪ stages.toFinset).card ≤ maxActiveStages)
    (hrest : Available managed maxActiveStages (unsharded ∪ stages.toFinset) rest) :
    Available managed maxActiveStages unsharded (stages.map (fsdpStep .fsdpUnshard) ++ rest) := by
  induction stages generalizing unsharded with
  | nil => simpa using hrest
  | cons stage stages ih =>
    obtain ⟨hnew, hnodup⟩ := nodup_cons.mp hnodup
    have heq : insert stage unsharded ∪ stages.toFinset =
        unsharded ∪ (stage :: stages).toFinset := by
      ext other
      simp only [Finset.mem_union, Finset.mem_insert, mem_toFinset, mem_cons]
      tauto
    rw [← heq] at hcard hrest
    refine ⟨fun leaf hleaf other hother =>
      absurd hother (computedStage_fsdpStep managed (.inl rfl) stage leaf hleaf other),
      insert stage unsharded, if_neg (hout stage mem_cons_self),
      (Finset.card_le_card Finset.subset_union_left).trans hcard, ?_⟩
    refine ih hnodup (fun other hother => ?_) hcard hrest
    rw [Finset.mem_insert]
    rintro (rfl | hmem)
    · exact hnew hother
    · exact hout other (mem_cons_of_mem _ hother) hmem

theorem foldl_erase_eq {active : List Nat} (hnodup : active.Nodup) (keep : Nat → Prop)
    [DecidablePred keep] :
    (active.filter (fun stage => ¬keep stage)).foldl List.erase active =
      active.filter (fun stage => keep stage) := by
  have hgeneral : ∀ (gone stages : List Nat), stages.Nodup →
      gone.foldl List.erase stages = stages.filter (· ∉ gone) := by
    intro gone
    induction gone with
    | nil => exact fun stages _ => by simp
    | cons first gone ih =>
      intro stages hstages
      rw [foldl_cons, ih _ (hstages.erase first), hstages.erase_eq_filter, filter_filter]
      refine filter_congr fun stage _ => ?_
      by_cases heq : stage = first <;> simp [heq]
  rw [hgeneral _ _ hnodup]
  refine filter_congr fun stage hstage => ?_
  simp [hstage]

theorem unshardReshardFrom_available {active : List Nat}
    (hnodup : active.Nodup) (hlength : active.length ≤ maxActiveStages)
    (hcompute : ComputeOrder actions) (hfits : FitsWindow managed maxActiveStages actions) :
    Available managed maxActiveStages active.toFinset
      (unshardReshardFrom managed maxActiveStages active actions) := by
  induction actions generalizing active with
  | nil =>
    rw [unshardReshardFrom, ← append_nil (active.map _)]
    refine available_reshards hnodup (fun stage hstage => mem_toFinset.mpr hstage) ?_ ?_
    · exact (toFinset_card_le active).trans hlength
    · exact Finset.sdiff_self _
  | cons action actions ih =>
    obtain ⟨hnext, hshort, hcomputed⟩ := nextActiveStageIndices_window hfits
    rw [unshardReshardFrom]
    generalize nextActiveStageIndices managed maxActiveStages (action :: actions) = next at *
    have hkept := foldl_erase_eq hnodup (· ∈ next)
    rw [hkept, append_assoc]
    have hsplit : active.toFinset \ (active.filter (· ∉ next)).toFinset =
        (active.filter (· ∈ next)).toFinset := by
      ext stage
      simp only [Finset.mem_sdiff, mem_toFinset, mem_filter, decide_eq_true_eq]
      tauto
    have hunion : (active.filter (· ∈ next)).toFinset ∪ (next.filter (· ∉ active)).toFinset =
        next.toFinset := by
      ext stage
      simp only [Finset.mem_union, mem_toFinset, mem_filter, decide_eq_true_eq]
      tauto
    have hcard : next.toFinset.card ≤ maxActiveStages := (toFinset_card_le next).trans hshort
    refine available_reshards (hnodup.filter _)
      (fun stage hstage => mem_toFinset.mpr (mem_of_mem_filter hstage))
      ((toFinset_card_le active).trans hlength) ?_
    rw [hsplit]
    refine available_unshards (hnext.filter _) (fun stage hstage hmem => ?_)
      (by rw [hunion]; exact hcard) ?_
    · have hnot := (mem_filter.mp hstage).2
      rw [mem_toFinset] at hmem
      simp [mem_of_mem_filter hmem] at hnot
    · rw [hunion]
      refine ⟨fun leaf hleaf stage hstage => mem_toFinset.mpr (hcomputed stage
        (mem_filterMap.mpr ⟨leaf, hleaf, hstage⟩)), next.toFinset,
        stepUnsharded_of_not_fsdp (hcompute action mem_cons_self).1 _, hcard, ?_⟩
      have hperm : (active.filter (· ∈ next) ++ next.filter (· ∉ active)).Nodup := by
        refine nodup_append.mpr ⟨hnodup.filter _, hnext.filter _, ?_⟩
        rintro stage hstage other hother rfl
        have hnot := (mem_filter.mp hother).2
        simp [mem_of_mem_filter hstage] at hnot
      have heq : (active.filter (· ∈ next) ++ next.filter (· ∉ active)).toFinset =
          next.toFinset := by
        rw [toFinset_append, hunion]
      rw [← heq]
      refine ih hperm ?_ (fun other hother => hcompute other (mem_cons_of_mem _ hother))
        fun other hother => hfits other (mem_cons_of_mem _ hother)
      rw [← toFinset_card_of_nodup hperm, heq]
      exact hcard

theorem available_reduces (hcard : unsharded.card ≤ maxActiveStages) :
    Available managed maxActiveStages unsharded
        (stages.map (fsdpStep .fsdpReduceGrad) ++ rest) ↔
      Available managed maxActiveStages unsharded rest := by
  induction stages with
  | nil => rfl
  | cons stage stages ih =>
    rw [map_cons, cons_append, Available, ← ih]
    constructor
    · rintro ⟨-, next, hnext, -, hrest⟩
      cases hnext
      exact hrest
    · intro hrest
      exact ⟨fun leaf hleaf other hother => absurd hother
        (computedStage_fsdpStep managed (.inr (.inr rfl)) stage leaf hleaf other),
        unsharded, rfl, hcard, hrest⟩

theorem available_flatMap (stagesOf : Action → List Nat) :
    Available managed maxActiveStages unsharded (actions.flatMap fun action =>
        action :: (stagesOf action).map (fsdpStep .fsdpReduceGrad)) ↔
      Available managed maxActiveStages unsharded actions := by
  induction actions generalizing unsharded with
  | nil => rfl
  | cons action actions ih =>
    rw [flatMap_cons, cons_append, Available, Available]
    refine and_congr_right fun _ => exists_congr fun next => and_congr_right fun _ =>
      and_congr_right fun hcard => ?_
    rw [available_reduces hcard, ih]

theorem fitsWindow_of_available (hcard : unsharded.card ≤ maxActiveStages)
    (h : Available managed maxActiveStages unsharded actions) :
    FitsWindow managed maxActiveStages actions := by
  induction actions generalizing unsharded with
  | nil => exact fun action haction => nomatch haction
  | cons action actions ih =>
    obtain ⟨hleaves, next, -, hnext, hrest⟩ := h
    intro other hother
    rcases mem_cons.mp hother with rfl | hmem
    · have hsub : (computedStages managed other).toFinset ⊆ unsharded := by
        intro stage hstage
        obtain ⟨leaf, hleaf, hcomputed⟩ := mem_filterMap.mp (mem_toFinset.mp hstage)
        exact hleaves leaf hleaf stage hcomputed
      exact (Finset.card_le_card hsub).trans hcard
    · exact ih hnext hrest other hmem

end Runs

end HyperParallel.Pipeline
