import HyperParallel.Pipeline.FsdpSteps

/-!
# Orders with parameter steps

Both passes only insert, and one block after another: what unshards and reshards
before an action, and what reduces after it.  So gradients are reduced once for
every action with a backward of the last micro-batch.
-/

namespace HyperParallel.Pipeline

open List

/-! ## Erasing -/

theorem isFsdpAction_fsdpStep {kind : StepKind} (hkind : kind.IsFsdp) (stage : Nat) :
    IsFsdpAction (fsdpStep kind stage) := ⟨_, rfl, hkind⟩

theorem filter_fsdpSteps {kind : StepKind} (hkind : kind.IsFsdp) (stages : List Nat) :
    (stages.map (fsdpStep kind)).filter (fun action => ¬IsFsdpAction action) = [] := by
  refine filter_eq_nil_iff.mpr fun action haction => ?_
  obtain ⟨stage, -, rfl⟩ := mem_map.mp haction
  simpa using isFsdpAction_fsdpStep hkind stage

section Passes

variable {managed : List Nat} {maxActiveStages microBatchNum : Nat} {actions : List Action}

theorem filter_unshardReshardFrom (managed : List Nat) (maxActiveStages : Nat) (active : List Nat)
    (hcompute : ∀ action ∈ actions, ¬IsFsdpAction action) :
    (unshardReshardFrom managed maxActiveStages active actions).filter
      (fun action => ¬IsFsdpAction action) = actions := by
  induction actions generalizing active with
  | nil => exact filter_fsdpSteps (.inr (.inl rfl)) active
  | cons action actions ih =>
    rw [unshardReshardFrom, filter_append, filter_append,
      filter_fsdpSteps (.inr (.inl rfl)), filter_fsdpSteps (.inl rfl),
      filter_cons_of_pos (by simpa using hcompute action mem_cons_self),
      ih _ fun other hother => hcompute other (mem_cons_of_mem _ hother)]
    rfl

theorem filter_reduceGrad (stagesOf : Action → List Nat) :
    (actions.flatMap fun action =>
        action :: (stagesOf action).map (fsdpStep .fsdpReduceGrad)).filter
      (fun action => ¬IsFsdpAction action) = actions.filter fun action => ¬IsFsdpAction action := by
  induction actions with
  | nil => rfl
  | cons action actions ih =>
    rw [flatMap_cons, cons_append, filter_cons, filter_append,
      filter_fsdpSteps (.inr (.inr rfl)), ih, nil_append, filter_cons]

theorem nextActiveFrom_nil (stages : List Nat) (leaves : List OrderStep) :
    nextActiveFrom [] maxActiveStages stages leaves = stages := by
  refine nextActiveFrom_idle (filterMap_eq_nil_iff.mpr fun leaf _ => ?_)
  rw [computedStage]
  split
  · exact Option.filter_eq_none_iff.mpr fun stage _ => by simp
  · rfl

theorem addFsdpUnshardReshard_eq :
    addFsdpUnshardReshard managed maxActiveStages actions =
      unshardReshardFrom managed maxActiveStages [] actions := by
  rw [addFsdpUnshardReshard]
  split
  · rename_i hnone
    subst hnone
    induction actions with
    | nil => rfl
    | cons action actions ih =>
      rw [unshardReshardFrom, nextActiveStageIndices, nextActiveFrom_nil]
      exact congrArg (action :: ·) ih
  · rfl

theorem addFsdpReduceGrad_eq :
    addFsdpReduceGrad managed microBatchNum actions = actions.flatMap fun action =>
      action :: (reducedStageIndices managed microBatchNum action).map
        (fsdpStep .fsdpReduceGrad) := by
  rw [addFsdpReduceGrad]
  split
  · rename_i hnone
    subst hnone
    have hnothing : ∀ action, reducedStageIndices [] microBatchNum action = [] := by
      intro action
      rw [reducedStageIndices, filterMap_eq_nil_iff.mpr fun leaf _ => ?_]
      · rfl
      · simp [reducedStage]
    simp [hnothing]
  · rfl

end Passes

/-! ## Reducing once -/

section Once

variable {managed : List Nat} {microBatchNum stage : Nat}

theorem not_hasBackward_of_fsdp {action : Action} (h : IsFsdpAction action) :
    ¬HasBackward stage action := by
  obtain ⟨step, rfl, hkind⟩ := h
  rintro ⟨leaf, hleaf, hbackward, -⟩
  have hnot : ¬step.kind.IsOverlap := by
    rcases hkind with hkind | hkind | hkind <;> simp [hkind, StepKind.IsOverlap]
  rw [iterLeafMetaSteps_of_not_overlap hnot, mem_singleton] at hleaf
  subst hleaf
  rcases hkind with hkind | hkind | hkind <;> simp [hkind] at hbackward

theorem hasBackward_fsdpStep (stage : Nat) {kind : StepKind} (hkind : kind.IsFsdp)
    (other : Nat) : ¬HasBackward stage (fsdpStep kind other) :=
  not_hasBackward_of_fsdp (isFsdpAction_fsdpStep hkind other)

theorem fsdpStep_inj {kind kind' : StepKind} {stage stage' : Nat} :
    fsdpStep kind stage = fsdpStep kind' stage' ↔ kind = kind' ∧ stage = stage' := by
  simp [fsdpStep, OrderStep.leaf]

def withReduces (managed : List Nat) (microBatchNum : Nat) (actions : List Action) :
    List Action :=
  actions.flatMap fun action =>
    action :: (reducedStageIndices managed microBatchNum action).map (fsdpStep .fsdpReduceGrad)

theorem withReduces_append (before after : List Action) :
    withReduces managed microBatchNum (before ++ after) =
      withReduces managed microBatchNum before ++ withReduces managed microBatchNum after :=
  List.flatMap_append

theorem withReduces_cons (action : Action) (actions : List Action) :
    withReduces managed microBatchNum (action :: actions) =
      action :: (reducedStageIndices managed microBatchNum action).map
        (fsdpStep .fsdpReduceGrad) ++ withReduces managed microBatchNum actions := rfl

variable {actions : List Action}

theorem mem_withReduces {action : Action} :
    action ∈ withReduces managed microBatchNum actions ↔ action ∈ actions ∨
      ∃ other ∈ actions, ∃ stage ∈ reducedStageIndices managed microBatchNum other,
        action = fsdpStep .fsdpReduceGrad stage := by
  simp only [withReduces, mem_flatMap, mem_cons, mem_map]
  constructor
  · rintro ⟨other, hother, rfl | ⟨stage, hstage, rfl⟩⟩
    · exact .inl hother
    · exact .inr ⟨other, hother, stage, hstage, rfl⟩
  · rintro (hmem | ⟨other, hother, stage, hstage, rfl⟩)
    · exact ⟨action, hmem, .inl rfl⟩
    · exact ⟨other, hother, .inr ⟨stage, hstage, rfl⟩⟩

theorem reduceGrad_mem_withReduces (hstage : stage ∈ managed)
    (hnone : fsdpStep .fsdpReduceGrad stage ∉ actions) :
    fsdpStep .fsdpReduceGrad stage ∈ withReduces managed microBatchNum actions ↔
      ∃ action ∈ actions, HasLastBackward microBatchNum stage action := by
  rw [mem_withReduces]
  constructor
  · rintro (hmem | ⟨other, hother, reduced, hreduced, heq⟩)
    · exact absurd hmem hnone
    · obtain ⟨-, rfl⟩ := fsdpStep_inj.mp heq
      exact ⟨other, hother, (mem_reducedStageIndices hstage).mp hreduced⟩
  · rintro ⟨action, haction, hlast⟩
    exact .inr ⟨action, haction, stage, (mem_reducedStageIndices hstage).mpr hlast, rfl⟩

theorem hasBackward_withReduces :
    (∃ action ∈ withReduces managed microBatchNum actions, HasBackward stage action) ↔
      ∃ action ∈ actions, HasBackward stage action := by
  constructor
  · rintro ⟨action, haction, hbackward⟩
    rcases mem_withReduces.mp haction with hmem | ⟨other, hother, reduced, hreduced, rfl⟩
    · exact ⟨action, hmem, hbackward⟩
    · exact absurd hbackward (hasBackward_fsdpStep stage (.inr (.inr rfl)) reduced)
  · rintro ⟨action, haction, hbackward⟩
    exact ⟨action, mem_withReduces.mpr (.inl haction), hbackward⟩

theorem reducedOnce_withReduces (hstage : stage ∈ managed)
    (hnone : fsdpStep .fsdpReduceGrad stage ∉ actions) :
    ReducedOnce stage (withReduces managed microBatchNum actions) ↔
      LastIsLast microBatchNum stage actions := by
  have hsplit : ∀ {front back : List Action} {last : Action}, actions = front ++ last :: back →
      fsdpStep .fsdpReduceGrad stage ∉ front ∧ fsdpStep .fsdpReduceGrad stage ∉ back := by
    rintro front back last rfl
    exact ⟨fun h => hnone (mem_append_left _ h),
      fun h => hnone (mem_append_right _ (mem_cons_of_mem _ h))⟩
  constructor
  · rintro ⟨before, action, between, after, heq, hbackward, hlater, honce, -⟩
    -- the action that the reduction comes from
    have hmem : fsdpStep .fsdpReduceGrad stage ∈ withReduces managed microBatchNum actions := by
      rw [heq]
      simp
    obtain ⟨last, hlast, hreduced⟩ := (reduceGrad_mem_withReduces hstage hnone).mp hmem
    obtain ⟨front, back, hactions⟩ := append_of_mem hlast
    obtain ⟨stages, stages', hstages⟩ :=
      append_of_mem ((mem_reducedStageIndices hstage).mpr hreduced)
    obtain ⟨hfront, hback⟩ := hsplit hactions
    have hplace : withReduces managed microBatchNum actions =
        (withReduces managed microBatchNum front ++ last ::
          stages.map (fsdpStep .fsdpReduceGrad)) ++ fsdpStep .fsdpReduceGrad stage ::
            (stages'.map (fsdpStep .fsdpReduceGrad) ++
              withReduces managed microBatchNum back) := by
      rw [hactions, withReduces_append, withReduces_cons, hstages]
      simp
    have hnotAction : action ≠ fsdpStep .fsdpReduceGrad stage := by
      rintro rfl
      exact hasBackward_fsdpStep stage (.inr (.inr rfl)) stage hbackward
    have hnotBefore : fsdpStep .fsdpReduceGrad stage ∉ before ++ action :: between := by
      intro hin
      rcases mem_append.mp hin with hin | hin
      · exact honce _ (by simp [hin]) rfl
      · rcases mem_cons.mp hin with hin | hin
        · exact hnotAction hin.symm
        · exact honce _ (by simp [hin]) rfl
    have hnotAfter : fsdpStep .fsdpReduceGrad stage ∉ after := fun hin =>
      honce _ (by simp [hin]) rfl
    obtain ⟨hbefore, -, hafter⟩ := (append_cons_inj_of_notMem hnotBefore hnotAfter).mp
      (heq.symm.trans hplace)
    refine ⟨front, last, back, hactions, hreduced, fun other hother hother' => ?_,
      fun other hother hother' => ?_⟩
    · refine hnotBefore (hbefore ▸ mem_append_left _ ?_)
      exact (reduceGrad_mem_withReduces hstage hfront).mpr ⟨other, hother, hother'⟩
    · obtain ⟨found, hfound, hfound'⟩ :=
        hasBackward_withReduces.mpr ⟨other, hother, hother'⟩
      refine hlater found (mem_append_right _ ?_) hfound'
      rw [hafter]
      exact mem_append_right _ hfound
  · rintro ⟨front, last, back, hactions, hreduced, hfirst, hlater⟩
    obtain ⟨hfront, hback⟩ := hsplit hactions
    have hmem := (mem_reducedStageIndices hstage).mpr hreduced
    have hnodup : (reducedStageIndices managed microBatchNum last).Nodup :=
      nodup_foldl_addStage _ nodup_nil
    obtain ⟨stages, stages', hstages⟩ := append_of_mem hmem
    rw [hstages] at hnodup
    have hnot : stage ∉ stages ++ stages' := (nodup_cons.mp (nodup_middle.mp hnodup)).1
    have hreduces : ∀ others : List Nat, stage ∉ others →
        fsdpStep .fsdpReduceGrad stage ∉ others.map (fsdpStep .fsdpReduceGrad) := by
      intro others hothers hin
      obtain ⟨other, hother, heq⟩ := mem_map.mp hin
      exact hothers ((fsdpStep_inj.mp heq).2 ▸ hother)
    refine ⟨withReduces managed microBatchNum front, last,
      stages.map (fsdpStep .fsdpReduceGrad),
      stages'.map (fsdpStep .fsdpReduceGrad) ++ withReduces managed microBatchNum back, ?_,
      hasBackward_of_last hreduced, ?_, ?_, ?_⟩
    · rw [hactions, withReduces_append, withReduces_cons, hstages]
      simp
    · intro other hother hbackward
      rcases mem_append.mp hother with hin | hin
      · obtain ⟨reduced, -, rfl⟩ := mem_map.mp hin
        exact hasBackward_fsdpStep stage (.inr (.inr rfl)) reduced hbackward
      rcases mem_append.mp hin with hin | hin
      · obtain ⟨reduced, -, rfl⟩ := mem_map.mp hin
        exact hasBackward_fsdpStep stage (.inr (.inr rfl)) reduced hbackward
      · obtain ⟨found, hfound, hfound'⟩ := hasBackward_withReduces.mp ⟨other, hin, hbackward⟩
        exact hlater found hfound hfound'
    · rintro other hother rfl
      simp only [append_assoc, mem_append] at hother
      rcases hother with hin | hin | hin | hin
      · obtain ⟨found, hfound, hfound'⟩ := (reduceGrad_mem_withReduces hstage hfront).mp hin
        exact hfirst found hfound hfound'
      · exact hreduces stages (fun h => hnot (mem_append_left _ h)) hin
      · exact hreduces stages' (fun h => hnot (mem_append_right _ h)) hin
      · obtain ⟨found, hfound, hfound'⟩ := (reduceGrad_mem_withReduces hstage hback).mp hin
        exact hlater found hfound (hasBackward_of_last hfound')
    · rintro other hother rfl
      obtain ⟨reduced, -, heq⟩ := mem_map.mp hother
      exact absurd (fsdpStep_inj.mp heq).1 (by decide)

end Once

/-! ## Both passes -/

section Both

variable {managed : List Nat} {maxActiveStages microBatchNum : Nat} {actions : List Action}

theorem lastIsLast_filter {stage : Nat} (keep : Action → Prop) [DecidablePred keep]
    (hkeep : ∀ action, HasBackward stage action → keep action) :
    LastIsLast microBatchNum stage (actions.filter fun action => keep action) ↔
      LastIsLast microBatchNum stage actions := by
  constructor
  · rintro ⟨front, last, back, heq, hlast, hfirst, hlater⟩
    obtain ⟨front', rest, rfl, hfront, hrest⟩ := filter_eq_append_iff.mp heq
    obtain ⟨skipped, back', rfl, hskipped, -, hback⟩ := filter_eq_cons_iff.mp hrest
    refine ⟨front' ++ skipped, last, back', by simp, hlast, fun action haction hbad => ?_,
      fun action haction hbad => ?_⟩
    · have hkept := hkeep action (hasBackward_of_last hbad)
      rcases mem_append.mp haction with hin | hin
      · exact hfirst action (hfront ▸ mem_filter.mpr ⟨hin, by simpa using hkept⟩) hbad
      · exact hskipped action hin (by simpa using hkept)
    · exact hlater action
        (hback ▸ mem_filter.mpr ⟨haction, by simpa using hkeep action hbad⟩) hbad
  · rintro ⟨front, last, back, rfl, hlast, hfirst, hlater⟩
    have hkept := hkeep last (hasBackward_of_last hlast)
    refine ⟨front.filter fun action => keep action, last, back.filter fun action => keep action,
      by simp [hkept], hlast, fun action haction => hfirst action (mem_of_mem_filter haction),
      fun action haction => hlater action (mem_of_mem_filter haction)⟩

theorem mem_unshardReshardFrom {action : Action} {active : List Nat}
    (h : action ∈ unshardReshardFrom managed maxActiveStages active actions) :
    action ∈ actions ∨ ∃ stage, action = fsdpStep .fsdpReshard stage ∨
      action = fsdpStep .fsdpUnshard stage := by
  induction actions generalizing active with
  | nil =>
    obtain ⟨stage, -, rfl⟩ := mem_map.mp h
    exact .inr ⟨stage, .inl rfl⟩
  | cons first actions ih =>
    rw [unshardReshardFrom] at h
    simp only [mem_append, mem_cons, mem_map] at h
    rcases h with (⟨stage, -, rfl⟩ | ⟨stage, -, rfl⟩) | rfl | h
    · exact .inr ⟨stage, .inl rfl⟩
    · exact .inr ⟨stage, .inr rfl⟩
    · exact .inl mem_cons_self
    · exact (ih h).imp_left (mem_cons_of_mem _)

/-- The parameter steps of an order of compute and transfer steps keep what is asked of them
exactly when every action fits the window, and the last backward of every managed stage is that
of the last micro-batch. -/
theorem fsdpSteps_keepParameters_iff (hcompute : ComputeOrder actions) :
    KeepsParameters managed maxActiveStages actions
        (addFsdpReduceGrad managed microBatchNum
          (addFsdpUnshardReshard managed maxActiveStages actions)) ↔
      FitsWindow managed maxActiveStages actions ∧
        ∀ stage ∈ managed, LastIsLast microBatchNum stage actions := by
  rw [addFsdpReduceGrad_eq, addFsdpUnshardReshard_eq]
  have hnot : ∀ action ∈ actions, ¬IsFsdpAction action := fun action haction =>
    (hcompute action haction).1
  have hfilter := filter_unshardReshardFrom managed maxActiveStages [] hnot
  have hreduced : ∀ stage ∈ managed, (ReducedOnce stage
      (withReduces managed microBatchNum (unshardReshardFrom managed maxActiveStages [] actions)) ↔
      LastIsLast microBatchNum stage actions) := by
    intro stage hstage
    rw [reducedOnce_withReduces hstage, ← lastIsLast_filter (fun action => ¬IsFsdpAction action),
      hfilter]
    · exact fun action hbackward hfsdp => not_hasBackward_of_fsdp hfsdp hbackward
    · intro hmem
      rcases mem_unshardReshardFrom hmem with hin | ⟨other, heq | heq⟩
      · exact hnot _ hin (isFsdpAction_fsdpStep (.inr (.inr rfl)) stage)
      · exact absurd (fsdpStep_inj.mp heq).1 (by decide)
      · exact absurd (fsdpStep_inj.mp heq).1 (by decide)
  constructor
  · rintro ⟨-, havailable, hall⟩
    refine ⟨fun action haction => ?_, fun stage hstage =>
      (hreduced stage hstage).mp (hall stage hstage)⟩
    refine fitsWindow_of_available (Nat.zero_le _) ((available_flatMap _).mp havailable) action ?_
    exact mem_of_mem_filter (hfilter.symm ▸ haction)
  · rintro ⟨hfits, hall⟩
    refine ⟨(filter_reduceGrad _).trans hfilter, ?_, fun stage hstage =>
      (hreduced stage hstage).mpr (hall stage hstage)⟩
    exact (available_flatMap _).mpr
      (unshardReshardFrom_available nodup_nil (Nat.zero_le _) hcompute hfits)

end Both

def twoMicros (first second : Nat) : List Action :=
  [some (.leaf (some 0) (.base .fwd) (some 0)), some (.leaf (some 1) (.base .fwd) (some 0)),
    some (.leaf (some first) (.base .bwd) (some 0)),
    some (.leaf (some second) (.base .bwd) (some 0))]

theorem twoMicros_computeOrder (first second : Nat) : ComputeOrder (twoMicros first second) := by
  intro action haction
  simp only [twoMicros, mem_cons, not_mem_nil, or_false] at haction
  have hleaf : ∀ {micro type stage},
      ¬IsFsdpAction (some (.leaf micro (.base type) stage)) ∧
        ∀ leaf ∈ iterLeafMetaSteps (some (.leaf micro (.base type) stage)), ¬leaf.kind.IsFsdp := by
    intro micro type stage
    rw [iterLeafMetaSteps_leaf]
    simp [IsFsdpAction, OrderStep.leaf, OrderStep.kind, StepKind.IsFsdp]
  rcases haction with rfl | rfl | rfl | rfl <;> exact hleaf

theorem twoMicros_keepParameters :
    KeepsParameters [0] 3 (twoMicros 0 1)
        (addFsdpReduceGrad [0] 2 (addFsdpUnshardReshard [0] 3 (twoMicros 0 1))) ↔
      FitsWindow [0] 3 (twoMicros 0 1) ∧ ∀ stage ∈ [0], LastIsLast 2 stage (twoMicros 0 1) :=
  fsdpSteps_keepParameters_iff (twoMicros_computeOrder 0 1)

/-- With the backward of the last micro-batch first, the gradients are reduced before the other
one. -/
theorem lastMicroFirst_reducesEarly :
    ComputeOrder (twoMicros 1 0) ∧ ¬KeepsParameters [0] 3 (twoMicros 1 0)
      (addFsdpReduceGrad [0] 2 (addFsdpUnshardReshard [0] 3 (twoMicros 1 0))) := by
  refine ⟨twoMicros_computeOrder 1 0, fun h => ?_⟩
  have hresult : addFsdpReduceGrad [0] 2 (addFsdpUnshardReshard [0] 3 (twoMicros 1 0)) =
      withReduces [0] 2 (fsdpStep .fsdpUnshard 0 :: twoMicros 1 0 ++
        [fsdpStep .fsdpReshard 0]) := by decide
  have hreduced := h.reduced 0 (by decide)
  rw [hresult, reducedOnce_withReduces (by decide) (by decide)] at hreduced
  obtain ⟨front, last, back, heq, hlast, -, hlater⟩ := hreduced
  have hmem : last ∈ fsdpStep .fsdpUnshard 0 :: twoMicros 1 0 ++ [fsdpStep .fsdpReshard 0] := by
    rw [heq]
    simp
  have hall : ∀ action ∈ fsdpStep .fsdpUnshard 0 :: twoMicros 1 0 ++ [fsdpStep .fsdpReshard 0],
      HasLastBackward 2 0 action → action = some (.leaf (some 1) (.base .bwd) (some 0)) := by
    decide
  have honly := hall last hmem hlast
  have hfirst : some (.leaf (some 0) (.base .bwd) (some 0)) ∈ front := by
    have hin : some (.leaf (some 0) (.base .bwd) (some 0)) ∈
        fsdpStep .fsdpUnshard 0 :: twoMicros 1 0 ++ [fsdpStep .fsdpReshard 0] := by decide
    rw [heq, mem_append, mem_cons] at hin
    rcases hin with hin | hin | hin
    · exact hin
    · rw [honly] at hin
      exact absurd hin (by decide)
    · exact absurd (by decide) (hlater _ hin)
  have hsub : [some (.leaf (some 0) (.base .bwd) (some 0)), last].Sublist (front ++ last :: back) :=
    (singleton_sublist.mpr hfirst).append (singleton_sublist.mpr mem_cons_self)
  rw [← heq, honly] at hsub
  exact absurd hsub (by decide)

end HyperParallel.Pipeline
