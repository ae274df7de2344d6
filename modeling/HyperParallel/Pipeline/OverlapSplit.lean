import HyperParallel.Pipeline.ScanOrder

/-!
# Splitting the backward of an overlap

The backward of an overlap becomes its input part, and the weight part follows
after the transfers behind the overlap.  Apart from the weight parts the slots
keep their order.
-/

namespace HyperParallel.Pipeline

open List

def isP2P : Slot → Bool
  | .step ⟨_, type, _⟩ => type = .fwdSend ∨ type = .fwdRecv ∨ type = .bwdSend ∨ type = .bwdRecv
  | _ => false

def p2pRunAfter (order : List Slot) : List Slot × List Slot :=
  (order.takeWhile isP2P, order.dropWhile isP2P)

/-- The order of one rank with the backwards of its overlaps split. -/
def splitOrder : List Slot → List Slot
  | [] => []
  | slot :: order =>
    match slot with
    | .overlap .bwdFwd bwdSub fwdSub =>
      if bwdSub.type ≠ .bwd ∨ bwdSub.stageIndex = 0 then slot :: splitOrder order
      else
        let dx : MetaStep := ⟨bwdSub.microIndex, .bwdInput, bwdSub.stageIndex⟩
        let run := p2pRunAfter order
        .overlap .bwdFwd dx fwdSub :: run.1 ++
          [.step ⟨bwdSub.microIndex, .bwdWeight, bwdSub.stageIndex⟩] ++ splitOrder run.2
    | _ => slot :: splitOrder order
termination_by order => order.length
decreasing_by
  all_goals simp only [List.length_cons, p2pRunAfter]
  all_goals have := (List.dropWhile_suffix (l := order) isP2P).length_le
  all_goals omega

def splitOverlapDxdw (execOrder : Schedule) : Schedule := fun rank => splitOrder (execOrder rank)

/-! ## What the split does to a slot -/

def splitSlot : Slot → Slot
  | .overlap .bwdFwd ⟨micro, .bwd, stage + 1⟩ fwdSub =>
    .overlap .bwdFwd ⟨micro, .bwdInput, stage + 1⟩ fwdSub
  | slot => slot

def Slot.isWeight : Slot → Bool
  | .step ⟨_, .bwdWeight, _⟩ => true
  | _ => false

def Unsplit (order : List Slot) : Prop :=
  ∀ slot ∈ order, ∀ step ∈ slot.leafSteps, step.type ≠ .bwdInput ∧ step.type ≠ .bwdWeight

theorem Unsplit.tail {slot : Slot} {order : List Slot} (h : Unsplit (slot :: order)) :
    Unsplit order := fun s hs => h s (List.mem_cons_of_mem slot hs)

variable {order : List Slot} {slot : Slot}

theorem Unsplit.dropWhile (h : Unsplit order) (p : Slot → Bool) :
    Unsplit (order.dropWhile p) := fun s hs => h s ((List.dropWhile_suffix p).subset hs)

theorem splitSlot_of_isP2P (h : isP2P slot = true) :
    splitSlot slot = slot ∧ slot.isWeight = false := by
  cases slot with
  | step leaf =>
    obtain ⟨micro, type, stage⟩ := leaf
    cases type <;> first | exact ⟨rfl, rfl⟩ | cases h
  | bubble => cases h
  | overlap type first second => cases h

theorem splitSlot_overlap {bwdSub fwdSub : MetaStep}
    (h : ¬(bwdSub.type ≠ .bwd ∨ bwdSub.stageIndex = 0)) :
    splitSlot (.overlap .bwdFwd bwdSub fwdSub) =
      .overlap .bwdFwd ⟨bwdSub.microIndex, .bwdInput, bwdSub.stageIndex⟩ fwdSub := by
  obtain ⟨micro, type, stage⟩ := bwdSub
  push Not at h
  obtain ⟨rfl, hstage⟩ := h
  obtain ⟨stage, rfl⟩ := Nat.exists_eq_add_one_of_ne_zero hstage
  rfl

theorem splitSlot_first {bwdSub fwdSub : MetaStep}
    (h : bwdSub.type ≠ .bwd ∨ bwdSub.stageIndex = 0) :
    splitSlot (.overlap .bwdFwd bwdSub fwdSub) = .overlap .bwdFwd bwdSub fwdSub := by
  obtain ⟨micro, type, stage⟩ := bwdSub
  unfold splitSlot
  split
  · rename_i heq
    simp_all
  · rfl

theorem splitSlot_of_not_overlap (h : ∀ bwdSub fwdSub, slot ≠ .overlap .bwdFwd bwdSub fwdSub) :
    splitSlot slot = slot := by
  unfold splitSlot
  split
  · exact absurd rfl (h _ _)
  · rfl

theorem Unsplit.not_isWeight (h : Unsplit (slot :: order)) : slot.isWeight = false := by
  cases slot with
  | step leaf =>
    obtain ⟨micro, type, stage⟩ := leaf
    have hleaf := (h _ mem_cons_self _ (mem_singleton.mpr rfl)).2
    cases type <;> first | rfl | exact absurd rfl hleaf
  | bubble => rfl
  | overlap type first second => rfl

theorem mem_p2pRunAfter (h : slot ∈ (p2pRunAfter order).1) :
    isP2P slot = true :=
  List.all_eq_true.mp (List.all_takeWhile (p := isP2P) (l := order)) slot h

theorem map_splitSlot_run (order : List Slot) :
    (p2pRunAfter order).1.map splitSlot = (p2pRunAfter order).1 := by
  rw [map_congr_left fun slot hslot => (splitSlot_of_isP2P (mem_p2pRunAfter hslot)).1, map_id']

theorem filter_splitOrder (order : List Slot) (h : Unsplit order) :
    (splitOrder order).filter (fun slot => !slot.isWeight) = order.map splitSlot := by
  induction order using splitOrder.induct with
  | case1 => simp [splitOrder]
  | case2 order bwdSub fwdSub hfirst ih =>
    rw [splitOrder, if_pos hfirst, filter_cons_of_pos rfl, ih h.tail, map_cons,
      splitSlot_first hfirst]
  | case3 order bwdSub fwdSub hsplit run ih =>
    have hrun : run.1.filter (fun slot => !slot.isWeight) = run.1 :=
      filter_eq_self.mpr fun slot hslot => by
        simp [(splitSlot_of_isP2P (mem_p2pRunAfter hslot)).2]
    have horder : order.map splitSlot = run.1 ++ run.2.map splitSlot := by
      rw [← map_splitSlot_run order, ← map_append]
      simp [run, p2pRunAfter, takeWhile_append_dropWhile]
    rw [splitOrder, if_neg hsplit]
    simp only [cons_append]
    rw [filter_cons_of_pos rfl, filter_append, filter_append, hrun,
      ih (h.tail.dropWhile _), map_cons, splitSlot_overlap hsplit, horder]
    simp [Slot.isWeight]
  | case4 slot order hslot ih =>
    rw [splitOrder, filter_cons_of_pos (by simp [h.not_isWeight]), ih h.tail, map_cons,
      splitSlot_of_not_overlap hslot]
    exact hslot

theorem not_mem_leafSteps_of_isWeight {step : MetaStep} (hstep : step.type ≠ .bwdWeight)
    (slot : Slot) (hslot : (!slot.isWeight) = false) : step ∉ slot.leafSteps := by
  intro hmem
  cases slot with
  | step leaf =>
    obtain rfl := mem_singleton.mp hmem
    obtain ⟨micro, type, stage⟩ := step
    cases type <;> first | exact hstep rfl | cases hslot
  | bubble => cases hmem
  | overlap type first second => cases hslot

theorem count_splitOrder (h : Unsplit order) {step : MetaStep} (hstep : step.type ≠ .bwdWeight) :
    ((splitOrder order).flatMap Slot.leafSteps).count step =
      ((order.map splitSlot).flatMap Slot.leafSteps).count step := by
  rw [← filter_splitOrder order h]
  exact (count_leafSteps_filter (not_mem_leafSteps_of_isWeight hstep) _).symm

theorem count_fwd_splitOrder (h : Unsplit order) (micro stage : Nat) :
    ((splitOrder order).flatMap Slot.leafSteps).count ⟨micro, .fwd, stage⟩ =
      (order.flatMap Slot.leafSteps).count ⟨micro, .fwd, stage⟩ := by
  rw [count_splitOrder h (by simp)]
  clear h
  induction order with
  | nil => rfl
  | cons slot order ih =>
    rw [map_cons, flatMap_cons, flatMap_cons, count_append, count_append, ih]
    congr 1
    unfold splitSlot
    split <;> simp [Slot.leafSteps, count_cons]

theorem count_bwd_splitOrder (h : Unsplit order) (micro stage : Nat) :
    ((splitOrder order).flatMap Slot.leafSteps).count ⟨micro, .bwd, stage⟩ +
        ((splitOrder order).flatMap Slot.leafSteps).count ⟨micro, .bwdInput, stage⟩ =
      (order.flatMap Slot.leafSteps).count ⟨micro, .bwd, stage⟩ := by
  rw [count_splitOrder h (by simp), count_splitOrder h (by simp)]
  induction order with
  | nil => rfl
  | cons slot order ih =>
    have htail := ih h.tail
    have hslot : (splitSlot slot).leafSteps.count ⟨micro, .bwd, stage⟩ +
        (splitSlot slot).leafSteps.count ⟨micro, .bwdInput, stage⟩ =
        slot.leafSteps.count ⟨micro, .bwd, stage⟩ := by
      have hinput : slot.leafSteps.count ⟨micro, .bwdInput, stage⟩ = 0 :=
        count_eq_zero.mpr fun hmem => (h slot mem_cons_self _ hmem).1 rfl
      revert hinput
      unfold splitSlot
      split
      · simp only [Slot.leafSteps, count_cons, count_nil]
        intro hinput
        simp_all
      · omega
    simp only [map_cons, flatMap_cons, count_append]
    omega

theorem count_weight_splitOrder (h : Unsplit order) (micro stage : Nat) :
    ((splitOrder order).flatMap Slot.leafSteps).count ⟨micro, .bwdWeight, stage⟩ =
      ((splitOrder order).flatMap Slot.leafSteps).count ⟨micro, .bwdInput, stage⟩ := by
  have hnone : ∀ slot order, Unsplit (slot :: order) →
      slot.leafSteps.count ⟨micro, .bwdWeight, stage⟩ = 0 ∧
        slot.leafSteps.count ⟨micro, .bwdInput, stage⟩ = 0 := fun slot order h =>
    ⟨count_eq_zero.mpr fun hmem => (h slot mem_cons_self _ hmem).2 rfl,
      count_eq_zero.mpr fun hmem => (h slot mem_cons_self _ hmem).1 rfl⟩
  induction order using splitOrder.induct with
  | case1 => simp [splitOrder]
  | case2 order bwdSub fwdSub hfirst ih =>
    obtain ⟨hweight, hinput⟩ := hnone _ _ h
    rw [splitOrder, if_pos hfirst, flatMap_cons, count_append, count_append, hweight,
      hinput, ih h.tail]
  | case3 order bwdSub fwdSub hsplit run ih =>
    obtain ⟨hweight, hinput⟩ := hnone _ _ h
    have hrun : ∀ step : MetaStep, step.type = .bwdWeight ∨ step.type = .bwdInput →
        (run.1.flatMap Slot.leafSteps).count step = 0 := by
      intro step hstep
      refine count_eq_zero.mpr fun hmem => ?_
      obtain ⟨slot, hslot, hleaf⟩ := mem_flatMap.mp hmem
      have hp2p := mem_p2pRunAfter hslot
      cases slot with
      | step leaf =>
        obtain rfl := mem_singleton.mp hleaf
        obtain ⟨micro, type, stage⟩ := step
        rcases hstep with rfl | rfl <;> cases hp2p
      | bubble => cases hp2p
      | overlap type first second => cases hp2p
    have hrest : ((splitOrder (p2pRunAfter order).2).flatMap Slot.leafSteps).count
          ⟨micro, .bwdWeight, stage⟩ =
        ((splitOrder (p2pRunAfter order).2).flatMap Slot.leafSteps).count
          ⟨micro, .bwdInput, stage⟩ := ih (h.tail.dropWhile _)
    simp only [Slot.leafSteps, count_cons, count_nil] at hweight hinput
    rw [splitOrder, if_neg hsplit]
    simp only [flatMap_append, flatMap_cons, flatMap_nil, count_append,
      cons_append, Slot.leafSteps, count_cons, count_nil]
    rw [hrun _ (Or.inl rfl), hrun _ (Or.inr rfl), hrest]
    simp_all
    omega
  | case4 slot order hslot ih =>
    obtain ⟨hweight, hinput⟩ := hnone _ _ h
    rw [splitOrder, flatMap_cons, count_append, count_append, hweight, hinput, ih h.tail]
    exact hslot

/-! ## What stands before what -/

theorem Unsplit.splitSlot_injOn (h : Unsplit order) {a b : Slot} (ha : a ∈ order) (hb : b ∈ order)
    (heq : splitSlot a = splitSlot b) : a = b := by
  have hinput : ∀ slot ∈ order, ∀ micro stage fwdSub,
      slot ≠ .overlap .bwdFwd ⟨micro, .bwdInput, stage⟩ fwdSub := by
    rintro slot hslot micro stage fwdSub rfl
    exact (h _ hslot _ mem_cons_self).1 rfl
  unfold splitSlot at heq
  split at heq <;> split at heq
  · simp_all
  · exact absurd heq.symm (hinput b hb _ _ _)
  · exact absurd heq (hinput a ha _ _ _)
  · exact heq

theorem Unsplit.splitSlot_not_isWeight (h : Unsplit order) (hslot : slot ∈ order) :
    (splitSlot slot).isWeight = false := by
  have hsingle : Unsplit [slot] := fun s hs => h s (by rwa [mem_singleton.mp hs])
  have hweight := hsingle.not_isWeight
  unfold splitSlot
  split
  · rfl
  · exact hweight

theorem splitOrder_pair_iff (h : Unsplit order) {first second : Slot} (hfirst : first ∈ order)
    (hsecond : second ∈ order) :
    [splitSlot first, splitSlot second].Sublist (splitOrder order) ↔
      [first, second].Sublist order := by
  constructor
  · intro hpair
    have hkeep := hpair.filter fun slot => !slot.isWeight
    rw [filter_splitOrder order h, filter_eq_self.mpr (by
      simp [h.splitSlot_not_isWeight hfirst, h.splitSlot_not_isWeight hsecond])] at hkeep
    obtain ⟨pair, hsub, hmap⟩ := sublist_map_iff.mp hkeep
    obtain ⟨a, rest, rfl, ha, hrest⟩ := map_eq_cons_iff.mp hmap.symm
    obtain ⟨b, rest, rfl, hb, hrest⟩ := map_eq_cons_iff.mp hrest
    obtain rfl := map_eq_nil_iff.mp hrest
    rwa [← h.splitSlot_injOn (hsub.subset (by simp)) hfirst ha,
      ← h.splitSlot_injOn (hsub.subset (by simp)) hsecond hb]
  · intro hpair
    refine List.Sublist.trans ?_ (filter_sublist (p := fun slot => !slot.isWeight))
    rw [filter_splitOrder order h]
    exact hpair.map splitSlot

theorem mem_splitOrder (h : Unsplit order) (hslot : slot ∈ splitOrder order) :
    slot.isWeight = true ∨ ∃ source ∈ order, splitSlot source = slot := by
  cases hweight : slot.isWeight with
  | true => exact Or.inl rfl
  | false =>
    have hmem : slot ∈ (splitOrder order).filter fun slot => !slot.isWeight :=
      mem_filter.mpr ⟨hslot, by simp [hweight]⟩
    rw [filter_splitOrder order h] at hmem
    exact Or.inr (mem_map.mp hmem)

theorem splitSlot_mem (h : Unsplit order) (hslot : slot ∈ order) :
    splitSlot slot ∈ splitOrder order := by
  have hmem := mem_map_of_mem (f := splitSlot) hslot
  rw [← filter_splitOrder order h] at hmem
  exact mem_of_mem_filter hmem

end HyperParallel.Pipeline
