import HyperParallel.Pipeline.OverlapSplit

/-!
# Transfers at the boundary of an overlap

The transfers behind an overlap that need not wait for its backward are hung on
the overlap and issued while the backward still runs.
-/

namespace HyperParallel.Pipeline

open Foundation List

structure AttachedSlot where
  slot : Slot
  boundaryP2P : List Slot
  deriving DecidableEq, Repr

def isRecvStep : Slot → Bool
  | .step ⟨_, type, _⟩ => type = .fwdRecv ∨ type = .bwdRecv
  | _ => false

def isOwnFwdSend (fwdSub : Option MetaStep) : Slot → Bool
  | .step step =>
    match fwdSub with
    | some fwd => step.type = .fwdSend ∧ step.stageIndex = fwd.stageIndex ∧
        step.microIndex = fwd.microIndex
    | none => false
  | _ => false

def splitBoundaryRun (step : Slot) (run : List Slot) : List Slot × List Slot :=
  let fwdSub := step.leafSteps.find? (·.type = .fwd)
  (run.filter (isOwnFwdSend fwdSub) ++ run.filter isRecvStep,
    run.filter fun slot => !isOwnFwdSend fwdSub slot && !isRecvStep slot)

def attachOrder : List Slot → List AttachedSlot
  | [] => []
  | slot :: order =>
    match slot with
    | .overlap .bwdFwd first second =>
      let run := p2pRunAfter order
      let parts := splitBoundaryRun (.overlap .bwdFwd first second) run.1
      if parts.1 = [] then ⟨slot, []⟩ :: attachOrder order
      else ⟨slot, parts.1⟩ :: parts.2.map (⟨·, []⟩) ++ attachOrder run.2
    | _ => ⟨slot, []⟩ :: attachOrder order
termination_by order => order.length
decreasing_by
  all_goals simp only [List.length_cons, p2pRunAfter]
  all_goals have := (List.dropWhile_suffix (l := order) isP2P).length_le
  all_goals omega

def attachFwdBoundaryP2P (execOrder : Schedule) : Nat → List AttachedSlot :=
  fun rank => attachOrder (execOrder rank)

def issueOrder (order : List AttachedSlot) : List Slot :=
  order.flatMap fun attached => attached.slot :: attached.boundaryP2P

/-! ## Data before outputs -/

def isFwdSend : Slot → Bool
  | .step ⟨_, .fwdSend, _⟩ => true
  | _ => false

def isDataSend : Slot → Bool
  | .step ⟨_, .dataSend, _⟩ => true
  | _ => false

def DataFirst (order : List Slot) : Prop :=
  order.IsChain fun previous slot => isFwdSend slot = true → isDataSend previous = true

/-- No send of an output at the front. -/
def DataLed (order : List Slot) : Prop := DataFirst (.bubble :: order)

theorem dataLed_nil : DataLed [] := .singleton _

theorem DataLed.append {front back : List Slot} (hfront : DataLed front) (hback : DataLed back) :
    DataLed (front ++ back) := by
  rw [DataLed, DataFirst, ← cons_append, isChain_append]
  refine ⟨hfront, hback.tail, fun last _ head hhead hsend => ?_⟩
  obtain ⟨rest, rfl⟩ := head?_eq_some_iff.mp (Option.mem_def.mp hhead)
  have hfirst := isChain_cons_cons.mp hback
  cases hfirst.1 hsend

theorem dataLed_flatMap {α : Type*} {f : α → List Slot} {l : List α}
    (h : ∀ a ∈ l, DataLed (f a)) : DataLed (l.flatMap f) := by
  induction l with
  | nil => exact dataLed_nil
  | cons a l ih =>
    rw [flatMap_cons]
    exact (h a mem_cons_self).append (ih fun b hb => h b (mem_cons_of_mem a hb))

variable {order : List Slot} {slot : Slot}

theorem dataFirst_of_none (h : ∀ slot ∈ order, isFwdSend slot = false)
    (previous : Slot) : DataFirst (previous :: order) := by
  induction order generalizing previous with
  | nil => exact .singleton _
  | cons slot order ih =>
    refine isChain_cons_cons.mpr ⟨fun hsend => ?_, ih (fun s hs =>
      h s (mem_cons_of_mem slot hs)) slot⟩
    rw [h slot mem_cons_self] at hsend
    cases hsend

theorem isDataSend_of_isP2P (h : isP2P slot = true) : isDataSend slot = false := by
  cases slot with
  | step leaf =>
    obtain ⟨micro, type, stage⟩ := leaf
    cases type <;> first | rfl | cases h
  | bubble => cases h
  | overlap type first second => cases h

theorem isP2P_of_isFwdSend (h : isFwdSend slot = true) : isP2P slot = true := by
  cases slot with
  | step leaf =>
    obtain ⟨micro, type, stage⟩ := leaf
    cases type <;> first | rfl | cases h
  | bubble => cases h
  | overlap type first second => cases h

theorem DataFirst.run {previous : Slot} (h : DataFirst (previous :: order))
    (hprevious : isDataSend previous = false) :
    ∀ slot ∈ (p2pRunAfter order).1, isFwdSend slot = false := by
  induction order generalizing previous with
  | nil => simp [p2pRunAfter]
  | cons head order ih =>
    obtain ⟨hhead, htail⟩ := isChain_cons_cons.mp h
    intro slot hslot
    cases hp2p : isP2P head with
    | false => simp [p2pRunAfter, hp2p] at hslot
    | true =>
      rw [p2pRunAfter, takeWhile_cons_of_pos hp2p] at hslot
      rcases mem_cons.mp hslot with rfl | hrest
      · cases hsend : isFwdSend slot with
        | false => rfl
        | true => simp [hhead hsend] at hprevious
      · exact ih htail (isDataSend_of_isP2P hp2p) slot hrest

theorem DataFirst.afterRun {previous : Slot}
    (h : DataFirst (previous :: order)) (other : Slot) :
    DataFirst (other :: (p2pRunAfter order).2) := by
  have hrest : DataFirst (p2pRunAfter order).2 := h.tail.suffix (dropWhile_suffix isP2P)
  cases hdrop : (p2pRunAfter order).2 with
  | nil => exact .singleton _
  | cons head rest =>
    rw [hdrop] at hrest
    refine isChain_cons_cons.mpr ⟨fun hsend => ?_, hrest⟩
    have hhead := head?_dropWhile_not isP2P order
    rw [show order.dropWhile isP2P = head :: rest from hdrop] at hhead
    simp [isP2P_of_isFwdSend hsend] at hhead

/-! ## What the attachment keeps -/

theorem issueOrder_cons (attached : AttachedSlot) (order : List AttachedSlot) :
    issueOrder (attached :: order) =
      attached.slot :: attached.boundaryP2P ++ issueOrder order := List.flatMap_cons

theorem issueOrder_append (front back : List AttachedSlot) :
    issueOrder (front ++ back) = issueOrder front ++ issueOrder back := List.flatMap_append

theorem issueOrder_plain (slots : List Slot) : issueOrder (slots.map (⟨·, []⟩)) = slots := by
  rw [issueOrder, flatMap_map]
  simp

theorem isOwnFwdSend_eq_false {fwdSub : Option MetaStep}
    (h : isFwdSend slot = false) : isOwnFwdSend fwdSub slot = false := by
  cases slot with
  | step leaf =>
    obtain ⟨micro, type, stage⟩ := leaf
    have htype : type ≠ .fwdSend := by
      rintro rfl
      cases h
    cases fwdSub <;> simp [isOwnFwdSend, htype]
  | bubble => rfl
  | overlap type first second => rfl

theorem splitBoundaryRun_eq {run : List Slot} (h : ∀ slot ∈ run, isFwdSend slot = false)
    (step : Slot) :
    splitBoundaryRun step run = (run.filter isRecvStep, run.filter (!isRecvStep ·)) := by
  rw [splitBoundaryRun]
  congr 1
  · rw [filter_eq_nil_iff.mpr fun slot hslot => by simp [isOwnFwdSend_eq_false (h slot hslot)],
      nil_append]
  · exact filter_congr fun slot hslot => by simp [isOwnFwdSend_eq_false (h slot hslot)]

def OneSided (keep : Slot → Bool) : Prop :=
  (∀ slot, isRecvStep slot = true → keep slot = false) ∨
    ∀ slot, isP2P slot = true → isRecvStep slot = false → keep slot = false

theorem OneSided.filter_run {keep : Slot → Bool} (hkeep : OneSided keep) {run : List Slot}
    (hp2p : ∀ slot ∈ run, isP2P slot = true) :
    (run.filter isRecvStep ++ run.filter (!isRecvStep ·)).filter keep = run.filter keep := by
  rw [filter_append, filter_filter, filter_filter]
  rcases hkeep with hkeep | hkeep
  · have hrecv : run.filter (fun slot => keep slot && isRecvStep slot) = [] := by
      refine filter_eq_nil_iff.mpr fun slot _ => ?_
      cases hslot : isRecvStep slot <;> simp [hkeep slot, hslot]
    rw [hrecv, nil_append]
    refine filter_congr fun slot _ => ?_
    cases hslot : isRecvStep slot <;> simp [hkeep slot, hslot]
  · have hsend : run.filter (fun slot => keep slot && !isRecvStep slot) = [] := by
      refine filter_eq_nil_iff.mpr fun slot hslot => ?_
      have := hkeep slot (hp2p slot hslot)
      cases hrecv : isRecvStep slot <;> simp_all
    rw [hsend, append_nil]
    refine filter_congr fun slot hslot => ?_
    have := hkeep slot (hp2p slot hslot)
    cases hrecv : isRecvStep slot <;> simp_all

theorem filter_attachOrder {keep : Slot → Bool} (hkeep : OneSided keep)
    (h : DataFirst order) : (issueOrder (attachOrder order)).filter keep = order.filter keep := by
  induction order using attachOrder.induct with
  | case1 => simp [attachOrder, issueOrder]
  | case2 order first second run parts hnone ih =>
    rw [attachOrder, if_pos hnone, issueOrder_cons, cons_append, nil_append]
    simp only [filter_cons]
    rw [ih h.tail]
  | case3 order first second run parts hparts ih =>
    have hplain : ∀ slot ∈ run.1, isFwdSend slot = false := h.run rfl
    have hsplit : parts = (run.1.filter isRecvStep, run.1.filter (!isRecvStep ·)) :=
      splitBoundaryRun_eq hplain _
    have hrest : DataFirst run.2 := h.tail.suffix (dropWhile_suffix isP2P)
    have horder : order = run.1 ++ run.2 := (takeWhile_append_dropWhile).symm
    have hattach : attachOrder (.overlap .bwdFwd first second :: order) =
        ⟨.overlap .bwdFwd first second, run.1.filter isRecvStep⟩ ::
          (run.1.filter (!isRecvStep ·)).map (⟨·, []⟩) ++ attachOrder run.2 := by
      rw [attachOrder, if_neg hparts]
      exact congrArg (fun parts : List Slot × List Slot =>
        ⟨.overlap .bwdFwd first second, parts.1⟩ :: parts.2.map (⟨·, []⟩) ++ attachOrder run.2)
        hsplit
    rw [hattach, cons_append, issueOrder_cons, issueOrder_append, issueOrder_plain,
      cons_append, ← append_assoc]
    simp only [filter_cons]
    rw [filter_append, hkeep.filter_run fun slot => mem_p2pRunAfter, ih hrest,
      ← filter_append, ← horder]
  | case4 slot order hslot ih =>
    rw [attachOrder, issueOrder_cons, cons_append, nil_append]
    · simp only [filter_cons]
      rw [ih h.tail]
    · exact hslot

end HyperParallel.Pipeline
