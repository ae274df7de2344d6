import HyperParallel.Pipeline.BoundaryP2P
import HyperParallel.Pipeline.InterleavedOrder

/-!
# The rewrites of the boundary transfers are safe

Hanging receives on an overlap and splitting its backward keep the sends and the
receives of every peer in order, leave every send behind what it sends and every
receive before what uses it, and keep the compute slots.
-/

namespace HyperParallel.Pipeline

open Foundation List

/-! ## Producers and consumers -/

def Produces (send step : MetaStep) : Prop :=
  step.microIndex = send.microIndex ∧ step.stageIndex = send.stageIndex ∧
    (send.type = .fwdSend ∧ step.type = .fwd ∨
      send.type = .bwdSend ∧ (step.type = .bwd ∨ step.type = .bwdInput))

def Consumes (recv step : MetaStep) : Prop :=
  step.microIndex = recv.microIndex ∧ step.stageIndex = recv.stageIndex ∧
    (recv.type = .fwdRecv ∧ step.type = .fwd ∨
      recv.type = .bwdRecv ∧ (step.type = .bwd ∨ step.type = .bwdInput))

def SendsProduced (order : List Slot) : Prop :=
  ∀ front send back, order = front ++ .step send :: back →
    send.type = .fwdSend ∨ send.type = .bwdSend →
    ∃ step ∈ front.flatMap Slot.leafSteps, Produces send step

def ReceivedFirst (order : List Slot) (recv : MetaStep) : Prop :=
  ∀ front slot back, order = front ++ slot :: back →
    (∃ step ∈ slot.leafSteps, Consumes recv step) → .step recv ∈ front

section Peers

variable (style : Style) (stageNum realStageNum : Nat)

def isSendTo (peer : Nat) : Slot → Bool
  | .step ⟨_, .dataSend, stage⟩ => stageToRank stageNum realStageNum style (stage + 1) = peer
  | .step ⟨_, .fwdSend, stage⟩ => stageToRank stageNum realStageNum style (stage + 1) = peer
  | .step ⟨_, .bwdSend, stage⟩ => stageToRank stageNum realStageNum style (stage - 1) = peer
  | _ => false

def isRecvFrom (peer : Nat) : Slot → Bool
  | .step ⟨_, .dataRecv, stage⟩ => stageToRank stageNum realStageNum style (stage - 1) = peer
  | .step ⟨_, .fwdRecv, stage⟩ => stageToRank stageNum realStageNum style (stage - 1) = peer
  | .step ⟨_, .bwdRecv, stage⟩ => stageToRank stageNum realStageNum style (stage + 1) = peer
  | _ => false

/-- What a rewrite of an order has to keep; `parts` says what becomes of a compute slot. -/
structure OrderSafe (order rewritten : List Slot) (parts : Slot → List Slot) : Prop where
  sends : ∀ peer, rewritten.filter (isSendTo style stageNum realStageNum peer) =
    order.filter (isSendTo style stageNum realStageNum peer)
  receives : ∀ peer, rewritten.filter (isRecvFrom style stageNum realStageNum peer) =
    order.filter (isRecvFrom style stageNum realStageNum peer)
  sendsProduced : SendsProduced rewritten
  receivedFirst : ∀ recv, recv.type = .fwdRecv ∨ recv.type = .bwdRecv →
    ReceivedFirst order recv → ReceivedFirst rewritten recv
  computes : rewritten.filter Slot.isCompute = (order.filter Slot.isCompute).flatMap parts

end Peers

def PureCompute (realStageNum : Nat) (scheduler : Schedule) : Prop :=
  ∀ rank < realStageNum, ∀ slot ∈ scheduler rank, ∀ step ∈ slot.leafSteps,
    step.type = .fwd ∨ step.type = .bwd

/-! ## Sends in the column scan -/

section Scan

variable {style : Style} {stageNum realStageNum : Nat} {scheduler : Schedule}

theorem PureCompute.isCompute (hcompute : PureCompute realStageNum scheduler) {rank : Nat}
    (hrank : rank < realStageNum) {slot : Slot} (hslot : slot ∈ scheduler rank) :
    slot.isCompute = true := by
  cases slot with
  | bubble => rfl
  | step leaf =>
    have htype := hcompute rank hrank _ hslot leaf (mem_singleton.mpr rfl)
    obtain ⟨micro, type, stage⟩ := leaf
    rcases htype with rfl | rfl <;> rfl
  | overlap type first second => rfl

theorem isCompute_of_sends {slot : Slot} (h : isFwdSend slot = true) : slot.isCompute = false := by
  cases slot with
  | step leaf =>
    obtain ⟨micro, type, stage⟩ := leaf
    cases type <;> first | rfl | cases h
  | bubble => cases h
  | overlap type first second => cases h

theorem insertComms_eq (rank peer target : Nat) (sends receives : List Slot) :
    appendTo (appendTo (fun _ => []) rank sends) peer receives target =
      (if target = rank then sends else []) ++ if target = peer then receives else [] := by
  have happend := appendTo_appends peer receives (appendTo (fun _ => []) rank sends) target
  dsimp only at happend
  rw [happend, appendTo_nil, appendTo_nil]

theorem insertCommsForStep_cases (step : MetaStep) (rank target : Nat) :
    insertCommsForStep style stageNum realStageNum step rank (fun _ => []) target = [] ∨
    (∃ peer, step.type = .fwd ∧
      insertCommsForStep style stageNum realStageNum step rank (fun _ => []) target =
        (if target = rank then [.step ⟨step.microIndex, .dataSend, step.stageIndex⟩,
          .step ⟨step.microIndex, .fwdSend, step.stageIndex⟩] else []) ++
        if target = peer then [.step ⟨step.microIndex, .dataRecv, step.stageIndex + 1⟩,
          .step ⟨step.microIndex, .fwdRecv, step.stageIndex + 1⟩] else []) ∨
    ∃ peer, step.type = .bwd ∧
      insertCommsForStep style stageNum realStageNum step rank (fun _ => []) target =
        (if target = rank then [.step ⟨step.microIndex, .bwdSend, step.stageIndex⟩] else []) ++
        if target = peer then [.step ⟨step.microIndex, .bwdRecv, step.stageIndex - 1⟩] else [] := by
  obtain ⟨micro, type, stage⟩ := step
  cases type with
  | fwd =>
    simp only [insertCommsForStep]
    cases fwdPeer style stageNum realStageNum stage with
    | none => exact Or.inl rfl
    | some peer => exact Or.inr (Or.inl ⟨peer, trivial, insertComms_eq ..⟩)
  | bwd =>
    simp only [insertCommsForStep]
    cases bwdPeer style stageNum realStageNum stage with
    | none => exact Or.inl rfl
    | some peer => exact Or.inr (Or.inr ⟨peer, trivial, insertComms_eq ..⟩)
  | _ => exact Or.inl rfl

theorem dataLed_insertCommsForStep (step : MetaStep) (rank target : Nat) :
    DataLed (insertCommsForStep style stageNum realStageNum step rank (fun _ => []) target) := by
  have hpair : ∀ micro stage, DataLed
      [.step ⟨micro, .dataSend, stage⟩, .step ⟨micro, .fwdSend, stage⟩] := by
    intro micro stage
    simp [DataLed, DataFirst, isFwdSend, isDataSend]
  rcases insertCommsForStep_cases step rank target with
    hnil | ⟨peer, -, hblock⟩ | ⟨peer, -, hblock⟩
  · rw [hnil]
    exact dataLed_nil
  · rw [hblock]
    refine DataLed.append ?_ (dataFirst_of_none (fun slot hslot => ?_) _)
    · split
      · exact hpair _ _
      · exact dataLed_nil
    · simp only [mem_ite_nil_right, mem_pair] at hslot
      rcases hslot with ⟨-, rfl | rfl⟩ <;> rfl
  · rw [hblock]
    refine dataFirst_of_none (fun slot hslot => ?_) _
    simp only [mem_append, mem_ite_nil_right, mem_singleton] at hslot
    rcases hslot with ⟨-, rfl⟩ | ⟨-, rfl⟩ <;> rfl

theorem produces_of_mem_insertComms {step send : MetaStep} {rank target : Nat}
    (hsend : send.type = .fwdSend ∨ send.type = .bwdSend)
    (hmem : .step send ∈
      insertCommsForStep style stageNum realStageNum step rank (fun _ => []) target) :
    target = rank ∧ Produces send step := by
  obtain ⟨micro, type, stage⟩ := send
  rcases insertCommsForStep_cases step rank target with
    hnil | ⟨peer, htype, hblock⟩ | ⟨peer, htype, hblock⟩
  · rw [hnil] at hmem
    cases hmem
  · rw [hblock] at hmem
    simp only [mem_append, mem_ite_nil_right, mem_pair, Slot.step.injEq, MetaStep.mk.injEq] at hmem
    rcases hsend with rfl | rfl <;> simp_all [Produces]
  · rw [hblock] at hmem
    simp only [mem_append, mem_ite_nil_right, mem_singleton, Slot.step.injEq,
      MetaStep.mk.injEq] at hmem
    rcases hsend with rfl | rfl <;> simp_all [Produces]

theorem dataLed_columnScan (hcompute : PureCompute realStageNum scheduler) (target : Nat) :
    DataLed (columnScanInsertComms style stageNum realStageNum (expandOverlapSlots scheduler)
      target) := by
  rw [columnScan_eq]
  refine dataLed_flatMap fun timeStep _ => DataLed.append ?_ (dataLed_flatMap fun rank _ => ?_)
  · refine dataFirst_of_none (fun slot hslot => ?_) _
    obtain ⟨htarget, hemitted⟩ := mem_emittedAt.mp hslot
    cases hsend : isFwdSend slot with
    | false => rfl
    | true =>
      have hcomm := isCompute_of_sends hsend
      rw [hcompute.isCompute htarget hemitted.mem] at hcomm
      cases hcomm
  · rw [visited]
    split
    · rename_i item _
      cases item with
      | phantom overlap subStep isFirstHalf => exact dataLed_insertCommsForStep subStep rank target
      | slot slot =>
        cases slot with
        | step step => exact dataLed_insertCommsForStep step rank target
        | bubble => exact dataLed_nil
        | overlap type first second => exact dataLed_nil
    · exact dataLed_nil

theorem isFwdSend_loadsFor {slot load : Slot} (h : load ∈ loadsFor slot) :
    isFwdSend load = false := by
  obtain ⟨step, -, rfl⟩ := mem_map.mp h
  rfl

theorem DataFirst.insertLoads {previous : Slot} {order : List Slot}
    (h : DataFirst (previous :: order)) :
    DataFirst (previous :: order.flatMap fun slot => loadsFor slot ++ [slot]) := by
  induction order generalizing previous with
  | nil => exact h
  | cons slot order ih =>
    obtain ⟨hhead, htail⟩ := isChain_cons_cons.mp h
    have hrest := ih htail
    rw [flatMap_cons, append_assoc, singleton_append]
    cases hsend : isFwdSend slot with
    | true =>
      have hloads : loadsFor slot = [] := by
        cases slot with
        | step leaf =>
          obtain ⟨micro, type, stage⟩ := leaf
          cases type <;> first | rfl | cases hsend
        | bubble => rfl
        | overlap type first second => cases hsend
      rw [hloads]
      exact isChain_cons_cons.mpr ⟨hhead, hrest⟩
    | false =>
      have hloads : DataFirst (previous :: loadsFor slot) :=
        dataFirst_of_none (fun _ => isFwdSend_loadsFor) previous
      rw [← cons_append]
      refine isChain_append.mpr ⟨hloads, hrest, fun last _ head hhead hsend' => ?_⟩
      obtain rfl := Option.some.inj hhead
      rw [hsend] at hsend'
      cases hsend'

theorem dataLed_addSendRecv (hcompute : PureCompute realStageNum scheduler) (rank : Nat) :
    DataLed (addSendRecv style stageNum realStageNum scheduler rank) :=
  DataFirst.insertLoads (dataLed_columnScan hcompute rank)

/-! ## Sends come after what they send -/

theorem InColumn.emitted {slots : List Slot} {step : MetaStep} {t : Nat}
    (h : InColumn slots step t) :
    ∃ slot s, s ≤ t ∧ step ∈ slot.leafSteps ∧ EmittedIn slots slot s := by
  induction slots generalizing t with
  | nil =>
    obtain ⟨item, hget, -⟩ := h
    cases hget
  | cons slot slots ih =>
    obtain ⟨item, hget, hstep⟩ := h
    rw [flatMap_cons] at hget
    by_cases hlt : t < (expandSlot slot).length
    · -- the column lies in the slot itself
      rw [getElem?_append_left hlt] at hget
      have hitem := mem_of_getElem? hget
      refine ⟨slot, 0, Nat.zero_le t, ?_, ?_⟩
      · cases slot with
        | bubble =>
          obtain rfl := mem_singleton.mp hitem
          cases hstep
        | step leaf =>
          obtain rfl := mem_singleton.mp hitem
          exact mem_singleton.mpr (Option.some.inj hstep).symm
        | overlap type first second =>
          rcases mem_pair.mp hitem with rfl | rfl
          · obtain rfl := Option.some.inj hstep
            exact mem_cons_self
          · obtain rfl := Option.some.inj hstep
            exact mem_cons_of_mem _ mem_cons_self
      · cases slot with
        | bubble => exact ⟨_, rfl, mem_singleton.mpr rfl⟩
        | step leaf => exact ⟨_, rfl, mem_singleton.mpr rfl⟩
        | overlap type first second => exact ⟨_, rfl, mem_singleton.mpr rfl⟩
    · rw [getElem?_append_right (Nat.le_of_not_lt hlt)] at hget
      obtain ⟨owner, s, hle, hleaf, hemitted⟩ := ih ⟨item, hget, hstep⟩
      refine ⟨owner, (expandSlot slot).length + s, by omega, hleaf, ?_⟩
      have := hemitted.append_right [slot]
      rwa [width, flatMap_singleton] at this

theorem inColumn_of_send {send : MetaStep} {t rank : Nat}
    (hsend : send.type = .fwdSend ∨ send.type = .bwdSend)
    (hmem : .step send ∈ commsAt style stageNum realStageNum (expandOverlapSlots scheduler) t rank) :
    ∃ step, InColumn (scheduler rank) step t ∧ Produces send step := by
  obtain ⟨source, -, hvisited⟩ := mem_flatMap.mp hmem
  obtain ⟨item, hget, hcomm⟩ := mem_visited.mp hvisited
  cases item with
  | phantom overlap subStep isFirstHalf =>
    obtain ⟨rfl, hproduces⟩ := produces_of_mem_insertComms hsend hcomm
    exact ⟨subStep, ⟨_, hget, rfl⟩, hproduces⟩
  | slot slot =>
    cases slot with
    | step step =>
      obtain ⟨rfl, hproduces⟩ := produces_of_mem_insertComms hsend hcomm
      exact ⟨step, ⟨_, hget, rfl⟩, hproduces⟩
    | bubble => cases hcomm
    | overlap type first second => cases hcomm

theorem sendsProduced_columnScan (hcompute : PureCompute realStageNum scheduler) {rank : Nat}
    (hrank : rank < realStageNum) :
    SendsProduced (columnScanInsertComms style stageNum realStageNum (expandOverlapSlots scheduler)
      rank) := by
  intro front send back hsplit hsend
  have hsorted := taggedScan_sorted style stageNum realStageNum (expandOverlapSlots scheduler) rank
  rw [← map_snd_taggedScan] at hsplit
  obtain ⟨tagged, rest, htagged, hfront, hrest⟩ := map_eq_append_iff.mp hsplit
  obtain ⟨⟨place, slot⟩, behind, rfl, hslot, -⟩ := map_eq_cons_iff.mp hrest
  obtain rfl : slot = .step send := hslot
  have hmem : (place, .step send) ∈
      taggedScan style stageNum realStageNum (expandOverlapSlots scheduler) rank := by
    simp [htagged]
  simp only [taggedScan, mem_flatMap, mem_range, mem_append, mem_map,
    mem_emittedAt, Prod.mk.injEq] at hmem
  obtain ⟨t, -, ⟨_, ⟨-, hemitted⟩, -, rfl⟩ | ⟨_, hcomm, rfl, rfl⟩⟩ := hmem
  · -- the scan emits compute slots only
    have hcompute' := hcompute.isCompute hrank hemitted.mem
    obtain ⟨micro, type, stage⟩ := send
    rcases hsend with rfl | rfl <;> cases hcompute'
  · obtain ⟨step, hcolumn, hproduces⟩ := inColumn_of_send hsend hcomm
    obtain ⟨owner, s, hle, hleaf, hemitted⟩ := hcolumn.emitted
    have hplace : (2 * s, owner) ∈
        taggedScan style stageNum realStageNum (expandOverlapSlots scheduler) rank := by
      obtain ⟨item, hget, -⟩ := id hemitted
      refine mem_flatMap.mpr ⟨s, mem_range.mpr (lt_maxLength hrank hget), ?_⟩
      exact mem_append_left _ (mem_map_of_mem (mem_emittedAt.mpr ⟨hrank, hemitted⟩))
    -- what is emitted no later than the column stands in front of its communications
    have hfirst : (2 * s, owner) ∈ tagged := by
      rw [htagged] at hplace hsorted
      rcases mem_append.mp hplace with h | h
      · exact h
      · obtain ⟨-, hbehind, -⟩ := pairwise_append.mp hsorted
        rcases mem_cons.mp h with h | h
        · have := congrArg Prod.fst h
          dsimp only at this
          omega
        · have := (pairwise_cons.mp hbehind).1 _ h
          dsimp only at this
          omega
    refine ⟨step, mem_flatMap.mpr ⟨owner, ?_, hleaf⟩, hproduces⟩
    rw [← hfront]
    exact mem_map_of_mem hfirst

end Scan

/-! ## Rewrites that keep the roles of the slots -/

structure KeepsRoles (rewrite : Slot → Slot) : Prop where
  step : ∀ step, rewrite (.step step) = .step step
  of_step : ∀ {slot step}, rewrite slot = .step step → slot = .step step
  produces : ∀ {slot send step}, step ∈ slot.leafSteps → Produces send step →
    ∃ step' ∈ (rewrite slot).leafSteps, Produces send step'
  consumes : ∀ {slot recv step}, step ∈ (rewrite slot).leafSteps → Consumes recv step →
    ∃ step' ∈ slot.leafSteps, Consumes recv step'

theorem keepsRoles_id : KeepsRoles id where
  step _ := rfl
  of_step h := h
  produces hstep h := ⟨_, hstep, h⟩
  consumes hstep h := ⟨_, hstep, h⟩

theorem keepsRoles_splitSlot : KeepsRoles splitSlot where
  step _ := rfl
  of_step := splitSlot_eq_step
  produces := by
    intro slot send step hstep h
    rcases leafSteps_splitSlot hstep with hleaf | ⟨htype, hleaf⟩
    · exact ⟨step, hleaf, h⟩
    · obtain ⟨hmicro, hstage, ⟨-, hfwd⟩ | ⟨hsend, -⟩⟩ := h
      · rw [htype] at hfwd
        cases hfwd
      · exact ⟨_, hleaf, hmicro, hstage, Or.inr ⟨hsend, Or.inr rfl⟩⟩
  consumes := by
    intro slot recv step hstep h
    rcases mem_leafSteps_splitSlot hstep with hleaf | ⟨htype, hleaf⟩
    · exact ⟨step, hleaf, h⟩
    · obtain ⟨hmicro, hstage, ⟨-, hfwd⟩ | ⟨hrecv, -⟩⟩ := h
      · rw [htype] at hfwd
        cases hfwd
      · exact ⟨_, hleaf, hmicro, hstage, Or.inr ⟨hrecv, Or.inl rfl⟩⟩

theorem occurrence_of_filter {keep : Slot → Bool} {rewrite : Slot → Slot}
    {order front back : List Slot} {slot : Slot}
    (h : (order.filter keep).map rewrite = front ++ slot :: back) :
    ∃ front' source back', order = front' ++ source :: back' ∧ rewrite source = slot ∧
      (front'.filter keep).map rewrite = front := by
  obtain ⟨kept, rest, hkept, hfront, hrest⟩ := map_eq_append_iff.mp h
  obtain ⟨source, behind, rfl, hsource, -⟩ := map_eq_cons_iff.mp hrest
  obtain ⟨before, after, rfl, hbefore, hafter⟩ := filter_eq_append_iff.mp hkept
  obtain ⟨dropped, behind', rfl, hdropped, -, -⟩ := filter_eq_cons_iff.mp hafter
  refine ⟨before ++ dropped, source, behind', by simp, hsource, ?_⟩
  rw [filter_append, hbefore, filter_eq_nil_iff.mpr hdropped, append_nil, hfront]

def KeepsComputes (keep : Slot → Bool) : Prop :=
  ∀ slot, ∀ step ∈ slot.leafSteps, step.type = .fwd ∨ step.type = .bwd ∨ step.type = .bwdInput →
    keep slot = true

section Through

variable {keep : Slot → Bool} {rewrite : Slot → Slot} {order rewritten : List Slot}
  (hrewrite : KeepsRoles rewrite) (hcomputes : KeepsComputes keep)
  (h : rewritten.filter keep = (order.filter keep).map rewrite)
include hrewrite hcomputes h

theorem SendsProduced.through (hproduced : SendsProduced order)
    (hsends : ∀ send : MetaStep, send.type = .fwdSend ∨ send.type = .bwdSend →
      keep (.step send) = true) : SendsProduced rewritten := by
  intro front send back hsplit hsend
  rw [hsplit, filter_append, filter_cons_of_pos (hsends send hsend)] at h
  obtain ⟨front', source, back', horder, hsource, hfront⟩ := occurrence_of_filter h.symm
  obtain rfl := hrewrite.of_step hsource
  obtain ⟨step, hstep, hproduces⟩ := hproduced front' send back' horder hsend
  obtain ⟨slot, hslot, hleaf⟩ := mem_flatMap.mp hstep
  have hkept : slot ∈ front'.filter keep := by
    refine mem_filter.mpr ⟨hslot, hcomputes slot step hleaf ?_⟩
    obtain ⟨-, -, ⟨-, h⟩ | ⟨-, h⟩⟩ := hproduces
    · exact Or.inl h
    · exact Or.inr h
  obtain ⟨step', hstep', hproduces'⟩ := hrewrite.produces hleaf hproduces
  refine ⟨step', mem_flatMap.mpr ⟨rewrite slot, ?_, hstep'⟩, hproduces'⟩
  have hmem := mem_map_of_mem (f := rewrite) hkept
  rw [hfront] at hmem
  exact mem_of_mem_filter hmem

theorem ReceivedFirst.through {recv : MetaStep} (hrecv : keep (.step recv) = true)
    (hfirst : ReceivedFirst order recv) : ReceivedFirst rewritten recv := by
  rintro front slot back hsplit ⟨step, hleaf, hconsumes⟩
  have hslot : keep slot = true := by
    refine hcomputes slot step hleaf ?_
    obtain ⟨-, -, ⟨-, h⟩ | ⟨-, h⟩⟩ := hconsumes
    · exact Or.inl h
    · exact Or.inr h
  rw [hsplit, filter_append, filter_cons_of_pos hslot] at h
  obtain ⟨front', source, back', horder, rfl, hfront⟩ := occurrence_of_filter h.symm
  have hmem := hfirst front' source back' horder (hrewrite.consumes hleaf hconsumes)
  have hkept := mem_map_of_mem (f := rewrite) (mem_filter.mpr ⟨hmem, hrecv⟩)
  rw [hfront, hrewrite.step] at hkept
  exact mem_of_mem_filter hkept

end Through

/-! ## The attachment -/

section Safe

variable {style : Style} {stageNum realStageNum : Nat} {order rewritten : List Slot}
  {parts : Slot → List Slot}

variable {slot : Slot}

theorem isRecvStep_of_isCompute (h : slot.isCompute = true) : isRecvStep slot = false := by
  cases slot with
  | step leaf =>
    obtain ⟨micro, type, stage⟩ := leaf
    cases type <;> first | rfl | cases h
  | bubble => rfl
  | overlap type first second => rfl

theorem isP2P_of_isCompute (h : slot.isCompute = true) : isP2P slot = false := by
  cases slot with
  | step leaf =>
    obtain ⟨micro, type, stage⟩ := leaf
    cases type <;> first | rfl | cases h
  | bubble => rfl
  | overlap type first second => rfl

theorem isCompute_of_leaf {step : MetaStep} (hleaf : step ∈ slot.leafSteps)
    (htype : step.type = .fwd ∨ step.type = .bwd ∨ step.type = .bwdInput) :
    slot.isCompute = true := by
  cases hcomm : slot.isCompute with
  | true => rfl
  | false => exact absurd hleaf (not_mem_leafSteps_of_comm (by tauto) slot hcomm)

theorem OrderSafe.attach (h : OrderSafe style stageNum realStageNum order rewritten parts)
    (hdata : DataFirst rewritten) :
    OrderSafe style stageNum realStageNum order (issueOrder (attachOrder rewritten)) parts := by
  have hnonRecv : OneSided (!isRecvStep ·) := Or.inl fun slot hslot => by simp [hslot]
  have hnonSend : OneSided fun slot => !isP2P slot || isRecvStep slot :=
    Or.inr fun slot hp2p hrecv => by simp [hp2p, hrecv]
  constructor
  · intro peer
    rw [← h.sends peer]
    refine filter_attachOrder (Or.inl fun slot hslot => ?_) hdata
    cases slot with
    | step leaf =>
      obtain ⟨micro, type, stage⟩ := leaf
      cases type <;> first | rfl | cases hslot
    | bubble => rfl
    | overlap type first second => rfl
  · intro peer
    rw [← h.receives peer]
    refine filter_attachOrder (Or.inr fun slot hp2p hslot => ?_) hdata
    cases slot with
    | step leaf =>
      obtain ⟨micro, type, stage⟩ := leaf
      cases type <;> first
        | rfl
        | (simp [isRecvStep] at hslot; done)
        | (simp [isP2P] at hp2p; done)
    | bubble => rfl
    | overlap type first second => rfl
  · refine SendsProduced.through keepsRoles_id (fun slot step hleaf htype => ?_)
      (by rw [map_id]; exact filter_attachOrder hnonRecv hdata) h.sendsProduced ?_
    · simp [isRecvStep_of_isCompute (isCompute_of_leaf hleaf htype)]
    · rintro ⟨micro, type, stage⟩ (rfl | rfl) <;> rfl
  · intro recv hrecv hfirst
    refine ReceivedFirst.through keepsRoles_id (fun slot step hleaf htype => ?_)
      (by rw [map_id]; exact filter_attachOrder hnonSend hdata) ?_
      (h.receivedFirst recv hrecv hfirst)
    · simp [isP2P_of_isCompute (isCompute_of_leaf hleaf htype)]
    · obtain ⟨micro, type, stage⟩ := recv
      rcases hrecv with rfl | rfl <;> rfl
  · rw [← h.computes]
    refine filter_attachOrder (Or.inl fun slot hslot => ?_) hdata
    cases hcompute : slot.isCompute with
    | false => rfl
    | true => simp [isRecvStep_of_isCompute hcompute] at hslot

theorem OrderSafe.refl (h : SendsProduced order) :
    OrderSafe style stageNum realStageNum order order ([·]) where
  sends _ := rfl
  receives _ := rfl
  sendsProduced := h
  receivedFirst _ _ h := h
  computes := by simp

/-! ## The split -/

theorem DataFirst.split {previous : Slot} (h : DataFirst (previous :: order)) :
    DataFirst (previous :: splitOrder order) := by
  induction order using splitOrder.induct generalizing previous with
  | case1 => rwa [splitOrder]
  | case2 order bwdSub fwdSub hfirst ih =>
    obtain ⟨hhead, htail⟩ := isChain_cons_cons.mp h
    rw [splitOrder, if_pos hfirst]
    exact isChain_cons_cons.mpr ⟨hhead, ih htail⟩
  | case3 order bwdSub fwdSub hsplit run =>
    rename_i ih
    have htail : DataFirst (.overlap .bwdFwd bwdSub fwdSub :: order) := (isChain_cons_cons.mp h).2
    -- the weight part stands behind the run, so no output follows its data through it
    have hfront : ∀ slot ∈ Slot.overlap .bwdFwd ⟨bwdSub.microIndex, .bwdInput, bwdSub.stageIndex⟩
        fwdSub :: (p2pRunAfter order).1, isFwdSend slot = false := by
      intro slot hslot
      rcases mem_cons.mp hslot with rfl | hslot
      · rfl
      · exact htail.run rfl slot hslot
    have hback := ih (htail.afterRun (.step ⟨bwdSub.microIndex, .bwdWeight, bwdSub.stageIndex⟩))
    rw [splitOrder, if_neg hsplit]
    simp only [cons_append, append_assoc]
    rw [← cons_append, ← cons_append]
    refine isChain_append.mpr ⟨dataFirst_of_none hfront previous, hback,
      fun last _ head hhead hsend => ?_⟩
    obtain rfl := Option.some.inj hhead
    cases hsend
  | case4 slot order hslot ih =>
    obtain ⟨hhead, htail⟩ := isChain_cons_cons.mp h
    rw [splitOrder]
    · exact isChain_cons_cons.mpr ⟨hhead, ih htail⟩
    · exact hslot

def splitParts : Slot → List Slot
  | .overlap .bwdFwd ⟨micro, .bwd, stage + 1⟩ fwdSub =>
    [.overlap .bwdFwd ⟨micro, .bwdInput, stage + 1⟩ fwdSub, .step ⟨micro, .bwdWeight, stage + 1⟩]
  | slot => [slot]

theorem splitParts_overlap {bwdSub fwdSub : MetaStep}
    (h : ¬(bwdSub.type ≠ .bwd ∨ bwdSub.stageIndex = 0)) :
    splitParts (.overlap .bwdFwd bwdSub fwdSub) =
      [.overlap .bwdFwd ⟨bwdSub.microIndex, .bwdInput, bwdSub.stageIndex⟩ fwdSub,
        .step ⟨bwdSub.microIndex, .bwdWeight, bwdSub.stageIndex⟩] := by
  obtain ⟨micro, type, stage⟩ := bwdSub
  push Not at h
  obtain ⟨rfl, hstage⟩ := h
  obtain ⟨stage, rfl⟩ := Nat.exists_eq_add_one_of_ne_zero hstage
  rfl

theorem splitParts_first {bwdSub fwdSub : MetaStep}
    (h : bwdSub.type ≠ .bwd ∨ bwdSub.stageIndex = 0) :
    splitParts (.overlap .bwdFwd bwdSub fwdSub) = [.overlap .bwdFwd bwdSub fwdSub] := by
  unfold splitParts
  split
  · simp_all
  · rfl

theorem splitParts_of_not_overlap
    (h : ∀ bwdSub fwdSub, slot ≠ .overlap .bwdFwd bwdSub fwdSub) : splitParts slot = [slot] := by
  unfold splitParts
  split
  · exact absurd rfl (h _ _)
  · rfl

theorem filter_splitOrder_of_comm {keep : Slot → Bool}
    (hkeep : ∀ slot, slot.isCompute = true → keep slot = false) (order : List Slot) :
    (splitOrder order).filter keep = order.filter keep := by
  induction order using splitOrder.induct with
  | case1 => rw [splitOrder]
  | case2 order bwdSub fwdSub hfirst ih =>
    rw [splitOrder, if_pos hfirst]
    simp only [filter_cons]
    rw [ih]
  | case3 order bwdSub fwdSub hsplit run ih =>
    have horder : order = run.1 ++ run.2 := (takeWhile_append_dropWhile).symm
    have hoverlap : ∀ first second, keep (.overlap .bwdFwd first second) = false :=
      fun _ _ => hkeep _ rfl
    have hweight : ∀ micro stage, keep (.step ⟨micro, .bwdWeight, stage⟩) = false :=
      fun _ _ => hkeep _ rfl
    have hkept : order.filter keep = run.1.filter keep ++ run.2.filter keep := by
      rw [← filter_append, ← horder]
    rw [splitOrder, if_neg hsplit]
    simp only [cons_append, append_assoc, filter_cons, filter_append,
      hoverlap, hweight, Bool.false_eq_true, if_false]
    rw [hkept, ← ih]
    rfl
  | case4 slot order hslot ih =>
    rw [splitOrder]
    · simp only [filter_cons]
      rw [ih]
    · exact hslot

theorem filter_isCompute_splitOrder (order : List Slot) :
    (splitOrder order).filter Slot.isCompute =
      (order.filter Slot.isCompute).flatMap splitParts := by
  induction order using splitOrder.induct with
  | case1 => simp [splitOrder]
  | case2 order bwdSub fwdSub hfirst ih =>
    rw [splitOrder, if_pos hfirst, filter_cons_of_pos rfl, filter_cons_of_pos rfl,
      flatMap_cons, splitParts_first hfirst, ih]
    rfl
  | case3 order bwdSub fwdSub hsplit run ih =>
    have horder : order = run.1 ++ run.2 := (takeWhile_append_dropWhile).symm
    have hrun : run.1.filter Slot.isCompute = [] := by
      refine filter_eq_nil_iff.mpr fun slot hslot hcompute => ?_
      have hp2p := mem_p2pRunAfter hslot
      rw [isP2P_of_isCompute hcompute] at hp2p
      cases hp2p
    have hcompute : order.filter Slot.isCompute = run.2.filter Slot.isCompute := by
      rw [horder, filter_append, hrun, nil_append]
    rw [splitOrder, if_neg hsplit]
    simp only [cons_append, append_assoc]
    rw [filter_cons_of_pos rfl, filter_append, filter_cons_of_pos rfl,
      filter_cons_of_pos rfl, flatMap_cons, splitParts_overlap hsplit, hcompute]
    have hnil : (p2pRunAfter order).1.filter Slot.isCompute = [] := hrun
    rw [hnil, nil_append]
    exact congrArg (_ :: _ :: ·) ih
  | case4 slot order hslot ih =>
    rw [splitOrder]
    · cases hcompute : slot.isCompute with
      | false =>
        rw [filter_cons_of_neg (by simp [hcompute]), filter_cons_of_neg (by simp [hcompute]), ih]
      | true =>
        rw [filter_cons_of_pos hcompute, filter_cons_of_pos hcompute,
          flatMap_cons, splitParts_of_not_overlap hslot, ih]
        rfl
    · exact hslot

theorem keepsComputes_notWeight : KeepsComputes (!Slot.isWeight ·) := by
  intro slot step hleaf htype
  cases hweight : slot.isWeight with
  | false => simp [hweight]
  | true =>
    refine absurd hleaf (not_mem_leafSteps_of_isWeight ?_ slot (by simp [hweight]))
    rintro hbwdWeight
    rw [hbwdWeight] at htype
    rcases htype with h | h | h <;> cases h

theorem isSendTo_of_isCompute (peer : Nat) {slot : Slot} (h : slot.isCompute = true) :
    isSendTo style stageNum realStageNum peer slot = false ∧
      isRecvFrom style stageNum realStageNum peer slot = false := by
  cases slot with
  | step leaf =>
    obtain ⟨micro, type, stage⟩ := leaf
    cases type <;> first | exact ⟨rfl, rfl⟩ | cases h
  | bubble => exact ⟨rfl, rfl⟩
  | overlap type first second => exact ⟨rfl, rfl⟩

theorem splitOrder_safe (hunsplit : Unsplit order) (hproduced : SendsProduced order) :
    OrderSafe style stageNum realStageNum order (splitOrder order) splitParts := by
  have hfilter : (splitOrder order).filter (!Slot.isWeight ·) =
      (order.filter (!Slot.isWeight ·)).map splitSlot := by
    have hself : order.filter (!Slot.isWeight ·) = order := by
      refine filter_eq_self.mpr fun slot hslot => ?_
      have hsingle : Unsplit [slot] := fun s hs => hunsplit s (by rwa [mem_singleton.mp hs])
      simp [hsingle.not_isWeight]
    rw [filter_splitOrder order hunsplit, hself]
  constructor
  · intro peer
    exact filter_splitOrder_of_comm (fun slot hslot => (isSendTo_of_isCompute peer hslot).1) order
  · intro peer
    exact filter_splitOrder_of_comm (fun slot hslot => (isSendTo_of_isCompute peer hslot).2) order
  · refine hproduced.through keepsRoles_splitSlot keepsComputes_notWeight hfilter ?_
    rintro ⟨micro, type, stage⟩ (rfl | rfl) <;> rfl
  · intro recv hrecv hfirst
    refine hfirst.through keepsRoles_splitSlot keepsComputes_notWeight hfilter ?_
    obtain ⟨micro, type, stage⟩ := recv
    rcases hrecv with rfl | rfl <;> rfl
  · exact filter_isCompute_splitOrder order

end Safe

/-! ## Orders of the column scan -/

section Rank

variable {style : Style} {stageNum realStageNum : Nat} {scheduler : Schedule}
  (hcompute : PureCompute realStageNum scheduler) {rank : Nat}

theorem mem_columnScan_cases {slot : Slot}
    (hslot : slot ∈ columnScanInsertComms style stageNum realStageNum
      (expandOverlapSlots scheduler) rank) :
    slot ∈ scheduler rank ∨ slot.isCompute = false ∧ slot.isLoad = false := by
  rw [columnScan_eq] at hslot
  obtain ⟨t, -, hslot⟩ := mem_flatMap.mp hslot
  rcases mem_append.mp hslot with hemitted | hcomm
  · exact Or.inl (mem_emittedAt.mp hemitted).2.mem
  · right
    obtain ⟨source, -, hvisited⟩ := mem_flatMap.mp hcomm
    obtain ⟨item, -, hmem⟩ := mem_visited.mp hvisited
    have hstep : ∃ step, slot ∈
        insertCommsForStep style stageNum realStageNum step source (fun _ => []) rank := by
      cases item with
      | phantom overlap subStep isFirstHalf => exact ⟨subStep, hmem⟩
      | slot other =>
        cases other with
        | step step => exact ⟨step, hmem⟩
        | bubble => cases hmem
        | overlap type first second => cases hmem
    obtain ⟨step, hstep⟩ := hstep
    rcases insertCommsForStep_cases step source rank with
      hnil | ⟨peer, -, hblock⟩ | ⟨peer, -, hblock⟩
    · rw [hnil] at hstep
      cases hstep
    · rw [hblock] at hstep
      simp only [mem_append, mem_ite_nil_right, mem_pair] at hstep
      rcases hstep with ⟨-, rfl | rfl⟩ | ⟨-, rfl | rfl⟩ <;> exact ⟨rfl, rfl⟩
    · rw [hblock] at hstep
      simp only [mem_append, mem_ite_nil_right, mem_singleton] at hstep
      rcases hstep with ⟨-, rfl⟩ | ⟨-, rfl⟩ <;> exact ⟨rfl, rfl⟩

include hcompute

theorem unsplit_addSendRecv (hrank : rank < realStageNum) :
    Unsplit (addSendRecv style stageNum realStageNum scheduler rank) := by
  intro slot hslot step hleaf
  obtain ⟨other, hother, hmem⟩ := mem_flatMap.mp hslot
  rcases mem_append.mp hmem with hload | hself
  · obtain ⟨fwd, -, rfl⟩ := mem_map.mp hload
    obtain rfl := mem_singleton.mp hleaf
    simp
  · obtain rfl := mem_singleton.mp hself
    rcases mem_columnScan_cases hother with hcomp | ⟨hcomm, -⟩
    · rcases hcompute rank hrank slot hcomp step hleaf with htype | htype <;> simp [htype]
    · constructor
      · exact fun h => not_mem_leafSteps_of_comm (by tauto) slot hcomm hleaf
      · exact fun h => not_mem_leafSteps_of_comm (by tauto) slot hcomm hleaf

theorem sendsProduced_addSendRecv (hrank : rank < realStageNum) :
    SendsProduced (addSendRecv style stageNum realStageNum scheduler rank) := by
  have hload : ∀ slot ∈ columnScanInsertComms style stageNum realStageNum
      (expandOverlapSlots scheduler) rank, slot.isLoad = false := by
    intro slot hslot
    rcases mem_columnScan_cases hslot with hcomp | ⟨-, hload⟩
    · exact isLoad_of_isCompute (hcompute.isCompute hrank hcomp)
    · exact hload
  have hcomputes : KeepsComputes (!Slot.isLoad ·) := by
    intro slot step hleaf htype
    simp [isLoad_of_isCompute (isCompute_of_leaf hleaf htype)]
  have hscan : SendsProduced (columnScanInsertComms style stageNum realStageNum
      (expandOverlapSlots scheduler) rank) := sendsProduced_columnScan hcompute hrank
  refine hscan.through keepsRoles_id hcomputes ?_ ?_
  · rw [addSendRecv, filter_not_load_insertDataload hload, map_id, filter_eq_self.mpr]
    exact fun slot hslot => by simp [hload slot hslot]
  · rintro ⟨micro, type, stage⟩ (rfl | rfl) <;> rfl

end Rank

theorem mem_boundary {order : List Slot} (h : DataFirst order) {attached : AttachedSlot}
    (hmem : attached ∈ attachOrder order) {slot : Slot} (hslot : slot ∈ attached.boundaryP2P) :
    isRecvStep slot = true := by
  induction order using attachOrder.induct with
  | case1 =>
    rw [attachOrder] at hmem
    cases hmem
  | case2 order first second run parts hnone ih =>
    rw [attachOrder, if_pos hnone] at hmem
    rcases mem_cons.mp hmem with rfl | hmem
    · cases hslot
    · exact ih h.tail hmem
  | case3 order first second run parts hparts ih =>
    have hplain : ∀ slot ∈ run.1, isFwdSend slot = false := h.run rfl
    have hsplit : parts = (run.1.filter isRecvStep, run.1.filter (!isRecvStep ·)) :=
      splitBoundaryRun_eq hplain _
    rw [attachOrder, if_neg hparts, cons_append] at hmem
    rcases mem_cons.mp hmem with rfl | hmem
    · have hfilter : slot ∈ parts.1 := hslot
      rw [hsplit] at hfilter
      exact (mem_filter.mp hfilter).2
    · rcases mem_append.mp hmem with hleft | hrest
      · obtain ⟨other, -, rfl⟩ := mem_map.mp hleft
        cases hslot
      · exact ih (h.tail.suffix (dropWhile_suffix isP2P)) hrest
  | case4 slot order hover ih =>
    rw [attachOrder] at hmem
    · rcases mem_cons.mp hmem with rfl | hmem
      · cases hslot
      · exact ih h.tail hmem
    · exact hover

/--
On the orders of the column scan the attachment, the split, and the split followed
by the attachment keep the sends to every peer and the receives from it in order,
leave sends behind their producers and receives before their consumers, and keep
every compute slot, the split ones as input part and weight part.
-/
theorem boundaryRewrites_safe (style : Style) (stageNum realStageNum : Nat) (scheduler : Schedule)
    (hcompute : PureCompute realStageNum scheduler) {rank : Nat} (hrank : rank < realStageNum) :
    let order := addSendRecv style stageNum realStageNum scheduler
    OrderSafe style stageNum realStageNum (order rank)
      (issueOrder (attachFwdBoundaryP2P order rank)) ([·]) ∧
    OrderSafe style stageNum realStageNum (order rank) (splitOverlapDxdw order rank) splitParts ∧
    OrderSafe style stageNum realStageNum (order rank)
      (issueOrder (attachFwdBoundaryP2P (splitOverlapDxdw order) rank)) splitParts ∧
    ∀ attached ∈ attachFwdBoundaryP2P order rank ++
        attachFwdBoundaryP2P (splitOverlapDxdw order) rank,
      ∀ slot ∈ attached.boundaryP2P, isRecvStep slot = true := by
  intro order
  have hled : DataLed (order rank) := dataLed_addSendRecv hcompute rank
  have hdata : DataFirst (order rank) := hled.tail
  have hsplitData : DataFirst (splitOrder (order rank)) := (DataFirst.split hled).tail
  have hproduced : SendsProduced (order rank) := sendsProduced_addSendRecv hcompute hrank
  have hsplit : OrderSafe style stageNum realStageNum (order rank) (splitOrder (order rank))
      splitParts := splitOrder_safe (unsplit_addSendRecv hcompute hrank) hproduced
  refine ⟨(OrderSafe.refl hproduced).attach hdata, hsplit, hsplit.attach hsplitData, ?_⟩
  intro attached hattached slot hslot
  rcases mem_append.mp hattached with hmem | hmem
  · exact mem_boundary hdata hmem hslot
  · exact mem_boundary hsplitData hmem hslot

theorem boundaryRewrites_safe_pair :
    let scheduler : Schedule := fun rank =>
      if rank = 0 then
        [.step ⟨0, .fwd, 0⟩, .step ⟨1, .fwd, 0⟩, .bubble, .overlap .bwdFwd ⟨0, .bwd, 0⟩ ⟨2, .fwd, 0⟩]
      else [.bubble, .step ⟨0, .fwd, 1⟩, .overlap .bwdFwd ⟨0, .bwd, 1⟩ ⟨1, .fwd, 1⟩]
    OrderSafe .loop 2 2 (addSendRecv .loop 2 2 scheduler 1)
      (issueOrder (attachFwdBoundaryP2P (splitOverlapDxdw (addSendRecv .loop 2 2 scheduler)) 1))
      splitParts :=
  (boundaryRewrites_safe .loop 2 2 _ (by unfold PureCompute; decide) (by decide)).2.2.1

end HyperParallel.Pipeline
