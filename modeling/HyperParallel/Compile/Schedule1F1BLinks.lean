import HyperParallel.Compile.Schedule1F1BTime

/-!
# The links of the 1F1B driver

A stage talks to the stages beside it only.  On the link between two of them the
values of one boundary go down and the values of the other go up, and both ends
take them in the order of their times.
-/

namespace HyperParallel.Compile.Schedule1F1B

open Foundation List
open Pipeline
open Pipeline.OneFOneB (constructStageOrder leaf sendPair recvPair stampOf stamp
  fwdTime bwdTime stageSteps)

section Links

variable {α : Type*} {numStages : Nat} (split : Split α numStages) (numMicrobatches k : Nat)

inductive LinkOp (micro : Nat) : Action → Prop where
  | sendForward {index : Nat} (h : index < actOut numStages split.crossing k) :
      LinkOp micro ⟨.sendForward (!decide (Eager numStages numMicrobatches k micro)) micro index,
        .send (k + 1) micro⟩
  | recvActivation {index : Nat} (h : index < actIn split.crossing k) :
      LinkOp micro ⟨.recvActivation micro index, .recv (k - 1)⟩
  | recvGradient {index : Nat} (h : index < gradIn numStages split.crossing k) :
      LinkOp micro ⟨.recvGradient micro index, .recv (k + 1)⟩
  | sendGradient {index : Nat} (h : index < gradOut split.crossing k) :
      LinkOp micro ⟨.sendGradient micro index, .send (k - 1) micro⟩

variable {split numMicrobatches k}

variable {a : Action} {micro microbatchSize : Nat}

theorem mem_program (hle : numStages ≤ numMicrobatches) :
    a ∈ program split numMicrobatches microbatchSize k ↔
      k < numStages ∧ ((∃ micro < numMicrobatches, ∃ slot ∈ stageSteps numStages k micro,
        a ∈ expandSlot split numMicrobatches k slot) ∨ a = ⟨.flushPendingSends, .wait none⟩) := by
  by_cases hstage : k < numStages
  · rw [program_eq split hle hstage, mem_append, mem_flatMap, and_iff_right hstage, mem_singleton]
    simp only [OneFOneB.mem_constructStageOrder hstage (show 0 < numMicrobatches by omega)]
    constructor
    · rintro (⟨slot, ⟨micro, hmicro, hslot⟩, ha⟩ | rfl)
      · exact .inl ⟨micro, hmicro, slot, hslot, ha⟩
      · exact .inr rfl
    · rintro (⟨micro, hmicro, slot, hslot, ha⟩ | rfl)
      · exact .inl ⟨slot, ⟨micro, hmicro, hslot⟩, ha⟩
      · exact .inr rfl
  · simp [program, hstage]

section

variable (hpeer : a.link.peer?.isSome)

include hpeer

theorem linkOp_of_recvActivation (ha : a ∈ expand split k (.recvActivation micro)) :
    LinkOp split numMicrobatches k micro a := by
  rcases mem_cons.mp ha with rfl | ha
  · cases hpeer
  · obtain ⟨index, hindex, rfl⟩ := mem_range_map.mp ha
    exact .recvActivation hindex

theorem linkOp_of_recvGradient (ha : a ∈ expand split k (.recvGradient micro)) :
    LinkOp split numMicrobatches k micro a := by
  rcases mem_cons.mp ha with rfl | ha
  · cases hpeer
  · obtain ⟨index, hindex, rfl⟩ := mem_range_map.mp ha
    exact .recvGradient hindex

theorem no_peer_of_closeActions : a ∉ closeActions split k micro := by
  intro ha
  simp only [closeActions, expand, mem_cons, not_mem_nil, or_false] at ha
  rcases ha with rfl | rfl
  · cases hpeer
  · cases hpeer

theorem no_peer_of_waitActions : a ∉ waitActions split k micro := by
  intro ha
  obtain ⟨-, rfl⟩ := (mem_waitActions split).mp ha
  cases hpeer

theorem linkOp_of_step {type : MetaStepType}
    (ha : a ∈ expandStep split numMicrobatches k micro type) :
    LinkOp split numMicrobatches k micro a := by
  cases type with
  | fwdRecv => exact linkOp_of_recvActivation hpeer ha
  | fwd =>
    simp only [expandStep, mem_append] at ha
    rcases ha with (ha | ha) | ha
    · split at ha
      · exact linkOp_of_recvActivation hpeer ha
      · cases ha
    · rw [mem_singleton.mp ha] at hpeer
      cases hpeer
    · split at ha
      · cases ha
      · rw [mem_singleton.mp ha] at hpeer
        cases hpeer
  | fwdSend =>
    simp only [expandStep] at ha
    split at ha
    · rename_i heager
      obtain ⟨index, hindex, rfl⟩ := mem_range_map.mp ha
      have hop : LinkOp split numMicrobatches k micro _ := .sendForward hindex
      rwa [decide_eq_true heager] at hop
    · rename_i heager
      rcases mem_append.mp ha with ha | ha
      · obtain ⟨index, hindex, rfl⟩ := mem_range_map.mp ha
        have hop : LinkOp split numMicrobatches k micro _ := .sendForward hindex
        rwa [decide_eq_false heager] at hop
      · rw [mem_singleton.mp ha] at hpeer
        cases hpeer
  | bwdRecv =>
    rcases mem_append.mp ha with ha | ha
    · exact linkOp_of_recvGradient hpeer ha
    · exact absurd ha (no_peer_of_waitActions hpeer)
  | bwd =>
    simp only [expandStep, mem_append, mem_cons] at ha
    rcases ha with ha | rfl | ha
    · split at ha
      · rename_i hlast
        rw [seedActions_eq split hlast] at ha
        simp only [cons_append, mem_cons, mem_append, not_mem_nil, or_false] at ha
        rcases ha with rfl | ha | rfl
        · cases hpeer
        · exact absurd ha (no_peer_of_waitActions hpeer)
        · cases hpeer
      · cases ha
    · cases hpeer
    · split at ha
      · exact absurd ha (no_peer_of_closeActions hpeer)
      · cases ha
  | bwdSend =>
    rcases mem_append.mp ha with ha | ha
    · obtain ⟨index, hindex, rfl⟩ := mem_range_map.mp ha
      exact .sendGradient hindex
    · exact absurd ha (no_peer_of_closeActions hpeer)
  | dataLoad => cases ha
  | dataSend => cases ha
  | dataRecv => cases ha
  | bwdInput => cases ha
  | bwdWeight => cases ha

end

theorem LinkOp.mem_steps (h : LinkOp split numMicrobatches k micro a) :
    ∃ slot ∈ stageSteps numStages k micro, a ∈ expandSlot split numMicrobatches k slot := by
  cases h with
  | @sendForward index hindex =>
    have hlast : k ≠ numStages - 1 := by
      rintro hlast
      rw [actOut, if_pos hlast] at hindex
      omega
    refine ⟨leaf micro .fwdSend k, ?_, ?_⟩
    · simp [OneFOneB.mem_stageSteps, sendPair, hlast]
    · rw [expandSlot_leaf]
      simp only [expandStep]
      split
      · rename_i heager
        rw [decide_eq_true heager]
        exact mem_range_map.mpr ⟨index, hindex, rfl⟩
      · rename_i heager
        rw [decide_eq_false heager]
        exact mem_append_left _ (mem_range_map.mpr ⟨index, hindex, rfl⟩)
  | @recvActivation index hindex =>
    have hfirst : k ≠ 0 := by
      rintro rfl
      exact absurd hindex (Nat.not_lt_zero index)
    refine ⟨leaf micro .fwdRecv k, ?_, ?_⟩
    · simp [OneFOneB.mem_stageSteps, recvPair, hfirst]
    · exact mem_cons_of_mem _ (mem_range_map.mpr ⟨index, hindex, rfl⟩)
  | @recvGradient index hindex =>
    have hlast : k ≠ numStages - 1 := by
      rintro hlast
      rw [gradIn, if_pos hlast] at hindex
      omega
    refine ⟨leaf micro .bwdRecv k, ?_, ?_⟩
    · simp [OneFOneB.mem_stageSteps, hlast]
    · exact mem_append_left _
        (mem_cons_of_mem _ (mem_range_map.mpr ⟨index, hindex, rfl⟩))
  | @sendGradient index hindex =>
    have hfirst : k ≠ 0 := by
      rintro rfl
      exact absurd hindex (Nat.not_lt_zero index)
    refine ⟨leaf micro .bwdSend k, ?_, ?_⟩
    · simp [OneFOneB.mem_stageSteps, hfirst]
    · exact mem_append_left _ (mem_range_map.mpr ⟨index, hindex, rfl⟩)

theorem mem_linkOps_program (hle : numStages ≤ numMicrobatches) {j : Nat} :
    a ∈ PairFifo.linkOps id j (program split numMicrobatches microbatchSize k) ↔
      k < numStages ∧ ∃ micro < numMicrobatches, LinkOp split numMicrobatches k micro a ∧
        a.link.peer? = some j := by
  rw [PairFifo.mem_linkOps, mem_program hle]
  constructor
  · rintro ⟨⟨hstage, hsteps⟩, hpeer⟩
    have hsome : a.link.peer?.isSome := by
      rw [show a.link.peer? = some j from hpeer]
      rfl
    refine ⟨hstage, ?_⟩
    rcases hsteps with ⟨micro, hmicro, slot, hslot, ha⟩ | rfl
    · refine ⟨micro, hmicro, ?_, hpeer⟩
      cases slot with
      | bubble => cases ha
      | overlap type first second => cases ha
      | step step =>
        have hsame : step.microIndex = micro := by
          rcases (OneFOneB.mem_stageSteps micro _).mp hslot with
            (h | ⟨-, h⟩ | ⟨-, h⟩) | (h | h | ⟨-, h⟩) | ⟨-, h⟩
          case inr.inl.inr.inr =>
            simp only [recvPair, leaf, mem_cons, Slot.step.injEq, not_mem_nil, or_false] at h
            rcases h with rfl | rfl <;> rfl
          case inr.inr =>
            simp only [sendPair, leaf, mem_cons, Slot.step.injEq, not_mem_nil, or_false] at h
            rcases h with rfl | rfl <;> rfl
          all_goals
            cases h
            rfl
        rw [← hsame]
        exact linkOp_of_step hsome ha
    · cases hpeer
  · rintro ⟨hstage, micro, hmicro, hop, hpeer⟩
    exact ⟨⟨hstage, .inl ⟨micro, hmicro, hop.mem_steps⟩⟩, hpeer⟩

variable (split numMicrobatches)

def value (k : Nat) (a : Action) : Option α :=
  match a.instr with
  | .sendForward _ micro index => (split.fwdOutput k micro)[index]?
  | .recvActivation micro index => (split.activation k micro)[index]?
  | .recvGradient micro index => (split.gradient k micro)[index]?
  | .sendGradient micro index => (split.boundaryGrads k micro)[index]?
  | _ => none

/-- What the next stage does where this one uses the link. -/
def partner (k : Nat) (a : Action) : Action :=
  match a.instr with
  | .sendForward _ micro index => ⟨.recvActivation micro index, .recv k⟩
  | .recvGradient micro index => ⟨.sendGradient micro index, .send k micro⟩
  | _ => a

variable {split numMicrobatches}

theorem mem_linkOps_succ (hle : numStages ≤ numMicrobatches) :
    a ∈ PairFifo.linkOps id (k + 1) (program split numMicrobatches microbatchSize k) ↔
      k < numStages ∧ ∃ micro < numMicrobatches,
        (∃ index < actOut numStages split.crossing k,
          a = ⟨.sendForward (!decide (Eager numStages numMicrobatches k micro)) micro index,
            .send (k + 1) micro⟩) ∨
        ∃ index < gradIn numStages split.crossing k,
          a = ⟨.recvGradient micro index, .recv (k + 1)⟩ := by
  rw [mem_linkOps_program hle]
  refine and_congr_right fun _ => exists_congr fun micro => and_congr_right fun _ => ?_
  constructor
  · rintro ⟨hop, hpeer⟩
    cases hop with
    | sendForward h => exact .inl ⟨_, h, rfl⟩
    | recvGradient h => exact .inr ⟨_, h, rfl⟩
    | recvActivation h =>
      have hsame : k - 1 = k + 1 := Option.some.inj hpeer
      omega
    | sendGradient h =>
      have hsame : k - 1 = k + 1 := Option.some.inj hpeer
      omega
  · rintro (⟨index, h, rfl⟩ | ⟨index, h, rfl⟩)
    · exact ⟨.sendForward h, rfl⟩
    · exact ⟨.recvGradient h, rfl⟩

theorem mem_linkOps_pred (hle : numStages ≤ numMicrobatches) :
    a ∈ PairFifo.linkOps id k (program split numMicrobatches microbatchSize (k + 1)) ↔
      k + 1 < numStages ∧ ∃ micro < numMicrobatches,
        (∃ index < actIn split.crossing (k + 1), a = ⟨.recvActivation micro index, .recv k⟩) ∨
        ∃ index < gradOut split.crossing (k + 1), a = ⟨.sendGradient micro index, .send k micro⟩ := by
  rw [mem_linkOps_program hle]
  refine and_congr_right fun _ => exists_congr fun micro => and_congr_right fun _ => ?_
  constructor
  · rintro ⟨hop, hpeer⟩
    cases hop with
    | sendForward h =>
      have hsame : k + 1 + 1 = k := Option.some.inj hpeer
      omega
    | recvGradient h =>
      have hsame : k + 1 + 1 = k := Option.some.inj hpeer
      omega
    | recvActivation h => exact .inl ⟨_, h, rfl⟩
    | sendGradient h => exact .inr ⟨_, h, rfl⟩
  · rintro (⟨index, h, rfl⟩ | ⟨index, h, rfl⟩)
    · exact ⟨.recvActivation h, rfl⟩
    · exact ⟨.sendGradient h, rfl⟩

theorem linkOps_of_far (hle : numStages ≤ numMicrobatches) {j : Nat} (hnext : j ≠ k + 1)
    (hbefore : k ≠ j + 1) :
    PairFifo.linkOps id j (program split numMicrobatches microbatchSize k) = [] := by
  rw [eq_nil_iff_forall_not_mem]
  intro a ha
  obtain ⟨hstage, micro, hmicro, hop, hpeer⟩ := (mem_linkOps_program hle).mp ha
  cases hop with
  | sendForward h => exact hnext (Option.some.inj hpeer).symm
  | recvGradient h => exact hnext (Option.some.inj hpeer).symm
  | recvActivation h =>
    have hsame : k - 1 = j := Option.some.inj hpeer
    have hfirst : k = 0 := by omega
    subst hfirst
    exact absurd h (Nat.not_lt_zero _)
  | sendGradient h =>
    have hsame : k - 1 = j := Option.some.inj hpeer
    have hfirst : k = 0 := by omega
    subst hfirst
    exact absurd h (Nat.not_lt_zero _)

theorem stampOf_fwdRecv_succ (micro : Nat) :
    stampOf numStages numMicrobatches micro .fwdRecv (k + 1) =
      stampOf numStages numMicrobatches micro .fwdSend k := rfl

theorem stampOf_bwdSend_succ (micro : Nat) :
    stampOf numStages numMicrobatches micro .bwdSend (k + 1) =
      stampOf numStages numMicrobatches micro .bwdRecv k := rfl

theorem stampOf_fwdSend_ne_bwdRecv (micro micro' : Nat) :
    stampOf numStages numMicrobatches micro .fwdSend k ≠
      stampOf numStages numMicrobatches micro' .bwdRecv k := by
  simp only [stampOf, OneFOneB.sendPhase]
  split <;> omega

section

variable (hle : numStages ≤ numMicrobatches)

include hle

theorem partner_mono {b : Action}
    (ha : a ∈ PairFifo.linkOps id (k + 1) (program split numMicrobatches microbatchSize k))
    (hb : b ∈ PairFifo.linkOps id (k + 1) (program split numMicrobatches microbatchSize k))
    (hlt : time numStages numMicrobatches k a.instr < time numStages numMicrobatches k b.instr) :
    time numStages numMicrobatches (k + 1) (partner k a).instr <
      time numStages numMicrobatches (k + 1) (partner k b).instr := by
  obtain ⟨-, micro, -, ha⟩ := (mem_linkOps_succ hle).mp ha
  obtain ⟨-, micro', -, hb⟩ := (mem_linkOps_succ hle).mp hb
  have hne : ∀ micro micro', stampOf numStages numMicrobatches micro .fwdSend k ≠
      stampOf numStages numMicrobatches micro' .bwdRecv k := stampOf_fwdSend_ne_bwdRecv
  rcases ha with ⟨index, -, rfl⟩ | ⟨index, -, rfl⟩
  · rcases hb with ⟨index', -, rfl⟩ | ⟨index', -, rfl⟩
    · simp only [time, partner, Clock.at_lt, stampOf_fwdRecv_succ] at hlt ⊢
      omega
    · have := hne micro micro'
      simp only [time, partner, Clock.at_lt, stampOf_fwdRecv_succ, stampOf_bwdSend_succ] at hlt ⊢
      omega
  · rcases hb with ⟨index', -, rfl⟩ | ⟨index', -, rfl⟩
    · simp only [time, partner, Clock.at_lt, stampOf_fwdRecv_succ, stampOf_bwdSend_succ] at hlt ⊢
      omega
    · simp only [time, partner, Clock.at_lt, stampOf_bwdSend_succ] at hlt ⊢
      omega

theorem mem_partner {b : Action} :
    b ∈ PairFifo.linkOps id k (program split numMicrobatches microbatchSize (k + 1)) ↔
      ∃ a ∈ PairFifo.linkOps id (k + 1) (program split numMicrobatches microbatchSize k),
        partner k a = b := by
  simp only [mem_linkOps_pred hle, mem_linkOps_succ hle]
  constructor
  · rintro ⟨hnext, micro, hmicro, ⟨index, h, rfl⟩ | ⟨index, h, rfl⟩⟩
    · rw [← actOut_eq_actIn split.crossing hnext] at h
      exact ⟨_, ⟨by omega, micro, hmicro, .inl ⟨index, h, rfl⟩⟩, rfl⟩
    · rw [← gradIn_eq_gradOut split.crossing hnext] at h
      exact ⟨_, ⟨by omega, micro, hmicro, .inr ⟨index, h, rfl⟩⟩, rfl⟩
  · rintro ⟨a, ⟨hstage, micro, hmicro, ha⟩, rfl⟩
    have hnext : k + 1 < numStages := by
      by_contra hlast
      rcases ha with ⟨index, h, -⟩ | ⟨index, h, -⟩
      · rw [actOut, if_pos (by omega)] at h
        omega
      · rw [gradIn, if_pos (by omega)] at h
        omega
    refine ⟨hnext, micro, hmicro, ?_⟩
    rcases ha with ⟨index, h, rfl⟩ | ⟨index, h, rfl⟩
    · rw [actOut_eq_actIn split.crossing hnext] at h
      exact .inl ⟨index, h, rfl⟩
    · rw [gradIn_eq_gradOut split.crossing hnext] at h
      exact .inr ⟨index, h, rfl⟩

theorem map_partner (microbatchSize : Nat) :
    (PairFifo.linkOps id (k + 1) (program split numMicrobatches microbatchSize k)).map (partner k) =
      PairFifo.linkOps id k (program split numMicrobatches microbatchSize (k + 1)) := by
  refine PairFifo.map_eq_of_rising (fun a : Action => time numStages numMicrobatches k a.instr)
    (fun a : Action => time numStages numMicrobatches (k + 1) a.instr) ?_ ?_ ?_ ?_
  · exact (program_sorted split hle microbatchSize).filter _
  · exact (program_sorted split hle microbatchSize).filter _
  · exact fun a ha b hb hlt => partner_mono hle ha hb hlt
  · exact fun b => mem_partner hle

theorem matches_partner
    (ha : a ∈ PairFifo.linkOps id (k + 1) (program split numMicrobatches microbatchSize k)) :
    PairFifo.Matches (fun k a => time numStages numMicrobatches k a.instr) (value split) k (k + 1) a
      (partner k a) := by
  have hpartner := (mem_partner hle).mpr ⟨a, ha, rfl⟩
  obtain ⟨hnext, -⟩ := (mem_linkOps_pred hle).mp hpartner
  obtain ⟨hstage, micro, hmicro, ha⟩ := (mem_linkOps_succ hle).mp ha
  rcases ha with ⟨index, h, rfl⟩ | ⟨index, h, rfl⟩
  · refine .inl ⟨micro, rfl, rfl, ?_, ?_, ?_⟩
    · simp only [time, partner, Clock.at_lt, stampOf_fwdRecv_succ]
      omega
    · have hlength := split.fwdOutput_length k micro
      have hindex : index < (split.fwdOutput k micro).length := Nat.lt_of_lt_of_le h hlength
      simp [value, hindex]
    · show (split.fwdOutput k micro)[index]? = (split.activation (k + 1) micro)[index]?
      rw [Split.activation, if_neg (Nat.succ_ne_zero k), Nat.add_sub_cancel, getElem?_take_of_lt h]
  · refine .inr ⟨micro, rfl, rfl, ?_, ?_, ?_⟩
    · simp only [time, partner, Clock.at_lt, stampOf_bwdSend_succ]
      omega
    · have hlength := split.boundaryGrads_length hnext micro
      rw [← gradIn_eq_gradOut split.crossing hnext] at hlength
      have hindex : index < (split.boundaryGrads (k + 1) micro).length := hlength ▸ h
      simp [value, partner, hindex]
    · show (split.gradient k micro)[index]? = (split.boundaryGrads (k + 1) micro)[index]?
      rw [Split.gradient, if_neg (by omega)]

theorem program_complementary (microbatchSize i j : Nat) :
    Forall₂
      (PairFifo.Matches (fun k a => time numStages numMicrobatches k a.instr) (value split) i j)
      (PairFifo.linkOps id j (program split numMicrobatches microbatchSize i))
      (PairFifo.linkOps id i (program split numMicrobatches microbatchSize j)) := by
  have hside (k : Nat) : Forall₂
      (PairFifo.Matches (fun k a => time numStages numMicrobatches k a.instr) (value split) k (k + 1))
      (PairFifo.linkOps id (k + 1) (program split numMicrobatches microbatchSize k))
      (PairFifo.linkOps id k (program split numMicrobatches microbatchSize (k + 1))) := by
    rw [← map_partner hle, forall₂_map_right_iff, forall₂_same]
    exact fun a ha => matches_partner hle ha
  by_cases hnext : j = i + 1
  · subst hnext
    exact hside i
  · by_cases hbefore : i = j + 1
    · subst hbefore
      exact (hside j).flip.imp fun _ _ h => PairFifo.Matches.symm h
    · rw [linkOps_of_far hle hnext hbefore, linkOps_of_far hle hbefore hnext]
      exact .nil

end

end Links

end HyperParallel.Compile.Schedule1F1B
