import HyperParallel.Compile.Schedule1F1BLinks
import Mathlib.Algebra.Ring.Nat

/-!
# Runs of the 1F1B driver

Alone, a stage that receives what it is to receive computes its part of the
whole graph.  Together, the stages run to the end in every order, and no wait
blocks for good.
-/

namespace HyperParallel.Compile.Schedule1F1B

open Foundation List
open Pipeline
open Pipeline.OneFOneB (stampOf stamp fwdTime bwdTime stageSteps)

section Replay

variable {α : Type*} [Add α] {numStages : Nat} (split : Split α numStages) (k : Nat)

abbrev Replays (actions : List Action) (mem mem' : Mem α) : Prop :=
  PairFifo.Replays (exec split k) (value split k) actions mem mem'

def fwdEntry (micro : Nat) : Computation α :=
  .fwd micro (split.activation k micro) (split.fwdOutput k micro)

def bwdEntry (micro : Nat) : Computation α :=
  .bwd micro (split.gradient k micro) (split.fwdOutput k micro) (split.bwdOutput k micro)

def Mem.afterForward (micro : Nat) (mem : Mem α) : Mem α :=
  { mem with
    out := some (split.fwdOutput k micro)
    fwdOutsPerMb := Function.update mem.fwdOutsPerMb micro (some (split.fwdOutput k micro))
    computed := mem.computed ++ [fwdEntry split k micro] }

def Mem.afterBackward (micro : Nat) (mem : Mem α) : Mem α :=
  { mem with
    bwdOut := split.bwdOutput k micro
    grads := accumulateGrads mem.grads (split.paramGrads k micro)
    computed := mem.computed ++ [bwdEntry split k micro] }

variable {split k}

theorem replays_free {instr : Instr} {mem mem' : Mem α}
    (h : exec split k instr none mem = .ok (mem', none)) :
    Replays split k [Schedule1F1B.free instr] mem mem' := .cons h (.nil mem')

theorem recvActivation_replays (hstage : k < numStages) (micro : Nat) (mem : Mem α) :
    Replays split k (expand split k (.recvActivation micro)) mem
      { mem with actIn := split.activation k micro } := by
  have hlength := split.activation_length hstage micro
  have hvalues : Replays split k ((range (split.activation k micro).length).map fun index =>
        ⟨.recvActivation micro index, .recv (k - 1)⟩)
      { mem with actIn := (split.activation k micro).take 0 }
      { mem with actIn := (split.activation k micro).take (split.activation k micro).length } := by
    refine PairFifo.Replays.range
      (fun i => { mem with actIn := (split.activation k micro).take i }) ?_
    intro i hi
    simp [value, hi, exec, take_append_getElem]
  rw [take_length] at hvalues
  rw [expand, ← hlength]
  exact .cons rfl hvalues

variable {pendingIndex : Option Nat} {bwdIndex fwdIndex micro : Nat}

theorem recvGradient_replays (hstage : k < numStages) {mem : Mem α}
    (houts : mem.fwdOutsPerMb micro = some (split.fwdOutput k micro)) :
    Replays split k (expand split k (.recvGradient micro)) mem
      { mem with gradIn := split.gradient k micro } := by
  by_cases hlast : isLast numStages k
  · have hnone : gradIn numStages split.crossing k = 0 := if_pos hlast
    rw [expand, hnone]
    refine replays_free ?_
    cases hout : split.fwdOutput k micro with
    | nil => exact absurd hout (split.fwdOutput_ne_nil k micro)
    | cons out rest =>
      rw [hout] at houts
      have hseed : split.gradient k micro = [split.onesLike out] := by
        rw [Split.gradient, if_pos hlast, Split.seed, hout]
        rfl
      simp only [exec, if_pos hlast, houts, hseed]
  · have hlength := split.gradient_length (show k + 1 < numStages by omega) micro
    have hvalues : Replays split k ((range (split.gradient k micro).length).map fun index =>
          ⟨.recvGradient micro index, .recv (k + 1)⟩)
        { mem with gradIn := (split.gradient k micro).take 0 }
        { mem with gradIn := (split.gradient k micro).take (split.gradient k micro).length } := by
      refine PairFifo.Replays.range
        (fun i => { mem with gradIn := (split.gradient k micro).take i }) ?_
      intro i hi
      simp [value, hi, exec, take_append_getElem]
    rw [take_length] at hvalues
    rw [expand, ← hlength]
    refine .cons ?_ hvalues
    simp [exec, hlast, free]

theorem sendForward_replays {pending : Bool} {mem : Mem α}
    (hout : (if pending then mem.pendingOut else mem.out) = some (split.fwdOutput k micro)) :
    Replays split k (sendForwardActions split k pending micro) mem mem := by
  refine PairFifo.Replays.range (fun _ => mem) ?_
  intro i hi
  have hindex : i < (split.fwdOutput k micro).length :=
    Nat.lt_of_lt_of_le hi (split.fwdOutput_length k micro)
  simp [value, exec, hout, valueAt, hi, hindex]

theorem sendPending_replays {mem : Mem α} (hout : mem.pendingOut = some (split.fwdOutput k micro)) :
    Replays split k (expand split k (.sendPending (some micro))) mem
      { mem with pendingOut := none } := by
  have hsend : Replays split k (sendForwardActions split k true micro) mem mem :=
    sendForward_replays hout
  exact hsend.append (replays_free rfl)

theorem applyForward_replays {mem : Mem α} (hact : mem.actIn = split.activation k micro) :
    Replays split k (expand split k (.applyForward micro)) mem (mem.afterForward split k micro) := by
  refine replays_free ?_
  simp [exec, hact, ← split.fwdOutput_eq, Mem.afterForward, fwdEntry]

theorem applyBackward_replays (hstage : k < numStages) {mem : Mem α}
    (hgrad : mem.gradIn = split.gradient k micro)
    (houts : mem.fwdOutsPerMb micro = some (split.fwdOutput k micro)) :
    Replays split k (expand split k (.applyBackward micro)) mem (mem.afterBackward split k micro) := by
  have hsend (mem : Mem α) (hout : mem.bwdOut = split.bwdOutput k micro) :
      Replays split k ((range (gradOut split.crossing k)).map fun index =>
        ⟨.sendGradient micro index, .send (k - 1) micro⟩) mem mem := by
    refine PairFifo.Replays.range (fun _ => mem) ?_
    intro i hi
    have hindex : i < (split.boundaryGrads k micro).length := by
      rwa [split.boundaryGrads_length hstage]
    have hget := getElem?_eq_getElem hindex
    simp only [value, PairFifo.Link.output, exec, hout, valueAt]
    rw [← Split.boundaryGrads, hget]
  let mem' : Mem α := { mem with
    bwdOut := split.bwdOutput k micro
    computed := mem.computed ++ [bwdEntry split k micro] }
  have hcompute : exec split k (.applyBackward micro) none mem = .ok (mem', none) := by
    simp [exec, houts, hgrad, ← split.bwdOutput_eq hstage, mem', bwdEntry]
  exact .cons hcompute ((hsend mem' rfl).append (replays_free rfl))

theorem releaseOuts_replays (split : Split α numStages) (micro : Nat) (mem : Mem α) :
    ∃ kept, Replays split k (expand split k (.releaseOuts micro)) mem
      { mem with fwdOutsPerMb := Function.update mem.fwdOutsPerMb micro kept } :=
  ⟨_, replays_free rfl⟩

variable (split k)

def gradsOf (n : Nat) : List α :=
  (List.range n).foldl (fun grads micro => accumulateGrads grads (split.paramGrads k micro)) []

/-- A driver that has run the first forwards and backwards, all with the values of the graph. -/
structure Computed (fwdIndex bwdIndex : Nat) (pendingIndex : Option Nat) (mem : Mem α) : Prop where
  outs : ∀ micro, bwdIndex ≤ micro → micro < fwdIndex →
    mem.fwdOutsPerMb micro = some (split.fwdOutput k micro)
  pendingOut : mem.pendingOut = pendingIndex.map (split.fwdOutput k)
  grads : mem.grads = gradsOf split k bwdIndex
  computed : mem.computed.Perm
    ((List.range fwdIndex).map (fwdEntry split k) ++ (List.range bwdIndex).map (bwdEntry split k))

variable {split k}

theorem Computed.start : Computed split k 0 0 none Mem.empty where
  outs micro _ hlt := absurd hlt (Nat.not_lt_zero micro)
  pendingOut := rfl
  grads := rfl
  computed := .nil

theorem Computed.recvActivation (hstage : k < numStages) {fwdIndex bwdIndex : Nat}
    {pendingIndex : Option Nat} {mem : Mem α}
    (h : Computed split k fwdIndex bwdIndex pendingIndex mem) (micro : Nat) :
    ∃ mem', Replays split k (expand split k (.recvActivation micro)) mem mem' ∧
      Computed split k fwdIndex bwdIndex pendingIndex mem' ∧
      mem'.actIn = split.activation k micro :=
  ⟨_, recvActivation_replays hstage micro mem, ⟨h.outs, h.pendingOut, h.grads, h.computed⟩, rfl⟩

theorem Computed.applyForward {mem : Mem α}
    (h : Computed split k fwdIndex bwdIndex pendingIndex mem)
    (hact : mem.actIn = split.activation k fwdIndex) :
    ∃ mem', Replays split k (expand split k (.applyForward fwdIndex)) mem mem' ∧
      Computed split k (fwdIndex + 1) bwdIndex pendingIndex mem' ∧
      mem'.out = some (split.fwdOutput k fwdIndex) := by
  refine ⟨_, applyForward_replays hact, ⟨?_, h.pendingOut, h.grads, ?_⟩, rfl⟩
  · intro micro hle hlt
    by_cases hnew : micro = fwdIndex
    · subst hnew
      exact Function.update_self ..
    · exact (Function.update_of_ne hnew ..).trans (h.outs micro hle (by omega))
  · rw [range_succ, map_append, append_assoc]
    refine (h.computed.append_right _).trans ?_
    rw [append_assoc]
    exact perm_append_comm.append_left _

theorem Computed.keepPending {mem : Mem α}
    (h : Computed split k (fwdIndex + 1) bwdIndex pendingIndex mem)
    (hout : mem.out = some (split.fwdOutput k fwdIndex)) :
    ∃ mem', Replays split k (expand split k (.keepPending fwdIndex)) mem mem' ∧
      Computed split k (fwdIndex + 1) bwdIndex (some fwdIndex) mem' :=
  ⟨_, replays_free rfl, h.outs, hout, h.grads, h.computed⟩

theorem Computed.sendPending {mem : Mem α}
    (h : Computed split k fwdIndex bwdIndex pendingIndex mem) :
    ∃ mem', Replays split k (if pendingIndex.isSome then expand split k (.sendPending pendingIndex)
        else []) mem mem' ∧
      Computed split k fwdIndex bwdIndex none mem' ∧ mem'.actIn = mem.actIn ∧
      mem'.gradIn = mem.gradIn := by
  cases pendingIndex with
  | none => exact ⟨mem, .nil mem, h, rfl, rfl⟩
  | some micro =>
    exact ⟨_, sendPending_replays h.pendingOut, ⟨h.outs, rfl, h.grads, h.computed⟩, rfl, rfl⟩

theorem Computed.backward (hstage : k < numStages) {mem : Mem α}
    (h : Computed split k fwdIndex bwdIndex pendingIndex mem) (hlt : bwdIndex < fwdIndex) :
    ∃ mem', Replays split k ((backwardCalls bwdIndex pendingIndex).flatMap (expand split k)) mem mem' ∧
      Computed split k fwdIndex (bwdIndex + 1) none mem' := by
  have houts := h.outs bwdIndex (Nat.le_refl _) hlt
  have hgrad := recvGradient_replays hstage houts
  have hreceived : Computed split k fwdIndex bwdIndex pendingIndex
      { mem with gradIn := split.gradient k bwdIndex } := ⟨h.outs, h.pendingOut, h.grads, h.computed⟩
  obtain ⟨mem', hsend, hsent, -, hgradIn⟩ := hreceived.sendPending
  have hwait : Replays split k (waitActions split k bwdIndex)
      { mem with gradIn := split.gradient k bwdIndex }
      { mem with gradIn := split.gradient k bwdIndex } := by
    unfold waitActions
    split
    · exact .cons rfl (.nil _)
    · exact .nil _
  have hback := applyBackward_replays hstage hgradIn (hsent.outs bwdIndex (Nat.le_refl _) hlt)
  obtain ⟨kept, hrelease⟩ := releaseOuts_replays (k := k) split bwdIndex (mem'.afterBackward split k
    bwdIndex)
  have hall := (((hgrad.append hwait).append hsend).append hback).append hrelease
  rw [← backwardCalls_expand] at hall
  refine ⟨_, hall, ⟨?_, hsent.pendingOut, ?_, ?_⟩⟩
  · intro micro hle hlt
    exact (Function.update_of_ne (by omega) ..).trans (hsent.outs micro (by omega) hlt)
  · rw [gradsOf, range_succ, foldl_append, ← gradsOf, ← hsent.grads]
    rfl
  · rw [range_succ, map_append, ← append_assoc]
    exact hsent.computed.append_right _

theorem Computed.forward (hstage : k < numStages) {mem : Mem α}
    (h : Computed split k fwdIndex bwdIndex none mem) :
    ∃ mem', Replays split k ([Call.recvActivation fwdIndex, .applyForward fwdIndex,
        .keepPending fwdIndex].flatMap (expand split k)) mem mem' ∧
      Computed split k (fwdIndex + 1) bwdIndex (some fwdIndex) mem' := by
  obtain ⟨received, hrecv, hreceived, hact⟩ := h.recvActivation hstage fwdIndex
  obtain ⟨done, hforward, hdone, hout⟩ := hreceived.applyForward hact
  obtain ⟨kept, hkeep, hkept⟩ := hdone.keepPending hout
  refine ⟨kept, ?_, hkept⟩
  simpa using (hrecv.append hforward).append hkeep

variable (numStages k) in
def warmupPending (numMicrobatches n : Nat) : Option Nat :=
  if n = 0 ∨ k % 2 = 0 ∧ n ≠ warmupCount numStages numMicrobatches k then none else some (n - 1)

theorem Computed.warmup (hstage : k < numStages) {numMicrobatches n : Nat} {mem : Mem α}
    (hn : n < warmupCount numStages numMicrobatches k)
    (h : Computed split k n 0 (warmupPending numStages k numMicrobatches n) mem) :
    ∃ mem', Replays split k ((warmupCalls numStages numMicrobatches k n).flatMap (expand split k))
        mem mem' ∧
      Computed split k (n + 1) 0 (warmupPending numStages k numMicrobatches (n + 1)) mem' := by
  obtain ⟨received, hrecv, hreceived, hact⟩ := h.recvActivation hstage n
  unfold warmupCalls
  by_cases heven : k % 2 = 0
  · have hnone : warmupPending numStages k numMicrobatches n = none :=
      if_pos (.inr ⟨heven, by omega⟩)
    rw [hnone] at hreceived
    obtain ⟨done, hforward, hdone, hout⟩ := hreceived.applyForward hact
    by_cases hlast : n = warmupCount numStages numMicrobatches k - 1
    · obtain ⟨kept, hkeep, hkept⟩ := hdone.keepPending hout
      have hpending : warmupPending numStages k numMicrobatches (n + 1) = some n :=
        if_neg (by omega)
      rw [hpending]
      refine ⟨kept, ?_, hkept⟩
      simpa [heven, ← hlast] using (hrecv.append hforward).append hkeep
    · have hsend : Replays split k (expand split k (.sendForward n)) done done :=
        sendForward_replays hout
      have hpending : warmupPending numStages k numMicrobatches (n + 1) = none :=
        if_pos (.inr ⟨heven, by omega⟩)
      rw [hpending]
      refine ⟨done, ?_, hdone⟩
      simpa [heven, hlast] using (hrecv.append hforward).append hsend
  · obtain ⟨sent, hsend, hsent, hsame, -⟩ := hreceived.sendPending
    obtain ⟨done, hforward, hdone, hout⟩ := hsent.applyForward (hsame.trans hact)
    obtain ⟨kept, hkeep, hkept⟩ := hdone.keepPending hout
    have hpending : warmupPending numStages k numMicrobatches (n + 1) = some n := if_neg (by omega)
    rw [hpending]
    refine ⟨kept, ?_, hkept⟩
    have hall := ((hrecv.append hsend).append hforward).append hkeep
    by_cases hpos : n = 0
    · simpa [warmupPending, heven, hpos] using hall
    · simpa [warmupPending, heven, hpos, Nat.pos_of_ne_zero hpos] using hall

variable (split) in
theorem program_replays {numMicrobatches : Nat} (hle : numStages ≤ numMicrobatches)
    (hstage : k < numStages) (microbatchSize : Nat) :
    ∃ mem, Replays split k (program split numMicrobatches microbatchSize k) Mem.empty mem ∧
      Computed split k numMicrobatches numMicrobatches none mem := by
  set warmup := warmupCount numStages numMicrobatches k with hwarmup
  have hwarm : warmup = min numMicrobatches (numStages - k) := hwarmup
  obtain ⟨warm, hfront, hwarmed⟩ := PairFifo.Replays.loop
    (fun n => Computed split k n 0 (warmupPending numStages k numMicrobatches n))
    (fun n => (warmupCalls numStages numMicrobatches k n).flatMap (expand split k)) (n := warmup)
    Computed.start fun n hn mem h => h.warmup hstage hn
  have hpending : warmupPending numStages k numMicrobatches warmup = some (warmup - 1) :=
    if_neg (by omega)
  rw [hpending] at hwarmed
  obtain ⟨steady, hmiddle, hsteady⟩ := PairFifo.Replays.loop
    (fun n => Computed split k (warmup + n) n (some (warmup + n - 1)))
    (fun n => (steadyCalls (warmup + n) n).flatMap (expand split k))
    (n := numMicrobatches - warmup) hwarmed (by
      intro n hn mem h
      obtain ⟨back, hback, hbacked⟩ := h.backward hstage (by omega)
      obtain ⟨forth, hforth, hforthed⟩ := hbacked.forward hstage
      refine ⟨forth, ?_, hforthed⟩
      unfold steadyCalls
      rw [flatMap_append]
      exact hback.append hforth)
  obtain ⟨cool, hback, hcooled⟩ := PairFifo.Replays.loop
    (fun n => Computed split k numMicrobatches (numMicrobatches - warmup + n)
      (if n = 0 then some (numMicrobatches - 1) else none))
    (fun n => (backwardCalls (numMicrobatches - warmup + n)
      (if n = 0 then some (numMicrobatches - 1) else none)).flatMap (expand split k))
    (n := warmup) (by
      rw [Nat.add_sub_cancel' (by omega)] at hsteady
      exact hsteady) (by
      intro n hn mem h
      obtain ⟨back, hback, hbacked⟩ := h.backward hstage (by omega)
      exact ⟨back, hback, hbacked⟩)
  have hzero : warmup ≠ 0 := by omega
  rw [Nat.sub_add_cancel (by omega), if_neg hzero] at hcooled
  refine ⟨cool, ?_, hcooled⟩
  rw [program, if_pos hstage, forward_eq hle hstage]
  simp only [flatMap_append, flatMap_assoc, ← hwarmup]
  exact ((hfront.append hmiddle).append hback).append (.cons rfl (.nil cool))

end Replay

/-! ## Waits -/

section Waits

variable {α : Type*} {numStages : Nat} {split : Split α numStages} {numMicrobatches k : Nat}

variable {a : Action} {key : Option Nat}

theorem wait_of_expand {call : Call} (ha : a ∈ expand split k call)
    (hwait : a.link = .wait key) :
    (a.instr = .flushPendingSends ∧ key = none) ∨
      ∃ micro, a.instr = .waitSends micro ∧ key = some micro := by
  cases call with
  | waitSends micro =>
    rw [mem_singleton.mp ha] at hwait ⊢
    cases hwait
    exact .inr ⟨micro, rfl, rfl⟩
  | flushPendingSends =>
    rw [mem_singleton.mp ha] at hwait ⊢
    cases hwait
    exact .inl ⟨rfl, rfl⟩
  | sendPending pendingIndex =>
    cases pendingIndex with
    | none =>
      rw [mem_singleton.mp ha] at hwait
      cases hwait
    | some micro =>
      simp only [expand, sendForwardActions, mem_append, mem_map, mem_singleton] at ha
      rcases ha with ⟨index, -, rfl⟩ | rfl <;> cases hwait
  | applyBackward micro =>
    simp only [expand, cons_append, mem_cons, mem_append, mem_map, not_mem_nil, or_false] at ha
    rcases ha with rfl | ⟨index, -, rfl⟩ | rfl <;> cases hwait
  | recvActivation micro =>
    simp only [expand, mem_cons, mem_map] at ha
    rcases ha with rfl | ⟨index, -, rfl⟩ <;> cases hwait
  | recvGradient micro =>
    simp only [expand, mem_cons, mem_map] at ha
    rcases ha with rfl | ⟨index, -, rfl⟩ <;> cases hwait
  | sendForward micro =>
    obtain ⟨index, -, rfl⟩ := mem_map.mp ha
    cases hwait
  | applyForward micro =>
    rw [mem_singleton.mp ha] at hwait
    cases hwait
  | keepPending micro =>
    rw [mem_singleton.mp ha] at hwait
    cases hwait
  | releaseOuts micro =>
    rw [mem_singleton.mp ha] at hwait
    cases hwait

theorem wait_of_program {microbatchSize : Nat}
    (ha : a ∈ program split numMicrobatches microbatchSize k) (hwait : a.link = .wait key) :
    (a.instr = .flushPendingSends ∧ key = none) ∨
      ∃ micro, a.instr = .waitSends micro ∧ key = some micro := by
  unfold program at ha
  split at ha
  · split at ha
    · obtain ⟨call, -, ha⟩ := mem_flatMap.mp ha
      exact wait_of_expand ha hwait
    · cases ha
  · cases ha

theorem tick_lt_flush (hle : numStages ≤ numMicrobatches) {microbatchSize j : Nat}
    (ha : a ∈ PairFifo.linkOps id j (program split numMicrobatches microbatchSize k)) :
    (time numStages numMicrobatches k a.instr).tick < 4 * flushStamp numStages numMicrobatches := by
  obtain ⟨hstage, micro, hmicro, hop, -⟩ := (mem_linkOps_program hle).mp ha
  obtain ⟨slot, hslot, ha⟩ := hop.mem_steps
  have hwithin := (expandSlot_timed split hslot).within a ha
  have hflush := stamp_lt_flushStamp hstage hmicro hslot
  omega

theorem time_waitSends_ge (micro : Nat) :
    4 * (10 * bwdTime numStages k (micro + 1) + 2) + 2 ≤
      (time numStages numMicrobatches k (.waitSends micro)).tick := by
  simp only [time, stampOf]
  split_ifs
  · rw [Clock.tick_at]
    omega
  · rw [Clock.tick_at]

theorem fwdSend_lt_wait (hstage : k < numStages) (micro : Nat) :
    4 * stampOf numStages numMicrobatches micro .fwdSend k + 1 <
      4 * (10 * bwdTime numStages k (micro + 1) + 2) + 2 := by
  have hphase := OneFOneB.sendPhase_bounds k
  have htime : fwdTime numStages numMicrobatches (k + 1) micro ≤ k + 1 + 2 * micro := by
    simp only [fwdTime]
    split <;> omega
  simp only [stampOf, bwdTime]
  omega

theorem bwdSend_lt_wait (hstage : k + 1 < numStages) (micro : Nat) :
    4 * stampOf numStages numMicrobatches micro .bwdRecv k + 1 <
      4 * (10 * bwdTime numStages (k + 1) (micro + 1) + 2) + 2 := by
  simp only [stampOf, bwdTime]
  omega

theorem program_waits (hle : numStages ≤ numMicrobatches) {microbatchSize i j n : Nat}
    {a b c : Action} {key' : Nat}
    (ha : a ∈ program split numMicrobatches microbatchSize i) (hwait : a.link = .wait key)
    (hb : (PairFifo.linkOps id j (program split numMicrobatches microbatchSize i))[n]? = some b)
    (hsend : b.link = .send j key') (hkey : key = none ∨ key = some key')
    (hc : (PairFifo.linkOps id i (program split numMicrobatches microbatchSize j))[n]? = some c) :
    time numStages numMicrobatches j c.instr < time numStages numMicrobatches i a.instr := by
  refine Clock.lt_of_tick ?_
  rcases wait_of_program ha hwait with ⟨hinstr, -⟩ | ⟨micro, hinstr, rfl⟩
  · rw [hinstr]
    exact tick_lt_flush hle (mem_of_getElem? hc)
  · have hmicro : key' = micro := by
      rcases hkey with hkey | hkey
      · cases hkey
      · exact (Option.some.inj hkey).symm
    subst hmicro
    rw [hinstr]
    refine Nat.lt_of_lt_of_le ?_ (time_waitSends_ge key')
    have hbmem := mem_of_getElem? hb
    have hcmem := mem_of_getElem? hc
    by_cases hnext : j = i + 1
    · subst hnext
      rw [← map_partner hle, getElem?_map, hb] at hc
      cases hc
      obtain ⟨hstage, micro, -, ⟨index, -, rfl⟩ | ⟨index, -, rfl⟩⟩ := (mem_linkOps_succ hle).mp hbmem
      · cases hsend
        exact fwdSend_lt_wait hstage key'
      · cases hsend
    · by_cases hbefore : i = j + 1
      · subst hbefore
        rw [← map_partner hle, getElem?_map, hc] at hb
        cases hb
        obtain ⟨hstage, -⟩ := (mem_linkOps_pred hle).mp hbmem
        obtain ⟨-, micro, -, ⟨index, -, rfl⟩ | ⟨index, -, rfl⟩⟩ := (mem_linkOps_succ hle).mp hcmem
        · cases hsend
        · cases hsend
          exact bwdSend_lt_wait hstage key'
      · rw [linkOps_of_far hle hnext hbefore] at hbmem
        cases hbmem

end Waits

/-! ## Main result -/

section Correct

variable {α : Type*} [Add α] {numStages : Nat} (split : Split α numStages)
  (numMicrobatches microbatchSize : Nat)

/-- Every subgraph ran once for every micro-batch, on the values of the graph. -/
structure StepDone (k : Nat) (mem : Mem α) : Prop where
  computed : mem.computed.Perm ((List.range numMicrobatches).map (fwdEntry split k) ++
    (List.range numMicrobatches).map (bwdEntry split k))
  grads : mem.grads = gradsOf split k numMicrobatches

variable {split numMicrobatches}

variable (split) in
theorem program_script (hle : numStages ≤ numMicrobatches) :
    ∃ final, PairFifo.Script (exec split) (Finset.range numStages)
        (program split numMicrobatches microbatchSize) (fun _ => Mem.empty) final
        (fun k a => time numStages numMicrobatches k a.instr) (value split) ∧
      ∀ k < numStages, StepDone split numMicrobatches k (final k) := by
  have hreplays (k : Nat) : ∃ mem, Replays split k (program split numMicrobatches microbatchSize k)
      Mem.empty mem ∧ (k < numStages → StepDone split numMicrobatches k mem) := by
    by_cases hstage : k < numStages
    · obtain ⟨mem, hmem, hdone⟩ := program_replays split hle hstage microbatchSize
      exact ⟨mem, hmem, fun _ => ⟨hdone.computed, hdone.grads⟩⟩
    · rw [program, if_neg hstage]
      exact ⟨Mem.empty, .nil _, fun h => absurd h hstage⟩
  obtain ⟨final, hfinal⟩ := Classical.skolem.mp hreplays
  refine ⟨final, ⟨?_, ?_, ?_, ?_, fun k => (hfinal k).1⟩, fun k hk => (hfinal k).2 hk⟩
  · intro k hk
    exact if_neg (fun h => hk (Finset.mem_range.mpr h))
  · exact fun k => program_sorted split hle microbatchSize
  · exact program_complementary hle microbatchSize
  · intro i a ha key hwait j n b c key' hb hsend hkey _ hc
    exact program_waits hle ha hwait hb hsend hkey hc

/--
With at least as many micro-batches as stages no driver refuses, the stages use
their links in complementary orders, every run ends with all stages done, and a
wait is satisfied by what the other stages do.
-/
theorem forward_correct (split : Split α numStages) (hle : numStages ≤ numMicrobatches) :
    (∀ k < numStages, ∃ calls, forward numStages numMicrobatches k microbatchSize = .ok calls ∧
      program split numMicrobatches microbatchSize k = calls.flatMap (expand split k)) ∧
    (∀ i j, List.Forall₂ (PairFifo.Complementary i j)
      (PairFifo.linkOps id j (program split numMicrobatches microbatchSize i))
      (PairFifo.linkOps id i (program split numMicrobatches microbatchSize j))) ∧
    ∀ n state, PairFifo.Run (exec split) Set.univ n
        (PairFifo.start (program split numMicrobatches microbatchSize) fun _ => Mem.empty) state →
      n ≤ ∑ k ∈ Finset.range numStages, (program split numMicrobatches microbatchSize k).length ∧
      (PairFifo.Stuck (exec split) Set.univ state → PairFifo.Finished state ∧
        ∀ k < numStages, StepDone split numMicrobatches k (state.mem k)) ∧
      ∀ k micro rest, state.todo k = ⟨.waitSends micro, .wait (some micro)⟩ :: rest →
        (∃ m state', PairFifo.Run (exec split) {j | j ≠ k} m state state' ∧
          PairFifo.Stuck (exec split) {j | j ≠ k} state') ∧
        ∀ m state', PairFifo.Run (exec split) {j | j ≠ k} m state state' →
          PairFifo.Stuck (exec split) {j | j ≠ k} state' →
            ∃ received, PairFifo.Enabled state' k (.wait (some micro)) received := by
  obtain ⟨final, hscript, hdone⟩ := program_script split microbatchSize hle
  refine ⟨?_, ?_, ?_⟩
  · intro k hstage
    refine ⟨_, forward_eq hle hstage microbatchSize, ?_⟩
    rw [program, if_pos hstage, forward_eq hle hstage]
  · intro i j
    exact (program_complementary hle microbatchSize i j).imp fun _ _ h => h.complementary
  · intro n state hrun
    obtain ⟨hbound, hends⟩ := hscript.run_ends hrun
    refine ⟨hbound, ?_, ?_⟩
    · intro hstuck
      obtain ⟨hfinished, hmem⟩ := hends hstuck
      refine ⟨hfinished, ?_⟩
      intro k hk
      rw [hmem]
      exact hdone k hk
    · intro k micro rest hhead
      exact hscript.others_enable hrun hhead

/-- Stages that add one, and pass one value down and one up. -/
def addOneSplit (numStages : Nat) : Split Nat numStages where
  stage k := {
    state := []
    ownedMb := fun micro => [micro]
    fwdGm := fun args => [args.sum + 1]
    bwdGm := fun args => if k = 0 then [args.sum] else [args.sum, args.sum + 1]
    numTrainable := 1 }
  crossing _ _ _ := 1
  onesLike _ := 1
  fwd_length k args := by
    refine ⟨?_, cons_ne_nil _ _⟩
    unfold actOut
    split <;> simp
  bwd_length k args := by
    by_cases hfirst : k = 0
    · simp [hfirst, gradOut]
    · simp [hfirst, gradOut, Nat.pos_of_ne_zero hfirst]

theorem forward_correct_two_two :
    2 ≤ 2 ∧ ∀ n state, PairFifo.Run (exec (addOneSplit 2)) Set.univ n
        (PairFifo.start (program (addOneSplit 2) 2 1) fun _ => Mem.empty) state →
      PairFifo.Stuck (exec (addOneSplit 2)) Set.univ state → PairFifo.Finished state :=
  ⟨Nat.le_refl 2, fun n state hrun hstuck =>
    (((forward_correct 1 (addOneSplit 2) (Nat.le_refl 2)).2.2 n state hrun).2.1 hstuck).1⟩

end Correct

end HyperParallel.Compile.Schedule1F1B
