import HyperParallel.Compile.Schedule1F1BOrder
import Mathlib.Data.Prod.Lex

/-!
# Times of the 1F1B driver

The stamps of the 1F1B order give every instruction a time, in which each stage
runs its own instructions one after the other.
-/

namespace HyperParallel.Compile.Schedule1F1B

open Foundation List
open Pipeline
open Pipeline.OneFOneB (constructStageOrder leaf sendPair recvPair stampOf stamp
  fwdTime bwdTime stageSteps)

section Time

variable (numStages numMicrobatches k : Nat)

/-- A time: four for each stamp of the order, and a count within it. -/
abbrev Clock := Nat ×ₗ Nat

def Clock.at (time index : Nat) : Clock := toLex (time, index)

theorem Clock.at_lt {time time' index index' : Nat} :
    Clock.at time index < Clock.at time' index' ↔ time < time' ∨ time = time' ∧ index < index' :=
  Prod.Lex.toLex_lt_toLex

def Clock.tick (clock : Clock) : Nat := (ofLex clock).1

@[simp] theorem Clock.tick_at (time index : Nat) : (Clock.at time index).tick = time := rfl

theorem Clock.lt_of_tick {a b : Clock} (h : a.tick < b.tick) : a < b := Prod.Lex.lt_iff.mpr (.inl h)

def flushStamp : Nat := 20 * (numStages + numMicrobatches) + 20

/-- When an instruction is due on its stage. -/
def time : Instr → Clock :=
  let start (micro : Nat) (type : MetaStepType) : Nat :=
    4 * stampOf numStages numMicrobatches micro type k
  fun
  | .beginActivation micro =>
    if k = 0 then .at (start micro .fwd) 0 else .at (start micro .fwdRecv) 0
  | .recvActivation micro index => .at (start micro .fwdRecv + 1) index
  | .applyForward micro => .at (start micro .fwd + 1) 0
  | .keepPending micro => .at (start micro .fwd + 2) 0
  | .sendForward _ micro index => .at (start micro .fwdSend) index
  | .clearPending micro =>
    if isLast numStages k then .at (start micro .bwd + 1) 1 else .at (start micro .fwdSend + 1) 0
  | .sendNone => .at 0 0
  | .beginGradient micro =>
    if isLast numStages k then .at (start micro .bwd) 0 else .at (start micro .bwdRecv) 0
  | .recvGradient micro index => .at (start micro .bwdRecv + 1) index
  | .waitSends micro =>
    if isLast numStages k then .at (start (micro + 1) .bwd + 1) 0
    else .at (start (micro + 1) .bwdRecv + 2) 0
  | .applyBackward micro => .at (start micro .bwd + 2) 0
  | .sendGradient micro index => .at (start micro .bwdSend) index
  | .accumulateGrads micro =>
    if k = 0 then .at (start micro .bwd + 3) 0 else .at (start micro .bwdSend + 1) 0
  | .releaseOuts micro =>
    if k = 0 then .at (start micro .bwd + 3) 1 else .at (start micro .bwdSend + 1) 1
  | .flushPendingSends => .at (4 * flushStamp numStages numMicrobatches) 0

structure Timed (stamp : Nat) (actions : List Action) : Prop where
  sorted : actions.Pairwise fun a b =>
    time numStages numMicrobatches k a.instr < time numStages numMicrobatches k b.instr
  within : ∀ a ∈ actions, 4 * stamp ≤ (time numStages numMicrobatches k a.instr).tick ∧
    (time numStages numMicrobatches k a.instr).tick < 4 * stamp + 4

variable {numStages numMicrobatches k} {α : Type*} (split : Split α numStages)

theorem pairwise_range {f : Nat → Action} {n base : Nat}
    (hf : ∀ index, time numStages numMicrobatches k (f index).instr = .at base index) :
    ((range n).map f).Pairwise fun a b =>
      time numStages numMicrobatches k a.instr < time numStages numMicrobatches k b.instr := by
  refine pairwise_map.mpr (pairwise_lt_range.imp ?_)
  intro index index' hlt
  rw [hf, hf, Clock.at_lt]
  exact .inr ⟨rfl, hlt⟩

theorem mem_range_map {f : Nat → Action} {n : Nat} {a : Action} :
    a ∈ (range n).map f ↔ ∃ index < n, a = f index := by
  simp [eq_comm]

variable (micro : Nat)

theorem fwdRecv_timed (hfirst : k ≠ 0) :
    Timed numStages numMicrobatches k (stampOf numStages numMicrobatches micro .fwdRecv k)
      (expandStep split numMicrobatches k micro .fwdRecv) := by
  constructor
  · refine pairwise_cons.mpr ⟨?_, pairwise_range fun _ => rfl⟩
    intro a ha
    obtain ⟨index, -, rfl⟩ := mem_range_map.mp ha
    simp [free, time, if_neg hfirst, Clock.at_lt]
  · simp [expandStep, expand, free, time, if_neg hfirst]

theorem fwd_timed :
    Timed numStages numMicrobatches k (stampOf numStages numMicrobatches micro .fwd k)
      (expandStep split numMicrobatches k micro .fwd) := by
  have hnone : k = 0 → actIn split.crossing k = 0 := by
    rintro rfl
    rfl
  simp only [expandStep]
  by_cases hfirst : k = 0
  · rw [if_pos hfirst]
    constructor
    · split_ifs <;> simp [expand, free, time, if_pos hfirst, hnone hfirst, Clock.at_lt]
    · split_ifs <;> simp [expand, free, time, if_pos hfirst, hnone hfirst]
  · rw [if_neg hfirst]
    constructor
    · split_ifs <;> simp [expand, free, time, Clock.at_lt]
    · split_ifs <;> simp [expand, free, time]

theorem fwdSend_timed (hlast : k ≠ numStages - 1) :
    Timed numStages numMicrobatches k (stampOf numStages numMicrobatches micro .fwdSend k)
      (expandStep split numMicrobatches k micro .fwdSend) := by
  simp only [expandStep]
  split_ifs
  · constructor
    · exact pairwise_range fun _ => rfl
    · simp [expand, sendForwardActions, time]
  · constructor
    · refine pairwise_append.mpr ⟨pairwise_range fun _ => rfl, pairwise_singleton _ _, ?_⟩
      intro a ha b hb
      obtain ⟨index, -, rfl⟩ := mem_range_map.mp ha
      rw [mem_singleton.mp hb]
      simp [free, time, if_neg hlast, Clock.at_lt]
    · simp [expand, sendForwardActions, free, time, if_neg hlast, or_imp, forall_and]

theorem time_wait {micro : Nat} (hpos : 0 < micro) :
    time numStages numMicrobatches k (.waitSends (micro - 1)) =
      if isLast numStages k then
        .at (4 * stampOf numStages numMicrobatches micro .bwd k + 1) 0
      else .at (4 * stampOf numStages numMicrobatches micro .bwdRecv k + 2) 0 := by
  simp only [time, Nat.sub_add_cancel hpos]

theorem mem_waitActions {micro : Nat} {a : Action} :
    a ∈ waitActions split k micro ↔
      0 < micro ∧ a = ⟨.waitSends (micro - 1), .wait (some (micro - 1))⟩ := by
  unfold waitActions
  split_ifs with hpos
  · simp [expand, hpos]
  · simp [hpos]

theorem bwdRecv_timed (hlast : k ≠ numStages - 1) :
    Timed numStages numMicrobatches k (stampOf numStages numMicrobatches micro .bwdRecv k)
      (expandStep split numMicrobatches k micro .bwdRecv) := by
  have hbegin : ∀ a ∈ expand split k (.recvGradient micro),
      4 * stampOf numStages numMicrobatches micro .bwdRecv k ≤
          (time numStages numMicrobatches k a.instr).tick ∧
        (time numStages numMicrobatches k a.instr).tick <
          4 * stampOf numStages numMicrobatches micro .bwdRecv k + 2 := by
    simp [expand, free, time, if_neg hlast]
  constructor
  · refine pairwise_append.mpr ⟨pairwise_cons.mpr ⟨?_, pairwise_range fun _ => rfl⟩, ?_, ?_⟩
    · intro a ha
      obtain ⟨index, -, rfl⟩ := mem_range_map.mp ha
      simp [free, time, if_neg hlast, Clock.at_lt]
    · unfold waitActions
      split_ifs
      · exact pairwise_singleton _ _
      · exact .nil
    · intro a ha b hb
      obtain ⟨hpos, rfl⟩ := (mem_waitActions split).mp hb
      refine Clock.lt_of_tick ?_
      rw [time_wait hpos, if_neg hlast]
      exact (hbegin a ha).2
  · intro a ha
    rcases mem_append.mp ha with ha | ha
    · have := hbegin a ha
      omega
    · obtain ⟨hpos, rfl⟩ := (mem_waitActions split).mp ha
      rw [time_wait hpos, if_neg hlast, Clock.tick_at]
      omega

theorem closeActions_timed :
    Timed numStages numMicrobatches k
      (stampOf numStages numMicrobatches micro (if k = 0 then .bwd else .bwdSend) k)
      (closeActions split k micro) := by
  by_cases hfirst : k = 0
  · constructor
    · simp [closeActions, expand, free, time, if_pos hfirst, Clock.at_lt]
    · simp [closeActions, expand, free, time, if_pos hfirst]
  · constructor
    · simp [closeActions, expand, free, time, if_neg hfirst, Clock.at_lt]
    · simp [closeActions, expand, free, time, if_neg hfirst]

theorem bwdSend_timed (hfirst : k ≠ 0) :
    Timed numStages numMicrobatches k (stampOf numStages numMicrobatches micro .bwdSend k)
      (expandStep split numMicrobatches k micro .bwdSend) := by
  have hclose : Timed numStages numMicrobatches k _ (closeActions split k micro) :=
    closeActions_timed split micro
  rw [if_neg hfirst] at hclose
  constructor
  · refine pairwise_append.mpr ⟨pairwise_range fun _ => rfl, hclose.sorted, ?_⟩
    intro a ha b hb
    obtain ⟨index, -, rfl⟩ := mem_range_map.mp ha
    simp only [closeActions, expand, mem_cons, not_mem_nil, or_false] at hb
    rcases hb with rfl | rfl
    · simp [free, time, if_neg hfirst, Clock.at_lt]
    · simp [free, time, if_neg hfirst, Clock.at_lt]
  · intro a ha
    rcases mem_append.mp ha with ha | ha
    · obtain ⟨index, -, rfl⟩ := mem_range_map.mp ha
      simp [time]
    · exact hclose.within a ha

theorem seedActions_eq (hlast : isLast numStages k) (micro : Nat) :
    seedActions split k micro = free (.beginGradient micro) :: waitActions split k micro ++
      [free (.clearPending micro)] := by
  have hgrad : gradIn numStages split.crossing k = 0 := if_pos hlast
  have hact : actOut numStages split.crossing k = 0 := if_pos hlast
  simp [seedActions, expand, sendForwardActions, hgrad, hact]

theorem seedActions_timed (hlast : isLast numStages k) (micro : Nat) :
    Timed numStages numMicrobatches k (stampOf numStages numMicrobatches micro .bwd k)
        (seedActions split k micro) ∧
      ∀ a ∈ seedActions split k micro, (time numStages numMicrobatches k a.instr).tick <
        4 * stampOf numStages numMicrobatches micro .bwd k + 2 := by
  rw [seedActions_eq split hlast]
  unfold waitActions
  split_ifs with hpos
  · have hwait : time numStages numMicrobatches k (.waitSends (micro - 1)) = _ := time_wait hpos
    rw [if_pos hlast] at hwait
    refine ⟨⟨?_, ?_⟩, ?_⟩
    · simp [expand, free, hwait]
      simp [time, if_pos hlast, Clock.at_lt]
    · simp [expand, free, hwait]
      simp [time, if_pos hlast]
    · simp [expand, free, hwait]
      simp [time, if_pos hlast]
  · refine ⟨⟨?_, ?_⟩, ?_⟩
    · simp [free, time, if_pos hlast, Clock.at_lt]
    · simp [free, time, if_pos hlast]
    · simp [free, time, if_pos hlast]

theorem bwd_timed :
    Timed numStages numMicrobatches k (stampOf numStages numMicrobatches micro .bwd k)
      (expandStep split numMicrobatches k micro .bwd) := by
  have hback : Timed numStages numMicrobatches k (stampOf numStages numMicrobatches micro .bwd k)
        (free (.applyBackward micro) :: if k = 0 then closeActions split k micro else []) ∧
      ∀ a ∈ (free (.applyBackward micro) :: if k = 0 then closeActions split k micro else []),
        4 * stampOf numStages numMicrobatches micro .bwd k + 2 ≤
          (time numStages numMicrobatches k a.instr).tick := by
    by_cases hfirst : k = 0
    · refine ⟨⟨?_, ?_⟩, ?_⟩
      · simp [closeActions, expand, free, time, if_pos hfirst, Clock.at_lt]
      · simp [closeActions, expand, free, time, if_pos hfirst]
      · simp [closeActions, expand, free, time, if_pos hfirst]
    · refine ⟨⟨?_, ?_⟩, ?_⟩
      · simp [if_neg hfirst]
      · simp [free, time, if_neg hfirst]
      · simp [free, time, if_neg hfirst]
  simp only [expandStep]
  by_cases hlast : isLast numStages k
  · obtain ⟨hfront, hbefore⟩ := seedActions_timed split hlast micro
    rw [if_pos hlast]
    constructor
    · refine pairwise_append.mpr ⟨hfront.sorted, hback.1.sorted, ?_⟩
      intro a ha b hb
      exact Clock.lt_of_tick (Nat.lt_of_lt_of_le (hbefore a ha) (hback.2 b hb))
    · intro a ha
      rcases mem_append.mp ha with ha | ha
      · exact hfront.within a ha
      · exact hback.1.within a ha
  · rw [if_neg hlast]
    exact hback.1

theorem expandSlot_timed {micro : Nat} {slot : Slot} (hslot : slot ∈ stageSteps numStages k micro) :
    Timed numStages numMicrobatches k (stamp numStages numMicrobatches slot)
      (expandSlot split numMicrobatches k slot) := by
  have hnone (type : MetaStepType) (h : expandStep split numMicrobatches k micro type = []) :
      Timed numStages numMicrobatches k (stamp numStages numMicrobatches (leaf micro type k))
        (expandSlot split numMicrobatches k (leaf micro type k)) := by
    rw [expandSlot_leaf, h]
    exact ⟨.nil, by simp⟩
  rcases (OneFOneB.mem_stageSteps micro slot).mp hslot with
    (rfl | ⟨hfirst, rfl⟩ | ⟨hlast, rfl⟩) | (rfl | rfl | ⟨hfirst, hslot⟩) | ⟨hlast, hslot⟩
  · exact bwd_timed split micro
  · exact bwdSend_timed split micro hfirst
  · exact bwdRecv_timed split micro hlast
  · exact hnone .dataLoad rfl
  · exact fwd_timed split micro
  · simp only [recvPair, mem_cons, not_mem_nil, or_false] at hslot
    rcases hslot with rfl | rfl
    · exact hnone .dataRecv rfl
    · exact fwdRecv_timed split micro hfirst
  · simp only [sendPair, mem_cons, not_mem_nil, or_false] at hslot
    rcases hslot with rfl | rfl
    · exact hnone .dataSend rfl
    · exact fwdSend_timed split micro hlast

theorem stamp_lt_flushStamp (hstage : k < numStages) {micro : Nat} (hmicro : micro < numMicrobatches)
    {slot : Slot} (hslot : slot ∈ stageSteps numStages k micro) :
    stamp numStages numMicrobatches slot < flushStamp numStages numMicrobatches := by
  have htime (stage : Nat) : fwdTime numStages numMicrobatches stage micro ≤ stage + 2 * micro := by
    simp only [fwdTime]
    split <;> omega
  have hfwd := htime k
  have hnext := htime (k + 1)
  have hphase := OneFOneB.sendPhase_bounds k
  have hbefore := OneFOneB.sendPhase_bounds (k - 1)
  have hload := OneFOneB.loadPhase_le numStages numMicrobatches k micro
  rcases (OneFOneB.mem_stageSteps micro slot).mp hslot with
    (rfl | ⟨-, rfl⟩ | ⟨-, rfl⟩) | (rfl | rfl | ⟨-, hslot⟩) | ⟨-, hslot⟩
  case inr.inl.inr.inr =>
    simp only [recvPair, mem_cons, not_mem_nil, or_false] at hslot
    rcases hslot with rfl | rfl <;>
      simp only [OneFOneB.stamp_leaf, stampOf, flushStamp] <;> omega
  case inr.inr =>
    simp only [sendPair, mem_cons, not_mem_nil, or_false] at hslot
    rcases hslot with rfl | rfl <;>
      simp only [OneFOneB.stamp_leaf, stampOf, flushStamp] <;> omega
  all_goals
    simp only [OneFOneB.stamp_leaf, stampOf, flushStamp, bwdTime]
    omega

theorem program_sorted (hle : numStages ≤ numMicrobatches) (microbatchSize : Nat) :
    (program split numMicrobatches microbatchSize k).Pairwise fun a b =>
      time numStages numMicrobatches k a.instr < time numStages numMicrobatches k b.instr := by
  by_cases hstage : k < numStages
  · have hpos : 0 < numMicrobatches := by omega
    obtain ⟨low, high, hrising⟩ := OneFOneB.constructStageOrder_rising hstage hpos
    have htimed : ∀ slot ∈ constructStageOrder numStages numMicrobatches k,
        Timed numStages numMicrobatches k (stamp numStages numMicrobatches slot)
            (expandSlot split numMicrobatches k slot) ∧
          stamp numStages numMicrobatches slot < flushStamp numStages numMicrobatches := by
      intro slot hslot
      obtain ⟨micro, hmicro, hsteps⟩ := (OneFOneB.mem_constructStageOrder hstage hpos slot).mp hslot
      exact ⟨expandSlot_timed split hsteps, stamp_lt_flushStamp hstage hmicro hsteps⟩
    rw [program_eq split hle hstage, pairwise_append, pairwise_flatMap]
    refine ⟨⟨fun slot hslot => (htimed slot hslot).1.sorted, ?_⟩, pairwise_singleton _ _, ?_⟩
    · refine hrising.sorted.imp_of_mem ?_
      intro slot slot' hslot hslot' hlt a ha b hb
      have hbefore := (htimed slot hslot).1.within a ha
      have hafter := (htimed slot' hslot').1.within b hb
      refine Clock.lt_of_tick ?_
      omega
    · intro a ha b hb
      obtain ⟨slot, hslot, ha⟩ := mem_flatMap.mp ha
      rw [mem_singleton.mp hb]
      have hbefore := (htimed slot hslot).1.within a ha
      have hflush := (htimed slot hslot).2
      have hlast : (time numStages numMicrobatches k .flushPendingSends).tick =
          4 * flushStamp numStages numMicrobatches := rfl
      refine Clock.lt_of_tick ?_
      rw [hlast]
      omega
  · rw [program, if_neg hstage]
    exact .nil

end Time

end HyperParallel.Compile.Schedule1F1B
