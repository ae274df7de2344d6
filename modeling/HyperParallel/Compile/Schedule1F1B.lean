import HyperParallel.Compile.StageGraphs
import HyperParallel.Foundation.PairFifo
import HyperParallel.Foundation.PySequence

/-!
# The 1F1B driver of a compiled graph

What the driver of a stage does next never depends on a value, so the driver is
the list of the building blocks it calls.  A block runs as one instruction for
each value it moves; a send and a receive move one value over the link to the
neighbouring stage.
-/

namespace HyperParallel.Compile.Schedule1F1B

open Foundation

/-- A call of a building block; the micro-batch of a receive only names it. -/
inductive Call where
  | recvActivation (micro : Nat)
  | applyForward (micro : Nat)
  | sendForward (micro : Nat)
  /-- Send the pending output, under its micro-batch, and clear it. -/
  | sendPending (pendingIndex : Option Nat)
  | keepPending (micro : Nat)
  | recvGradient (micro : Nat)
  | waitSends (micro : Nat)
  | applyBackward (micro : Nat)
  | releaseOuts (micro : Nat)
  | flushPendingSends
  deriving DecidableEq, Repr

structure Driver where
  calls : List Call
  fwdIndex : Nat
  bwdIndex : Nat
  pendingIndex : Option Nat

inductive ScheduleError where
  | fewMicrobatches (ppDegree numMicrobatches microbatchSize : Nat)
  deriving DecidableEq, Repr

def ScheduleError.message : ScheduleError → String
  | .fewMicrobatches ppDegree numMicrobatches microbatchSize =>
    "1F1B requires at least pp_degree=" ++ toString ppDegree ++ " microbatches, got " ++
    toString numMicrobatches ++ " (batch " ++ toString (numMicrobatches * microbatchSize) ++
    " with pp_microbatch_size=" ++ toString microbatchSize ++
    "); lower pp_microbatch_size or use the gpipe schedule"

section Driver

variable (ppDegree numMicrobatches stageIdx : Nat)

def warmupCount : Nat := min numMicrobatches (ppDegree - stageIdx)

def warmupTurn (driver : Driver) (k : Nat) : Driver :=
  let even := stageIdx % 2 = 0
  let fwdIndex := driver.fwdIndex
  let calls := driver.calls ++ [.recvActivation fwdIndex] ++
    (if ¬even ∧ 0 < k then [.sendPending driver.pendingIndex] else []) ++ [.applyForward fwdIndex]
  if even ∧ k ≠ warmupCount ppDegree numMicrobatches stageIdx - 1 then
    { driver with calls := calls ++ [.sendForward fwdIndex], fwdIndex := fwdIndex + 1 }
  else
    { driver with
      calls := calls ++ [.keepPending fwdIndex]
      fwdIndex := fwdIndex + 1
      pendingIndex := some fwdIndex }

def backwardTurn (driver : Driver) : Driver :=
  let bwdIndex := driver.bwdIndex
  { driver with
    calls := driver.calls ++ [.recvGradient bwdIndex] ++
      (if 0 < bwdIndex then [.waitSends (bwdIndex - 1)] else []) ++
      (if driver.pendingIndex.isSome then [.sendPending driver.pendingIndex] else []) ++
      [.applyBackward bwdIndex, .releaseOuts bwdIndex]
    bwdIndex := bwdIndex + 1
    pendingIndex := none }

def steadyTurn (driver : Driver) : Driver :=
  let driver := backwardTurn driver
  let fwdIndex := driver.fwdIndex
  { driver with
    calls := driver.calls ++
      [.recvActivation fwdIndex, .applyForward fwdIndex, .keepPending fwdIndex]
    fwdIndex := fwdIndex + 1
    pendingIndex := some fwdIndex }

def forward (microbatchSize : Nat) : Except ScheduleError (List Call) :=
  if numMicrobatches < ppDegree then
    .error (.fewMicrobatches ppDegree numMicrobatches microbatchSize)
  else
    let warmup := warmupCount ppDegree numMicrobatches stageIdx
    let warm := (List.range warmup).foldl (warmupTurn ppDegree numMicrobatches stageIdx)
      ⟨[], 0, 0, none⟩
    let steady := steadyTurn^[numMicrobatches - warmup] warm
    let cool := backwardTurn^[warmup] steady
    .ok (cool.calls ++ [.flushPendingSends])

end Driver

/-! ## Running the calls -/

/-- One instruction of a call; an index counts the values the call moves. -/
inductive Instr where
  | beginActivation (micro : Nat)
  | recvActivation (micro index : Nat)
  | applyForward (micro : Nat)
  | sendForward (pending : Bool) (micro index : Nat)
  | clearPending (micro : Nat)
  | sendNone
  | keepPending (micro : Nat)
  | beginGradient (micro : Nat)
  | recvGradient (micro index : Nat)
  | waitSends (micro : Nat)
  | applyBackward (micro : Nat)
  | sendGradient (micro index : Nat)
  | accumulateGrads (micro : Nat)
  | releaseOuts (micro : Nat)
  | flushPendingSends
  deriving DecidableEq, Repr

/-- A subgraph that was run: its micro-batch, what it got from the neighbour, what it returned. -/
inductive Computation (α : Type*) where
  | fwd (micro : Nat) (actIn out : List α)
  | bwd (micro : Nat) (gradIn fwdOuts out : List α)
  deriving DecidableEq, Repr

/-- The variables of the driver that hold values, and all subgraph runs so far. -/
structure Mem (α : Type*) where
  actIn : List α
  out : Option (List α)
  pendingOut : Option (List α)
  fwdOutsPerMb : Nat → Option (List α)
  gradIn : List α
  bwdOut : List α
  grads : List α
  computed : List (Computation α)

def Mem.empty {α : Type*} : Mem α := ⟨[], none, none, fun _ => none, [], [], [], []⟩

inductive RunError where
  | noOutput
  | noValue
  | notReceived
  deriving DecidableEq, Repr

section Run

variable {α : Type*} [Add α] {numStages : Nat} (split : Split α numStages) (k : Nat)

abbrev isLast (numStages k : Nat) : Prop := k = numStages - 1

def accumulateGrads (accumulated paramGrads : List α) : List α :=
  if accumulated = [] then paramGrads else List.zipWith (· + ·) accumulated paramGrads

def valueAt (values : List α) (index : Nat) (mem : Mem α) : Except RunError (Mem α × Option α) :=
  match values[index]? with
  | some value => .ok (mem, some value)
  | none => .error .noValue

/-- Run an instruction on the value it received; a send returns the value it ships. -/
def exec : Instr → Option α → Mem α → Except RunError (Mem α × Option α)
  | .beginActivation _, _, mem => .ok ({ mem with actIn := [] }, none)
  | .recvActivation _ _, some value, mem => .ok ({ mem with actIn := mem.actIn ++ [value] }, none)
  | .applyForward micro, _, mem =>
    let out := split.applyForward k mem.actIn micro
    .ok ({ mem with
      out := some out
      fwdOutsPerMb := Function.update mem.fwdOutsPerMb micro (some out)
      computed := mem.computed ++ [.fwd micro mem.actIn out] }, none)
  | .sendForward pending _ index, _, mem =>
    match if pending then mem.pendingOut else mem.out with
    | some out => valueAt (out.take (actOut numStages split.crossing k)) index mem
    | none => .error .noOutput
  | .clearPending _, _, mem => .ok ({ mem with pendingOut := none }, none)
  | .keepPending _, _, mem => .ok ({ mem with pendingOut := mem.out }, none)
  | .beginGradient micro, _, mem =>
    if isLast numStages k then
      match mem.fwdOutsPerMb micro with
      | some (out :: _) => .ok ({ mem with gradIn := [split.onesLike out] }, none)
      | _ => .error .noOutput
    else .ok ({ mem with gradIn := [] }, none)
  | .recvGradient _ _, some value, mem => .ok ({ mem with gradIn := mem.gradIn ++ [value] }, none)
  | .waitSends _, _, mem => .ok (mem, none)
  | .applyBackward micro, _, mem =>
    match mem.fwdOutsPerMb micro with
    | some fwdOuts =>
      let out := split.applyBackward k mem.gradIn fwdOuts
      .ok ({ mem with
        bwdOut := out
        computed := mem.computed ++ [.bwd micro mem.gradIn fwdOuts out] }, none)
    | none => .error .noOutput
  | .sendGradient _ index, _, mem =>
    valueAt (mem.bwdOut.drop (split.stage k).numTrainable) index mem
  | .accumulateGrads _, _, mem =>
    .ok ({ mem with
      grads := accumulateGrads mem.grads (mem.bwdOut.take (split.stage k).numTrainable) }, none)
  | .releaseOuts micro, _, mem =>
    -- The last stage keeps the loss.
    let kept := if isLast numStages k then (mem.fwdOutsPerMb micro).map (List.take 1) else none
    .ok ({ mem with fwdOutsPerMb := Function.update mem.fwdOutsPerMb micro kept }, none)
  | .flushPendingSends, _, mem => .ok (mem, none)
  | .sendNone, _, _ => .error .noOutput
  | .recvActivation _ _, none, _ => .error .notReceived
  | .recvGradient _ _, none, _ => .error .notReceived

/-- An instruction with its link; the sends of a micro-batch share its key. -/
abbrev Action := PairFifo.Action Nat Instr Nat

def sendForwardActions (pending : Bool) (micro : Nat) : List Action :=
  (List.range (actOut numStages split.crossing k)).map fun index =>
    ⟨.sendForward pending micro index, .send (k + 1) micro⟩

def free (instr : Instr) : Action := ⟨instr, .free⟩

/-- The instructions of a call. -/
def expand : Call → List Action
  | .recvActivation micro =>
    free (.beginActivation micro) :: (List.range (actIn split.crossing k)).map fun index =>
      ⟨.recvActivation micro index, .recv (k - 1)⟩
  | .applyForward micro => [free (.applyForward micro)]
  | .sendForward micro => sendForwardActions split k false micro
  | .sendPending (some micro) => sendForwardActions split k true micro ++ [free (.clearPending micro)]
  | .sendPending none => [free .sendNone]
  | .keepPending micro => [free (.keepPending micro)]
  | .recvGradient micro =>
    free (.beginGradient micro) ::
      (List.range (gradIn numStages split.crossing k)).map fun index =>
        ⟨.recvGradient micro index, .recv (k + 1)⟩
  | .waitSends micro => [⟨.waitSends micro, .wait (some micro)⟩]
  | .applyBackward micro =>
    free (.applyBackward micro) ::
      ((List.range (gradOut split.crossing k)).map fun index =>
        ⟨.sendGradient micro index, .send (k - 1) micro⟩) ++ [free (.accumulateGrads micro)]
  | .releaseOuts micro => [free (.releaseOuts micro)]
  | .flushPendingSends => [⟨.flushPendingSends, .wait none⟩]

def program (numMicrobatches microbatchSize : Nat) (k : Nat) : List Action :=
  if k < numStages then
    match forward numStages numMicrobatches k microbatchSize with
    | .ok calls => calls.flatMap (expand split k)
    | .error _ => []
  else []

end Run

end HyperParallel.Compile.Schedule1F1B
