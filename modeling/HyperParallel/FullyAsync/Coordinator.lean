import HyperParallel.Foundation.StepRuns
import HyperParallel.FullyAsync.Experience
import Mathlib.Algebra.Ring.Int.Defs

/-!
# The root coordinator and the rollouter

The coordinator runs the training loop and owns the buffer; the rollouter owns
the groups in flight.  Commands and control messages share a pipe, finished
groups travel on a queue, and each of the three is FIFO.  Generation runs under
the version committed when a segment starts, whatever is published before the
segment is reported.
-/

namespace HyperParallel.FullyAsync

open Foundation

/-! ### The rollouter -/

inductive Outcome where
  | running
  | finished
  | failed
  deriving DecidableEq, Repr

structure Candidate where
  attempt : Nat := 0
  calls : List (List (Int × Nat)) := []
  pending : Option Int := none
  outcome : Outcome := .running
  deriving DecidableEq, Repr

structure InFlight where
  task : SamplingTask
  candidates : List Candidate
  deriving DecidableEq, Repr

def segmentsFrom (start : Int) : List (Int × Nat) → List Segment
  | [] => []
  | (version, tokens) :: rest =>
    ⟨start, start + tokens, version, version - 1⟩ :: segmentsFrom (start + tokens) rest

def buildRow (call : List (Int × Nat)) : Row :=
  let version := (call.map Prod.fst).getLastD 0
  { segments := some (segmentsFrom 0 call)
    actions := (call.map fun segment => (segment.2 : Int)).sum
    policyVersion := version
    workerPolicyVersion := version }

def InFlight.result (group : InFlight) : SampleGroup :=
  { task := group.task
    episodes := group.candidates.map fun candidate => candidate.calls.map buildRow }

inductive Command where
  | task (task : SamplingTask)
  | snapshot
  deriving DecidableEq, Repr

inductive Control where
  | ready
  | discarded (task : SamplingTask)
  | snapshot (cursor : Nat)
  | error
  deriving DecidableEq, Repr

/-! ### The coordinator -/

/-- What follows once all result credits have returned. -/
inductive Drained where
  | publish
  | checkpointPublish
  | checkpoint
  | finish
  deriving DecidableEq, Repr

/-- What follows a pump. -/
inductive After where
  | ready
  | command
  | fill (final : Bool)
  | progress
  | update
  | drained (next : Drained)
  | snapshot
  deriving DecidableEq, Repr

inductive Pc where
  | pumping (after : After)
  | reserving (final : Bool)
  | updating
  | publishing (resume : Bool)
  | finished
  | pumpRaised
  | raised
  deriving DecidableEq, Repr

structure Checkpoint where
  buffer : BufferState
  learnerUpdate : Int
  updates : List (List Nat)

structure World where
  buffer : ExperienceBuffer := {}
  pc : Pc := .pumping .ready
  globalStep : Int
  sourceUpdate : Int
  version : Int
  lastPublication : Int
  readyMessage : Bool := false
  snapshotMessage : Option Nat := none
  commands : List Command := []
  controls : List Control := [.ready]
  results : List SampleGroup := []
  groups : List InFlight := []
  cursor : Nat := 0
  /-- the version inference runs under -/
  committed : Int
  /-- the identities of every update made -/
  updates : List (List Nat) := []
  checkpoints : List Checkpoint := []

namespace World

inductive Action where
  | receiveResult
  | receiveControl
  /-- the pump is over; `due` says whether a checkpoint is due after an update -/
  | pumpDone (due : Bool)
  | reserve
  | update
  | commitPolicy
  | take
  | startSegment (group candidate : Nat)
  | finishSegment (group candidate tokens : Nat) (newCall : Bool)
  | finishCandidate (group candidate : Nat)
  | failCandidate (group candidate : Nat)
  | finishGroup (group : Nat)
  deriving DecidableEq, Repr

variable (settings : Settings)

def receiveResult (w : World) : Option World :=
  match w.pc, w.results with
  | .pumping _, group :: rest =>
    match w.buffer.accept settings group with
    | .ok buffer => some { w with results := rest, buffer := buffer }
    | .error _ => some { w with results := rest, pc := .pumpRaised }
  | _, _ => none

def receiveControl (w : World) : Option World :=
  match w.pc, w.controls with
  | .pumping _, message :: rest =>
    let w := { w with controls := rest }
    match message with
    | .discarded task => match w.buffer.discard task with
        | .ok buffer => some { w with buffer := buffer }
        | .error _ => some { w with pc := .pumpRaised }
    | .error => some { w with pc := .pumpRaised }
    | .ready => some { w with readyMessage := true }
    | .snapshot cursor => some { w with snapshotMessage := some cursor }
  | _, _ => none

def evict (w : World) (next : World → World) : World :=
  match w.buffer.evictStale settings w.globalStep with
  | .ok buffer => next { w with buffer := buffer }
  | .error _ => { w with pc := .raised }

/-- The head of the loop that waits for a complete batch. -/
def collect (w : World) : World :=
  { w with pc := .pumping (.fill (decide (settings.required ≤ w.buffer.ready.entries.length))) }

def loop (w : World) : World :=
  { w with pc :=
      if w.globalStep < settings.maxSteps then .pumping .command
      else .pumping (.drained .finish) }

def afterCommand (w : World) : World :=
  if (settings.maxPolicyLagUpdates : Int) < w.globalStep - w.sourceUpdate then
    { w with pc := .publishing true }
  else w.collect settings

def afterProgress (w : World) : World :=
  if w.sourceUpdate < w.globalStep ∧ w.buffer.reserved.entries = [] then
    { w with pc := .pumping (.drained .publish) }
  else w.collect settings

def afterUpdate (w : World) (due : Bool) : World :=
  if due = true ∨ (settings.publishEveryUpdates : Int) ≤ w.globalStep - w.lastPublication ∨
      w.globalStep = settings.maxSteps then
    if due then { w with pc := .pumping (.drained .checkpointPublish) }
    else { w with pc := .publishing true }
  else w.loop settings

def afterDrain (w : World) : Drained → World
  | .publish => { w with pc := .publishing true }
  | .checkpointPublish => { w with pc := .publishing false }
  | .checkpoint => match w.buffer.stateDict with
      | .ok state =>
        { w with
          checkpoints := w.checkpoints ++ [⟨state, w.globalStep, w.updates⟩]
          commands := w.commands ++ [.snapshot]
          pc := .pumping .snapshot }
      | .error _ => { w with pc := .raised }
  | .finish => { w with pc := .finished }

def pumpDone (w : World) (due : Bool) : Option World :=
  match w.pc with
  | .pumping .ready =>
    if w.readyMessage then some ({ w with readyMessage := false }.loop settings) else none
  | .pumping .command => some (w.evict settings (afterCommand settings))
  | .pumping (.fill final) => some { w with pc := .reserving final }
  | .pumping .progress => some (w.evict settings (afterProgress settings))
  | .pumping .update => some (w.afterUpdate settings due)
  | .pumping (.drained next) =>
    if w.buffer.reserved.entries = [] then some (w.afterDrain next) else none
  | .pumping .snapshot =>
    if w.snapshotMessage.isSome then some ({ w with snapshotMessage := none }.loop settings)
    else none
  | _ => none

def reserve (w : World) : Option World :=
  match w.pc with
  | .reserving final =>
    match w.buffer.reserve settings w.version w.sourceUpdate with
    | some (task, buffer) =>
      some { w with buffer := buffer, commands := w.commands ++ [.task task] }
    | none =>
      if final then
        match w.buffer.select settings.required with
        | .ok buffer => some { w with buffer := buffer, pc := .updating }
        | .error _ => some { w with pc := .raised }
      else some { w with pc := .pumping .progress }
  | _ => none

def update (w : World) : Option World :=
  match w.pc with
  | .updating =>
    match w.buffer.commit with
    | .ok buffer => some { w with
        globalStep := w.globalStep + 1
        updates := w.updates ++ [w.buffer.selected]
        buffer := buffer
        pc := .pumping .update }
    | .error _ => some { w with globalStep := w.globalStep + 1, pc := .raised }
  | _ => none

def commitPolicy (w : World) : Option World :=
  match w.pc with
  | .publishing resume =>
    let w := { w with
      sourceUpdate := w.globalStep
      version := w.globalStep + 1
      committed := w.globalStep + 1
      lastPublication := w.globalStep }
    some (if resume then w.loop settings else { w with pc := .pumping (.drained .checkpoint) })
  | _ => none

/-- The rollouter raises, and reports it as it ends. -/
def die (w : World) : World := { w with groups := [], controls := w.controls ++ [.error] }

def take (w : World) : Option World :=
  match w.commands with
  | .task task :: rest =>
    let w := { w with commands := rest }
    some (if settings.maxInflightGroups ≤ w.groups.length then w.die
      else { w with
        groups := w.groups ++ [⟨task, List.replicate settings.candidates {}⟩]
        cursor := w.cursor + 1 })
  | .snapshot :: rest =>
    let w := { w with commands := rest }
    some (if w.groups ≠ [] then w.die
      else { w with controls := w.controls ++ [.snapshot w.cursor] })
  | [] => none

def modifyCandidate (w : World) (group candidate : Nat)
    (next : Candidate → Option Candidate) : Option World := do
  let inFlight ← w.groups[group]?
  let old ← inFlight.candidates[candidate]?
  let new ← if old.outcome = .running then next old else none
  let changed := { inFlight with candidates := inFlight.candidates.set candidate new }
  return { w with groups := w.groups.set group changed }

def startSegment (committed : Int) (c : Candidate) : Option Candidate :=
  if c.pending = none then some { c with pending := some committed } else none

def extendLast (segment : Int × Nat) : List (List (Int × Nat)) → List (List (Int × Nat))
  | [] => [[segment]]
  | [call] => [call ++ [segment]]
  | call :: rest => call :: extendLast segment rest

def finishSegment (tokens : Nat) (newCall : Bool) (c : Candidate) : Option Candidate :=
  match c.pending with
  | some version => some { c with
      pending := none
      calls :=
        if tokens = 0 then c.calls
        else if newCall then c.calls ++ [[(version, tokens)]]
        else extendLast (version, tokens) c.calls }
  | none => none

def finishCandidate (c : Candidate) : Option Candidate :=
  if c.pending = none ∧ c.calls ≠ [] then some { c with outcome := .finished } else none

/-- An infrastructure failure: start over, until the retries are used up. -/
def failCandidate (c : Candidate) : Option Candidate :=
  some (if c.attempt = settings.maxCandidateRetries then { c with outcome := .failed }
    else { attempt := c.attempt + 1 })

/-- `_accept_group` for one group whose candidates are all done. -/
def finishGroup (w : World) (group : Nat) : Option World := do
  let inFlight ← w.groups[group]?
  if inFlight.candidates.any fun c => decide (c.outcome = .running) then none
  else
    let left := { w with groups := w.groups.eraseIdx group }
    if inFlight.candidates.any fun c => decide (c.outcome = .failed) then
      return { left with controls := w.controls ++ [.discarded inFlight.task] }
    else if inFlight.result.validate settings.candidates = false ∨
        settings.maxBufferGroups ≤ w.results.length then return w.die
    else return { left with results := w.results ++ [inFlight.result] }

def step (w : World) : Action → Option World
  | .receiveResult => w.receiveResult settings
  | .receiveControl => w.receiveControl
  | .pumpDone due => w.pumpDone settings due
  | .reserve => w.reserve settings
  | .update => w.update
  | .commitPolicy => w.commitPolicy settings
  | .take => w.take settings
  | .startSegment group candidate => w.modifyCandidate group candidate (startSegment w.committed)
  | .finishSegment group candidate tokens newCall =>
    w.modifyCandidate group candidate (finishSegment tokens newCall)
  | .finishCandidate group candidate => w.modifyCandidate group candidate finishCandidate
  | .failCandidate group candidate => w.modifyCandidate group candidate (failCandidate settings)
  | .finishGroup group => w.finishGroup settings group

def start (buffer : ExperienceBuffer) (globalStep : Int) (updates : List (List Nat)) : World :=
  { buffer := buffer
    globalStep := globalStep
    sourceUpdate := globalStep
    version := globalStep + 1
    lastPublication := globalStep
    committed := globalStep + 1
    updates := updates }

inductive Reachable : World → Prop where
  | fresh : Reachable (start {} 0 [])
  | step {w w' : World} {action : Action} (h : Reachable w)
      (hstep : w.step settings action = some w') : Reachable w'
  | restart {w : World} {checkpoint : Checkpoint} {buffer : ExperienceBuffer}
      (h : Reachable w) (hmem : checkpoint ∈ w.checkpoints)
      (hload : ExperienceBuffer.loadStateDict settings checkpoint.buffer = some buffer) :
      Reachable (start buffer checkpoint.learnerUpdate checkpoint.updates)

end World

end HyperParallel.FullyAsync
