import HyperParallel.Foundation.StepRuns

/-!
# Admission of partial requests

Generate requests and chat calls run as tasks beside the coordinator's pause and
resume calls.  A task runs without interruption from one await to the next; every
await is a stage here, and at every await the task may also be cancelled or see
the engine fail.  The calls of the coordinator follow one another.
-/

namespace HyperParallel.FullyAsync

structure Service where
  closed : Bool := false
  admission : Bool := true
  active : Int := 0
  committedVersion : Option Int := none
  idle : Bool := true
  deriving DecidableEq, Repr

namespace Service

def register (service : Service) : Service :=
  { service with active := service.active + 1, idle := false }

def leaveCall (service : Service) : Service :=
  { service with
    active := service.active - 1
    idle := service.idle || decide (service.active - 1 = 0) }

def close (service : Service) : Service :=
  { service with closed := true, admission := false, committedVersion := none }

def reopen (service : Service) (version : Int) : Service :=
  { service with closed := false, admission := true, committedVersion := some version }

end Service

def version : List Int → Option Int
  | [] => none
  | first :: rest =>
    if (∀ other ∈ rest, other = first) ∧ 1 ≤ first then some first else none

theorem version_eq_some {workers : List Int} {v : Int} (h : version workers = some v) :
    ∀ worker ∈ workers, worker = v := by
  cases workers with
  | nil => cases h
  | cons first rest =>
    simp only [version] at h
    split at h
    · rename_i hall
      cases h
      intro worker hworker
      rcases List.mem_cons.mp hworker with rfl | hrest
      · rfl
      · exact hall.1 worker hrest
    · cases h

inductive Kind where
  | generate (wait : Bool)
  | call
  deriving DecidableEq, Repr

/-- Where a task waits, or how it ended. -/
inductive Stage where
  /-- `admission.wait()`, and whether the event was set meanwhile -/
  | admission (signalled : Bool)
  /-- the lock -/
  | lock
  /-- `version()` under the lock -/
  | version
  /-- `engine.add_request` under the lock -/
  | adding (version : Int)
  /-- the collector of a request, or the application behind a call -/
  | running (version : Int)
  /-- `engine.abort` -/
  | aborting (version : Int)
  | paused
  | returned (version : Int)
  | failed
  /-- a failed call that keeps its lease -/
  | held (version : Int)
  deriving DecidableEq, Repr

structure Task where
  kind : Kind
  stage : Stage
  deriving DecidableEq, Repr

inductive Coordinator where
  | ready
  | pauseLock (drain : Bool)
  /-- `engine.pause_generation` under the lock, before the wait -/
  | pauseGeneration
  | idleWait (drain signalled : Bool)
  | drainLock
  | drainGeneration
  | resumeLock (version : Int)
  | resumeVersion (version : Int)
  | resumeGeneration (version : Int)
  deriving DecidableEq, Repr

/-- `idle.set()` wakes a pause that waits for it. -/
def Coordinator.wake (idle : Bool) : Coordinator → Coordinator
  | .idleWait drain signalled => .idleWait drain (signalled || idle)
  | other => other

inductive Holder where
  | task (index : Nat)
  | coordinator
  deriving DecidableEq, Repr

structure State where
  service : Service := {}
  lock : Option Holder := none
  tasks : List Task := []
  coordinator : Coordinator := .ready
  /-- the policy version of every inference worker -/
  workers : List Int
  /-- a pause has returned, and no resume has succeeded since -/
  paused : Bool := false
  /-- requests handed to the engine -/
  added : List Nat := []
  /-- calls admitted -/
  admitted : List Nat := []
  deriving DecidableEq, Repr

inductive Action where
  | arrive (kind : Kind)
  /-- the await of a task completes -/
  | proceed (index : Nat)
  /-- an output that does not finish a request -/
  | output (index : Nat)
  /-- cancellation or failure at the await; the engine may have taken a request being added -/
  | fail (index : Nat) (taken : Bool)
  | pause (drain : Bool)
  | resume (version : Int)
  | coordinate
  | coordinatorFail
  | setWeights (workers : List Int)
  deriving DecidableEq, Repr

namespace State

def setStage (s : State) (index : Nat) (task : Task) (stage : Stage) : State :=
  { s with tasks := s.tasks.set index { task with stage := stage } }

variable (s : State) (index : Nat) (task : Task) (stage : Stage)

@[simp] theorem setStage_service : (s.setStage index task stage).service = s.service := rfl
@[simp] theorem setStage_lock : (s.setStage index task stage).lock = s.lock := rfl
@[simp] theorem setStage_tasks :
    (s.setStage index task stage).tasks = s.tasks.set index { task with stage := stage } := rfl
@[simp] theorem setStage_coordinator :
    (s.setStage index task stage).coordinator = s.coordinator := rfl
@[simp] theorem setStage_workers : (s.setStage index task stage).workers = s.workers := rfl
@[simp] theorem setStage_added : (s.setStage index task stage).added = s.added := rfl
@[simp] theorem setStage_admitted : (s.setStage index task stage).admitted = s.admitted := rfl

def acquire (s : State) (holder : Holder) : State := { s with lock := some holder }

def release (s : State) : State := { s with lock := none }

/-- Registration under the lock, up to the next await. -/
def register (s : State) (index : Nat) (task : Task) (v : Int) : State :=
  let registered := { s with
    service := { s.service with committedVersion := some v }.register }
  match task.kind with
  | .generate _ => registered.setStage index task (.adding v)
  | .call =>
    { registered.release with admitted := s.admitted ++ [index] }.setStage index task (.running v)

/-- `leave_call` -/
def leave (s : State) (index : Nat) (task : Task) (stage : Stage) : State :=
  let service := s.service.leaveCall
  { s with
    service := service
    coordinator := s.coordinator.wake (service.active = 0) }.setStage index task stage

def enter (s : State) (index : Nat) (task : Task) : State :=
  if s.service.closed then
    match task.kind with
    | .generate _ => s.release.setStage index task .paused
    | .call => s.release.setStage index task (.admission s.service.admission)
  else match s.service.committedVersion with
    | some v => s.register index task v
    | none => s.setStage index task .version

def proceed (s : State) (index : Nat) (task : Task) : Option State :=
  match task.stage with
  | .admission signalled => if signalled then some (s.setStage index task .lock) else none
  | .lock =>
    if s.lock = none then some ((s.acquire (.task index)).enter index task) else none
  | .version => match version s.workers with
      | some v => some (s.register index task v)
      | none => some (s.release.setStage index task .failed)
  | .adding v =>
    some ({ s.release with added := s.added ++ [index] }.setStage index task (.running v))
  | .running v => some (s.leave index task (.returned v))
  | .aborting _ => some (s.leave index task .failed)
  | .paused | .returned _ | .failed | .held _ => none

def fail (s : State) (index : Nat) (task : Task) (taken : Bool) : Option State :=
  match task.stage with
  | .admission _ | .lock => some (s.setStage index task .failed)
  | .version => some (s.release.setStage index task .failed)
  | .adding v =>
    some ({ s.release with added := if taken then s.added ++ [index] else s.added }.setStage
      index task (.aborting v))
  | .running v => match task.kind with
      | .generate _ => some (s.setStage index task (.aborting v))
      | .call => some (s.setStage index task (.held v))
  | .aborting _ => some (s.leave index task .failed)
  | .paused | .returned _ | .failed | .held _ => none

/-- `admission.set()` wakes the tasks that wait for it. -/
def wake (tasks : List Task) : List Task :=
  tasks.map fun task => match task.stage with
    | .admission _ => { task with stage := .admission true }
    | _ => task

def pauseReturn (s : State) : State := { s with coordinator := .ready, paused := true }

def coordinate (s : State) : Option State :=
  match s.coordinator with
  | .ready => none
  | .pauseLock drain =>
    if s.lock = none then
      let s := { s with service := s.service.close }
      if drain then some { s with coordinator := .idleWait drain s.service.idle }
      else some { s.acquire .coordinator with coordinator := .pauseGeneration }
    else none
  | .pauseGeneration => some { s.release with coordinator := .idleWait false s.service.idle }
  | .idleWait drain signalled =>
    if signalled then
      if drain then some { s with coordinator := .drainLock } else some s.pauseReturn
    else none
  | .drainLock =>
    if s.lock = none then
      some { s.acquire .coordinator with coordinator := .drainGeneration }
    else none
  | .drainGeneration => some s.release.pauseReturn
  | .resumeLock v =>
    if s.lock = none then
      if s.service.active ≠ 0 then some { s with coordinator := .ready }
      else some { s.acquire .coordinator with coordinator := .resumeVersion v }
    else none
  | .resumeVersion v =>
    if version s.workers = some v then some { s with coordinator := .resumeGeneration v }
    else some { s.release with coordinator := .ready }
  | .resumeGeneration v =>
    some { s.release with
      service := s.service.reopen v
      tasks := wake s.tasks
      coordinator := .ready
      paused := false }

def coordinatorFail (s : State) : Option State :=
  match s.coordinator with
  | .ready => none
  | .pauseLock _ | .idleWait .. | .drainLock | .resumeLock _ =>
    some { s with coordinator := .ready }
  | .pauseGeneration | .drainGeneration | .resumeVersion _ | .resumeGeneration _ =>
    some { s.release with coordinator := .ready }

def step (s : State) : Action → Option State
  | .arrive kind =>
    let stage := match kind with
      | .generate false => .lock
      | .generate true | .call => .admission s.service.admission
    some { s with tasks := s.tasks ++ [{ kind := kind, stage := stage }] }
  | .proceed index => s.tasks[index]?.bind (s.proceed index)
  | .output index => match s.tasks[index]? with
      | some ⟨.generate _, .running _⟩ => some s
      | _ => none
  | .fail index taken => s.tasks[index]?.bind fun task => s.fail index task taken
  | .pause drain =>
    if s.coordinator = .ready then some { s with coordinator := .pauseLock drain } else none
  | .resume v =>
    if s.coordinator = .ready then some { s with coordinator := .resumeLock v } else none
  | .coordinate => s.coordinate
  | .coordinatorFail => s.coordinatorFail
  | .setWeights workers => some { s with workers := workers }

end State

end HyperParallel.FullyAsync
