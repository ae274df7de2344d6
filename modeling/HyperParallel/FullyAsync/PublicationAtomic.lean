import HyperParallel.FullyAsync.AdmissionInvariant

/-!
# Publication is atomic

Weights may change while a pause has returned and no resume has begun.  No lease
exists then, so every lease is bound to the version of all workers, from its
admission to its end.
-/

namespace HyperParallel.FullyAsync

open Foundation List

def WeightsGuarded (s : State) (action : Action) : Prop :=
  ∀ workers, action = .setWeights workers → s.paused = true ∧ s.coordinator.resuming = false

def ResumeSucceeds (s : State) (action : Action) : Prop :=
  action = .coordinate ∧ ∃ v, s.coordinator = .resumeGeneration v

def PauseCloses (s : State) (action : Action) (next : State) : Prop :=
  action = .coordinate ∧ (∃ drain, s.coordinator = .pauseLock drain) ∧ s.step action = some next

def PauseReturns (s : State) (action : Action) (next : State) : Prop :=
  action = .coordinate ∧ s.coordinator.closing = true ∧ next.coordinator = .ready ∧
    s.step action = some next

def Uniform (v : Int) (workers : List Int) : Prop := ∀ worker ∈ workers, worker = v

namespace State

variable {stage : Stage} {task : Task} {action : Action} {v : Int}

theorem leaseVersion_eq_none (h : stage.leased = false) : stage.leaseVersion = none := by
  cases stage <;> first | rfl | cases h

theorem Guarded.not_leased {s : State} (h : Guarded s) (hactive : s.service.active = 0) :
    ∀ task ∈ s.tasks, task.stage.leased = false := by
  intro task hmem
  by_contra hleased
  have hpos : 0 < s.tasks.countP fun task => task.stage.leased :=
    countP_pos_iff.mpr ⟨task, hmem, by simpa using hleased⟩
  have hcount := h.active_eq
  unfold leases at hcount
  omega

/-! ### A closed service admits nobody -/

structure SameAdmissions (s s' : State) : Prop where
  closed : s'.service.closed = true
  added : s'.added = s.added
  admitted : s'.admitted = s.admitted

variable {s' : State} {index : Nat}

theorem SameAdmissions.taskStep {s : State} (h : Guarded s)
    (hclosed : s.service.closed = true) (hget : s.tasks[index]? = some task)
    (hstep : TaskStep s index task s') : SameAdmissions s s' := by
  have hunlocked := h.closed_unlocked hclosed index task hget
  cases hstep with
  | move => exact ⟨hclosed, rfl, rfl⟩
  | query _ _ hopen => exact absurd (hopen.symm.trans hclosed) Bool.false_ne_true
  | register hentry =>
    rcases hentry with ⟨-, -, hopen⟩ | hstage
    · exact absurd (hopen.symm.trans hclosed) Bool.false_ne_true
    · simp [hstage] at hunlocked
  | drop => exact ⟨hclosed, rfl, rfl⟩
  | handOver hstage => simp [hstage] at hunlocked
  | keep => exact ⟨hclosed, rfl, rfl⟩
  | leave => exact ⟨hclosed, rfl, rfl⟩

theorem SameAdmissions.coordinate {s : State} (hclosed : s.service.closed = true)
    (hresume : ∀ v, s.coordinator ≠ .resumeGeneration v) (hstep : s.coordinate = some s') :
    SameAdmissions s s' := by
  unfold State.coordinate at hstep
  split at hstep
  case h_9 v hstage => exact absurd hstage (hresume v)
  case h_2 =>
    split at hstep
    · split at hstep <;>
      · cases hstep
        exact ⟨rfl, rfl, rfl⟩
    · cases hstep
  case h_1 => cases hstep
  case h_3 | h_6 =>
    cases hstep
    exact ⟨hclosed, rfl, rfl⟩
  all_goals
    split_ifs at hstep <;>
    · cases hstep
      exact ⟨hclosed, rfl, rfl⟩

theorem SameAdmissions.step {s : State} (h : Guarded s)
    (hclosed : s.service.closed = true) (hresume : ¬ResumeSucceeds s action)
    (hstep : s.step action = some s') : SameAdmissions s s' := by
  cases action with
  | proceed index =>
    obtain ⟨task, hget, hproceed⟩ := Option.bind_eq_some_iff.mp hstep
    refine taskStep h hclosed hget (proceed_cases (fun hstage => ?_) hproceed)
    exact h.task_locked index task hget (by rw [hstage]; rfl)
  | fail index taken =>
    obtain ⟨task, hget, hfail⟩ := Option.bind_eq_some_iff.mp hstep
    exact taskStep h hclosed hget (fail_cases hfail)
  | coordinate => exact coordinate hclosed (fun v hv => hresume ⟨rfl, v, hv⟩) hstep
  | coordinatorFail =>
    simp only [State.step, State.coordinatorFail] at hstep
    split at hstep <;>
    · cases hstep <;> exact ⟨hclosed, rfl, rfl⟩
  | arrive kind =>
    cases hstep
    exact ⟨hclosed, rfl, rfl⟩
  | setWeights workers =>
    cases hstep
    exact ⟨hclosed, rfl, rfl⟩
  | _ =>
    simp only [State.step] at hstep
    split at hstep <;>
    · cases hstep <;> exact ⟨hclosed, rfl, rfl⟩

/-! ### A lease is bound to the version of all workers -/

structure Versioned (s : State) : Prop where
  guarded : Guarded s
  committed : ∀ v, s.service.committedVersion = some v → Uniform v s.workers
  leased : ∀ (index : Nat) (task : Task), s.tasks[index]? = some task →
    ∀ v, task.stage.leaseVersion = some v → Uniform v s.workers
  resuming : ∀ v, s.coordinator = .resumeGeneration v → Uniform v s.workers

theorem versioned_initial (workers : List Int) : Versioned { workers := workers } where
  guarded := guarded_initial workers
  committed := by simp
  leased := by simp
  resuming := by simp

theorem Versioned.taskStep {s : State} (h : Versioned s)
    (hget : s.tasks[index]? = some task) (hstep : TaskStep s index task s') : Versioned s' := by
  have hguarded := h.guarded.taskStep hget hstep
  have hbound := h.leased index task hget
  have hothers : ∀ (other : Nat) (found : Task), other ≠ index → s.tasks[other]? = some found →
      ∀ v, found.stage.leaseVersion = some v → Uniform v s.workers :=
    fun other found _ => h.leased other found
  cases hstep with
  | @move stage _ hleased' _ =>
    refine ⟨hguarded, h.committed, forall_setStage (fun v hv => ?_) hothers, h.resuming⟩
    rw [leaseVersion_eq_none hleased'] at hv
    cases hv
  | query =>
    refine ⟨hguarded, h.committed, forall_setStage (fun v hv => ?_) hothers, h.resuming⟩
    cases hv
  | @register v stage _ _ _ hversion hstage =>
    have huniform : Uniform v s.workers := hversion.elim (h.committed v) version_eq_some
    refine ⟨hguarded, fun w hw => ?_, forall_setStage (fun w hw => ?_) hothers, h.resuming⟩
    · cases hw
      exact huniform
    · rcases hstage with ⟨rfl, -⟩ | ⟨rfl, -⟩ <;>
      · cases hw
        exact huniform
  | drop =>
    refine ⟨hguarded, h.committed, forall_setStage (fun v hv => ?_) hothers, h.resuming⟩
    cases hv
  | handOver hstage hstage' =>
    refine ⟨hguarded, h.committed, forall_setStage (fun w hw => hbound w ?_) hothers, h.resuming⟩
    rcases hstage' with rfl | rfl <;> rw [hstage] <;> exact hw
  | keep hstage hstage' =>
    refine ⟨hguarded, h.committed, forall_setStage (fun w hw => hbound w ?_) hothers, h.resuming⟩
    rcases hstage' with rfl | rfl <;> rw [hstage] <;> exact hw
  | leave hstage =>
    refine ⟨hguarded, h.committed, forall_setStage (fun w hw => ?_) hothers, fun w hw => ?_⟩
    · rcases hstage with ⟨-, rfl⟩ | ⟨-, rfl⟩ <;> cases hw
    · apply h.resuming w
      have hwake : s.coordinator.wake (s.service.leaveCall.active = 0) = .resumeGeneration w := hw
      cases hcoordinator : s.coordinator with
      | idleWait drain signalled =>
        rw [hcoordinator] at hwake
        cases hwake
      | _ =>
        rw [hcoordinator] at hwake
        exact hwake

theorem leaseVersion_wake {tasks : List Task} {workers : List Int}
    (h : ∀ (index : Nat) (task : Task), tasks[index]? = some task →
      ∀ v, task.stage.leaseVersion = some v → Uniform v workers)
    (index : Nat) (task : Task) (hget : (wake tasks)[index]? = some task) (v : Int)
    (hv : task.stage.leaseVersion = some v) : Uniform v workers := by
  unfold wake at hget
  rw [getElem?_map, Option.map_eq_some_iff] at hget
  obtain ⟨old, hold, rfl⟩ := hget
  split at hv
  · cases hv
  · exact h index old hold v hv

theorem Versioned.coordinate {s : State} (h : Versioned s) (hstep : s.coordinate = some s') :
    Versioned s' := by
  have hguarded := h.guarded.coordinate hstep
  unfold State.coordinate at hstep
  split at hstep
  case h_1 => cases hstep
  case h_2 =>
    split at hstep
    · split at hstep <;>
      · cases hstep
        exact ⟨hguarded, fun v hv => (by cases hv), h.leased, fun v hv => (by cases hv)⟩
    · cases hstep
  case h_3 | h_6 =>
    cases hstep
    exact ⟨hguarded, h.committed, h.leased, fun v hv => by cases hv⟩
  case h_8 v hstage =>
    split at hstep
    · rename_i hversion
      cases hstep
      refine ⟨hguarded, h.committed, h.leased, fun w hw => ?_⟩
      cases hw
      exact version_eq_some hversion
    · cases hstep
      exact ⟨hguarded, h.committed, h.leased, fun v hv => by cases hv⟩
  case h_9 v hstage =>
    cases hstep
    refine ⟨hguarded, fun w hw => ?_, leaseVersion_wake h.leased, fun w hw => by cases hw⟩
    cases hw
    exact h.resuming v hstage
  all_goals
    split_ifs at hstep <;>
    · cases hstep
      exact ⟨hguarded, h.committed, h.leased, fun v hv => by cases hv⟩

theorem Versioned.step {s : State} (h : Versioned s)
    (hweights : WeightsGuarded s action) (hstep : s.step action = some s') : Versioned s' := by
  have hguarded := h.guarded.step hstep
  cases action with
  | proceed index =>
    obtain ⟨task, hget, hproceed⟩ := Option.bind_eq_some_iff.mp hstep
    refine h.taskStep hget (proceed_cases (fun hstage => ?_) hproceed)
    exact h.guarded.task_locked index task hget (by rw [hstage]; rfl)
  | fail index taken =>
    obtain ⟨task, hget, hfail⟩ := Option.bind_eq_some_iff.mp hstep
    exact h.taskStep hget (fail_cases hfail)
  | coordinate => exact h.coordinate hstep
  | coordinatorFail =>
    simp only [State.step, State.coordinatorFail] at hstep
    split at hstep <;>
    · cases hstep <;> exact ⟨hguarded, h.committed, h.leased, fun v hv => by cases hv⟩
  | output index =>
    simp only [State.step] at hstep
    split at hstep <;> cases hstep
    exact h
  | pause drain =>
    simp only [State.step] at hstep
    split at hstep <;> cases hstep
    exact ⟨hguarded, h.committed, h.leased, fun v hv => by cases hv⟩
  | resume v =>
    simp only [State.step] at hstep
    split at hstep <;> cases hstep
    exact ⟨hguarded, h.committed, h.leased, fun v hv => by cases hv⟩
  | arrive kind =>
    cases hstep
    refine ⟨hguarded, h.committed, fun index task hget v hv => ?_, h.resuming⟩
    dsimp only at hget
    rw [getElem?_append] at hget
    split at hget
    · exact h.leased index task hget v hv
    · have hnew := mem_of_getElem? hget
      obtain rfl := mem_singleton.mp hnew
      rcases kind with ⟨_ | _⟩ | _ <;> cases hv
  | setWeights workers =>
    cases hstep
    -- no lease, no committed version and no resume while the weights may change
    obtain ⟨hpaused, hresuming⟩ := hweights workers rfl
    obtain ⟨hclosed, hactive⟩ := h.guarded.paused_closed hpaused
    refine ⟨hguarded, fun v hv => ?_, fun index task hget v hv => ?_, fun v hv => ?_⟩
    · rw [h.guarded.closed_version hclosed] at hv
      cases hv
    · have hfree := h.guarded.not_leased hactive task (mem_of_getElem? hget)
      rw [leaseVersion_eq_none hfree] at hv
      cases hv
    · dsimp only at hv
      rw [hv] at hresuming
      cases hresuming

/-! ### A lease keeps its version to the end -/

def Stage.boundTo (v : Int) : Stage → Prop
  | .adding w | .running w | .aborting w | .returned w | .held w => w = v
  | .failed => True
  | _ => False

def BoundAt (index : Nat) (v : Int) (s : State) : Prop :=
  ∃ task, s.tasks[index]? = some task ∧ Stage.boundTo v task.stage

theorem not_boundTo_of_waits (h : stage.waits = true) : ¬Stage.boundTo v stage := by
  cases stage <;> first | cases h; done | exact id

theorem boundAt_setStage {s : State} {other : Nat} (hget : s.tasks[index]? = some task)
    (hbound : BoundAt other v s) (hstage : Stage.boundTo v task.stage → Stage.boundTo v stage) :
    BoundAt other v (s.setStage index task stage) := by
  obtain ⟨found, hfound, hv⟩ := hbound
  obtain ⟨hlt, -⟩ := List.getElem?_eq_some_iff.mp hget
  by_cases heq : index = other
  · subst heq
    obtain rfl := Option.some.inj (hget.symm.trans hfound)
    refine ⟨{ task with stage := stage }, ?_, hstage hv⟩
    rw [setStage_tasks, getElem?_set_self hlt]
  · refine ⟨found, ?_, hv⟩
    rw [setStage_tasks, getElem?_set_ne heq]
    exact hfound

theorem BoundAt.taskStep {s : State} {other : Nat} (hget : s.tasks[index]? = some task)
    (hbound : BoundAt other v s) (hstep : TaskStep s index task s') : BoundAt other v s' := by
  cases hstep with
  | move hwaits =>
    exact boundAt_setStage hget hbound fun h => absurd h (not_boundTo_of_waits hwaits)
  | query hwaits =>
    exact boundAt_setStage hget hbound fun h => absurd h (not_boundTo_of_waits hwaits)
  | register hentry =>
    refine boundAt_setStage hget hbound fun h => ?_
    rcases hentry with ⟨hwaits, -⟩ | hv
    · exact absurd h (not_boundTo_of_waits hwaits)
    · rw [hv] at h
      exact h.elim
  | drop => exact boundAt_setStage hget hbound fun _ => trivial
  | handOver hstage hstage' =>
    refine boundAt_setStage hget hbound fun h => ?_
    rw [hstage] at h
    rcases hstage' with rfl | rfl <;> exact h
  | keep hstage hstage' =>
    refine boundAt_setStage hget hbound fun h => ?_
    rw [hstage] at h
    rcases hstage' with rfl | rfl <;> exact h
  | leave hstage =>
    refine boundAt_setStage hget hbound fun h => ?_
    rcases hstage with ⟨hold, rfl⟩ | ⟨hold, rfl⟩
    · rw [hold] at h
      exact h
    · trivial

theorem BoundAt.wake {s : State} (hbound : BoundAt index v s) :
    ∃ task, (State.wake s.tasks)[index]? = some task ∧ Stage.boundTo v task.stage := by
  obtain ⟨task, hget, hv⟩ := hbound
  refine ⟨task, ?_, hv⟩
  unfold State.wake
  rw [getElem?_map, hget, Option.map_some]
  split
  · rename_i hstage
    rw [hstage] at hv
    exact hv.elim
  · rfl

theorem BoundAt.step {s : State} (h : Guarded s)
    (hbound : BoundAt index v s) (hstep : s.step action = some s') : BoundAt index v s' := by
  cases action with
  | proceed other =>
    obtain ⟨task, hget, hproceed⟩ := Option.bind_eq_some_iff.mp hstep
    refine hbound.taskStep hget (proceed_cases (fun hstage => ?_) hproceed)
    exact h.task_locked other task hget (by rw [hstage]; rfl)
  | fail other taken =>
    obtain ⟨task, hget, hfail⟩ := Option.bind_eq_some_iff.mp hstep
    exact hbound.taskStep hget (fail_cases hfail)
  | arrive kind =>
    cases hstep
    obtain ⟨task, hget, hv⟩ := hbound
    obtain ⟨hlt, -⟩ := List.getElem?_eq_some_iff.mp hget
    exact ⟨task, by rw [List.getElem?_append_left hlt]; exact hget, hv⟩
  | coordinate =>
    simp only [State.step, State.coordinate] at hstep
    split at hstep
    case h_9 =>
      cases hstep
      exact hbound.wake
    case h_1 => cases hstep
    case h_2 =>
      split_ifs at hstep <;>
      · cases hstep
        exact hbound
    case h_3 | h_6 =>
      cases hstep
      exact hbound
    all_goals
      split_ifs at hstep <;>
      · cases hstep
        exact hbound
  | coordinatorFail =>
    simp only [State.step, State.coordinatorFail] at hstep
    split at hstep <;>
    · cases hstep <;> exact hbound
  | setWeights workers =>
    cases hstep
    exact hbound
  | _ =>
    simp only [State.step] at hstep
    split at hstep <;>
    · cases hstep <;> exact hbound

/-! ### Runs -/

section Runs

variable {workers : List Int} {actions : List Action} {s : State}

theorem guarded_of_run (hrun : StepRuns.run step { workers := workers } actions = some s) :
    Guarded s :=
  StepRuns.invariant (fun _ _ _ h hstep => Guarded.step h hstep) (guarded_initial workers) hrun

theorem versioned_of_run (hrun : StepRuns.run step { workers := workers } actions = some s)
    (hweights : StepRuns.Along step WeightsGuarded { workers := workers } actions) :
    Versioned s :=
  StepRuns.invariant_along (fun _ _ _ h hguard hstep => Versioned.step h hguard hstep)
    (versioned_initial workers) hweights hrun

theorem sameAdmissions_of_run {s t : State} (h : Guarded s) (hclosed : s.service.closed = true)
    (hresume : StepRuns.Along step (fun s action => ¬ResumeSucceeds s action) s actions)
    (hrun : StepRuns.run step s actions = some t) : SameAdmissions s t := by
  let Inv (current : State) : Prop := Guarded current ∧ SameAdmissions s current
  have hstep : ∀ current action next, Inv current → ¬ResumeSucceeds current action →
      step current action = some next → Inv next := by
    rintro current action next ⟨hguarded, hsame⟩ hno hstep
    have hnext := SameAdmissions.step hguarded hsame.closed hno hstep
    exact ⟨hguarded.step hstep, hnext.closed, hnext.added.trans hsame.added,
      hnext.admitted.trans hsame.admitted⟩
  exact (StepRuns.invariant_along hstep ⟨h, hclosed, rfl, rfl⟩ hresume hrun).2

theorem boundAt_of_run {s t : State} {v : Int} (h : Guarded s) (hbound : BoundAt index v s)
    (hrun : StepRuns.run step s actions = some t) :
    BoundAt index v t := by
  let Inv (current : State) : Prop := Guarded current ∧ BoundAt index v current
  have hstep : ∀ current action next, Inv current → step current action = some next →
      Inv next :=
    fun current action next hinv hstep => ⟨hinv.1.step hstep, BoundAt.step hinv.1 hinv.2 hstep⟩
  exact (StepRuns.invariant hstep ⟨h, hbound⟩ hrun).2

theorem closed_of_pauseCloses {next : State} {action : Action}
    (h : PauseCloses s action next) : next.service.closed = true := by
  obtain ⟨rfl, ⟨drain, hstage⟩, hstep⟩ := h
  simp only [State.step, State.coordinate, hstage] at hstep
  split_ifs at hstep <;>
  · cases hstep
    rfl

theorem paused_of_pauseReturns {next : State} {action : Action}
    (h : PauseReturns s action next) : next.paused = true := by
  obtain ⟨rfl, hclosing, hready, hstep⟩ := h
  simp only [State.step, State.coordinate] at hstep
  split at hstep
  case h_4 =>
    split_ifs at hstep <;> cases hstep
    · cases hready
    · rfl
  case h_3 =>
    cases hstep
    cases hready
  case h_5 =>
    split_ifs at hstep
    cases hstep
    cases hready
  case h_6 =>
    cases hstep
    rfl
  all_goals
    rename_i hstage
    rw [hstage] at hclosing
    cases hclosing

end Runs

end State

open State

/-- From the close of admission to the next successful resume nothing is admitted; a
pause returns with no lease left; and what is returned ran under its version. -/
theorem publication_atomic (workers : List Int) {actions : List Action} {s : State}
    (hrun : StepRuns.run step { workers := workers } actions = some s) :
    (∀ action next later t, PauseCloses s action next → StepRuns.run step next later = some t →
      StepRuns.Along step (fun s action => ¬ResumeSucceeds s action) next later →
      t.added = s.added ∧ t.admitted = s.admitted) ∧
    (∀ action next, PauseReturns s action next → ∀ task ∈ next.tasks, task.stage.leased = false) ∧
    (StepRuns.Along step WeightsGuarded { workers := workers } actions →
      ∀ later t, StepRuns.run step s later = some t →
      ∀ (index : Nat) (task ended : Task) (v w : Int), s.tasks[index]? = some task →
        task.stage.leaseVersion = some w → t.tasks[index]? = some ended →
        ended.stage = .returned v → w = v ∧ Uniform v s.workers) := by
  have hguarded := guarded_of_run hrun
  refine ⟨fun action next later t hcloses hlater hresume => ?_, fun action next hreturns => ?_,
    fun hweights later t hlater index task ended v w hget hlease hended hreturned => ?_⟩
  · have hnext := hguarded.step hcloses.2.2
    have hsame := sameAdmissions_of_run hnext (closed_of_pauseCloses hcloses) hresume hlater
    obtain ⟨rfl, ⟨drain, hstage⟩, hstep⟩ := hcloses
    simp only [State.step, State.coordinate, hstage] at hstep
    split_ifs at hstep <;>
    · cases hstep
      exact ⟨hsame.added, hsame.admitted⟩
  · have hnext := hguarded.step hreturns.2.2.2
    exact hnext.not_leased (hnext.paused_closed (paused_of_pauseReturns hreturns)).2
  · have hbound : BoundAt index w s := by
      refine ⟨task, hget, ?_⟩
      cases hstage : task.stage <;> rw [hstage] at hlease <;> cases hlease <;> rfl
    obtain ⟨found, hfound, hv⟩ := boundAt_of_run hguarded hbound hlater
    obtain rfl := Option.some.inj (hended.symm.trans hfound)
    rw [hreturned] at hv
    have heq : w = v := (show v = w from hv).symm
    subst heq
    exact ⟨rfl, (versioned_of_run hrun hweights).leased index task hget w hlease⟩

/-- A request that is admitted under version 1. -/
def admitOne : List Action :=
  [.arrive (.generate true), .proceed 0, .proceed 0, .proceed 0, .proceed 0]

def drainOne : List Action :=
  [.pause true, .coordinate, .proceed 0, .coordinate, .coordinate, .coordinate]

theorem publication_atomic_drain : ∃ s t,
    StepRuns.run step { workers := [1, 1] } admitOne = some s ∧
    StepRuns.run step s drainOne = some t ∧
    t.paused = true ∧ t.tasks = [⟨.generate true, .returned 1⟩] ∧ Uniform 1 s.workers := by
  refine ⟨_, _, rfl, rfl, rfl, rfl, ?_⟩
  have hatomic := @publication_atomic [1, 1] admitOne _ rfl
  refine (hatomic.2.2 (StepRuns.along_of_forall_mem fun action hmem state workers heq => ?_)
    drainOne _ rfl 0 ⟨.generate true, .running 1⟩ ⟨.generate true, .returned 1⟩ 1 1
    rfl rfl rfl rfl).2
  subst heq
  simp [admitOne] at hmem

end HyperParallel.FullyAsync
