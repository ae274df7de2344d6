import HyperParallel.FullyAsync.PartialRequests

/-!
# What every reachable admission state satisfies

Tasks inside the lock are alone there, the active count is the number of leases,
and a closed service admits nobody.
-/

namespace HyperParallel.FullyAsync

open List

namespace Stage

/-- The task has registered and not left. -/
def leased : Stage → Bool
  | .adding _ | .running _ | .aborting _ | .held _ => true
  | _ => false

def locks : Stage → Bool
  | .version | .adding _ => true
  | _ => false

def waits : Stage → Bool
  | .admission _ | .lock => true
  | _ => false

def leaseVersion : Stage → Option Int
  | .adding v | .running v | .aborting v | .held v => some v
  | _ => none

theorem leased_of_waits {stage : Stage} (h : stage.waits = true) : stage.leased = false := by
  cases stage <;> first | rfl | cases h

variable (v : Int)

@[simp] theorem leased_version : version.leased = false := rfl
@[simp] theorem leased_adding : (adding v).leased = true := rfl
@[simp] theorem leased_running : (running v).leased = true := rfl
@[simp] theorem leased_aborting : (aborting v).leased = true := rfl
@[simp] theorem leased_held : (held v).leased = true := rfl
@[simp] theorem leased_returned : (returned v).leased = false := rfl
@[simp] theorem leased_failed : failed.leased = false := rfl
@[simp] theorem locks_version : version.locks = true := rfl
@[simp] theorem locks_adding : (adding v).locks = true := rfl
@[simp] theorem locks_running : (running v).locks = false := rfl
@[simp] theorem locks_aborting : (aborting v).locks = false := rfl
@[simp] theorem locks_held : (held v).locks = false := rfl
@[simp] theorem locks_returned : (returned v).locks = false := rfl
@[simp] theorem locks_failed : failed.locks = false := rfl

end Stage

namespace Coordinator

def locks : Coordinator → Bool
  | .pauseGeneration | .drainGeneration | .resumeVersion _ | .resumeGeneration _ => true
  | _ => false

def closing : Coordinator → Bool
  | .pauseGeneration | .idleWait .. | .drainLock | .drainGeneration => true
  | _ => false

def drained : Coordinator → Bool
  | .idleWait _ true | .drainLock | .drainGeneration => true
  | _ => false

def resuming : Coordinator → Bool
  | .resumeLock _ | .resumeVersion _ | .resumeGeneration _ => true
  | _ => false

@[simp] theorem locks_wake (idle : Bool) (c : Coordinator) : (c.wake idle).locks = c.locks := by
  cases c <;> rfl

@[simp] theorem closing_wake (idle : Bool) (c : Coordinator) :
    (c.wake idle).closing = c.closing := by
  cases c <;> rfl

theorem drained_wake {idle : Bool} {c : Coordinator} (h : (c.wake idle).drained = true) :
    c.drained = true ∨ idle = true := by
  cases c with
  | idleWait drain signalled => cases signalled <;> cases idle <;> simp_all [wake, drained]
  | _ => exact Or.inl h

theorem closing_of_drained {c : Coordinator} (h : c.drained = true) : c.closing = true := by
  cases c <;> first | rfl | cases h

end Coordinator

/-! ### What a task can do at an await -/

inductive TaskStep (s : State) (index : Nat) (task : Task) : State → Prop where
  | move {stage : Stage} (hwaits : task.stage.waits = true) (hleased' : stage.leased = false)
      (hlocks' : stage.locks = false) :
      TaskStep s index task (s.setStage index task stage)
  | query (hwaits : task.stage.waits = true) (hfree : s.lock = none)
      (hopen : s.service.closed = false) :
      TaskStep s index task ((s.acquire (.task index)).setStage index task .version)
  | register {v : Int} {stage : Stage} {lock : Option Holder} {admitted : List Nat}
      (hentry : (task.stage.waits = true ∧ s.lock = none ∧ s.service.closed = false) ∨
        task.stage = .version)
      (hversion : s.service.committedVersion = some v ∨ version s.workers = some v)
      (hstage : (stage = .adding v ∧ lock = some (.task index)) ∨ (stage = .running v ∧ lock = none)) :
      TaskStep s index task
        ({ s with
          service := { s.service with committedVersion := some v }.register
          lock := lock
          admitted := admitted }.setStage index task stage)
  | drop (hstage : task.stage = .version) :
      TaskStep s index task (s.release.setStage index task .failed)
  | handOver {v : Int} {stage : Stage} {added : List Nat} (hstage : task.stage = .adding v)
      (hstage' : stage = .running v ∨ stage = .aborting v) :
      TaskStep s index task ({ s.release with added := added }.setStage index task stage)
  | keep {v : Int} {stage : Stage} (hstage : task.stage = .running v)
      (hstage' : stage = .aborting v ∨ stage = .held v) :
      TaskStep s index task (s.setStage index task stage)
  | leave {v : Int} {stage : Stage}
      (hstage : (task.stage = .running v ∧ stage = .returned v) ∨
        (task.stage = .aborting v ∧ stage = .failed)) :
      TaskStep s index task (s.leave index task stage)

namespace State

variable {s s' : State} {task : Task} {index : Nat}

theorem release_acquire {holder : Holder} (hfree : s.lock = none) :
    (s.acquire holder).release = s := by
  cases s
  cases hfree
  rfl

theorem register_taskStep {v : Int} {holder : Option Holder} (hholder : holder = some (.task index))
    (hentry : (task.stage.waits = true ∧ s.lock = none ∧ s.service.closed = false) ∨
      task.stage = .version)
    (hversion : s.service.committedVersion = some v ∨ version s.workers = some v) :
    TaskStep s index task ({ s with lock := holder }.register index task v) := by
  subst hholder
  unfold register
  cases task.kind with
  | generate wait => exact .register hentry hversion (Or.inl ⟨rfl, rfl⟩)
  | call => exact .register hentry hversion (Or.inr ⟨rfl, rfl⟩)

theorem proceed_cases (hlocked : task.stage = .version → s.lock = some (.task index))
    (h : s.proceed index task = some s') : TaskStep s index task s' := by
  unfold proceed at h
  split at h
  case h_1 signalled hstage =>
    split at h
    · cases h
      exact .move (by rw [hstage]; rfl) rfl rfl
    · cases h
  case h_2 hstage =>
    split at h
    · rename_i hfree
      cases h
      have hwaits : task.stage.waits = true := by rw [hstage]; rfl
      unfold enter
      split
      · rw [release_acquire hfree]
        split
        · exact .move hwaits rfl rfl
        · exact .move hwaits rfl rfl
      · rename_i hopen
        have hopen : s.service.closed = false := (Bool.not_eq_true _).mp hopen
        split
        · rename_i v hv
          exact register_taskStep rfl (Or.inl ⟨hwaits, hfree, hopen⟩) (Or.inl hv)
        · exact .query hwaits hfree hopen
    · cases h
  case h_3 hstage =>
    split at h
    · rename_i v hv
      cases h
      exact register_taskStep (hlocked hstage) (Or.inr hstage) (Or.inr hv)
    · cases h
      exact .drop hstage
  case h_4 v hstage =>
    cases h
    exact .handOver hstage (Or.inl rfl)
  case h_5 v hstage =>
    cases h
    exact .leave (Or.inl ⟨hstage, rfl⟩)
  case h_6 v hstage =>
    cases h
    exact .leave (Or.inr ⟨hstage, rfl⟩)
  all_goals cases h

theorem fail_cases {taken : Bool} (h : s.fail index task taken = some s') :
    TaskStep s index task s' := by
  unfold fail at h
  split at h
  case h_1 signalled hstage =>
    cases h
    exact .move (by rw [hstage]; rfl) rfl rfl
  case h_2 hstage =>
    cases h
    exact .move (by rw [hstage]; rfl) rfl rfl
  case h_3 hstage =>
    cases h
    exact .drop hstage
  case h_4 v hstage =>
    cases h
    exact .handOver hstage (Or.inr rfl)
  case h_5 v hstage =>
    split at h
    · cases h
      exact .keep hstage (Or.inl rfl)
    · cases h
      exact .keep hstage (Or.inr rfl)
  case h_6 v hstage =>
    cases h
    exact .leave (Or.inr ⟨hstage, rfl⟩)
  all_goals cases h

/-! ### The invariant -/

def leases (tasks : List Task) : Int := tasks.countP fun task => task.stage.leased

theorem forall_setStage {stage : Stage} {property : Nat → Task → Prop}
    (hnew : property index { task with stage := stage })
    (hold : ∀ (other : Nat) (found : Task), other ≠ index → s.tasks[other]? = some found →
      property other found) (other : Nat) (found : Task)
    (h : (s.setStage index task stage).tasks[other]? = some found) : property other found := by
  unfold setStage at h
  rw [getElem?_set] at h
  split at h
  · rename_i heq
    subst heq
    split at h
    · cases h
      exact hnew
    · cases h
  · rename_i hne
    exact hold other found (Ne.symm hne) h

theorem leases_set {tasks : List Task} (hget : tasks[index]? = some task) (next : Task) :
    leases (tasks.set index next) = leases tasks
      - (if task.stage.leased then 1 else 0) + (if next.stage.leased then 1 else 0) := by
  obtain ⟨hlt, rfl⟩ := List.getElem?_eq_some_iff.mp hget
  unfold leases
  rw [countP_set hlt]
  have hpos : (if tasks[index].stage.leased = true then 1 else 0)
      ≤ tasks.countP fun task => task.stage.leased := by
    split
    · rename_i hleased
      exact countP_pos_iff.mpr ⟨_, getElem_mem hlt, hleased⟩
    · exact Nat.zero_le _
  split_ifs at hpos ⊢ <;> omega

structure Guarded (s : State) : Prop where
  active_eq : s.service.active = leases s.tasks
  idle_iff : s.service.idle = true ↔ s.service.active = 0
  task_locked : ∀ (index : Nat) (task : Task), s.tasks[index]? = some task →
    task.stage.locks = true → s.lock = some (.task index)
  coordinator_locked : s.coordinator.locks = true → s.lock = some .coordinator
  closed_unlocked : s.service.closed = true → ∀ (index : Nat) (task : Task),
    s.tasks[index]? = some task → task.stage.locks = false
  closed_version : s.service.closed = true → s.service.committedVersion = none
  closing_closed : s.coordinator.closing = true → s.service.closed = true
  drained_active : s.coordinator.drained = true → s.service.active = 0
  paused_closed : s.paused = true → s.service.closed = true ∧ s.service.active = 0

theorem guarded_initial (workers : List Int) : Guarded { workers := workers } where
  active_eq := rfl
  idle_iff := by simp
  task_locked := by simp
  coordinator_locked := by simp [Coordinator.locks]
  closed_unlocked := by simp
  closed_version := by simp
  closing_closed := by simp [Coordinator.closing]
  drained_active := by simp
  paused_closed := by simp

theorem Guarded.alone (h : Guarded s) (hget : s.tasks[index]? = some task)
    (hlock : s.lock = none ∨ task.stage.locks = true) :
    (∀ (other : Nat) (found : Task), other ≠ index → s.tasks[other]? = some found →
      found.stage.locks = false) ∧ s.coordinator.locks = false := by
  have hholder : s.lock = none ∨ s.lock = some (.task index) :=
    hlock.imp_right (h.task_locked index task hget)
  constructor
  · intro other found hne hfound
    by_contra hlocks
    have hother := h.task_locked other found hfound (by simpa using hlocks)
    rcases hholder with hnone | hindex
    · simp [hnone] at hother
    · rw [hindex] at hother
      cases hother
      exact hne rfl
  · by_contra hlocks
    have hcoordinator := h.coordinator_locked (by simpa using hlocks)
    rcases hholder with hnone | hindex
    · simp [hnone] at hcoordinator
    · simp [hindex] at hcoordinator

theorem Guarded.taskStep (h : Guarded s) (hget : s.tasks[index]? = some task)
    (hstep : TaskStep s index task s') : Guarded s' := by
  have hset := leases_set hget
  have hactive := h.active_eq
  cases hstep with
  | @move stage hwaits hleased' hlocks' =>
    refine { h with
      active_eq := ?_
      task_locked := forall_setStage (by simp [hlocks']) fun other found _ => h.task_locked other found
      closed_unlocked := fun hclosed => forall_setStage hlocks' fun other found _ =>
        h.closed_unlocked hclosed other found }
    simp [setStage, hset, Stage.leased_of_waits hwaits, hleased', hactive]
  | query hwaits hfree hopen =>
    have halone := h.alone hget (Or.inl hfree)
    refine { h with
      active_eq := ?_
      task_locked := forall_setStage (fun _ => rfl) fun other found hne hfound hlocks => ?_
      coordinator_locked := fun hlocks => ?_
      closed_unlocked := fun hclosed => ?_ }
    · simp [setStage, acquire, hset, Stage.leased_of_waits hwaits, hactive]
    · simp [halone.1 other found hne hfound] at hlocks
    · exact absurd (halone.2.symm.trans hlocks) Bool.false_ne_true
    · exact absurd (hopen.symm.trans hclosed) Bool.false_ne_true
  | @register v stage lock admitted hentry hversion hstage =>
    have halone := h.alone hget (hentry.imp (fun hfree => hfree.2.1) fun hv => by rw [hv]; rfl)
    have hleased : task.stage.leased = false := by
      rcases hentry with ⟨hwaits, -⟩ | hv
      · exact Stage.leased_of_waits hwaits
      · rw [hv]
        rfl
    have hopen : s.service.closed = false := by
      rcases hentry with ⟨-, -, hopen⟩ | hv
      · exact hopen
      · by_contra hclosed
        have := h.closed_unlocked (by simpa using hclosed) index task hget
        simp [hv] at this
    have hdrained : s.coordinator.drained = false := by
      by_contra hdrained
      have hdrained : s.coordinator.drained = true := by simpa using hdrained
      have := h.closing_closed (Coordinator.closing_of_drained hdrained)
      exact absurd (hopen.symm.trans this) Bool.false_ne_true
    have hactive' : leases (s.tasks.set index { task with stage := stage })
        = s.service.active + 1 := by
      rcases hstage with ⟨rfl, -⟩ | ⟨rfl, -⟩ <;> simp [hset, hleased, hactive]
    have hnonneg : 0 ≤ s.service.active := hactive ▸ Int.natCast_nonneg _
    constructor
    case active_eq => exact hactive'.symm
    case idle_iff =>
      simp only [setStage, Service.register, Bool.false_eq_true, false_iff]
      omega
    case task_locked =>
      apply forall_setStage
      · rcases hstage with ⟨rfl, rfl⟩ | ⟨rfl, rfl⟩ <;> simp
      · intro other found hne hfound hlocks
        simp [halone.1 other found hne hfound] at hlocks
    case coordinator_locked =>
      exact fun hlocks => absurd (halone.2.symm.trans hlocks) Bool.false_ne_true
    case closed_unlocked =>
      exact fun hclosed => absurd (hopen.symm.trans hclosed) Bool.false_ne_true
    case closed_version =>
      exact fun hclosed => absurd (hopen.symm.trans hclosed) Bool.false_ne_true
    case closing_closed => exact h.closing_closed
    case drained_active =>
      exact fun hd => absurd (hdrained.symm.trans hd) Bool.false_ne_true
    case paused_closed =>
      exact fun hpaused =>
        absurd (hopen.symm.trans (h.paused_closed hpaused).1) Bool.false_ne_true
  | drop hstage =>
    have halone := h.alone hget (Or.inr (by rw [hstage]; rfl))
    refine { h with
      active_eq := ?_
      task_locked := forall_setStage (by simp) fun other found hne hfound hlocks => ?_
      coordinator_locked := fun hlocks => absurd (halone.2.symm.trans hlocks) Bool.false_ne_true
      closed_unlocked := fun hclosed => forall_setStage rfl fun other found _ =>
        h.closed_unlocked hclosed other found }
    · simp [setStage, release, hset, hstage, hactive]
    · simp [halone.1 other found hne hfound] at hlocks
  | @handOver v stage added hstage hstage' =>
    have halone := h.alone hget (Or.inr (by rw [hstage]; rfl))
    have hleased : stage.leased = true := by rcases hstage' with rfl | rfl <;> rfl
    have hlocks' : stage.locks = false := by rcases hstage' with rfl | rfl <;> rfl
    refine { h with
      active_eq := ?_
      task_locked := forall_setStage (by simp [hlocks']) fun other found hne hfound hlocks => ?_
      coordinator_locked := fun hlocks => absurd (halone.2.symm.trans hlocks) Bool.false_ne_true
      closed_unlocked := fun hclosed => forall_setStage hlocks' fun other found _ =>
        h.closed_unlocked hclosed other found }
    · simp [setStage, release, hset, hstage, hleased, hactive]
    · simp [halone.1 other found hne hfound] at hlocks
  | @keep v stage hstage hstage' =>
    have hleased : stage.leased = true := by rcases hstage' with rfl | rfl <;> rfl
    have hlocks' : stage.locks = false := by rcases hstage' with rfl | rfl <;> rfl
    refine { h with
      active_eq := ?_
      task_locked := forall_setStage (by simp [hlocks']) fun other found _ => h.task_locked other found
      closed_unlocked := fun hclosed => forall_setStage hlocks' fun other found _ =>
        h.closed_unlocked hclosed other found }
    simp [setStage, hset, hstage, hleased, hactive]
  | @leave v stage hstage =>
    have hleased : task.stage.leased = true := by
      rcases hstage with ⟨hold, -⟩ | ⟨hold, -⟩ <;> rw [hold] <;> rfl
    have hleased' : stage.leased = false := by rcases hstage with ⟨-, rfl⟩ | ⟨-, rfl⟩ <;> rfl
    have hlocks' : stage.locks = false := by rcases hstage with ⟨-, rfl⟩ | ⟨-, rfl⟩ <;> rfl
    have hactive' : leases (s.tasks.set index { task with stage := stage })
        = s.service.active - 1 := by
      simp [hset, hleased, hleased', hactive]
    have hnonneg : 0 ≤ leases (s.tasks.set index { task with stage := stage }) :=
      Int.natCast_nonneg _
    have hbusy : s.service.active ≠ 0 := by omega
    have hidle : s.service.idle = false := by
      by_contra hidle
      exact hbusy (h.idle_iff.mp (by simpa using hidle))
    constructor
    case active_eq => exact hactive'.symm
    case idle_iff => simp [leave, Service.leaveCall, hidle]
    case task_locked =>
      exact forall_setStage (by simp [hlocks']) fun other found _ => h.task_locked other found
    case coordinator_locked => simpa [leave] using h.coordinator_locked
    case closed_unlocked =>
      exact fun hclosed => forall_setStage hlocks' fun other found _ =>
        h.closed_unlocked hclosed other found
    case closed_version => exact h.closed_version
    case closing_closed => simpa [leave, Service.leaveCall] using h.closing_closed
    case drained_active =>
      intro hdrained
      rcases Coordinator.drained_wake hdrained with hold | hnow
      · exact absurd (h.drained_active hold) hbusy
      · exact of_decide_eq_true hnow
    case paused_closed => exact fun hpaused => absurd (h.paused_closed hpaused).2 hbusy

theorem Guarded.tasks_outside (h : Guarded s) (hlock : s.lock = none ∨ s.coordinator.locks = true)
    (index : Nat) (task : Task) (hget : s.tasks[index]? = some task) :
    task.stage.locks = false := by
  by_contra hlocks
  have htask := h.task_locked index task hget (by simpa using hlocks)
  rcases hlock with hfree | hcoordinator
  · simp [hfree] at htask
  · simp [h.coordinator_locked hcoordinator] at htask

theorem leases_wake (tasks : List Task) : leases (wake tasks) = leases tasks := by
  unfold leases wake
  rw [countP_map]
  congr 2
  funext task
  dsimp only [Function.comp_apply]
  split
  · rename_i hstage
    rw [hstage]
    rfl
  · rfl

theorem wake_outside {tasks : List Task} (h : ∀ (index : Nat) (task : Task),
    tasks[index]? = some task → task.stage.locks = false) (index : Nat) (task : Task)
    (hget : (wake tasks)[index]? = some task) : task.stage.locks = false := by
  unfold wake at hget
  rw [getElem?_map, Option.map_eq_some_iff] at hget
  obtain ⟨old, hold, rfl⟩ := hget
  split
  · rfl
  · exact h index old hold

theorem Guarded.relock {s : State} (h : Guarded s) {lock : Option Holder} {c : Coordinator}
    (hlock : s.lock = none ∨ s.coordinator.locks = true)
    (hlocks : c.locks = true → lock = some .coordinator)
    (hclosing : c.closing = true → s.service.closed = true)
    (hdrained : c.drained = true → s.service.active = 0) :
    Guarded { s with lock := lock, coordinator := c } :=
  { h with
    task_locked := fun index task hget hinside =>
      absurd ((h.tasks_outside hlock index task hget).symm.trans hinside) Bool.false_ne_true
    coordinator_locked := hlocks
    closing_closed := hclosing
    drained_active := hdrained }

section

variable (h : Guarded s)

include h

theorem Guarded.advance {c : Coordinator} (hlocks : c.locks = false)
    (hclosing : c.closing = true → s.service.closed = true)
    (hdrained : c.drained = true → s.service.active = 0) : Guarded { s with coordinator := c } :=
  { h with
    coordinator_locked := fun hinside => absurd (hlocks.symm.trans hinside) Bool.false_ne_true
    closing_closed := hclosing
    drained_active := hdrained }

theorem Guarded.close (hlock : s.lock = none) : Guarded { s with service := s.service.close } :=
  { h with
    closed_unlocked := fun _ => h.tasks_outside (Or.inl hlock)
    closed_version := fun _ => rfl
    closing_closed := fun _ => rfl
    paused_closed := fun hpaused => ⟨rfl, (h.paused_closed hpaused).2⟩ }

theorem Guarded.pauseReturn (hdrained : s.coordinator.drained = true) : Guarded s.pauseReturn :=
  { h with
    coordinator_locked := fun hinside => by cases hinside
    closing_closed := fun hclosing => by cases hclosing
    drained_active := fun hdrained => by cases hdrained
    paused_closed := fun _ => ⟨h.closing_closed (Coordinator.closing_of_drained hdrained),
      h.drained_active hdrained⟩ }

theorem Guarded.reopen (v : Int) (hlock : s.coordinator.locks = true) :
    Guarded { s.release with
      service := s.service.reopen v
      tasks := wake s.tasks
      coordinator := .ready
      paused := false } :=
  { h with
    active_eq := h.active_eq.trans (leases_wake s.tasks).symm
    task_locked := fun index task hget hinside =>
      absurd ((wake_outside (h.tasks_outside (Or.inr hlock)) index task hget).symm.trans hinside)
        Bool.false_ne_true
    coordinator_locked := fun hinside => by cases hinside
    closed_unlocked := fun hclosed => by cases hclosed
    closed_version := fun hclosed => by cases hclosed
    closing_closed := fun hclosing => by cases hclosing
    drained_active := fun hdrained => by cases hdrained
    paused_closed := fun hpaused => by cases hpaused }

theorem signalled_idle {drain : Bool}
    (hdrained : (Coordinator.idleWait drain s.service.idle).drained = true) :
    s.service.active = 0 := by
  apply h.idle_iff.mp
  cases hidle : s.service.idle with
  | false =>
    rw [hidle] at hdrained
    cases hdrained
  | true => rfl

theorem Guarded.coordinate (hstep : s.coordinate = some s') : Guarded s' := by
  unfold State.coordinate at hstep
  split at hstep
  case h_1 => cases hstep
  case h_2 drain hstage =>
    split at hstep
    · rename_i hfree
      have hclosed := h.close hfree
      split at hstep
      · cases hstep
        exact hclosed.advance rfl (fun _ => rfl) (signalled_idle hclosed)
      · cases hstep
        exact hclosed.relock (Or.inl hfree) (fun _ => rfl) (fun _ => rfl) (fun hd => by cases hd)
    · cases hstep
  case h_3 hstage =>
    cases hstep
    have hclosed : s.service.closed = true := h.closing_closed (by rw [hstage]; rfl)
    exact h.relock (Or.inr (by rw [hstage]; rfl)) (fun hl => by cases hl) (fun _ => hclosed)
      (signalled_idle h)
  case h_4 drain signalled hstage =>
    split at hstep
    · rename_i hsignalled
      subst hsignalled
      have hdrained : s.coordinator.drained = true := by rw [hstage]; rfl
      split at hstep
      · cases hstep
        exact h.advance rfl
          (fun _ => h.closing_closed (Coordinator.closing_of_drained hdrained))
          (fun _ => h.drained_active hdrained)
      · cases hstep
        exact h.pauseReturn hdrained
    · cases hstep
  case h_5 hstage =>
    have hdrained : s.coordinator.drained = true := by rw [hstage]; rfl
    split at hstep
    · rename_i hfree
      cases hstep
      exact h.relock (Or.inl hfree) (fun _ => rfl)
        (fun _ => h.closing_closed (Coordinator.closing_of_drained hdrained))
        (fun _ => h.drained_active hdrained)
    · cases hstep
  case h_6 hstage =>
    cases hstep
    have hdrained : s.coordinator.drained = true := by rw [hstage]; rfl
    have hreleased : Guarded { s with lock := none, coordinator := .drainLock } :=
      h.relock (Or.inr (by rw [hstage]; rfl)) (fun hl => by cases hl)
        (fun _ => h.closing_closed (Coordinator.closing_of_drained hdrained))
        (fun _ => h.drained_active hdrained)
    exact hreleased.pauseReturn rfl
  case h_7 v hstage =>
    split at hstep
    · rename_i hfree
      split at hstep
      · cases hstep
        exact h.advance rfl (fun hc => by cases hc) (fun hd => by cases hd)
      · cases hstep
        exact h.relock (Or.inl hfree) (fun _ => rfl) (fun hc => by cases hc) (fun hd => by cases hd)
    · cases hstep
  case h_8 v hstage =>
    have hlocks : s.coordinator.locks = true := by rw [hstage]; rfl
    split at hstep
    · cases hstep
      exact @Guarded.relock s h s.lock _ (Or.inr hlocks) (fun _ => h.coordinator_locked hlocks)
        (fun hc => by cases hc) (fun hd => by cases hd)
    · cases hstep
      exact h.relock (Or.inr hlocks) (fun hl => by cases hl) (fun hc => by cases hc)
        (fun hd => by cases hd)
  case h_9 v hstage =>
    cases hstep
    exact h.reopen v (by rw [hstage]; rfl)

theorem Guarded.coordinatorFail (hstep : s.coordinatorFail = some s') : Guarded s' := by
  unfold State.coordinatorFail at hstep
  have hready : Guarded { s with coordinator := .ready } :=
    h.advance rfl (fun hc => by cases hc) (fun hd => by cases hd)
  have hreleased (hlocks : s.coordinator.locks = true) :
      Guarded { s.release with coordinator := .ready } :=
    h.relock (Or.inr hlocks) (fun hl => by cases hl) (fun hc => by cases hc) (fun hd => by cases hd)
  split at hstep
  case h_1 => cases hstep
  case h_2 | h_3 | h_4 | h_5 =>
    cases hstep
    exact hready
  case h_6 | h_7 | h_8 | h_9 =>
    rename_i hstage
    cases hstep
    exact hreleased (by rw [hstage]; rfl)

theorem Guarded.arrive (hleased : task.stage.leased = false) (hlocks : task.stage.locks = false) :
    Guarded { s with tasks := s.tasks ++ [task] } := by
  have hcases : ∀ (index : Nat) (found : Task), (s.tasks ++ [task])[index]? = some found →
      s.tasks[index]? = some found ∨ found = task := by
    intro index found hget
    rw [getElem?_append] at hget
    split at hget
    · exact Or.inl hget
    · exact Or.inr (by simpa using (mem_of_getElem? hget))
  refine { h with active_eq := ?_, task_locked := ?_, closed_unlocked := ?_ }
  · simp [h.active_eq, leases, hleased]
  · intro index found hget hinside
    rcases hcases index found hget with hold | rfl
    · exact h.task_locked index found hold hinside
    · exact absurd (hlocks.symm.trans hinside) Bool.false_ne_true
  · intro hclosed index found hget
    rcases hcases index found hget with hold | rfl
    · exact h.closed_unlocked hclosed index found hold
    · exact hlocks

theorem Guarded.step {action : Action} (hstep : s.step action = some s') : Guarded s' := by
  cases action with
  | arrive kind =>
    cases hstep
    apply h.arrive
    · rcases kind with ⟨_ | _⟩ | _ <;> rfl
    · rcases kind with ⟨_ | _⟩ | _ <;> rfl
  | proceed index =>
    obtain ⟨task, hget, hproceed⟩ := Option.bind_eq_some_iff.mp hstep
    refine h.taskStep hget (proceed_cases (fun hstage => ?_) hproceed)
    exact h.task_locked index task hget (by rw [hstage]; rfl)
  | output index =>
    simp only [State.step] at hstep
    split at hstep
    · cases hstep
      exact h
    · cases hstep
  | fail index taken =>
    obtain ⟨task, hget, hfail⟩ := Option.bind_eq_some_iff.mp hstep
    exact h.taskStep hget (fail_cases hfail)
  | pause drain =>
    simp only [State.step] at hstep
    split at hstep
    · cases hstep
      exact h.advance rfl (fun hc => by cases hc) (fun hd => by cases hd)
    · cases hstep
  | resume v =>
    simp only [State.step] at hstep
    split at hstep
    · cases hstep
      exact h.advance rfl (fun hc => by cases hc) (fun hd => by cases hd)
    · cases hstep
  | coordinate => exact h.coordinate hstep
  | coordinatorFail => exact h.coordinatorFail hstep
  | setWeights workers =>
    cases hstep
    exact { h with }

end

end State

end HyperParallel.FullyAsync
