import HyperParallel.Multicore.BackwardStorage

/-!
# No reader is left when the received rows are overwritten

The Cube workers run the cube queue round robin, the Vector workers any
assignment of the vector queue.  What a task of the input gradient awaits joins
the SwiGLU tasks of its expert, these await all activation gradients, and each
worker computes the weight gradient before the activation gradient.
-/

namespace HyperParallel.Multicore

open Foundation Foundation.Dealing List
open Foundation.EventWorkers

namespace BackwardStorage

section Device

variable {V : Type*}

/-- The range checks of `ExecuteTaskFast`. -/
def traps (cfg : RuntimeConfig) (task : TaskDesc) : Bool :=
  (task.dependentEvent ≠ eventInvalidId &&
    cfg.allEventNumTriggers.length ≤ task.dependentEvent.toNat) ||
  cfg.allEventNumTriggers.length < task.triggerEvent.toNat + atomicAddValueLen

/-- A put task signals on its target rank; `lands` says whether that is this rank. -/
def schedule (cfg : RuntimeConfig) (numCores : Nat) (cubeTasks : List TaskDesc)
    (assigned : V → List TaskDesc) (lands : TaskDesc → Bool) :
    Schedule (Fin numCores ⊕ V) TaskDesc UInt32 where
  queue
    | .inl worker => strided worker numCores cubeTasks
    | .inr worker => assigned worker
  traps := traps cfg
  awaits task :=
    if task.dependentEvent = eventInvalidId then none
    else some (task.dependentEvent,
      (cfg.allEventNumTriggers.getD task.dependentEvent.toNat 0).toInt)
  signals task :=
    if task.hasType .shmemPutMemSignal ∧ lands task = false then none
    else some task.triggerEvent

/-- The gradients of the weights and activations are grouped matmuls, which run
on Cube workers only. -/
def ReadsReceivedRows (numCores expert : Nat) : Fin numCores ⊕ V → TaskDesc → Prop
  | .inl _, task => (output task = weight2Grad ∨ output task = activationGrad) ∧
      expertOf numCores task = expert
  | .inr _, _ => False

def WritesReceivedRows (numCores expert : Nat) : Fin numCores ⊕ V → TaskDesc → Prop
  | .inl _, task => output task = inputGrad ∧ expertOf numCores task = expert
  | .inr _, _ => False

end Device

/-! ### What the event chain says -/

structure EventJoins (cfg : RuntimeConfig) (queued tasks : List TaskDesc) (event : UInt32) :
    Prop where
  same : ∀ task ∈ tasks, task.triggerEvent = event
  producers : numProducers queued event = tasks.length
  count : ∃ count, cfg.numTriggers event = .ok count ∧ count.toInt = (tasks.length : Int)

variable {event : UInt32} {task : TaskDesc}

theorem eventJoins_of_check {cfg : RuntimeConfig} {queued tasks : List TaskDesc}
    (h : eventJoinsTasks cfg queued tasks = .ok true)
    (hevent : eventOf tasks = .ok event) : EventJoins cfg queued tasks event := by
  cases tasks with
  | nil => cases h
  | cons first rest =>
    cases hevent
    simp only [eventJoinsTasks] at h
    split at h
    · rename_i hproducers
      obtain ⟨count, hcount, htrue⟩ := map_eq_ok h
      simp only [Bool.and_eq_true, decide_eq_true_eq, all_eq_true] at htrue
      exact ⟨htrue.2, hproducers, count, hcount, htrue.1⟩
    · cases h

structure ExpertChain (cfg : RuntimeConfig) (queued acts gates swiglu : List TaskDesc)
    (actEvent swigluEvent : UInt32) : Prop where
  acts_join : EventJoins cfg queued acts actEvent
  swiglu_join : EventJoins cfg queued swiglu swigluEvent
  swiglu_nonempty : swiglu ≠ []
  swiglu_awaits : ∀ task ∈ swiglu, task.dependentEvent = actEvent
  gates_await : ∀ task ∈ gates, task.dependentEvent = swigluEvent

theorem expertChain_of_check {cfg : RuntimeConfig} {queued acts gates swiglu : List TaskDesc}
    {numCores : Nat} (h : expertDependencyChain cfg acts gates swiglu numCores queued = .ok true) :
    ∃ actEvent swigluEvent, ExpertChain cfg queued acts gates swiglu actEvent swigluEvent := by
  unfold expertDependencyChain at h
  split at h
  · cases h
  · rename_i hsizes
    push Not at hsizes
    obtain ⟨actsJoined, hacts, h⟩ := bind_eq_ok h
    cases actsJoined with
    | false => cases h
    | true =>
      obtain ⟨swigluJoined, hswiglu, h⟩ := bind_eq_ok h
      cases swigluJoined with
      | false => cases h
      | true =>
        obtain ⟨actEvent, hactEvent, h⟩ := bind_eq_ok h
        obtain ⟨swigluEvent, hswigluEvent, h⟩ := bind_eq_ok h
        have h : ((swiglu.all fun task =>
            task.dependentEvent = actEvent && output task = swigluGrad) &&
            gates.all fun task => task.dependentEvent = swigluEvent) = true :=
          Except.ok.inj h
        simp only [Bool.and_eq_true, all_eq_true, decide_eq_true_eq] at h
        exact ⟨actEvent, swigluEvent, eventJoins_of_check hacts hactEvent,
          eventJoins_of_check hswiglu hswigluEvent, hsizes.2.2,
          fun task htask => (h.1 task htask).1, h.2⟩

/-- What the check establishes about the two queues. -/
structure Reusable (cfg : RuntimeConfig) (cubeTasks vectorTasks : List TaskDesc)
    (numExperts numCores : Nat) : Prop where
  order : ∀ worker : Fin numCores, ReadOrder (strided worker numCores cubeTasks) numExperts numCores
  chain : ∀ expert < numExperts, ∃ actEvent swigluEvent,
    ExpertChain cfg (cubeTasks ++ vectorTasks)
      (cubeTasksOf cubeTasks numCores activationGrad expert)
      (cubeTasksOf cubeTasks numCores inputGrad expert)
      (swigluTasksOf vectorTasks numExperts expert) actEvent swigluEvent

theorem reusable_of_check {cfg : RuntimeConfig} {numExperts numCores : Nat}
    {cubeTasks vectorTasks : List TaskDesc}
    (h : canReuseBackwardDispatch cfg numExperts numCores = .ok true)
    (hcube : cfg.queuedTasks cfg.cubeTaskIndices (cfg.taskIndexNum.get 0) = .ok cubeTasks)
    (hvector : cfg.queuedTasks cfg.vectorTaskIndices (cfg.taskIndexNum.get 1) = .ok vectorTasks) :
    Reusable cfg cubeTasks vectorTasks numExperts numCores := by
  unfold canReuseBackwardDispatch at h
  split at h
  · cases h
  · obtain ⟨cube, hcube', h⟩ := bind_eq_ok h
    obtain ⟨vector, hvector', h⟩ := bind_eq_ok h
    obtain rfl : cube = cubeTasks := Except.ok.inj (hcube'.symm.trans hcube)
    obtain rfl : vector = vectorTasks := Except.ok.inj (hvector'.symm.trans hvector)
    obtain ⟨known, -, h⟩ := bind_eq_ok h
    cases known with
    | false => cases h
    | true =>
      simp only [if_true] at h
      split at h
      · rename_i horder
        obtain ⟨-, -, h⟩ := bind_eq_ok h
        obtain ⟨partitioned, -, h⟩ := bind_eq_ok h
        cases partitioned with
        | false => cases h
        | true =>
          have hall := allM_eq_ok_true_iff.mp h
          exact ⟨readOrder_of_workerReadOrder horder, fun expert hexpert =>
            expertChain_of_check (hall expert (mem_range.mpr hexpert))⟩
      · cases h

/-! ### What follows for the workers -/

variable {V : Type*} {cfg : RuntimeConfig} {numExperts numCores : Nat}
  {cubeTasks vectorTasks : List TaskDesc} {assigned : V → List TaskDesc}
  {lands : TaskDesc → Bool}

theorem signals_of_triggers (h : task.triggerEvent = event)
    (hput : ¬task.hasType .shmemPutMemSignal) :
    (schedule cfg numCores cubeTasks assigned lands).signals task = some event := by
  simp [schedule, hput, h]

theorem awaits_of_depends {count : Int32}
    (h : task.dependentEvent = event) (hcount : cfg.numTriggers event = .ok count) :
    (schedule cfg numCores cubeTasks assigned lands).awaits task = some (event, count.toInt) := by
  have hne := RuntimeConfig.ne_invalid_of_numTriggers hcount
  unfold RuntimeConfig.numTriggers at hcount
  split at hcount
  · rename_i found hfound
    cases hcount
    simp [schedule, h, hne, getD_eq_getElem?_getD, hfound]
  · cases hcount

theorem producers_le [Fintype V]
    (hassigned : ∑ v, (assigned v : Multiset TaskDesc) = (vectorTasks : Multiset TaskDesc))
    (event : UInt32) :
    (schedule cfg numCores cubeTasks assigned lands).producers event
      ≤ numProducers (cubeTasks ++ vectorTasks) event := by
  let names : TaskDesc → Bool := fun task => task.triggerEvent = event
  have hsignals : ∀ queue : List TaskDesc,
      queue.countP ((schedule cfg numCores cubeTasks assigned lands).signalsEvent event)
        ≤ queue.countP names := by
    intro queue
    apply countP_mono_left
    intro task _ h
    simp only [Schedule.signalsEvent, schedule] at h
    split at h
    · cases h
    · simpa [names] using h
  have hcube : ∑ worker : Fin numCores, (strided worker.val numCores cubeTasks).countP names
      ≤ cubeTasks.countP names := by
    cases numCores with
    | zero => simp
    | succ n => exact (sum_countP_strided names n cubeTasks).le
  have hvector : ∑ v, (assigned v).countP names = vectorTasks.countP names := by
    have hcount := congrArg (Multiset.countPAddMonoidHom (names · = true)) hassigned
    rw [map_sum] at hcount
    simpa [Multiset.coe_countPAddMonoidHom] using hcount
  rw [Schedule.producers, Fintype.sum_sum_type, numProducers, countP_append, ← hvector]
  exact Nat.add_le_add ((Finset.sum_le_sum fun worker _ => hsignals _).trans hcube)
    (Finset.sum_le_sum fun v _ => hsignals _)

section Workers

variable [Fintype V]
  (hassigned : ∑ v, (assigned v : Multiset TaskDesc) = (vectorTasks : Multiset TaskDesc))
  {p : Progress (Fin numCores ⊕ V)}
  (hsound : Schedule.Sound (schedule cfg numCores cubeTasks assigned lands) p)
  {w v : Fin numCores ⊕ V} {i j : Nat} {a b : TaskDesc}

include hassigned hsound

theorem finished_of_joined {joined : List TaskDesc} {event : UInt32}
    (hjoins : EventJoins cfg (cubeTasks ++ vectorTasks) joined event) (hstarted : Started p w i)
    (ha : ((schedule cfg numCores cubeTasks assigned lands).queue w)[i]? = some a)
    (hawaits : a.dependentEvent = event)
    (hb : ((schedule cfg numCores cubeTasks assigned lands).queue v)[j]? = some b)
    (hmem : b ∈ joined) (hput : ¬b.hasType .shmemPutMemSignal) : Finished p v j := by
  obtain ⟨count, hcount, hlength⟩ := hjoins.count
  have hproducers : (schedule cfg numCores cubeTasks assigned lands).producers event
      ≤ numProducers (cubeTasks ++ vectorTasks) event := producers_le hassigned event
  apply hsound.finished_of_started hstarted ha (awaits_of_depends hawaits hcount) _ hb
    (signals_of_triggers (hjoins.same b hmem) hput)
  rw [hlength, ← hjoins.producers]
  exact_mod_cast hproducers

end Workers

theorem mem_vector_queue [Fintype V] {b : TaskDesc}
    (hassigned : ∑ v, (assigned v : Multiset TaskDesc) = (vectorTasks : Multiset TaskDesc))
    (hmem : b ∈ vectorTasks) : ∃ (u : V) (k : Nat), (assigned u)[k]? = some b := by
  have hsum : b ∈ ∑ u, (assigned u : Multiset TaskDesc) := by
    rw [hassigned]
    exact hmem
  obtain ⟨u, -, hu⟩ := Multiset.mem_sum.mp hsum
  obtain ⟨k, hk⟩ := mem_iff_getElem?.mp (Multiset.mem_coe.mp hu)
  exact ⟨u, k, hk⟩

theorem mem_cubeTasksOf {worker : Fin numCores} {i out expert : Nat}
    (hentry : (strided worker.val numCores cubeTasks)[i]? = some task) (hout : output task = out)
    (hexpert : expertOf numCores task = expert) :
    task ∈ cubeTasksOf cubeTasks numCores out expert :=
  List.mem_filter.mpr ⟨mem_of_mem_strided (List.mem_of_getElem? hentry), by simp [hout, hexpert]⟩

section Overwrite

variable [Fintype V] (hreusable : Reusable cfg cubeTasks vectorTasks numExperts numCores)
  (hassigned : ∑ v, (assigned v : Multiset TaskDesc) = (vectorTasks : Multiset TaskDesc))
  {p : Progress (Fin numCores ⊕ V)}
  (hsound : Schedule.Sound (schedule cfg numCores cubeTasks assigned lands) p)
  {worker reader : Fin numCores} {expert i j : Nat} {a b : TaskDesc}
  (ha : (strided worker.val numCores cubeTasks)[i]? = some a) (houta : output a = inputGrad)
  (hexperta : expertOf numCores a = expert) (hstarted : Started p (.inl worker) i)

include hreusable hassigned hsound ha houta hexperta hstarted

theorem activation_finished (hb : (strided reader.val numCores cubeTasks)[j]? = some b)
    (houtb : output b = activationGrad) (hexpertb : expertOf numCores b = expert) :
    Finished p (.inl reader) j := by
  have hlt : expert < numExperts := by
    rw [← hexperta]
    exact (hreusable.order worker).expert_lt a (mem_of_getElem? ha)
      (by simp [isGradOutput, houta])
  obtain ⟨actEvent, swigluEvent, hchain⟩ := hreusable.chain expert hlt
  -- some SwiGLU task of the expert stands between the two
  obtain ⟨middle, hmiddle⟩ := exists_mem_of_ne_nil _ hchain.swiglu_nonempty
  obtain ⟨hmemMiddle, htypeMiddle⟩ := mem_filter.mp hmiddle
  obtain ⟨u, k, hk⟩ := mem_vector_queue hassigned hmemMiddle
  have hnotPut : ¬middle.hasType .shmemPutMemSignal := by
    simp only [Bool.and_eq_true, decide_eq_true_eq] at htypeMiddle
    exact TaskDesc.not_hasType htypeMiddle.1 (by decide)
  have hmiddleDone : Finished p (.inr u) k :=
    finished_of_joined hassigned hsound hchain.swiglu_join hstarted ha
      (hchain.gates_await a (mem_cubeTasksOf ha houta hexperta)) hk hmiddle hnotPut
  have hgrouped : b.hasType .groupedMatmul :=
    (hreusable.order reader).grouped b (mem_of_getElem? hb) (by simp [isGradOutput, houtb])
  exact finished_of_joined hassigned hsound hchain.acts_join hmiddleDone.started hk
    (hchain.swiglu_awaits middle hmiddle) hb (mem_cubeTasksOf hb houtb hexpertb)
    (TaskDesc.not_hasType hgrouped (by decide))

theorem weight_finished (hb : (strided reader.val numCores cubeTasks)[j]? = some b)
    (houtb : output b = weight2Grad) (hexpertb : expertOf numCores b = expert) :
    Finished p (.inl reader) j := by
  have horder := hreusable.order reader
  have hlt : expert < numExperts := by
    rw [← hexpertb]
    exact horder.expert_lt b (mem_of_getElem? hb) (by simp [isGradOutput, houtb])
  obtain ⟨k, act, hact, houtact, hexpertact⟩ := horder.activation expert hlt
  have hdone := activation_finished hreusable hassigned hsound ha houta hexperta hstarted hact
    houtact hexpertact
  apply hdone.started.finished_before
  exact horder.before j k b act hb hact houtb houtact (hexpertb.trans hexpertact.symm)

end Overwrite

def sampleTask (type : TaskType) (position : UInt32) (trigger dependent : UInt32) : TaskDesc :=
  { taskType := type.code, outputs := Vector.replicate 4 { inputPosition := position },
    triggerEvent := trigger, dependentEvent := dependent, taskSplitNum := 1 }

def sampleConfig : RuntimeConfig where
  allEventNumTriggers := [0, 1, 1, 2, 0, 0, 0, 0, 0, 0, 0, 0, 0, 0, 0, 0]
  allTasks :=
    [sampleTask .groupedMatmul 6 3 eventInvalidId, sampleTask .groupedMatmul 8 1 eventInvalidId,
      sampleTask .swiGluGrad 10 2 1, sampleTask .groupedMatmul 12 3 2]
  taskIndexNum := #v[3, 1, 0, 0]
  cubeTaskIndices := [0, 1, 3]
  vectorTaskIndices := [2]
  mixTaskIndices := []
  events_le := by decide

def sampleCube : List TaskDesc :=
  [sampleTask .groupedMatmul 6 3 eventInvalidId, sampleTask .groupedMatmul 8 1 eventInvalidId,
    sampleTask .groupedMatmul 12 3 2]

def sampleSchedule : Schedule (Fin 1 ⊕ Fin 1) TaskDesc UInt32 :=
  schedule sampleConfig 1 sampleCube (fun _ => [sampleTask .swiGluGrad 10 2 1]) fun _ => false

theorem sample_overwrites : ∃ p : Progress (Fin 1 ⊕ Fin 1), sampleSchedule.Reachable p ∧
    Started p (.inl 0) 2 := by
  let cube : Fin 1 ⊕ Fin 1 := .inl 0
  let vector : Fin 1 ⊕ Fin 1 := .inr 0
  have run : sampleSchedule.Reachable _ :=
    (((((((Relation.ReflTransGen.refl.tail
      (.start (w := cube) rfl rfl rfl (by decide))).tail (.finish (w := cube) rfl)).tail
      (.start (w := cube) rfl rfl rfl (by decide))).tail (.finish (w := cube) rfl)).tail
      (.start (w := vector) rfl rfl rfl (by decide))).tail (.finish (w := vector) rfl)).tail
      (.start (w := cube) rfl rfl rfl (by decide)))
  exact ⟨_, run, Or.inr ⟨rfl, rfl⟩⟩

end BackwardStorage

end HyperParallel.Multicore
