import HyperParallel.Foundation.Dealing
import HyperParallel.Foundation.EventWorkers
import HyperParallel.Foundation.PyDict
import HyperParallel.Multicore.RuntimeConfig

/-!
# Sharing the dispatch storage in backward

The host allows the input gradient to overwrite the received rows when the
queues and events of the configuration show that every reader of an expert's
rows comes first.  The check looks at the descriptors only; what it says about
the device is a statement on every interleaving of the workers.
-/

namespace HyperParallel.Multicore

open Foundation Foundation.Dealing List
open Foundation.EventWorkers

attribute [local instance] fourSlots

namespace BackwardStorage

def dispatch : Nat := 0
def weight2Grad : Nat := 6
def activationGrad : Nat := 8
def swigluGrad : Nat := 10
def inputGrad : Nat := 12

/-- `task.outputs[0].input_position` -/
def output (task : TaskDesc) : Nat := (task.outputs.get 0).inputPosition.toNat

def isGradOutput (task : TaskDesc) : Bool :=
  output task = weight2Grad || output task = activationGrad || output task = inputGrad

/-- `task.task_index // num_cores` -/
def expertOf (numCores : Nat) (task : TaskDesc) : Nat := task.taskIndex.toNat / numCores

abbrev Locations := PyDict (Nat × Nat) Nat

def locate (numCores : Nat) : Nat → Locations → List TaskDesc → Option Locations
  | _, locations, [] => some locations
  | index, locations, task :: rest =>
    if isGradOutput task then
      if locations.contains (output task, expertOf numCores task)
          || ¬task.hasType .groupedMatmul then none
      else
        locate numCores (index + 1)
          (locations.set (output task, expertOf numCores task) index) rest
    else locate numCores (index + 1) locations rest

/-- `locations.get((output, expert), -1)` -/
def location (locations : Locations) (out expert : Nat) : Int :=
  match locations.get? (out, expert) with
  | some index => index
  | none => -1

def readOrderOf (tasks : List TaskDesc) (numExperts numCores : Nat) : Bool :=
  match locate numCores 0 PyDict.empty tasks with
  | none => false
  | some locations =>
    locations.entries.length = 3 * numExperts &&
      (List.range numExperts).all fun expert =>
        0 ≤ location locations weight2Grad expert &&
        location locations weight2Grad expert < location locations activationGrad expert &&
        location locations activationGrad expert < location locations inputGrad expert

/-- `_worker_read_order` -/
def workerReadOrder (tasks : List TaskDesc) (numExperts numCores : Nat) : Bool :=
  (List.range numCores).all fun worker =>
    readOrderOf (strided worker numCores tasks) numExperts numCores

/-- `acts[expert]`, `gates[expert]` -/
def cubeTasksOf (cubeTasks : List TaskDesc) (numCores out expert : Nat) : List TaskDesc :=
  cubeTasks.filter fun task => output task = out && expertOf numCores task = expert

/-- `swiglu[expert]` -/
def swigluTasksOf (vectorTasks : List TaskDesc) (numExperts expert : Nat) : List TaskDesc :=
  vectorTasks.filter fun task => task.hasType .swiGluGrad &&
    task.taskIndex.toNat / (task.taskSplitNum.toNat / numExperts) = expert

/-- `len(producers[event])` -/
def numProducers (tasks : List TaskDesc) (event : UInt32) : Nat :=
  tasks.countP fun task => task.triggerEvent = event

/-- `_event_joins_tasks` -/
def eventJoinsTasks (cfg : RuntimeConfig) (queued tasks : List TaskDesc) :
    Except ConfigError Bool :=
  match tasks with
  | [] => .error .index
  | first :: _ =>
    if numProducers queued first.triggerEvent = tasks.length then
      (cfg.numTriggers first.triggerEvent).map fun count =>
        count.toInt = (tasks.length : Int) && tasks.all fun task => task.triggerEvent = first.triggerEvent
    else .ok false

/-- `tasks[0].trigger_event` -/
def eventOf : List TaskDesc → Except ConfigError UInt32
  | [] => .error .index
  | first :: _ => .ok first.triggerEvent

def followsChain (acts gates swiglu : List TaskDesc) : Except ConfigError Bool := do
  let actEvent ← eventOf acts
  let swigluEvent ← eventOf swiglu
  return (swiglu.all fun task => task.dependentEvent = actEvent && output task = swigluGrad) &&
    gates.all fun task => task.dependentEvent = swigluEvent

/-- `_expert_dependency_chain` -/
def expertDependencyChain (cfg : RuntimeConfig) (acts gates swiglu : List TaskDesc)
    (numCores : Nat) (queued : List TaskDesc) : Except ConfigError Bool :=
  if acts.length ≠ numCores ∨ gates.length ≠ numCores ∨ swiglu = [] then .ok false
  else do
    let actsJoined ← eventJoinsTasks cfg queued acts
    if actsJoined then
      let swigluJoined ← eventJoinsTasks cfg queued swiglu
      if swigluJoined then followsChain acts gates swiglu else return false
    else return false

def groupCubeTasks (cubeTasks : List TaskDesc) (numCores : Nat) : Except ConfigError Unit :=
  cubeTasks.forM fun task => (floorDiv task.taskIndex.toNat numCores).map fun _ => ()

/-- One task of the loop that groups the vector tasks; `false` leaves the function. -/
def swigluPartitioned (numExperts : Nat) (task : TaskDesc) : Except ConfigError Bool :=
  if ¬task.hasType .swiGluGrad then .ok true
  else if task.taskSplitNum.toNat < numExperts then .ok false
  else do
    let perExpert ← floorDiv task.taskSplitNum.toNat numExperts
    if task.taskSplitNum.toNat % numExperts ≠ 0 then return false
    let _ ← floorDiv task.taskIndex.toNat perExpert
    return true

/-- `_expert_events_join_readers` -/
def expertEventsJoinReaders (cfg : RuntimeConfig) (cubeTasks vectorTasks : List TaskDesc)
    (numExperts numCores : Nat) : Except ConfigError Bool := do
  groupCubeTasks cubeTasks numCores
  if ← vectorTasks.allM (swigluPartitioned numExperts) then
    (List.range numExperts).allM fun expert =>
      expertDependencyChain cfg
        (cubeTasksOf cubeTasks numCores activationGrad expert)
        (cubeTasksOf cubeTasks numCores inputGrad expert)
        (swigluTasksOf vectorTasks numExperts expert) numCores (cubeTasks ++ vectorTasks)
  else return false

/-- `any(task.inputs[index].input_position == _DISPATCH ...)` -/
def readsDispatch (task : TaskDesc) : Except ConfigError Bool :=
  (List.range task.numInputs.toNat).anyM fun index =>
    match task.inputs.toList[index]? with
    | some input => .ok (input.inputPosition.toNat = dispatch)
    | none => .error .index

def knownReader (task : TaskDesc) : Except ConfigError Bool :=
  (readsDispatch task).map fun reads =>
    !(reads && (¬task.hasType .groupedMatmul ||
      ¬(output task = weight2Grad || output task = activationGrad)))

/-- `can_reuse_backward_dispatch` -/
def canReuseBackwardDispatch (cfg : RuntimeConfig) (numExperts numCores : Nat) :
    Except ConfigError Bool :=
  if cfg.taskIndexNum.get 2 ≠ 0 then .ok false
  else do
    let cubeTasks ← cfg.queuedTasks cfg.cubeTaskIndices (cfg.taskIndexNum.get 0)
    let vectorTasks ← cfg.queuedTasks cfg.vectorTaskIndices (cfg.taskIndexNum.get 1)
    if ← (cubeTasks ++ vectorTasks).allM knownReader then
      if workerReadOrder cubeTasks numExperts numCores then
        expertEventsJoinReaders cfg cubeTasks vectorTasks numExperts numCores
      else return false
    else return false

/-! ### What the worker order says -/

variable {numCores numExperts : Nat} {tasks : List TaskDesc}

variable {locations result : Locations}

theorem locate_cons {index : Nat} {task : TaskDesc}
    (h : locate numCores index locations (task :: tasks) = some result) :
    (isGradOutput task = false ∧ locate numCores (index + 1) locations tasks = some result) ∨
    (isGradOutput task = true ∧ task.hasType .groupedMatmul ∧
      locations.get? (output task, expertOf numCores task) = none ∧
      locate numCores (index + 1)
        (locations.set (output task, expertOf numCores task) index) tasks = some result) := by
  unfold locate at h
  split at h
  · rename_i hgrad
    split at h
    · cases h
    · rename_i hnew
      have hnew : locations.contains (output task, expertOf numCores task) = false ∧
          task.hasType .groupedMatmul := by simpa using hnew
      apply Or.inr
      refine ⟨hgrad, hnew.2, ?_, h⟩
      simpa [PyDict.contains] using hnew.1
  · rename_i hgrad
    exact Or.inl ⟨by simpa using hgrad, h⟩

theorem locate_keeps {index : Nat} {key : Nat × Nat} {value : Nat}
    (h : locate numCores index locations tasks = some result)
    (hkey : locations.get? key = some value) : result.get? key = some value := by
  induction tasks generalizing index locations with
  | nil =>
    cases h
    exact hkey
  | cons task rest ih =>
    rcases locate_cons h with ⟨-, hrest⟩ | ⟨-, -, hnone, hrest⟩
    · exact ih hrest hkey
    · apply ih hrest
      rw [PyDict.get?_set_of_ne _ _ ?_]
      · exact hkey
      · rintro rfl
        rw [hnone] at hkey
        cases hkey

theorem locate_found {index i : Nat} {task : TaskDesc}
    (h : locate numCores index locations tasks = some result) (hentry : tasks[i]? = some task)
    (hgrad : isGradOutput task = true) :
    task.hasType .groupedMatmul ∧
      result.get? (output task, expertOf numCores task) = some (index + i) := by
  induction tasks generalizing index i locations with
  | nil => cases hentry
  | cons head rest ih =>
    rcases locate_cons h with ⟨hskip, hrest⟩ | ⟨-, htype, -, hrest⟩
    · cases i with
      | zero =>
        cases hentry
        rw [hskip] at hgrad
        cases hgrad
      | succ i =>
        rw [show index + (i + 1) = index + 1 + i by omega]
        exact ih hrest hentry
    · cases i with
      | zero =>
        cases hentry
        exact ⟨htype, locate_keeps hrest (PyDict.get?_set_self ..)⟩
      | succ i =>
        rw [show index + (i + 1) = index + 1 + i by omega]
        exact ih hrest hentry

theorem locate_get {index value : Nat} {key : Nat × Nat}
    (h : locate numCores index locations tasks = some result)
    (hvalue : result.get? key = some value) :
    locations.get? key = some value ∨
      ∃ i task, tasks[i]? = some task ∧ (output task, expertOf numCores task) = key ∧
        value = index + i := by
  induction tasks generalizing index locations with
  | nil =>
    cases h
    exact Or.inl hvalue
  | cons task rest ih =>
    have hlift : (∃ i t, rest[i]? = some t ∧ (output t, expertOf numCores t) = key ∧
          value = index + 1 + i) →
        ∃ i t, (task :: rest)[i]? = some t ∧ (output t, expertOf numCores t) = key ∧
          value = index + i := by
      rintro ⟨i, t, ht, hk, hv⟩
      exact ⟨i + 1, t, ht, hk, by omega⟩
    rcases locate_cons h with ⟨-, hrest⟩ | ⟨-, -, -, hrest⟩
    · exact (ih hrest).imp_right hlift
    · rcases ih hrest with hold | hnew
      · rw [PyDict.get?_set] at hold
        split at hold
        · rename_i hk
          cases hold
          exact Or.inr ⟨0, task, rfl, hk.symm, by simp⟩
        · exact Or.inl hold
      · exact Or.inr (hlift hnew)

structure ReadOrder (queue : List TaskDesc) (numExperts numCores : Nat) : Prop where
  grouped : ∀ task ∈ queue, isGradOutput task = true → task.hasType .groupedMatmul
  expert_lt : ∀ task ∈ queue, isGradOutput task = true → expertOf numCores task < numExperts
  before : ∀ (i j : Nat) (a b : TaskDesc), queue[i]? = some a → queue[j]? = some b →
    output a = weight2Grad → output b = activationGrad →
    expertOf numCores a = expertOf numCores b → i < j
  activation : ∀ expert < numExperts, ∃ (j : Nat) (b : TaskDesc), queue[j]? = some b ∧
    output b = activationGrad ∧ expertOf numCores b = expert

theorem location_nonneg {out expert : Nat} (h : 0 ≤ location locations out expert) :
    ∃ index : Nat, locations.get? (out, expert) = some index ∧
      location locations out expert = index := by
  unfold location at h ⊢
  cases hget : locations.get? (out, expert) with
  | none =>
    rw [hget] at h
    exact absurd h (by decide)
  | some index => exact ⟨index, rfl, rfl⟩

def expectedKeys (numExperts : Nat) : Finset (Nat × Nat) :=
  {weight2Grad, activationGrad, inputGrad} ×ˢ Finset.range numExperts

theorem card_expectedKeys (numExperts : Nat) : (expectedKeys numExperts).card = 3 * numExperts := by
  rw [expectedKeys, Finset.card_product, Finset.card_range]
  rfl

theorem keys_eq_expectedKeys (hlength : locations.entries.length = 3 * numExperts)
    (hkeys : ∀ key ∈ expectedKeys numExperts, key ∈ locations.keys) :
    locations.keys.toFinset = expectedKeys numExperts := by
  apply (Finset.eq_of_subset_of_card_le _ _).symm
  · intro key hkey
    exact mem_toFinset.mpr (hkeys key hkey)
  · rw [toFinset_card_of_nodup locations.keys_nodup, card_expectedKeys, PyDict.keys,
      length_map, hlength]

theorem ReadOrder.of_check (h : readOrderOf tasks numExperts numCores = true) :
    ReadOrder tasks numExperts numCores := by
  unfold readOrderOf at h
  split at h
  · cases h
  · rename_i locations hlocate
    simp only [Bool.and_eq_true, decide_eq_true_eq, all_eq_true, mem_range] at h
    obtain ⟨hlength, horder⟩ := h
    have hfound : ∀ expert < numExperts, ∃ w2 act dx : Nat,
        locations.get? (weight2Grad, expert) = some w2 ∧
        locations.get? (activationGrad, expert) = some act ∧
        locations.get? (inputGrad, expert) = some dx ∧ w2 < act := by
      intro expert hexpert
      obtain ⟨⟨hw2, hact⟩, hdx⟩ := horder expert hexpert
      obtain ⟨w2, hgetw2, hlocw2⟩ := location_nonneg hw2
      obtain ⟨act, hgetact, hlocact⟩ := location_nonneg (hw2.trans hact.le)
      obtain ⟨dx, hgetdx, -⟩ := location_nonneg ((hw2.trans hact.le).trans hdx.le)
      exact ⟨w2, act, dx, hgetw2, hgetact, hgetdx, by omega⟩
    have hkeys : locations.keys.toFinset = expectedKeys numExperts := by
      apply keys_eq_expectedKeys hlength
      rintro ⟨out, expert⟩ hkey
      obtain ⟨hout, hexpert⟩ := Finset.mem_product.mp hkey
      obtain ⟨w2, act, dx, hgetw2, hgetact, hgetdx, -⟩ :=
        hfound expert (Finset.mem_range.mp hexpert)
      have hout : out = weight2Grad ∨ out = activationGrad ∨ out = inputGrad := by simpa using hout
      rcases hout with rfl | rfl | rfl
      · exact locations.mem_keys_iff.mpr ⟨w2, hgetw2⟩
      · exact locations.mem_keys_iff.mpr ⟨act, hgetact⟩
      · exact locations.mem_keys_iff.mpr ⟨dx, hgetdx⟩
    have hlt : ∀ task ∈ tasks, isGradOutput task = true → expertOf numCores task < numExperts := by
      intro task htask hgrad
      obtain ⟨i, hi⟩ := mem_iff_getElem?.mp htask
      have hmem := locations.mem_keys_iff.mpr ⟨_, (locate_found hlocate hi hgrad).2⟩
      rw [← mem_toFinset, hkeys] at hmem
      exact Finset.mem_range.mp (Finset.mem_product.mp hmem).2
    constructor
    case grouped =>
      intro task htask hgrad
      obtain ⟨i, hi⟩ := mem_iff_getElem?.mp htask
      exact (locate_found hlocate hi hgrad).1
    case expert_lt => exact hlt
    case before =>
      intro i j a b ha hb houta houtb hexpert
      have hgrada : isGradOutput a = true := by simp [isGradOutput, houta]
      have hgradb : isGradOutput b = true := by simp [isGradOutput, houtb]
      obtain ⟨w2, act, dx, hgetw2, hgetact, -, hlt'⟩ := hfound _ (hlt b (mem_of_getElem? hb) hgradb)
      have hi := (locate_found hlocate ha hgrada).2
      have hj := (locate_found hlocate hb hgradb).2
      rw [houta, hexpert, hgetw2] at hi
      rw [houtb, hgetact] at hj
      simp only [Option.some.injEq] at hi hj
      omega
    case activation =>
      intro expert hexpert
      obtain ⟨w2, act, dx, -, hgetact, -, -⟩ := hfound expert hexpert
      rcases locate_get hlocate hgetact with hempty | ⟨j, b, hb, hkey, -⟩
      · cases hempty
      · simp only [Prod.mk.injEq] at hkey
        exact ⟨j, b, hb, hkey.1, hkey.2⟩

theorem readOrder_of_workerReadOrder (h : workerReadOrder tasks numExperts numCores = true)
    (worker : Fin numCores) :
    ReadOrder (strided worker numCores tasks) numExperts numCores :=
  ReadOrder.of_check (List.all_eq_true.mp h worker (List.mem_range.mpr worker.isLt))

end BackwardStorage

end HyperParallel.Multicore
