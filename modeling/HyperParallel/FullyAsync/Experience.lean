import HyperParallel.Foundation.PyDict
import HyperParallel.Foundation.PySequence

/-!
# Sample groups and the experience buffer

A task reserves a place in the buffer and is bound to the version committed then;
the group it comes back as carries the version of every segment it ran under.
-/

namespace HyperParallel.FullyAsync

open Foundation List

/-- The capacities of the validated configuration; `required` is the global batch. -/
structure Settings where
  maxInflightGroups : Nat
  maxBufferGroups : Nat
  maxPolicyLagUpdates : Nat
  publishEveryUpdates : Nat
  required : Nat
  candidates : Nat
  maxCandidateRetries : Nat
  maxSteps : Nat
  inflight_le : maxInflightGroups ≤ maxBufferGroups
  required_pos : 0 < required
  candidates_pos : 0 < candidates

structure SamplingTask where
  identity : Nat
  policyVersion : Int
  sourceUpdate : Int
  deriving DecidableEq, Repr

structure Segment where
  start : Int
  stop : Int
  policyVersion : Int
  sourceUpdate : Int
  deriving DecidableEq, Repr

structure Row where
  segments : Option (List Segment)
  actions : Int
  policyVersion : Int
  workerPolicyVersion : Int
  deriving DecidableEq, Repr

def behaviorSegments (row : Row) (task : SamplingTask) : List Segment :=
  row.segments.getD [⟨0, row.actions, task.policyVersion, task.sourceUpdate⟩]

/-- The loop of `validate_behavior`: the end and the version reached so far. -/
def followSegments : Int × Int → List Segment → Option (Int × Int)
  | state, [] => some state
  | (stop, previous), segment :: rest =>
    if 0 ≤ segment.start ∧ 0 ≤ segment.policyVersion ∧ 0 ≤ segment.sourceUpdate ∧
        segment.start = stop ∧ stop < segment.stop ∧ previous ≤ segment.policyVersion ∧
        segment.policyVersion = segment.sourceUpdate + 1 then
      followSegments (segment.stop, segment.policyVersion) rest
    else none

def validateBehavior (row : Row) (task : SamplingTask) : Bool :=
  match followSegments (0, task.policyVersion) (behaviorSegments row task) with
  | some (stop, previous) =>
    !(behaviorSegments row task).isEmpty && decide (stop = row.actions) &&
      decide (row.policyVersion = row.workerPolicyVersion) &&
      decide (row.workerPolicyVersion = previous)
  | none => false

structure SampleGroup where
  task : SamplingTask
  episodes : List (List Row)
  deriving DecidableEq, Repr

namespace SampleGroup

def rows (group : SampleGroup) : List Row := group.episodes.flatten

def sourceUpdates (group : SampleGroup) : List Int :=
  group.rows.flatMap fun row => (behaviorSegments row group.task).map Segment.sourceUpdate

def validate (group : SampleGroup) (candidates : Nat) : Bool :=
  decide (0 ≤ group.task.sourceUpdate) &&
    decide (group.task.policyVersion = group.task.sourceUpdate + 1) &&
    decide (group.episodes.length = candidates) &&
    group.episodes.all (fun episode => !episode.isEmpty &&
      decide ((episode.map Row.policyVersion).Pairwise (· ≤ ·))) &&
    group.rows.all fun row => validateBehavior row group.task

end SampleGroup

inductive BufferError where
  | invalidGroup
  | unreserved
  | unreservedFailure
  | uncommitted
  | future
  | noBatch
  | nothingSelected
  | notDrained
  deriving DecidableEq, Repr

structure ExperienceBuffer where
  nextIdentity : Nat := 0
  consumedGroups : Nat := 0
  droppedGroups : Nat := 0
  reserved : PyDict Nat SamplingTask := .empty
  ready : PyDict Nat SampleGroup := .empty
  selected : List Nat := []

structure BufferState where
  nextIdentity : Nat
  ready : List SampleGroup
  consumedGroups : Nat
  droppedGroups : Nat

namespace ExperienceBuffer

def reserve (settings : Settings) (buffer : ExperienceBuffer) (version sourceUpdate : Int) :
    Option (SamplingTask × ExperienceBuffer) :=
  let occupied := buffer.reserved.entries.length + buffer.ready.entries.length
  if settings.maxBufferGroups ≤ occupied ∨
      settings.maxInflightGroups ≤ buffer.reserved.entries.length then none
  else
    let task := ⟨buffer.nextIdentity, version, sourceUpdate⟩
    some (task, { buffer with
      nextIdentity := buffer.nextIdentity + 1
      reserved := buffer.reserved.set task.identity task })

def accept (settings : Settings) (buffer : ExperienceBuffer) (group : SampleGroup) :
    Except BufferError ExperienceBuffer :=
  if group.validate settings.candidates = false then .error .invalidGroup
  else if buffer.reserved.get? group.task.identity ≠ some group.task then .error .unreserved
  else .ok { buffer with
    reserved := buffer.reserved.erase group.task.identity
    ready := buffer.ready.set group.task.identity group }

def discard (buffer : ExperienceBuffer) (task : SamplingTask) :
    Except BufferError ExperienceBuffer :=
  if buffer.reserved.get? task.identity ≠ some task then .error .unreservedFailure
  else .ok { buffer with
    reserved := buffer.reserved.erase task.identity
    droppedGroups := buffer.droppedGroups + 1 }

def ages (update : Int) (group : SampleGroup) : List Int :=
  group.sourceUpdates.map fun source => update - source

def stale (settings : Settings) (update : Int) (group : SampleGroup) : Bool :=
  (ages update group).any fun age => decide ((settings.maxPolicyLagUpdates : Int) < age)

/-- A group without segments has no smallest age either. -/
def evictStale (settings : Settings) (buffer : ExperienceBuffer) (update : Int) :
    Except BufferError ExperienceBuffer :=
  if buffer.selected ≠ [] then .error .uncommitted
  else if buffer.ready.values.any fun group =>
      (ages update group).isEmpty || (ages update group).any fun age => decide (age < 0) then
    .error .future
  else
    let evicted := (buffer.ready.entries.filter fun entry => stale settings update entry.2).map
      Prod.fst
    .ok { buffer with
      ready := evicted.foldl PyDict.erase buffer.ready
      droppedGroups := buffer.droppedGroups + evicted.length }

def select (buffer : ExperienceBuffer) (count : Nat) : Except BufferError ExperienceBuffer :=
  if buffer.selected ≠ [] ∨ buffer.ready.entries.length < count then .error .noBatch
  else .ok { buffer with selected := buffer.ready.keys.take count }

def commit (buffer : ExperienceBuffer) : Except BufferError ExperienceBuffer :=
  if buffer.selected = [] then .error .nothingSelected
  else .ok { buffer with
    ready := buffer.selected.foldl PyDict.erase buffer.ready
    consumedGroups := buffer.consumedGroups + buffer.selected.length
    selected := [] }

def stateDict (buffer : ExperienceBuffer) : Except BufferError BufferState :=
  if buffer.reserved.entries ≠ [] ∨ buffer.selected ≠ [] then .error .notDrained
  else .ok {
    nextIdentity := buffer.nextIdentity
    ready := buffer.ready.values
    consumedGroups := buffer.consumedGroups
    droppedGroups := buffer.droppedGroups }

/-- Restoring into an empty buffer; `none` where the snapshot is refused. -/
def loadStateDict (settings : Settings) (state : BufferState) : Option ExperienceBuffer :=
  if state.ready.all (fun group => group.validate settings.candidates &&
        decide (group.task.identity < state.nextIdentity)) ∧
      (state.ready.map fun group => group.task.identity).Nodup ∧
      state.ready.length ≤ settings.maxBufferGroups ∧
      state.nextIdentity = state.consumedGroups + state.droppedGroups + state.ready.length then
    some {
      nextIdentity := state.nextIdentity
      consumedGroups := state.consumedGroups
      droppedGroups := state.droppedGroups
      ready := state.ready.foldl (fun ready group => ready.set group.task.identity group) .empty }
  else none

/-! ### What the operations do -/

section Operations

variable {settings : Settings} {buffer buffer' : ExperienceBuffer}

theorem accept_eq_ok {group : SampleGroup} (hvalid : group.validate settings.candidates = true)
    (hreserved : buffer.reserved.get? group.task.identity = some group.task) :
    buffer.accept settings group = .ok { buffer with
      reserved := buffer.reserved.erase group.task.identity
      ready := buffer.ready.set group.task.identity group } := by
  simp [accept, hvalid, hreserved]

theorem discard_eq_ok {task : SamplingTask}
    (hreserved : buffer.reserved.get? task.identity = some task) :
    buffer.discard task = .ok { buffer with
      reserved := buffer.reserved.erase task.identity
      droppedGroups := buffer.droppedGroups + 1 } := by
  simp [discard, hreserved]

theorem entries_evicted (d : PyDict Nat SampleGroup) (selects : Nat × SampleGroup → Bool) :
    (((d.entries.filter selects).map Prod.fst).foldl PyDict.erase d).entries
      = d.entries.filter fun entry => !selects entry := by
  rw [PyDict.entries_foldl_erase]
  apply filter_congr
  intro entry hentry
  -- the key of an entry belongs to no other entry
  have hiff : entry.1 ∈ (d.entries.filter selects).map Prod.fst ↔ selects entry = true := by
    constructor
    · intro hmem
      obtain ⟨other, hother, hkey⟩ := mem_map.mp hmem
      obtain ⟨hother, hselects⟩ := mem_filter.mp hother
      have heq : other.2 = entry.2 := by
        have hfirst := (d.mem_entries_iff (k := other.1) (v := other.2)).mp hother
        have hsecond := (d.mem_entries_iff (k := entry.1) (v := entry.2)).mp hentry
        rw [hkey, hsecond] at hfirst
        exact (Option.some.inj hfirst).symm
      have hsame : other = entry := Prod.ext hkey heq
      exact hsame ▸ hselects
    · exact fun hselects => mem_map.mpr ⟨entry, mem_filter.mpr ⟨hentry, hselects⟩, rfl⟩
  cases hselects : selects entry <;> simp [hiff, hselects]

theorem evictStale_eq_ok {update : Int} (hselected : buffer.selected = [])
    (hages : ∀ group ∈ buffer.ready.values, group.sourceUpdates ≠ [] ∧
      ∀ source ∈ group.sourceUpdates, source ≤ update) :
    ∃ evicted, buffer.evictStale settings update = .ok evicted ∧
      evicted.ready.entries = buffer.ready.entries.filter
        (fun entry => !stale settings update entry.2) ∧
      evicted.reserved = buffer.reserved ∧ evicted.selected = [] ∧
      evicted.nextIdentity = buffer.nextIdentity := by
  have hnone : (buffer.ready.values.any fun group => (ages update group).isEmpty ||
      (ages update group).any fun age => decide (age < 0)) = false := by
    rw [any_eq_false]
    intro group hgroup
    obtain ⟨hne, hle⟩ := hages group hgroup
    have hcurrent : ∀ source ∈ group.sourceUpdates, ¬update - source < 0 := by
      intro source hsource
      have := hle source hsource
      omega
    simpa [ages, hne] using hcurrent
  let evicted := (buffer.ready.entries.filter fun entry => stale settings update entry.2).map
    Prod.fst
  have hok : buffer.evictStale settings update = .ok { buffer with
      ready := evicted.foldl PyDict.erase buffer.ready
      droppedGroups := buffer.droppedGroups + evicted.length } := by
    unfold evictStale
    rw [if_neg (by simp [hselected]), if_neg (by simp [hnone])]
  exact ⟨_, hok, entries_evicted buffer.ready fun entry => stale settings update entry.2,
    rfl, hselected, rfl⟩

theorem le_of_not_stale {update : Int} {group : SampleGroup}
    (h : stale settings update group = false) :
    ∀ source ∈ group.sourceUpdates, update - settings.maxPolicyLagUpdates ≤ source := by
  intro source hsource
  rw [stale, any_eq_false] at h
  have hage := h (update - source) (mem_map_of_mem hsource)
  simp only [decide_eq_true_eq] at hage
  omega

theorem select_eq_ok {count : Nat} (hselected : buffer.selected = [])
    (hcount : count ≤ buffer.ready.entries.length) :
    buffer.select count = .ok { buffer with selected := buffer.ready.keys.take count } := by
  simp [select, hselected, hcount]

theorem stateDict_eq_ok (hreserved : buffer.reserved.entries = [])
    (hselected : buffer.selected = []) : buffer.stateDict = .ok {
      nextIdentity := buffer.nextIdentity
      ready := buffer.ready.values
      consumedGroups := buffer.consumedGroups
      droppedGroups := buffer.droppedGroups } := by
  simp [stateDict, hreserved, hselected]

end Operations

end ExperienceBuffer

/-! ### Groups that validate -/

theorem behaviorSegments_ne_nil {row : Row} {task : SamplingTask}
    (h : validateBehavior row task = true) : behaviorSegments row task ≠ [] := by
  unfold validateBehavior at h
  split at h
  · intro hempty
    simp [hempty] at h
  · cases h

theorem SampleGroup.sourceUpdates_ne_nil {settings : Settings} {group : SampleGroup}
    (h : group.validate settings.candidates = true) : group.sourceUpdates ≠ [] := by
  simp only [validate, Bool.and_eq_true, decide_eq_true_eq, all_eq_true] at h
  obtain ⟨⟨⟨-, hlength⟩, hepisodes⟩, hrows⟩ := h
  obtain ⟨episode, hepisode⟩ : ∃ episode, episode ∈ group.episodes := by
    apply exists_mem_of_length_pos
    have := settings.candidates_pos
    omega
  obtain ⟨row, hrow⟩ : ∃ row, row ∈ episode := by
    apply exists_mem_of_ne_nil
    intro hempty
    simpa [hempty] using (hepisodes episode hepisode).1
  have hmem : row ∈ group.rows := mem_flatten.mpr ⟨episode, hepisode, hrow⟩
  obtain ⟨segment, hsegment⟩ := exists_mem_of_ne_nil _ (behaviorSegments_ne_nil (hrows row hmem))
  apply ne_nil_of_mem
  exact mem_flatMap.mpr ⟨row, hmem, mem_map_of_mem hsegment⟩

end HyperParallel.FullyAsync
