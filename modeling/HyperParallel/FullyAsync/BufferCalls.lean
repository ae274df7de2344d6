import HyperParallel.FullyAsync.Experience
import Mathlib.Algebra.Order.Group.Int
import Mathlib.Algebra.Order.Group.Nat
import Mathlib.Data.List.Perm.Basic

/-!
# Calls on the experience buffer

A call that raises may do so after part of its work; what it leaves behind is part of
its result.  A payload is read anew wherever the code decodes it, and `none` stands for
bytes that do not decode to a group.
-/

namespace HyperParallel.FullyAsync

open Foundation List

inductive CallError where
  | refused (error : BufferError)
  | missing (identity : Nat)
  | counters
  deriving DecidableEq, Repr

/-- What `load_state_dict` is given: any payloads and any integers. -/
structure Snapshot where
  nextIdentity : Int
  ready : List (Option SampleGroup)
  consumedGroups : Int
  droppedGroups : Int

inductive BufferCall where
  | reserve (version sourceUpdate : Int)
  | accept (payload : Option SampleGroup)
  | discard (task : SamplingTask)
  | evictStale (update : Int)
  | select (count : Int)
  | commit
  | stateDict
  | loadStateDict (state : Snapshot)

namespace ExperienceBuffer

def decodeGroup (settings : Settings) : Option SampleGroup → Except CallError SampleGroup
  | none => .error (.refused .invalidGroup)
  | some group =>
    if group.validate settings.candidates = false then .error (.refused .invalidGroup)
    else .ok group

/-- `del ready[identity]` for each identity in turn. -/
def deleteEach : List Nat → PyDict Nat SampleGroup → Except CallError Unit × PyDict Nat SampleGroup
  | [], ready => (.ok (), ready)
  | identity :: rest, ready =>
    if ready.contains identity then deleteEach rest (ready.erase identity)
    else (.error (.missing identity), ready)

/-- Where `ready[:count]` ends. -/
def sliceStop (length : Nat) (count : Int) : Nat :=
  if count < 0 then (length + count).toNat else count.toNat

def ageEntry (settings : Settings) (update : Int) (entry : Nat × SampleGroup) :
    Except CallError (Nat × Bool) := do
  let group ← decodeGroup settings (some entry.2)
  if (ages update group).isEmpty || (ages update group).any (fun age => decide (age < 0)) then
    throw (.refused .future)
  pure (entry.1, stale settings update group)

def restoreReady (settings : Settings) (nextIdentity : Int) :
    List (Option SampleGroup) → PyDict Nat SampleGroup → Except CallError (PyDict Nat SampleGroup)
  | [], ready => .ok ready
  | payload :: rest, ready =>
    match decodeGroup settings payload with
    | .error error => .error error
    | .ok group =>
      if ready.contains group.task.identity ∨ nextIdentity ≤ group.task.identity then
        .error (.refused .invalidGroup)
      else restoreReady settings nextIdentity rest (ready.set group.task.identity group)

/-- `load_state_dict`: everything is checked before the first assignment. -/
def restore (settings : Settings) (buffer : ExperienceBuffer) (state : Snapshot) :
    Except CallError Unit × ExperienceBuffer :=
  if buffer.reserved.entries ≠ [] ∨ buffer.ready.entries ≠ [] ∨ buffer.selected ≠ [] then
    (.error (.refused .notDrained), buffer)
  else
    match restoreReady settings state.nextIdentity state.ready .empty with
    | .error error => (.error error, buffer)
    | .ok ready =>
      if state.nextIdentity < 0 ∨ state.consumedGroups < 0 ∨ state.droppedGroups < 0 then
        (.error .counters, buffer)
      else if settings.maxBufferGroups < ready.entries.length ∨
          state.nextIdentity ≠ state.consumedGroups + state.droppedGroups + ready.entries.length
      then (.error .counters, buffer)
      else (.ok (), { buffer with
        nextIdentity := state.nextIdentity.toNat
        ready := ready
        consumedGroups := state.consumedGroups.toNat
        droppedGroups := state.droppedGroups.toNat })

/-- A call and the buffer it leaves, also where it raises. -/
def perform (settings : Settings) (buffer : ExperienceBuffer) :
    BufferCall → Except CallError Unit × ExperienceBuffer
  | .reserve version sourceUpdate =>
    match buffer.reserve settings version sourceUpdate with
    | none => (.ok (), buffer)
    | some (_, reserved) => (.ok (), reserved)
  | .accept payload =>
    match decodeGroup settings payload with
    | .error error => (.error error, buffer)
    | .ok group =>
      match buffer.accept settings group with
      | .error error => (.error (.refused error), buffer)
      | .ok accepted => (.ok (), accepted)
  | .discard task =>
    match buffer.discard task with
    | .error error => (.error (.refused error), buffer)
    | .ok discarded => (.ok (), discarded)
  | .evictStale update =>
    if buffer.selected ≠ [] then (.error (.refused .uncommitted), buffer)
    else
      match buffer.ready.entries.mapM (ageEntry settings update) with
      | .error error => (.error error, buffer)
      | .ok aged =>
        let evicted := (aged.filter Prod.snd).map Prod.fst
        match deleteEach evicted buffer.ready with
        | (.error error, ready) => (.error error, { buffer with ready := ready })
        | (.ok _, ready) => (.ok (), { buffer with
            ready := ready
            droppedGroups := buffer.droppedGroups + evicted.length })
  | .select count =>
    if buffer.selected ≠ [] ∨ (buffer.ready.entries.length : Int) < count then
      (.error (.refused .noBatch), buffer)
    else
      -- the lease is taken before the payloads are decoded
      let leased := { buffer with
        selected := buffer.ready.keys.take (sliceStop buffer.ready.entries.length count) }
      match leased.selected.mapM fun identity =>
          decodeGroup settings (leased.ready.get? identity) with
      | .error error => (.error error, leased)
      | .ok _ => (.ok (), leased)
  | .commit =>
    if buffer.selected = [] then (.error (.refused .nothingSelected), buffer)
    else
      match deleteEach buffer.selected buffer.ready with
      | (.error error, ready) => (.error error, { buffer with ready := ready })
      | (.ok _, ready) => (.ok (), { buffer with
          ready := ready
          consumedGroups := buffer.consumedGroups + buffer.selected.length
          selected := [] })
  | .stateDict =>
    match buffer.stateDict with
    | .error error => (.error (.refused error), buffer)
    | .ok _ => (.ok (), buffer)
  | .loadStateDict state => buffer.restore settings state

/-! ### What a call does to a buffer in order -/

variable {settings : Settings}

/-- The account of a buffer: every identity given out is consumed, dropped, ready or reserved, and
the capacities hold. -/
structure Conserved (settings : Settings) (buffer : ExperienceBuffer) : Prop where
  counted : buffer.nextIdentity = buffer.consumedGroups + buffer.droppedGroups +
    buffer.ready.entries.length + buffer.reserved.entries.length
  disjoint : ∀ identity ∈ buffer.ready.keys, identity ∉ buffer.reserved.keys
  below : ∀ identity, identity ∈ buffer.ready.keys ∨ identity ∈ buffer.reserved.keys →
    identity < buffer.nextIdentity
  capacity : buffer.ready.entries.length + buffer.reserved.entries.length ≤ settings.maxBufferGroups
  inflight : buffer.reserved.entries.length ≤ settings.maxInflightGroups
  leased : ∀ identity ∈ buffer.selected, identity ∈ buffer.ready.keys

def Filed (settings : Settings) (ready : PyDict Nat SampleGroup) : Prop :=
  ∀ identity group, ready.get? identity = some group →
    group.validate settings.candidates = true ∧ group.task.identity = identity

structure Invariant (settings : Settings) (buffer : ExperienceBuffer) : Prop
    extends Conserved settings buffer where
  filed : Filed settings buffer.ready
  distinct : buffer.selected.Nodup

variable {group : SampleGroup}

theorem decodeGroup_eq_ok {payload : Option SampleGroup}
    (h : decodeGroup settings payload = .ok group) :
    payload = some group ∧ group.validate settings.candidates = true := by
  cases payload with
  | none => cases h
  | some read =>
    simp only [decodeGroup] at h
    split at h
    · cases h
    · rename_i hvalid
      cases h
      exact ⟨rfl, by simpa using hvalid⟩

theorem decodeGroup_of_validate
    (h : group.validate settings.candidates = true) :
    decodeGroup settings (some group) = .ok group := by
  simp [decodeGroup, h]

theorem deleteEach_eq_ok {ready : PyDict Nat SampleGroup} {identities : List Nat}
    (hnodup : identities.Nodup) (hmem : ∀ identity ∈ identities, identity ∈ ready.keys) :
    deleteEach identities ready = (.ok (), identities.foldl PyDict.erase ready) := by
  induction identities generalizing ready with
  | nil => rfl
  | cons identity rest ih =>
    obtain ⟨hnew, hrest⟩ := nodup_cons.mp hnodup
    have hcontains : ready.contains identity = true := by
      obtain ⟨group, hgroup⟩ := ready.mem_keys_iff.mp (hmem identity mem_cons_self)
      simp [PyDict.contains, hgroup]
    simp only [deleteEach, hcontains, if_true, foldl_cons]
    exact ih hrest fun other hother => ready.mem_keys_erase.mpr
      ⟨hmem other (mem_cons_of_mem _ hother), fun heq => hnew (heq ▸ hother)⟩

theorem ageEntry_fst {update : Int} {entry : Nat × SampleGroup} {aged : Nat × Bool}
    (h : ageEntry settings update entry = .ok aged) : aged.1 = entry.1 := by
  unfold ageEntry at h
  obtain ⟨group, -, h⟩ := bind_eq_ok h
  split at h
  · cases h
  · cases h
    rfl

theorem evicted_sublist {update : Int} {entries : List (Nat × SampleGroup)}
    {aged : List (Nat × Bool)} (h : entries.mapM (ageEntry settings update) = .ok aged) :
    ((aged.filter Prod.snd).map Prod.fst).Sublist (entries.map Prod.fst) := by
  have hkeys : aged.map Prod.fst = entries.map Prod.fst := by
    have hall := mapM_eq_ok_iff.mp h
    induction hall with
    | nil => rfl
    | cons hfirst _ ih => simp [ageEntry_fst hfirst, ih (mapM_eq_ok_iff.mpr ‹_›)]
  rw [← hkeys]
  exact filter_sublist.map Prod.fst

theorem Filed.set {ready : PyDict Nat SampleGroup} (h : Filed settings ready)
    (hvalid : group.validate settings.candidates = true) :
    Filed settings (ready.set group.task.identity group) := by
  intro identity other hother
  rw [PyDict.get?_set] at hother
  split at hother
  · rename_i heq
    cases hother
    exact ⟨hvalid, heq.symm⟩
  · exact h identity other hother

theorem restoreReady_filed {nextIdentity : Int} {payloads : List (Option SampleGroup)}
    {before after : PyDict Nat SampleGroup}
    (h : restoreReady settings nextIdentity payloads before = .ok after)
    (hfiled : Filed settings before)
    (hbelow : ∀ identity ∈ before.keys, (identity : Int) < nextIdentity) :
    Filed settings after ∧ ∀ identity ∈ after.keys, (identity : Int) < nextIdentity := by
  induction payloads generalizing before with
  | nil =>
    cases h
    exact ⟨hfiled, hbelow⟩
  | cons payload rest ih =>
    unfold restoreReady at h
    cases hdecode : decodeGroup settings payload with
    | error error =>
      simp only [hdecode] at h
      cases h
    | ok group =>
      simp only [hdecode] at h
      split at h
      · cases h
      · rename_i hfresh
        push Not at hfresh
        refine ih h (hfiled.set (decodeGroup_eq_ok hdecode).2) fun identity hidentity => ?_
        rcases (PyDict.mem_keys_set _ _ _ _).mp hidentity with rfl | hold
        · exact hfresh.2
        · exact hbelow identity hold

theorem restoreReady_groups {nextIdentity : Int} {groups : List SampleGroup}
    {before : PyDict Nat SampleGroup}
    (hvalid : ∀ group ∈ groups, group.validate settings.candidates = true)
    (hbelow : ∀ group ∈ groups, (group.task.identity : Int) < nextIdentity)
    (hnodup : (before.keys ++ groups.map fun group => group.task.identity).Nodup) :
    ∃ after, restoreReady settings nextIdentity (groups.map some) before = .ok after ∧
      after.entries = before.entries ++ groups.map fun group => (group.task.identity, group) := by
  induction groups generalizing before with
  | nil => exact ⟨before, rfl, by simp⟩
  | cons group rest ih =>
    have hnew : group.task.identity ∉ before.keys := by
      intro hmem
      rw [nodup_append] at hnodup
      exact hnodup.2.2 _ hmem _ mem_cons_self rfl
    have hcontains : before.contains group.task.identity = false := by
      simp [PyDict.contains, PyDict.get?_eq_none_iff, hnew]
    have hentries := PyDict.entries_set_of_notMem before group hnew
    have hkeys : (before.set group.task.identity group).keys =
        before.keys ++ [group.task.identity] := by
      simp [PyDict.keys, hentries]
    obtain ⟨after, hafter, heq⟩ := @ih (before.set group.task.identity group)
      (fun other hother => hvalid other (mem_cons_of_mem _ hother))
      (fun other hother => hbelow other (mem_cons_of_mem _ hother))
      (by simpa [hkeys] using hnodup)
    refine ⟨after, ?_, by simp [heq, hentries]⟩
    have hlt := hbelow group mem_cons_self
    rw [map_cons, restoreReady, decodeGroup_of_validate (hvalid group mem_cons_self)]
    simpa [hcontains, not_le.mpr hlt] using hafter

/-- The ways a call goes in a buffer in order. -/
inductive Performed (settings : Settings) (buffer : ExperienceBuffer) :
    BufferCall → Except CallError Unit × ExperienceBuffer → Prop where
  | raised {call : BufferCall} (error : CallError) :
      Performed settings buffer call (.error error, buffer)
  | full {version sourceUpdate : Int} :
      Performed settings buffer (.reserve version sourceUpdate) (.ok (), buffer)
  | reserved {version sourceUpdate : Int}
      (room : buffer.reserved.entries.length + buffer.ready.entries.length <
        settings.maxBufferGroups)
      (inflight : buffer.reserved.entries.length < settings.maxInflightGroups) :
      Performed settings buffer (.reserve version sourceUpdate) (.ok (), { buffer with
        nextIdentity := buffer.nextIdentity + 1
        reserved := buffer.reserved.set buffer.nextIdentity
          ⟨buffer.nextIdentity, version, sourceUpdate⟩ })
  | accepted {group : SampleGroup} (valid : group.validate settings.candidates = true)
      (live : buffer.reserved.get? group.task.identity = some group.task) :
      Performed settings buffer (.accept (some group)) (.ok (), { buffer with
        reserved := buffer.reserved.erase group.task.identity
        ready := buffer.ready.set group.task.identity group })
  | discarded {task : SamplingTask} (live : buffer.reserved.get? task.identity = some task) :
      Performed settings buffer (.discard task) (.ok (), { buffer with
        reserved := buffer.reserved.erase task.identity
        droppedGroups := buffer.droppedGroups + 1 })
  | evicted {update : Int} {stale : List Nat} (free : buffer.selected = [])
      (sublist : stale.Sublist buffer.ready.keys) :
      Performed settings buffer (.evictStale update) (.ok (), { buffer with
        ready := stale.foldl PyDict.erase buffer.ready
        droppedGroups := buffer.droppedGroups + stale.length })
  | selected {count : Int} (stop : Nat) (free : buffer.selected = []) :
      Performed settings buffer (.select count) (.ok (), { buffer with
        selected := buffer.ready.keys.take stop })
  | committed (leased : buffer.selected ≠ []) :
      Performed settings buffer .commit (.ok (), { buffer with
        ready := buffer.selected.foldl PyDict.erase buffer.ready
        consumedGroups := buffer.consumedGroups + buffer.selected.length
        selected := [] })
  | exported : Performed settings buffer .stateDict (.ok (), buffer)
  | restored {state : Snapshot} {ready : PyDict Nat SampleGroup} {consumed dropped : Nat}
      (empty : buffer.reserved.entries = [] ∧ buffer.selected = [])
      (filed : Filed settings ready)
      (below : ∀ identity ∈ ready.keys, identity < consumed + dropped + ready.entries.length)
      (capacity : ready.entries.length ≤ settings.maxBufferGroups) :
      Performed settings buffer (.loadStateDict state) (.ok (), { buffer with
        nextIdentity := consumed + dropped + ready.entries.length
        ready := ready
        consumedGroups := consumed
        droppedGroups := dropped })

theorem restore_performed (buffer : ExperienceBuffer) (state : Snapshot) :
    Performed settings buffer (.loadStateDict state) (buffer.restore settings state) := by
  unfold restore
  split
  · exact .raised _
  · rename_i hempty
    push Not at hempty
    split
    · exact .raised _
    · rename_i ready hready
      split
      · exact .raised _
      · rename_i hsigns
        split
        · exact .raised _
        · rename_i hcounts
          push Not at hsigns hcounts
          obtain ⟨hfiled, hbelow⟩ := restoreReady_filed hready (fun _ _ h => by cases h)
            (fun _ h => by cases h)
          have hnext : state.nextIdentity.toNat = state.consumedGroups.toNat +
              state.droppedGroups.toNat + ready.entries.length := by omega
          rw [hnext]
          refine .restored ⟨hempty.1, hempty.2.2⟩ hfiled (fun identity hidentity => ?_) hcounts.1
          have := hbelow identity hidentity
          omega

theorem Invariant.performed {buffer : ExperienceBuffer} (h : Invariant settings buffer)
    (call : BufferCall) : Performed settings buffer call (buffer.perform settings call) := by
  cases call with
  | reserve version sourceUpdate =>
    simp only [perform, reserve]
    split
    · exact .full
    · rename_i hfull
      split at hfull
      · cases hfull
      · rename_i hroom
        push Not at hroom
        cases hfull
        exact .reserved hroom.1 hroom.2
  | accept payload =>
    simp only [perform]
    split
    · exact .raised _
    · rename_i group hdecode
      obtain ⟨rfl, hvalid⟩ := decodeGroup_eq_ok hdecode
      split
      · exact .raised _
      · rename_i accepted haccept
        by_cases hlive : buffer.reserved.get? group.task.identity = some group.task
        · rw [accept_eq_ok hvalid hlive] at haccept
          cases haccept
          exact .accepted hvalid hlive
        · simp [accept, hvalid, hlive] at haccept
  | discard task =>
    simp only [perform]
    split
    · exact .raised _
    · rename_i discarded hdiscard
      by_cases hlive : buffer.reserved.get? task.identity = some task
      · rw [discard_eq_ok hlive] at hdiscard
        cases hdiscard
        exact .discarded hlive
      · simp [discard, hlive] at hdiscard
  | evictStale update =>
    simp only [perform]
    split
    · exact .raised _
    · rename_i hselected
      push Not at hselected
      split
      · exact .raised _
      · rename_i aged haged
        have hsublist := evicted_sublist haged
        rw [deleteEach_eq_ok (hsublist.nodup buffer.ready.keys_nodup)
          fun identity hidentity => hsublist.subset hidentity]
        exact .evicted hselected hsublist
  | select count =>
    simp only [perform]
    split
    · exact .raised _
    · rename_i hfree
      push Not at hfree
      -- every leased group was decoded when it came in
      have hdecodes : ∀ identity ∈ buffer.ready.keys.take
          (sliceStop buffer.ready.entries.length count), ∃ group,
          decodeGroup settings (buffer.ready.get? identity) = .ok group := by
        intro identity hidentity
        obtain ⟨group, hgroup⟩ := buffer.ready.mem_keys_iff.mp (mem_of_mem_take hidentity)
        refine ⟨group, ?_⟩
        rw [hgroup]
        exact decodeGroup_of_validate (h.filed identity group hgroup).1
      obtain ⟨groups, hgroups⟩ := exists_mapM_eq_ok hdecodes
      simp only [hgroups]
      exact .selected _ hfree.1
  | commit =>
    simp only [perform]
    split
    · exact .raised _
    · rename_i hleased
      rw [deleteEach_eq_ok h.distinct h.leased]
      exact .committed hleased
  | stateDict =>
    simp only [perform]
    split
    · exact .raised _
    · exact .exported
  | loadStateDict state => exact restore_performed buffer state

end ExperienceBuffer

end HyperParallel.FullyAsync
