import HyperParallel.FullyAsync.BufferCalls

/-!
# Runs of buffer calls

The account of a buffer holds after any calls, raising ones included, and an identity
is consumed at most once between two restores.
-/

namespace HyperParallel.FullyAsync

open Foundation List

namespace ExperienceBuffer

def after (settings : Settings) (calls : List BufferCall) : ExperienceBuffer :=
  calls.foldl (fun buffer call => (buffer.perform settings call).2) {}

def consumedBy (settings : Settings) (buffer : ExperienceBuffer) : BufferCall → List Nat
  | .commit =>
    match (buffer.perform settings .commit).1 with
    | .ok _ => buffer.selected
    | .error _ => []
  | _ => []

def restores (settings : Settings) (buffer : ExperienceBuffer) : BufferCall → Bool
  | .loadStateDict state => (buffer.restore settings state).1.isOk
  | _ => false

def consumedIn (settings : Settings) : ExperienceBuffer → List BufferCall → List Nat
  | _, [] => []
  | buffer, call :: rest =>
    buffer.consumedBy settings call ++ consumedIn settings (buffer.perform settings call).2 rest

def consumedSince (settings : Settings) : ExperienceBuffer → List Nat → List BufferCall → List Nat
  | _, consumed, [] => consumed
  | buffer, consumed, call :: rest =>
    consumedSince settings (buffer.perform settings call).2
      (if buffer.restores settings call then [] else consumed ++ buffer.consumedBy settings call)
      rest

variable {settings : Settings}

theorem Invariant.fresh : Invariant settings {} where
  counted := rfl
  disjoint _ h := by cases h
  below _ h := by rcases h with h | h <;> cases h
  capacity := Nat.zero_le _
  inflight := Nat.zero_le _
  leased _ h := by cases h
  filed _ _ h := by cases h
  distinct := nodup_nil

variable {buffer : ExperienceBuffer}

/-- Ready groups are evicted or consumed, and nothing stays leased. -/
theorem Invariant.erase_ready (h : Invariant settings buffer) {identities : List Nat}
    (hnodup : identities.Nodup) (hready : ∀ identity ∈ identities, identity ∈ buffer.ready.keys)
    {consumed dropped : Nat} (htotal : consumed + dropped =
      buffer.consumedGroups + buffer.droppedGroups + identities.length) :
    Invariant settings { buffer with
      ready := identities.foldl PyDict.erase buffer.ready
      consumedGroups := consumed
      droppedGroups := dropped
      selected := [] } := by
  have hlength := PyDict.length_foldl_erase hnodup hready
  have hcounted := h.counted
  have hcapacity := h.capacity
  exact {
    counted := by
      simp only
      omega
    disjoint := fun identity hmem =>
      h.disjoint identity ((PyDict.mem_keys_foldl_erase _).mp hmem).1
    below := by
      rintro identity (hmem | hold)
      · exact h.below identity (Or.inl ((PyDict.mem_keys_foldl_erase _).mp hmem).1)
      · exact h.below identity (Or.inr hold)
    capacity := by
      simp only
      omega
    inflight := h.inflight
    leased := fun _ hmem => by cases hmem
    filed := fun identity group hgroup =>
      h.filed identity group (PyDict.get?_of_get?_foldl_erase hgroup)
    distinct := nodup_nil }

variable {call : BufferCall}

theorem Invariant.of_performed {next : ExperienceBuffer}
    {result : Except CallError Unit} (h : Invariant settings buffer)
    (hperformed : Performed settings buffer call (result, next)) : Invariant settings next := by
  cases hperformed with
  | raised error => exact h
  | full => exact h
  | exported => exact h
  | @reserved version sourceUpdate hroom hinflight =>
    have hnew : buffer.nextIdentity ∉ buffer.reserved.keys := fun hmem =>
      (h.below _ (Or.inr hmem)).false
    have hlength := buffer.reserved.length_set_of_notMem
      (⟨buffer.nextIdentity, version, sourceUpdate⟩ : SamplingTask) hnew
    exact {
      counted := by
        have := h.counted
        simp only [hlength]
        omega
      disjoint := by
        intro identity hready hmem
        rcases (PyDict.mem_keys_set _ _ _ _).mp hmem with rfl | hold
        · exact (h.below _ (Or.inl hready)).false
        · exact h.disjoint identity hready hold
      below := by
        rintro identity (hready | hmem)
        · exact (h.below identity (Or.inl hready)).trans (Nat.lt_succ_self _)
        · rcases (PyDict.mem_keys_set _ _ _ _).mp hmem with rfl | hold
          · exact Nat.lt_succ_self _
          · exact (h.below identity (Or.inr hold)).trans (Nat.lt_succ_self _)
      capacity := by
        simp only [hlength]
        omega
      inflight := by
        simp only [hlength]
        omega
      leased := h.leased
      filed := h.filed
      distinct := h.distinct }
  | @accepted group hvalid hlive =>
    have hreserved : group.task.identity ∈ buffer.reserved.keys :=
      buffer.reserved.mem_keys_iff.mpr ⟨_, hlive⟩
    have hnew : group.task.identity ∉ buffer.ready.keys := fun hmem =>
      h.disjoint _ hmem hreserved
    have hready := buffer.ready.length_set_of_notMem group hnew
    have hreserved' := buffer.reserved.length_erase hlive
    have hcounted := h.counted
    have hcapacity := h.capacity
    have hinflight := h.inflight
    exact {
      counted := by
        simp only [hready]
        omega
      disjoint := by
        intro identity hmem hold
        obtain ⟨hold, hne⟩ := (PyDict.mem_keys_erase _).mp hold
        rcases (PyDict.mem_keys_set _ _ _ _).mp hmem with heq | hmem
        · exact hne heq
        · exact h.disjoint identity hmem hold
      below := by
        rintro identity (hmem | hold)
        · rcases (PyDict.mem_keys_set _ _ _ _).mp hmem with rfl | hmem
          · exact h.below _ (Or.inr hreserved)
          · exact h.below identity (Or.inl hmem)
        · exact h.below identity (Or.inr ((PyDict.mem_keys_erase _).mp hold).1)
      capacity := by
        simp only [hready]
        omega
      inflight := by
        simp only
        omega
      leased := fun identity hmem =>
        (PyDict.mem_keys_set _ _ _ _).mpr (Or.inr (h.leased identity hmem))
      filed := h.filed.set hvalid
      distinct := h.distinct }
  | @discarded task hlive =>
    have hreserved := buffer.reserved.length_erase hlive
    have hcounted := h.counted
    have hcapacity := h.capacity
    have hinflight := h.inflight
    exact {
      counted := by
        simp only
        omega
      disjoint := fun identity hmem hold =>
        h.disjoint identity hmem ((PyDict.mem_keys_erase _).mp hold).1
      below := by
        rintro identity (hmem | hold)
        · exact h.below identity (Or.inl hmem)
        · exact h.below identity (Or.inr ((PyDict.mem_keys_erase _).mp hold).1)
      capacity := by
        simp only
        omega
      inflight := by
        simp only
        omega
      leased := h.leased
      filed := h.filed
      distinct := h.distinct }
  | @evicted update stale hfree hsublist =>
    rw [hfree]
    exact h.erase_ready (hsublist.nodup buffer.ready.keys_nodup)
      (fun identity hidentity => hsublist.subset hidentity) (Nat.add_assoc _ _ _).symm
  | selected stop hfree =>
    exact { h with
      leased := fun identity hmem => mem_of_mem_take hmem
      distinct := (take_sublist _ _).nodup buffer.ready.keys_nodup }
  | committed hleased => exact h.erase_ready h.distinct h.leased (Nat.add_right_comm _ _ _)
  | @restored state ready consumed dropped hempty hfiled hbelow hcapacity =>
    have hkeys : buffer.reserved.keys = [] := by simp [PyDict.keys, hempty.1]
    exact {
      counted := by simp [hempty.1]
      disjoint := fun identity _ hold => by
        rw [hkeys] at hold
        cases hold
      below := by
        rintro identity (hmem | hold)
        · exact hbelow identity hmem
        · rw [hkeys] at hold
          cases hold
      capacity := by simpa [hempty.1] using hcapacity
      inflight := h.inflight
      leased := fun identity hmem => by
        rw [hempty.2] at hmem
        cases hmem
      filed := hfiled
      distinct := h.distinct }

theorem Invariant.step (h : Invariant settings buffer) (call : BufferCall) :
    Invariant settings (buffer.perform settings call).2 :=
  h.of_performed (h.performed call)

theorem invariant_after (calls : List BufferCall) : Invariant settings (after settings calls) := by
  induction calls using reverseRecOn with
  | nil => exact .fresh
  | append_singleton calls call ih =>
    rw [after, foldl_append, foldl_cons, foldl_nil]
    exact ih.step call

structure Spent (buffer : ExperienceBuffer) (consumed : List Nat) : Prop where
  nodup : consumed.Nodup
  below : ∀ identity ∈ consumed, identity < buffer.nextIdentity
  gone : ∀ identity ∈ consumed, identity ∉ buffer.ready.keys ∧ identity ∉ buffer.reserved.keys

theorem Spent.nil (buffer : ExperienceBuffer) : Spent buffer [] := ⟨nodup_nil, by simp, by simp⟩

theorem consumedBy_of_ne (h : call ≠ .commit) :
    buffer.consumedBy settings call = [] := by
  cases call <;> first | rfl | exact absurd rfl h

theorem Spent.of_performed {next : ExperienceBuffer} {consumed : List Nat}
    {result : Except CallError Unit} (h : Spent buffer consumed) (hinv : Invariant settings buffer)
    (hstep : buffer.perform settings call = (result, next))
    (hperformed : Performed settings buffer call (result, next))
    (hrestores : buffer.restores settings call = false) :
    Spent next (consumed ++ buffer.consumedBy settings call) := by
  cases hperformed with
  | raised error =>
    have hnone : buffer.consumedBy settings call = [] := by cases call <;> simp [consumedBy, hstep]
    simpa [hnone] using h
  | full => simpa [consumedBy] using h
  | exported => simpa [consumedBy] using h
  | reserved hroom hinflight =>
    rw [consumedBy_of_ne (by simp), append_nil]
    refine ⟨h.nodup, fun identity hmem => (h.below identity hmem).trans (Nat.lt_succ_self _),
      fun identity hmem => ⟨(h.gone identity hmem).1, fun hold => ?_⟩⟩
    rcases (PyDict.mem_keys_set _ _ _ _).mp hold with rfl | hold
    · exact (h.below _ hmem).false
    · exact (h.gone identity hmem).2 hold
  | @accepted group hvalid hlive =>
    rw [consumedBy_of_ne (by simp), append_nil]
    refine ⟨h.nodup, h.below, fun identity hmem => ⟨fun hready => ?_, fun hold => ?_⟩⟩
    · rcases (PyDict.mem_keys_set _ _ _ _).mp hready with rfl | hready
      · exact (h.gone _ hmem).2 (buffer.reserved.mem_keys_iff.mpr ⟨_, hlive⟩)
      · exact (h.gone identity hmem).1 hready
    · exact (h.gone identity hmem).2 ((PyDict.mem_keys_erase _).mp hold).1
  | discarded hlive =>
    rw [consumedBy_of_ne (by simp), append_nil]
    exact ⟨h.nodup, h.below, fun identity hmem => ⟨(h.gone identity hmem).1, fun hold =>
      (h.gone identity hmem).2 ((PyDict.mem_keys_erase _).mp hold).1⟩⟩
  | evicted hfree hsublist =>
    rw [consumedBy_of_ne (by simp), append_nil]
    exact ⟨h.nodup, h.below, fun identity hmem => ⟨fun hready =>
      (h.gone identity hmem).1 ((PyDict.mem_keys_foldl_erase _).mp hready).1,
      (h.gone identity hmem).2⟩⟩
  | selected stop hfree =>
    rw [consumedBy_of_ne (by simp), append_nil]
    exact ⟨h.nodup, h.below, h.gone⟩
  | committed hleased =>
    have hconsumed : buffer.consumedBy settings .commit = buffer.selected := by
      simp [consumedBy, hstep]
    rw [hconsumed]
    refine ⟨?_, fun identity hmem => ?_, fun identity hmem => ?_⟩
    · refine nodup_append.mpr ⟨h.nodup, hinv.distinct, ?_⟩
      rintro identity hmem _ hselected rfl
      exact (h.gone identity hmem).1 (hinv.leased identity hselected)
    · rcases mem_append.mp hmem with hmem | hselected
      · exact h.below identity hmem
      · exact hinv.below identity (Or.inl (hinv.leased identity hselected))
    · rcases mem_append.mp hmem with hmem | hselected
      · exact ⟨fun hready => (h.gone identity hmem).1 ((PyDict.mem_keys_foldl_erase _).mp hready).1,
          (h.gone identity hmem).2⟩
      · exact ⟨fun hready => ((PyDict.mem_keys_foldl_erase _).mp hready).2 hselected,
          hinv.disjoint identity (hinv.leased identity hselected)⟩
  | @restored state _ _ _ =>
    have hrestored : buffer.restore settings state = _ := hstep
    simp [restores, hrestored, Except.isOk, Except.toBool] at hrestores

theorem spent_consumedSince {consumed : List Nat} (calls : List BufferCall)
    (hinv : Invariant settings buffer) (h : Spent buffer consumed) :
    (buffer.consumedSince settings consumed calls).Nodup := by
  induction calls generalizing buffer consumed with
  | nil => exact h.nodup
  | cons call rest ih =>
    apply ih (hinv.step call)
    cases hrestores : buffer.restores settings call with
    | true => exact .nil _
    | false => exact h.of_performed hinv rfl (hinv.performed call) hrestores

def snapshot (state : BufferState) : Snapshot where
  nextIdentity := state.nextIdentity
  ready := state.ready.map some
  consumedGroups := state.consumedGroups
  droppedGroups := state.droppedGroups

theorem restore_eq_ok {state : Snapshot} {ready : PyDict Nat SampleGroup}
    (hready : restoreReady settings state.nextIdentity state.ready .empty = .ok ready)
    (hsigns : 0 ≤ state.nextIdentity ∧ 0 ≤ state.consumedGroups ∧ 0 ≤ state.droppedGroups)
    (hcapacity : ready.entries.length ≤ settings.maxBufferGroups)
    (hcounted : state.nextIdentity =
      state.consumedGroups + state.droppedGroups + ready.entries.length) :
    restore settings {} state = (.ok (), {
      nextIdentity := state.nextIdentity.toNat
      ready := ready
      consumedGroups := state.consumedGroups.toNat
      droppedGroups := state.droppedGroups.toNat }) := by
  unfold restore
  rw [if_neg (by simp [PyDict.empty])]
  simp only [hready]
  rw [if_neg (by omega), if_neg (by omega)]

theorem Invariant.restore_snapshot {state : BufferState} (h : Invariant settings buffer)
    (hstate : buffer.stateDict = .ok state) :
    ∃ restored, restore settings {} (snapshot state) = (.ok (), restored) ∧
      restored.ready.entries = buffer.ready.entries ∧
      restored.nextIdentity = buffer.nextIdentity ∧
      restored.consumedGroups = buffer.consumedGroups ∧
      restored.droppedGroups = buffer.droppedGroups := by
  have hdrained : buffer.reserved.entries = [] ∧ buffer.selected = [] := by
    by_contra hnot
    rw [not_and_or] at hnot
    simp [stateDict, hnot] at hstate
  rw [stateDict_eq_ok hdrained.1 hdrained.2] at hstate
  cases hstate
  have hidentity : ∀ entry ∈ buffer.ready.entries, entry.2.validate settings.candidates = true ∧
      entry.2.task.identity = entry.1 := fun entry hentry =>
    h.filed entry.1 entry.2 (buffer.ready.mem_entries_iff.mp hentry)
  have hvalid : ∀ group ∈ buffer.ready.values, group.validate settings.candidates = true := by
    intro group hgroup
    obtain ⟨entry, hentry, rfl⟩ := mem_map.mp hgroup
    exact (hidentity entry hentry).1
  have hbelow : ∀ group ∈ buffer.ready.values,
      (group.task.identity : Int) < (buffer.nextIdentity : Int) := by
    intro group hgroup
    obtain ⟨entry, hentry, rfl⟩ := mem_map.mp hgroup
    have hkey : entry.1 ∈ buffer.ready.keys := mem_map_of_mem hentry
    rw [(hidentity entry hentry).2]
    exact_mod_cast h.below entry.1 (Or.inl hkey)
  have hkeys : buffer.ready.values.map (fun group => group.task.identity) = buffer.ready.keys := by
    rw [PyDict.values, map_map]
    exact map_congr_left fun entry hentry => (hidentity entry hentry).2
  obtain ⟨ready, hready, hentries⟩ := @restoreReady_groups settings
    buffer.nextIdentity buffer.ready.values .empty hvalid hbelow
    (by simp [hkeys, buffer.ready.keys_nodup])
  have hsame : ready.entries = buffer.ready.entries := by
    rw [hentries, PyDict.values, map_map]
    change [] ++ _ = _
    rw [nil_append]
    conv_rhs => rw [← map_id buffer.ready.entries]
    exact map_congr_left fun entry hentry => Prod.ext (hidentity entry hentry).2 rfl
  have hcounted := h.counted
  have hcapacity := h.capacity
  rw [hdrained.1, length_nil] at hcounted hcapacity
  have hrestored := @restore_eq_ok settings (snapshot {
      nextIdentity := buffer.nextIdentity
      ready := buffer.ready.values
      consumedGroups := buffer.consumedGroups
      droppedGroups := buffer.droppedGroups }) ready hready
    ⟨Int.natCast_nonneg _, Int.natCast_nonneg _, Int.natCast_nonneg _⟩
    (by rw [hsame]; omega) (by simp only [snapshot, hsame]; omega)
  exact ⟨_, hrestored, hsame, rfl, rfl, rfl⟩

/-- After any calls on a fresh buffer the account holds, no identity has been consumed twice since
the last restore, a call that raises leaves the buffer as it is, a selection stays until its
commit, and a fresh buffer takes the checkpoint over. -/
theorem after_conserved (settings : Settings) (calls : List BufferCall) :
    Conserved settings (after settings calls) ∧
    (consumedSince settings {} [] calls).Nodup ∧
    (∀ call error, ((after settings calls).perform settings call).1 = .error error →
      ((after settings calls).perform settings call).2 = after settings calls) ∧
    (∀ call, call ≠ .commit → (after settings calls).selected ≠ [] →
      ((after settings calls).perform settings call).2.selected = (after settings calls).selected) ∧
    ∀ state, (after settings calls).stateDict = .ok state →
      ∃ restored, restore settings {} (snapshot state) = (.ok (), restored) ∧
        restored.ready.entries = (after settings calls).ready.entries ∧
        restored.nextIdentity = (after settings calls).nextIdentity ∧
        restored.consumedGroups = (after settings calls).consumedGroups ∧
        restored.droppedGroups = (after settings calls).droppedGroups := by
  have h := @invariant_after settings calls
  refine ⟨h.toConserved, spent_consumedSince calls .fresh (.nil _), fun call error herror => ?_,
    fun call hcall hselected => ?_, fun state hstate => h.restore_snapshot hstate⟩
  · have hperformed := h.performed call
    generalize (after settings calls).perform settings call = result at *
    cases hperformed with
    | raised => rfl
    | _ => cases herror
  · have hperformed := h.performed call
    generalize (after settings calls).perform settings call = result at *
    cases hperformed with
    | selected stop hfree => exact absurd hfree hselected
    | committed => exact absurd rfl hcall
    | _ => rfl

def singleSettings : Settings where
  maxInflightGroups := 1
  maxBufferGroups := 1
  maxPolicyLagUpdates := 0
  publishEveryUpdates := 1
  required := 1
  candidates := 1
  maxCandidateRetries := 1
  maxSteps := 1
  inflight_le := le_rfl
  required_pos := Nat.one_pos
  candidates_pos := Nat.one_pos

def firstGroup : SampleGroup := ⟨⟨0, 1, 0⟩, [[⟨none, 1, 1, 1⟩]]⟩

/-- A checkpoint is taken with one group ready; the group is consumed, the empty buffer restored
from the checkpoint, and the group consumed again. -/
theorem consumed_again_after_restore :
    ∃ state,
      (after singleSettings [.reserve 1 0, .accept (some firstGroup)]).stateDict = .ok state ∧
      ¬ (consumedIn singleSettings {} [.reserve 1 0, .accept (some firstGroup), .select 1, .commit,
        .loadStateDict (snapshot state), .select 1, .commit]).Nodup := by
  refine ⟨_, rfl, ?_⟩
  decide

end ExperienceBuffer

end HyperParallel.FullyAsync
