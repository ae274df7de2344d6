import Mathlib.Algebra.Order.Group.Multiset
import Mathlib.Tactic.Abel
import HyperParallel.FullyAsync.Behavior

/-!
# Every reserved task is in one place

A reserved task is a command, a group in flight, a result or a discard notice,
and exactly one of them; so the buffer knows whatever the rollouter reports.
-/

namespace HyperParallel.FullyAsync

open Foundation List

theorem coe_snoc {α : Type*} (xs : List α) (a : α) :
    ((xs ++ [a] : List α) : Multiset α) = a ::ₘ xs := by
  rw [← Multiset.coe_add, Multiset.coe_singleton, add_comm, Multiset.singleton_add]

/-! ### Moving between the buffer's dictionaries -/

namespace ExperienceBuffer

def identities (buffer : ExperienceBuffer) (updates : List (List Nat)) : Multiset Nat :=
  (buffer.reserved.keys : Multiset Nat) + buffer.ready.keys + updates.flatten

structure Keyed (buffer : ExperienceBuffer) (updates : List (List Nat)) : Prop where
  reserved : ∀ entry ∈ buffer.reserved.entries, entry.1 = entry.2.identity
  ready : ∀ entry ∈ buffer.ready.entries, entry.1 = entry.2.task.identity
  nodup : (buffer.identities updates).Nodup
  lt : ∀ identity ∈ buffer.identities updates, identity < buffer.nextIdentity

variable {buffer : ExperienceBuffer} {updates : List (List Nat)}

variable {task : SamplingTask}

theorem Keyed.get?_of_mem (h : Keyed buffer updates) (hmem : task ∈ buffer.reserved.values) :
    buffer.reserved.get? task.identity = some task := by
  obtain ⟨entry, hentry, rfl⟩ := mem_map.mp hmem
  rw [← buffer.reserved.mem_entries_iff, ← h.reserved entry hentry]
  exact hentry

theorem mem_reserved_keys (hget : buffer.reserved.get? task.identity = some task) :
    task.identity ∈ buffer.reserved.keys :=
  buffer.reserved.mem_keys_iff.mpr ⟨task, hget⟩

theorem Keyed.notMem_ready (h : Keyed buffer updates) {identity : Nat}
    (hmem : identity ∈ buffer.reserved.keys) : identity ∉ buffer.ready.keys := by
  intro hready
  have hnodup := (Multiset.nodup_add.mp h.nodup).1
  exact Multiset.disjoint_left.mp (Multiset.nodup_add.mp hnodup).2.2 (by simpa) (by simpa)

theorem keys_erase_eq (hget : buffer.reserved.get? task.identity = some task) :
    (buffer.reserved.keys : Multiset Nat)
      = task.identity ::ₘ (buffer.reserved.erase task.identity).keys := by
  rw [PyDict.keys_erase, Multiset.cons_coe, Multiset.coe_eq_coe]
  have hperm := perm_cons_erase (mem_reserved_keys hget)
  rw [buffer.reserved.keys_nodup.erase_eq_filter] at hperm
  have hcongr : (buffer.reserved.keys.filter (· != task.identity))
      = buffer.reserved.keys.filter (· ≠ task.identity) :=
    filter_congr fun identity _ => by
      rw [Bool.eq_iff_iff]
      simp
  rwa [hcongr] at hperm

theorem values_erase_eq (hget : buffer.reserved.get? task.identity = some task) :
    (buffer.reserved.values : Multiset SamplingTask)
      = task ::ₘ (buffer.reserved.erase task.identity).values := by
  rw [Multiset.cons_coe, Multiset.coe_eq_coe]
  exact buffer.reserved.values_perm_erase hget

section

variable (h : Keyed buffer updates)

include h

theorem Keyed.accepted {group : SampleGroup}
    (hget : buffer.reserved.get? group.task.identity = some group.task) :
    Keyed { buffer with
      reserved := buffer.reserved.erase group.task.identity
      ready := buffer.ready.set group.task.identity group } updates := by
  have hfresh := h.notMem_ready (mem_reserved_keys hget)
  have hsame : identities { buffer with
      reserved := buffer.reserved.erase group.task.identity
      ready := buffer.ready.set group.task.identity group } updates
      = buffer.identities updates := by
    simp only [identities]
    rw [keys_erase_eq hget, PyDict.keys_set, if_neg hfresh, coe_snoc]
    simp
  constructor
  case reserved => exact fun entry hentry => h.reserved entry (mem_filter.mp hentry).1
  case ready =>
    intro entry hentry
    rw [PyDict.entries_set_of_notMem _ _ hfresh] at hentry
    rcases mem_append.mp hentry with hentry | hentry
    · exact h.ready entry hentry
    · obtain rfl := mem_singleton.mp hentry
      rfl
  case nodup => exact hsame ▸ h.nodup
  case lt => exact hsame ▸ h.lt

theorem Keyed.discarded {task : SamplingTask}
    (hget : buffer.reserved.get? task.identity = some task) (droppedGroups : Nat) :
    Keyed { buffer with
      reserved := buffer.reserved.erase task.identity
      droppedGroups := droppedGroups } updates := by
  have hle : identities { buffer with
      reserved := buffer.reserved.erase task.identity
      droppedGroups := droppedGroups } updates ≤ buffer.identities updates := by
    simp only [identities]
    rw [keys_erase_eq hget]
    simp only [Multiset.cons_add]
    exact Multiset.le_cons_self ..
  constructor
  case reserved => exact fun entry hentry => h.reserved entry (mem_filter.mp hentry).1
  case ready => exact h.ready
  case nodup => exact Multiset.nodup_of_le hle h.nodup
  case lt => exact fun identity hmem => h.lt identity (Multiset.mem_of_le hle hmem)

theorem Keyed.evicted {evicted : ExperienceBuffer} {keeps : Nat × SampleGroup → Bool}
    (hready : evicted.ready.entries = buffer.ready.entries.filter keeps)
    (hreserved : evicted.reserved = buffer.reserved)
    (hnext : evicted.nextIdentity = buffer.nextIdentity) : Keyed evicted updates := by
  have hle : evicted.identities updates ≤ buffer.identities updates := by
    simp only [identities, hreserved]
    have hkeys : (evicted.ready.keys : Multiset Nat) ≤ buffer.ready.keys := by
      rw [PyDict.keys, hready]
      exact Multiset.coe_le.mpr (filter_sublist.map _).subperm
    gcongr
  constructor
  case reserved => exact hreserved ▸ h.reserved
  case ready =>
    intro entry hentry
    rw [hready] at hentry
    exact h.ready entry (mem_filter.mp hentry).1
  case nodup => exact Multiset.nodup_of_le hle h.nodup
  case lt => exact fun identity hmem => hnext ▸ h.lt identity (Multiset.mem_of_le hle hmem)

theorem Keyed.reserve {settings : Settings} {version sourceUpdate : Int} {next : ExperienceBuffer}
    (hreserve : buffer.reserve settings version sourceUpdate = some (task, next)) :
    Keyed next updates ∧ (next.reserved.values : Multiset SamplingTask)
        = task ::ₘ buffer.reserved.values ∧
      task.policyVersion = version ∧ task.sourceUpdate = sourceUpdate ∧
      next.reserved.entries.length ≤ settings.maxInflightGroups ∧
      next.ready = buffer.ready ∧ next.selected = buffer.selected := by
  unfold ExperienceBuffer.reserve at hreserve
  simp only at hreserve
  split at hreserve
  · cases hreserve
  · rename_i hroom
    push Not at hroom
    cases hreserve
    have hfresh : buffer.nextIdentity ∉ buffer.reserved.keys := by
      intro hmem
      have := h.lt buffer.nextIdentity (by simp [identities, hmem])
      omega
    have hentries := buffer.reserved.entries_set_of_notMem
      (⟨buffer.nextIdentity, version, sourceUpdate⟩ : SamplingTask) hfresh
    have hidentities : identities { buffer with
        nextIdentity := buffer.nextIdentity + 1
        reserved := buffer.reserved.set buffer.nextIdentity
          ⟨buffer.nextIdentity, version, sourceUpdate⟩ } updates
        = buffer.nextIdentity ::ₘ buffer.identities updates := by
      simp only [identities]
      rw [PyDict.keys_set, if_neg hfresh, coe_snoc]
      simp
    refine ⟨?_, ?_, rfl, rfl, ?_, rfl, rfl⟩
    · constructor
      case reserved =>
        intro entry hentry
        rw [hentries] at hentry
        rcases mem_append.mp hentry with hentry | hentry
        · exact h.reserved entry hentry
        · obtain rfl := mem_singleton.mp hentry
          rfl
      case ready => exact h.ready
      case nodup =>
        rw [hidentities, Multiset.nodup_cons]
        exact ⟨fun hmem => Nat.lt_irrefl _ (h.lt _ hmem), h.nodup⟩
      case lt =>
        intro identity hmem
        rw [hidentities] at hmem
        rcases Multiset.mem_cons.mp hmem with rfl | hmem
        · exact Nat.lt_succ_self _
        · exact Nat.lt_succ_of_lt (h.lt identity hmem)
    · rw [PyDict.values_set_of_notMem _ _ hfresh, coe_snoc]
    · rw [hentries, length_append, length_singleton]
      omega

theorem Keyed.committed {count : Nat} (consumedGroups : Nat)
    (hselected : buffer.selected = buffer.ready.keys.take count) :
    Keyed { buffer with
      ready := buffer.selected.foldl PyDict.erase buffer.ready
      consumedGroups := consumedGroups
      selected := [] } (updates ++ [buffer.selected]) := by
  have hentries := buffer.ready.entries_foldl_erase buffer.selected
  have hkeys : (buffer.selected.foldl PyDict.erase buffer.ready).keys
      = buffer.ready.keys.drop count := by
    have hnodup := buffer.ready.keys_nodup
    have hfilter : (buffer.selected.foldl PyDict.erase buffer.ready).keys
        = buffer.ready.keys.filter fun key => key ∉ buffer.selected := by
      rw [PyDict.keys, hentries, PyDict.keys, filter_map]
      rfl
    rw [hfilter, hselected]
    rw [← take_append_drop count buffer.ready.keys] at hnodup
    have hdisjoint := (nodup_append.mp hnodup).2.2
    conv_lhs => rw [← take_append_drop count buffer.ready.keys, filter_append]
    rw [filter_eq_nil_iff.mpr, filter_eq_self.mpr, nil_append]
    · intro key hkey
      rw [take_append_drop]
      simpa using fun htake => hdisjoint key htake key hkey rfl
    · intro key hkey
      rw [take_append_drop]
      simpa using hkey
  have hsame : identities { buffer with
      ready := buffer.selected.foldl PyDict.erase buffer.ready
      consumedGroups := consumedGroups
      selected := [] } (updates ++ [buffer.selected]) = buffer.identities updates := by
    simp only [identities, flatten_append, flatten_singleton, hkeys]
    rw [← Multiset.coe_add, hselected]
    have hsplit : (buffer.ready.keys : Multiset Nat)
        = (buffer.ready.keys.take count : Multiset Nat) + buffer.ready.keys.drop count := by
      rw [Multiset.coe_add, take_append_drop]
    rw [hsplit]
    abel
  constructor
  case reserved => exact h.reserved
  case ready =>
    intro entry hentry
    dsimp only at hentry
    rw [hentries] at hentry
    exact h.ready entry (mem_filter.mp hentry).1
  case nodup => exact hsame ▸ h.nodup
  case lt => exact hsame ▸ h.lt

end

end ExperienceBuffer

end HyperParallel.FullyAsync
