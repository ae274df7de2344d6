import HyperParallel.Offload.ResidencyReplay
import Mathlib.Algebra.BigOperators.Group.Finset.Basic

/-!
# What the manager holds

Of every storage, whether it is on the host and whether it is on the device.
Each action of the manager changes this for its own storage only; taking a host
buffer can fail, and nothing else does while the data is somewhere.
-/

namespace HyperParallel.Offload

open Foundation List

variable {π : Type}

namespace ResidencyManager

def hostOf (manager : ResidencyManager π) (sid : Nat) : Option Nat :=
  (manager.residency.get? sid).bind PhysicalBuffer.hostBuffer

def deviceOf (manager : ResidencyManager π) (sid : Nat) : Option Nat :=
  (manager.residency.get? sid).bind PhysicalBuffer.deviceBuffer

variable {manager : ResidencyManager π} {pool : HostPool π} {sid : Nat}

theorem hostOf_set (manager : ResidencyManager π) (hostPool : π) (sid : Nat)
    (buffer : PhysicalBuffer) (sid' : Nat) :
    hostOf ⟨manager.residency.set sid buffer, hostPool⟩ sid' =
      if sid' = sid then buffer.hostBuffer else manager.hostOf sid' := by
  rw [hostOf, PyDict.get?_set]
  split <;> rfl

theorem deviceOf_set (manager : ResidencyManager π) (hostPool : π) (sid : Nat)
    (buffer : PhysicalBuffer) (sid' : Nat) :
    deviceOf ⟨manager.residency.set sid buffer, hostPool⟩ sid' =
      if sid' = sid then buffer.deviceBuffer else manager.deviceOf sid' := by
  rw [deviceOf, PyDict.get?_set]
  split <;> rfl

theorem hostOf_erase (manager : ResidencyManager π) (hostPool : π) (sid sid' : Nat) :
    hostOf ⟨manager.residency.erase sid, hostPool⟩ sid' =
      if sid' = sid then none else manager.hostOf sid' := by
  rw [hostOf, PyDict.get?_erase]
  split <;> rfl

theorem deviceOf_erase (manager : ResidencyManager π) (hostPool : π) (sid sid' : Nat) :
    deviceOf ⟨manager.residency.erase sid, hostPool⟩ sid' =
      if sid' = sid then none else manager.deviceOf sid' := by
  rw [deviceOf, PyDict.get?_erase]
  split <;> rfl

theorem hostOf_bind (manager : ResidencyManager π) (sid size sid' : Nat) :
    (manager.bind sid size).hostOf sid' = manager.hostOf sid' := by
  rw [bind, hostOf_set]
  split
  · rename_i h
    subst h
    rw [hostOf]
    cases manager.residency.get? sid' <;> rfl
  · rfl

theorem deviceOf_bind (manager : ResidencyManager π) (sid size sid' : Nat) :
    (manager.bind sid size).deviceOf sid' =
      if sid' = sid then some size else manager.deviceOf sid' := by
  rw [bind, deviceOf_set]

theorem ite_at_eq {α : Type} {f : Nat → α} {sid sid' : Nat} {x : α} (h : f sid = x) :
    (if sid' = sid then x else f sid') = f sid' := by
  rw [ite_eq_right_iff]
  rintro rfl
  exact h.symm

theorem buffers_of_get? {buffer : Option PhysicalBuffer} (h : manager.residency.get? sid = buffer) :
    manager.hostOf sid = buffer.bind PhysicalBuffer.hostBuffer ∧
      manager.deviceOf sid = buffer.bind PhysicalBuffer.deviceBuffer := by
  rw [hostOf, deviceOf, h]
  exact ⟨rfl, rfl⟩

theorem releaseDevice_spec (manager : ResidencyManager π) (sid sid' : Nat) :
    (manager.releaseDevice sid).hostOf sid' = manager.hostOf sid' ∧
      (manager.releaseDevice sid).deviceOf sid' =
        if sid' = sid then none else manager.deviceOf sid' := by
  rw [releaseDevice]
  cases hget : manager.residency.get? sid with
  | none => exact ⟨rfl, (ite_at_eq (buffers_of_get? hget).2).symm⟩
  | some buffer =>
    obtain ⟨hhostOf, hdeviceOf⟩ := buffers_of_get? hget
    dsimp only
    split
    · rename_i hnone
      exact ⟨rfl, (ite_at_eq (hdeviceOf.trans (Option.isNone_iff_eq_none.mp hnone))).symm⟩
    · split
      · rename_i hhost
        rw [hostOf_erase, deviceOf_erase]
        exact ⟨ite_at_eq (hhostOf.trans (Option.isNone_iff_eq_none.mp hhost)), rfl⟩
      · rw [hostOf_set, deviceOf_set]
        exact ⟨ite_at_eq hhostOf, rfl⟩

theorem releaseHost_spec (pool : HostPool π) (manager : ResidencyManager π) (sid sid' : Nat) :
    (manager.releaseHost pool sid).hostOf sid' =
        (if sid' = sid then none else manager.hostOf sid') ∧
      (manager.releaseHost pool sid).deviceOf sid' = manager.deviceOf sid' := by
  rw [releaseHost]
  cases hget : manager.residency.get? sid with
  | none => exact ⟨(ite_at_eq (buffers_of_get? hget).1).symm, rfl⟩
  | some buffer =>
    obtain ⟨host, device⟩ := buffer
    obtain ⟨hhostOf, hdeviceOf⟩ := buffers_of_get? hget
    cases host with
    | none => exact ⟨(ite_at_eq hhostOf).symm, rfl⟩
    | some size =>
      dsimp only
      split
      · rename_i hdevice
        rw [hostOf_erase, deviceOf_erase]
        exact ⟨rfl, ite_at_eq (hdeviceOf.trans (Option.isNone_iff_eq_none.mp hdevice))⟩
      · rw [hostOf_set, deviceOf_set]
        exact ⟨rfl, ite_at_eq hdeviceOf⟩

theorem copyD2h_spec {size : Nat} (pool : HostPool π)
    (h : manager.hostOf sid = some size ∨
      manager.hostOf sid = none ∧ manager.deviceOf sid = some size) :
    (manager.copyD2h pool sid = .error .poolExhausted ∧
        ∃ hostPool size, pool.acquire hostPool size = none) ∨
      ∃ manager', manager.copyD2h pool sid = .ok manager' ∧ ∀ sid',
        manager'.hostOf sid' = (if sid' = sid then some size else manager.hostOf sid') ∧
          manager'.deviceOf sid' = manager.deviceOf sid' := by
  rw [copyD2h]
  cases hget : manager.residency.get? sid with
  | none =>
    rw [hostOf, deviceOf, hget] at h
    rcases h with h | ⟨-, h⟩ <;> cases h
  | some buffer =>
    obtain ⟨host, device⟩ := buffer
    obtain ⟨hhostOf, hdeviceOf⟩ := buffers_of_get? hget
    rw [hhostOf, hdeviceOf] at h
    dsimp only [Option.bind_some] at h hhostOf hdeviceOf ⊢
    rcases h with rfl | ⟨rfl, rfl⟩
    · exact .inr ⟨manager, rfl, fun sid' => ⟨(ite_at_eq hhostOf).symm, rfl⟩⟩
    · rw [if_neg (by simp)]
      dsimp only
      cases hacquire : pool.acquire manager.hostPool size with
      | none => exact .inl ⟨rfl, _, _, hacquire⟩
      | some hostPool =>
        refine .inr ⟨_, rfl, fun sid' => ?_⟩
        rw [hostOf_set, deviceOf_set]
        exact ⟨rfl, ite_at_eq hdeviceOf⟩

theorem copyH2d_spec {size : Nat}
    (h : manager.deviceOf sid = some size ∨
      manager.deviceOf sid = none ∧ manager.hostOf sid = some size) :
    ∃ manager', manager.copyH2d sid = .ok manager' ∧ ∀ sid',
      manager'.hostOf sid' = manager.hostOf sid' ∧
        manager'.deviceOf sid' =
          if sid' = sid then some size else manager.deviceOf sid' := by
  rw [copyH2d]
  cases hget : manager.residency.get? sid with
  | none =>
    rw [hostOf, deviceOf, hget] at h
    rcases h with h | ⟨-, h⟩ <;> cases h
  | some buffer =>
    obtain ⟨host, device⟩ := buffer
    obtain ⟨hhostOf, hdeviceOf⟩ := buffers_of_get? hget
    rw [hhostOf, hdeviceOf] at h
    dsimp only [Option.bind_some] at h hhostOf hdeviceOf ⊢
    rcases h with rfl | ⟨rfl, rfl⟩
    · exact ⟨manager, rfl, fun sid' => ⟨rfl, (ite_at_eq hdeviceOf).symm⟩⟩
    · rw [if_neg (by simp)]
      refine ⟨_, rfl, fun sid' => ?_⟩
      rw [hostOf_set, deviceOf_set]
      exact ⟨ite_at_eq hhostOf, rfl⟩

theorem residentBytes_eq {sids : List Nat} (hnodup : sids.Nodup)
    (hall : ∀ sid, manager.deviceOf sid ≠ none → sid ∈ sids) :
    manager.residentBytes = (sids.map fun sid => (manager.deviceOf sid).getD 0).sum := by
  have hkeys : manager.residentBytes =
      (manager.residency.keys.map fun sid => (manager.deviceOf sid).getD 0).sum := by
    rw [residentBytes, PyDict.values, PyDict.keys, map_map, map_map]
    refine congrArg List.sum (map_congr_left fun entry hentry => ?_)
    have hget := (manager.residency.mem_entries_iff (k := entry.1) (v := entry.2)).mp hentry
    simp only [Function.comp_apply, deviceOf, hget, Option.bind_some]
  rw [hkeys, ← sum_toFinset _ manager.residency.keys_nodup, ← sum_toFinset _ hnodup]
  have hzero : ∀ sid, sid ∉ manager.residency.keys → (manager.deviceOf sid).getD 0 = 0 := by
    intro sid hsid
    rw [deviceOf, manager.residency.get?_eq_none_iff.mpr hsid]
    rfl
  have hnone : ∀ sid, sid ∉ sids → (manager.deviceOf sid).getD 0 = 0 := by
    intro sid hsid
    have hdevice : manager.deviceOf sid = none := by
      by_contra hne
      exact hsid (hall sid hne)
    rw [hdevice]
    rfl
  have hleft := Finset.sum_subset (f := fun sid => (manager.deviceOf sid).getD 0)
    (@Finset.subset_union_left _ _ manager.residency.keys.toFinset sids.toFinset)
    fun sid _ hsid => hzero sid (by simpa using hsid)
  have hright := Finset.sum_subset (f := fun sid => (manager.deviceOf sid).getD 0)
    (@Finset.subset_union_right _ _ manager.residency.keys.toFinset sids.toFinset)
    fun sid _ hsid => hnone sid (by simpa using hsid)
  exact hleft.trans hright.symm

end ResidencyManager

/-! ## Pictures of a manager -/

section Shows

variable {sizeOf : Nat → Nat} {manager : ResidencyManager π} {pool : HostPool π}
  {host device host' device' : Nat → Prop}

structure Held (buffer : Option Nat) (size : Nat) (there : Prop) : Prop where
  some : there → buffer = some size
  none : ¬there → buffer = none

variable {buffer : Option Nat}

theorem Held.congr {size : Nat} {there there' : Prop}
    (h : Held buffer size there) (hiff : there ↔ there') : Held buffer size there' :=
  ⟨fun hthere => h.some (hiff.mpr hthere), fun hnot => h.none fun hthere => hnot (hiff.mp hthere)⟩

def Shows (sizeOf : Nat → Nat) (manager : ResidencyManager π) (host device : Nat → Prop) : Prop :=
  ∀ sid, Held (manager.hostOf sid) (sizeOf sid) (host sid) ∧
    Held (manager.deviceOf sid) (sizeOf sid) (device sid)

theorem Shows.congr (h : Shows sizeOf manager host device) (hhost : ∀ sid, host sid ↔ host' sid)
    (hdevice : ∀ sid, device sid ↔ device' sid) : Shows sizeOf manager host' device' :=
  fun sid => ⟨(h sid).1.congr (hhost sid), (h sid).2.congr (hdevice sid)⟩

theorem shows_empty (hostPool : π) :
    Shows sizeOf (⟨.empty, hostPool⟩ : ResidencyManager π) (fun _ => False) fun _ => False :=
  fun _ => ⟨⟨False.elim, fun _ => rfl⟩, ⟨False.elim, fun _ => rfl⟩⟩

theorem Held.add {sizeOf : Nat → Nat} {there : Nat → Prop} {sid sid' : Nat}
    (h : Held buffer (sizeOf sid') (there sid')) :
    Held (if sid' = sid then Option.some (sizeOf sid) else buffer) (sizeOf sid')
      (sid' = sid ∨ there sid') := by
  by_cases heq : sid' = sid
  · rw [if_pos heq, heq]
    exact ⟨fun _ => rfl, fun hnot => absurd (.inl rfl) hnot⟩
  · rw [if_neg heq]
    exact h.congr (or_iff_right heq).symm

theorem Held.drop {sizeOf : Nat → Nat} {there : Nat → Prop} {sid sid' : Nat}
    (h : Held buffer (sizeOf sid') (there sid')) :
    Held (if sid' = sid then Option.none else buffer) (sizeOf sid') (sid' ≠ sid ∧ there sid') := by
  by_cases heq : sid' = sid
  · rw [if_pos heq]
    exact ⟨fun hboth => absurd heq hboth.1, fun _ => rfl⟩
  · rw [if_neg heq]
    exact h.congr (and_iff_right heq).symm

/-- The step went well, or the pool, which can run out of buffers, has done so. -/
def Fine {α : Type} (pool : HostPool π) (holds : α → Prop) : Except ReplayError α → Prop
  | .ok value => holds value
  | .error error => error = .poolExhausted ∧ ∃ hostPool size, pool.acquire hostPool size = none

theorem Fine.bind {α β : Type} {holds : α → Prop} {holds' : β → Prop} {x : Except ReplayError α}
    {f : α → Except ReplayError β} (h : Fine pool holds x)
    (hf : ∀ value, holds value → Fine pool holds' (f value)) : Fine pool holds' (x >>= f) := by
  cases x with
  | error error => exact h
  | ok value => exact hf value h

theorem Fine.mono {α : Type} {holds holds' : α → Prop} {x : Except ReplayError α}
    (h : Fine pool holds x) (hmono : ∀ value, holds value → holds' value) : Fine pool holds' x := by
  cases x with
  | error error => exact h
  | ok value => exact hmono value h

theorem fine_foldlM {α β : Type} {f : β → α → Except ReplayError β} (holds : List α → β → Prop)
    {xs : List α} {start : β} (hstart : holds [] start)
    (hstep : ∀ seen x rest value, xs = seen ++ x :: rest → holds seen value →
      Fine pool (holds (seen ++ [x])) (f value x)) :
    Fine pool (holds xs) (xs.foldlM f start) := by
  suffices hgeneral : ∀ rest seen value, xs = seen ++ rest → holds seen value →
      Fine pool (holds xs) (rest.foldlM f value) from hgeneral xs [] start rfl hstart
  intro rest
  induction rest with
  | nil =>
    intro seen value hxs hseen
    rw [append_nil] at hxs
    exact hxs ▸ hseen
  | cons x rest ih =>
    intro seen value hxs hseen
    rw [foldlM_cons]
    exact (hstep seen x rest value hxs hseen).bind fun next hnext =>
      ih (seen ++ [x]) next (by rw [hxs]; simp) hnext

section

variable (h : Shows sizeOf manager host device)

include h

theorem Shows.bind (sid : Nat) :
    Shows sizeOf (manager.bind sid (sizeOf sid)) host fun sid' => sid' = sid ∨ device sid' := by
  intro sid'
  rw [ResidencyManager.hostOf_bind, ResidencyManager.deviceOf_bind]
  exact ⟨(h sid').1, (h sid').2.add⟩

theorem Shows.releaseDevice (sid : Nat) :
    Shows sizeOf (manager.releaseDevice sid) host fun sid' => sid' ≠ sid ∧ device sid' := by
  intro sid'
  obtain ⟨hhost, hdevice⟩ := manager.releaseDevice_spec sid sid'
  rw [hhost, hdevice]
  exact ⟨(h sid').1, (h sid').2.drop⟩

theorem Shows.releaseHost (pool : HostPool π) (sid : Nat) :
    Shows sizeOf (manager.releaseHost pool sid) (fun sid' => sid' ≠ sid ∧ host sid') device := by
  intro sid'
  obtain ⟨hhost, hdevice⟩ := manager.releaseHost_spec pool sid sid'
  rw [hhost, hdevice]
  exact ⟨(h sid').1.drop, (h sid').2⟩

theorem Shows.copyD2h (pool : HostPool π) {sid : Nat} (hsome : host sid ∨ device sid) :
    Fine pool (fun manager' => Shows sizeOf manager' (fun sid' => sid' = sid ∨ host sid') device)
      (manager.copyD2h pool sid) := by
  have hdata : manager.hostOf sid = some (sizeOf sid) ∨
      manager.hostOf sid = none ∧ manager.deviceOf sid = some (sizeOf sid) := by
    by_cases hhost : host sid
    · exact .inl ((h sid).1.some hhost)
    · exact .inr ⟨(h sid).1.none hhost, (h sid).2.some (hsome.resolve_left hhost)⟩
  rcases ResidencyManager.copyD2h_spec pool hdata with ⟨hfull, hnone⟩ | ⟨manager', hok, hspec⟩
  · rw [hfull]
    exact ⟨rfl, hnone⟩
  · rw [hok]
    intro sid'
    obtain ⟨hhost, hdevice⟩ := hspec sid'
    rw [hhost, hdevice]
    exact ⟨(h sid').1.add, (h sid').2⟩

theorem Shows.copyH2d (pool : HostPool π) {sid : Nat} (hsome : host sid ∨ device sid) :
    Fine pool (fun manager' => Shows sizeOf manager' host fun sid' => sid' = sid ∨ device sid')
      (manager.copyH2d sid) := by
  have hdata : manager.deviceOf sid = some (sizeOf sid) ∨
      manager.deviceOf sid = none ∧ manager.hostOf sid = some (sizeOf sid) := by
    by_cases hdevice : device sid
    · exact .inl ((h sid).2.some hdevice)
    · exact .inr ⟨(h sid).2.none hdevice, (h sid).1.some (hsome.resolve_right hdevice)⟩
  obtain ⟨manager', hok, hspec⟩ := ResidencyManager.copyH2d_spec hdata
  rw [hok]
  intro sid'
  obtain ⟨hhost, hdevice⟩ := hspec sid'
  rw [hhost, hdevice]
  exact ⟨(h sid').1, (h sid').2.add⟩

end

end Shows

end HyperParallel.Offload
