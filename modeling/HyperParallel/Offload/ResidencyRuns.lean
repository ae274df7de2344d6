import HyperParallel.Offload.ResidencyExact

/-!
# Replays of a planned schedule

A replay goes through the phases of every operation: copies back to the device,
outputs bound, copies to the host, releases.  Before each operation the manager
shows what the gaps that were taken leave, whatever the pool does, as long as it
has buffers.
-/

namespace HyperParallel.Offload

open Foundation List

variable {π : Type} {trace : ActivationTrace}

/-! ## Actions of an operation -/

section Actions

variable (opId : Nat)

def gapPreActions (gap : EvictionCandidate) : List ResidencyAction :=
  if gap.finish.opId = opId then [⟨gap.finish.opId, gap.finish.storageId, .copyH2d⟩] else []

def gapPostActions (gap : EvictionCandidate) : List ResidencyAction :=
  (if gap.copyStart.opId = opId then
    [⟨gap.copyStart.opId, gap.copyStart.storageId, .copyD2h⟩] else []) ++
  if gap.releaseStart.opId = opId then
    [⟨gap.releaseStart.opId, gap.releaseStart.storageId, .releaseDevice⟩] else []

def lastPostActions (evictedSids : List Nat) (entry : Nat × StorageAccess) :
    List ResidencyAction :=
  (if entry.2.opId = opId then [⟨entry.2.opId, entry.1, .releaseDevice⟩] else []) ++
  if entry.1 ∈ evictedSids then
    if entry.2.opId = opId then [⟨entry.2.opId, entry.1, .releaseHost⟩] else []
  else []

theorem foldl_addEvictionActions (selected : List EvictionCandidate)
    (schedule : ResidencySchedule) :
    (selected.foldl addEvictionActions schedule).preActions opId =
        schedule.preActions opId ++ selected.flatMap (gapPreActions opId) ∧
      (selected.foldl addEvictionActions schedule).postActions opId =
        schedule.postActions opId ++ selected.flatMap (gapPostActions opId) := by
  induction selected generalizing schedule with
  | nil => simp
  | cons gap selected ih =>
    rw [foldl_cons, (ih _).1, (ih _).2, flatMap_cons, flatMap_cons]
    simp only [addEvictionActions, ResidencySchedule.preActions_addPre,
      ResidencySchedule.preActions_addPost, ResidencySchedule.postActions_addPre,
      ResidencySchedule.postActions_addPost, gapPreActions, gapPostActions, append_assoc, and_self]

theorem foldl_emitReleaseStep (evictedSids : List Nat) (entries : List (Nat × StorageAccess))
    (schedule : ResidencySchedule) :
    (entries.foldl (emitReleaseStep evictedSids []) schedule).preActions opId =
        schedule.preActions opId ∧
      (entries.foldl (emitReleaseStep evictedSids []) schedule).postActions opId =
        schedule.postActions opId ++ entries.flatMap (lastPostActions opId evictedSids) := by
  induction entries generalizing schedule with
  | nil => simp
  | cons entry entries ih =>
    rw [foldl_cons, (ih _).1, (ih _).2, flatMap_cons, emitReleaseStep,
      if_neg not_mem_nil, lastPostActions]
    dsimp only
    split
    · simp only [ResidencySchedule.preActions_addPost, ResidencySchedule.postActions_addPost,
        append_assoc, and_self]
    · simp only [ResidencySchedule.preActions_addPost, ResidencySchedule.postActions_addPost,
        append_assoc, nil_append, and_self]

theorem buildSchedule_actions {limit : Int} (hlimit : trace.memoryLimitBytes = some limit)
    (hretained : trace.retainedSids = []) (hops : trace.ops ≠ []) :
    (buildSchedule trace).preActions opId =
        (selectFor trace limit).1.flatMap (gapPreActions opId) ∧
      (buildSchedule trace).postActions opId =
        (selectFor trace limit).1.flatMap (gapPostActions opId) ++
          (buildResidentFootprint trace
            (groupAccessesByStorage trace)).releasable.entries.flatMap
              (lastPostActions opId
                ((selectFor trace limit).1.map EvictionCandidate.storageId)) := by
  have hgap := foldl_addEvictionActions opId (selectFor trace limit).1 .empty
  rw [buildSchedule, hlimit]
  dsimp only
  rw [if_neg hops, emitReleaseActions, hretained]
  obtain ⟨hpre, hpost⟩ := foldl_emitReleaseStep opId
    ((selectFor trace limit).1.map EvictionCandidate.storageId)
    (buildResidentFootprint trace (groupAccessesByStorage trace)).releasable.entries
    ((selectFor trace limit).1.foldl addEvictionActions .empty)
  rw [hpre, hpost, hgap.1, hgap.2]
  exact ⟨rfl, rfl⟩

end Actions

/-! ## Guides -/

structure Replayable (trace : ActivationTrace) (guide : List (List Nat)) : Prop where
  length_eq : guide.length = trace.ops.length
  sized : Sized trace
  bound : ∀ opId sids, guide[opId]? = some sids → ∀ sid ∈ sids, Touches trace sid opId
  first : ∀ sid opId, Touches trace sid opId → (∀ i, Touches trace sid i → opId ≤ i) →
    ∃ sids, guide[opId]? = some sids ∧ sid ∈ sids

/-! ## Between operations -/

section Between

variable (trace) (selected : List EvictionCandidate) (opId sid : Nat)

def HostBefore : Prop :=
  (∃ gap ∈ selected, gap.storageId = sid ∧ gap.copyStart.opId < opId) ∧
    ∃ i ≥ opId, Touches trace sid i

def DeviceBefore : Prop :=
  ((∃ i < opId, Touches trace sid i) ∧ ∃ i ≥ opId, Touches trace sid i) ∧
    ¬∃ gap ∈ selected, gap.storageId = sid ∧ gap.releaseStart.opId < opId ∧ opId ≤ gap.finish.opId

end Between

section Phases

variable {selected : List EvictionCandidate} {guide : List (List Nat)} {opId : Nat}
  {manager : ResidencyManager π} (pool : HostPool π)

theorem residentAt_iff (hgaps : ∀ gap ∈ selected, IsGap trace gap)
    (hguide : Replayable trace guide) (sid : Nat) :
    (sid ∈ guide[opId]?.getD [] ∨ DeviceBefore trace selected opId sid ∨
        ∃ gap ∈ selected, gap.storageId = sid ∧ gap.finish.opId = opId) ↔
      ResidentAt trace selected sid opId := by
  constructor
  · rintro (hbound | ⟨⟨⟨i, hi, htouch⟩, j, hj, htouch'⟩, hfree⟩ | ⟨gap, hgap, rfl, hfinish⟩)
    · cases hsids : guide[opId]? with
      | none =>
        rw [hsids] at hbound
        cases hbound
      | some sids =>
        rw [hsids] at hbound
        have htouch := hguide.bound opId sids hsids sid hbound
        exact ⟨inSpan_of_touches htouch, not_covered_of_touches hgaps htouch⟩
    · refine ⟨⟨⟨i, hi.le, htouch⟩, j, hj, htouch'⟩, ?_⟩
      rintro ⟨gap, hgap, hsid, hrelease, hfinish⟩
      exact hfree ⟨gap, hgap, hsid, hrelease, hfinish.le⟩
    · have htouch := (hgaps gap hgap).finishTouches
      rw [hfinish] at htouch
      exact ⟨inSpan_of_touches htouch, not_covered_of_touches hgaps htouch⟩
  · rintro ⟨⟨⟨i, hi, htouch⟩, hlater⟩, hfree⟩
    by_cases hearlier : ∃ i < opId, Touches trace sid i
    · by_cases hgap : ∃ gap ∈ selected, gap.storageId = sid ∧ gap.releaseStart.opId < opId ∧
          opId ≤ gap.finish.opId
      · obtain ⟨gap, hmem, hsid, hrelease, hfinish⟩ := hgap
        refine .inr (.inr ⟨gap, hmem, hsid, ?_⟩)
        by_contra hne
        exact hfree ⟨gap, hmem, hsid, hrelease, by omega⟩
      · exact .inr (.inl ⟨⟨hearlier, hlater⟩, hgap⟩)
    · have hfirst : ∀ j, Touches trace sid j → opId ≤ j := by
        intro j hj
        by_contra hlt
        exact hearlier ⟨j, by omega, hj⟩
      obtain rfl : i = opId := le_antisymm hi (hfirst i htouch)
      obtain ⟨sids, hsids, hin⟩ := hguide.first sid i htouch hfirst
      left
      rw [hsids]
      exact hin

theorem exists_snoc_iff {α : Type} {seen : List α} {last : α} {idOf : α → Nat} {P : α → Prop}
    {sid : Nat} : (∃ other ∈ seen ++ [last], idOf other = sid ∧ P other) ↔
      (∃ other ∈ seen, idOf other = sid ∧ P other) ∨ idOf last = sid ∧ P last := by
  simp only [mem_append, mem_singleton, or_and_right, exists_or, exists_eq_left]

theorem duringOp_shows {schedule : ResidencySchedule}
    (hgaps : ∀ gap ∈ selected, IsGap trace gap) (hguide : Replayable trace guide)
    (hpre : schedule.preActions opId = selected.flatMap (gapPreActions opId))
    (hop : opId < guide.length)
    (h : Shows (sizeOf trace) manager (HostBefore trace selected opId)
      (DeviceBefore trace selected opId)) :
    Fine pool (fun manager' => Shows (sizeOf trace) manager' (HostBefore trace selected opId)
        fun sid => ResidentAt trace selected sid opId)
      (duringOp schedule (sizeOf trace) guide opId manager) := by
  have hbegin : Fine pool (fun manager' => Shows (sizeOf trace) manager'
        (HostBefore trace selected opId) fun sid => DeviceBefore trace selected opId sid ∨
          ∃ gap ∈ selected, gap.storageId = sid ∧ gap.finish.opId = opId)
      (onOpBegin schedule guide opId manager) := by
    rw [onOpBegin, if_neg (by omega), hpre, foldlM_flatMap_eq]
    refine fine_foldlM (fun (seen : List EvictionCandidate) manager' =>
      Shows (sizeOf trace) manager' (HostBefore trace selected opId) fun sid =>
        DeviceBefore trace selected opId sid ∨
          ∃ gap ∈ seen, gap.storageId = sid ∧ gap.finish.opId = opId) ?_ ?_
    · exact h.congr (fun _ => Iff.rfl) fun sid => by simp
    · intro seen gap rest manager' hsplit hshows
      have hmem : gap ∈ selected := by
        rw [hsplit]
        simp
      have hgap := hgaps gap hmem
      rw [gapPreActions]
      split
      · rename_i hfinish
        have hhost : HostBefore trace selected opId gap.storageId := by
          refine ⟨⟨gap, hmem, rfl, ?_⟩, gap.finish.opId, hfinish.ge, hgap.finishTouches⟩
          have hcopy := hgap.copy_le
          have hwide := hgap.wide
          omega
        have hcopied := hshows.copyH2d pool (.inl hhost)
        rw [foldlM_cons, runPreAction, hgap.finishSid]
        refine hcopied.bind fun next hnext => ?_
        refine hnext.congr (fun _ => Iff.rfl) fun sid => ?_
        rw [exists_snoc_iff, and_iff_left hfinish, @eq_comm _ sid]
        exact or_comm.trans or_assoc
      · rename_i hother
        refine hshows.congr (fun _ => Iff.rfl) fun sid => or_congr_right ?_
        rw [exists_snoc_iff, or_iff_left fun hlast => hother hlast.2]
  rw [duringOp]
  cases hrun : onOpBegin schedule guide opId manager with
  | error error =>
    rw [hrun] at hbegin
    exact hbegin
  | ok begun =>
    rw [hrun] at hbegin
    change Shows (sizeOf trace) (applyShadows (sizeOf trace) guide opId begun) _ _
    have hbindings : ∀ (sids : List Nat) (manager' : ResidencyManager π) (device : Nat → Prop),
        Shows (sizeOf trace) manager' (HostBefore trace selected opId) device →
          Shows (sizeOf trace)
            (sids.foldl (fun manager sid => manager.bind sid (sizeOf trace sid)) manager')
            (HostBefore trace selected opId) fun sid => sid ∈ sids ∨ device sid := by
      intro sids
      induction sids with
      | nil => exact fun manager' device hshows => hshows.congr (fun _ => Iff.rfl) (by simp)
      | cons first sids ih =>
        intro manager' device hshows
        exact (ih _ _ (hshows.bind first)).congr (fun _ => Iff.rfl) fun sid => by
          rw [mem_cons, or_left_comm, or_assoc]
    exact (hbindings _ _ _ hbegin).congr (fun _ => Iff.rfl)
      fun sid => residentAt_iff hgaps hguide sid

/-- After the operation, the gaps that begin here are copied where they have to be and released. -/
theorem gapPostActions_shows (hgaps : ∀ gap ∈ selected, IsGap trace gap)
    (h : Shows (sizeOf trace) manager (HostBefore trace selected opId)
      fun sid => ResidentAt trace selected sid opId) :
    Fine pool (fun manager' => Shows (sizeOf trace) manager'
        (fun sid => HostBefore trace selected opId sid ∨
          ∃ gap ∈ selected, gap.storageId = sid ∧ gap.copyStart.opId = opId)
        fun sid => ResidentAt trace selected sid opId ∧
          ¬∃ gap ∈ selected, gap.storageId = sid ∧ gap.releaseStart.opId = opId)
      ((selected.flatMap (gapPostActions opId)).foldlM (runPostAction pool) manager) := by
  rw [foldlM_flatMap_eq]
  refine fine_foldlM (fun (seen : List EvictionCandidate) manager' =>
    Shows (sizeOf trace) manager'
      (fun sid => HostBefore trace selected opId sid ∨
        ∃ gap ∈ seen, gap.storageId = sid ∧ gap.copyStart.opId = opId)
      fun sid => ResidentAt trace selected sid opId ∧
        ¬∃ gap ∈ seen, gap.storageId = sid ∧ gap.releaseStart.opId = opId) ?_ ?_
  · exact h.congr (fun sid => by simp) fun sid => by simp
  · intro seen gap rest manager' hsplit hshows
    have hmem : gap ∈ selected := by
      rw [hsplit]
      simp
    have hgap := hgaps gap hmem
    rw [gapPostActions, foldlM_append]
    -- the copy, for which the data is on the device unless another gap has copied it
    have hcopy : Fine pool (fun next => Shows (sizeOf trace) next
          (fun sid => HostBefore trace selected opId sid ∨
            ∃ other ∈ seen ++ [gap], other.storageId = sid ∧ other.copyStart.opId = opId)
          fun sid => ResidentAt trace selected sid opId ∧
            ¬∃ other ∈ seen, other.storageId = sid ∧ other.releaseStart.opId = opId)
        ((if gap.copyStart.opId = opId then
          [(⟨gap.copyStart.opId, gap.copyStart.storageId, .copyD2h⟩ : ResidencyAction)]
            else []).foldlM (runPostAction pool) manager') := by
      split
      · rename_i hstart
        have htouch := hgap.copyTouches
        rw [hstart] at htouch
        have hdata : (HostBefore trace selected opId gap.storageId ∨ ∃ other ∈ seen,
              other.storageId = gap.storageId ∧ other.copyStart.opId = opId) ∨
            ResidentAt trace selected gap.storageId opId ∧
              ¬∃ other ∈ seen, other.storageId = gap.storageId ∧
                other.releaseStart.opId = opId := by
          by_cases hreleased : ∃ other ∈ seen, other.storageId = gap.storageId ∧
            other.releaseStart.opId = opId
          · obtain ⟨other, hother, hsid, hrelease⟩ := hreleased
            have hin : other ∈ selected := by
              rw [hsplit]
              exact mem_append_left _ hother
            have hle := (hgaps other hin).copy_le
            left
            by_cases hhere : other.copyStart.opId = opId
            · exact .inr ⟨other, hother, hsid, hhere⟩
            · exact .inl ⟨⟨other, hin, hsid, by omega⟩, opId, le_rfl, htouch⟩
          · exact .inr ⟨⟨inSpan_of_touches htouch, not_covered_of_touches hgaps htouch⟩, hreleased⟩
        rw [foldlM_cons, runPostAction, hgap.copySid]
        refine (hshows.copyD2h pool hdata).bind fun next hnext => ?_
        refine hnext.congr (fun sid => ?_) fun _ => Iff.rfl
        rw [exists_snoc_iff, and_iff_left hstart, @eq_comm _ sid]
        exact or_comm.trans or_assoc
      · rename_i hstart
        refine hshows.congr (fun sid => or_congr_right ?_) fun _ => Iff.rfl
        rw [exists_snoc_iff, or_iff_left fun hlast => hstart hlast.2]
    refine hcopy.bind fun next hnext => ?_
    split
    · rename_i hrelease
      rw [foldlM_cons, runPostAction, hgap.releaseSid]
      refine (hnext.releaseDevice gap.storageId).congr (fun _ => Iff.rfl) fun sid => ?_
      rw [exists_snoc_iff, and_iff_left hrelease, not_or, @eq_comm _ gap.storageId]
      exact and_comm.trans and_assoc
    · rename_i hrelease
      refine hnext.congr (fun _ => Iff.rfl) fun sid => and_congr_right fun _ => not_congr ?_
      rw [exists_snoc_iff, or_iff_left fun hlast => hrelease hlast.2]

theorem lastPostActions_shows {host device : Nat → Prop} {evictedSids : List Nat}
    (entries : List (Nat × StorageAccess)) (h : Shows (sizeOf trace) manager host device) :
    Fine pool (fun manager' => Shows (sizeOf trace) manager'
        (fun sid => host sid ∧ ¬(sid ∈ evictedSids ∧
          ∃ entry ∈ entries, entry.1 = sid ∧ entry.2.opId = opId))
        fun sid => device sid ∧ ¬∃ entry ∈ entries, entry.1 = sid ∧ entry.2.opId = opId)
      ((entries.flatMap (lastPostActions opId evictedSids)).foldlM (runPostAction pool)
        manager) := by
  rw [foldlM_flatMap_eq]
  refine fine_foldlM (fun (seen : List (Nat × StorageAccess)) manager' =>
    Shows (sizeOf trace) manager'
      (fun sid => host sid ∧ ¬(sid ∈ evictedSids ∧
        ∃ entry ∈ seen, entry.1 = sid ∧ entry.2.opId = opId))
      fun sid => device sid ∧ ¬∃ entry ∈ seen, entry.1 = sid ∧ entry.2.opId = opId) ?_ ?_
  · exact h.congr (fun sid => by simp) fun sid => by simp
  · intro seen entry rest manager' hsplit hshows
    have hseen (sid : Nat) : (∃ other ∈ seen ++ [entry], other.1 = sid ∧ other.2.opId = opId) ↔
        (∃ other ∈ seen, other.1 = sid ∧ other.2.opId = opId) ∨
          sid = entry.1 ∧ entry.2.opId = opId := by
      rw [@eq_comm _ sid]
      exact exists_snoc_iff
    rw [lastPostActions]
    by_cases hhere : entry.2.opId = opId
    · rw [if_pos hhere, if_pos hhere]
      have hdevice := hshows.releaseDevice entry.1
      have hreleased (sid : Nat) : (sid ≠ entry.1 ∧ device sid ∧
          ¬∃ other ∈ seen, other.1 = sid ∧ other.2.opId = opId) ↔
          device sid ∧ ¬∃ other ∈ seen ++ [entry], other.1 = sid ∧ other.2.opId = opId := by
        rw [hseen, and_iff_left hhere, not_or]
        exact and_comm.trans and_assoc
      by_cases hevicted : entry.1 ∈ evictedSids
      · rw [if_pos hevicted]
        refine (hdevice.releaseHost pool entry.1).congr (fun sid => ?_) hreleased
        rw [hseen]
        constructor
        · rintro ⟨hne, hhost, hnone⟩
          refine ⟨hhost, ?_⟩
          rintro ⟨hin, hother | ⟨heq, -⟩⟩
          · exact hnone ⟨hin, hother⟩
          · exact hne heq
        · rintro ⟨hhost, hnone⟩
          refine ⟨?_, hhost, fun hboth => hnone ⟨hboth.1, .inl hboth.2⟩⟩
          rintro rfl
          exact hnone ⟨hevicted, .inr ⟨rfl, hhere⟩⟩
      · rw [if_neg hevicted, append_nil]
        refine hdevice.congr (fun sid => ?_) hreleased
        rw [hseen]
        refine and_congr_right fun _ => not_congr (and_congr_right fun hin => ?_)
        rw [or_iff_left]
        rintro ⟨rfl, -⟩
        exact hevicted hin
    · rw [if_neg hhere, if_neg hhere, ite_self, append_nil]
      have hsame (sid : Nat) : (∃ other ∈ seen ++ [entry], other.1 = sid ∧ other.2.opId = opId) ↔
          ∃ other ∈ seen, other.1 = sid ∧ other.2.opId = opId := by
        rw [hseen, or_iff_left fun hlast => hhere hlast.2]
      exact hshows.congr (fun sid => by rw [hsame]) fun sid => by rw [hsame]

end Phases

/-! ## Whole replays -/

theorem releasable_touch (hsized : Sized trace) {sid opId : Nat} :
    (∃ entry ∈ (buildResidentFootprint trace
        (groupAccessesByStorage trace)).releasable.entries, entry.1 = sid ∧ entry.2.opId = opId) ↔
      Touches trace sid opId ∧ ∀ i, Touches trace sid i → i ≤ opId := by
  rw [buildResidentFootprint]
  dsimp only
  rw [(footprint_fold trace).2.2]
  constructor
  · rintro ⟨released, hreleased, rfl, rfl⟩
    obtain ⟨entry, hentry, hlast⟩ := mem_filterMap.mp hreleased
    obtain ⟨footprint, hfootprint, hspec⟩ := footprintOf_exists hsized hentry
    rw [hfootprint, Option.map_some, Option.some_inj] at hlast
    subst hlast
    rw [hspec.lastAccess]
    exact ⟨hspec.lastTouches, fun i hi => ((hspec.span i).mp (inSpan_of_touches hi)).2⟩
  · rintro ⟨htouch, hlast⟩
    obtain ⟨accesses, hget⟩ := (PyDict.mem_keys_iff _).mp (mem_keys_group.mpr ⟨opId, htouch⟩)
    have hentry := (PyDict.mem_entries_iff _).mpr hget
    obtain ⟨footprint, hfootprint, hspec⟩ := footprintOf_exists hsized hentry
    refine ⟨(sid, footprint.lastAccess), mem_filterMap.mpr ⟨_, hentry, ?_⟩, rfl, ?_⟩
    · rw [hfootprint]
      rfl
    · rw [hspec.lastAccess]
      exact le_antisymm (hlast _ hspec.lastTouches)
        ((hspec.span opId).mp (inSpan_of_touches htouch)).2

section Runs

variable {limit : Int} {guide : List (List Nat)}

theorem replayOp_shows (pool : HostPool π) (hlimit : trace.memoryLimitBytes = some limit)
    (hretained : trace.retainedSids = []) (hguide : Replayable trace guide) {opId : Nat}
    (hop : opId < trace.ops.length) {manager : ResidencyManager π}
    (h : Shows (sizeOf trace) manager (HostBefore trace (selectFor trace limit).1 opId)
      (DeviceBefore trace (selectFor trace limit).1 opId)) :
    Fine pool (fun manager' => Shows (sizeOf trace) manager'
        (HostBefore trace (selectFor trace limit).1 (opId + 1))
        (DeviceBefore trace (selectFor trace limit).1 (opId + 1)))
      (replayOp pool (buildSchedule trace) (sizeOf trace) guide manager opId) := by
  have hgaps : ∀ gap ∈ (selectFor trace limit).1, IsGap trace gap := fun _ => selected_gaps
  have hops : trace.ops ≠ [] := ne_nil_of_length_pos (Nat.zero_lt_of_lt hop)
  obtain ⟨hpre, hpost⟩ := buildSchedule_actions opId hlimit hretained hops
  have hduring := duringOp_shows pool hgaps hguide hpre (hguide.length_eq ▸ hop) h
  rw [replayOp]
  refine hduring.bind fun during hshows => ?_
  rw [runPostActions, hpost, foldlM_append]
  refine (gapPostActions_shows pool hgaps hshows).bind fun released hreleased => ?_
  refine (lastPostActions_shows pool _ hreleased).mono fun next hnext => ?_
  refine hnext.congr (fun sid => ?_) fun sid => ?_
  · rw [releasable_touch hguide.sized]
    constructor
    · rintro ⟨hhost, hkept⟩
      have hcopied : ∃ gap ∈ (selectFor trace limit).1, gap.storageId = sid ∧
          gap.copyStart.opId < opId + 1 := by
        rcases hhost with ⟨⟨gap, hgap, hsid, hcopy⟩, -⟩ | ⟨gap, hgap, hsid, hcopy⟩
        · exact ⟨gap, hgap, hsid, by omega⟩
        · exact ⟨gap, hgap, hsid, by omega⟩
      refine ⟨hcopied, ?_⟩
      obtain ⟨gap, hgap, hsid, hcopy⟩ := hcopied
      by_contra hnone
      have hlast : ∀ i, Touches trace sid i → i ≤ opId := fun i hi => by
        by_contra hlt
        exact hnone ⟨i, by omega, hi⟩
      refine hkept ⟨mem_map.mpr ⟨gap, hgap, hsid⟩, ?_, hlast⟩
      rcases hhost with ⟨-, i, hi, htouch⟩ | ⟨other, hother, rfl, hhere⟩
      · rwa [← le_antisymm (hlast i htouch) hi]
      · exact hhere ▸ (hgaps other hother).copyTouches
    · rintro ⟨⟨gap, hgap, hsid, hcopy⟩, i, hi, htouch⟩
      refine ⟨?_, fun hreleased => absurd (hreleased.2.2 i htouch) (by omega)⟩
      by_cases hhere : gap.copyStart.opId = opId
      · exact .inr ⟨gap, hgap, hsid, hhere⟩
      · exact .inl ⟨⟨gap, hgap, hsid, by omega⟩, i, by omega, htouch⟩
  · rw [releasable_touch hguide.sized]
    constructor
    · rintro ⟨⟨⟨⟨⟨i, hi, htouch⟩, j, hj, htouch'⟩, hfree⟩, hnone⟩, hnotLast⟩
      refine ⟨⟨⟨i, by omega, htouch⟩, ?_⟩, ?_⟩
      · by_contra hend
        have hlast : ∀ k, Touches trace sid k → k ≤ opId := fun k hk => by
          by_contra hlt
          exact hend ⟨k, by omega, hk⟩
        refine hnotLast ⟨?_, hlast⟩
        rwa [← le_antisymm (hlast j htouch') hj]
      · rintro ⟨gap, hgap, hsid, hrelease, hfinish⟩
        by_cases hhere : gap.releaseStart.opId = opId
        · exact hnone ⟨gap, hgap, hsid, hhere⟩
        · exact hfree ⟨gap, hgap, hsid, by omega, by omega⟩
    · rintro ⟨⟨⟨i, hi, htouch⟩, j, hj, htouch'⟩, hfree⟩
      refine ⟨⟨⟨⟨⟨i, by omega, htouch⟩, j, by omega, htouch'⟩, ?_⟩, ?_⟩, ?_⟩
      · rintro ⟨gap, hgap, hsid, hrelease, hfinish⟩
        exact hfree ⟨gap, hgap, hsid, by omega, by omega⟩
      · rintro ⟨gap, hgap, hsid, hhere⟩
        have hwide := (hgaps gap hgap).wide
        exact hfree ⟨gap, hgap, hsid, by omega, by omega⟩
      · rintro ⟨-, hlast⟩
        have hle := hlast j htouch'
        omega

theorem replayBefore_shows (pool : HostPool π) (hlimit : trace.memoryLimitBytes = some limit)
    (hretained : trace.retainedSids = []) (hguide : Replayable trace guide) (hostPool : π)
    {opId : Nat} (hop : opId ≤ trace.ops.length) :
    Fine pool (fun manager => Shows (sizeOf trace) manager
        (HostBefore trace (selectFor trace limit).1 opId)
        (DeviceBefore trace (selectFor trace limit).1 opId))
      (replayBefore pool (buildSchedule trace) (sizeOf trace) guide hostPool opId) := by
  induction opId with
  | zero =>
    refine (shows_empty hostPool).congr (fun sid => ?_) fun sid => ?_
    · refine ⟨False.elim, ?_⟩
      rintro ⟨⟨gap, -, -, hcopy⟩, -⟩
      omega
    · refine ⟨False.elim, ?_⟩
      rintro ⟨⟨⟨i, hi, -⟩, -⟩, -⟩
      omega
  | succ opId ih =>
    rw [replayBefore, range_succ, foldlM_append]
    refine (ih (by omega)).bind fun manager hmanager => ?_
    have hstep := replayOp_shows pool hlimit hretained hguide (by omega) hmanager
    rw [foldlM_cons]
    exact hstep.bind fun next hnext => hnext

/--
For a trace that retains nothing and every limit, a replay of the schedule has, during every
operation, the bytes on the device that the planner ends with, unless the host pool runs out; and
these are within the limit exactly when evicting every gap brings them there.
-/
theorem residencyPlan_exact (hlimit : trace.memoryLimitBytes = some limit)
    (hretained : trace.retainedSids = []) :
    (∀ guide, Replayable trace guide → ∀ (pool : HostPool π) (hostPool : π) (opId : Nat),
      opId < trace.ops.length →
        Fine pool (fun bytes : Nat => (bytes : Int) = (selectFor trace limit).2[opId]?.getD 0)
          (residentDuring pool (buildSchedule trace) (sizeOf trace) guide hostPool opId)) ∧
    let footprint := buildResidentFootprint trace (groupAccessesByStorage trace)
    (WithinLimit (selectFor trace limit).2 limit ↔
      WithinLimit (evictAll footprint.candidates footprint.residentBytes) limit) := by
  refine ⟨fun guide hguide pool hostPool opId hop => ?_, greedySelect_withinLimit_iff limit _ _⟩
  have hgaps : ∀ gap ∈ (selectFor trace limit).1, IsGap trace gap := fun _ => selected_gaps
  have hops : trace.ops ≠ [] := ne_nil_of_length_pos (Nat.zero_lt_of_lt hop)
  obtain ⟨hpre, -⟩ := buildSchedule_actions opId hlimit hretained hops
  rw [residentDuring]
  refine (replayBefore_shows pool hlimit hretained hguide hostPool hop.le).bind
    fun manager hmanager => ?_
  have hduring := duringOp_shows pool hgaps hguide hpre (hguide.length_eq ▸ hop) hmanager
  refine hduring.bind fun during hshows => ?_
  change (during.residentBytes : Int) = _
  rw [selectFor_bytes hguide.sized, ResidencyManager.residentBytes_eq
    (groupAccessesByStorage trace).keys_nodup]
  · refine congrArg (fun total : Nat => (total : Int)) (congrArg List.sum
      (map_congr_left fun sid _ => ?_))
    by_cases hresident : ResidentAt trace (selectFor trace limit).1 sid opId
    · rw [(hshows sid).2.some hresident, if_pos hresident]
      rfl
    · rw [(hshows sid).2.none hresident, if_neg hresident]
      rfl
  · intro sid hdevice
    by_cases hresident : ResidentAt trace (selectFor trace limit).1 sid opId
    · obtain ⟨⟨⟨i, -, htouch⟩, -⟩, -⟩ := hresident
      exact mem_keys_group.mpr ⟨i, htouch⟩
    · exact absurd ((hshows sid).2.none hresident) hdevice

end Runs

def idleBetween : ActivationTrace where
  ops := [⟨[⟨0, 1, .write⟩]⟩, ⟨[⟨1, 2, .write⟩]⟩, ⟨[⟨2, 1, .read⟩, ⟨2, 2, .read⟩]⟩]
  storageSizes := (PyDict.empty.set 1 4).set 2 6
  retainedSids := []
  memoryLimitBytes := some 6

theorem idleBetween_replayable : Replayable idleBetween [[1], [2], []] := by
  have htouches : ∀ {sid opId}, Touches idleBetween sid opId →
      (sid, opId) ∈ [(1, 0), (2, 1), (1, 2), (2, 2)] := by
    rintro sid opId ⟨access, haccess, rfl, rfl⟩
    simp [idleBetween] at haccess
    rcases haccess with rfl | rfl | rfl | rfl <;> decide
  refine ⟨rfl, ?_, ?_, ?_⟩
  · intro sid opId htouch
    have hmem := htouches htouch
    simp at hmem
    rcases hmem with ⟨rfl, rfl⟩ | ⟨rfl, rfl⟩ | ⟨rfl, rfl⟩ | ⟨rfl, rfl⟩
    · exact ⟨4, rfl⟩
    · exact ⟨6, rfl⟩
    · exact ⟨4, rfl⟩
    · exact ⟨6, rfl⟩
  · intro opId sids hsids sid hsid
    match opId, hsids with
    | 0, rfl => exact ⟨⟨0, 1, .write⟩, by decide, (mem_singleton.mp hsid).symm, rfl⟩
    | 1, rfl => exact ⟨⟨1, 2, .write⟩, by decide, (mem_singleton.mp hsid).symm, rfl⟩
    | 2, rfl => cases hsid
  · intro sid opId htouch hfirst
    have hmem := htouches htouch
    simp at hmem
    rcases hmem with ⟨rfl, rfl⟩ | ⟨rfl, rfl⟩ | ⟨rfl, rfl⟩ | ⟨rfl, rfl⟩
    · exact ⟨[1], rfl, mem_singleton_self _⟩
    · exact ⟨[2], rfl, mem_singleton_self _⟩
    · exact absurd (hfirst 0 ⟨⟨0, 1, .write⟩, by decide, rfl, rfl⟩) (by decide)
    · exact absurd (hfirst 1 ⟨⟨1, 2, .write⟩, by decide, rfl, rfl⟩) (by decide)

theorem idleBetween_exact :
    let pool : HostPool Unit := ⟨fun hostPool _ => some hostPool, fun hostPool _ => hostPool⟩
    Fine pool (fun bytes : Nat => (bytes : Int) = (selectFor idleBetween 6).2[1]?.getD 0)
      (residentDuring pool (buildSchedule idleBetween) (sizeOf idleBetween) [[1], [2], []] () 1) :=
  (residencyPlan_exact rfl rfl).1 _ idleBetween_replayable _ () 1 (by decide)

end HyperParallel.Offload
