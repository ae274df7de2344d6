import HyperParallel.Offload.GreedySelection
import Mathlib.Data.List.Sort

/-!
# Gaps of a trace

What the planner enumerates: for each storage, its span from the first access to
the last one, and the gaps between adjacent accesses.  No two gaps of a storage
begin at the same operation.
-/

namespace HyperParallel.Offload

open Foundation List

def Touches (trace : ActivationTrace) (sid opId : Nat) : Prop :=
  ∃ access ∈ trace.ops.flatMap TraceOp.accesses, access.storageId = sid ∧ access.opId = opId

/-- From the first access of the storage to its last one. -/
def InSpan (trace : ActivationTrace) (sid opId : Nat) : Prop :=
  (∃ i ≤ opId, Touches trace sid i) ∧ ∃ i ≥ opId, Touches trace sid i

structure IsGap (trace : ActivationTrace) (gap : EvictionCandidate) : Prop where
  copySid : gap.copyStart.storageId = gap.storageId
  releaseSid : gap.releaseStart.storageId = gap.storageId
  finishSid : gap.finish.storageId = gap.storageId
  copyTouches : Touches trace gap.storageId gap.copyStart.opId
  releaseTouches : Touches trace gap.storageId gap.releaseStart.opId
  finishTouches : Touches trace gap.storageId gap.finish.opId
  copy_le : gap.copyStart.opId ≤ gap.releaseStart.opId
  wide : gap.releaseStart.opId + 2 ≤ gap.finish.opId
  adjacent : ∀ opId, Touches trace gap.storageId opId →
    opId ≤ gap.releaseStart.opId ∨ gap.finish.opId ≤ opId
  size_eq : trace.storageSizes.get? gap.storageId = some gap.sizeBytes

def DistinctGaps (gaps : List EvictionCandidate) : Prop :=
  gaps.Pairwise fun left right =>
    left.storageId = right.storageId → left.releaseStart.opId ≠ right.releaseStart.opId

theorem mem_affectedOps {candidate : EvictionCandidate} {opId : Nat} :
    opId ∈ candidate.affectedOps ↔
      candidate.releaseStart.opId < opId ∧ opId < candidate.finish.opId := by
  rw [EvictionCandidate.affectedOps, mem_range'_1, EvictionCandidate.startInterior,
    EvictionCandidate.endInterior]
  omega

/-! ## One storage -/

section OneStorage

variable {trace : ActivationTrace} {sid : Nat} {accesses : List StorageAccess}

theorem orderedAccesses_perm (accesses : List StorageAccess) :
    (orderedAccesses accesses).Perm accesses :=
  List.mergeSort_perm _ _

theorem orderedAccesses_mono {i j : Nat} {left right : StorageAccess}
    (hleft : (orderedAccesses accesses)[i]? = some left)
    (hright : (orderedAccesses accesses)[j]? = some right) (hle : i ≤ j) :
    left.opId ≤ right.opId := by
  have hsorted : (orderedAccesses accesses).Pairwise fun left right => left.opId ≤ right.opId := by
    have h := @pairwise_mergeSort _ (fun left right : StorageAccess =>
      decide (left.opId ≤ right.opId)) (by simp; omega) (by simp; omega) accesses
    rw [orderedAccesses]
    simpa using h
  obtain ⟨hi, rfl⟩ := List.getElem?_eq_some_iff.mp hleft
  obtain ⟨hj, rfl⟩ := List.getElem?_eq_some_iff.mp hright
  rcases Nat.lt_or_eq_of_le hle with hlt | rfl
  · exact pairwise_iff_getElem.mp hsorted i j hi hj hlt
  · exact le_rfl

theorem earliestSafeCopyStart_spec {k : Nat} {copyStart : StorageAccess}
    (h : earliestSafeCopyStart accesses k = some copyStart) :
    ∃ j ≤ k, accesses[j]? = some copyStart := by
  rw [earliestSafeCopyStart, Option.or_eq_some_iff] at h
  rcases h with hfound | ⟨-, hhead⟩
  · have hmem := mem_reverse.mp (mem_of_find?_eq_some hfound)
    obtain ⟨j, hj⟩ := mem_iff_getElem?.mp hmem
    rw [getElem?_take] at hj
    split at hj
    · exact ⟨j, by omega, hj⟩
    · cases hj
  · exact ⟨0, Nat.zero_le k, by rw [← head?_eq_getElem?]; exact hhead⟩

theorem gapCandidate_spec {sizeBytes k : Nat} {left right : StorageAccess}
    {candidate : EvictionCandidate}
    (h : gapCandidate sid sizeBytes accesses ((left, right), k) = some candidate) :
    candidate.storageId = sid ∧ candidate.sizeBytes = sizeBytes ∧ candidate.releaseStart = left ∧
      candidate.finish = right ∧ (∃ j ≤ k, accesses[j]? = some candidate.copyStart) ∧
      left.opId + 2 ≤ right.opId := by
  rw [gapCandidate, Option.bind_eq_bind, Option.bind_eq_some_iff] at h
  obtain ⟨copyStart, hcopy, h⟩ := h
  dsimp only at h
  split at h
  · rename_i hwide
    obtain rfl := Option.some.inj h
    refine ⟨rfl, rfl, rfl, rfl, earliestSafeCopyStart_spec hcopy, ?_⟩
    simp only [EvictionCandidate.startInterior, EvictionCandidate.endInterior] at hwide
    omega
  · cases h

theorem mem_adjacent {ordered : List StorageAccess} {left right : StorageAccess} {k : Nat}
    (h : ((left, right), k) ∈ (ordered.zip ordered.tail).zipIdx) :
    ordered[k]? = some left ∧ ordered[k + 1]? = some right := by
  have hget := mem_zipIdx_iff_getElem?.mp h
  obtain ⟨hleft, hright⟩ := getElem?_zip_eq_some.mp hget
  rw [getElem?_tail] at hright
  exact ⟨hleft, hright⟩

structure FootprintOf (trace : ActivationTrace) (sid sizeBytes : Nat) (footprint : Footprint) :
    Prop where
  sizeBytes_eq : footprint.sizeBytes = sizeBytes
  span : ∀ opId, InSpan trace sid opId ↔ footprint.firstOpId ≤ opId ∧ opId ≤ footprint.lastOpId
  lastTouches : Touches trace sid footprint.lastOpId
  lastAccess : footprint.lastAccess.opId = footprint.lastOpId
  gaps : ∀ candidate ∈ footprint.candidacies, candidate.storageId = sid ∧ IsGap trace candidate
  distinct : DistinctGaps footprint.candidacies

theorem processStorageAccesses_spec {sizeBytes : Nat} {footprint : Footprint}
    (haccesses : ∀ access, access ∈ accesses ↔
      access ∈ trace.ops.flatMap TraceOp.accesses ∧ access.storageId = sid)
    (hsize : trace.storageSizes.get? sid = some sizeBytes)
    (h : processStorageAccesses sid sizeBytes accesses = some footprint) :
    FootprintOf trace sid sizeBytes footprint := by
  obtain ⟨ordered, hordered⟩ : ∃ ordered, orderedAccesses accesses = ordered := ⟨_, rfl⟩
  have hperm := orderedAccesses_perm accesses
  have hmono := fun i j left right => @orderedAccesses_mono accesses i j left right
  rw [hordered] at hperm hmono
  have hmem : ∀ access, access ∈ ordered ↔
      access ∈ trace.ops.flatMap TraceOp.accesses ∧ access.storageId = sid := fun access => by
    rw [hperm.mem_iff, haccesses]
  have htouches : ∀ opId, Touches trace sid opId ↔
      ∃ (k : Nat) (access : StorageAccess), ordered[k]? = some access ∧ access.opId = opId := by
    intro opId
    constructor
    · rintro ⟨access, hin, hsid, hop⟩
      obtain ⟨k, hk⟩ := mem_iff_getElem?.mp ((hmem access).mpr ⟨hin, hsid⟩)
      exact ⟨k, access, hk, hop⟩
    · rintro ⟨k, access, hk, hop⟩
      obtain ⟨hin, hsid⟩ := (hmem access).mp (mem_of_getElem? hk)
      exact ⟨access, hin, hsid, hop⟩
  have hsidOf : ∀ (k : Nat) access, ordered[k]? = some access → access.storageId = sid :=
    fun k access hk => ((hmem access).mp (mem_of_getElem? hk)).2
  rw [processStorageAccesses, hordered] at h
  simp only [Option.bind_eq_bind, Option.bind_eq_some_iff, Option.pure_def, Option.some.injEq] at h
  obtain ⟨first, hfirst, last, hlast, rfl⟩ := h
  rw [head?_eq_getElem?] at hfirst
  rw [getLast?_eq_getElem?] at hlast
  refine ⟨rfl, fun opId => ?_, (htouches _).mpr ⟨_, _, hlast, rfl⟩, rfl, ?_, ?_⟩
  · constructor
    · rintro ⟨⟨i, hi, htouch⟩, ⟨j, hj, htouch'⟩⟩
      obtain ⟨k, access, hk, rfl⟩ := (htouches i).mp htouch
      obtain ⟨k', access', hk', rfl⟩ := (htouches j).mp htouch'
      have hbefore := hmono 0 k first access hfirst hk (Nat.zero_le k)
      have hlt := (List.getElem?_eq_some_iff.mp hk').1
      have hafter := hmono k' (ordered.length - 1) access' last hk' hlast (by omega)
      dsimp only
      omega
    · rintro ⟨hle, hge⟩
      exact ⟨⟨first.opId, hle, (htouches _).mpr ⟨0, first, hfirst, rfl⟩⟩,
        ⟨last.opId, hge, (htouches _).mpr ⟨_, last, hlast, rfl⟩⟩⟩
  · intro candidate hcandidate
    obtain ⟨⟨⟨left, right⟩, k⟩, hadjacent, hgap⟩ := mem_filterMap.mp hcandidate
    obtain ⟨hleft, hright⟩ := mem_adjacent hadjacent
    obtain ⟨rfl, rfl, rfl, rfl, ⟨j, hj, hcopy⟩, hwide⟩ := gapCandidate_spec hgap
    refine ⟨rfl, hsidOf _ _ hcopy, hsidOf _ _ hleft, hsidOf _ _ hright,
      (htouches _).mpr ⟨j, _, hcopy, rfl⟩, (htouches _).mpr ⟨k, _, hleft, rfl⟩,
      (htouches _).mpr ⟨k + 1, _, hright, rfl⟩, hmono j k _ _ hcopy hleft hj, hwide, ?_, hsize⟩
    intro opId htouch
    obtain ⟨m, access, hm, rfl⟩ := (htouches opId).mp htouch
    rcases Nat.lt_or_ge k m with hlt | hge
    · exact .inr (hmono (k + 1) m _ _ hright hm hlt)
    · exact .inl (hmono m k _ _ hm hleft hge)
  · refine List.Pairwise.filterMap _ (R := fun left right : (StorageAccess × StorageAccess) × Nat =>
      left.2 < right.2 ∧ left ∈ (ordered.zip ordered.tail).zipIdx ∧
        right ∈ (ordered.zip ordered.tail).zipIdx) ?_ ?_
    · rintro ⟨⟨left, right⟩, k⟩ ⟨⟨left', right'⟩, k'⟩ ⟨hlt, hin, hin'⟩ candidate hgap candidate'
        hgap' -
      obtain ⟨hleft, hright⟩ := mem_adjacent hin
      obtain ⟨hleft', -⟩ := mem_adjacent hin'
      obtain ⟨-, -, hrelease, -, -, hwide⟩ := gapCandidate_spec hgap
      obtain ⟨-, -, hrelease', -, -, -⟩ := gapCandidate_spec hgap'
      have hafter := hmono (k + 1) k' _ _ hright hleft' hlt
      rw [hrelease, hrelease']
      omega
    · rw [pairwise_iff_getElem]
      intro i j hi hj hlt
      refine ⟨?_, getElem_mem hi, getElem_mem hj⟩
      rw [getElem_zipIdx, getElem_zipIdx]
      dsimp only
      omega

end OneStorage

/-! ## All storages -/

section AllStorages

variable {trace : ActivationTrace}

theorem groupAccessesByStorage_entry {sid : Nat} {accesses : List StorageAccess}
    (h : (sid, accesses) ∈ (groupAccessesByStorage trace).entries) :
    accesses ≠ [] ∧ ∀ access, access ∈ accesses ↔
      access ∈ trace.ops.flatMap TraceOp.accesses ∧ access.storageId = sid := by
  have hget := (PyDict.mem_entries_iff _).mp h
  rw [groupAccessesByStorage, PyDict.get?_group] at hget
  split at hget
  · cases hget
  · rename_i hne
    obtain rfl := Option.some.inj hget
    refine ⟨by simpa using hne, fun access => ?_⟩
    simp only [mem_map, mem_filter, decide_eq_true_eq]
    constructor
    · rintro ⟨_, ⟨⟨found, hfound, rfl⟩, hsid⟩, rfl⟩
      exact ⟨hfound, hsid⟩
    · rintro ⟨hin, hsid⟩
      exact ⟨(access.storageId, access), ⟨⟨access, hin, rfl⟩, hsid⟩, rfl⟩

theorem mem_keys_group {sid : Nat} :
    sid ∈ (groupAccessesByStorage trace).keys ↔ ∃ opId, Touches trace sid opId := by
  rw [PyDict.mem_keys_iff, groupAccessesByStorage]
  simp only [PyDict.get?_group]
  constructor
  · rintro ⟨accesses, haccesses⟩
    split at haccesses
    · cases haccesses
    · rename_i hne
      obtain ⟨pair, hpair⟩ := exists_mem_of_ne_nil _ hne
      obtain ⟨hin, hsid⟩ := mem_filter.mp hpair
      obtain ⟨access, haccess, rfl⟩ := mem_map.mp hin
      exact ⟨access.opId, access, haccess, of_decide_eq_true hsid, rfl⟩
  · rintro ⟨opId, access, haccess, hsid, -⟩
    rw [if_neg]
    · exact ⟨_, rfl⟩
    · intro hnil
      have hmem : (access.storageId, access) ∈ ((trace.ops.flatMap TraceOp.accesses).map
          fun access => (access.storageId, access)).filter fun pair => pair.1 = sid :=
        mem_filter.mpr ⟨mem_map_of_mem haccess, decide_eq_true hsid⟩
      rw [hnil] at hmem
      cases hmem

def footprintOf (trace : ActivationTrace) (entry : Nat × List StorageAccess) : Option Footprint :=
  (trace.storageSizes.get? entry.1).bind fun sizeBytes =>
    processStorageAccesses entry.1 sizeBytes entry.2

theorem footprintOf_spec {entry : Nat × List StorageAccess} {footprint : Footprint}
    (hentry : entry ∈ (groupAccessesByStorage trace).entries)
    (h : footprintOf trace entry = some footprint) :
    ∃ sizeBytes, trace.storageSizes.get? entry.1 = some sizeBytes ∧
      FootprintOf trace entry.1 sizeBytes footprint := by
  obtain ⟨sizeBytes, hsize, hprocess⟩ := Option.bind_eq_some_iff.mp h
  exact ⟨sizeBytes, hsize, processStorageAccesses_spec
    (groupAccessesByStorage_entry hentry).2 hsize hprocess⟩

def spanBytes (trace : ActivationTrace) (opId : Nat) (entry : Nat × List StorageAccess) : Int :=
  match footprintOf trace entry with
  | none => 0
  | some footprint =>
    if footprint.firstOpId ≤ opId ∧ opId ≤ footprint.lastOpId then footprint.sizeBytes else 0

theorem footprintStep_eq (footprints : ResidentFootprint) (entry : Nat × List StorageAccess) :
    footprintStep trace footprints entry =
      match footprintOf trace entry with
      | none => footprints
      | some footprint =>
        ⟨addAt footprints.residentBytes
            (List.range' footprint.firstOpId (footprint.lastOpId + 1 - footprint.firstOpId))
            footprint.sizeBytes,
          footprints.candidates ++ footprint.candidacies,
          footprints.releasable.set entry.1 footprint.lastAccess⟩ := by
  rw [footprintStep, footprintOf]
  cases trace.storageSizes.get? entry.1 with
  | none => rfl
  | some sizeBytes =>
    dsimp only [Option.bind_some]
    cases hprocess : processStorageAccesses entry.1 sizeBytes entry.2 with
    | none => rfl
    | some footprint =>
      have hsize : footprint.sizeBytes = sizeBytes := by
        rw [processStorageAccesses] at hprocess
        simp only [Option.bind_eq_bind, Option.bind_eq_some_iff, Option.pure_def,
          Option.some.injEq] at hprocess
        obtain ⟨_, _, _, _, rfl⟩ := hprocess
        rfl
      dsimp only
      rw [hsize]

theorem foldl_footprintStep (entries : List (Nat × List StorageAccess)) (start : ResidentFootprint)
    (hfresh : ∀ entry ∈ entries, entry.1 ∉ start.releasable.keys)
    (hnodup : (entries.map Prod.fst).Nodup) :
    let result := entries.foldl (footprintStep trace) start
    (∀ opId : Nat, result.residentBytes[opId]? =
        start.residentBytes[opId]?.map (· + (entries.map (spanBytes trace opId)).sum)) ∧
      result.candidates = start.candidates ++ entries.flatMap (fun entry =>
        ((footprintOf trace entry).map Footprint.candidacies).getD []) ∧
      result.releasable.entries = start.releasable.entries ++ entries.filterMap fun entry =>
        (footprintOf trace entry).map fun footprint => (entry.1, footprint.lastAccess) := by
  induction entries generalizing start with
  | nil => simp
  | cons entry entries ih =>
    rw [map_cons, nodup_cons] at hnodup
    rw [foldl_cons, footprintStep_eq, flatMap_cons, filterMap_cons]
    cases hfootprint : footprintOf trace entry with
    | none =>
      obtain ⟨hbytes, hcandidates, hreleasable⟩ := ih start
        (fun entry hentry => hfresh entry (mem_cons_of_mem _ hentry)) hnodup.2
      refine ⟨fun opId => ?_, hcandidates, hreleasable⟩
      rw [hbytes, map_cons, sum_cons, spanBytes, hfootprint]
      simp only [Int.zero_add]
    | some footprint =>
      have hnew : entry.1 ∉ start.releasable.keys := hfresh entry mem_cons_self
      obtain ⟨hbytes, hcandidates, hreleasable⟩ := ih
        ⟨addAt start.residentBytes
            (List.range' footprint.firstOpId (footprint.lastOpId + 1 - footprint.firstOpId))
            footprint.sizeBytes,
          start.candidates ++ footprint.candidacies,
          start.releasable.set entry.1 footprint.lastAccess⟩
        (by
          intro other hother hmem
          rcases (PyDict.mem_keys_set _ _ _ _).mp hmem with heq | hold
          · exact hnodup.1 (heq ▸ mem_map_of_mem hother)
          · exact hfresh other (mem_cons_of_mem _ hother) hold) hnodup.2
      refine ⟨fun opId => ?_, ?_, ?_⟩
      · rw [hbytes, getElem?_addAt, Option.map_map, map_cons, sum_cons, spanBytes, hfootprint]
        refine congrArg (fun f => start.residentBytes[opId]?.map f) (funext fun bytes => ?_)
        simp only [Function.comp_apply]
        have hcount : ((List.range' footprint.firstOpId
            (footprint.lastOpId + 1 - footprint.firstOpId)).count opId : Int) =
              if footprint.firstOpId ≤ opId ∧ opId ≤ footprint.lastOpId then 1 else 0 := by
          have hrange : List.Nodup (List.range' footprint.firstOpId
            (footprint.lastOpId + 1 - footprint.firstOpId)) := nodup_range'
          split
          · rename_i hin
            rw [count_eq_one_of_mem hrange (by rw [mem_range'_1]; omega)]
            rfl
          · rename_i hout
            rw [count_eq_zero_of_not_mem (by rw [mem_range'_1]; omega)]
            rfl
        rw [hcount]
        split <;> omega
      · rw [hcandidates]
        simp
      · rw [hreleasable, PyDict.entries_set_of_notMem _ _ hnew]
        simp

end AllStorages

end HyperParallel.Offload
