import HyperParallel.Offload.ResidencyBuffers
import HyperParallel.Offload.ResidencyGaps
import Mathlib.Algebra.BigOperators.Ring.Finset

/-!
# The planned bytes are the replayed bytes

Before an operation, the manager holds on the device what lies between two
accesses and in no gap that was taken, and on the host what was copied before.
Every phase of an operation moves this picture on, so what is on the device
during the operation adds up to the bytes the planner ends with.
-/

namespace HyperParallel.Offload

open Foundation List

variable {π : Type} {trace : ActivationTrace}

/-! ## What the planner starts from -/

def Sized (trace : ActivationTrace) : Prop :=
  ∀ sid opId, Touches trace sid opId → ∃ sizeBytes, trace.storageSizes.get? sid = some sizeBytes

def sizeOf (trace : ActivationTrace) (sid : Nat) : Nat := (trace.storageSizes.get? sid).getD 0

variable {sid opId : Nat}

theorem le_maxOpId (h : Touches trace sid opId) : opId ≤ maxOpId trace := by
  obtain ⟨access, haccess, -, rfl⟩ := h
  rw [maxOpId]
  have hmem := mem_map_of_mem (f := StorageAccess.opId) haccess
  revert hmem
  generalize (trace.ops.flatMap TraceOp.accesses).map StorageAccess.opId = opIds
  intro hmem
  induction opIds with
  | nil => cases hmem
  | cons opId opIds ih =>
    rw [foldr_cons]
    rcases mem_cons.mp hmem with heq | hrest
    · rw [heq]
      exact Nat.le_max_left _ _
    · exact (ih hrest).trans (Nat.le_max_right _ _)

theorem footprintOf_exists (hsized : Sized trace) {entry : Nat × List StorageAccess}
    (hentry : entry ∈ (groupAccessesByStorage trace).entries) :
    ∃ footprint, footprintOf trace entry = some footprint ∧
      FootprintOf trace entry.1 (sizeOf trace entry.1) footprint := by
  obtain ⟨hne, haccesses⟩ := groupAccessesByStorage_entry hentry
  obtain ⟨access, haccess⟩ := exists_mem_of_ne_nil _ hne
  obtain ⟨hin, hsid⟩ := (haccesses access).mp haccess
  obtain ⟨sizeBytes, hsize⟩ := hsized entry.1 access.opId ⟨access, hin, hsid, rfl⟩
  have hordered : orderedAccesses entry.2 ≠ [] := by
    intro hnil
    have hperm := orderedAccesses_perm entry.2
    rw [hnil] at hperm
    exact hne hperm.nil_eq.symm
  obtain ⟨footprint, hprocess⟩ : ∃ footprint,
      processStorageAccesses entry.1 sizeBytes entry.2 = some footprint := by
    rw [processStorageAccesses]
    cases hfirst : (orderedAccesses entry.2).head? with
    | none => exact absurd (head?_eq_none_iff.mp hfirst) hordered
    | some first =>
      cases hlast : (orderedAccesses entry.2).getLast? with
      | none => exact absurd (getLast?_eq_none_iff.mp hlast) hordered
      | some last => exact ⟨_, rfl⟩
  have hfootprint : footprintOf trace entry = some footprint := by
    rw [footprintOf, hsize]
    exact hprocess
  have hsizeOf : sizeOf trace entry.1 = sizeBytes := by
    rw [sizeOf, hsize]
    rfl
  refine ⟨footprint, hfootprint, ?_⟩
  rw [hsizeOf]
  exact processStorageAccesses_spec haccesses hsize hprocess

theorem footprint_fold (trace : ActivationTrace) :
    let result := (groupAccessesByStorage trace).entries.foldl (footprintStep trace)
      ⟨replicate (maxOpId trace + 1) 0, [], .empty⟩
    (∀ opId : Nat, result.residentBytes[opId]? =
        (replicate (maxOpId trace + 1) (0 : Int))[opId]?.map
          (· + ((groupAccessesByStorage trace).entries.map (spanBytes trace opId)).sum)) ∧
      result.candidates = (groupAccessesByStorage trace).entries.flatMap (fun entry =>
        ((footprintOf trace entry).map Footprint.candidacies).getD []) ∧
      result.releasable.entries = (groupAccessesByStorage trace).entries.filterMap fun entry =>
        (footprintOf trace entry).map fun footprint => (entry.1, footprint.lastAccess) :=
  foldl_footprintStep _ _ (by simp) (groupAccessesByStorage trace).nodup

theorem spanBytes_eq (hsized : Sized trace) {entry : Nat × List StorageAccess}
    (hentry : entry ∈ (groupAccessesByStorage trace).entries) (opId : Nat)
    [Decidable (InSpan trace entry.1 opId)] :
    spanBytes trace opId entry =
      if InSpan trace entry.1 opId then (sizeOf trace entry.1 : Int) else 0 := by
  obtain ⟨footprint, hfootprint, hspec⟩ := footprintOf_exists hsized hentry
  rw [spanBytes, hfootprint]
  dsimp only
  rw [hspec.sizeBytes_eq]
  exact if_congr (hspec.span opId).symm rfl rfl

theorem buildResidentFootprint_bytes (hsized : Sized trace) (opId : Nat) :
    (buildResidentFootprint trace (groupAccessesByStorage trace)).residentBytes[opId]?.getD 0 =
      ((groupAccessesByStorage trace).entries.map (spanBytes trace opId)).sum := by
  rw [buildResidentFootprint]
  dsimp only
  rw [(footprint_fold trace).1, getElem?_replicate]
  split
  · simp
  · rename_i hbeyond
    symm
    refine sum_eq_zero fun bytes hbytes => ?_
    obtain ⟨entry, hentry, rfl⟩ := mem_map.mp hbytes
    classical
    rw [spanBytes_eq hsized hentry, if_neg]
    rintro ⟨-, later, hlater, htouch⟩
    have hle := le_maxOpId htouch
    omega

/-! ## What it selects -/

theorem candidates_gaps {candidate : EvictionCandidate}
    (h : candidate ∈ (buildResidentFootprint trace (groupAccessesByStorage trace)).candidates) :
    IsGap trace candidate := by
  rw [buildResidentFootprint] at h
  have hmem := (mergeSort_perm _ _).mem_iff.mp h
  rw [(footprint_fold trace).2.1, mem_flatMap] at hmem
  obtain ⟨entry, hentry, hin⟩ := hmem
  cases hfootprint : footprintOf trace entry with
  | none =>
    rw [hfootprint] at hin
    cases hin
  | some footprint =>
    rw [hfootprint] at hin
    obtain ⟨sizeBytes, -, hspec⟩ := footprintOf_spec hentry hfootprint
    exact (hspec.gaps candidate hin).2

theorem candidates_distinct (trace : ActivationTrace) :
    DistinctGaps (buildResidentFootprint trace (groupAccessesByStorage trace)).candidates := by
  rw [buildResidentFootprint]
  refine List.Perm.pairwise (mergeSort_perm _ _).symm ?_ fun h heq hop => h heq.symm hop.symm
  rw [(footprint_fold trace).2.1, pairwise_flatMap]
  have hgaps : ∀ entry ∈ (groupAccessesByStorage trace).entries, ∀ candidate ∈
      ((footprintOf trace entry).map Footprint.candidacies).getD [],
        candidate.storageId = entry.1 := by
    intro entry hentry candidate hin
    cases hfootprint : footprintOf trace entry with
    | none =>
      rw [hfootprint] at hin
      cases hin
    | some footprint =>
      rw [hfootprint] at hin
      obtain ⟨sizeBytes, -, hspec⟩ := footprintOf_spec hentry hfootprint
      exact (hspec.gaps candidate hin).1
  constructor
  · intro entry hentry
    cases hfootprint : footprintOf trace entry with
    | none => exact .nil
    | some footprint =>
      obtain ⟨sizeBytes, -, hspec⟩ := footprintOf_spec hentry hfootprint
      exact hspec.distinct
  · have hkeys := (groupAccessesByStorage trace).nodup
    rw [nodup_iff_pairwise_ne, pairwise_map] at hkeys
    refine hkeys.imp_of_mem fun {entry entry'} hentry hentry' hne candidate hin candidate' hin'
      heq => ?_
    exact absurd ((hgaps entry hentry candidate hin).symm.trans
      (heq.trans (hgaps entry' hentry' candidate' hin'))) hne

theorem selected_gaps {limit : Int} {candidate : EvictionCandidate}
    (h : candidate ∈ (selectFor trace limit).1) : IsGap trace candidate :=
  candidates_gaps ((greedySelect_sublist _ _ _).subset h)

theorem selected_distinct (trace : ActivationTrace) (limit : Int) :
    DistinctGaps (selectFor trace limit).1 :=
  (candidates_distinct trace).sublist (greedySelect_sublist _ _ _)

def Covered (selected : List EvictionCandidate) (sid opId : Nat) : Prop :=
  ∃ gap ∈ selected, gap.storageId = sid ∧ gap.releaseStart.opId < opId ∧ opId < gap.finish.opId

/-- The storage is on the device during the operation. -/
def ResidentAt (trace : ActivationTrace) (selected : List EvictionCandidate) (sid opId : Nat) :
    Prop :=
  InSpan trace sid opId ∧ ¬Covered selected sid opId

variable {selected : List EvictionCandidate}

theorem not_covered_of_touches (hgaps : ∀ gap ∈ selected, IsGap trace gap)
    (h : Touches trace sid opId) : ¬Covered selected sid opId := by
  rintro ⟨gap, hgap, rfl, hrelease, hfinish⟩
  have hadjacent := (hgaps gap hgap).adjacent opId h
  omega

theorem inSpan_of_touches (h : Touches trace sid opId) : InSpan trace sid opId :=
  ⟨⟨opId, le_rfl, h⟩, opId, le_rfl, h⟩

/-! ## Sums over storages -/

theorem sum_ite_eq {keys : List Nat} (hnodup : keys.Nodup) (key : Nat) (value : Int) :
    (keys.map fun k => if key = k then value else 0).sum = if key ∈ keys then value else 0 := by
  induction keys with
  | nil => rfl
  | cons first keys ih =>
    obtain ⟨hnew, hnodup⟩ := nodup_cons.mp hnodup
    rw [map_cons, sum_cons, ih hnodup]
    by_cases heq : key = first
    · subst heq
      rw [if_pos rfl, if_neg hnew, if_pos mem_cons_self, Int.add_zero]
    · rw [if_neg heq, Int.zero_add]
      exact if_congr (by simp [heq]) rfl rfl

open Classical in
theorem reliefOf_eq {keys : List Nat} (hnodup : keys.Nodup)
    (hgaps : ∀ gap ∈ selected, IsGap trace gap) (hdistinct : DistinctGaps selected)
    (hkeys : ∀ gap ∈ selected, gap.storageId ∈ keys) (opId : Nat) :
    reliefOf selected opId = (keys.map fun sid =>
      if Covered selected sid opId then (sizeOf trace sid : Int) else 0).sum := by
  induction selected with
  | nil => simp [reliefOf, Covered]
  | cons gap selected ih =>
    have hgap := hgaps gap mem_cons_self
    obtain ⟨hfresh, hrest⟩ := pairwise_cons.mp hdistinct
    rw [reliefOf_cons, ih (fun other hother => hgaps other (mem_cons_of_mem _ hother)) hrest
      fun other hother => hkeys other (mem_cons_of_mem _ hother)]
    have hone := sum_ite_eq hnodup gap.storageId (gap.relief opId)
    rw [if_pos (hkeys gap mem_cons_self)] at hone
    rw [← hone, ← sum_map_add]
    refine congrArg List.sum (map_congr_left fun sid _ => ?_)
    by_cases hcovers : gap.storageId = sid ∧ gap.releaseStart.opId < opId ∧ opId < gap.finish.opId
    · -- two gaps over one operation would begin together
      obtain ⟨rfl, hrelease, hfinish⟩ := hcovers
      have hothers : ¬Covered selected gap.storageId opId := by
        rintro ⟨other, hother, hsid, hrelease', hfinish'⟩
        have hother' := hgaps other (mem_cons_of_mem _ hother)
        have hleft := hgap.adjacent other.releaseStart.opId (hsid ▸ hother'.releaseTouches)
        have hright := hother'.adjacent gap.releaseStart.opId (hsid ▸ hgap.releaseTouches)
        exact hfresh other hother hsid.symm (by omega)
      have hall : Covered (gap :: selected) gap.storageId opId :=
        ⟨gap, mem_cons_self, rfl, hrelease, hfinish⟩
      rw [if_pos rfl, if_neg hothers, if_pos hall, Int.add_zero, EvictionCandidate.relief,
        if_pos (mem_affectedOps.mpr ⟨hrelease, hfinish⟩), sizeOf, hgap.size_eq]
      rfl
    · have hsame : Covered (gap :: selected) sid opId ↔ Covered selected sid opId := by
        constructor
        · rintro ⟨other, hother, hover⟩
          rcases mem_cons.mp hother with rfl | hmem
          · exact absurd hover hcovers
          · exact ⟨other, hmem, hover⟩
        · rintro ⟨other, hother, hover⟩
          exact ⟨other, mem_cons_of_mem _ hother, hover⟩
      have hnone : (if gap.storageId = sid then gap.relief opId else 0) = 0 := by
        by_cases hsid : gap.storageId = sid
        · rw [if_pos hsid, EvictionCandidate.relief, if_neg]
          rw [mem_affectedOps]
          exact fun hin => hcovers ⟨hsid, hin⟩
        · exact if_neg hsid
      rw [hnone, Int.zero_add]
      exact if_congr hsame.symm rfl rfl

theorem covered_inSpan (hgaps : ∀ gap ∈ selected, IsGap trace gap)
    (h : Covered selected sid opId) : InSpan trace sid opId := by
  obtain ⟨gap, hgap, rfl, hrelease, hfinish⟩ := h
  exact ⟨⟨_, hrelease.le, (hgaps gap hgap).releaseTouches⟩,
    ⟨_, hfinish.le, (hgaps gap hgap).finishTouches⟩⟩

open Classical in
theorem selectFor_bytes (hsized : Sized trace) (limit : Int) (opId : Nat) :
    (selectFor trace limit).2[opId]?.getD 0 =
      (((groupAccessesByStorage trace).keys.map fun sid =>
        if ResidentAt trace (selectFor trace limit).1 sid opId then sizeOf trace sid else 0).sum :
          Nat) := by
  have hgaps : ∀ gap ∈ (selectFor trace limit).1, IsGap trace gap := fun _ => selected_gaps
  have hrelief := reliefOf_eq (groupAccessesByStorage trace).keys_nodup hgaps
    (selected_distinct trace limit)
    (fun gap hgap => mem_keys_group.mpr ⟨_, (hgaps gap hgap).releaseTouches⟩) opId
  have hspan := buildResidentFootprint_bytes hsized opId
  have hbytes : (selectFor trace limit).2[opId]?.getD 0 =
      (buildResidentFootprint trace (groupAccessesByStorage trace)).residentBytes[opId]?.getD 0 -
        reliefOf (selectFor trace limit).1 opId := by
    have hselected := greedySelect_bytes limit
      (buildResidentFootprint trace (groupAccessesByStorage trace)).candidates
      (buildResidentFootprint trace (groupAccessesByStorage trace)).residentBytes opId
    rw [← selectFor] at hselected
    rw [hselected]
    cases hget : (buildResidentFootprint trace
        (groupAccessesByStorage trace)).residentBytes[opId]? with
    | some bytes => rfl
    | none =>
      -- after the last access nothing is in a gap
      have hlong : maxOpId trace < opId := by
        rw [buildResidentFootprint] at hget
        dsimp only at hget
        rw [(footprint_fold trace).1, Option.map_eq_none_iff, getElem?_eq_none_iff,
          length_replicate] at hget
        omega
      have hzero : reliefOf (selectFor trace limit).1 opId = 0 := by
        refine sum_eq_zero fun bytes hbytes => ?_
        obtain ⟨gap, hgap, rfl⟩ := mem_map.mp hbytes
        rw [EvictionCandidate.relief, if_neg]
        rw [mem_affectedOps]
        have hle := le_maxOpId (hgaps gap hgap).finishTouches
        omega
      rw [hzero]
      rfl
  rw [hbytes, hspan, hrelief, PyDict.keys, map_map, map_map, Nat.cast_list_sum, map_map]
  have hentries : (groupAccessesByStorage trace).entries.map (spanBytes trace opId) =
      (groupAccessesByStorage trace).entries.map fun entry =>
        if InSpan trace entry.1 opId then (sizeOf trace entry.1 : Int) else 0 :=
    map_congr_left fun entry hentry => spanBytes_eq hsized hentry opId
  rw [hentries, sub_eq_iff_eq_add, ← sum_map_add]
  refine congrArg List.sum (map_congr_left fun entry _ => ?_)
  simp only [Function.comp_apply]
  by_cases hcovered : Covered (selectFor trace limit).1 entry.1 opId
  · rw [if_pos (covered_inSpan hgaps hcovered), if_neg fun h : ResidentAt _ _ _ _ => h.2 hcovered,
      if_pos hcovered]
    simp
  · rw [if_neg hcovered, Int.add_zero]
    by_cases hspanned : InSpan trace entry.1 opId
    · rw [if_pos hspanned, if_pos ⟨hspanned, hcovered⟩]
    · rw [if_neg hspanned, if_neg fun h : ResidentAt _ _ _ _ => hspanned h.1]
      rfl

end HyperParallel.Offload
