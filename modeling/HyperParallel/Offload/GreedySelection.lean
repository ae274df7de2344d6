import HyperParallel.Offload.ResidencyPlanner
import Mathlib.Algebra.Order.BigOperators.Group.List
import Mathlib.Algebra.Ring.Int.Defs

/-!
# The greedy selection is good enough

What is over the limit at the end was over it all the time, so every gap around
it has been taken; whatever evicting all gaps achieves, the selection does too.
-/

namespace HyperParallel.Offload

open Foundation List

/-! ## Bytes at an operation -/

variable (residentBytes : List Int) (candidate : EvictionCandidate)

theorem getElem?_addAt (opIds : List Nat) (sizeBytes : Int) (i : Nat) :
    (addAt residentBytes opIds sizeBytes)[i]? =
      residentBytes[i]?.map (· + opIds.count i * sizeBytes) := by
  induction opIds generalizing residentBytes with
  | nil => simp [addAt]
  | cons opId opIds ih =>
    rw [addAt, foldl_cons, ← addAt, ih, getElem?_modify, Option.map_eq_map, Option.map_map]
    refine congrArg (fun f => residentBytes[i]?.map f) (funext fun bytes => ?_)
    by_cases h : opId = i
    · simp only [Function.comp_apply, h, count_cons_self]
      push_cast
      rw [Int.add_mul, Int.one_mul, Int.add_right_comm, Int.add_assoc]
    · simp only [Function.comp_apply, if_neg h, count_cons_of_ne h]

def EvictionCandidate.relief (candidate : EvictionCandidate) (opId : Nat) : Int :=
  if opId ∈ candidate.affectedOps then candidate.sizeBytes else 0

def reliefOf (candidates : List EvictionCandidate) (opId : Nat) : Int :=
  (candidates.map fun candidate => candidate.relief opId).sum

theorem EvictionCandidate.relief_nonneg (opId : Nat) : 0 ≤ candidate.relief opId := by
  rw [relief]
  split <;> omega

theorem reliefOf_nonneg (candidates : List EvictionCandidate) (opId : Nat) :
    0 ≤ reliefOf candidates opId := by
  apply sum_nonneg
  intro bytes hbytes
  obtain ⟨candidate, -, rfl⟩ := mem_map.mp hbytes
  exact candidate.relief_nonneg opId

theorem reliefOf_cons (candidates : List EvictionCandidate) (opId : Nat) :
    reliefOf (candidate :: candidates) opId = candidate.relief opId + reliefOf candidates opId := by
  rw [reliefOf, map_cons, sum_cons, reliefOf]

theorem count_affectedOps (i : Nat) :
    (candidate.affectedOps.count i : Int) * -(candidate.sizeBytes : Int) = -candidate.relief i := by
  have hnodup : candidate.affectedOps.Nodup := nodup_range'
  rw [EvictionCandidate.relief]
  split
  · rename_i hmem
    rw [count_eq_one_of_mem hnodup hmem]
    simp
  · rename_i hmem
    rw [count_eq_zero_of_not_mem hmem]
    simp

theorem getElem?_evict (i : Nat) :
    (addAt residentBytes candidate.affectedOps (-(candidate.sizeBytes : Int)))[i]? =
      residentBytes[i]?.map (· - candidate.relief i) := by
  rw [getElem?_addAt, count_affectedOps]
  rfl

/-! ## Selected or all -/

theorem greedySelect_bytes (limit : Int) (candidates : List EvictionCandidate)
    (residentBytes : List Int) (i : Nat) :
    (greedySelect limit candidates residentBytes).2[i]? =
      residentBytes[i]?.map (· - reliefOf (greedySelect limit candidates residentBytes).1 i) := by
  induction candidates generalizing residentBytes with
  | nil => simp [greedySelect, reliefOf]
  | cons candidate candidates ih =>
    rw [greedySelect]
    split
    · simp [reliefOf]
    · split
      · exact ih residentBytes
      · rw [ih, getElem?_evict, Option.map_map, reliefOf_cons]
        refine congrArg (fun f => residentBytes[i]?.map f) (funext fun bytes => ?_)
        simp only [Function.comp_apply]
        omega

theorem greedySelect_sublist (limit : Int) (candidates : List EvictionCandidate)
    (residentBytes : List Int) :
    (greedySelect limit candidates residentBytes).1.Sublist candidates := by
  induction candidates generalizing residentBytes with
  | nil => exact .slnil
  | cons candidate candidates ih =>
    rw [greedySelect]
    split
    · exact nil_sublist _
    · split
      · exact (ih residentBytes).cons candidate
      · exact (ih _).cons_cons candidate

theorem le_of_max_le {bytes : List Int} {limit : Int} (h : bytes.max?.getD 0 ≤ limit) {i : Nat}
    {value : Int} (hvalue : bytes[i]? = some value) : value ≤ limit := by
  cases hmax : bytes.max? with
  | none =>
    rw [max?_eq_none_iff.mp hmax] at hvalue
    cases hvalue
  | some largest =>
    rw [hmax, Option.getD_some] at h
    exact ((max?_le_iff hmax).mp h) value (mem_of_getElem? hvalue)

theorem greedySelect_over {limit : Int} {candidates : List EvictionCandidate}
    {residentBytes : List Int} {i : Nat} {bytes : Int}
    (hbytes : (greedySelect limit candidates residentBytes).2[i]? = some bytes)
    (hover : limit < bytes) :
    reliefOf (greedySelect limit candidates residentBytes).1 i = reliefOf candidates i := by
  induction candidates generalizing residentBytes with
  | nil => rfl
  | cons candidate candidates ih =>
    rw [greedySelect] at hbytes ⊢
    split at hbytes
    · rename_i hmax
      have hle := le_of_max_le hmax hbytes
      omega
    · rename_i hmax
      rw [if_neg hmax]
      split at hbytes
      · rename_i hnone
        rw [if_pos hnone, ih hbytes, reliefOf_cons]
        have hbefore := hbytes
        rw [greedySelect_bytes, Option.map_eq_some_iff] at hbefore
        obtain ⟨value, hvalue, hfinal⟩ := hbefore
        have hrelief := reliefOf_nonneg (greedySelect limit candidates residentBytes).1 i
        have hout : i ∉ candidate.affectedOps := by
          intro hmem
          simp only [Bool.not_eq_true', any_eq_false, decide_eq_true_eq, not_lt] at hnone
          have hle := hnone i hmem
          rw [hvalue, Option.getD_some] at hle
          omega
        rw [EvictionCandidate.relief, if_neg hout, Int.zero_add]
      · rename_i hsome
        rw [if_neg hsome, reliefOf_cons, reliefOf_cons, ih hbytes]

def evictAll (candidates : List EvictionCandidate) (residentBytes : List Int) : List Int :=
  candidates.foldl (fun bytes candidate =>
    addAt bytes candidate.affectedOps (-(candidate.sizeBytes : Int))) residentBytes

theorem getElem?_evictAll (candidates : List EvictionCandidate) (residentBytes : List Int)
    (i : Nat) :
    (evictAll candidates residentBytes)[i]? =
      residentBytes[i]?.map (· - reliefOf candidates i) := by
  induction candidates generalizing residentBytes with
  | nil => simp [evictAll, reliefOf]
  | cons candidate candidates ih =>
    rw [evictAll, foldl_cons, ← evictAll, ih, getElem?_evict, Option.map_map, reliefOf_cons]
    refine congrArg (fun f => residentBytes[i]?.map f) (funext fun bytes => ?_)
    simp only [Function.comp_apply]
    omega

theorem reliefOf_le_of_sublist {selected candidates : List EvictionCandidate}
    (h : selected.Sublist candidates) (i : Nat) : reliefOf selected i ≤ reliefOf candidates i := by
  induction h with
  | slnil => exact le_rfl
  | cons candidate _ ih =>
    rw [reliefOf_cons]
    have hnonneg := candidate.relief_nonneg i
    omega
  | cons_cons candidate _ ih =>
    rw [reliefOf_cons, reliefOf_cons]
    omega

def WithinLimit (residentBytes : List Int) (limit : Int) : Prop :=
  ∀ bytes ∈ residentBytes, bytes ≤ limit

theorem greedySelect_withinLimit_iff (limit : Int) (candidates : List EvictionCandidate)
    (residentBytes : List Int) :
    WithinLimit (greedySelect limit candidates residentBytes).2 limit ↔
      WithinLimit (evictAll candidates residentBytes) limit := by
  constructor
  · intro hwithin bytes hbytes
    obtain ⟨i, hi⟩ := mem_iff_getElem?.mp hbytes
    rw [getElem?_evictAll, Option.map_eq_some_iff] at hi
    obtain ⟨value, hvalue, rfl⟩ := hi
    have hselected := greedySelect_bytes limit candidates residentBytes i
    rw [hvalue, Option.map_some] at hselected
    have hle := hwithin _ (mem_of_getElem? hselected)
    have hmore := reliefOf_le_of_sublist (greedySelect_sublist limit candidates residentBytes) i
    omega
  · intro hwithin bytes hbytes
    obtain ⟨i, hi⟩ := mem_iff_getElem?.mp hbytes
    by_contra hover
    have hall := greedySelect_over hi (not_le.mp hover)
    have hsame := getElem?_evictAll candidates residentBytes i
    rw [← hall, ← greedySelect_bytes, hi] at hsame
    exact hover (hwithin bytes (mem_of_getElem? hsame))

end HyperParallel.Offload
