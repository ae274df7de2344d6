import HyperParallel.Foundation.PyDict
import HyperParallel.Foundation.PySequence
import Mathlib.Algebra.BigOperators.Group.List.Basic
import Mathlib.Tactic.Ring

/-!
# The GRPO advantage estimator

Every sequence's reward is normalized within its group.  Arithmetic is exact, over any field
with a square root function.
-/

namespace HyperParallel.Episodes

open Foundation List

variable {K : Type}

section Definitions

variable [Field K] (sqrt : K → K) (epsilon : K)

def mean (rewards : List K) : K := rewards.sum / rewards.length

/-- The sample standard deviation. -/
def std (rewards : List K) : K :=
  sqrt ((rewards.map fun reward => (reward - mean rewards) ^ 2).sum / (rewards.length - 1))

def groupAdvantage (rewards : List K) (reward : K) : K :=
  (reward - mean rewards) / (std sqrt rewards + epsilon)

def computeGroupAdvantages (rewards : List K) : Except String (List K) :=
  if rewards.length < 2 then
    .error "GRPO requires at least two responses in every reward group"
  else .ok (rewards.map (groupAdvantage sqrt epsilon rewards))

/-- `index_copy_`. -/
def indexCopy {α : Type*} (entries : List α) (indices : List ℕ) (values : List α) : List α :=
  (indices.zip values).foldl (fun entries place => entries.set place.1 place.2) entries

def estimate (rewards : List K) (groupIds : List (Option String)) : Except String (List K) :=
  if groupIds.length ≠ rewards.length then .error "group_ids must contain one value per reward"
  else
    (PyDict.group groupIds.zipIdx).values.foldlM
      (fun advantages indices => do
        let normalized ← computeGroupAdvantages sqrt epsilon (indices.map (rewards.getD · 0))
        pure (indexCopy advantages indices normalized))
      (List.replicate rewards.length 0)

end Definitions

/-! ## Copying by index -/

theorem mapIdx_keep {α : Type*} (entries : List α) :
    (entries.mapIdx fun _ entry => entry) = entries := by
  apply ext_getElem?
  simp

theorem indexCopy_map {α : Type*} (entries : List α) (indices : List ℕ) (value : ℕ → α) :
    indexCopy entries indices (indices.map value) =
      entries.mapIdx fun place entry => if place ∈ indices then value place else entry := by
  induction indices generalizing entries with
  | nil => simp [indexCopy, mapIdx_keep]
  | cons index rest ih =>
    have hstep : indexCopy entries (index :: rest) ((index :: rest).map value) =
        indexCopy (entries.set index (value index)) rest (rest.map value) := rfl
    rw [hstep, ih]
    apply ext_getElem?
    intro place
    simp only [getElem?_mapIdx, getElem?_set, mem_cons]
    by_cases hindex : index = place
    · subst hindex
      by_cases hlt : index < entries.length
      · simp [hlt]
      · simp [hlt]
    · simp [hindex, Ne.symm hindex]

theorem foldl_indexCopy {α β : Type*} {indices : β → List ℕ} {values : β → List α}
    {value : ℕ → α} (groups : List β) (entries : List α)
    (h : ∀ group ∈ groups, values group = (indices group).map value) :
    groups.foldl (fun entries group => indexCopy entries (indices group) (values group)) entries =
      entries.mapIdx fun place entry =>
        if place ∈ groups.flatMap indices then value place else entry := by
  induction groups generalizing entries with
  | nil => simp [mapIdx_keep]
  | cons group rest ih =>
    rw [foldl_cons, h group mem_cons_self, indexCopy_map,
      ih _ fun other hother => h other (mem_cons_of_mem _ hother)]
    apply ext_getElem?
    intro place
    simp only [getElem?_mapIdx, flatMap_cons, mem_append, Option.map_map]
    congr 1
    funext entry
    by_cases hrest : place ∈ rest.flatMap indices <;> simp [hrest]

/-! ## The estimator -/

def membersOf (sequences : List (K × Option String)) (group : Option String) : List K :=
  (sequences.filter fun sequence => sequence.2 = group).map Prod.fst

theorem membersOf_perm {sequences sequences' : List (K × Option String)}
    (h : sequences.Perm sequences') (group : Option String) :
    (membersOf sequences group).Perm (membersOf sequences' group) :=
  (h.filter _).map _

variable [Field K] {sqrt : K → K} {epsilon : K}

theorem copyGroups_eq_ok_iff {rewards entries result : List K} {groups : List (List ℕ)} :
    groups.foldlM (fun advantages indices => do
        let normalized ← computeGroupAdvantages sqrt epsilon (indices.map (rewards.getD · 0))
        pure (indexCopy advantages indices normalized)) entries = Except.ok (ε := String) result ↔
      (∀ indices ∈ groups, 2 ≤ indices.length) ∧
      result = groups.foldl (fun advantages indices => indexCopy advantages indices
        ((indices.map (rewards.getD · 0)).map
          (groupAdvantage sqrt epsilon (indices.map (rewards.getD · 0))))) entries := by
  induction groups generalizing entries with
  | nil =>
    constructor
    · intro h
      cases h
      exact ⟨by simp, rfl⟩
    · rintro ⟨-, rfl⟩
      rfl
  | cons indices rest ih =>
    rw [foldlM_cons]
    by_cases hsize : 2 ≤ indices.length
    · have hnormalized : computeGroupAdvantages sqrt epsilon (indices.map (rewards.getD · 0)) =
          .ok ((indices.map (rewards.getD · 0)).map
            (groupAdvantage sqrt epsilon (indices.map (rewards.getD · 0)))) := by
        simp [computeGroupAdvantages, not_lt.mpr hsize]
      rw [hnormalized]
      refine Iff.trans ih ?_
      simp [hsize]
    · have hfailed : computeGroupAdvantages sqrt epsilon (indices.map (rewards.getD · 0)) =
          .error "GRPO requires at least two responses in every reward group" := by
        simp [computeGroupAdvantages, not_le.mp hsize]
      rw [hfailed]
      refine iff_of_false (fun h => by cases h) fun h => hsize (h.1 indices mem_cons_self)

theorem places_rewards (sequences : List (K × Option String)) (group : Option String) :
    ((((sequences.map Prod.snd).zipIdx.filter fun entry => entry.1 = group).map Prod.snd).map
      ((sequences.map Prod.fst).getD · 0)) = membersOf sequences group := by
  have hsequences : sequences.filter (fun sequence => sequence.2 = group) =
      (sequences.zipIdx.filter fun entry => entry.1.2 = group).map Prod.fst := by
    conv_lhs => rw [← zipIdx_map_fst 0 sequences]
    rw [filter_map]
    rfl
  rw [zipIdx_map, filter_map, map_map, map_map, membersOf, hsequences, map_map]
  apply map_congr_left
  rintro ⟨sequence, place⟩ hentry
  have hplace := mk_mem_zipIdx_iff_getElem?.mp (mem_of_mem_filter hentry)
  simp [hplace]

theorem estimate_eq_ok_iff {sequences : List (K × Option String)} {result : List K} :
    estimate sqrt epsilon (sequences.map Prod.fst) (sequences.map Prod.snd) = .ok result ↔
      (∀ sequence ∈ sequences, 2 ≤ (membersOf sequences sequence.2).length) ∧
      result = sequences.map fun sequence =>
        groupAdvantage sqrt epsilon (membersOf sequences sequence.2) sequence.1 := by
  have hget : ∀ indices ∈ (PyDict.group (sequences.map Prod.snd).zipIdx).values, ∃ group,
      indices = ((sequences.map Prod.snd).zipIdx.filter fun entry => entry.1 = group).map
        Prod.snd := by
    intro indices hindices
    obtain ⟨group, hgroup⟩ := (PyDict.mem_values_iff _).mp hindices
    rw [PyDict.get?_group] at hgroup
    split at hgroup
    · cases hgroup
    · exact ⟨group, (Option.some.inj hgroup).symm⟩
  have hplaces := PyDict.group_flatten_perm (sequences.map Prod.snd).zipIdx
  rw [zipIdx_map_snd] at hplaces
  unfold estimate
  rw [if_neg (by simp), copyGroups_eq_ok_iff]
  -- a place's value depends on its own group only
  let value : ℕ → K := fun place => groupAdvantage sqrt epsilon
    (membersOf sequences ((sequences.map Prod.snd).getD place none))
    ((sequences.map Prod.fst).getD place 0)
  have hvalues : ∀ indices ∈ (PyDict.group (sequences.map Prod.snd).zipIdx).values,
      (indices.map ((sequences.map Prod.fst).getD · 0)).map (groupAdvantage sqrt epsilon
        (indices.map ((sequences.map Prod.fst).getD · 0))) = indices.map value := by
    intro indices hindices
    obtain ⟨group, hgroup⟩ := hget indices hindices
    have hmembers := places_rewards sequences group
    rw [← hgroup] at hmembers
    rw [hmembers, ← hmembers, map_map, hmembers]
    apply map_congr_left
    intro place hplace
    rw [hgroup] at hplace
    obtain ⟨⟨found, place'⟩, hentry, rfl⟩ := mem_map.mp hplace
    obtain ⟨hmem, hfound⟩ := mem_filter.mp hentry
    obtain rfl : found = group := by simpa using hfound
    have hplace := mk_mem_zipIdx_iff_getElem?.mp hmem
    simp only [value, List.getD, Function.comp_apply, hplace, Option.getD_some]
  have hcopy := @foldl_indexCopy K (List ℕ) (fun indices => indices)
    (fun indices => (indices.map ((sequences.map Prod.fst).getD · 0)).map
      (groupAdvantage sqrt epsilon (indices.map ((sequences.map Prod.fst).getD · 0)))) value _
    (replicate (sequences.map Prod.fst).length 0) hvalues
  rw [hcopy]
  have hresult : ((replicate (sequences.map Prod.fst).length (0 : K)).mapIdx fun place entry =>
      if place ∈ (PyDict.group (sequences.map Prod.snd).zipIdx).values.flatMap
        fun indices => indices then value place else entry) = sequences.map fun sequence =>
        groupAdvantage sqrt epsilon (membersOf sequences sequence.2) sequence.1 := by
    apply ext_getElem?
    intro place
    rw [getElem?_mapIdx, getElem?_map, getElem?_replicate, length_map]
    cases hplace : sequences[place]? with
    | none =>
      rw [if_neg (not_lt.mpr (getElem?_eq_none_iff.mp hplace))]
      rfl
    | some sequence =>
      have hlt := (List.getElem?_eq_some_iff.mp hplace).1
      have hmem : place ∈ (PyDict.group (sequences.map Prod.snd).zipIdx).values.flatMap
          fun indices => indices := by
        rw [flatMap_id', hplaces.mem_iff, mem_range'_1]
        simpa using hlt
      rw [if_pos hlt, Option.map_some, Option.map_some, if_pos hmem]
      simp only [value, List.getD, getElem?_map, hplace, Option.map_some, Option.getD_some]
  have hsizes : (∀ indices ∈ (PyDict.group (sequences.map Prod.snd).zipIdx).values,
      2 ≤ indices.length) ↔
      ∀ sequence ∈ sequences, 2 ≤ (membersOf sequences sequence.2).length := by
    have hlength : ∀ group, (membersOf sequences group).length =
        (((sequences.map Prod.snd).zipIdx.filter fun entry => entry.1 = group).map
          Prod.snd).length := by
      intro group
      rw [← places_rewards, length_map]
    constructor
    · intro h sequence hsequence
      obtain ⟨place, hplace⟩ := mem_iff_getElem?.mp hsequence
      have hentry : (sequence.2, place) ∈ (sequences.map Prod.snd).zipIdx := by
        rw [mk_mem_zipIdx_iff_getElem?, getElem?_map, hplace]
        rfl
      rw [hlength]
      apply h
      rw [PyDict.mem_values_iff]
      refine ⟨sequence.2, ?_⟩
      rw [PyDict.get?_group, if_neg]
      exact ne_nil_of_mem (mem_filter.mpr ⟨hentry, by simp⟩)
    · intro h indices hindices
      obtain ⟨group, hgroup⟩ := (PyDict.mem_values_iff _).mp hindices
      rw [PyDict.get?_group] at hgroup
      split at hgroup
      · cases hgroup
      · rename_i hne
        cases hgroup
        obtain ⟨⟨found, place⟩, hentry⟩ := exists_mem_of_ne_nil _ hne
        obtain ⟨hmem, hfound⟩ := mem_filter.mp hentry
        obtain rfl : found = group := by simpa using hfound
        have hplace := mk_mem_zipIdx_iff_getElem?.mp hmem
        rw [getElem?_map, Option.map_eq_some_iff] at hplace
        obtain ⟨sequence, hsequence, rfl⟩ := hplace
        rw [← hlength]
        exact h sequence (mem_of_getElem? hsequence)
  rw [hresult, hsizes]

theorem map_eq_ok_estimate {α : Type} {sequences : List (K × Option String)}
    {build : List K → α} {result : α} :
    (estimate sqrt epsilon (sequences.map Prod.fst) (sequences.map Prod.snd)).map build =
        .ok result ↔
      (∀ sequence ∈ sequences, 2 ≤ (membersOf sequences sequence.2).length) ∧
      result = build (sequences.map fun sequence =>
        groupAdvantage sqrt epsilon (membersOf sequences sequence.2) sequence.1) := by
  constructor
  · intro h
    obtain ⟨targets, htargets, rfl⟩ := map_eq_ok h
    obtain ⟨hsizes, rfl⟩ := estimate_eq_ok_iff.mp htargets
    exact ⟨hsizes, rfl⟩
  · rintro ⟨hsizes, rfl⟩
    rw [estimate_eq_ok_iff.mpr ⟨hsizes, rfl⟩]
    rfl

/-! ## Rewards in any order -/

theorem mean_perm {rewards rewards' : List K} (h : rewards.Perm rewards') :
    mean rewards = mean rewards' := by
  rw [mean, mean, h.sum_eq, h.length_eq]

theorem groupAdvantage_perm {rewards rewards' : List K} (h : rewards.Perm rewards') (reward : K) :
    groupAdvantage sqrt epsilon rewards reward = groupAdvantage sqrt epsilon rewards' reward := by
  have hsquares := h.map fun reward => (reward - mean rewards') ^ 2
  rw [groupAdvantage, groupAdvantage, std, std, mean_perm h, hsquares.sum_eq, h.length_eq]

end HyperParallel.Episodes
