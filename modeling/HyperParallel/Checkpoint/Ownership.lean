import HyperParallel.Checkpoint.Planner
import HyperParallel.Foundation.PySequence
import Mathlib.Data.List.Perm.Basic

/-!
# Which plan writes each item

An item several plans hold is written by one of them: a nonempty shard wins over
empty ones of the same index, items held once go first, and the duplicates go,
largest first, to the plan that has been given the least so far.
-/

namespace HyperParallel.Checkpoint

open Foundation List

/-- The flat list `[entry, plan_idx, position, plan_idx, position, …]` of one index. -/
structure Occurrences where
  entry : WriteItem
  slots : List Nat
deriving DecidableEq, Repr

/-- `occurrences[s]`, for a slot behind the entry. -/
def Occurrences.slot (occurrences : Occurrences) (s : Nat) : Nat :=
  occurrences.slots.getD (s - 1) 0

def Occurrences.holderCount (occurrences : Occurrences) : Nat := occurrences.slots.length / 2

/-- `occurrences[0].tensor_storage_size() or 1`. -/
def Occurrences.itemSize (occurrences : Occurrences) : Nat :=
  match occurrences.entry.tensorStorageSize with
  | none => 1
  | some 0 => 1
  | some size => size

abbrev OccurrencesByIndex := PyDict (String × List Nat) Occurrences

def recordEntry (occurrencesByIndex : OccurrencesByIndex) (planIdx position : Nat)
    (entry : WriteItem) : Except PlanError OccurrencesByIndex :=
  let occurrences := occurrencesByIndex.get? entry.index.key
  let fresh := occurrencesByIndex.set entry.index.key ⟨entry, [planIdx, position]⟩
  if entry.tensorStorageSize = some 0 then
    match occurrences with
    | none => .ok fresh
    | some _ => .ok occurrencesByIndex
  else
    match occurrences with
    | none => .ok fresh
    | some occurrences =>
      if occurrences.entry.tensorStorageSize = some 0 then .ok fresh
      else if entry.tensorData ≠ occurrences.entry.tensorData then
        .error (.chunksDiffer entry.index)
      else .ok (occurrencesByIndex.set entry.index.key
        { occurrences with slots := occurrences.slots ++ [planIdx, position] })

def collectOccurrences (allPlans : List SavePlan) : Except PlanError OccurrencesByIndex :=
  allPlans.zipIdx.foldlM (fun dict plan =>
    plan.1.items.zipIdx.foldlM (fun dict entry => recordEntry dict plan.2 entry.2 entry.1) dict)
    .empty

/-- The keep-masks and the bytes given to each plan so far. -/
structure Assignment where
  masks : List (List Bool)
  storageSizes : List Nat

def Assignment.give (assignment : Assignment) (ownerIdx position itemSize : Nat) : Assignment where
  masks := assignment.masks.modify ownerIdx fun mask => mask.set position true
  storageSizes := assignment.storageSizes.modify ownerIdx (· + itemSize)

def assignUnique (state : Assignment × List (Nat × Occurrences)) (occurrences : Occurrences) :
    Assignment × List (Nat × Occurrences) :=
  if 1 < occurrences.holderCount then
    (state.1, state.2 ++ [(occurrences.itemSize, occurrences)])
  else (state.1.give (occurrences.slot 1) (occurrences.slot 2) occurrences.itemSize, state.2)

/-- The first slot, among `1, 3, 5, …`, whose plan has been given the least. -/
def leastLoadedOwnerSlot (occurrences : Occurrences) (storageSizes : List Nat) : Nat :=
  ((List.range' 3 ((occurrences.slots.length - 1) / 2) 2).foldl
    (fun best slot =>
      let size := storageSizes.getD (occurrences.slot slot) 0
      if size < best.2 then (slot, size) else best)
    (1, storageSizes.getD (occurrences.slot 1) 0)).1

def assignDuplicate (saveToMinimumRank : Bool) (assignment : Assignment)
    (duplicate : Nat × Occurrences) : Assignment :=
  let ownerSlot :=
    if saveToMinimumRank then 1 else leastLoadedOwnerSlot duplicate.2 assignment.storageSizes
  assignment.give (duplicate.2.slot ownerSlot) (duplicate.2.slot (ownerSlot + 1)) duplicate.1

def emptyAssignment (allPlans : List SavePlan) : Assignment where
  masks := allPlans.map fun plan => List.replicate plan.items.length false
  storageSizes := List.replicate allPlans.length 0

/-- Stable, as a sort with `reverse=True` is: equally large duplicates keep their order. -/
def sortDuplicates (saveToMinimumRank : Bool) (duplicates : List (Nat × Occurrences)) :
    List (Nat × Occurrences) :=
  if saveToMinimumRank then duplicates
  else duplicates.mergeSort fun left right => decide (right.1 ≤ left.1)

def planOwnershipMasks (allPlans : List SavePlan) (saveToMinimumRank : Bool) :
    Except PlanError (List (List Bool)) := do
  let occurrencesByIndex ← collectOccurrences allPlans
  let (assignment, duplicates) :=
    occurrencesByIndex.values.foldl assignUnique (emptyAssignment allPlans, [])
  return ((sortDuplicates saveToMinimumRank duplicates).foldl
    (assignDuplicate saveToMinimumRank) assignment).masks

def holders : List Nat → List (Nat × Nat)
  | planIdx :: position :: slots => (planIdx, position) :: holders slots
  | _ => []

theorem holders_append {slots : List Nat} (h : slots.length % 2 = 0) (planIdx position : Nat) :
    holders (slots ++ [planIdx, position]) = holders slots ++ [(planIdx, position)] := by
  induction slots using holders.induct with
  | case1 p q slots ih =>
    have htail : slots.length % 2 = 0 := by
      simp only [length_cons] at h
      omega
    rw [cons_append, cons_append, holders, ih htail, holders, cons_append]
  | case2 slots hne =>
    match slots, hne, h with
    | [], _, _ => rfl
    | [_], _, h => simp at h
    | a :: b :: rest, hne, _ => exact absurd rfl (hne a b rest)

theorem slot_mem_holders {slots : List Nat} {k : Nat} (hk : k < slots.length / 2) :
    (slots.getD (2 * k) 0, slots.getD (2 * k + 1) 0) ∈ holders slots := by
  induction slots using holders.induct generalizing k with
  | case1 p q slots ih =>
    rw [holders, mem_cons]
    match k with
    | 0 => exact .inl rfl
    | k + 1 =>
      have hlt : k < slots.length / 2 := by
        simp only [length_cons] at hk
        omega
      exact .inr (ih hlt)
  | case2 slots hne =>
    match slots, hne with
    | [], _ => simp at hk
    | [_], _ => simp at hk
    | a :: b :: rest, hne => exact absurd rfl (hne a b rest)

variable {entries : List (Nat × Nat × WriteItem)} {occurrences : Occurrences} {entry : WriteItem}
  {key : String × List Nat}

theorem leastLoadedOwnerSlot_eq (storageSizes : List Nat) (heven : occurrences.slots.length % 2 = 0)
    (hheld : 0 < occurrences.holderCount) :
    ∃ k < occurrences.holderCount, leastLoadedOwnerSlot occurrences storageSizes = 2 * k + 1 := by
  unfold leastLoadedOwnerSlot
  have hslots : ∀ slot ∈ List.range' 3 ((occurrences.slots.length - 1) / 2) 2,
      ∃ k < occurrences.holderCount, slot = 2 * k + 1 := by
    intro slot hslot
    obtain ⟨i, hi, rfl⟩ := mem_range'.mp hslot
    unfold Occurrences.holderCount
    exact ⟨i + 1, by omega, by omega⟩
  generalize List.range' 3 ((occurrences.slots.length - 1) / 2) 2 = slots at hslots
  suffices hfold : ∀ best : Nat × Nat, (∃ k < occurrences.holderCount, best.1 = 2 * k + 1) →
      ∃ k < occurrences.holderCount, (slots.foldl (fun best slot =>
        let size := storageSizes.getD (occurrences.slot slot) 0
        if size < best.2 then (slot, size) else best) best).1 = 2 * k + 1 from
    hfold _ ⟨0, hheld, rfl⟩
  induction slots with
  | nil => exact fun best hbest => hbest
  | cons slot slots ih =>
    intro best hbest
    rw [foldl_cons]
    apply ih fun s hs => hslots s (mem_cons_of_mem slot hs)
    dsimp only
    split
    · exact hslots slot mem_cons_self
    · exact hbest

def planEntries (allPlans : List SavePlan) : List (Nat × Nat × WriteItem) :=
  allPlans.zipIdx.flatMap fun plan => plan.1.items.zipIdx.map fun entry =>
    (plan.2, entry.2, entry.1)

theorem mem_planEntries {allPlans : List SavePlan} {planIdx position : Nat} :
    (planIdx, position, entry) ∈ planEntries allPlans ↔
      ∃ plan, allPlans[planIdx]? = some plan ∧ plan.items[position]? = some entry := by
  simp only [planEntries, mem_flatMap, mem_map, Prod.exists,
    mk_mem_zipIdx_iff_getElem?, Prod.mk.injEq]
  constructor
  · rintro ⟨plan, i, hplan, item, j, hitem, rfl, rfl, rfl⟩
    exact ⟨plan, hplan, hitem⟩
  · rintro ⟨plan, hplan, hitem⟩
    exact ⟨plan, planIdx, hplan, entry, position, hitem, rfl, rfl, rfl⟩

theorem collectOccurrences_eq (allPlans : List SavePlan) :
    collectOccurrences allPlans = (planEntries allPlans).foldlM
      (fun dict entry => recordEntry dict entry.1 entry.2.1 entry.2.2) .empty := by
  rw [planEntries, foldlM_flatMap_eq]
  simp only [foldlM_map]
  rfl

/-- What the occurrences recorded under `key` are, once `entries` have been walked. -/
structure Records (entries : List (Nat × Nat × WriteItem)) (key : String × List Nat)
    (occurrences : Occurrences) : Prop where
  even : occurrences.slots.length % 2 = 0
  held : 0 < occurrences.holderCount
  entry_key : occurrences.entry.index.key = key
  holder : ∀ h ∈ holders occurrences.slots, ∃ entry, (h.1, h.2, entry) ∈ entries ∧
    entry.index.key = key ∧
      (entry.tensorStorageSize = some 0 ↔ occurrences.entry.tensorStorageSize = some 0)
  nonempty_first : occurrences.entry.tensorStorageSize = some 0 →
    ∀ e ∈ entries, e.2.2.index.key = key → e.2.2.tensorStorageSize = some 0
  same_data : ∀ e ∈ entries, e.2.2.index.key = key → e.2.2.tensorStorageSize ≠ some 0 →
    e.2.2.tensorData = occurrences.entry.tensorData

structure Collected (entries : List (Nat × Nat × WriteItem)) (dict : OccurrencesByIndex) :
    Prop where
  recorded : ∀ e ∈ entries, e.2.2.index.key ∈ dict.keys
  records : ∀ key occurrences, dict.get? key = some occurrences → Records entries key occurrences

theorem recordEntry_cases {dict dict' : OccurrencesByIndex} {planIdx position : Nat}
    (h : recordEntry dict planIdx position entry = .ok dict') :
    (entry.tensorStorageSize = some 0 ∧ entry.index.key ∈ dict.keys ∧ dict' = dict) ∨
    ((dict.get? entry.index.key = none ∨ entry.tensorStorageSize ≠ some 0 ∧
        ∃ occurrences, dict.get? entry.index.key = some occurrences ∧
          occurrences.entry.tensorStorageSize = some 0) ∧
      dict' = dict.set entry.index.key ⟨entry, [planIdx, position]⟩) ∨
    (∃ occurrences, dict.get? entry.index.key = some occurrences ∧
      entry.tensorStorageSize ≠ some 0 ∧ occurrences.entry.tensorStorageSize ≠ some 0 ∧
      entry.tensorData = occurrences.entry.tensorData ∧
      dict' = dict.set entry.index.key
        { occurrences with slots := occurrences.slots ++ [planIdx, position] }) := by
  unfold recordEntry at h
  cases hget : dict.get? entry.index.key with
  | none =>
    simp only [hget, ite_self, Except.ok.injEq] at h
    exact .inr (.inl ⟨.inl rfl, h.symm⟩)
  | some occurrences =>
    simp only [hget] at h
    split at h
    · rename_i hempty
      exact .inl ⟨hempty, dict.mem_keys_iff.mpr ⟨_, hget⟩, by simpa using h.symm⟩
    · rename_i hsize
      split at h
      · rename_i hfirst
        exact .inr (.inl ⟨.inr ⟨hsize, occurrences, rfl, hfirst⟩, by simpa using h.symm⟩)
      · rename_i hfirst
        split at h
        · cases h
        · rename_i hdata
          exact .inr (.inr ⟨occurrences, rfl, hsize, hfirst, not_not.mp hdata,
            by simpa using h.symm⟩)

theorem Records.append (h : Records entries key occurrences) (e : Nat × Nat × WriteItem)
    (hlast : e.2.2.index.key = key → e.2.2.tensorStorageSize = some 0) :
    Records (entries ++ [e]) key occurrences where
  even := h.even
  held := h.held
  entry_key := h.entry_key
  holder := by
    intro holder hholder
    obtain ⟨entry, hmem, hrest⟩ := h.holder holder hholder
    exact ⟨entry, mem_append_left _ hmem, hrest⟩
  nonempty_first := by
    intro hempty e' he' hkey
    rcases mem_append.mp he' with hmem | hmem
    · exact h.nonempty_first hempty e' hmem hkey
    · obtain rfl := mem_singleton.mp hmem
      exact hlast hkey
  same_data := by
    intro e' he' hkey hsize
    rcases mem_append.mp he' with hmem | hmem
    · exact h.same_data e' hmem hkey hsize
    · obtain rfl := mem_singleton.mp hmem
      exact absurd (hlast hkey) hsize

theorem Records.fresh (planIdx position : Nat) (entry : WriteItem)
    (h : ∀ e ∈ entries, e.2.2.index.key = entry.index.key → e.2.2.tensorStorageSize = some 0) :
    Records (entries ++ [(planIdx, position, entry)]) entry.index.key
      ⟨entry, [planIdx, position]⟩ where
  even := by simp
  held := by simp [Occurrences.holderCount]
  entry_key := rfl
  holder := by
    intro holder hholder
    obtain rfl : holder = (planIdx, position) := by simpa [holders] using hholder
    exact ⟨entry, by simp, rfl, Iff.rfl⟩
  nonempty_first := by
    intro hempty e he hkey
    rcases mem_append.mp he with hmem | hmem
    · exact h e hmem hkey
    · obtain rfl := mem_singleton.mp hmem
      exact hempty
  same_data := by
    intro e he hkey hsize
    rcases mem_append.mp he with hmem | hmem
    · exact absurd (h e hmem hkey) hsize
    · obtain rfl := mem_singleton.mp hmem
      rfl

theorem Records.push (h : Records entries key occurrences) (planIdx position : Nat)
    (hkey : entry.index.key = key) (hsize : entry.tensorStorageSize ≠ some 0)
    (hfirst : occurrences.entry.tensorStorageSize ≠ some 0)
    (hdata : entry.tensorData = occurrences.entry.tensorData) :
    Records (entries ++ [(planIdx, position, entry)]) key
      { occurrences with slots := occurrences.slots ++ [planIdx, position] } where
  even := by
    have := h.even
    simp only [length_append, length_cons, length_nil]
    omega
  held := by
    simp only [Occurrences.holderCount, length_append, length_cons, length_nil]
    omega
  entry_key := h.entry_key
  holder := by
    intro holder hholder
    simp only [holders_append h.even, mem_append, mem_singleton] at hholder
    rcases hholder with hold | rfl
    · obtain ⟨item, hmem, hrest⟩ := h.holder holder hold
      exact ⟨item, mem_append_left _ hmem, hrest⟩
    · exact ⟨entry, by simp, hkey, iff_of_false hsize hfirst⟩
  nonempty_first := fun hempty => absurd hempty hfirst
  same_data := by
    intro e he hkey' hsize'
    rcases mem_append.mp he with hmem | hmem
    · exact h.same_data e hmem hkey' hsize'
    · obtain rfl := mem_singleton.mp hmem
      exact hdata

theorem Collected.step {seen : List (Nat × Nat × WriteItem)} {dict dict' : OccurrencesByIndex}
    {e : Nat × Nat × WriteItem} (h : Collected seen dict)
    (hstep : recordEntry dict e.1 e.2.1 e.2.2 = .ok dict') : Collected (seen ++ [e]) dict' := by
  obtain ⟨planIdx, position, entry⟩ := e
  have hother : ∀ {key occurrences}, dict.get? key = some occurrences → key ≠ entry.index.key →
      Records (seen ++ [(planIdx, position, entry)]) key occurrences := by
    intro key occurrences hget hne
    exact (h.records key occurrences hget).append _ fun hkey => absurd hkey.symm hne
  have hset : ∀ occurrences, Records (seen ++ [(planIdx, position, entry)]) entry.index.key
      occurrences → Collected (seen ++ [(planIdx, position, entry)])
        (dict.set entry.index.key occurrences) := by
    intro occurrences hrecords
    constructor
    · intro e he
      rw [PyDict.mem_keys_set]
      rcases mem_append.mp he with hmem | hmem
      · exact .inr (h.recorded e hmem)
      · obtain rfl := mem_singleton.mp hmem
        exact .inl rfl
    · intro key found hfound
      rw [PyDict.get?_set] at hfound
      split at hfound
      · rename_i hkey
        cases hfound
        rw [hkey]
        exact hrecords
      · rename_i hne
        exact hother hfound hne
  rcases recordEntry_cases hstep with ⟨hempty, hkeys, rfl⟩ | ⟨hfirst, rfl⟩ |
    ⟨occurrences, hget, hsize, hfirst, hdata, rfl⟩
  · constructor
    · intro e he
      rcases mem_append.mp he with hmem | hmem
      · exact h.recorded e hmem
      · obtain rfl := mem_singleton.mp hmem
        exact hkeys
    · intro key occurrences hget
      exact (h.records key occurrences hget).append _ fun _ => hempty
  · apply hset
    apply Records.fresh
    intro e he hkey
    rcases hfirst with hnone | ⟨-, occurrences, hget, hempty⟩
    · exact absurd (hkey ▸ h.recorded e he) (dict.get?_eq_none_iff.mp hnone)
    · exact (h.records _ _ hget).nonempty_first hempty e he hkey
  · apply hset
    exact (h.records _ _ hget).push planIdx position rfl hsize hfirst hdata

theorem collectOccurrences_collected {allPlans : List SavePlan} {dict : OccurrencesByIndex}
    (h : collectOccurrences allPlans = .ok dict) : Collected (planEntries allPlans) dict := by
  rw [collectOccurrences_eq] at h
  have hempty : Collected [] .empty := ⟨by simp, by simp⟩
  exact foldlM_invariant Collected (fun _ _ _ _ hseen hstep => hseen.step hstep) hempty h

def isOwned (masks : List (List Bool)) (planIdx position : Nat) : Bool :=
  ((masks.getD planIdx []).getD position false)

def Shaped (allPlans : List SavePlan) (masks : List (List Bool)) : Prop :=
  masks.map List.length = allPlans.map fun plan => plan.items.length

variable {assignment : Assignment}

theorem Shaped.give {allPlans : List SavePlan}
    (h : Shaped allPlans assignment.masks) (ownerIdx position itemSize : Nat) :
    Shaped allPlans (assignment.give ownerIdx position itemSize).masks := by
  unfold Shaped at h ⊢
  rw [← h]
  apply ext_getElem?
  intro i
  simp only [Assignment.give, getElem?_map, getElem?_modify]
  cases assignment.masks[i]? with
  | none => rfl
  | some mask => by_cases hi : ownerIdx = i <;> simp [hi]

theorem Shaped.getElem? {allPlans : List SavePlan} {masks : List (List Bool)}
    (h : Shaped allPlans masks) {planIdx : Nat} {plan : SavePlan}
    (hplan : allPlans[planIdx]? = some plan) :
    ∃ mask, masks[planIdx]? = some mask ∧ mask.length = plan.items.length := by
  have hlength := congrArg (fun lengths => lengths[planIdx]?) h
  simpa only [getElem?_map, hplan, Option.map_some, Option.map_eq_some_iff] using hlength

theorem isOwned_give {allPlans : List SavePlan}
    (h : Shaped allPlans assignment.masks) {ownerIdx position : Nat}
    (hentry : (ownerIdx, position, entry) ∈ planEntries allPlans) (itemSize i j : Nat) :
    isOwned (assignment.give ownerIdx position itemSize).masks i j =
      (decide ((i, j) = (ownerIdx, position)) || isOwned assignment.masks i j) := by
  obtain ⟨plan, hplan, hitem⟩ := mem_planEntries.mp hentry
  obtain ⟨mask, hmask, hlength⟩ := h.getElem? hplan
  have hposition : position < mask.length := by
    rw [hlength]
    exact (List.getElem?_eq_some_iff.mp hitem).1
  unfold isOwned Assignment.give
  simp only [getD_eq_getElem?_getD, getElem?_modify, Prod.mk.injEq]
  by_cases hi : ownerIdx = i
  · subst hi
    by_cases hj : position = j
    · subst hj
      simp [hmask, hposition]
    · simp [hmask, hj, Ne.symm hj, getElem?_set_ne]
  · have hne : ¬ (i = ownerIdx ∧ j = position) := fun heq => hi heq.1.symm
    simp [hi, hne]

theorem emptyAssignment_shaped (allPlans : List SavePlan) :
    Shaped allPlans (emptyAssignment allPlans).masks := by
  simp [Shaped, emptyAssignment, Function.comp_def]

theorem emptyAssignment_isOwned (allPlans : List SavePlan) (i j : Nat) :
    isOwned (emptyAssignment allPlans).masks i j = false := by
  unfold isOwned emptyAssignment
  simp only [getD_eq_getElem?_getD, getElem?_map]
  cases allPlans[i]? with
  | none => simp
  | some plan =>
    simp only [Option.map_some, Option.getD_some, getElem?_replicate]
    split <;> rfl

structure Given (allPlans : List SavePlan) (given : List (Occurrences × Nat × Nat))
    (assignment : Assignment) : Prop where
  shaped : Shaped allPlans assignment.masks
  holder : ∀ g ∈ given, g.2 ∈ holders g.1.slots
  owned : ∀ i j, isOwned assignment.masks i j = true ↔ ∃ g ∈ given, g.2 = (i, j)

theorem Given.give {allPlans : List SavePlan} {given : List (Occurrences × Nat × Nat)}
    (h : Given allPlans given assignment) {holder : Nat × Nat}
    (hholder : holder ∈ holders occurrences.slots)
    (hentry : (holder.1, holder.2, entry) ∈ planEntries allPlans) (itemSize : Nat) :
    Given allPlans (given ++ [(occurrences, holder)])
      (assignment.give holder.1 holder.2 itemSize) where
  shaped := h.shaped.give _ _ _
  holder := by
    intro g hg
    rcases mem_append.mp hg with hold | hnew
    · exact h.holder g hold
    · obtain rfl := mem_singleton.mp hnew
      exact hholder
  owned := by
    intro i j
    rw [isOwned_give h.shaped hentry, Bool.or_eq_true, decide_eq_true_eq, h.owned]
    constructor
    · rintro (heq | ⟨g, hg, hcell⟩)
      · exact ⟨(occurrences, holder), by simp, heq.symm⟩
      · exact ⟨g, mem_append_left _ hg, hcell⟩
    · rintro ⟨g, hg, hcell⟩
      rcases mem_append.mp hg with hold | hnew
      · exact .inr ⟨g, hold, hcell⟩
      · obtain rfl := mem_singleton.mp hnew
        exact .inl hcell.symm

theorem Records.slot_pair (h : Records entries key occurrences) {k : Nat}
    (hk : k < occurrences.holderCount) :
    (occurrences.slot (2 * k + 1), occurrences.slot (2 * k + 2)) ∈ holders occurrences.slots ∧
      ∃ entry, (occurrences.slot (2 * k + 1), occurrences.slot (2 * k + 2), entry) ∈ entries := by
  have hmem := @slot_mem_holders occurrences.slots _ hk
  obtain ⟨entry, hentry, -⟩ := h.holder _ hmem
  exact ⟨hmem, entry, hentry⟩

section Masks

variable {allPlans : List SavePlan} {dict : OccurrencesByIndex}

theorem assignUnique_given (hdict : Collected (planEntries allPlans) dict) :
    let state := dict.values.foldl assignUnique (emptyAssignment allPlans, [])
    ∃ given, Given allPlans given state.1 ∧
      (given.map Prod.fst ++ state.2.map Prod.snd).Perm dict.values := by
  intro state
  apply foldl_invariant (fun seen (state : Assignment × List (Nat × Occurrences)) =>
    ∃ given, Given allPlans given state.1 ∧ (given.map Prod.fst ++ state.2.map Prod.snd).Perm seen)
  · refine ⟨[], ⟨emptyAssignment_shaped allPlans, by simp, ?_⟩, by simp⟩
    intro i j
    simp [emptyAssignment_isOwned]
  · rintro seen ⟨assignment, duplicates⟩ occurrences hmem ⟨given, hgiven, hperm⟩
    obtain ⟨key, hget⟩ := dict.mem_values_iff.mp hmem
    have hrecords := hdict.records key occurrences hget
    unfold assignUnique
    split
    · refine ⟨given, hgiven, ?_⟩
      simpa using hperm.append_right [occurrences]
    · obtain ⟨hholder, entry, hentry⟩ := hrecords.slot_pair hrecords.held
      refine ⟨given ++ [(occurrences, occurrences.slot 1, occurrences.slot 2)],
        hgiven.give hholder hentry _, ?_⟩
      have hmoved : ((given ++ [(occurrences, occurrences.slot 1, occurrences.slot 2)]).map
          Prod.fst ++ duplicates.map Prod.snd).Perm
          (given.map Prod.fst ++ duplicates.map Prod.snd ++ [occurrences]) := by
        simp only [map_append, map_cons, map_nil, append_assoc]
        exact List.Perm.append_left _ perm_append_comm
      exact hmoved.trans (hperm.append_right [occurrences])

theorem assignDuplicate_given (hdict : Collected (planEntries allPlans) dict)
    (saveToMinimumRank : Bool) {duplicates : List (Nat × Occurrences)}
    (hduplicates : ∀ duplicate ∈ duplicates, duplicate.2 ∈ dict.values)
    {given : List (Occurrences × Nat × Nat)} {assignment : Assignment}
    (hgiven : Given allPlans given assignment) :
    ∃ rest, Given allPlans (given ++ rest)
        (duplicates.foldl (assignDuplicate saveToMinimumRank) assignment) ∧
      rest.map Prod.fst = duplicates.map Prod.snd := by
  refine foldl_invariant (fun seen assignment => ∃ rest, Given allPlans (given ++ rest) assignment ∧
    rest.map Prod.fst = seen.map Prod.snd) ⟨[], by simpa using hgiven, rfl⟩ ?_
  rintro seen assignment ⟨itemSize, occurrences⟩ hmem ⟨rest, hrest, hmap⟩
  obtain ⟨key, hget⟩ := dict.mem_values_iff.mp (hduplicates _ hmem)
  have hrecords := hdict.records key occurrences hget
  have hslot : ∃ k < occurrences.holderCount,
      (if saveToMinimumRank then 1
        else leastLoadedOwnerSlot occurrences assignment.storageSizes) = 2 * k + 1 := by
    split
    · exact ⟨0, hrecords.held, rfl⟩
    · exact leastLoadedOwnerSlot_eq _ hrecords.even hrecords.held
  obtain ⟨k, hk, hslot⟩ := hslot
  obtain ⟨hholder, entry, hentry⟩ := hrecords.slot_pair hk
  refine ⟨rest ++ [(occurrences, occurrences.slot (2 * k + 1), occurrences.slot (2 * k + 2))],
    ?_, by simp [hmap]⟩
  unfold assignDuplicate
  dsimp only
  rw [hslot, ← append_assoc]
  exact hrest.give hholder hentry itemSize

theorem sortDuplicates_perm (saveToMinimumRank : Bool) (duplicates : List (Nat × Occurrences)) :
    (sortDuplicates saveToMinimumRank duplicates).Perm duplicates := by
  unfold sortDuplicates
  split
  · exact List.Perm.refl _
  · exact mergeSort_perm _ _

theorem planOwnershipMasks_given {saveToMinimumRank : Bool} {masks : List (List Bool)}
    (h : planOwnershipMasks allPlans saveToMinimumRank = .ok masks) :
    ∃ dict, Collected (planEntries allPlans) dict ∧ ∃ given assignment,
      Given allPlans given assignment ∧ assignment.masks = masks ∧
      (given.map Prod.fst).Perm dict.values := by
  unfold planOwnershipMasks at h
  cases hcollect : collectOccurrences allPlans with
  | error e =>
    rw [hcollect] at h
    cases h
  | ok dict =>
    rw [hcollect] at h
    have hdict := collectOccurrences_collected hcollect
    obtain ⟨given, hgiven, hperm⟩ := assignUnique_given hdict
    have hsorted := sortDuplicates_perm saveToMinimumRank
      (dict.values.foldl assignUnique (emptyAssignment allPlans, [])).2
    have hduplicates : ∀ duplicate ∈ sortDuplicates saveToMinimumRank
        (dict.values.foldl assignUnique (emptyAssignment allPlans, [])).2,
        duplicate.2 ∈ dict.values := by
      intro duplicate hmem
      apply hperm.subset
      exact mem_append_right _ (mem_map_of_mem (hsorted.subset hmem))
    obtain ⟨rest, hrest, hmap⟩ := assignDuplicate_given hdict saveToMinimumRank hduplicates hgiven
    refine ⟨dict, hdict, given ++ rest, _, hrest, by simpa using h, ?_⟩
    rw [map_append, hmap]
    exact ((hsorted.map Prod.snd).append_left _).trans hperm

theorem planEntries_unique {planIdx position : Nat} {entry' : WriteItem}
    (h : (planIdx, position, entry) ∈ planEntries allPlans)
    (h' : (planIdx, position, entry') ∈ planEntries allPlans) : entry = entry' := by
  obtain ⟨plan, hplan, hitem⟩ := mem_planEntries.mp h
  obtain ⟨plan', hplan', hitem'⟩ := mem_planEntries.mp h'
  rw [hplan] at hplan'
  cases hplan'
  rw [hitem] at hitem'
  exact Option.some.inj hitem'

theorem Collected.values_keys (h : Collected (planEntries allPlans) dict) :
    dict.values.map (fun occurrences => occurrences.entry.index.key) = dict.keys := by
  unfold PyDict.values PyDict.keys
  rw [map_map]
  apply map_congr_left
  rintro ⟨key, occurrences⟩ hmem
  exact (h.records key occurrences (dict.mem_entries_iff.mp hmem)).entry_key

/-- What the masks say of the gathered plans. -/
structure Owns (allPlans : List SavePlan) (masks : List (List Bool)) : Prop where
  shaped : Shaped allPlans masks
  exists_owned : ∀ e ∈ planEntries allPlans, ∃ e' ∈ planEntries allPlans,
    isOwned masks e'.1 e'.2.1 = true ∧ e'.2.2.index.key = e.2.2.index.key
  unique : ∀ e ∈ planEntries allPlans, ∀ e' ∈ planEntries allPlans,
    isOwned masks e.1 e.2.1 = true → isOwned masks e'.1 e'.2.1 = true →
      e.2.2.index.key = e'.2.2.index.key → e = e'
  nonempty : ∀ e ∈ planEntries allPlans, isOwned masks e.1 e.2.1 = true →
    e.2.2.tensorStorageSize = some 0 →
    ∀ e' ∈ planEntries allPlans, e'.2.2.index.key = e.2.2.index.key →
      e'.2.2.tensorStorageSize = some 0
  same_data : ∀ e ∈ planEntries allPlans, isOwned masks e.1 e.2.1 = true →
    e.2.2.tensorStorageSize ≠ some 0 →
    ∀ e' ∈ planEntries allPlans, e'.2.2.index.key = e.2.2.index.key →
      e'.2.2.tensorStorageSize ≠ some 0 → e'.2.2.tensorData = e.2.2.tensorData

theorem planOwnershipMasks_owns {saveToMinimumRank : Bool} {masks : List (List Bool)}
    (h : planOwnershipMasks allPlans saveToMinimumRank = .ok masks) : Owns allPlans masks := by
  obtain ⟨dict, hdict, given, assignment, hgiven, rfl, hperm⟩ := planOwnershipMasks_given h
  have hrecords : ∀ g ∈ given, ∃ key, Records (planEntries allPlans) key g.1 := by
    intro g hg
    obtain ⟨key, hget⟩ := dict.mem_values_iff.mp (hperm.subset (mem_map_of_mem hg))
    exact ⟨key, hdict.records key g.1 hget⟩
  -- The occurrences an owned entry was given for are those of its own index.
  have howner : ∀ e ∈ planEntries allPlans, isOwned assignment.masks e.1 e.2.1 = true →
      ∃ g ∈ given, g.2 = (e.1, e.2.1) ∧ g.1.entry.index.key = e.2.2.index.key ∧
        Records (planEntries allPlans) e.2.2.index.key g.1 ∧
        (e.2.2.tensorStorageSize = some 0 ↔ g.1.entry.tensorStorageSize = some 0) := by
    rintro ⟨planIdx, position, entry⟩ he howned
    obtain ⟨g, hg, hcell⟩ := (hgiven.owned _ _).mp howned
    obtain ⟨key, hkey⟩ := hrecords g hg
    obtain ⟨entry', hentry', hkey', hsize⟩ := hkey.holder g.2 (hgiven.holder g hg)
    rw [hcell] at hentry'
    obtain rfl := planEntries_unique hentry' he
    subst hkey'
    exact ⟨g, hg, hcell, hkey.entry_key, hkey, hsize⟩
  constructor
  · exact hgiven.shaped
  · intro e he
    obtain ⟨occurrences, hget⟩ := dict.mem_keys_iff.mp (hdict.recorded e he)
    have hmem : occurrences ∈ given.map Prod.fst :=
      hperm.symm.subset (dict.mem_values_iff.mpr ⟨_, hget⟩)
    obtain ⟨g, hg, rfl⟩ := mem_map.mp hmem
    obtain ⟨entry, hentry, hkey, -⟩ := (hdict.records _ _ hget).holder g.2 (hgiven.holder g hg)
    exact ⟨_, hentry, (hgiven.owned _ _).mpr ⟨g, hg, rfl⟩, hkey⟩
  · intro e he e' he' howned howned' hsame
    obtain ⟨g, hg, hcell, hkey, -, -⟩ := howner e he howned
    obtain ⟨g', hg', hcell', hkey', -, -⟩ := howner e' he' howned'
    have hnodup : (given.map fun g => g.1.entry.index.key).Nodup := by
      have hkeys := (hperm.map fun occurrences => occurrences.entry.index.key).nodup_iff.mpr
        (hdict.values_keys ▸ dict.keys_nodup)
      simpa [Function.comp_def] using hkeys
    obtain rfl := inj_on_of_nodup_map hnodup hg hg' (by rw [hkey, hkey', hsame])
    obtain ⟨planIdx, position, entry⟩ := e
    obtain ⟨planIdx', position', entry'⟩ := e'
    obtain ⟨rfl, rfl⟩ : planIdx = planIdx' ∧ position = position' := by simpa [hcell] using hcell'
    rw [planEntries_unique he he']
  · intro e he howned hempty e' he' hsame
    obtain ⟨g, hg, -, -, hrecord, hsize⟩ := howner e he howned
    exact hrecord.nonempty_first (hsize.mp hempty) e' he' hsame
  · intro e he howned hsize e' he' hsame hsize'
    obtain ⟨g, hg, -, -, hrecord, -⟩ := howner e he howned
    exact (hrecord.same_data e' he' hsame hsize').trans (hrecord.same_data e he rfl hsize).symm

end Masks

end HyperParallel.Checkpoint
