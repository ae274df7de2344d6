import HyperParallel.Checkpoint.Ownership
import HyperParallel.Foundation.ListOrder
import Mathlib.Data.List.Sigma

/-!
# The global save plan

Every rank runs `buildGlobalPlan` over the same gathered plans and rebuilds its
own plan only.  The items of all ranks are walked in gather order: the position
of a chunk in the shared list of its name is the index its item is given.
-/

namespace HyperParallel.Checkpoint

open Foundation List

structure StandardSavePlanner where
  rank : Nat
  removeRedundancy : Bool := true
  saveToMinimumRank : Bool := false
  flattenStateDict : Bool := true
  enablePlanCaching : Bool := true
deriving DecidableEq, Repr

/-- Name to properties, size and chunks; bytes metadata so far; this rank's items so far. -/
structure GlobalPlanState where
  fqnInfo : PyDict String TensorStorageMetadata
  stateDictMetadata : PyDict String StorageMetadata
  ownItems : List WriteItem

def globalChunksFor (fqn : String) (properties : TensorProperties) (size : List Nat)
    (fqnInfo : PyDict String TensorStorageMetadata) : Except PlanError TensorStorageMetadata :=
  match fqnInfo.get? fqn with
  | none => .ok ⟨properties, size, []⟩
  | some info =>
    if info.properties ≠ properties ∨ info.size ≠ size then
      .error (.propertiesDiffer fqn info.properties properties info.size size)
    else .ok info

/-- `dataclasses.replace(item, index=dataclasses.replace(item.index, index=index))`. -/
def WriteItem.withIndex (item : WriteItem) (index : Nat) : WriteItem :=
  { item with index := { item.index with index := some index } }

def walkItem (ownIndex : Nat) (state : GlobalPlanState) (entry : Nat × WriteItem) :
    Except PlanError GlobalPlanState :=
  let (planIndex, item) := entry
  match item.type, item.tensorData with
  | .tensor, some data => do
      let info ← globalChunksFor item.index.fqn data.properties data.size state.fqnInfo
      return { state with
        fqnInfo := state.fqnInfo.set item.index.fqn
          { info with chunks := info.chunks ++ [data.chunk] }
        ownItems :=
          if planIndex = ownIndex then state.ownItems ++ [item.withIndex info.chunks.length]
          else state.ownItems }
  | .byteIo, _ =>
    .ok { state with
      stateDictMetadata := state.stateDictMetadata.set item.index.fqn .bytes
      ownItems := if planIndex = ownIndex then state.ownItems ++ [item] else state.ownItems }
  | .tensor, none => .error (.unsupportedWriteItem item.type)

/-- `compress(plan.items, mask)`, or every item when there are no masks. -/
def keptItems (masks : Option (List (List Bool))) (planIndex : Nat) (plan : SavePlan) :
    List WriteItem :=
  match masks with
  | none => plan.items
  | some masks => ((plan.items.zip (masks.getD planIndex [])).filter Prod.snd).map Prod.fst

def keptEntries (allPlans : List SavePlan) (masks : Option (List (List Bool))) :
    List (Nat × WriteItem) :=
  allPlans.zipIdx.flatMap fun plan => (keptItems masks plan.2 plan.1).map (plan.2, ·)

def mergePlannerData (allPlans : List SavePlan) : Except PlanError (PyDict String ObjectPath) :=
  allPlans.foldlM (fun merged plan =>
    match plan.plannerData with
    | none => .error .plannerDataMissing
    | some mapping => .ok (merged.update mapping)) .empty

def tensorMetadata (fqnInfo : PyDict String TensorStorageMetadata)
    (stateDictMetadata : PyDict String StorageMetadata) : PyDict String StorageMetadata :=
  fqnInfo.entries.foldl (fun metadata info => metadata.set info.1 (.tensor info.2))
    stateDictMetadata

def ownershipMasks (planner : StandardSavePlanner) (allPlans : List SavePlan) :
    Except PlanError (Option (List (List Bool))) :=
  if planner.removeRedundancy && decide (1 < allPlans.length) then
    some <$> planOwnershipMasks allPlans planner.saveToMinimumRank
  else .ok none

def globalPlannerData (planner : StandardSavePlanner) (allPlans : List SavePlan) :
    Except PlanError (Option (PyDict String ObjectPath)) :=
  if planner.flattenStateDict then some <$> mergePlannerData allPlans else .ok none

def buildGlobalPlan (planner : StandardSavePlanner) (allPlans : List SavePlan) :
    Except PlanError (SavePlan × Metadata) := do
  let ownIndex ← ownPlanIndex allPlans planner.rank
  let masks ← ownershipMasks planner allPlans
  let state ← (keptEntries allPlans masks).foldlM (walkItem ownIndex) ⟨.empty, .empty, []⟩
  let plannerData ← globalPlannerData planner allPlans
  return ({ items := state.ownItems, plannerData := (allPlans[ownIndex]?.bind (·.plannerData)) },
    { stateDictMetadata := tensorMetadata state.fqnInfo state.stateDictMetadata
      plannerData := plannerData })

/-- The chunk an item adds to the chunks of `fqn`. -/
def WriteItem.chunkFor (fqn : String) (item : WriteItem) : Option ChunkStorageMetadata :=
  match item.type, item.tensorData with
  | .tensor, some data => if item.index.fqn = fqn then some data.chunk else none
  | _, _ => none

def chunksOf (entries : List (Nat × WriteItem)) (fqn : String) : List ChunkStorageMetadata :=
  entries.filterMap fun entry => entry.2.chunkFor fqn

/-- Give a tensor item the number of chunks its name has among `entries`. -/
def numberItem (entries : List (Nat × WriteItem)) (item : WriteItem) : WriteItem :=
  match item.type, item.tensorData with
  | .tensor, some _ => item.withIndex (chunksOf entries item.index.fqn).length
  | _, _ => item

def numbered (entries : List (Nat × WriteItem)) : List (Nat × WriteItem) :=
  entries.foldl (fun seen entry => seen ++ [(entry.1, numberItem seen entry.2)]) []

def ownItems (ownIndex : Nat) (entries : List (Nat × WriteItem)) : List WriteItem :=
  ((numbered entries).filter fun entry => decide (entry.1 = ownIndex)).map Prod.snd

section

variable (entries : List (Nat × WriteItem))

include entries

@[simp] theorem numberItem_type (item : WriteItem) :
    (numberItem entries item).type = item.type := by
  unfold numberItem
  split <;> rfl

@[simp] theorem numberItem_tensorData (item : WriteItem) :
    (numberItem entries item).tensorData = item.tensorData := by
  unfold numberItem
  split <;> rfl

@[simp] theorem numberItem_key (item : WriteItem) :
    (numberItem entries item).index.key = item.index.key := by
  unfold numberItem
  split <;> rfl

@[simp] theorem numberItem_fqn (item : WriteItem) :
    (numberItem entries item).index.fqn = item.index.fqn :=
  congrArg Prod.fst (numberItem_key entries item)

@[simp] theorem numberItem_chunkFor (item : WriteItem) (fqn : String) :
    (numberItem entries item).chunkFor fqn = item.chunkFor fqn := by
  unfold WriteItem.chunkFor
  rw [numberItem_type, numberItem_tensorData, numberItem_fqn]

@[simp] theorem numberItem_tensorStorageSize (item : WriteItem) :
    (numberItem entries item).tensorStorageSize = item.tensorStorageSize := by
  unfold WriteItem.tensorStorageSize
  rw [numberItem_type, numberItem_tensorData]

theorem numbered_append (entry : Nat × WriteItem) :
    numbered (entries ++ [entry]) =
      numbered entries ++ [(entry.1, numberItem (numbered entries) entry.2)] := by
  rw [numbered, foldl_append]
  rfl

theorem chunksOf_append (entry : Nat × WriteItem) (fqn : String) :
    chunksOf (entries ++ [entry]) fqn = chunksOf entries fqn ++ (entry.2.chunkFor fqn).toList := by
  rw [chunksOf, filterMap_append, chunksOf]
  cases h : entry.2.chunkFor fqn <;> simp [h]

@[simp] theorem chunksOf_numbered (fqn : String) :
    chunksOf (numbered entries) fqn = chunksOf entries fqn := by
  induction entries using reverseRecOn with
  | nil => rfl
  | append_singleton entries entry ih =>
    rw [numbered_append, chunksOf_append, chunksOf_append, ih, numberItem_chunkFor]

end

variable {shared : PyDict String TensorStorageMetadata × PyDict String StorageMetadata}
  {entries : List (Nat × WriteItem)}

theorem mem_numbered {final : Nat × WriteItem} (h : final ∈ numbered entries) :
    ∃ entry ∈ entries, final.1 = entry.1 ∧
      final.2.type = entry.2.type ∧ final.2.tensorData = entry.2.tensorData ∧
      final.2.index.key = entry.2.index.key := by
  induction entries using reverseRecOn with
  | nil => cases h
  | append_singleton entries entry ih =>
    rw [numbered_append, mem_append] at h
    rcases h with hold | hnew
    · obtain ⟨entry', hmem, hrest⟩ := ih hold
      exact ⟨entry', mem_append_left _ hmem, hrest⟩
    · obtain rfl := mem_singleton.mp hnew
      exact ⟨entry, by simp, rfl, by simp⟩

variable {fqn : String}

theorem numberItem_index (entries : List (Nat × WriteItem)) {item : WriteItem}
    {chunk : ChunkStorageMetadata} (h : item.chunkFor fqn = some chunk) :
    (numberItem entries item).index.index = some (chunksOf entries fqn).length := by
  unfold WriteItem.chunkFor at h
  unfold numberItem
  split at h
  · split at h
    · rename_i hfqn
      rw [← hfqn]
      rfl
    · cases h
  · cases h

theorem numbered_position {final : Nat × WriteItem} (h : final ∈ numbered entries)
    {chunk : ChunkStorageMetadata} (hchunk : final.2.chunkFor fqn = some chunk) :
    ∃ j, final.2.index.index = some j ∧ (chunksOf entries fqn)[j]? = some chunk := by
  induction entries using reverseRecOn with
  | nil => cases h
  | append_singleton entries entry ih =>
    rw [numbered_append, mem_append] at h
    rw [chunksOf_append]
    rcases h with hold | hnew
    · obtain ⟨j, hindex, hj⟩ := ih hold
      refine ⟨j, hindex, ?_⟩
      rw [List.getElem?_append_left (List.getElem?_eq_some_iff.mp hj).1, hj]
    · obtain rfl := mem_singleton.mp hnew
      rw [numberItem_chunkFor] at hchunk
      refine ⟨(chunksOf entries fqn).length, ?_, by simp [hchunk]⟩
      rw [numberItem_index _ hchunk, chunksOf_numbered]

/-- The item that stands at position `j` of the chunks of `fqn`. -/
def WriteItem.hits (fqn : String) (j : Nat) (item : WriteItem) : Bool :=
  (item.chunkFor fqn).isSome && decide (item.index.index = some j)

theorem numbered_hits (entries : List (Nat × WriteItem)) (fqn : String) (j : Nat) :
    (numbered entries).countP (fun entry => entry.2.hits fqn j) =
      if j < (chunksOf entries fqn).length then 1 else 0 := by
  induction entries using reverseRecOn with
  | nil => rfl
  | append_singleton entries entry ih =>
    rw [numbered_append, countP_append, ih, countP_singleton]
    have hlength := congrArg List.length (chunksOf_append entries entry fqn)
    cases hchunk : entry.2.chunkFor fqn with
    | none =>
      have hmiss : (numberItem (numbered entries) entry.2).hits fqn j = false := by
        simp [WriteItem.hits, hchunk]
      have hsame : (chunksOf (entries ++ [entry]) fqn).length =
          (chunksOf entries fqn).length := by simpa [hchunk] using hlength
      rw [hmiss, hsame]
      rfl
    | some chunk =>
      have hhit : (numberItem (numbered entries) entry.2).hits fqn j =
          decide ((chunksOf entries fqn).length = j) := by
        simp [WriteItem.hits, hchunk, numberItem_index _ hchunk]
      have hnext : (chunksOf (entries ++ [entry]) fqn).length =
          (chunksOf entries fqn).length + 1 := by simpa [hchunk] using hlength
      rw [hhit, hnext]
      simp only [decide_eq_true_eq]
      split <;> split <;> split <;> omega

def registerItem (shared : PyDict String TensorStorageMetadata × PyDict String StorageMetadata)
    (entry : Nat × WriteItem) :
    Except PlanError (PyDict String TensorStorageMetadata × PyDict String StorageMetadata) :=
  match entry.2.type, entry.2.tensorData with
  | .tensor, some data => do
      let info ← globalChunksFor entry.2.index.fqn data.properties data.size shared.1
      return (shared.1.set entry.2.index.fqn { info with chunks := info.chunks ++ [data.chunk] },
        shared.2)
  | .byteIo, _ => .ok (shared.1, shared.2.set entry.2.index.fqn .bytes)
  | .tensor, none => .error (.unsupportedWriteItem entry.2.type)

def knownChunks (fqnInfo : PyDict String TensorStorageMetadata) (fqn : String) :
    List ChunkStorageMetadata :=
  match fqnInfo.get? fqn with
  | none => []
  | some info => info.chunks

theorem globalChunksFor_chunks {properties : TensorProperties} {size : List Nat}
    {fqnInfo : PyDict String TensorStorageMetadata} {info : TensorStorageMetadata}
    (h : globalChunksFor fqn properties size fqnInfo = .ok info) :
    info.chunks = knownChunks fqnInfo fqn := by
  unfold globalChunksFor at h
  unfold knownChunks
  cases hget : fqnInfo.get? fqn with
  | none =>
    rw [hget] at h
    cases h
    rfl
  | some known =>
    simp only [hget] at h
    split at h
    · cases h
    · cases h
      rfl

theorem registerItem_chunks {shared' : PyDict String TensorStorageMetadata ×
    PyDict String StorageMetadata} {entry : Nat × WriteItem}
    (h : registerItem shared entry = .ok shared') (fqn : String) :
    knownChunks shared'.1 fqn = knownChunks shared.1 fqn ++ (entry.2.chunkFor fqn).toList := by
  obtain ⟨planIndex, item⟩ := entry
  unfold registerItem at h
  unfold WriteItem.chunkFor
  dsimp only at h ⊢
  split at h
  · rename_i data htype hdata
    obtain ⟨info, hinfo, hset⟩ := bind_eq_ok h
    cases hset
    rw [htype, hdata]
    unfold knownChunks
    rw [PyDict.get?_set]
    by_cases hfqn : item.index.fqn = fqn
    · subst hfqn
      have hchunks := globalChunksFor_chunks hinfo
      unfold knownChunks at hchunks
      simp [hchunks]
    · simp [hfqn, Ne.symm hfqn]
  · rename_i htype
    cases h
    simp [htype]
  · cases h

theorem registered_chunks (h : entries.foldlM registerItem (.empty, .empty) = .ok shared)
    (fqn : String) :
    knownChunks shared.1 fqn = chunksOf entries fqn := by
  apply foldlM_invariant (fun seen (shared : PyDict String TensorStorageMetadata ×
    PyDict String StorageMetadata) => knownChunks shared.1 fqn = chunksOf seen fqn) _ rfl h
  intro seen shared entry shared' hseen hstep
  rw [registerItem_chunks hstep, hseen, chunksOf_append]

theorem walkItem_eq (ownIndex : Nat) (state : GlobalPlanState) (entry : Nat × WriteItem)
    {entries : List (Nat × WriteItem)}
    (hchunks : ∀ fqn, knownChunks state.fqnInfo fqn = chunksOf entries fqn) :
    walkItem ownIndex state entry =
      (registerItem (state.fqnInfo, state.stateDictMetadata) entry).map fun shared =>
        ⟨shared.1, shared.2, state.ownItems ++
          if entry.1 = ownIndex then [numberItem entries entry.2] else []⟩ := by
  obtain ⟨planIndex, item⟩ := entry
  unfold walkItem registerItem numberItem
  dsimp only
  split
  · rename_i data htype hdata
    cases hinfo : globalChunksFor item.index.fqn data.properties data.size state.fqnInfo with
    | error e => rfl
    | ok info =>
      have hlength : info.chunks.length = (chunksOf entries item.index.fqn).length := by
        rw [globalChunksFor_chunks hinfo, hchunks]
      by_cases hown : planIndex = ownIndex <;>
        simp [bind, Except.bind, pure, Except.pure, Except.map, hown, hlength, htype, hdata]
  · rename_i htype
    by_cases hown : planIndex = ownIndex <;> simp [Except.map, hown, htype]
  · rfl

theorem walk_eq (ownIndex : Nat) (entries : List (Nat × WriteItem)) :
    entries.foldlM (walkItem ownIndex) ⟨.empty, .empty, []⟩ =
      (entries.foldlM registerItem (.empty, .empty)).map fun shared =>
        ⟨shared.1, shared.2, ownItems ownIndex entries⟩ := by
  induction entries using reverseRecOn with
  | nil => rfl
  | append_singleton entries entry ih =>
    rw [foldlM_append, ih, foldlM_append]
    cases hshared : entries.foldlM registerItem (.empty, .empty) with
    | error e => rfl
    | ok shared =>
      simp only [Except.map, bind, Except.bind, foldlM_cons, foldlM_nil]
      rw [@walkItem_eq ownIndex _ entry (numbered entries) (by
        intro fqn
        rw [registered_chunks hshared, chunksOf_numbered])]
      cases registerItem (shared.1, shared.2) entry with
      | error e => rfl
      | ok shared' =>
        unfold ownItems
        rw [numbered_append, filter_append, map_append]
        by_cases hown : entry.1 = ownIndex <;>
          simp [Except.map, pure, Except.pure, hown]

theorem keptItems_some (items : List WriteItem) (mask : List Bool) (start : Nat)
    (h : mask.length = items.length) :
    ((items.zip mask).filter Prod.snd).map Prod.fst =
      ((items.zipIdx start).filter fun entry => mask.getD (entry.2 - start) false).map Prod.fst := by
  induction items generalizing mask start with
  | nil => simp
  | cons item items ih =>
    match mask, h with
    | keep :: mask, h =>
      have htail : ((items.zipIdx (start + 1)).filter
          fun entry => (keep :: mask).getD (entry.2 - start) false) =
          (items.zipIdx (start + 1)).filter
            fun entry => mask.getD (entry.2 - (start + 1)) false := by
        apply filter_congr
        intro entry hentry
        have hle : start + 1 ≤ entry.2 := (mem_zipIdx hentry).1
        have hsub : entry.2 - start = entry.2 - (start + 1) + 1 := by omega
        rw [hsub, getD_cons_succ]
      have hrest := ih mask (start + 1) (by simpa using h)
      rw [zip_cons_cons, zipIdx_cons, filter_cons, filter_cons, htail]
      cases keep <;> simp [hrest]

def isKept (masks : Option (List (List Bool))) (entry : Nat × Nat × WriteItem) : Bool :=
  match masks with
  | none => true
  | some masks => isOwned masks entry.1 entry.2.1

theorem keptEntries_eq {allPlans : List SavePlan} {masks : Option (List (List Bool))}
    (h : ∀ m, masks = some m → Shaped allPlans m) :
    keptEntries allPlans masks =
      ((planEntries allPlans).filter (isKept masks)).map fun entry => (entry.1, entry.2.2) := by
  unfold keptEntries planEntries
  rw [filter_flatMap, map_flatMap]
  apply flatMap_congr
  rintro ⟨plan, planIndex⟩ hplan
  have hget := mk_mem_zipIdx_iff_getElem?.mp hplan
  rw [filter_map, map_map]
  cases masks with
  | none =>
    have htrue : (isKept none ∘ fun entry : WriteItem × Nat => (planIndex, entry.2, entry.1)) =
        fun _ => true := rfl
    rw [htrue, filter_true]
    unfold keptItems
    conv_lhs => rw [← zipIdx_map_fst 0 plan.items]
    rw [map_map]
    rfl
  | some masks =>
    obtain ⟨mask, hmask, hlength⟩ := (h masks rfl).getElem? hget
    have hrow : masks.getD planIndex [] = mask := by simp [hmask]
    unfold keptItems
    dsimp only
    rw [hrow, keptItems_some plan.items mask 0 hlength, map_map]
    have hsame : (isKept (some masks) ∘
        fun entry : WriteItem × Nat => (planIndex, entry.2, entry.1)) =
        fun entry => mask.getD (entry.2 - 0) false := by
      funext entry
      simp [isKept, isOwned, hmask]
    rw [hsame]
    rfl

theorem planEntries_nodup (allPlans : List SavePlan) : (planEntries allPlans).Nodup := by
  unfold planEntries
  rw [nodup_flatMap]
  constructor
  · rintro ⟨plan, planIndex⟩ -
    apply (List.Nodup.of_map _ (nodup_zipIdx_map_snd plan.items)).map
    rintro ⟨item, position⟩ ⟨item', position'⟩ heq
    simp_all
  · apply (pairwise_map.mp (nodup_zipIdx_map_snd allPlans)).imp
    intro plan plan' hne entry hentry hentry'
    obtain ⟨_, -, rfl⟩ := mem_map.mp hentry
    obtain ⟨_, -, heq⟩ := mem_map.mp hentry'
    exact hne (Prod.mk.inj heq).1.symm

theorem countP_keptEntries {allPlans : List SavePlan} {masks : Option (List (List Bool))}
    (h : ∀ m, masks = some m → Shaped allPlans m) (p : WriteItem → Bool) :
    (keptEntries allPlans masks).countP (fun entry => p entry.2) =
      ((planEntries allPlans).filter fun entry => isKept masks entry && p entry.2.2).length := by
  rw [keptEntries_eq h, countP_map, countP_eq_length_filter, filter_filter]
  congr 2
  funext entry
  rw [Bool.and_comm]
  rfl

def sharedPlan (planner : StandardSavePlanner) (allPlans : List SavePlan) :
    Except PlanError (Option (List (List Bool)) × Metadata) := do
  let masks ← ownershipMasks planner allPlans
  let shared ← (keptEntries allPlans masks).foldlM registerItem (.empty, .empty)
  let plannerData ← globalPlannerData planner allPlans
  return (masks, { stateDictMetadata := tensorMetadata shared.1 shared.2
                   plannerData := plannerData })

def finalPlan (allPlans : List SavePlan) (masks : Option (List (List Bool))) (rank : Nat) :
    SavePlan where
  items := ownItems rank (keptEntries allPlans masks)
  plannerData := allPlans[rank]?.bind (·.plannerData)

theorem ownPlanIndex_of_lt {Plan : Type*} {allPlans : List Plan} {rank : Nat}
    (h : rank < allPlans.length) : ownPlanIndex allPlans rank = .ok rank := by
  unfold ownPlanIndex
  have hindex : (if 1 < allPlans.length then rank else 0) = rank := by
    split
    · rfl
    · omega
  simp only [hindex]
  rw [if_pos h]

theorem buildGlobalPlan_eq (planner : StandardSavePlanner) {allPlans : List SavePlan} {rank : Nat}
    (h : rank < allPlans.length) :
    buildGlobalPlan { planner with rank := rank } allPlans =
      (sharedPlan planner allPlans).map fun shared =>
        (finalPlan allPlans shared.1 rank, shared.2) := by
  unfold buildGlobalPlan sharedPlan
  have hmasks : ownershipMasks { planner with rank := rank } allPlans =
      ownershipMasks planner allPlans := rfl
  rw [ownPlanIndex_of_lt h, hmasks]
  cases ownershipMasks planner allPlans with
  | error e => rfl
  | ok masks =>
    simp only [bind, Except.bind]
    rw [walk_eq]
    cases (keptEntries allPlans masks).foldlM registerItem (.empty, .empty) with
    | error e => rfl
    | ok shared =>
      simp only [Except.map]
      have hdata : globalPlannerData { planner with rank := rank } allPlans =
          globalPlannerData planner allPlans := rfl
      rw [hdata]
      cases globalPlannerData planner allPlans with
      | error e => rfl
      | ok plannerData => rfl

/-- `metadata.state_dict_metadata[fqn].chunks`. -/
def Metadata.chunks (metadata : Metadata) (fqn : String) : List ChunkStorageMetadata :=
  match metadata.stateDictMetadata.get? fqn with
  | some (.tensor md) => md.chunks
  | _ => []

theorem registered_bytes (h : entries.foldlM registerItem (.empty, .empty) = .ok shared)
    (fqn : String) :
    ∀ md, shared.2.get? fqn = some md → md = .bytes := by
  apply foldlM_invariant (fun _ (shared : PyDict String TensorStorageMetadata ×
    PyDict String StorageMetadata) => ∀ md, shared.2.get? fqn = some md → md = .bytes) _ _ h
  · intro _ shared entry shared' hseen hstep md hmd
    unfold registerItem at hstep
    split at hstep
    · obtain ⟨info, -, hset⟩ := bind_eq_ok hstep
      cases hset
      exact hseen md hmd
    · cases hstep
      rw [PyDict.get?_set] at hmd
      split at hmd
      · exact (Option.some.inj hmd).symm
      · exact hseen md hmd
    · cases hstep
  · simp

theorem sharedPlan_chunks {planner : StandardSavePlanner} {allPlans : List SavePlan}
    {masks : Option (List (List Bool))} {metadata : Metadata}
    (h : sharedPlan planner allPlans = .ok (masks, metadata)) (fqn : String) :
    ownershipMasks planner allPlans = .ok masks ∧
      metadata.chunks fqn = chunksOf (keptEntries allPlans masks) fqn := by
  unfold sharedPlan at h
  obtain ⟨masks', hmasks, h⟩ := bind_eq_ok h
  obtain ⟨shared, hshared, h⟩ := bind_eq_ok h
  obtain ⟨plannerData, -, h⟩ := bind_eq_ok h
  cases h
  refine ⟨hmasks, ?_⟩
  have hchunks := registered_chunks hshared fqn
  unfold Metadata.chunks
  dsimp only
  rw [tensorMetadata, PyDict.get?_foldl_set _ shared.1.nodup, ← hchunks]
  unfold knownChunks PyDict.get?
  cases shared.1.entries.lookup fqn with
  | some info => rfl
  | none =>
    dsimp only
    cases hbytes : shared.2.entries.lookup fqn with
    | none => rfl
    | some md =>
      obtain rfl := registered_bytes hshared fqn md hbytes
      rfl

def allItems (plans : List SavePlan) : List WriteItem := plans.flatMap (·.items)

/-- What the final plans of all ranks and the metadata they share say of the local plans. -/
structure GlobalSave (allPlans finals : List SavePlan) (metadata : Metadata) : Prop where
  own_items : ∀ (rank : Nat) (final : SavePlan), finals[rank]? = some final →
    ∃ plan, allPlans[rank]? = some plan ∧ ∀ item ∈ final.items, ∃ original ∈ plan.items,
      item.type = original.type ∧ item.tensorData = original.tensorData ∧
        item.index.key = original.index.key
  one_rank : ∀ item ∈ allItems allPlans, ∃! rank : Nat, ∃ final : SavePlan,
    finals[rank]? = some final ∧ ∃ kept ∈ final.items, kept.index.key = item.index.key
  kept_once : (1 < allPlans.length ∨ ∀ plan ∈ allPlans, (plan.items.map (·.index.key)).Nodup) →
    ∀ item ∈ allItems allPlans,
      (allItems finals).countP (fun kept => decide (kept.index.key = item.index.key)) = 1
  nonempty : ∀ item ∈ allItems allPlans, item.tensorStorageSize ≠ some 0 →
    ∃ kept ∈ allItems finals, kept.index.key = item.index.key ∧ kept.tensorStorageSize ≠ some 0
  position : ∀ kept ∈ allItems finals, ∀ chunk, kept.chunkFor kept.index.fqn = some chunk →
    ∃ j, kept.index.index = some j ∧ (metadata.chunks kept.index.fqn)[j]? = some chunk
  hit_once : ∀ fqn, ∀ j < (metadata.chunks fqn).length,
    (allItems finals).countP (fun kept => kept.hits fqn j) = 1

section GlobalSave

variable {allPlans : List SavePlan} {masks : Option (List (List Bool))}

def finalPlans (allPlans : List SavePlan) (masks : Option (List (List Bool))) : List SavePlan :=
  (List.range allPlans.length).map (finalPlan allPlans masks)

theorem getElem?_finalPlans (rank : Nat) : (finalPlans allPlans masks)[rank]? =
    if rank < allPlans.length then some (finalPlan allPlans masks rank) else none := by
  unfold finalPlans
  rw [getElem?_map]
  split
  · rename_i h
    rw [getElem?_range h]
    rfl
  · rename_i h
    rw [getElem?_eq_none (by simpa using h)]
    rfl

section

variable (hshaped : ∀ m, masks = some m → Shaped allPlans m)

include hshaped

theorem fst_lt_of_mem_keptEntries {entry : Nat × WriteItem}
    (h : entry ∈ keptEntries allPlans masks) : entry.1 < allPlans.length := by
  rw [keptEntries_eq hshaped] at h
  obtain ⟨⟨planIdx, position, item⟩, hmem, rfl⟩ := mem_map.mp h
  obtain ⟨plan, hplan, -⟩ := mem_planEntries.mp (mem_filter.mp hmem).1
  exact (List.getElem?_eq_some_iff.mp hplan).1

theorem allItems_finalPlans_perm :
    (allItems (finalPlans allPlans masks)).Perm
      ((numbered (keptEntries allPlans masks)).map Prod.snd) := by
  have hlt : ∀ entry ∈ numbered (keptEntries allPlans masks), entry.1 < allPlans.length := by
    intro entry hentry
    obtain ⟨original, hmem, hrank, -⟩ := mem_numbered hentry
    rw [hrank]
    exact fst_lt_of_mem_keptEntries hshaped hmem
  have hperm := (ListOrder.flatMap_filter_perm Prod.fst allPlans.length hlt).map Prod.snd
  have hitems : allItems (finalPlans allPlans masks) =
      ((range allPlans.length).flatMap fun rank =>
        (numbered (keptEntries allPlans masks)).filter
          fun entry => decide (entry.1 = rank)).map Prod.snd := by
    rw [allItems, finalPlans, flatMap_map, map_flatMap]
    rfl
  rw [hitems]
  exact hperm

theorem countP_finalPlans {p : WriteItem → Bool}
    (hp : ∀ entries item, p (numberItem entries item) = p item) :
    (allItems (finalPlans allPlans masks)).countP p =
      ((planEntries allPlans).filter fun entry => isKept masks entry && p entry.2.2).length := by
  rw [(allItems_finalPlans_perm hshaped).countP_eq, ← countP_keptEntries hshaped, countP_map]
  generalize keptEntries allPlans masks = entries
  induction entries using reverseRecOn with
  | nil => rfl
  | append_singleton entries entry ih =>
    rw [numbered_append, countP_append, countP_append, ih]
    simp [countP_cons, hp]

theorem mem_allItems_finalPlans {kept : WriteItem} :
    kept ∈ allItems (finalPlans allPlans masks) ↔
      ∃ rank, (rank, kept) ∈ numbered (keptEntries allPlans masks) := by
  rw [(allItems_finalPlans_perm hshaped).mem_iff, mem_map]
  constructor
  · rintro ⟨⟨rank, item⟩, hmem, rfl⟩
    exact ⟨rank, hmem⟩
  · rintro ⟨rank, hmem⟩
    exact ⟨_, hmem, rfl⟩

end

theorem mem_finalPlan {rank : Nat} {kept : WriteItem} :
    kept ∈ (finalPlan allPlans masks rank).items ↔
      (rank, kept) ∈ numbered (keptEntries allPlans masks) := by
  simp only [finalPlan, ownItems, mem_map, mem_filter, decide_eq_true_eq, Prod.exists,
    exists_eq_right]

theorem mem_allItems {item : WriteItem} : item ∈ allItems allPlans ↔
    ∃ planIdx position, (planIdx, position, item) ∈ planEntries allPlans := by
  simp only [allItems, mem_flatMap, mem_planEntries]
  constructor
  · rintro ⟨plan, hplan, hitem⟩
    obtain ⟨planIdx, hidx⟩ := mem_iff_getElem?.mp hplan
    obtain ⟨position, hposition⟩ := mem_iff_getElem?.mp hitem
    exact ⟨planIdx, position, plan, hidx, hposition⟩
  · rintro ⟨planIdx, position, plan, hidx, hposition⟩
    exact ⟨plan, mem_of_getElem? hidx, mem_of_getElem? hposition⟩

theorem exists_final_of_isKept (hshaped : ∀ m, masks = some m → Shaped allPlans m)
    {entry : Nat × Nat × WriteItem} (hmem : entry ∈ planEntries allPlans)
    (hkept : isKept masks entry = true) :
    ∃ kept, (entry.1, kept) ∈ numbered (keptEntries allPlans masks) ∧
      kept.index.key = entry.2.2.index.key ∧
      kept.tensorStorageSize = entry.2.2.tensorStorageSize := by
  have hentry : (entry.1, entry.2.2) ∈ keptEntries allPlans masks := by
    rw [keptEntries_eq hshaped]
    exact mem_map.mpr ⟨entry, mem_filter.mpr ⟨hmem, hkept⟩, rfl⟩
  obtain ⟨front, back, hsplit⟩ := append_of_mem hentry
  refine ⟨numberItem (numbered front) entry.2.2, ?_, by simp, by simp⟩
  rw [hsplit, append_cons]
  generalize hentries : front ++ [(entry.1, entry.2.2)] = seen
  have hseen : (entry.1, numberItem (numbered front) entry.2.2) ∈ numbered seen := by
    rw [← hentries, numbered_append]
    simp
  clear hsplit
  induction back using reverseRecOn with
  | nil => simpa using hseen
  | append_singleton back last ih =>
    rw [← append_assoc, numbered_append]
    exact mem_append_left _ ih

theorem exists_entry_of_final (hshaped : ∀ m, masks = some m → Shaped allPlans m) {rank : Nat}
    {kept : WriteItem} (h : (rank, kept) ∈ numbered (keptEntries allPlans masks)) :
    ∃ position item, (rank, position, item) ∈ planEntries allPlans ∧
      isKept masks (rank, position, item) = true ∧ kept.type = item.type ∧
      kept.tensorData = item.tensorData ∧ kept.index.key = item.index.key := by
  obtain ⟨⟨rank', item⟩, hmem, hrank, hrest⟩ := mem_numbered h
  obtain rfl : rank = rank' := hrank
  rw [keptEntries_eq hshaped] at hmem
  obtain ⟨⟨planIdx, position, item'⟩, hfilter, heq⟩ := mem_map.mp hmem
  obtain ⟨rfl, rfl⟩ := Prod.mk.inj heq
  obtain ⟨hentry, hkept⟩ := mem_filter.mp hfilter
  exact ⟨position, _, hentry, hkept, hrest⟩

structure KeepsOne (allPlans : List SavePlan) (masks : Option (List (List Bool))) : Prop where
  shaped : ∀ m, masks = some m → Shaped allPlans m
  exists_kept : ∀ e ∈ planEntries allPlans, ∃ e' ∈ planEntries allPlans,
    isKept masks e' = true ∧ e'.2.2.index.key = e.2.2.index.key ∧
      (e.2.2.tensorStorageSize ≠ some 0 →
        e'.2.2.tensorStorageSize ≠ some 0 ∧ e'.2.2.tensorData = e.2.2.tensorData)
  same_rank : ∀ e ∈ planEntries allPlans, ∀ e' ∈ planEntries allPlans,
    isKept masks e = true → isKept masks e' = true → e.2.2.index.key = e'.2.2.index.key → e.1 = e'.1
  unique : (1 < allPlans.length ∨ ∀ plan ∈ allPlans, (plan.items.map (·.index.key)).Nodup) →
    ∀ e ∈ planEntries allPlans, ∀ e' ∈ planEntries allPlans,
      isKept masks e = true → isKept masks e' = true → e.2.2.index.key = e'.2.2.index.key → e = e'

theorem KeepsOne.of_masks {m : List (List Bool)} (h : Owns allPlans m) :
    KeepsOne allPlans (some m) where
  shaped := by
    intro m' heq
    cases heq
    exact h.shaped
  exists_kept := by
    intro e he
    obtain ⟨e', he', howned, hkey⟩ := h.exists_owned e he
    refine ⟨e', he', howned, hkey, fun hsize => ?_⟩
    have hsize' : e'.2.2.tensorStorageSize ≠ some 0 := fun hempty =>
      hsize (h.nonempty e' he' howned hempty e he hkey.symm)
    exact ⟨hsize', (h.same_data e' he' howned hsize' e he hkey.symm hsize).symm⟩
  same_rank := by
    intro e he e' he' howned howned' hkey
    rw [h.unique e he e' he' howned howned' hkey]
  unique := fun _ => h.unique

theorem KeepsOne.of_single (h : ¬ 1 < allPlans.length) : KeepsOne allPlans none where
  shaped := by simp
  exists_kept := fun e he => ⟨e, he, rfl, rfl, fun hsize => ⟨hsize, rfl⟩⟩
  same_rank := by
    rintro ⟨i, _, _⟩ he ⟨j, _, _⟩ he' - - -
    obtain ⟨plan, hplan, -⟩ := mem_planEntries.mp he
    obtain ⟨plan', hplan', -⟩ := mem_planEntries.mp he'
    have hi := (List.getElem?_eq_some_iff.mp hplan).1
    have hj := (List.getElem?_eq_some_iff.mp hplan').1
    dsimp only
    omega
  unique := by
    rintro (hmany | hnodup)
    · exact absurd hmany h
    rintro ⟨i, position, item⟩ he ⟨j, position', item'⟩ he' - - hkey
    obtain ⟨plan, hplan, hitem⟩ := mem_planEntries.mp he
    obtain ⟨plan', hplan', hitem'⟩ := mem_planEntries.mp he'
    obtain ⟨hi, rfl⟩ := List.getElem?_eq_some_iff.mp hplan
    obtain ⟨hj, rfl⟩ := List.getElem?_eq_some_iff.mp hplan'
    obtain rfl : i = j := by omega
    obtain ⟨hposition, rfl⟩ := List.getElem?_eq_some_iff.mp hitem
    obtain ⟨hposition', rfl⟩ := List.getElem?_eq_some_iff.mp hitem'
    have hsame := @List.Nodup.getElem_inj_iff _ _ (hnodup allPlans[i] (getElem_mem hi))
      _ (by simpa using hposition) _ (by simpa using hposition')
    simp only [getElem_map] at hsame
    obtain rfl := hsame.mp hkey
    rfl

variable {planner : StandardSavePlanner}

section

variable (hredundancy : planner.removeRedundancy = true)

include hredundancy

theorem ownershipMasks_keepsOne (h : ownershipMasks planner allPlans = .ok masks) :
    KeepsOne allPlans masks := by
  unfold ownershipMasks at h
  rw [hredundancy, Bool.true_and] at h
  by_cases hmany : 1 < allPlans.length
  · rw [if_pos (by simpa using hmany)] at h
    cases hplan : planOwnershipMasks allPlans planner.saveToMinimumRank with
    | error e =>
      rw [hplan] at h
      cases h
    | ok m =>
      rw [hplan] at h
      cases h
      exact .of_masks (planOwnershipMasks_owns hplan)
  · rw [if_neg (by simpa using hmany)] at h
    cases h
    exact .of_single hmany

variable {metadata : Metadata}

theorem globalSave_of_sharedPlan
    (h : sharedPlan planner allPlans = .ok (masks, metadata)) :
    GlobalSave allPlans (finalPlans allPlans masks) metadata := by
  have hkeeps := ownershipMasks_keepsOne hredundancy (sharedPlan_chunks h "").1
  have hshaped := hkeeps.shaped
  have hchunks := fun fqn => (sharedPlan_chunks h fqn).2
  constructor
  · intro rank final hfinal
    rw [getElem?_finalPlans] at hfinal
    split at hfinal
    · rename_i hrank
      cases hfinal
      refine ⟨allPlans[rank], getElem?_eq_getElem hrank, ?_⟩
      intro item hitem
      obtain ⟨position, original, hentry, -, hsame⟩ :=
        exists_entry_of_final hshaped (mem_finalPlan.mp hitem)
      obtain ⟨plan, hplan, horiginal⟩ := mem_planEntries.mp hentry
      obtain rfl : allPlans[rank] = plan := by simpa [getElem?_eq_getElem hrank] using hplan
      exact ⟨original, mem_of_getElem? horiginal, hsame⟩
    · cases hfinal
  · intro item hitem
    obtain ⟨planIdx, position, hentry⟩ := mem_allItems.mp hitem
    obtain ⟨owner, howner, hkept, hkey, -⟩ := hkeeps.exists_kept _ hentry
    obtain ⟨kept, hmem, hsame, -⟩ := exists_final_of_isKept hshaped howner hkept
    have hrank : owner.1 < allPlans.length := by
      obtain ⟨plan, hplan, -⟩ := mem_planEntries.mp howner
      exact (List.getElem?_eq_some_iff.mp hplan).1
    refine ⟨owner.1, ⟨finalPlan allPlans masks owner.1, ?_, kept, mem_finalPlan.mpr hmem,
      hsame.trans hkey⟩, ?_⟩
    · rw [getElem?_finalPlans, if_pos hrank]
    · rintro rank ⟨final, hfinal, kept', hmem', hkey'⟩
      rw [getElem?_finalPlans] at hfinal
      split at hfinal
      · cases hfinal
        obtain ⟨position', item', hentry', hkept', -, -, hsame'⟩ :=
          exists_entry_of_final hshaped (mem_finalPlan.mp hmem')
        exact hkeeps.same_rank _ hentry' _ howner hkept' hkept
          (hsame'.symm.trans (hkey'.trans hkey.symm))
      · cases hfinal
  · intro hmany item hitem
    obtain ⟨planIdx, position, hentry⟩ := mem_allItems.mp hitem
    obtain ⟨owner, howner, hkept, hkey, -⟩ := hkeeps.exists_kept _ hentry
    rw [countP_finalPlans hshaped (by simp)]
    apply ListOrder.length_filter_eq_one (planEntries_nodup allPlans)
    · exact ⟨owner, howner, by simpa [hkept] using hkey⟩
    · intro e he e' he' hp hp'
      simp only [Bool.and_eq_true, decide_eq_true_eq] at hp hp'
      exact hkeeps.unique hmany e he e' he' hp.1 hp'.1 (hp.2.trans hp'.2.symm)
  · intro item hitem hsize
    obtain ⟨planIdx, position, hentry⟩ := mem_allItems.mp hitem
    obtain ⟨owner, howner, hkept, hkey, hnonempty⟩ := hkeeps.exists_kept _ hentry
    obtain ⟨kept, hmem, hsame, hstorage⟩ := exists_final_of_isKept hshaped howner hkept
    refine ⟨kept, (mem_allItems_finalPlans hshaped).mpr ⟨_, hmem⟩, hsame.trans hkey, ?_⟩
    rw [hstorage]
    exact (hnonempty hsize).1
  · intro kept hkept chunk hchunk
    obtain ⟨rank, hmem⟩ := (mem_allItems_finalPlans hshaped).mp hkept
    rw [hchunks]
    exact numbered_position hmem hchunk
  · intro fqn j hj
    rw [hchunks] at hj
    rw [(allItems_finalPlans_perm hshaped).countP_eq, countP_map]
    have hhits := numbered_hits (keptEntries allPlans masks) fqn j
    rw [if_pos hj] at hhits
    exact hhits

theorem chunk_mem_of_item
    (h : sharedPlan planner allPlans = .ok (masks, metadata))
    (hbytes : ∀ item ∈ allItems allPlans, item.type = .byteIo → item.tensorData = none)
    {item : WriteItem} (hitem : item ∈ allItems allPlans) (hsize : item.tensorStorageSize ≠ some 0)
    {fqn : String} {chunk : ChunkStorageMetadata} (hchunk : item.chunkFor fqn = some chunk) :
    chunk ∈ metadata.chunks fqn := by
  obtain ⟨hmasks, hchunks⟩ := sharedPlan_chunks h fqn
  have hkeeps := ownershipMasks_keepsOne hredundancy hmasks
  obtain ⟨planIdx, position, hentry⟩ := mem_allItems.mp hitem
  obtain ⟨owner, howner, hkept, hkey, hdata⟩ := hkeeps.exists_kept _ hentry
  have hsame := (hdata hsize).2
  have hownerItem : owner.2.2 ∈ allItems allPlans := mem_allItems.mpr ⟨_, _, howner⟩
  have hfqn : owner.2.2.index.fqn = item.index.fqn := congrArg Prod.fst hkey
  rw [hchunks, chunksOf, mem_filterMap]
  refine ⟨(owner.1, owner.2.2), ?_, ?_⟩
  · rw [keptEntries_eq hkeeps.shaped]
    exact mem_map.mpr ⟨owner, mem_filter.mpr ⟨howner, hkept⟩, rfl⟩
  · unfold WriteItem.chunkFor at hchunk ⊢
    dsimp only at hsame ⊢
    rw [hfqn, hsame]
    cases htype : owner.2.2.type with
    | tensor =>
      split at hchunk
      · rename_i data _ hitemData
        rw [hitemData]
        exact hchunk
      · cases hchunk
    | byteIo =>
      rw [hbytes _ hownerItem htype] at hsame
      rw [← hsame] at hchunk
      split at hchunk
      · rename_i hnone
        cases hnone
      · cases hchunk

theorem exists_kept_of_chunk
    (h : sharedPlan planner allPlans = .ok (masks, metadata)) {fqn : String}
    {chunk : ChunkStorageMetadata} (hchunk : chunk ∈ metadata.chunks fqn) :
    ∃ rank plan, allPlans[rank]? = some plan ∧
      ∃ kept ∈ (finalPlan allPlans masks rank).items, kept.chunkFor fqn = some chunk ∧
        ∃ original ∈ plan.items, kept.type = original.type ∧
          kept.tensorData = original.tensorData ∧ kept.index.key = original.index.key := by
  obtain ⟨hmasks, hchunks⟩ := sharedPlan_chunks h fqn
  have hkeeps := ownershipMasks_keepsOne hredundancy hmasks
  rw [hchunks, ← chunksOf_numbered, chunksOf, mem_filterMap] at hchunk
  obtain ⟨⟨rank, kept⟩, hmem, hkept⟩ := hchunk
  obtain ⟨position, original, hentry, -, hsame⟩ := exists_entry_of_final hkeeps.shaped hmem
  obtain ⟨plan, hplan, horiginal⟩ := mem_planEntries.mp hentry
  exact ⟨rank, plan, hplan, kept, mem_finalPlan.mpr hmem, hkept, original,
    mem_of_getElem? horiginal, hsame⟩

end

end GlobalSave

/--
On every rank of the same gathered plans the global plan raises alike, or all ranks share the
metadata and their final plans divide the items between them.
-/
theorem buildGlobalPlan_consistent (planner : StandardSavePlanner) (allPlans : List SavePlan) :
    (∃ error, ∀ rank < allPlans.length,
      buildGlobalPlan { planner with rank := rank, removeRedundancy := true } allPlans =
        .error error) ∨
    ∃ finals metadata, finals.length = allPlans.length ∧
      (∀ rank final, finals[rank]? = some final →
        buildGlobalPlan { planner with rank := rank, removeRedundancy := true } allPlans =
          .ok (final, metadata)) ∧
      GlobalSave allPlans finals metadata := by
  have hrun := fun rank (hrank : rank < allPlans.length) =>
    buildGlobalPlan_eq { planner with removeRedundancy := true } hrank
  cases hshared : sharedPlan { planner with removeRedundancy := true } allPlans with
  | error error =>
    refine .inl ⟨error, fun rank hrank => ?_⟩
    rw [hrun rank hrank, hshared]
    rfl
  | ok shared =>
    obtain ⟨masks, metadata⟩ := shared
    refine .inr ⟨finalPlans allPlans masks, metadata, by simp [finalPlans], ?_,
      globalSave_of_sharedPlan rfl hshared⟩
    intro rank final hfinal
    rw [getElem?_finalPlans] at hfinal
    split at hfinal
    · rename_i hrank
      cases hfinal
      rw [hrun rank hrank, hshared]
      rfl
    · cases hfinal

end HyperParallel.Checkpoint
