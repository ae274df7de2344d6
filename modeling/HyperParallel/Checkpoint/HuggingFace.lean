import HyperParallel.Foundation.DecimalText
import HyperParallel.Foundation.PyDict
import HyperParallel.Foundation.PySequence

/-!
# Export in the Hugging Face layout

A state dict is cut into shards by size.  One shard is written as one file of a
fixed name; several are written as numbered files, with an index that says
where every tensor is.  The reader takes the single file when there is one.
-/

namespace HyperParallel.Checkpoint.HuggingFace

open Foundation List

variable {τ : Type*}

/-! ## Shards -/

/-- `shard_list`, `current_shard` and its size. -/
structure ShardWalk (τ : Type*) where
  shardList : List (List (String × τ))
  currentShard : List (String × τ)
  currentShardSize : Nat

section Shards

variable (getStorageSize : τ → Nat)

def shardStep (maxCap : Int) (walk : ShardWalk τ) (entry : String × τ) : ShardWalk τ :=
  let tensorSize := getStorageSize entry.2
  if maxCap < tensorSize then { walk with shardList := walk.shardList ++ [[entry]] }
  else if maxCap < (walk.currentShardSize + tensorSize : Nat) then
    ⟨walk.shardList ++ [walk.currentShard], [entry], tensorSize⟩
  else { walk with
    currentShard := walk.currentShard ++ [entry]
    currentShardSize := walk.currentShardSize + tensorSize }

def ShardWalk.close (walk : ShardWalk τ) : List (List (String × τ)) :=
  if 0 < walk.currentShard.length then walk.shardList ++ [walk.currentShard] else walk.shardList

def buildShardListForSafetensors (stateDict : List (String × τ)) (maxCap : Int) :
    List (List (String × τ)) :=
  (stateDict.foldl (shardStep getStorageSize maxCap) ⟨[], [], 0⟩).close

/-! ## Names -/

def SAFE_WEIGHTS_NAME : String := "model.safetensors"

def SAFE_WEIGHTS_INDEX_NAME : String := "model.safetensors.index.json"

/-- `model-{idx + 1:05d}-of-{nb_shards:05d}.safetensors`. -/
def shardName (nbShards idx : Nat) : String :=
  String.ofList ("model-".toList ++ DecimalText.zeroPadded 5 (idx + 1) ++ "-of-".toList ++
    DecimalText.zeroPadded 5 nbShards ++ ".safetensors".toList)

structure StateDictSplit where
  filenameToTensors : PyDict String (List String)
  tensorToFilename : PyDict String String

def StateDictSplit.isSharded (split : StateDictSplit) : Bool :=
  1 < split.filenameToTensors.entries.length

/-- The dictionary with these entries; of equal keys the last one counts. -/
def ofEntries {ν : Type*} (entries : List (String × ν)) : PyDict String ν :=
  entries.foldl (fun d entry => d.set entry.1 entry.2) .empty

def splitStateDictIntoShards (stateDict : PyDict String τ) (maxCap : Int) : StateDictSplit :=
  let shardList := buildShardListForSafetensors getStorageSize stateDict.entries maxCap
  let nbShards := shardList.length
  if nbShards = 1 then
    ⟨ofEntries [(SAFE_WEIGHTS_NAME, stateDict.keys)],
      ofEntries (stateDict.keys.map fun key => (key, SAFE_WEIGHTS_NAME))⟩
  else
    let named := shardList.zipIdx.map fun shard =>
      (shardName nbShards shard.2, shard.1.map Prod.fst)
    ⟨ofEntries named, ofEntries (named.flatMap fun shard => shard.2.map fun key => (key, shard.1))⟩

end Shards

/-! ## The directory -/

inductive HfFile (τ : Type*) where
  | weights (tensors : PyDict String τ)
  | index (weightMap : PyDict String String)

abbrev Directory (τ : Type*) := PyDict String (HfFile τ)

/-- `{tensor: state_dict[tensor] for tensor in tensors}`, for keys of the state dict. -/
def shardContent (stateDict : PyDict String τ) (tensors : List String) : PyDict String τ :=
  ofEntries (tensors.filterMap fun tensor =>
    (stateDict.get? tensor).map fun value => (tensor, value))

def saveStateDictAsHuggingfaceFormat (getStorageSize : τ → Nat) (directory : Directory τ)
    (stateDict : PyDict String τ) (maxCap : Int) : Directory τ :=
  let split := splitStateDictIntoShards getStorageSize stateDict maxCap
  let written := split.filenameToTensors.entries.foldl (fun directory entry =>
    directory.set entry.1 (.weights (shardContent stateDict entry.2))) directory
  if split.isSharded then written.set SAFE_WEIGHTS_INDEX_NAME (.index split.tensorToFilename)
  else written

inductive HfError where
  | missingIndex
  | missingFile (name : String)
  | unreadable (name : String)
deriving DecidableEq, Repr

def loadCheckpointFile (directory : Directory τ) (name : String) :
    Except HfError (PyDict String τ) :=
  match directory.get? name with
  | some (.weights tensors) => .ok tensors
  | some (.index _) => .error (.unreadable name)
  | none => .error (.missingFile name)

/-- Of equal keys the first one counts. -/
def mergeShard (stateDict shard : PyDict String τ) : PyDict String τ :=
  shard.entries.foldl (fun stateDict entry =>
    if stateDict.contains entry.1 then stateDict else stateDict.set entry.1 entry.2) stateDict

/-- `setOrder` is the order in which a set of names is gone through. -/
def parseCheckpointFromHuggingface (setOrder : List String → List String)
    (directory : Directory τ) : Except HfError (PyDict String τ) :=
  if directory.contains SAFE_WEIGHTS_NAME then loadCheckpointFile directory SAFE_WEIGHTS_NAME
  else
    match directory.get? SAFE_WEIGHTS_INDEX_NAME with
    | none => .error .missingIndex
    | some (.weights _) => .error (.unreadable SAFE_WEIGHTS_INDEX_NAME)
    | some (.index weightMap) =>
      (setOrder weightMap.values).foldlM (fun stateDict name =>
        (loadCheckpointFile directory name).map (mergeShard stateDict)) .empty

/-! ## How the shards cut the state dict -/

section Cut

variable (getStorageSize : τ → Nat)

def totalSize (entries : List (String × τ)) : Nat :=
  (entries.map fun entry => getStorageSize entry.2).sum

def LargeFirst (maxCap : Int) (entries : List (String × τ)) : Prop :=
  entries.Pairwise fun earlier later =>
    maxCap < getStorageSize later.2 → maxCap < getStorageSize earlier.2

structure ShardWalk.Cuts (maxCap : Int) (seen : List (String × τ)) (walk : ShardWalk τ) :
    Prop where
  perm : (walk.shardList.flatten ++ walk.currentShard).Perm seen
  shard_ne : ∀ shard ∈ walk.shardList, shard ≠ []
  capped : ∀ shard ∈ walk.shardList, 2 ≤ shard.length →
    (totalSize getStorageSize shard : Int) ≤ maxCap
  size_eq : walk.currentShardSize = totalSize getStorageSize walk.currentShard
  current_le : walk.currentShard ≠ [] → (walk.currentShardSize : Int) ≤ maxCap

variable {getStorageSize} {maxCap : Int}

theorem ShardWalk.Cuts.step {seen : List (String × τ)} {walk : ShardWalk τ}
    (h : walk.Cuts getStorageSize maxCap seen) (entry : String × τ) :
    (shardStep getStorageSize maxCap walk entry).Cuts getStorageSize maxCap (seen ++ [entry]) := by
  unfold shardStep
  dsimp only
  split
  · refine ⟨?_, ?_, ?_, h.size_eq, h.current_le⟩
    · rw [flatten_append, flatten_singleton, append_assoc]
      exact (perm_append_comm.append_left _).trans
        ((append_assoc _ _ _ ▸ h.perm.append_right [entry]))
    · intro shard hshard
      rcases mem_append.mp hshard with hold | hnew
      · exact h.shard_ne shard hold
      · obtain rfl := mem_singleton.mp hnew
        simp
    · intro shard hshard hlen
      rcases mem_append.mp hshard with hold | hnew
      · exact h.capped shard hold hlen
      · obtain rfl := mem_singleton.mp hnew
        simp at hlen
  · rename_i hsmall
    split
    · rename_i hover
      have hne : walk.currentShard ≠ [] := by
        intro hnil
        rw [h.size_eq, hnil] at hover
        simp only [totalSize, map_nil, sum_nil, Nat.zero_add] at hover
        exact hsmall hover
      refine ⟨?_, ?_, ?_, by simp [totalSize], fun _ => not_lt.mp hsmall⟩
      · rw [flatten_append, flatten_singleton]
        exact h.perm.append_right [entry]
      · intro shard hshard
        rcases mem_append.mp hshard with hold | hnew
        · exact h.shard_ne shard hold
        · obtain rfl := mem_singleton.mp hnew
          exact hne
      · intro shard hshard hlen
        rcases mem_append.mp hshard with hold | hnew
        · exact h.capped shard hold hlen
        · obtain rfl := mem_singleton.mp hnew
          rw [← h.size_eq]
          exact h.current_le hne
    · rename_i hfits
      refine ⟨?_, h.shard_ne, h.capped, ?_, fun _ => not_lt.mp hfits⟩
      · rw [← append_assoc]
        exact h.perm.append_right [entry]
      · simp [totalSize, h.size_eq]

theorem foldl_shardStep_cuts (entries : List (String × τ)) :
    (entries.foldl (shardStep getStorageSize maxCap) ⟨[], [], 0⟩).Cuts getStorageSize maxCap
      entries := by
  induction entries using reverseRecOn with
  | nil => exact ⟨.nil, by simp, by simp, by simp [totalSize], by simp⟩
  | append_singleton entries entry ih =>
    rw [foldl_append, foldl_cons, foldl_nil]
    exact ih.step entry

/-- The shards are the entries in some order; none is empty, and only one tensor alone is large. -/
theorem buildShardList_cuts (entries : List (String × τ)) :
    let shards := buildShardListForSafetensors getStorageSize entries maxCap
    shards.flatten.Perm entries ∧ (∀ shard ∈ shards, shard ≠ []) ∧
      ∀ shard ∈ shards, 2 ≤ shard.length → (totalSize getStorageSize shard : Int) ≤ maxCap := by
  have h := @foldl_shardStep_cuts _ getStorageSize maxCap entries
  intro shards
  unfold shards buildShardListForSafetensors ShardWalk.close
  split
  · rename_i hcurrent
    have hne := length_pos_iff.mp hcurrent
    refine ⟨?_, ?_, ?_⟩
    · rw [flatten_append, flatten_singleton]
      exact h.perm
    · intro shard hshard
      rcases mem_append.mp hshard with hold | hnew
      · exact h.shard_ne shard hold
      · obtain rfl := mem_singleton.mp hnew
        exact hne
    · intro shard hshard hlen
      rcases mem_append.mp hshard with hold | hnew
      · exact h.capped shard hold hlen
      · obtain rfl := mem_singleton.mp hnew
        rw [← h.size_eq]
        exact h.current_le hne
  · rename_i hcurrent
    have hnil : (entries.foldl (shardStep getStorageSize maxCap) ⟨[], [], 0⟩).currentShard = [] := by
      rw [← length_eq_zero_iff]
      omega
    refine ⟨?_, h.shard_ne, h.capped⟩
    have hperm := h.perm
    rwa [hnil, append_nil] at hperm

theorem close_extends (entries : List (String × τ)) (walk : ShardWalk τ) :
    ∃ more, (entries.foldl (shardStep getStorageSize maxCap) walk).close =
      walk.shardList ++ more := by
  induction entries generalizing walk with
  | nil =>
    rw [foldl_nil, ShardWalk.close]
    split
    · exact ⟨_, rfl⟩
    · exact ⟨[], by simp⟩
  | cons entry entries ih =>
    obtain ⟨more, hmore⟩ := ih (shardStep getStorageSize maxCap walk entry)
    rw [foldl_cons, hmore]
    unfold shardStep
    dsimp only
    split
    · exact ⟨[entry] :: more, by simp⟩
    · split
      · exact ⟨walk.currentShard :: more, by simp⟩
      · exact ⟨more, rfl⟩

/--
From any point on, the rest of the shards follows the order of the entries when no large tensor
overtakes the open shard.
-/
theorem flatten_close_iff {entries : List (String × τ)} {walk : ShardWalk τ}
    (hnodup : ((walk.currentShard ++ entries).map Prod.fst).Nodup) :
    (entries.foldl (shardStep getStorageSize maxCap) walk).close.flatten =
        walk.shardList.flatten ++ walk.currentShard ++ entries ↔
      if walk.currentShard = [] then LargeFirst getStorageSize maxCap entries
      else ∀ entry ∈ entries, ¬maxCap < getStorageSize entry.2 := by
  induction entries generalizing walk with
  | nil =>
    rw [foldl_nil, ShardWalk.close]
    by_cases hcurrent : walk.currentShard = []
    · simp [hcurrent, LargeFirst]
    · simp [hcurrent, length_pos_iff]
  | cons entry entries ih =>
    rw [foldl_cons]
    by_cases hlarge : maxCap < getStorageSize entry.2
    · have hstep : shardStep getStorageSize maxCap walk entry =
          { walk with shardList := walk.shardList ++ [[entry]] } := by
        unfold shardStep
        exact if_pos hlarge
      by_cases hcurrent : walk.currentShard = []
      · have hrest := @ih { walk with shardList := walk.shardList ++ [[entry]] } (by
          rw [hcurrent] at hnodup ⊢
          exact (nodup_cons.mp hnodup).2)
        rw [hstep]
        simp only [hcurrent, if_true, append_nil, flatten_append,
          flatten_singleton, append_assoc, singleton_append] at hrest ⊢
        rw [hrest, LargeFirst, LargeFirst, pairwise_cons]
        exact ⟨fun h => ⟨fun _ _ _ => hlarge, h⟩, fun h => h.2⟩
      · -- the open shard comes first among the entries and last among the shards
        rw [if_neg hcurrent, hstep]
        constructor
        · intro heq
          obtain ⟨more, hmore⟩ := @close_extends _ getStorageSize maxCap entries
            { walk with shardList := walk.shardList ++ [[entry]] }
          obtain ⟨first, others, hfirst⟩ := exists_cons_of_ne_nil hcurrent
          rw [hmore] at heq
          simp only [flatten_append, flatten_cons, append_assoc, append_cancel_left_eq, hfirst,
            cons_append, nil_append, cons.injEq] at heq
          rw [hfirst, ← heq.1] at hnodup
          simp at hnodup
        · intro hnone
          exact absurd hlarge (hnone entry mem_cons_self)
    · have hnext : ∃ next, shardStep getStorageSize maxCap walk entry = next ∧
          next.shardList.flatten ++ next.currentShard =
            walk.shardList.flatten ++ walk.currentShard ++ [entry] ∧
              next.currentShard ≠ [] ∧ ((next.currentShard ++ entries).map Prod.fst).Nodup := by
        refine ⟨_, rfl, ?_⟩
        unfold shardStep
        dsimp only
        rw [if_neg hlarge]
        split
        · refine ⟨by simp, by simp, ?_⟩
          rw [map_append] at hnodup
          exact (nodup_append.mp hnodup).2.1
        · refine ⟨by simp, by simp, ?_⟩
          simpa using hnodup
      obtain ⟨next, hstep, hflat, hne, hdistinct⟩ := hnext
      rw [hstep, show walk.shardList.flatten ++ walk.currentShard ++ entry :: entries =
        next.shardList.flatten ++ next.currentShard ++ entries by rw [hflat]; simp,
        ih hdistinct, if_neg hne]
      by_cases hcurrent : walk.currentShard = []
      · rw [if_pos hcurrent, LargeFirst, pairwise_cons]
        constructor
        · intro hsmall
          refine ⟨fun later hlater hlate => absurd hlate (hsmall later hlater), ?_⟩
          exact pairwise_of_forall_mem_list fun earlier _ later hlater hlate =>
            absurd hlate (hsmall later hlater)
        · rintro ⟨hfirst, -⟩ later hlater hlate
          exact hlarge (hfirst later hlater hlate)
      · rw [if_neg hcurrent, forall_mem_cons]
        exact ⟨fun hsmall => ⟨hlarge, hsmall⟩, fun hsmall => hsmall.2⟩

theorem flatten_buildShardList_iff {entries : List (String × τ)}
    (hnodup : (entries.map Prod.fst).Nodup) :
    (buildShardListForSafetensors getStorageSize entries maxCap).flatten = entries ↔
      LargeFirst getStorageSize maxCap entries := by
  have h := @flatten_close_iff _ getStorageSize maxCap entries ⟨[], [], 0⟩ (by simpa using hnodup)
  simpa [buildShardListForSafetensors] using h

end Cut

end HyperParallel.Checkpoint.HuggingFace
