import HyperParallel.Checkpoint.HuggingFace

/-!
# Reading an export back

What a directory holds after a run of exports, and what the reader makes of it.
The file of a single-shard export stays when a later export has several shards,
and the reader prefers it.
-/

namespace HyperParallel.Checkpoint.HuggingFace

open Foundation List

variable {τ : Type*}

/-! ## Names of files -/

theorem shardName_eq (nbShards : Nat) : ∃ tail, DecimalText.Stops tail ∧ ∀ idx,
    shardName nbShards idx =
      String.ofList ("model-".toList ++ (DecimalText.zeroPadded 5 (idx + 1) ++ tail)) := by
  refine ⟨"-of-".toList ++ (DecimalText.zeroPadded 5 nbShards ++ ".safetensors".toList),
    ?_, fun idx => ?_⟩
  · have hof : "-of-".toList = ['-', 'o', 'f', '-'] := rfl
    rw [hof]
    exact DecimalText.stops_cons rfl _
  · have hassoc : ∀ front number middle count back : List Char,
        front ++ number ++ middle ++ count ++ back = front ++ (number ++ (middle ++ (count ++ back))) := by
      simp
    exact congrArg String.ofList (hassoc _ _ _ _ _)

theorem shardName_injective (nbShards : Nat) : Function.Injective (shardName nbShards) := by
  intro i j h
  obtain ⟨tail, hstops, hname⟩ := shardName_eq nbShards
  rw [hname, hname] at h
  have hchars := append_cancel_left (String.ofList_injective h)
  obtain ⟨hpadded, -⟩ := DecimalText.digits_cancel (fun _ => DecimalText.isDigit_zeroPadded)
    (fun _ => DecimalText.isDigit_zeroPadded) hstops hstops hchars
  exact Nat.succ.inj (DecimalText.zeroPadded_injective 5 hpadded)

theorem getElem?_shardName (nbShards idx : Nat) :
    (shardName nbShards idx).toList[5]? = some '-' := by
  obtain ⟨tail, -, hname⟩ := shardName_eq nbShards
  rw [hname, String.toList_ofList]
  simp

theorem shardName_ne_weights (nbShards idx : Nat) : shardName nbShards idx ≠ SAFE_WEIGHTS_NAME := by
  intro h
  have hchar := getElem?_shardName nbShards idx
  rw [h] at hchar
  exact absurd hchar (by decide)

theorem shardName_ne_index (nbShards idx : Nat) :
    shardName nbShards idx ≠ SAFE_WEIGHTS_INDEX_NAME := by
  intro h
  have hchar := getElem?_shardName nbShards idx
  rw [h] at hchar
  exact absurd hchar (by decide)

/-! ## One shard -/

section OneShard

variable {getStorageSize : τ → Nat} {maxCap : Int} {entries : List (String × τ)}

def FitsOneFile (getStorageSize : τ → Nat) (maxCap : Int) (entries : List (String × τ)) : Prop :=
  entries.length = 1 ∨ entries ≠ [] ∧ (totalSize getStorageSize entries : Int) ≤ maxCap

theorem foldl_shardStep_of_le {walk : ShardWalk τ}
    (hsize : walk.currentShardSize = totalSize getStorageSize walk.currentShard)
    (hle : (totalSize getStorageSize (walk.currentShard ++ entries) : Int) ≤ maxCap) :
    entries.foldl (shardStep getStorageSize maxCap) walk =
      ⟨walk.shardList, walk.currentShard ++ entries,
        totalSize getStorageSize (walk.currentShard ++ entries)⟩ := by
  induction entries generalizing walk with
  | nil => simp [← hsize]
  | cons entry entries ih =>
    have htotal : totalSize getStorageSize (walk.currentShard ++ entry :: entries) =
        walk.currentShardSize + (getStorageSize entry.2 + totalSize getStorageSize entries) := by
      rw [hsize]
      simp [totalSize]
    rw [htotal] at hle
    have hstep : shardStep getStorageSize maxCap walk entry =
        ⟨walk.shardList, walk.currentShard ++ [entry],
          walk.currentShardSize + getStorageSize entry.2⟩ := by
      unfold shardStep
      dsimp only
      rw [if_neg (by omega), if_neg (by omega)]
    rw [foldl_cons, hstep]
    have hrest := @ih ⟨walk.shardList, walk.currentShard ++ [entry],
      walk.currentShardSize + getStorageSize entry.2⟩ (by simp [totalSize, hsize]) (by
        rw [append_assoc, singleton_append, htotal]
        exact hle)
    rw [hrest]
    simp only [append_assoc, singleton_append]

theorem totalSize_perm {left right : List (String × τ)} (h : left.Perm right) :
    totalSize getStorageSize left = totalSize getStorageSize right :=
  (h.map _).sum_eq

theorem length_buildShardList_eq_one_iff :
    (buildShardListForSafetensors getStorageSize entries maxCap).length = 1 ↔
      FitsOneFile getStorageSize maxCap entries := by
  obtain ⟨hperm, hne, hcapped⟩ := @buildShardList_cuts _ getStorageSize maxCap entries
  constructor
  · intro hone
    obtain ⟨shard, hshard⟩ := length_eq_one_iff.mp hone
    rw [hshard] at hperm hne hcapped
    rw [flatten_singleton] at hperm
    have hmem : shard ∈ [shard] := mem_singleton_self shard
    have hpos := length_pos_iff.mpr (hne shard hmem)
    rcases Nat.lt_or_ge shard.length 2 with hsingle | hmany
    · exact .inl (by rw [← hperm.length_eq]; omega)
    · refine .inr ⟨?_, ?_⟩
      · rw [← length_pos_iff, ← hperm.length_eq]
        exact hpos
      · rw [← totalSize_perm hperm]
        exact hcapped shard hmem hmany
  · rintro (hsingle | ⟨hentries, hle⟩)
    · obtain ⟨entry, rfl⟩ := length_eq_one_iff.mp hsingle
      simp only [buildShardListForSafetensors, foldl_cons, foldl_nil, shardStep]
      by_cases hlarge : maxCap < getStorageSize entry.2
      · rw [if_pos hlarge]
        rfl
      · rw [if_neg hlarge, Nat.zero_add, if_neg hlarge]
        rfl
    · have hfold := @foldl_shardStep_of_le _ getStorageSize maxCap entries ⟨[], [], 0⟩ rfl hle
      rw [buildShardListForSafetensors, hfold, ShardWalk.close]
      simp only [nil_append]
      rw [if_pos (length_pos_iff.mpr hentries)]
      rfl

theorem buildShardList_eq_nil_iff :
    buildShardListForSafetensors getStorageSize entries maxCap = [] ↔ entries = [] := by
  obtain ⟨hperm, hne, -⟩ := @buildShardList_cuts _ getStorageSize maxCap entries
  constructor
  · intro hnil
    rw [hnil] at hperm
    exact hperm.nil_eq.symm
  · rintro rfl
    rfl

end OneShard

/-! ## Dictionaries from entries -/

theorem entries_ofEntries {ν : Type*} {entries : List (String × ν)}
    (h : (entries.map Prod.fst).Nodup) : (ofEntries entries).entries = entries := by
  induction entries using reverseRecOn with
  | nil => rfl
  | append_singleton entries entry ih =>
    rw [map_append, map_singleton] at h
    have hrest := ih (nodup_append.mp h).1
    rw [ofEntries, foldl_append, foldl_cons, foldl_nil, ← ofEntries]
    have hfresh : entry.1 ∉ (ofEntries entries).keys := by
      rw [PyDict.keys, hrest]
      intro hmem
      exact (nodup_append.mp h).2.2 _ hmem _ (mem_singleton_self _) rfl
    rw [PyDict.entries_set_of_notMem _ _ hfresh, hrest]

theorem get?_ofEntries {ν : Type*} {entries : List (String × ν)}
    (h : (entries.map Prod.fst).Nodup) (key : String) :
    (ofEntries entries).get? key = entries.lookup key := by
  rw [PyDict.get?, entries_ofEntries h]

theorem get?_ofEntries_eq_some {ν : Type*} {entries : List (String × ν)}
    (h : (entries.map Prod.fst).Nodup) {key : String} {value : ν} :
    (ofEntries entries).get? key = some value ↔ (key, value) ∈ entries := by
  rw [← PyDict.mem_entries_iff, entries_ofEntries h]

theorem get?_shardContent (stateDict : PyDict String τ) {tensors : List String}
    (h : tensors.Nodup) (key : String) :
    (shardContent stateDict tensors).get? key =
      if key ∈ tensors then stateDict.get? key else none := by
  have hkeys : ((tensors.filterMap fun tensor =>
      (stateDict.get? tensor).map fun value => (tensor, value)).map Prod.fst).Nodup := by
    have hsub : ((tensors.filterMap fun tensor =>
        (stateDict.get? tensor).map fun value => (tensor, value)).map Prod.fst).Sublist tensors := by
      clear h
      induction tensors with
      | nil => exact .slnil
      | cons tensor tensors ih =>
        rw [filterMap_cons]
        cases stateDict.get? tensor with
        | none => exact ih.cons _
        | some value => exact ih.cons_cons _
    exact hsub.nodup h
  ext value
  rw [shardContent, get?_ofEntries_eq_some hkeys, mem_filterMap]
  simp only [Option.map_eq_some_iff, Prod.mk.injEq]
  constructor
  · rintro ⟨tensor, htensor, found, hfound, rfl, rfl⟩
    rw [if_pos htensor]
    exact hfound
  · intro hvalue
    split at hvalue
    · rename_i hmem
      exact ⟨key, hmem, value, hvalue, rfl, rfl⟩
    · cases hvalue

/-! ## Several shards -/

/-- The numbered files, and the keys in each. -/
def namedShards (shardList : List (List (String × τ))) : List (String × List String) :=
  shardList.zipIdx.map fun shard =>
    (shardName shardList.length shard.2, shard.1.map Prod.fst)

def placedTensors (shardList : List (List (String × τ))) : List (String × String) :=
  (namedShards shardList).flatMap fun shard => shard.2.map fun key => (key, shard.1)

theorem mem_namedShards {shardList : List (List (String × τ))} {name : String}
    {tensors : List String} :
    (name, tensors) ∈ namedShards shardList ↔
      ∃ idx shard, shardList[idx]? = some shard ∧ shardName shardList.length idx = name ∧
        shard.map Prod.fst = tensors := by
  simp only [namedShards, mem_map, Prod.exists, mem_zipIdx_iff_getElem?, Prod.mk.injEq]
  exact exists_comm

theorem nodup_namedShards (shardList : List (List (String × τ))) :
    ((namedShards shardList).map Prod.fst).Nodup := by
  have hnames : (namedShards shardList).map Prod.fst =
      (shardList.zipIdx.map Prod.snd).map (shardName shardList.length) := by
    rw [namedShards, map_map, map_map]
    rfl
  rw [hnames]
  refine List.Nodup.map (shardName_injective _) ?_
  rw [zipIdx_map_snd]
  exact nodup_range'

theorem map_fst_placedTensors (shardList : List (List (String × τ))) :
    (placedTensors shardList).map Prod.fst = shardList.flatten.map Prod.fst := by
  have hkeys : (placedTensors shardList).map Prod.fst =
      (shardList.zipIdx.map Prod.fst).flatMap fun shard => shard.map Prod.fst := by
    rw [placedTensors, namedShards, map_flatMap, flatMap_map, flatMap_map]
    simp only [map_map, Function.comp_def]
  rw [hkeys, zipIdx_map_fst, map_flatten, flatMap_def]

theorem mem_placedTensors {shardList : List (List (String × τ))} {key name : String} :
    (key, name) ∈ placedTensors shardList ↔
      ∃ tensors, (name, tensors) ∈ namedShards shardList ∧ key ∈ tensors := by
  simp only [placedTensors, mem_flatMap, mem_map, Prod.mk.injEq, Prod.exists]
  constructor
  · rintro ⟨name', tensors, hnamed, key', hkey, rfl, rfl⟩
    exact ⟨tensors, hnamed, hkey⟩
  · rintro ⟨tensors, hnamed, hkey⟩
    exact ⟨name, tensors, hnamed, key, hkey, rfl, rfl⟩

/-! ## One save -/

/-- A call of the export. -/
structure Save (τ : Type*) where
  stateDict : PyDict String τ
  maxCap : Int

section Saves

variable (getStorageSize : τ → Nat)

def Save.shards (save : Save τ) : List (List (String × τ)) :=
  buildShardListForSafetensors getStorageSize save.stateDict.entries save.maxCap

def Save.FitsOneFile (save : Save τ) : Prop :=
  HuggingFace.FitsOneFile getStorageSize save.maxCap save.stateDict.entries

instance (save : Save τ) : Decidable (save.FitsOneFile getStorageSize) := by
  unfold Save.FitsOneFile HuggingFace.FitsOneFile
  infer_instance

def Save.apply (directory : Directory τ) (save : Save τ) : Directory τ :=
  saveStateDictAsHuggingfaceFormat getStorageSize directory save.stateDict save.maxCap

def SameTensors (left right : PyDict String τ) : Prop := ∀ key, left.get? key = right.get? key

def HoldsSingle (directory : Directory τ) (stateDict : PyDict String τ) : Prop :=
  ∃ content, directory.get? SAFE_WEIGHTS_NAME = some (.weights content) ∧
    SameTensors content stateDict

def HoldsSharded (directory : Directory τ) (stateDict : PyDict String τ) : Prop :=
  ∃ weightMap, directory.get? SAFE_WEIGHTS_INDEX_NAME = some (.index weightMap) ∧
    (∀ key ∈ stateDict.keys, ∃ name ∈ weightMap.values, ∃ content,
      directory.get? name = some (.weights content) ∧ content.get? key = stateDict.get? key) ∧
    ∀ name ∈ weightMap.values, name ≠ SAFE_WEIGHTS_NAME ∧ name ≠ SAFE_WEIGHTS_INDEX_NAME ∧
      ∃ content, directory.get? name = some (.weights content) ∧
        ∀ key value, content.get? key = some value → stateDict.get? key = some value

variable {getStorageSize} {save : Save τ} (directory : Directory τ)

theorem get?_foldl_weights (stateDict : PyDict String τ) (named : PyDict String (List String))
    (name : String) :
    (named.entries.foldl (fun directory entry =>
        directory.set entry.1 (.weights (shardContent stateDict entry.2))) directory).get? name =
      match named.get? name with
      | some tensors => some (.weights (shardContent stateDict tensors))
      | none => directory.get? name := by
  rw [PyDict.get?_foldl_set (fun tensors => HfFile.weights (shardContent stateDict tensors))
    named.nodup]
  change _ = match named.entries.lookup name with
    | some tensors => some (HfFile.weights (shardContent stateDict tensors))
    | none => directory.get? name
  cases named.entries.lookup name <;> rfl

theorem Save.apply_single (h : save.FitsOneFile getStorageSize) :
    HoldsSingle (save.apply getStorageSize directory) save.stateDict ∧
      ∀ name, name ≠ SAFE_WEIGHTS_NAME →
        (save.apply getStorageSize directory).get? name = directory.get? name := by
  have hone : (buildShardListForSafetensors getStorageSize save.stateDict.entries
      save.maxCap).length = 1 := length_buildShardList_eq_one_iff.mpr h
  have hsplit : splitStateDictIntoShards getStorageSize save.stateDict save.maxCap =
      ⟨ofEntries [(SAFE_WEIGHTS_NAME, save.stateDict.keys)],
        ofEntries (save.stateDict.keys.map fun key => (key, SAFE_WEIGHTS_NAME))⟩ := by
    rw [splitStateDictIntoShards]
    simp only [if_pos hone]
  have hkeys : ([(SAFE_WEIGHTS_NAME, save.stateDict.keys)].map Prod.fst).Nodup := by simp
  have happly : ∀ name, (save.apply getStorageSize directory).get? name =
      match (ofEntries [(SAFE_WEIGHTS_NAME, save.stateDict.keys)]).get? name with
      | some tensors => some (.weights (shardContent save.stateDict tensors))
      | none => directory.get? name := by
    intro name
    have hplain : (StateDictSplit.mk (ofEntries [(SAFE_WEIGHTS_NAME, save.stateDict.keys)])
        (ofEntries (save.stateDict.keys.map fun key => (key, SAFE_WEIGHTS_NAME)))).isSharded =
          false := by
      rw [StateDictSplit.isSharded, entries_ofEntries hkeys]
      rfl
    rw [Save.apply, saveStateDictAsHuggingfaceFormat, hsplit]
    simp only [hplain]
    exact get?_foldl_weights directory _ _ _
  constructor
  · refine ⟨shardContent save.stateDict save.stateDict.keys, ?_, fun key => ?_⟩
    · rw [happly, get?_ofEntries hkeys, lookup_cons_self]
    · rw [get?_shardContent _ save.stateDict.keys_nodup]
      split
      · rfl
      · rename_i hmem
        exact (PyDict.get?_eq_none_iff _ |>.mpr hmem).symm
  · intro name hname
    rw [happly, get?_ofEntries hkeys, lookup_cons, beq_false_of_ne hname, lookup_nil]

theorem Save.apply_empty (h : save.stateDict.entries = []) :
    save.apply getStorageSize directory = directory := by
  have hnone : buildShardListForSafetensors getStorageSize save.stateDict.entries save.maxCap =
      [] := buildShardList_eq_nil_iff.mpr h
  rw [Save.apply, saveStateDictAsHuggingfaceFormat, splitStateDictIntoShards]
  simp only [hnone]
  rfl

theorem Save.apply_sharded (hne : save.stateDict.entries ≠ [])
    (h : ¬save.FitsOneFile getStorageSize) :
    HoldsSharded (save.apply getStorageSize directory) save.stateDict ∧
      (save.apply getStorageSize directory).get? SAFE_WEIGHTS_NAME =
        directory.get? SAFE_WEIGHTS_NAME := by
  obtain ⟨shards, hshards⟩ : ∃ shards, buildShardListForSafetensors getStorageSize
    save.stateDict.entries save.maxCap = shards := ⟨_, rfl⟩
  obtain ⟨hperm, -, -⟩ := @buildShardList_cuts _ getStorageSize save.maxCap save.stateDict.entries
  rw [hshards] at hperm
  have hmany : shards.length ≠ 1 := by
    rw [← hshards]
    exact fun hone => h (length_buildShardList_eq_one_iff.mp hone)
  have hsome : shards ≠ [] := by
    rw [← hshards]
    exact fun hnil => hne (buildShardList_eq_nil_iff.mp hnil)
  have hsplit : splitStateDictIntoShards getStorageSize save.stateDict save.maxCap =
      ⟨ofEntries (namedShards shards), ofEntries (placedTensors shards)⟩ := by
    rw [splitStateDictIntoShards]
    simp only [hshards, if_neg hmany]
    rfl
  have hnamed := nodup_namedShards shards
  have hplaced : ((placedTensors shards).map Prod.fst).Nodup := by
    rw [map_fst_placedTensors]
    exact (hperm.map Prod.fst).nodup_iff.mpr save.stateDict.nodup
  have hsharded : (StateDictSplit.mk (ofEntries (namedShards shards))
      (ofEntries (placedTensors shards))).isSharded = true := by
    have hlen : (namedShards shards).length = shards.length := by simp [namedShards]
    have hpos := length_pos_iff.mpr hsome
    rw [StateDictSplit.isSharded, entries_ofEntries hnamed, decide_eq_true_iff, hlen]
    omega
  have happly : save.apply getStorageSize directory =
      ((ofEntries (namedShards shards)).entries.foldl (fun directory entry =>
        directory.set entry.1 (.weights (shardContent save.stateDict entry.2))) directory).set
          SAFE_WEIGHTS_INDEX_NAME (.index (ofEntries (placedTensors shards))) := by
    rw [Save.apply, saveStateDictAsHuggingfaceFormat, hsplit]
    simp only [hsharded, if_true]
  have hother : ∀ name, name ≠ SAFE_WEIGHTS_INDEX_NAME →
      (save.apply getStorageSize directory).get? name =
        match (ofEntries (namedShards shards)).get? name with
        | some tensors => some (.weights (shardContent save.stateDict tensors))
        | none => directory.get? name := by
    intro name hname
    rw [happly, PyDict.get?_set_of_ne _ _ hname]
    exact get?_foldl_weights directory _ _ _
  have hfile : ∀ idx shard, shards[idx]? = some shard →
      (save.apply getStorageSize directory).get? (shardName shards.length idx) =
        some (.weights (shardContent save.stateDict (shard.map Prod.fst))) := by
    intro idx shard hshard
    have hget : (ofEntries (namedShards shards)).get? (shardName shards.length idx) =
        some (shard.map Prod.fst) :=
      (get?_ofEntries_eq_some hnamed).mpr (mem_namedShards.mpr ⟨idx, shard, hshard, rfl, rfl⟩)
    rw [hother _ (shardName_ne_index _ _), hget]
  have hcontent : ∀ shard ∈ shards, ∀ key,
      (shardContent save.stateDict (shard.map Prod.fst)).get? key =
        if key ∈ shard.map Prod.fst then save.stateDict.get? key else none := by
    intro shard hshard key
    refine get?_shardContent _ ?_ key
    have hkeys := (hperm.map Prod.fst).nodup_iff.mpr save.stateDict.nodup
    rw [map_flatten] at hkeys
    exact (nodup_flatten.mp hkeys).1 _ (mem_map_of_mem hshard)
  have hvalues : ∀ name, name ∈ (ofEntries (placedTensors shards)).values ↔
      ∃ idx shard, shards[idx]? = some shard ∧ shardName shards.length idx = name ∧
        ∃ key, key ∈ shard.map Prod.fst := by
    intro name
    rw [PyDict.mem_values_iff]
    constructor
    · rintro ⟨key, hkey⟩
      obtain ⟨tensors, hmem, hin⟩ := mem_placedTensors.mp ((get?_ofEntries_eq_some hplaced).mp hkey)
      obtain ⟨idx, shard, hshard, hname, rfl⟩ := mem_namedShards.mp hmem
      exact ⟨idx, shard, hshard, hname, key, hin⟩
    · rintro ⟨idx, shard, hshard, hname, key, hin⟩
      exact ⟨key, (get?_ofEntries_eq_some hplaced).mpr (mem_placedTensors.mpr
        ⟨_, mem_namedShards.mpr ⟨idx, shard, hshard, hname, rfl⟩, hin⟩)⟩
  constructor
  · refine ⟨ofEntries (placedTensors shards), ?_, fun key hkey => ?_, fun name hname => ?_⟩
    · rw [happly, PyDict.get?_set_self]
    · obtain ⟨entry, hentry, rfl⟩ := mem_map.mp hkey
      obtain ⟨shard, hshard, hin⟩ := mem_flatten.mp (hperm.mem_iff.mpr hentry)
      obtain ⟨idx, hidx⟩ := mem_iff_getElem?.mp hshard
      have hkey : entry.1 ∈ shard.map Prod.fst := mem_map_of_mem hin
      refine ⟨_, (hvalues _).mpr ⟨idx, shard, hidx, rfl, entry.1, hkey⟩, _, hfile idx shard hidx, ?_⟩
      rw [hcontent shard hshard, if_pos hkey]
    · obtain ⟨idx, shard, hidx, rfl, -⟩ := (hvalues name).mp hname
      refine ⟨shardName_ne_weights _ _, shardName_ne_index _ _, _, hfile idx shard hidx, ?_⟩
      intro key value hvalue
      rw [hcontent shard (mem_of_getElem? hidx)] at hvalue
      split at hvalue
      · exact hvalue
      · cases hvalue
  · have habsent : (ofEntries (namedShards shards)).get? SAFE_WEIGHTS_NAME = none := by
      rw [Option.eq_none_iff_forall_ne_some]
      intro tensors hget
      obtain ⟨idx, shard, -, hname, -⟩ :=
        mem_namedShards.mp ((get?_ofEntries_eq_some hnamed).mp hget)
      exact shardName_ne_weights _ _ hname
    rw [hother _ (by decide), habsent]

/-! ## The reader -/

theorem get?_mergeShard (stateDict shard : PyDict String τ) (key : String) :
    (mergeShard stateDict shard).get? key = (stateDict.get? key).or (shard.get? key) := by
  rw [mergeShard]
  change _ = (stateDict.get? key).or (shard.entries.lookup key)
  generalize shard.entries = entries
  induction entries generalizing stateDict with
  | nil => simp
  | cons entry entries ih =>
    rw [foldl_cons, ih, lookup_cons]
    by_cases hkey : key = entry.1
    · rw [hkey, beq_self_eq_true]
      cases hget : stateDict.get? entry.1 with
      | none => simp [PyDict.contains, hget]
      | some value => simp [PyDict.contains, hget]
    · rw [beq_false_of_ne hkey]
      cases stateDict.contains entry.1 with
      | true => rfl
      | false => rw [if_neg (by simp), PyDict.get?_set_of_ne _ _ hkey]

theorem foldlM_mergeShard {stateDict : PyDict String τ} {names : List String}
    (hfiles : ∀ name ∈ names, ∃ content, directory.get? name = some (.weights content) ∧
      ∀ key value, content.get? key = some value → stateDict.get? key = some value)
    {start : PyDict String τ}
    (hstart : ∀ key value, start.get? key = some value → stateDict.get? key = some value) :
    ∃ merged, names.foldlM (fun merged name =>
        (loadCheckpointFile directory name).map (mergeShard merged)) start = .ok merged ∧
      ∀ key value, merged.get? key = some value ↔ start.get? key = some value ∨
        ∃ name ∈ names, ∃ content, directory.get? name = some (.weights content) ∧
          content.get? key = some value := by
  induction names generalizing start with
  | nil => exact ⟨start, rfl, by simp⟩
  | cons name names ih =>
    obtain ⟨content, hcontent, hagree⟩ := hfiles name mem_cons_self
    have hget : ∀ key value, (mergeShard start content).get? key = some value ↔
        start.get? key = some value ∨ content.get? key = some value := by
      intro key value
      rw [get?_mergeShard]
      cases hkey : start.get? key with
      | none => simp
      | some found =>
        constructor
        · exact .inl
        · rintro (hsame | hlater)
          · exact hsame
          · have hfound := hstart key found hkey
            rw [hagree key value hlater] at hfound
            exact hfound.symm
    obtain ⟨merged, hmerged, hiff⟩ := @ih (fun name hname =>
      hfiles name (mem_cons_of_mem _ hname)) (mergeShard start content) (by
        intro key value hvalue
        rcases (hget key value).mp hvalue with hold | hnew
        · exact hstart key value hold
        · exact hagree key value hnew)
    refine ⟨merged, ?_, fun key value => ?_⟩
    · rw [foldlM_cons, loadCheckpointFile, hcontent]
      exact hmerged
    · rw [hiff, hget]
      constructor
      · rintro ((hold | hnew) | ⟨name', hname', later⟩)
        · exact .inl hold
        · exact .inr ⟨name, mem_cons_self, content, hcontent, hnew⟩
        · exact .inr ⟨name', mem_cons_of_mem _ hname', later⟩
      · rintro (hold | ⟨name', hname', content', hcontent', hvalue⟩)
        · exact .inl (.inl hold)
        · rcases mem_cons.mp hname' with rfl | hrest
          · rw [hcontent, Option.some_inj, HfFile.weights.injEq] at hcontent'
            subst hcontent'
            exact .inl (.inr hvalue)
          · exact .inr ⟨name', hrest, content', hcontent', hvalue⟩

section Reader

variable {setOrder : List String → List String} {directory} {stateDict : PyDict String τ}

theorem parse_of_holdsSingle (h : HoldsSingle directory stateDict) :
    ∃ content, parseCheckpointFromHuggingface setOrder directory = .ok content ∧
      SameTensors content stateDict := by
  obtain ⟨content, hcontent, hsame⟩ := h
  refine ⟨content, ?_, hsame⟩
  rw [parseCheckpointFromHuggingface, if_pos (by rw [PyDict.contains, hcontent]; rfl),
    loadCheckpointFile, hcontent]

theorem parse_of_holdsSharded (hset : ∀ names, (setOrder names).Perm names.dedup)
    (hsingle : directory.get? SAFE_WEIGHTS_NAME = none) (h : HoldsSharded directory stateDict) :
    ∃ content, parseCheckpointFromHuggingface setOrder directory = .ok content ∧
      SameTensors content stateDict := by
  obtain ⟨weightMap, hindex, hcover, hfiles⟩ := h
  have hmem : ∀ name, name ∈ setOrder weightMap.values ↔ name ∈ weightMap.values := fun name => by
    rw [(hset _).mem_iff, mem_dedup]
  obtain ⟨merged, hmerged, hiff⟩ := @foldlM_mergeShard _ directory stateDict
    (setOrder weightMap.values) (fun name hname => (hfiles name ((hmem name).mp hname)).2.2)
    .empty (by simp)
  refine ⟨merged, ?_, fun key => Option.ext fun value => ?_⟩
  · rw [parseCheckpointFromHuggingface, if_neg (by rw [PyDict.contains, hsingle]; simp), hindex]
    exact hmerged
  · rw [hiff]
    constructor
    · rintro (hnone | ⟨name, hname, content, hcontent, hvalue⟩)
      · cases hnone
      · obtain ⟨-, -, content', hcontent', hagree⟩ := hfiles name ((hmem name).mp hname)
        rw [hcontent, Option.some_inj, HfFile.weights.injEq] at hcontent'
        subst hcontent'
        exact hagree key value hvalue
    · intro hvalue
      obtain ⟨name, hname, content, hcontent, hget⟩ :=
        hcover key (stateDict.mem_keys_iff.mpr ⟨value, hvalue⟩)
      exact .inr ⟨name, (hmem name).mpr hname, content, hcontent, hget.trans hvalue⟩

theorem parse_of_neither (hsingle : directory.get? SAFE_WEIGHTS_NAME = none)
    (hindex : directory.get? SAFE_WEIGHTS_INDEX_NAME = none) :
    parseCheckpointFromHuggingface setOrder directory = .error .missingIndex := by
  rw [parseCheckpointFromHuggingface, if_neg (by rw [PyDict.contains, hsingle]; simp), hindex]

end Reader

/-! ## Runs -/

variable (getStorageSize) in
def exportRun (run : List (Save τ)) : Directory τ :=
  run.foldl (Save.apply getStorageSize) .empty

variable (getStorageSize) in
def lastSingle (run : List (Save τ)) : Option (Save τ) :=
  (run.filter fun save => save.FitsOneFile getStorageSize).getLast?

def Holds (holds : PyDict String τ → Prop) (absent : Prop) : Option (Save τ) → Prop
  | some save => holds save.stateDict
  | none => absent

variable (getStorageSize) in
def Visible (directory : Directory τ) (run : List (Save τ)) : Prop :=
  Holds (HoldsSingle directory) (directory.get? SAFE_WEIGHTS_NAME = none)
      (lastSingle getStorageSize run) ∧
    Holds (HoldsSharded directory) (directory.get? SAFE_WEIGHTS_INDEX_NAME = none)
      (run.filter fun save =>
        save.stateDict.entries ≠ [] ∧ ¬save.FitsOneFile getStorageSize).getLast?

theorem HoldsSharded.congr {directory other : Directory τ} {stateDict : PyDict String τ}
    (h : HoldsSharded directory stateDict)
    (hsame : ∀ name, name ≠ SAFE_WEIGHTS_NAME → other.get? name = directory.get? name) :
    HoldsSharded other stateDict := by
  obtain ⟨weightMap, hindex, hcover, hfiles⟩ := h
  refine ⟨weightMap, ?_, fun key hkey => ?_, fun name hname => ?_⟩
  · rw [hsame _ (by decide)]
    exact hindex
  · obtain ⟨name, hname, hcontent⟩ := hcover key hkey
    rw [← hsame name (hfiles name hname).1] at hcontent
    exact ⟨name, hname, hcontent⟩
  · have hfile := hfiles name hname
    rw [← hsame name hfile.1] at hfile
    exact hfile

theorem HoldsSingle.congr {directory other : Directory τ} {stateDict : PyDict String τ}
    (h : HoldsSingle directory stateDict)
    (hsame : other.get? SAFE_WEIGHTS_NAME = directory.get? SAFE_WEIGHTS_NAME) :
    HoldsSingle other stateDict := by
  rw [HoldsSingle, hsame]
  exact h

theorem Visible.step {directory : Directory τ} {run : List (Save τ)}
    (h : Visible getStorageSize directory run) (save : Save τ) :
    Visible getStorageSize (save.apply getStorageSize directory) (run ++ [save]) := by
  obtain ⟨hsingle, hsharded⟩ := h
  by_cases hfits : save.FitsOneFile getStorageSize
  · obtain ⟨hholds, hsame⟩ := save.apply_single directory hfits
    constructor
    · rw [lastSingle, filter_append, filter_cons_of_pos (by simpa using hfits)]
      simpa [Holds] using hholds
    · rw [filter_append, filter_cons_of_neg (by simpa using fun _ => hfits), filter_nil, append_nil]
      revert hsharded
      generalize (run.filter _).getLast? = last
      cases last with
      | none => exact fun habsent => (hsame _ (by decide)).trans habsent
      | some earlier => exact fun hearlier => HoldsSharded.congr hearlier hsame
  · have hskip : lastSingle getStorageSize (run ++ [save]) = lastSingle getStorageSize run := by
      rw [lastSingle, filter_append, filter_cons_of_neg (by simpa using hfits),
        filter_nil, append_nil, lastSingle]
    by_cases hempty : save.stateDict.entries = []
    · rw [Save.apply_empty directory hempty]
      refine ⟨hskip ▸ hsingle, ?_⟩
      rw [filter_append, filter_cons_of_neg (by simp [hempty]), filter_nil, append_nil]
      exact hsharded
    · obtain ⟨hholds, hsame⟩ := Save.apply_sharded directory hempty hfits
      constructor
      · rw [hskip]
        revert hsingle
        cases lastSingle getStorageSize run with
        | none => exact fun habsent => hsame.trans habsent
        | some earlier => exact fun hearlier => HoldsSingle.congr hearlier hsame
      · rw [filter_append, filter_cons_of_pos (by simpa using ⟨hempty, hfits⟩)]
        simpa [Holds] using hholds

theorem visible_exportRun (run : List (Save τ)) :
    Visible getStorageSize (exportRun getStorageSize run) run := by
  induction run using reverseRecOn with
  | nil => exact ⟨rfl, rfl⟩
  | append_singleton run save ih =>
    rw [exportRun, foldl_append]
    exact ih.step save

/-! ## What is read after a run -/

variable (getStorageSize) in
def ReadBack (setOrder : List String → List String) (calls : List (Save τ)) (last : Save τ) :
    Prop :=
  ∃ content, parseCheckpointFromHuggingface setOrder
      (exportRun getStorageSize (calls ++ [last])) = .ok content ∧
    SameTensors content last.stateDict

variable (getStorageSize) in
def Save.ShardsInOrder (save : Save τ) : Prop :=
  (save.shards getStorageSize).flatten = save.stateDict.entries ∧
    ∀ shard ∈ save.shards getStorageSize, 2 ≤ shard.length →
      (totalSize getStorageSize shard : Int) ≤ save.maxCap

theorem Save.shardsInOrder_iff :
    save.ShardsInOrder getStorageSize ↔
      LargeFirst getStorageSize save.maxCap save.stateDict.entries :=
  (and_iff_left (buildShardList_cuts _).2.2).trans (flatten_buildShardList_iff save.stateDict.nodup)

theorem SameTensors.entries_eq_nil {left right : PyDict String τ} (h : SameTensors left right)
    (hright : right.entries = []) : left.entries = [] := by
  rw [eq_nil_iff_forall_not_mem]
  rintro ⟨key, value⟩ hmem
  have hvalue := (h key).symm.trans (left.mem_entries_iff.mp hmem)
  rw [← right.mem_entries_iff, hright] at hvalue
  cases hvalue

theorem Save.FitsOneFile.entries_ne_nil {save : Save τ} (h : save.FitsOneFile getStorageSize) :
    save.stateDict.entries ≠ [] := by
  rcases h with hone | hsome
  · intro hnil
    rw [hnil] at hone
    cases hone
  · exact hsome.1

theorem readBack_iff_of_parse {setOrder : List String → List String} {calls : List (Save τ)}
    {last : Save τ} {visible : PyDict String τ}
    (h : ∃ content, parseCheckpointFromHuggingface setOrder
      (exportRun getStorageSize (calls ++ [last])) = .ok content ∧ SameTensors content visible) :
    ReadBack getStorageSize setOrder calls last ↔ SameTensors visible last.stateDict := by
  obtain ⟨content, hparse, hsame⟩ := h
  rw [ReadBack, hparse]
  constructor
  · rintro ⟨content', hcontent', hlast⟩
    cases hcontent'
    exact fun key => (hsame key).symm.trans (hlast key)
  · intro hlast
    exact ⟨content, rfl, fun key => (hsame key).trans (hlast key)⟩

theorem readBack_iff {setOrder : List String → List String}
    (hset : ∀ names, (setOrder names).Perm names.dedup) (calls : List (Save τ)) (last : Save τ) :
    ReadBack getStorageSize setOrder calls last ↔
      last.stateDict.entries ≠ [] ∧
        ∀ earlier, lastSingle getStorageSize (calls ++ [last]) = some earlier →
          SameTensors earlier.stateDict last.stateDict := by
  obtain ⟨hsingle, hsharded⟩ := @visible_exportRun _ getStorageSize (calls ++ [last])
  cases hlast : lastSingle getStorageSize (calls ++ [last]) with
  | some earlier =>
    rw [hlast] at hsingle
    rw [readBack_iff_of_parse (parse_of_holdsSingle hsingle)]
    have hfits : earlier.FitsOneFile getStorageSize := by
      simpa using (mem_filter.mp (mem_of_getLast? hlast)).2
    constructor
    · intro hsame
      refine ⟨fun hnil => hfits.entries_ne_nil (hsame.entries_eq_nil hnil), ?_⟩
      intro found hfound
      obtain rfl := Option.some.inj hfound
      exact hsame
    · rintro ⟨-, hsame⟩
      exact hsame earlier rfl
  | none =>
    rw [hlast] at hsingle
    have hshards : ¬last.FitsOneFile getStorageSize := by
      intro hfits
      rw [lastSingle, getLast?_eq_none_iff, filter_eq_nil_iff] at hlast
      exact hlast last (by simp) (by simpa using hfits)
    by_cases hempty : last.stateDict.entries = []
    · -- nothing is written for an empty state dict
      refine ⟨?_, fun h => absurd hempty h.1⟩
      intro hread
      revert hsharded
      cases hearlier : (List.filter (fun save : Save τ => save.stateDict.entries ≠ [] ∧
          ¬save.FitsOneFile getStorageSize) (calls ++ [last])).getLast? with
      | none =>
        intro habsent
        obtain ⟨content, hparse, -⟩ := hread
        rw [parse_of_neither hsingle habsent] at hparse
        cases hparse
      | some earlier =>
        intro hholds
        have hsame := (readBack_iff_of_parse
          (parse_of_holdsSharded hset hsingle hholds)).mp hread
        have hkept := (mem_filter.mp (mem_of_getLast? hearlier)).2
        exact absurd (hsame.entries_eq_nil hempty) (of_decide_eq_true hkept).1
    · rw [filter_append, filter_cons_of_pos (by simpa using ⟨hempty, hshards⟩),
        filter_nil, getLast?_concat] at hsharded
      rw [readBack_iff_of_parse (parse_of_holdsSharded hset hsingle hsharded)]
      exact ⟨fun _ => ⟨hempty, by simp⟩, fun _ _ => rfl⟩

/--
After a run of exports into one directory the reader returns what the last call was given, and
every call cut its state dict in order, exactly when no call has a tensor larger than the cap after
one that is not, the last state dict is not empty, and the last state dict that fits one file is
the last state dict.
-/
theorem huggingFaceExport_readBack_iff {setOrder : List String → List String}
    (hset : ∀ names, (setOrder names).Perm names.dedup) (calls : List (Save τ)) (last : Save τ) :
    (ReadBack getStorageSize setOrder calls last ∧
        ∀ save ∈ calls ++ [last], save.ShardsInOrder getStorageSize) ↔
      (∀ save ∈ calls ++ [last],
          LargeFirst getStorageSize save.maxCap save.stateDict.entries) ∧
        last.stateDict.entries ≠ [] ∧
          ∀ earlier, lastSingle getStorageSize (calls ++ [last]) = some earlier →
            SameTensors earlier.stateDict last.stateDict := by
  rw [readBack_iff hset, and_comm]
  simp only [Save.shardsInOrder_iff]

end Saves

/-! ### A directory used twice -/

section UsedTwice

/-- One tensor, which fits. -/
def smallExport : Save Nat := ⟨ofEntries [("w", 4)], 10⟩

/-- Two tensors, which do not fit together. -/
def largeExport : Save Nat := ⟨ofEntries [("w", 8), ("v", 8)], 10⟩

theorem largeExport_readBack :
    ReadBack id List.dedup [] largeExport ∧ ∀ save ∈ [] ++ [largeExport], save.ShardsInOrder id :=
  (huggingFaceExport_readBack_iff (fun _ => .refl _) [] largeExport).mpr
    ⟨by simp [LargeFirst, largeExport, ofEntries, PyDict.set, PyDict.setEntry, PyDict.empty],
      by decide, by
        intro earlier hearlier
        have hnone : lastSingle id ([] ++ [largeExport]) = none := by decide
        rw [hnone] at hearlier
        cases hearlier⟩

/-- The reader still finds the first export. -/
theorem smallExport_readBack :
    ¬(ReadBack id List.dedup [smallExport] largeExport ∧
      ∀ save ∈ [smallExport] ++ [largeExport], save.ShardsInOrder id) := by
  rintro ⟨hread, -⟩
  have hsame := ((readBack_iff (fun _ => .refl _) _ _).mp hread).2 smallExport rfl "w"
  exact absurd hsame (by decide)

end UsedTwice

end HyperParallel.Checkpoint.HuggingFace
