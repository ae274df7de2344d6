import HyperParallel.FullyShard.MicroSteps
import HyperParallel.FullyShard.UnshardRows

/-!
# What the steps of an unshard keep

Shards have their elements to themselves, those in a flat buffer stand at their
slots, and no unsharded buffer meets a shard but the one it is.  No step changes a
shard, and what is sent for a bucket has every shard in its slot.
-/

namespace HyperParallel.FullyShard

open Foundation Foundation.StorageHeap List

namespace ParamGroup

variable {Rank : Type} [DecidableEq Rank] {unit : ParamGroup Rank} {K : Type}
  {config : UnshardConfig K unit.count}

/-! ## Buckets -/

theorem mem_allGatherBuckets {bucket : BucketKey × List (Fin unit.count)} :
    bucket ∈ unit.allGatherBuckets config ↔
      bucket.2 ≠ [] ∧ bucket.2 = (finRange unit.count).filter fun i =>
        1 < unit.shardWorldSize i ∧ unit.allGatherKey config i = bucket.1 := by
  have hfilter : ∀ params : List (Fin unit.count),
      ((params.filterMap fun i => if unit.shardWorldSize i ≤ 1 then none
        else some (unit.allGatherKey config i, i)).filter fun pair =>
          decide (pair.1 = bucket.1)).map Prod.snd =
        params.filter fun i => 1 < unit.shardWorldSize i ∧ unit.allGatherKey config i = bucket.1 := by
    intro params
    induction params with
    | nil => rfl
    | cons i params ih =>
      rw [filterMap_cons]
      by_cases hsize : unit.shardWorldSize i ≤ 1
      · rw [if_pos hsize, ih, filter_cons_of_neg (by simp; omega)]
      · rw [if_neg hsize]
        by_cases hkey : unit.allGatherKey config i = bucket.1
        · rw [filter_cons_of_pos (by simpa using hkey), map_cons, ih,
            filter_cons_of_pos (by simp [hkey]; omega)]
        · rw [filter_cons_of_neg (by simpa using hkey), ih, filter_cons_of_neg (by simp [hkey])]
  rw [allGatherBuckets, show bucket = (bucket.1, bucket.2) from rfl, PyDict.mem_entries_iff,
    PyDict.get?_group, ← hfilter (finRange unit.count)]
  split
  · rename_i hnil
    simp [hnil]
  · rename_i hne
    rw [Option.some_inj]
    constructor
    · intro h
      refine ⟨fun hnil => hne ?_, h.symm⟩
      rw [hnil] at h
      exact map_eq_nil_iff.mp h
    · exact fun h => h.2.symm

variable {bucket : BucketKey × List (Fin unit.count)}

theorem mem_bucket_iff (h : bucket ∈ unit.allGatherBuckets config) {i : Fin unit.count} :
    i ∈ bucket.2 ↔ 1 < unit.shardWorldSize i ∧ unit.allGatherKey config i = bucket.1 := by
  rw [(mem_allGatherBuckets.mp h).2]
  simp

theorem bucket_nodup (h : bucket ∈ unit.allGatherBuckets config) : bucket.2.Nodup := by
  rw [(mem_allGatherBuckets.mp h).2]
  exact (nodup_finRange _).filter _

theorem bucket_keys_nodup : ((unit.allGatherBuckets config).map Prod.fst).Nodup :=
  PyDict.keys_nodup _

theorem exists_bucket {i : Fin unit.count} (h : 1 < unit.shardWorldSize i) :
    ∃ bucket ∈ unit.allGatherBuckets config, i ∈ bucket.2 := by
  have hmem : i ∈ (finRange unit.count).filter fun j =>
      1 < unit.shardWorldSize j ∧ unit.allGatherKey config j = unit.allGatherKey config i := by
    simp [h]
  exact ⟨(unit.allGatherKey config i, _), mem_allGatherBuckets.mpr ⟨ne_nil_of_mem hmem, rfl⟩, hmem⟩

def Homogeneous (config : UnshardConfig K unit.count) (params : List (Fin unit.count)) : Prop :=
  ∀ i ∈ params, ∀ j ∈ params, config.origDtype i = config.origDtype j

/-! ## Memory that is in order -/

structure Sound (config : UnshardConfig K unit.count) (state : RankState K unit.count) : Prop where
  shard_lt : ∀ i, (state.shardedParamData i).storage < state.memory.next
  flat_lt : ∀ key flat, state.flatParamBuffer key = some flat → flat.storage < state.memory.next
  sole_lt : ∀ i buffer, state.soleParamBuffer i = some buffer → buffer.storage < state.memory.next
  shards_apart : ∀ i j, i ≠ j → (state.shardedParamData i).Apart (unit.paddedNumel i)
    (state.shardedParamData j) (unit.paddedNumel j)
  flat_at : ∀ bucket ∈ unit.allGatherBuckets config, ∀ flat,
    state.flatParamBuffer bucket.1 = some flat →
      flat.offset = 0 ∧ Homogeneous config bucket.2 ∧
        ∀ entry ∈ Packing.layoutFrom unit.paddedNumel 0 bucket.2,
          (state.shardedParamData entry.1).storage = flat.storage →
            (state.shardedParamData entry.1).offset = entry.2
  sole_shard : ∀ i, ¬1 < unit.shardWorldSize i → (state.shardedParamData i).offset = 0 ∧
    ∀ j, j ≠ i → (state.shardedParamData j).storage ≠ (state.shardedParamData i).storage
  sole_buffer : ∀ i buffer, state.soleParamBuffer i = some buffer →
    buffer.offset = 0 ∧ ¬1 < unit.shardWorldSize i
  sole_apart : ∀ i buffer, state.soleParamBuffer i = some buffer → ∀ j,
    (state.shardedParamData j).storage = buffer.storage →
      j = i ∧ config.inPlace i ∧ buffer = state.shardedParamData i
  sole_distinct : ∀ i j buffer buffer', i ≠ j → state.soleParamBuffer i = some buffer →
    state.soleParamBuffer j = some buffer' → buffer.storage ≠ buffer'.storage

def SameShards (state state' : RankState K unit.count) : Prop :=
  ∀ i, ∀ j < unit.paddedNumel i, unit.shardValue state' i j = unit.shardValue state i j

variable {state state' : RankState K unit.count}

theorem SameShards.refl (state : RankState K unit.count) : SameShards state state :=
  fun _ _ _ => rfl

theorem SameShards.trans {state'' : RankState K unit.count} (h : SameShards state state')
    (h' : SameShards state' state'') : SameShards state state'' :=
  fun i j hj => (h' i j hj).trans (h i j hj)

theorem Sound.write (h : Sound config state) (slice : Slice) (length : Nat) (values : Nat → K) :
    Sound config { state with memory := state.memory.write slice length values } :=
  { h with }

theorem Sound.alloc (h : Sound config state) (values : Nat → K) :
    Sound config { state with memory := state.memory.alloc values } :=
  { h with
    shard_lt := fun i => (h.shard_lt i).trans (Nat.lt_succ_self _)
    flat_lt := fun key flat hflat => (h.flat_lt key flat hflat).trans (Nat.lt_succ_self _)
    sole_lt := fun i buffer hbuffer => (h.sole_lt i buffer hbuffer).trans (Nat.lt_succ_self _) }

theorem sameShards_alloc (h : Sound config state) (values : Nat → K) :
    SameShards state { state with memory := state.memory.alloc values } :=
  fun i j _ => Memory.read_alloc_of_lt (h.shard_lt i) values j

/-! ## Edits -/

theorem Sound.updateShard (h : Sound config state) (rank : Rank) (i : Fin unit.count)
    (values : Nat → K) : Sound config (unit.updateShard rank i values state) :=
  h.write _ _ _

theorem shardValue_updateShard (rank : Rank) (i : Fin unit.count) (values : Nat → K) {j : Nat}
    (hj : j < unit.localNumel i rank) :
    unit.shardValue (unit.updateShard rank i values state) i j = values j :=
  Memory.read_write_self hj values

variable [Zero K]

theorem Sound.resetShardedParam (h : Sound config state) (rank : Rank) (i : Fin unit.count)
    (values : Nat → K) : Sound config (unit.resetShardedParam rank i values state) := by
  have hfresh : ∀ j, ((unit.resetShardedParam rank i values state).shardedParamData j).storage =
      if j = i then state.memory.next else (state.shardedParamData j).storage := by
    intro j
    by_cases hj : j = i
    · subst hj
      simp [ParamGroup.resetShardedParam, Memory.fresh]
    · simp [ParamGroup.resetShardedParam, hj]
  have hother : ∀ j, j ≠ i →
      (unit.resetShardedParam rank i values state).shardedParamData j = state.shardedParamData j :=
    fun j hj => by simp [ParamGroup.resetShardedParam, hj]
  constructor
  case shard_lt =>
    intro j
    rw [hfresh]
    have hnext : (unit.resetShardedParam rank i values state).memory.next =
      state.memory.next + 1 := rfl
    have hlt := h.shard_lt j
    split <;> omega
  case flat_lt => exact fun key flat hflat => (h.flat_lt key flat hflat).trans (Nat.lt_succ_self _)
  case sole_lt => exact fun j buffer hbuffer => (h.sole_lt j buffer hbuffer).trans (Nat.lt_succ_self _)
  case shards_apart =>
    intro j k hjk hstorage
    have hj := h.shard_lt j
    have hk := h.shard_lt k
    rw [hfresh, hfresh] at hstorage
    by_cases hji : j = i
    · rw [if_pos hji, if_neg fun hki => hjk (hji.trans hki.symm)] at hstorage
      omega
    · by_cases hki : k = i
      · rw [if_neg hji, if_pos hki] at hstorage
        omega
      · rw [hother j hji, hother k hki]
        rw [if_neg hji, if_neg hki] at hstorage
        exact h.shards_apart j k hjk hstorage
  case flat_at =>
    intro bucket hbucket flat hflat
    obtain ⟨hzero, hdtype, hslots⟩ := h.flat_at bucket hbucket flat hflat
    refine ⟨hzero, hdtype, fun entry hentry hstorage => ?_⟩
    have hlt := h.flat_lt _ _ hflat
    rw [hfresh] at hstorage
    by_cases hi : entry.1 = i
    · rw [if_pos hi] at hstorage
      omega
    · rw [if_neg hi] at hstorage
      rw [hother _ hi]
      exact hslots entry hentry hstorage
  case sole_shard =>
    intro j hj
    constructor
    · by_cases hji : j = i
      · subst hji
        simp [ParamGroup.resetShardedParam, Memory.fresh]
      · rw [hother j hji]
        exact (h.sole_shard j hj).1
    · intro k hkj
      have hlt := h.shard_lt j
      have hlt' := h.shard_lt k
      have hne := (h.sole_shard j hj).2 k hkj
      rw [hfresh, hfresh]
      split <;> split <;> omega
  case sole_buffer => exact h.sole_buffer
  case sole_apart =>
    intro j buffer hbuffer k hstorage
    have hlt := h.sole_lt j buffer hbuffer
    rw [hfresh] at hstorage
    by_cases hki : k = i
    · rw [if_pos hki] at hstorage
      omega
    · rw [if_neg hki] at hstorage
      obtain ⟨rfl, hplace, heq⟩ := h.sole_apart j buffer hbuffer k hstorage
      exact ⟨rfl, hplace, by rw [hother _ hki]; exact heq⟩
  case sole_distinct => exact h.sole_distinct

theorem shardValue_resetShardedParam (rank : Rank) (i : Fin unit.count) (values : Nat → K)
    {j : Nat} (hj : j < unit.localNumel i rank) :
    unit.shardValue (unit.resetShardedParam rank i values state) i j = values j := by
  simp only [shardValue, ParamGroup.resetShardedParam, Function.update_self,
    Memory.read_alloc_fresh, padded, if_pos hj]

/-! ## The flat buffer -/

theorem shardedParamData_flat {bucket : BucketKey × List (Fin unit.count)}
    (hnodup : bucket.2.Nodup) (storage : Nat) (shards : Fin unit.count → Slice) :
    (∀ i, i ∉ bucket.2 → (Packing.layoutFrom unit.paddedNumel 0 bucket.2).foldl
        (fun shards entry => Function.update shards entry.1 (Slice.mk storage entry.2)) shards i =
          shards i) ∧
      ∀ entry ∈ Packing.layoutFrom unit.paddedNumel 0 bucket.2,
        (Packing.layoutFrom unit.paddedNumel 0 bucket.2).foldl
          (fun shards entry => Function.update shards entry.1 (Slice.mk storage entry.2)) shards
            entry.1 = ⟨storage, entry.2⟩ := by
  constructor
  · intro i hi
    exact foldl_update_of_notMem (fun entry : Fin unit.count × Nat => Slice.mk storage entry.2)
      (by rwa [Packing.map_fst_layoutFrom]) shards
  · intro entry hentry
    exact foldl_update_of_mem (fun entry : Fin unit.count × Nat => Slice.mk storage entry.2)
      (by rwa [Packing.map_fst_layoutFrom]) hentry shards

theorem layoutFrom_apart {params : List (Fin unit.count)} (hnodup : params.Nodup)
    {entry entry' : Fin unit.count × Nat} {start : Nat}
    (h : entry ∈ Packing.layoutFrom unit.paddedNumel start params)
    (h' : entry' ∈ Packing.layoutFrom unit.paddedNumel start params) (hne : entry.1 ≠ entry'.1) :
    entry.2 + unit.paddedNumel entry.1 ≤ entry'.2 ∨
      entry'.2 + unit.paddedNumel entry'.1 ≤ entry.2 := by
  induction params generalizing start with
  | nil => cases h
  | cons first rest ih =>
    rw [Packing.layoutFrom] at h h'
    rcases mem_cons.mp h with rfl | h
    · rcases mem_cons.mp h' with rfl | h'
      · exact absurd rfl hne
      · exact .inl (Packing.le_of_mem_layoutFrom h').1
    · rcases mem_cons.mp h' with rfl | h'
      · exact .inr (Packing.le_of_mem_layoutFrom h).1
      · exact ih (nodup_cons.mp hnodup).2 h h'

theorem Sound.rebase (h : Sound config state) {bucket : BucketKey × List (Fin unit.count)}
    (hbucket : bucket ∈ unit.allGatherBuckets config) (hdtype : Homogeneous config bucket.2)
    (hstate : state' = { state with
      memory := state.memory.alloc (Packing.pack unit.paddedNumel (unit.shardValue state) bucket.2)
      shardedParamData := (Packing.layoutFrom unit.paddedNumel 0 bucket.2).foldl
        (fun shards entry => Function.update shards entry.1 ⟨state.memory.fresh.storage, entry.2⟩)
        state.shardedParamData
      flatParamBuffer :=
        Function.update state.flatParamBuffer bucket.1 (some state.memory.fresh) }) :
    Sound config state' ∧ SameShards state state' := by
  have hnodup := bucket_nodup hbucket
  obtain ⟨hout, hslot⟩ := shardedParamData_flat hnodup state.memory.fresh.storage
    state.shardedParamData
  have hnext : state'.memory.next = state.memory.next + 1 := by rw [hstate]; rfl
  have hdata : ∀ i, (i ∉ bucket.2 ∧ state'.shardedParamData i = state.shardedParamData i) ∨
      ∃ offset, (i, offset) ∈ Packing.layoutFrom unit.paddedNumel 0 bucket.2 ∧
        state'.shardedParamData i = ⟨state.memory.next, offset⟩ := by
    intro i
    by_cases hi : i ∈ bucket.2
    · obtain ⟨offset, hentry⟩ := @Packing.exists_mem_layoutFrom _ unit.paddedNumel 0 _ _ hi
      exact .inr ⟨offset, hentry, by rw [hstate]; exact hslot _ hentry⟩
    · exact .inl ⟨hi, by rw [hstate]; exact hout i hi⟩
  have hsole : state'.soleParamBuffer = state.soleParamBuffer := by rw [hstate]
  have hflat : state'.flatParamBuffer =
      Function.update state.flatParamBuffer bucket.1 (some state.memory.fresh) := by rw [hstate]
  constructor
  · constructor
    case shard_lt =>
      intro i
      have hlt := h.shard_lt i
      rcases hdata i with ⟨-, heq⟩ | ⟨offset, -, heq⟩
      · rw [heq]; omega
      · rw [heq, hnext]; exact Nat.lt_succ_self _
    case flat_lt =>
      intro key flat hget
      rw [hflat] at hget
      by_cases hkey : key = bucket.1
      · subst hkey
        rw [Function.update_self] at hget
        cases hget
        rw [hnext]
        exact Nat.lt_succ_self _
      · rw [Function.update_of_ne hkey] at hget
        have hlt := h.flat_lt key flat hget
        omega
    case sole_lt =>
      intro i buffer hbuffer
      rw [hsole] at hbuffer
      have hlt := h.sole_lt i buffer hbuffer
      omega
    case shards_apart =>
      intro i j hij hstorage
      have hi := h.shard_lt i
      have hj := h.shard_lt j
      rcases hdata i with ⟨-, heq⟩ | ⟨offset, hentry, heq⟩ <;>
        rcases hdata j with ⟨-, heq'⟩ | ⟨offset', hentry', heq'⟩ <;>
        rw [heq, heq'] at hstorage ⊢
      · exact h.shards_apart i j hij hstorage
      · dsimp only at hstorage
        omega
      · dsimp only at hstorage
        omega
      · exact layoutFrom_apart hnodup hentry hentry' hij
    case flat_at =>
      intro other hother flat hget
      rw [hflat] at hget
      by_cases hkey : other.1 = bucket.1
      · rw [hkey, Function.update_self] at hget
        cases hget
        have hsame : other.2 = bucket.2 := by
          rw [(mem_allGatherBuckets.mp hother).2, (mem_allGatherBuckets.mp hbucket).2, hkey]
        refine ⟨rfl, hsame ▸ hdtype, fun entry hentry _ => ?_⟩
        rw [hsame] at hentry
        rw [hstate]
        exact congrArg Slice.offset (hslot entry hentry)
      · rw [Function.update_of_ne hkey] at hget
        obtain ⟨hzero, hdtype', hslots⟩ := h.flat_at other hother flat hget
        refine ⟨hzero, hdtype', fun entry hentry hstorage => ?_⟩
        have hlt := h.flat_lt _ _ hget
        rcases hdata entry.1 with ⟨-, heq⟩ | ⟨offset, -, heq⟩
        · rw [heq] at hstorage ⊢
          exact hslots entry hentry hstorage
        · rw [heq] at hstorage
          dsimp only at hstorage
          omega
    case sole_shard =>
      intro i hi
      rcases hdata i with ⟨-, heq⟩ | ⟨offset, hentry, -⟩
      · rw [heq]
        refine ⟨(h.sole_shard i hi).1, fun j hji => ?_⟩
        have hlt := h.shard_lt i
        rcases hdata j with ⟨-, heq'⟩ | ⟨offset, -, heq'⟩
        · rw [heq']
          exact (h.sole_shard i hi).2 j hji
        · rw [heq']
          dsimp only
          omega
      · exact absurd ((mem_bucket_iff hbucket).mp (Packing.mem_of_mem_layoutFrom hentry)).1 hi
    case sole_buffer => rw [hsole]; exact h.sole_buffer
    case sole_apart =>
      intro i buffer hbuffer j hstorage
      rw [hsole] at hbuffer
      have hlt := h.sole_lt i buffer hbuffer
      rcases hdata j with ⟨-, heq⟩ | ⟨offset, -, heq⟩
      · rw [heq] at hstorage
        obtain ⟨rfl, hplace, hbuffer'⟩ := h.sole_apart i buffer hbuffer j hstorage
        exact ⟨rfl, hplace, by rw [heq]; exact hbuffer'⟩
      · rw [heq] at hstorage
        dsimp only at hstorage
        omega
    case sole_distinct => rw [hsole]; exact h.sole_distinct
  · intro i j hj
    rcases hdata i with ⟨-, heq⟩ | ⟨offset, hentry, heq⟩
    · rw [shardValue, heq, hstate]
      exact Memory.read_alloc_of_lt (h.shard_lt i) _ j
    · rw [shardValue, heq, hstate]
      have hpack := @Packing.pack_of_mem_layoutFrom _ K unit.paddedNumel _ (unit.shardValue state)
        0 _ _ hentry j hj
      rw [Nat.sub_zero] at hpack
      rw [Memory.read_alloc_at rfl]
      exact hpack

omit [Zero K] in
theorem Sound.dropFlat (h : Sound config state) (key : BucketKey) :
    Sound config { state with flatParamBuffer := Function.update state.flatParamBuffer key none } := by
  have hflat : ∀ key' flat, Function.update state.flatParamBuffer key none key' = some flat →
      state.flatParamBuffer key' = some flat := by
    intro key' flat hget
    by_cases hkey : key' = key
    · subst hkey
      simp at hget
    · rwa [Function.update_of_ne hkey] at hget
  exact { h with
    flat_lt := fun key' flat hget => h.flat_lt key' flat (hflat key' flat hget)
    flat_at := fun bucket hbucket flat hget => h.flat_at bucket hbucket flat (hflat _ flat hget) }

structure SameRest (state state' : RankState K unit.count) : Prop where
  output : state'.allGatherOutput = state.allGatherOutput
  sole : state'.soleParamBuffer = state.soleParamBuffer
  gathered : state'.gatheredParamBuffer = state.gatheredParamBuffer
  unsharded : state'.unsharded = state.unsharded
  old : ∀ slice : Slice, slice.storage < state.memory.next →
    slice.storage < state'.memory.next ∧ ∀ j, state'.memory.read slice j = state.memory.read slice j

omit [Zero K] in
theorem SameRest.refl (state : RankState K unit.count) : SameRest state state :=
  ⟨rfl, rfl, rfl, rfl, fun _ hlt => ⟨hlt, fun _ => rfl⟩⟩

omit [Zero K] in
theorem SameRest.trans {state'' : RankState K unit.count} (h : SameRest state state')
    (h' : SameRest state' state'') : SameRest state state'' :=
  ⟨h'.output.trans h.output, h'.sole.trans h.sole, h'.gathered.trans h.gathered,
    h'.unsharded.trans h.unsharded, fun slice hlt => by
      obtain ⟨hlt', hread⟩ := h.old slice hlt
      obtain ⟨hlt'', hread'⟩ := h'.old slice hlt'
      exact ⟨hlt'', fun j => (hread' j).trans (hread j)⟩⟩

theorem initFlatParamBuffer_spec (h : Sound config state)
    (hbucket : bucket ∈ unit.allGatherBuckets config) :
    Sound config (unit.initFlatParamBuffer config state bucket) ∧
      SameShards state (unit.initFlatParamBuffer config state bucket) ∧
      SameRest state (unit.initFlatParamBuffer config state bucket) := by
  obtain ⟨key, params⟩ := bucket
  cases params with
  | nil => exact ⟨h, .refl state, .refl state⟩
  | cons first rest =>
    simp only [ParamGroup.initFlatParamBuffer]
    split
    · exact ⟨h.dropFlat key, .refl _, ⟨rfl, rfl, rfl, rfl, fun _ hlt => ⟨hlt, fun _ => rfl⟩⟩⟩
    · rename_i hsame
      rw [not_or] at hsame
      have hfirst : ∀ i ∈ first :: rest, config.origDtype i = config.origDtype first := by
        intro i hi
        rcases mem_cons.mp hi with rfl | hi
        · rfl
        · by_contra hne
          exact hsame.1 (any_eq_true.mpr ⟨i, hi, decide_eq_true hne⟩)
      have hdtype : Homogeneous config (first :: rest) := fun i hi j hj =>
        (hfirst i hi).trans (hfirst j hj).symm
      obtain ⟨hsound, hshards⟩ := h.rebase hbucket hdtype rfl
      exact ⟨hsound, hshards, ⟨rfl, rfl, rfl, rfl, fun _ hlt =>
        ⟨hlt.trans (Nat.lt_succ_self _), fun j => Memory.read_alloc_of_lt hlt _ j⟩⟩⟩

/-! ## What is sent -/

def RowOf (config : UnshardConfig K unit.count) (state : RankState K unit.count)
    (bucket : BucketKey × List (Fin unit.count)) (row : Nat → K) : Prop :=
  ∀ entry ∈ Packing.layoutFrom unit.paddedNumel 0 bucket.2, ∀ j < unit.paddedNumel entry.1,
    row (entry.2 + j) = config.convert entry.1 (unit.shardValue state entry.1 j)

omit [Zero K] in
theorem isFlatBufferValid_eq_some {flat : Slice}
    (h : unit.isFlatBufferValid state bucket = some flat) :
    state.flatParamBuffer bucket.1 = some flat ∧
      ∀ i ∈ bucket.2, (state.shardedParamData i).storage = flat.storage := by
  unfold ParamGroup.isFlatBufferValid at h
  split at h
  · cases h
  · rename_i flat' hflat
    split at h
    · rename_i hall
      cases h
      exact ⟨hflat, fun i hi => by simpa using all_eq_true.mp hall i hi⟩
    · cases h

theorem allGatherInput_spec (h : Sound config state)
    (hbucket : bucket ∈ unit.allGatherBuckets config)
    (hsharded : ∀ i ∈ bucket.2, state.unsharded i = false) :
    ∃ row, unit.allGatherInput config state bucket = .ok row ∧ RowOf config state bucket row := by
  have hcopy : RowOf config state bucket (Packing.pack unit.paddedNumel
      (fun i j => config.convert i (unit.shardValue state i j)) bucket.2) := by
    intro entry hentry j hj
    have hpack := @Packing.pack_of_mem_layoutFrom _ K unit.paddedNumel _
      (fun i j => config.convert i (unit.shardValue state i j)) 0 _ _ hentry j hj
    rwa [Nat.sub_zero] at hpack
  unfold ParamGroup.allGatherInput
  cases hflat : if config.enableZeroCopy then unit.isFlatBufferValid state bucket else none with
  | none =>
    refine ⟨_, if_neg ?_, hcopy⟩
    rw [Bool.not_eq_true, any_eq_false]
    exact fun i hi => by simp [hsharded i hi]
  | some flat =>
    refine ⟨_, rfl, fun entry hentry j hj => ?_⟩
    have hvalid : unit.isFlatBufferValid state bucket = some flat := by
      split at hflat
      · exact hflat
      · cases hflat
    obtain ⟨hget, hstorage⟩ := isFlatBufferValid_eq_some hvalid
    obtain ⟨hzero, hdtype, hslots⟩ := h.flat_at bucket hbucket flat hget
    have hmem := Packing.mem_of_mem_layoutFrom hentry
    have hplace := hslots entry hentry (hstorage _ hmem)
    have hread : state.memory.read flat (entry.2 + j) = unit.shardValue state entry.1 j := by
      rw [shardValue, Memory.read, Memory.read, hstorage _ hmem, hplace, hzero, Nat.zero_add]
    have hkey : config.communicationDtype entry.1 = bucket.1.2 :=
      congrArg Prod.snd ((mem_bucket_iff hbucket).mp hmem).2
    split
    · rename_i hnil
      rw [hnil] at hmem
      cases hmem
    · rename_i first rest hcons
      have hfirst : config.origDtype first = config.origDtype entry.1 :=
        hdtype first (by simp [hcons]) entry.1 hmem
      rw [hread, hfirst, ← hkey]
      rfl

theorem launchBucket_spec (h : Sound config state) (hbucket : bucket ∈ unit.allGatherBuckets config)
    (hsharded : ∀ i ∈ bucket.2, state.unsharded i = false) :
    ∃ state' row, unit.launchBucket config state bucket = .ok (state', bucket.1, row) ∧
      Sound config state' ∧ SameShards state state' ∧ SameRest state state' ∧
        RowOf config state bucket row := by
  obtain ⟨state', hstate', hsound, hshards, hrest⟩ : ∃ state', state' =
      (if config.enableZeroCopy ∧ unit.isFlatBufferValid state bucket = none then
        unit.initFlatParamBuffer config state bucket else state) ∧
      Sound config state' ∧ SameShards state state' ∧ SameRest state state' := by
    refine ⟨_, rfl, ?_⟩
    split
    · exact initFlatParamBuffer_spec h hbucket
    · exact ⟨h, .refl state, .refl state⟩
  obtain ⟨row, hrow, hspec⟩ := allGatherInput_spec hsound hbucket
    fun i hi => by rw [hrest.unsharded]; exact hsharded i hi
  refine ⟨state', row, ?_, hsound, hshards, hrest, fun entry hentry j hj => ?_⟩
  · simp only [ParamGroup.launchBucket, ← hstate', hrow]
    rfl
  · rw [hspec entry hentry j hj, hshards entry.1 j hj]

theorem launchBuckets_spec (buckets : List (BucketKey × List (Fin unit.count)))
    (hbuckets : ∀ bucket ∈ buckets, bucket ∈ unit.allGatherBuckets config)
    (hsharded : ∀ i, state.unsharded i = false) (h : Sound config state) :
    ∃ state' rows, unit.launchBuckets config state buckets = .ok (state', rows) ∧
      Sound config state' ∧ SameShards state state' ∧ SameRest state state' ∧
        Forall₂ (fun bucket entry => entry.1 = bucket.1 ∧ RowOf config state bucket entry.2)
          buckets rows := by
  induction buckets generalizing state with
  | nil => exact ⟨state, [], rfl, h, .refl state, .refl state, .nil⟩
  | cons bucket buckets ih =>
    obtain ⟨middle, row, hrow, hsound, hshards, hrest, hspec⟩ :=
      launchBucket_spec h (hbuckets bucket (by simp)) fun i _ => hsharded i
    obtain ⟨last, rows, hrows, hsound', hshards', hrest', hspecs⟩ :=
      ih (fun other hother => hbuckets other (by simp [hother]))
        (fun i => by rw [hrest.unsharded]; exact hsharded i) hsound
    refine ⟨last, (bucket.1, row) :: rows, ?_, hsound', hshards.trans hshards',
      hrest.trans hrest', .cons ⟨rfl, hspec⟩ (hspecs.imp fun other entry hentry => ?_)⟩
    · simp only [ParamGroup.launchBuckets, hrow, Bind.bind, Except.bind, hrows]
      rfl
    · refine ⟨hentry.1, fun slot hslot j hj => ?_⟩
      rw [hentry.2 slot hslot j hj, hshards slot.1 j hj]

end ParamGroup

end HyperParallel.FullyShard
