import HyperParallel.FullyShard.UnshardSteps

/-!
# What launching, waiting and sharding again amount to

Launching fills the buffer of every parameter one rank holds and sends a row for
every bucket.  Waiting unpacks the rows.  Sharding again loses no shard, so that the
next unshard starts as the first one did.
-/

namespace HyperParallel.FullyShard

open Foundation Foundation.StorageHeap List

namespace ParamGroup

variable {Rank : Type} [DecidableEq Rank] {unit : ParamGroup Rank} {K : Type}
  {config : UnshardConfig K unit.count} {state state' : RankState K unit.count}
  {i j : Fin unit.count}

/-! ## Parameters that one rank holds -/

def Filled (config : UnshardConfig K unit.count) (origin state : RankState K unit.count)
    (i : Fin unit.count) : Prop :=
  ∃ buffer, state.soleParamBuffer i = some buffer ∧
    ∀ k < unit.paddedNumel i,
      state.memory.read buffer k = config.convert i (unit.shardValue origin i k)

structure SameGathers (state state' : RankState K unit.count) : Prop where
  output : state'.allGatherOutput = state.allGatherOutput
  gathered : state'.gatheredParamBuffer = state.gatheredParamBuffer
  unsharded : state'.unsharded = state.unsharded

theorem SameGathers.trans {state'' : RankState K unit.count} (h : SameGathers state state')
    (h' : SameGathers state' state'') : SameGathers state state'' :=
  ⟨h'.output.trans h.output, h'.gathered.trans h.gathered, h'.unsharded.trans h.unsharded⟩

theorem SameRest.sameGathers (h : SameRest state state') : SameGathers state state' :=
  ⟨h.output, h.gathered, h.unsharded⟩

theorem Filled.of_sameShards {origin origin' : RankState K unit.count}
    (h : Filled config origin' state i) (hshards : SameShards origin origin') :
    Filled config origin state i := by
  obtain ⟨buffer, hbuffer, hread⟩ := h
  exact ⟨buffer, hbuffer, fun k hk => by rw [hread k hk, hshards i k hk]⟩

theorem Filled.of_sameRest {origin : RankState K unit.count} (h : Filled config origin state i)
    (hsound : Sound config state) (hrest : SameRest state state') :
    Filled config origin state' i := by
  obtain ⟨buffer, hbuffer, hread⟩ := h
  exact ⟨buffer, by rw [hrest.sole, hbuffer], fun k hk => by
    rw [(hrest.old buffer (hsound.sole_lt i buffer hbuffer)).2 k, hread k hk]⟩

section

variable (h : Sound config state)

include h

theorem soleInput_spec (hsole : ¬1 < unit.shardWorldSize i) :
    ∃ memory input, (if config.inPlace i then (state.memory, state.shardedParamData i)
        else (state.memory.alloc fun k => config.convert i (unit.shardValue state i k),
          state.memory.fresh)) = (memory, input) ∧
      Sound config { state with memory := memory } ∧
      SameShards state { state with memory := memory } ∧
      (∀ slice : Slice, slice.storage < state.memory.next → ∀ k,
        memory.read slice k = state.memory.read slice k) ∧
      (∀ k, memory.read input k = config.convert i (unit.shardValue state i k)) ∧
      input.offset = 0 ∧ input.storage < memory.next ∧
      (∀ j, (state.shardedParamData j).storage = input.storage →
        j = i ∧ config.inPlace i ∧ input = state.shardedParamData i) ∧
      ∀ j buffer, j ≠ i → state.soleParamBuffer j = some buffer →
        buffer.storage ≠ input.storage := by
  by_cases hplace : config.inPlace i
  · refine ⟨_, _, if_pos hplace, h, .refl state, fun _ _ _ => rfl, fun k => ?_,
      (h.sole_shard i hsole).1, h.shard_lt i, fun j hj => ⟨?_, hplace, rfl⟩, ?_⟩
    · have hdtype : config.origDtype i = config.communicationDtype i := by
        simp only [UnshardConfig.inPlace, Bool.and_eq_true, decide_eq_true_eq] at hplace
        exact hplace.1.symm
      rw [UnshardConfig.convert, UnshardConfig.toDtype, if_pos hdtype]
      rfl
    · by_contra hne
      exact (h.sole_shard i hsole).2 j hne hj
    · intro j buffer hji hbuffer heq
      exact hji (h.sole_apart j buffer hbuffer i heq.symm).1.symm
  · refine ⟨_, _, if_neg hplace, h.alloc _, sameShards_alloc h _,
      fun slice hlt k => Memory.read_alloc_of_lt hlt _ k, Memory.read_alloc_fresh _, rfl,
      Nat.lt_succ_self _, fun j hj => ?_, fun j buffer _ hbuffer heq => ?_⟩
    · exact absurd hj (Nat.ne_of_lt (h.shard_lt j))
    · exact absurd heq (Nat.ne_of_lt (h.sole_lt j buffer hbuffer))

theorem sameShards_write {buffer : Slice} (hbuffer : state.soleParamBuffer i = some buffer)
    (hne : buffer ≠ state.shardedParamData i) (length : Nat) (values : Nat → K) :
    SameShards state { state with memory := state.memory.write buffer length values } := by
  intro j k hk
  refine Memory.read_write_of_apart (fun hstorage => ?_) hk values
  exact absurd (h.sole_apart i buffer hbuffer j hstorage.symm).2.2 hne

theorem read_write_other {buffer buffer' : Slice} (hbuffer : state.soleParamBuffer i = some buffer)
    (hbuffer' : state.soleParamBuffer j = some buffer') (hne : j ≠ i) (length : Nat)
    (values : Nat → K) (k : Nat) :
    (state.memory.write buffer length values).read buffer' k = state.memory.read buffer' k := by
  refine @Memory.read_write_of_apart _ _ _ _ _ (k + 1) _ (fun hstorage => ?_) (Nat.lt_succ_self k)
    values
  exact absurd hstorage.symm (h.sole_distinct j i _ _ hne hbuffer' hbuffer)

theorem Sound.adopt (hsole : ¬1 < unit.shardWorldSize i) {input : Slice} (hzero : input.offset = 0)
    (hlt : input.storage < state.memory.next)
    (hshards : ∀ j, (state.shardedParamData j).storage = input.storage →
      j = i ∧ config.inPlace i ∧ input = state.shardedParamData i)
    (hothers : ∀ j buffer, j ≠ i → state.soleParamBuffer j = some buffer →
      buffer.storage ≠ input.storage) :
    Sound config { state with
      soleParamBuffer := Function.update state.soleParamBuffer i (some input) } := by
  have hget : ∀ j buffer, Function.update state.soleParamBuffer i (some input) j = some buffer →
      (j = i ∧ buffer = input) ∨ (j ≠ i ∧ state.soleParamBuffer j = some buffer) := by
    intro j buffer hj
    by_cases hji : j = i
    · subst hji
      rw [Function.update_self] at hj
      exact .inl ⟨rfl, (Option.some.inj hj).symm⟩
    · rw [Function.update_of_ne hji] at hj
      exact .inr ⟨hji, hj⟩
  refine { h with sole_lt := ?_, sole_buffer := ?_, sole_apart := ?_, sole_distinct := ?_ }
  · intro j buffer hbuffer
    rcases hget j buffer hbuffer with ⟨rfl, rfl⟩ | ⟨-, hold⟩
    · exact hlt
    · exact h.sole_lt j buffer hold
  · intro j buffer hbuffer
    rcases hget j buffer hbuffer with ⟨rfl, rfl⟩ | ⟨-, hold⟩
    · exact ⟨hzero, hsole⟩
    · exact h.sole_buffer j buffer hold
  · intro j buffer hbuffer k hstorage
    rcases hget j buffer hbuffer with ⟨rfl, rfl⟩ | ⟨-, hold⟩
    · exact hshards k hstorage
    · exact h.sole_apart j buffer hold k hstorage
  · intro j k buffer buffer' hjk hbuffer hbuffer'
    rcases hget j buffer hbuffer with ⟨rfl, rfl⟩ | ⟨hji, hold⟩ <;>
      rcases hget k buffer' hbuffer' with ⟨rfl, rfl⟩ | ⟨hki, hold'⟩
    · exact absurd rfl hjk
    · exact (hothers k buffer' hki hold').symm
    · exact hothers j buffer hji hold
    · exact h.sole_distinct j k buffer buffer' hjk hold hold'

theorem unshardSole_spec (hsharded : state.unsharded i = false) :
    ∃ state', unit.unshardSole config state i = .ok state' ∧ Sound config state' ∧
      SameShards state state' ∧ SameGathers state state' ∧
      (¬1 < unit.shardWorldSize i → Filled config state state' i) ∧
      ∀ j, j ≠ i → Filled config state state j → Filled config state state' j := by
  by_cases hsize : 1 < unit.shardWorldSize i
  · exact ⟨state, if_pos hsize, h, .refl state, ⟨rfl, rfl, rfl⟩, fun hsole => absurd hsize hsole,
      fun _ _ hfilled => hfilled⟩
  obtain ⟨memory, input, hinput, hsound, hshards, hold, hread, hzero, hlt, hplace, hothers⟩ :=
    soleInput_spec h hsize
  -- the memory after the input is made keeps what the other buffers have
  have hkept : ∀ j, Filled config state state j →
      Filled config state { state with memory := memory } j := by
    rintro j ⟨buffer, hbuffer, hfilled⟩
    exact ⟨buffer, hbuffer, fun k hk => by
      rw [hold buffer (h.sole_lt j buffer hbuffer) k, hfilled k hk]⟩
  rw [ParamGroup.unshardSole, if_neg hsize, if_neg (by rw [hsharded]; exact Bool.false_ne_true),
    hinput]
  cases hbuffer : state.soleParamBuffer i with
  | none =>
    refine ⟨_, rfl, hsound.adopt hsize hzero hlt hplace hothers, hshards, ⟨rfl, rfl, rfl⟩,
      fun _ => ⟨input, Function.update_self .., fun k _ => hread k⟩, fun j hji hfilled => ?_⟩
    obtain ⟨buffer, hget, hk⟩ := hkept j hfilled
    exact ⟨buffer, by rw [← hget]; exact Function.update_of_ne hji .., hk⟩
  | some buffer =>
    by_cases heq : buffer = input
    · exact ⟨_, if_pos heq, hsound, hshards, ⟨rfl, rfl, rfl⟩,
        fun _ => ⟨buffer, hbuffer, fun k _ => by rw [heq]; exact hread k⟩,
        fun j _ hfilled => hkept j hfilled⟩
    · have hne : buffer ≠ state.shardedParamData i := by
        intro hshard
        have hapart := h.sole_apart i buffer hbuffer i (congrArg Slice.storage hshard).symm
        rw [if_pos hapart.2.1] at hinput
        exact heq (hshard.trans (congrArg Prod.snd hinput))
      refine ⟨_, if_neg heq, hsound.write _ _ _,
        hshards.trans (sameShards_write hsound hbuffer hne _ _), ⟨rfl, rfl, rfl⟩,
        fun _ => ⟨buffer, hbuffer, fun k hk => ?_⟩, fun j hji hfilled => ?_⟩
      · rw [← hread k]
        exact Memory.read_write_self hk _
      · obtain ⟨buffer', hget, hk⟩ := hkept j hfilled
        refine ⟨buffer', hget, fun k hk' => ?_⟩
        rw [← hk k hk']
        exact read_write_other hsound hbuffer hget hji _ _ k

end

theorem notMem_of_finRange_eq {count : Nat} {i : Fin count} {seen rest : List (Fin count)}
    (h : finRange count = seen ++ i :: rest) : i ∉ seen := fun hi => by
  have hnodup := List.nodup_finRange count
  rw [h, List.nodup_append] at hnodup
  exact hnodup.2.2 i hi i mem_cons_self rfl

theorem unshardSoles_spec (h : Sound config state) (hsharded : ∀ i, state.unsharded i = false) :
    ∃ state', (finRange unit.count).foldlM (unit.unshardSole config) state = .ok state' ∧
      Sound config state' ∧ SameShards state state' ∧ SameGathers state state' ∧
      ∀ i, ¬1 < unit.shardWorldSize i → Filled config state state' i := by
  suffices hloop : ∃ state', (finRange unit.count).foldlM (unit.unshardSole config) state =
      .ok state' ∧ Sound config state' ∧ SameShards state state' ∧ SameGathers state state' ∧
        ∀ i ∈ finRange unit.count, ¬1 < unit.shardWorldSize i → Filled config state state' i by
    obtain ⟨state', hrun, hsound, hshards, hsame, hfilled⟩ := hloop
    exact ⟨state', hrun, hsound, hshards, hsame, fun i hi => hfilled i (mem_finRange i) hi⟩
  refine exists_foldlM (fun seen next => Sound config next ∧ SameShards state next ∧
    SameGathers state next ∧ ∀ i ∈ seen, ¬1 < unit.shardWorldSize i →
      Filled config state next i) ?_ ⟨h, .refl state, ⟨rfl, rfl, rfl⟩, by simp⟩
  rintro seen i rest next hparams ⟨hsound, hshards, hsame, hfilled⟩
  have hfresh : i ∉ seen := notMem_of_finRange_eq hparams
  obtain ⟨last, hstep, hsound', hshards', hsame', hself, hothers⟩ :=
    unshardSole_spec (i := i) hsound (by rw [hsame.unsharded]; exact hsharded i)
  refine ⟨last, hstep, hsound', hshards.trans hshards', hsame.trans hsame', fun j hj hsole => ?_⟩
  rcases mem_append.mp hj with hj | hj
  · have hji : j ≠ i := fun heq => hfresh (heq ▸ hj)
    have hnext : Filled config next next j := by
      obtain ⟨buffer, hbuffer, hread⟩ := hfilled j hj hsole
      exact ⟨buffer, hbuffer, fun k hk => by rw [hread k hk, hshards j k hk]⟩
    exact (hothers j hji hnext).of_sameShards hshards
  · rw [mem_singleton] at hj
    subst hj
    exact (hself hsole).of_sameShards hshards

/-! ## Launching -/

variable [Zero K]

structure Ready (config : UnshardConfig K unit.count) (state : RankState K unit.count) :
    Prop where
  sound : Sound config state
  sharded : ∀ i, state.unsharded i = false
  idle : ∀ bucket ∈ unit.allGatherBuckets config, state.allGatherOutput bucket.1 = none

variable {bucket : BucketKey × List (Fin unit.count)}

omit [Zero K] in
theorem exists_lookup_row {buckets : List (BucketKey × List (Fin unit.count))}
    {rows : List (BucketKey × (Nat → K))}
    (h : List.Forall₂ (fun bucket entry => entry.1 = bucket.1 ∧ RowOf config state bucket entry.2)
      buckets rows) (hnodup : (buckets.map Prod.fst).Nodup)
    (hbucket : bucket ∈ buckets) :
    ∃ row, rows.lookup bucket.1 = some row ∧ RowOf config state bucket row := by
  induction h with
  | nil => cases hbucket
  | @cons first entry buckets rows hfirst hrest ih =>
    rw [map_cons, nodup_cons] at hnodup
    obtain ⟨key, row⟩ := entry
    obtain ⟨rfl, hrow⟩ := hfirst
    rcases mem_cons.mp hbucket with rfl | hbucket
    · exact ⟨row, by rw [lookup_cons_self], hrow⟩
    · have hne : bucket.1 ≠ first.1 := fun heq => hnodup.1 (heq ▸ mem_map_of_mem hbucket)
      rw [lookup_cons, beq_eq_false_iff_ne.mpr hne]
      exact ih hnodup.2 hbucket

theorem launch_spec (h : Ready config state) :
    ∃ state' rows, unit.launch config state = .ok (state', rows) ∧ Sound config state' ∧
      SameShards state state' ∧ SameGathers state state' ∧
      (∀ i, ¬1 < unit.shardWorldSize i → Filled config state state' i) ∧
      ∀ bucket ∈ unit.allGatherBuckets config, ∃ row, rows.lookup bucket.1 = some row ∧
        RowOf config state bucket row := by
  have hpending : ((unit.allGatherBuckets config).any fun bucket =>
      (state.allGatherOutput bucket.1).isSome) = false := by
    rw [any_eq_false]
    exact fun bucket hbucket => by simp [h.idle bucket hbucket]
  obtain ⟨middle, hsoles, hsound, hshards, hsame, hfilled⟩ := unshardSoles_spec h.sound h.sharded
  obtain ⟨last, rows, hrows, hsound', hshards', hrest, hspecs⟩ :=
    launchBuckets_spec (unit.allGatherBuckets config) (fun _ hbucket => hbucket)
      (fun i => by rw [hsame.unsharded]; exact h.sharded i) hsound
  refine ⟨last, rows, ?_, hsound', hshards.trans hshards', hsame.trans hrest.sameGathers,
    fun i hi => (hfilled i hi).of_sameRest hsound hrest, fun bucket hbucket => ?_⟩
  · rw [ParamGroup.launch, hpending, if_neg Bool.false_ne_true, hsoles]
    exact hrows
  · obtain ⟨row, hlookup, hrow⟩ := exists_lookup_row hspecs bucket_keys_nodup hbucket
    refine ⟨row, hlookup, fun entry hentry j hj => ?_⟩
    rw [hrow entry hentry j hj, hshards entry.1 j hj]

/-! ## Waiting -/

structure SameMemory (state state' : RankState K unit.count) : Prop where
  memory : state'.memory = state.memory
  shards : state'.shardedParamData = state.shardedParamData
  flat : state'.flatParamBuffer = state.flatParamBuffer
  sole : state'.soleParamBuffer = state.soleParamBuffer

omit [Zero K] in
theorem SameMemory.trans {state'' : RankState K unit.count} (h : SameMemory state state')
    (h' : SameMemory state' state'') : SameMemory state state'' :=
  ⟨h'.memory.trans h.memory, h'.shards.trans h.shards, h'.flat.trans h.flat, h'.sole.trans h.sole⟩

omit [Zero K] in
theorem Sound.of_sameMemory (h : Sound config state) (hsame : SameMemory state state') :
    Sound config state' := by
  obtain ⟨memory, shards, flat, output, sole, gathered, unsharded⟩ := state
  obtain ⟨memory', shards', flat', output', sole', gathered', unsharded'⟩ := state'
  obtain ⟨rfl, rfl, rfl, rfl⟩ := hsame
  exact { h with }

omit [Zero K] in
theorem SameMemory.sameShards (h : SameMemory state state') : SameShards state state' := by
  intro i j _
  rw [shardValue, shardValue, h.memory, h.shards]

omit [Zero K] in
theorem Filled.of_sameMemory {origin : RankState K unit.count} (h : Filled config origin state i)
    (hsame : SameMemory state state') : Filled config origin state' i := by
  rw [Filled, hsame.memory, hsame.sole]
  exact h

omit [Zero K] in
theorem copyOut_sameMemory (state : RankState K unit.count)
    (bucket : BucketKey × List (Fin unit.count)) :
    SameMemory state (unit.copyOut state bucket) ∧
      (unit.copyOut state bucket).unsharded = state.unsharded := by
  unfold ParamGroup.copyOut
  split <;> exact ⟨⟨rfl, rfl, rfl, rfl⟩, rfl⟩

omit [Zero K] in
theorem copyOut_output (state : RankState K unit.count)
    (bucket : BucketKey × List (Fin unit.count)) :
    (unit.copyOut state bucket).allGatherOutput =
      Function.update state.allGatherOutput bucket.1 none := by
  unfold ParamGroup.copyOut
  split
  · rename_i hnone
    rw [← hnone, Function.update_eq_self]
  · rfl

omit [Zero K] in
theorem copyOut_gathered_of_notMem (state : RankState K unit.count)
    (hi : i ∉ bucket.2) :
    (unit.copyOut state bucket).gatheredParamBuffer i = state.gatheredParamBuffer i := by
  unfold ParamGroup.copyOut
  split
  · rfl
  · rename_i rows _
    exact foldl_update_of_notMem (fun entry : Fin unit.count × Nat =>
      some ((unit.param entry.1).unpack (unit.shardWorldSize entry.1)
        fun index j => rows index (entry.2 + j))) (by rwa [Packing.map_fst_layoutFrom]) _

omit [Zero K] in
theorem copyOut_gathered_of_mem
    (hnodup : bucket.2.Nodup) {rows : Nat → Nat → K}
    (hrows : state.allGatherOutput bucket.1 = some rows) {entry : Fin unit.count × Nat}
    (hentry : entry ∈ Packing.layoutFrom unit.paddedNumel 0 bucket.2) :
    (unit.copyOut state bucket).gatheredParamBuffer entry.1 =
      some ((unit.param entry.1).unpack (unit.shardWorldSize entry.1)
        fun index j => rows index (entry.2 + j)) := by
  unfold ParamGroup.copyOut
  rw [hrows]
  exact foldl_update_of_mem (fun entry : Fin unit.count × Nat =>
    some ((unit.param entry.1).unpack (unit.shardWorldSize entry.1)
      fun index j => rows index (entry.2 + j))) (by rwa [Packing.map_fst_layoutFrom]) hentry _

omit [Zero K] in
theorem copyOuts_spec (buckets : List (BucketKey × List (Fin unit.count)))
    (hbuckets : ∀ bucket ∈ buckets, bucket ∈ unit.allGatherBuckets config)
    (hnodup : (buckets.map Prod.fst).Nodup) (state : RankState K unit.count) :
    SameMemory state (buckets.foldl unit.copyOut state) ∧
      (buckets.foldl unit.copyOut state).unsharded = state.unsharded ∧
      (∀ key, (buckets.foldl unit.copyOut state).allGatherOutput key =
        if key ∈ buckets.map Prod.fst then none else state.allGatherOutput key) ∧
      (∀ i, (∀ bucket ∈ buckets, i ∉ bucket.2) →
        (buckets.foldl unit.copyOut state).gatheredParamBuffer i = state.gatheredParamBuffer i) ∧
      ∀ bucket ∈ buckets, ∀ rows, state.allGatherOutput bucket.1 = some rows →
        ∀ entry ∈ Packing.layoutFrom unit.paddedNumel 0 bucket.2,
          (buckets.foldl unit.copyOut state).gatheredParamBuffer entry.1 =
            some ((unit.param entry.1).unpack (unit.shardWorldSize entry.1)
              fun index j => rows index (entry.2 + j)) := by
  induction buckets generalizing state with
  | nil => exact ⟨⟨rfl, rfl, rfl, rfl⟩, rfl, fun _ => rfl, fun _ _ => rfl, by simp⟩
  | cons first rest ih =>
    rw [map_cons, nodup_cons] at hnodup
    have hother : ∀ bucket ∈ rest, bucket.1 ≠ first.1 := fun bucket hbucket heq =>
      hnodup.1 (heq ▸ mem_map_of_mem hbucket)
    obtain ⟨hmemory, hunsharded⟩ := copyOut_sameMemory state first
    obtain ⟨hmemory', hunsharded', hidle, hkept, hunpacked⟩ :=
      ih (fun bucket hbucket => hbuckets bucket (mem_cons_of_mem _ hbucket)) hnodup.2
        (unit.copyOut state first)
    have hdisjoint : ∀ i ∈ first.2, ∀ bucket ∈ rest, i ∉ bucket.2 := by
      intro i hi bucket hbucket hi'
      have hkey := ((mem_bucket_iff (hbuckets first mem_cons_self)).mp hi).2
      have hkey' := ((mem_bucket_iff (hbuckets bucket (mem_cons_of_mem _ hbucket))).mp hi').2
      exact hother bucket hbucket (hkey'.symm.trans hkey)
    rw [foldl_cons]
    refine ⟨hmemory.trans hmemory', hunsharded'.trans hunsharded, ?_, ?_, ?_⟩
    · intro key
      rw [hidle, copyOut_output, map_cons]
      by_cases hkey : key = first.1
      · subst hkey
        rw [if_neg hnodup.1, if_pos mem_cons_self, Function.update_self]
      · rw [Function.update_of_ne hkey]
        simp only [mem_cons, hkey, false_or]
    · intro i hi
      rw [hkept i fun bucket hbucket => hi bucket (mem_cons_of_mem _ hbucket)]
      exact copyOut_gathered_of_notMem state (hi first mem_cons_self)
    · intro bucket hbucket rows hrows entry hentry
      rcases mem_cons.mp hbucket with rfl | hbucket
      · rw [hkept entry.1 (hdisjoint entry.1 (Packing.mem_of_mem_layoutFrom hentry))]
        exact copyOut_gathered_of_mem (bucket_nodup (hbuckets bucket mem_cons_self)) hrows
          hentry
      · refine hunpacked bucket hbucket rows ?_ entry hentry
        rw [copyOut_output, Function.update_of_ne (hother bucket hbucket)]
        exact hrows

structure Gathered (config : UnshardConfig K unit.count) (state : RankState K unit.count) :
    Prop where
  sound : Sound config state
  unsharded : ∀ i, state.unsharded i = true
  idle : ∀ bucket ∈ unit.allGatherBuckets config, state.allGatherOutput bucket.1 = none
  sole : ∀ i, ¬1 < unit.shardWorldSize i → (state.soleParamBuffer i).isSome

omit [Zero K] in
theorem waitParams_spec (hsharded : ∀ i, state.unsharded i = false)
    (hbuffers : ∀ i, if 1 < unit.shardWorldSize i then (state.gatheredParamBuffer i).isSome
      else (state.soleParamBuffer i).isSome) :
    (List.finRange unit.count).foldlM unit.waitForUnshardParam state =
      .ok { state with unsharded := fun _ => true } := by
  suffices hloop : ∃ state', (List.finRange unit.count).foldlM unit.waitForUnshardParam state =
      .ok state' ∧ ∃ unsharded, state' = { state with unsharded := unsharded } ∧
        ∀ i, unsharded i = decide (i ∈ List.finRange unit.count) by
    obtain ⟨state', hrun, unsharded, rfl, hall⟩ := hloop
    rw [hrun]
    congr 2
    funext i
    rw [hall, decide_eq_true (mem_finRange i)]
  refine exists_foldlM (fun seen next => ∃ unsharded,
    next = { state with unsharded := unsharded } ∧ ∀ i, unsharded i = decide (i ∈ seen)) ?_
    ⟨state.unsharded, rfl, fun i => by simp [hsharded i]⟩
  rintro seen i rest _ hparams ⟨unsharded, rfl, hseen⟩
  have hfresh : i ∉ seen := notMem_of_finRange_eq hparams
  have hbuffer := hbuffers i
  refine ⟨_, ?_, Function.update unsharded i true, rfl, fun j => ?_⟩
  · rw [ParamGroup.waitForUnshardParam, if_neg (by simp [hseen, hfresh]), if_neg]
    split
    · rename_i hsize
      rw [if_pos hsize] at hbuffer
      simpa [Option.isNone_iff_eq_none, Option.isSome_iff_ne_none] using hbuffer
    · rename_i hsize
      rw [if_neg hsize] at hbuffer
      simpa [Option.isNone_iff_eq_none, Option.isSome_iff_ne_none] using hbuffer
  · by_cases hji : j = i
    · subst hji
      simp
    · rw [Function.update_of_ne hji, hseen]
      simp [hji]

omit [Zero K] in
theorem waitForUnshard_spec (h : Sound config state) (hsharded : ∀ i, state.unsharded i = false)
    (hoks : ∀ i, ¬1 < unit.shardWorldSize i → (state.soleParamBuffer i).isSome)
    (hrows : ∀ bucket ∈ unit.allGatherBuckets config, (state.allGatherOutput bucket.1).isSome) :
    ∃ state', unit.waitForUnshard config state = .ok state' ∧ Gathered config state' ∧
      SameMemory state state' ∧
      ∀ bucket ∈ unit.allGatherBuckets config, ∀ rows,
        state.allGatherOutput bucket.1 = some rows →
        ∀ entry ∈ Packing.layoutFrom unit.paddedNumel 0 bucket.2,
          state'.gatheredParamBuffer entry.1 =
            some ((unit.param entry.1).unpack (unit.shardWorldSize entry.1)
              fun index j => rows index (entry.2 + j)) := by
  obtain ⟨hmemory, hunsharded, hidle, -, hunpacked⟩ :=
    copyOuts_spec (unit.allGatherBuckets config) (fun _ hbucket => hbucket) bucket_keys_nodup state
  have hwait := @waitParams_spec _ _ unit K ((unit.allGatherBuckets config).foldl unit.copyOut state)
    (fun i => by rw [hunsharded]; exact hsharded i) fun i => by
      split
      · rename_i hsize
        obtain ⟨bucket, hbucket, hi⟩ := @exists_bucket _ _ _ _ config _ hsize
        obtain ⟨rows, hget⟩ := Option.isSome_iff_exists.mp (hrows bucket hbucket)
        obtain ⟨offset, hentry⟩ := @Packing.exists_mem_layoutFrom _ unit.paddedNumel 0 _ _ hi
        rw [hunpacked bucket hbucket rows hget _ hentry]
        rfl
      · rename_i hsize
        rw [hmemory.sole]
        exact hoks i hsize
  refine ⟨_, hwait, ⟨(h.of_sameMemory hmemory).of_sameMemory ⟨rfl, rfl, rfl, rfl⟩, fun _ => rfl,
    fun bucket hbucket => ?_, fun i hi => ?_⟩, hmemory.trans ⟨rfl, rfl, rfl, rfl⟩, hunpacked⟩
  · exact (hidle bucket.1).trans (if_pos (mem_map_of_mem hbucket))
  · exact (congrArg (fun sole => (sole i).isSome) hmemory.sole).trans (hoks i hi)

/-! ## Sharding again -/

theorem shardParam_spec (h : Sound config state) (hunsharded : state.unsharded i = true)
    (hsole : ¬1 < unit.shardWorldSize i → (state.soleParamBuffer i).isSome) :
    ∃ state', unit.shardParam state i = .ok state' ∧ Sound config state' ∧
      SameShards state state' ∧ state'.unsharded = Function.update state.unsharded i false ∧
      state'.soleParamBuffer = state.soleParamBuffer ∧
      state'.allGatherOutput = state.allGatherOutput := by
  have hstate : ¬(!state.unsharded i) = true := by simp [hunsharded]
  unfold ParamGroup.shardParam
  rw [if_neg hstate]
  by_cases hsize : 1 < unit.shardWorldSize i
  · exact ⟨_, if_pos hsize, h.of_sameMemory ⟨rfl, rfl, rfl, rfl⟩, .refl _, rfl, rfl, rfl⟩
  · obtain ⟨buffer, hbuffer⟩ := Option.isSome_iff_exists.mp (hsole hsize)
    simp only [if_neg hsize, hbuffer]
    split
    · exact ⟨_, rfl, h.of_sameMemory ⟨rfl, rfl, rfl, rfl⟩, .refl _, rfl, rfl, rfl⟩
    · rename_i hne
      refine ⟨_, rfl, (h.write _ _ _).of_sameMemory ⟨rfl, rfl, rfl, rfl⟩, ?_, rfl, rfl, rfl⟩
      exact sameShards_write h hbuffer hne _ _

theorem shardAgain_spec (h : Gathered config state) :
    ∃ state', unit.shardAgain state = .ok state' ∧ Ready config state' ∧
      SameShards state state' := by
  suffices hloop : ∃ state', unit.shardAgain state = .ok state' ∧ Sound config state' ∧
      SameShards state state' ∧ state'.soleParamBuffer = state.soleParamBuffer ∧
      state'.allGatherOutput = state.allGatherOutput ∧
      ∀ i, state'.unsharded i = !decide (i ∈ finRange unit.count) by
    obtain ⟨state', hrun, hsound, hshards, -, houtput, hunsharded⟩ := hloop
    exact ⟨state', hrun, ⟨hsound, fun i => by rw [hunsharded]; simp,
      fun bucket hbucket => by rw [houtput]; exact h.idle bucket hbucket⟩, hshards⟩
  refine exists_foldlM (fun seen next => Sound config next ∧ SameShards state next ∧
    next.soleParamBuffer = state.soleParamBuffer ∧
    next.allGatherOutput = state.allGatherOutput ∧
    ∀ i, next.unsharded i = !decide (i ∈ seen)) ?_
    ⟨h.sound, .refl state, rfl, rfl, fun i => by simp [h.unsharded i]⟩
  rintro seen i rest next hparams ⟨hsound, hshards, hsole, houtput, hseen⟩
  have hfresh : i ∉ seen := notMem_of_finRange_eq hparams
  obtain ⟨last, hstep, hsound', hshards', hunsharded', hsole', houtput'⟩ :=
    shardParam_spec (i := i) hsound (by simp [hseen, hfresh])
      fun hsize => by rw [hsole]; exact h.sole i hsize
  refine ⟨last, hstep, hsound', hshards.trans hshards', hsole'.trans hsole,
    houtput'.trans houtput, fun j => ?_⟩
  rw [hunsharded']
  by_cases hji : j = i
  · subst hji
    simp
  · rw [Function.update_of_ne hji, hseen]
    simp [hji]

end ParamGroup

end HyperParallel.FullyShard
