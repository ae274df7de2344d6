import HyperParallel.FullyShard.UnshardRuns

/-!
# Unsharding rebuilds the parameters

Over any run of edits and unshards the parameters on every rank are those assembled
from the local shards of all ranks.  Packing gradients puts every chunk in its slot
unless a parameter sharded along dimension 0 is empty.
-/

namespace HyperParallel.FullyShard

open Foundation Foundation.StorageHeap List

namespace ParamGroup

abbrev Locals (Rank K : Type) (count : Nat) := Rank → Fin count → Nat → K

def Locals.edit {Rank K : Type} [DecidableEq Rank] {count : Nat} (locals : Locals Rank K count) :
    Edit Rank K count → Locals Rank K count
  | .update rank i values | .replace rank i values =>
    Function.update locals rank (Function.update (locals rank) i values)

section Statement

variable {Rank : Type} [DecidableEq Rank] (unit : ParamGroup Rank) {K : Type} [Zero K]
  (config : UnshardConfig K unit.count)

def assembled (locals : Locals Rank K unit.count) (i : Fin unit.count) (rank : Rank)
    (position : Nat) : K :=
  ((unit.members (unit.param i).shardGroup rank).findSome? fun other =>
    if position ∈ unit.shard i other then
      some (locals other i ((unit.shard i other).idxOf position))
    else none).getD 0

def initLocals (full : Fin unit.count → Nat → K) : Locals Rank K unit.count := fun rank i j =>
  match (unit.shard i rank)[j]? with
  | some position => full i position
  | none => 0

def RebuiltFrom (world unsharded : World Rank K unit.count) (locals : Locals Rank K unit.count) :
    Prop :=
  ∀ i rank position, position < (unit.param i).shape.prod →
    unit.unshardedParam (unsharded rank) i position =
        some (config.convert i (unit.assembled locals i rank position)) ∧
      unit.unshardAlone config world i rank position =
        config.convert i (unit.assembled locals i rank position)

def Rebuilds (world : World Rank K unit.count) (locals : Locals Rank K unit.count) :
    List (List (Edit Rank K unit.count) × List (Edit Rank K unit.count)) → Prop
  | [] => True
  | (before, after) :: cycles =>
    ∃ launched unsharded sharded,
      unit.Unshard config (before.foldl unit.edit world) launched ∧
      unit.WaitForUnshard config launched unsharded ∧
      unit.RebuiltFrom config (before.foldl unit.edit world) unsharded
        (before.foldl Locals.edit locals) ∧
      unit.Shard (after.foldl unit.edit unsharded) sharded ∧
      Rebuilds sharded (after.foldl Locals.edit (before.foldl Locals.edit locals)) cycles

def PlacesShards (K : Type) [Zero K] : Prop :=
  ∀ group (entries : List (Fin unit.count × (Nat → K))) input,
    (∀ entry ∈ entries, (unit.param entry.1).shardGroup = group) →
      ∃ rows, unit.reduceScatterCopyIn (unit.worldSize group) entries input
          (Packing.total (fun entry => unit.paddedNumel entry.1) entries) = .ok rows ∧
        ∀ slot ∈ Packing.layoutFrom (fun entry => unit.paddedNumel entry.1) 0 entries,
          ∀ rank, ∀ j position : Nat, (unit.shard slot.1.1 rank)[j]? = some position →
            rows (unit.groupRank group rank) (slot.2 + j) = slot.1.2 position

end Statement

variable {Rank : Type} [DecidableEq Rank] {unit : ParamGroup Rank} {K : Type}
  {config : UnshardConfig K unit.count} {i : Fin unit.count}

/-! ## Members and their chunks -/

variable {locals : Locals Rank K unit.count} {world : World Rank K unit.count}
  {state state' : RankState K unit.count} {other rank : Rank} {index : Nat}

theorem groupRank_of_getElem? {group : Option Nat}
    (h : (unit.members group rank)[index]? = some other) : unit.groupRank group other = index := by
  cases group with
  | none =>
    obtain ⟨hlt, hget⟩ := List.getElem?_eq_some_iff.mp h
    simp only [members, length_singleton] at hlt
    obtain rfl : index = 0 := by omega
    simp [groupRank, members]
  | some g =>
    have hget : ((unit.group g).members rank)[index]? = some other := h
    obtain ⟨hlt, rfl⟩ := List.getElem?_eq_some_iff.mp hget
    have hmembers := (unit.group g).members_eq rank _ (getElem_mem hlt)
    change ((unit.group g).members _).idxOf _ = index
    rw [hmembers]
    exact ((unit.group g).nodup rank).idxOf_getElem index hlt

theorem groupRank_lt (group : Option Nat) (rank : Rank) :
    unit.groupRank group rank < unit.worldSize group := by
  rw [← length_members group rank]
  exact idxOf_lt_length_of_mem (mem_members_self group rank)

theorem shard_of_getElem? (h : (unit.members (unit.param i).shardGroup rank)[index]? = some other) :
    unit.shard i other = (unit.param i).chunk (unit.shardWorldSize i) index := by
  rw [shard, groupRank_of_getElem? h]
  rfl

theorem even_extent (i : Fin unit.count) (hdim : (unit.param i).shardDim ≠ 0) :
    unit.shardWorldSize i ∣ (unit.param i).extent := by
  rw [shardWorldSize]
  cases hgroup : (unit.param i).shardGroup with
  | none => exact one_dvd _
  | some g => exact unit.even i hdim g hgroup

theorem exists_member (i : Fin unit.count) (rank : Rank) {position : Nat}
    (h : position < (unit.param i).shape.prod) :
    ∃ index other, ∃ j : Nat, index < unit.shardWorldSize i ∧
      (unit.members (unit.param i).shardGroup rank)[index]? = some other ∧
      (unit.shard i other)[j]? = some position := by
  obtain ⟨index, hindex, j, hj⟩ := HsdpParam.exists_chunk (unit.worldSize_pos _ rank) h
  have hlt : index < (unit.members (unit.param i).shardGroup rank).length := by
    rw [length_members]
    exact hindex
  have hget := getElem?_eq_getElem hlt
  exact ⟨index, _, j, hindex, hget, by rw [shard_of_getElem? hget]; exact hj⟩

theorem member_unique {other' : Rank} {index' j j' position : Nat}
    (hother : (unit.members (unit.param i).shardGroup rank)[index]? = some other)
    (hother' : (unit.members (unit.param i).shardGroup rank)[index']? = some other')
    (hj : (unit.shard i other)[j]? = some position)
    (hj' : (unit.shard i other')[j']? = some position) : index = index' ∧ j = j' := by
  have hlt : ∀ index other, (unit.members (unit.param i).shardGroup rank)[index]? = some other →
      index < unit.shardWorldSize i := by
    intro index other h
    have hindex := (List.getElem?_eq_some_iff.mp h).1
    rwa [length_members] at hindex
  rw [shard_of_getElem? hother] at hj
  rw [shard_of_getElem? hother'] at hj'
  have hunpack := HsdpParam.unpack_chunk (hlt _ _ hother) (even_extent i) hj Prod.mk
  have hunpack' := HsdpParam.unpack_chunk (hlt _ _ hother') (even_extent i) hj' Prod.mk
  exact Prod.mk.inj (hunpack.symm.trans hunpack')

variable [Zero K]

theorem assembled_eq {j position : Nat}
    (hother : (unit.members (unit.param i).shardGroup rank)[index]? = some other)
    (hj : (unit.shard i other)[j]? = some position) :
    unit.assembled locals i rank position = locals other i j := by
  have hmem := mem_iff_getElem?.mpr ⟨j, hj⟩
  have hplace : (unit.shard i other).idxOf position = j :=
    (member_unique hother hother (getElem?_idxOf hmem) hj).2
  unfold assembled
  cases hfind : (unit.members (unit.param i).shardGroup rank).findSome? fun other =>
      if position ∈ unit.shard i other then
        some (locals other i ((unit.shard i other).idxOf position)) else none with
  | none =>
    have hnone := findSome?_eq_none_iff.mp hfind other
      (mem_iff_getElem?.mpr ⟨index, hother⟩)
    rw [if_pos hmem] at hnone
    cases hnone
  | some value =>
    obtain ⟨other', hmember, hvalue⟩ := exists_of_findSome?_eq_some hfind
    obtain ⟨index', hother'⟩ := mem_iff_getElem?.mp hmember
    split at hvalue
    · rename_i hmem'
      obtain ⟨rfl, -⟩ := member_unique hother hother' hj (getElem?_idxOf hmem')
      obtain rfl : other = other' := Option.some.inj (hother.symm.trans hother')
      rw [← Option.some.inj hvalue, hplace]
      rfl
    · cases hvalue

/-! ## One cycle -/

def Holds (world : World Rank K unit.count) (locals : Locals Rank K unit.count) : Prop :=
  ∀ rank i, ∀ j < unit.localNumel i rank, unit.shardValue (world rank) i j = locals rank i j

theorem localNumel_le (i : Fin unit.count) (rank : Rank) :
    unit.localNumel i rank ≤ unit.paddedNumel i :=
  HsdpParam.length_chunk_le ..

omit [Zero K] in
theorem Holds.of_sameShards {world' : World Rank K unit.count} (h : Holds world locals)
    (hshards : ∀ rank, SameShards (world rank) (world' rank)) : Holds world' locals :=
  fun rank i j hj => (hshards rank i j (hj.trans_le (localNumel_le i rank))).trans (h rank i j hj)

theorem position_of_sole (hsole : ¬1 < unit.shardWorldSize i) {j position : Nat}
    (hother : (unit.members (unit.param i).shardGroup rank)[index]? = some other)
    (hj : (unit.shard i other)[j]? = some position) : other = rank ∧ j = position := by
  have hmembers := members_eq_singleton hsole rank
  rw [hmembers] at hother
  have hlt := (List.getElem?_eq_some_iff.mp hother).1
  rw [length_singleton] at hlt
  obtain rfl : index = 0 := by omega
  have hone : unit.shardWorldSize i = 1 := by
    have hpos : 0 < unit.shardWorldSize i := unit.worldSize_pos _ rank
    omega
  rw [← hmembers] at hother
  rw [shard_of_getElem? hother, hone] at hj
  obtain ⟨o, -, y, -, rfl, rfl⟩ := HsdpParam.getElem?_chunk_iff.mp hj
  obtain ⟨hfirst, hrun⟩ := @HsdpParam.chunk_of_dvd (unit.param i) 1 0 _ Nat.zero_lt_one
    (Nat.one_mul _).symm
  rw [hmembers] at hother
  refine ⟨(Option.some.inj hother).symm, ?_⟩
  rw [hfirst, hrun, Nat.zero_mul, Nat.add_zero, Nat.mul_assoc]

theorem cycle_spec (hready : ∀ rank, Ready config (world rank)) (hholds : Holds world locals) :
    ∃ launched unsharded, unit.Unshard config world launched ∧
      unit.WaitForUnshard config launched unsharded ∧
      unit.RebuiltFrom config world unsharded locals ∧
      (∀ rank, Gathered config (unsharded rank)) ∧ Holds unsharded locals := by
  choose sent rows hlaunch hsound hshards hsame hfilled hrows using
    fun rank => launch_spec (hready rank)
  obtain ⟨launched, hlaunched⟩ : ∃ launched : World Rank K unit.count,
      launched = fun rank => unit.allGather rows rank (sent rank) := ⟨_, rfl⟩
  have hmemory : ∀ rank, SameMemory (sent rank) (launched rank) := fun rank => by
    rw [hlaunched]
    exact ⟨rfl, rfl, rfl, rfl⟩
  have hgathered : ∀ rank, ∀ bucket ∈ unit.allGatherBuckets config,
      (launched rank).allGatherOutput bucket.1 = some fun index =>
        (((unit.members bucket.1.1 rank)[index]?).bind fun other =>
          (rows other).lookup bucket.1).getD 0 := by
    intro rank bucket hbucket
    obtain ⟨row, hlookup, -⟩ := hrows rank bucket hbucket
    rw [hlaunched]
    simp only [ParamGroup.allGather, hlookup]
    refine congrArg some (funext fun index => ?_)
    split
    · rename_i row hrow
      rw [hrow]
      rfl
    · rename_i hrow
      rw [hrow]
      rfl
  choose unsharded hwait hgather hmemory' hunpacked using fun rank =>
    waitForUnshard_spec ((hsound rank).of_sameMemory (hmemory rank))
      (fun i => by
        have hunsharded : (launched rank).unsharded = (sent rank).unsharded := by rw [hlaunched]; rfl
        rw [hunsharded, (hsame rank).unsharded]
        exact (hready rank).sharded i)
      (fun i hi => by
        obtain ⟨buffer, hbuffer, -⟩ := (hfilled rank i hi).of_sameMemory (hmemory rank)
        rw [hbuffer]
        rfl)
      (fun bucket hbucket => by rw [hgathered rank bucket hbucket]; rfl)
  have hall : ∀ rank, SameShards (world rank) (unsharded rank) := fun rank =>
    (hshards rank).trans ((hmemory rank).trans (hmemory' rank)).sameShards
  refine ⟨launched, unsharded, ⟨fun rank => (sent rank, rows rank), hlaunch, fun rank => by
    rw [hlaunched]⟩, hwait, ?_, hgather, hholds.of_sameShards hall⟩
  intro i rank position hposition
  obtain ⟨index, other, j, hindex, hother, hj⟩ := exists_member i rank hposition
  have hlocal : unit.shardValue (world other) i j = locals other i j :=
    hholds other i j (List.getElem?_eq_some_iff.mp hj).1
  rw [assembled_eq hother hj, ← hlocal]
  by_cases hsize : 1 < unit.shardWorldSize i
  · obtain ⟨bucket, hbucket, hi⟩ := @exists_bucket _ _ _ _ config _ hsize
    obtain ⟨offset, hentry⟩ := @Packing.exists_mem_layoutFrom _ unit.paddedNumel 0 _ _ hi
    have hgroup : bucket.1.1 = (unit.param i).shardGroup :=
      (congrArg Prod.fst ((mem_bucket_iff hbucket).mp hi).2).symm
    obtain ⟨row, hlookup, hrow⟩ := hrows other bucket hbucket
    have hchunk := hj
    rw [shard_of_getElem? hother] at hchunk
    have hpadded : j < unit.paddedNumel i :=
      (List.getElem?_eq_some_iff.mp hj).1.trans_le (localNumel_le i other)
    constructor
    · rw [ParamGroup.unshardedParam, if_pos hsize,
        hunpacked rank bucket hbucket _ (hgathered rank bucket hbucket) _ hentry, Option.map_some,
        HsdpParam.unpack_chunk hindex (even_extent i) hchunk, hgroup, hother]
      simp only [Option.bind_some, hlookup, Option.getD_some]
      rw [hrow (i, offset) hentry j hpadded]
    · rw [ParamGroup.unshardAlone, if_pos hsize,
        HsdpParam.unpack_chunk hindex (even_extent i) hchunk, hother]
  · obtain ⟨rfl, rfl⟩ := position_of_sole hsize hother hj
    obtain ⟨buffer, hbuffer, hread⟩ := (hfilled other i hsize).of_sameMemory
      ((hmemory other).trans (hmemory' other))
    have hzero := (((hgather other).sound.sole_buffer i buffer hbuffer)).1
    have hslice : (⟨buffer.storage, 0⟩ : Slice) = buffer := by rw [← hzero]
    constructor
    · rw [ParamGroup.unshardedParam, if_neg hsize, hbuffer, Option.map_some, hslice,
        hread j ((List.getElem?_eq_some_iff.mp hj).1.trans_le (localNumel_le i other))]
    · rw [ParamGroup.unshardAlone, if_neg hsize]

/-! ## Edits -/

structure Edited (config : UnshardConfig K unit.count) (rank : Rank) (i : Fin unit.count)
    (values : Nat → K) (state state' : RankState K unit.count) : Prop where
  sound : Sound config state'
  self : ∀ j < unit.localNumel i rank, unit.shardValue state' i j = values j
  other : ∀ k, k ≠ i → ∀ j < unit.localNumel k rank,
    unit.shardValue state' k j = unit.shardValue state k j
  unsharded : state'.unsharded = state.unsharded
  output : state'.allGatherOutput = state.allGatherOutput
  sole : state'.soleParamBuffer = state.soleParamBuffer

omit [Zero K] in
theorem edited_updateShard (h : Sound config state) (rank : Rank) (i : Fin unit.count)
    (values : Nat → K) :
    Edited config rank i values state (unit.updateShard rank i values state) := by
  refine ⟨h.updateShard rank i values, fun j hj => shardValue_updateShard rank i values hj, ?_,
    rfl, rfl, rfl⟩
  intro k hk j hj
  refine @Memory.read_write_of_apart _ _ _ _ _ (unit.localNumel k rank) _ (fun hstorage => ?_) hj
    values
  have hle := localNumel_le i rank
  have hle' := localNumel_le k rank
  have hapart := h.shards_apart i k (Ne.symm hk) hstorage
  simp only [ParamGroup.updateShard]
  omega

theorem edited_resetShardedParam (h : Sound config state) (rank : Rank) (i : Fin unit.count)
    (values : Nat → K) :
    Edited config rank i values state (unit.resetShardedParam rank i values state) := by
  refine ⟨h.resetShardedParam rank i values,
    fun j hj => shardValue_resetShardedParam rank i values hj, ?_, rfl, rfl, rfl⟩
  intro k hk j _
  simp only [shardValue, ParamGroup.resetShardedParam, Function.update_of_ne hk]
  exact Memory.read_alloc_of_lt (h.shard_lt k) _ j

theorem edit_eq (edit : Edit Rank K unit.count) (locals : Locals Rank K unit.count)
    (hsound : ∀ rank, Sound config (world rank)) :
    ∃ rank i values state', Edited config rank i values (world rank) state' ∧
      unit.edit world edit = Function.update world rank state' ∧
      locals.edit edit = Function.update locals rank (Function.update (locals rank) i values) := by
  cases edit with
  | update rank i values =>
    exact ⟨rank, i, values, _, edited_updateShard (hsound rank) rank i values, rfl, rfl⟩
  | replace rank i values =>
    exact ⟨rank, i, values, _, edited_resetShardedParam (hsound rank) rank i values, rfl, rfl⟩

variable {values : Nat → K}

omit [Zero K] in
theorem Edited.holds (h : Edited config rank i values (world rank) state')
    (hholds : Holds world locals) :
    Holds (Function.update world rank state')
      (Function.update locals rank (Function.update (locals rank) i values)) := by
  intro other k j hj
  by_cases hother : other = rank
  · subst hother
    rw [Function.update_self, Function.update_self]
    by_cases hk : k = i
    · subst hk
      rw [Function.update_self, h.self j hj]
    · rw [Function.update_of_ne hk, h.other k hk j hj]
      exact hholds other k j hj
  · rw [Function.update_of_ne hother, Function.update_of_ne hother]
    exact hholds other k j hj

omit [Zero K] in
theorem Edited.ready (h : Edited config rank i values state state')
    (hready : Ready config state) :
    Ready config state' :=
  ⟨h.sound, fun k => by rw [h.unsharded]; exact hready.sharded k,
    fun bucket hbucket => by rw [h.output]; exact hready.idle bucket hbucket⟩

omit [Zero K] in
theorem Edited.gathered (h : Edited config rank i values state state')
    (hgathered : Gathered config state) :
    Gathered config state' :=
  ⟨h.sound, fun k => by rw [h.unsharded]; exact hgathered.unsharded k,
    fun bucket hbucket => by rw [h.output]; exact hgathered.idle bucket hbucket,
    fun k hk => by rw [h.sole]; exact hgathered.sole k hk⟩

theorem edits_spec {P : RankState K unit.count → Prop}
    (hsound : ∀ state, P state → Sound config state)
    (hedited : ∀ (rank : Rank) i values state state',
      Edited config rank i values state state' → P state → P state')
    (edits : List (Edit Rank K unit.count)) (h : ∀ rank, P (world rank))
    (hholds : Holds world locals) :
    (∀ rank, P (edits.foldl unit.edit world rank)) ∧
      Holds (edits.foldl unit.edit world) (edits.foldl Locals.edit locals) := by
  induction edits generalizing world locals with
  | nil => exact ⟨h, hholds⟩
  | cons edit edits ih =>
    obtain ⟨rank, i, values, state', hspec, hworld, hlocals⟩ :=
      edit_eq edit locals fun rank => hsound _ (h rank)
    rw [foldl_cons, foldl_cons, hworld, hlocals]
    refine ih (fun other => ?_) (hspec.holds hholds)
    by_cases hother : other = rank
    · subst hother
      rw [Function.update_self]
      exact hedited other i values _ _ hspec (h other)
    · rw [Function.update_of_ne hother]
      exact h other

/-! ## Runs -/

theorem rebuilds_of_ready
    (cycles : List (List (Edit Rank K unit.count) × List (Edit Rank K unit.count)))
    (hready : ∀ rank, Ready config (world rank)) (hholds : Holds world locals) :
    unit.Rebuilds config world locals cycles := by
  induction cycles generalizing world locals with
  | nil => trivial
  | cons cycle cycles ih =>
    obtain ⟨before, after⟩ := cycle
    obtain ⟨hready', hholds'⟩ := edits_spec (fun _ h => h.sound)
      (fun _ _ _ _ _ hspec h => hspec.ready h) before hready hholds
    obtain ⟨launched, unsharded, hunshard, hwait, hrebuilt, hgathered, hkept⟩ :=
      cycle_spec hready' hholds'
    obtain ⟨hgathered', hkept'⟩ := edits_spec (fun _ h => h.sound)
      (fun _ _ _ _ _ hspec h => hspec.gathered h) after hgathered hkept
    choose sharded hshard hagain hshards using fun rank => shardAgain_spec (hgathered' rank)
    exact ⟨launched, unsharded, sharded, hunshard, hwait, hrebuilt, hshard,
      ih hagain (hkept'.of_sameShards hshards)⟩

theorem ready_initWorld (full : Fin unit.count → Nat → K) (rank : Rank) :
    Ready config (unit.initWorld full rank) := by
  refine ⟨?_, fun _ => rfl, fun _ _ => rfl⟩
  constructor
  case shard_lt => exact fun i => i.isLt
  case flat_lt => exact fun _ _ h => by cases h
  case sole_lt => exact fun _ _ h => by cases h
  case shards_apart => exact fun i j hij hstorage => absurd (Fin.ext hstorage) hij
  case flat_at => exact fun _ _ _ h => by cases h
  case sole_shard => exact fun i _ => ⟨rfl, fun j hji hstorage => hji (Fin.ext hstorage)⟩
  case sole_buffer => exact fun _ _ h => by cases h
  case sole_apart => exact fun _ _ h => by cases h
  case sole_distinct => exact fun _ _ _ _ _ h => by cases h

theorem holds_initWorld (full : Fin unit.count → Nat → K) :
    Holds (unit.initWorld full : World Rank K unit.count) (unit.initLocals full) := by
  intro rank i j hj
  simp only [shardValue, Memory.read, initWorld, Nat.zero_add, i.isLt, dite_true, padded, if_pos hj,
    initLocals] <;> rfl

/-! ## Packed gradients -/

def Placed (worldSize : Nat) (seen : List (Fin unit.count × (Nat → K)))
    (packed : (Nat → Nat → K) × Nat) : Prop :=
  packed.2 = Packing.total (fun entry => unit.paddedNumel entry.1) seen ∧
    ∀ slot ∈ Packing.layoutFrom (fun entry => unit.paddedNumel entry.1) 0 seen,
      ∀ index < worldSize, ∀ j position : Nat,
        ((unit.param slot.1.1).chunk worldSize index)[j]? = some position →
          packed.1 index (slot.2 + j) = slot.1.2 position

theorem copyInSlot_spec {group : Option Nat} {seen : List (Fin unit.count × (Nat → K))}
    {packed : (Nat → Nat → K) × Nat} (h : Placed (unit.worldSize group) seen packed)
    {entry : Fin unit.count × (Nat → K)}
    (hgroup : ∀ other ∈ seen ++ [entry], (unit.param other.1).shardGroup = group)
    (hpackable : ¬(unit.param entry.1).Unpackable) :
    ∃ packed', unit.copyInSlot (unit.worldSize group) packed entry = .ok packed' ∧
      Placed (unit.worldSize group) (seen ++ [entry]) packed' := by
  obtain ⟨i, grad⟩ := entry
  have hshard : (unit.param i).shardGroup = group := hgroup (i, grad) (by simp)
  obtain ⟨rows, hrows, hchunks⟩ := @HsdpParam.packGrad_spec (unit.param i) (unit.worldSize group) K _
    (fun hdim => by rw [← hshard]; exact even_extent i hdim) hpackable grad
  have hpadded : ∀ other ∈ seen ++ [(i, grad)],
      (unit.param other.1).paddedNumel (unit.worldSize group) = unit.paddedNumel other.1 := by
    intro other hother
    rw [ParamGroup.paddedNumel, hgroup other hother]
  refine ⟨_, by rw [copyInSlot, hrows]; rfl, ?_, ?_⟩
  · rw [Packing.total_append, Packing.total_cons, Packing.total_nil, h.1, hpadded _ (by simp),
      Nat.add_zero]
  · intro slot hslot index hindex j position hj
    have hlength := (List.getElem?_eq_some_iff.mp hj).1.trans_le (HsdpParam.length_chunk_le ..)
    dsimp only
    rw [Packing.layoutFrom_append, Nat.zero_add, ← h.1] at hslot
    rcases mem_append.mp hslot with hslot | hslot
    · have hend := (Packing.le_of_mem_layoutFrom hslot).2
      have hmem := Packing.mem_of_mem_layoutFrom hslot
      rw [hpadded slot.1 (mem_append_left _ hmem)] at hlength
      rw [← h.1] at hend
      rw [if_neg (by omega)]
      exact h.2 slot hslot index hindex j position hj
    · rw [Packing.layoutFrom, Packing.layoutFrom, mem_singleton] at hslot
      subst hslot
      dsimp only at hlength hj ⊢
      rw [if_pos ⟨Nat.le_add_right _ _, Nat.add_lt_add_left hlength _⟩, Nat.add_sub_cancel_left]
      exact hchunks index hindex j position hj

theorem placesShards_of_packable (hpackable : ∀ i, ¬(unit.param i).Unpackable) :
    unit.PlacesShards K := by
  intro group entries input hgroup
  obtain ⟨packed, hpacked, hplaced⟩ : ∃ packed,
      entries.foldlM (unit.copyInSlot (unit.worldSize group)) (input, 0) = .ok packed ∧
        Placed (unit.worldSize group) entries packed := by
    refine exists_foldlM (Placed (unit.worldSize group)) ?_ ⟨rfl, fun slot hslot => by cases hslot⟩
    intro seen entry rest packed hentries hseen
    refine copyInSlot_spec hseen (fun other hother => hgroup other ?_) (hpackable entry.1)
    rw [hentries]
    rcases mem_append.mp hother with hother | hother
    · exact mem_append_left _ hother
    · exact mem_append_right _ (mem_singleton.mp hother ▸ mem_cons_self)
  refine ⟨packed.1, ?_, fun slot hslot rank j position hj => ?_⟩
  · rw [reduceScatterCopyIn, hpacked]
    exact if_neg fun hne => hne hplaced.1
  · have hgroup' := hgroup slot.1 (Packing.mem_of_mem_layoutFrom hslot)
    rw [shard, hgroup'] at hj
    exact hplaced.2 slot hslot _ (groupRank_lt group rank) j position hj

theorem packable_of_placesShards (h : unit.PlacesShards K) (i : Fin unit.count) :
    ¬(unit.param i).Unpackable := by
  rintro ⟨hdim, hempty⟩
  obtain ⟨rows, hrows, -⟩ := h (unit.param i).shardGroup [(i, fun _ => 0)] (fun _ _ => 0) (by simp)
  have herror : (unit.param i).packGrad (unit.worldSize (unit.param i).shardGroup)
      (fun _ => (0 : K)) = .error .emptyGradient := by
    rw [HsdpParam.packGrad, if_pos hdim, HsdpParam.chunkCat, if_pos hempty]
  rw [reduceScatterCopyIn, foldlM_cons, copyInSlot, herror] at hrows
  cases hrows

/-- Unsharding always rebuilds the parameters; with the packing of gradients both hold
exactly when no parameter sharded along dimension 0 is empty. -/
theorem rebuilds_and_placesShards_iff (unit : ParamGroup Rank)
    (config : UnshardConfig K unit.count) :
    ((∀ full cycles, unit.Rebuilds config (unit.initWorld full) (unit.initLocals full) cycles) ∧
      unit.PlacesShards K) ↔ ∀ i, ¬(unit.param i).Unpackable :=
  ⟨fun h => packable_of_placesShards h.2,
    fun h => ⟨fun full cycles => rebuilds_of_ready cycles (ready_initWorld full)
      (holds_initWorld full), placesShards_of_packable h⟩⟩

/-- An empty matrix, sharded over two ranks along dimension 0. -/
def emptyMatrix : ParamGroup (Fin 2) where
  group _ := {
    members := fun _ => [0, 1]
    size := 2
    mem_self := by decide
    nodup := by decide
    members_eq := by decide
    length_eq := by decide }
  count := 1
  param _ := {
    shape := [0, 4]
    shardDim := 0
    shardGroup := some 0
    replicateGroup := none
    reduceDtype := none
    shardDim_lt := by decide }
  even _ hdim := absurd rfl hdim
  replicate_eq _ _ _ := rfl
  aligned _ _ _ _ hreplicate := by cases hreplicate

theorem placesShards_fails_empty : ¬∀ (unit : ParamGroup (Fin 2))
    (config : UnshardConfig Rat unit.count),
    (∀ full cycles, unit.Rebuilds config (unit.initWorld full) (unit.initLocals full) cycles) ∧
      unit.PlacesShards Rat := by
  intro h
  have hplaces := (h emptyMatrix {
    origDtype := fun _ => .float32
    paramDtype := fun _ => none
    offloadToCpu := fun _ => false
    enableZeroCopy := false
    cast := fun _ _ value => value }).2
  exact packable_of_placesShards hplaces (0 : Fin 1) ⟨rfl, rfl⟩

end ParamGroup

end HyperParallel.FullyShard
