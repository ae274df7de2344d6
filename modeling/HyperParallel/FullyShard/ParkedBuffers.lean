import Mathlib.Algebra.Field.Basic
import HyperParallel.Foundation.PySequence
import HyperParallel.FullyShard.ParamGroup
import Mathlib.Data.Nat.Cast.Basic

/-!
# What a micro-step does to the buffer of one key

Buckets of different keys do not meet, so a run of micro-steps is followed one key
at a time: what is parked under the key, and what the last step adds to it.
-/

namespace HyperParallel.FullyShard

open Foundation List

/-! ### Chunks -/

namespace HsdpParam

theorem length_chunk (param : HsdpParam) (worldSize index : Nat) :
    (param.chunk worldSize index).length = (param.shape.take param.shardDim).prod *
      ((min (param.shape.getD param.shardDim 0)
          ((index + 1) * ((param.shape.getD param.shardDim 0 + worldSize - 1) / worldSize))
        - min (param.shape.getD param.shardDim 0)
          (index * ((param.shape.getD param.shardDim 0 + worldSize - 1) / worldSize)))
        * (param.shape.drop (param.shardDim + 1)).prod) := by
  simp [chunk, length_flatMap]

theorem length_chunk_le (param : HsdpParam) (worldSize index : Nat) :
    (param.chunk worldSize index).length ≤ param.paddedNumel worldSize := by
  rw [paddedNumel, length_chunk, length_chunk]
  apply Nat.mul_le_mul_left
  apply Nat.mul_le_mul_right
  rw [Nat.succ_mul]
  omega

theorem prod_shape_eq (param : HsdpParam) : param.shape.prod
    = (param.shape.take param.shardDim).prod * (param.shape.getD param.shardDim 0
      * (param.shape.drop (param.shardDim + 1)).prod) := by
  conv_lhs => rw [← take_append_drop param.shardDim param.shape, prod_append,
    drop_eq_getElem_cons param.shardDim_lt, prod_cons]
  simp [getD_eq_getElem?_getD, getElem?_eq_getElem param.shardDim_lt]

theorem paddedNumel_pos {param : HsdpParam} {worldSize : Nat} (hworld : 0 < worldSize)
    (h : param.shape.prod ≠ 0) : 0 < param.paddedNumel worldSize := by
  rw [prod_shape_eq] at h
  have houter := Nat.ne_zero_of_mul_ne_zero_left h
  have hrest := Nat.ne_zero_of_mul_ne_zero_right h
  have hextent := Nat.ne_zero_of_mul_ne_zero_left hrest
  have hinner := Nat.ne_zero_of_mul_ne_zero_right hrest
  have hrows : 0 < (param.shape.getD param.shardDim 0 + worldSize - 1) / worldSize :=
    Nat.div_pos (by omega) hworld
  rw [paddedNumel, length_chunk]
  apply Nat.mul_pos (Nat.pos_of_ne_zero houter)
  apply Nat.mul_pos _ (Nat.pos_of_ne_zero hinner)
  omega

theorem paddedNumel_eq_zero {param : HsdpParam} (h : param.shape.prod = 0) (worldSize : Nat) :
    param.paddedNumel worldSize = 0 := by
  rw [prod_shape_eq] at h
  rw [paddedNumel, length_chunk]
  rcases Nat.mul_eq_zero.mp h with houter | hrest
  · rw [houter, Nat.zero_mul]
  rcases Nat.mul_eq_zero.mp hrest with hextent | hinner
  · rw [hextent, Nat.zero_min, Nat.zero_sub, Nat.zero_mul, Nat.mul_zero]
  · rw [hinner, Nat.mul_zero, Nat.mul_zero]

end HsdpParam

/-! ### Buffers -/

namespace Buffer

variable {Rank K : Type} [Field K] {self other sum : Buffer Rank K}

omit [Field K] in
theorem element_eq_data {buffer : Buffer Rank K} {rank : Rank} {j : Nat} (hj : j < buffer.size) :
    buffer.element rank j = buffer.data rank j := by
  unfold element
  split
  · rename_i hone
    obtain rfl : j = 0 := by omega
    rfl
  · rfl

/-- The sizes `add_` accepts. -/
def Fits (self other : Buffer Rank K) : Prop := other.size = self.size ∨ other.size = 1

theorem add_eq_ok (h : self.add_ other = .ok sum) :
    self.Fits other ∧ sum.size = self.size ∧
      ∀ rank j, sum.element rank j = self.element rank j + other.element rank j := by
  unfold add_ at h
  split at h
  · rename_i hfits
    cases h
    refine ⟨hfits, rfl, fun rank j => ?_⟩
    unfold element
    dsimp only
    split
    · rename_i hone
      have hother : other.size = 1 := hfits.elim (fun heq => heq.trans hone) id
      simp [hother]
    · rfl
  · cases h

theorem exists_add_ (h : self.Fits other) : ∃ sum, self.add_ other = .ok sum := by
  unfold add_
  rw [if_pos (show other.size = self.size ∨ other.size = 1 from h)]
  exact ⟨_, rfl⟩

end Buffer

namespace ParamGroup

variable {Rank : Type} [DecidableEq Rank] {unit : ParamGroup Rank} {K : Type} [Field K]

/-! ### Groups and means -/

theorem length_members (group : Option Nat) (rank : Rank) :
    (unit.members group rank).length = unit.worldSize group := by
  cases group with
  | none => rfl
  | some g => exact (unit.group g).length_eq rank

theorem mem_members_self (group : Option Nat) (rank : Rank) : rank ∈ unit.members group rank := by
  cases group with
  | none => exact mem_singleton_self rank
  | some g => exact (unit.group g).mem_self rank

theorem members_eq_singleton {group : Option Nat} (hsize : ¬1 < unit.worldSize group)
    (rank : Rank) : unit.members group rank = [rank] := by
  have hmem := unit.mem_members_self group rank
  have hlength := unit.length_members group rank
  match hmembers : unit.members group rank, hmem, hlength with
  | [other], hmem, _ => rw [mem_singleton.mp hmem]
  | other :: next :: rest, _, hlength =>
    simp only [length_cons] at hlength
    omega

theorem worldSize_pos (group : Option Nat) (rank : Rank) : 0 < unit.worldSize group := by
  rw [← unit.length_members group rank]
  exact length_pos_of_mem (unit.mem_members_self group rank)

variable (unit) in
def mean (group : Option Nat) (f : Rank → K) (rank : Rank) : K :=
  ((unit.members group rank).map f).sum / (unit.worldSize group : K)

theorem mean_eq_of_single {group : Option Nat} (hsize : ¬1 < unit.worldSize group) (f : Rank → K)
    (rank : Rank) : unit.mean group f rank = f rank := by
  have hmembers := unit.members_eq_singleton hsize rank
  have hone : unit.worldSize group = 1 := by
    rw [← unit.length_members group rank, hmembers]
    rfl
  simp [mean, hmembers, hone]

theorem mean_zero (group : Option Nat) (rank : Rank) :
    unit.mean group (fun _ => (0 : K)) rank = 0 := by
  simp [mean]

theorem mean_one [CharZero K] (group : Option Nat) (rank : Rank) :
    unit.mean group (fun _ => (1 : K)) rank = 1 := by
  have hpos := unit.worldSize_pos group rank
  have hne : (unit.worldSize group : K) ≠ 0 := Nat.cast_ne_zero.mpr (by omega)
  simp [mean, unit.length_members, hne]

theorem mean_add (group : Option Nat) (f g : Rank → K) (rank : Rank) :
    unit.mean group (fun other => f other + g other) rank
      = unit.mean group f rank + unit.mean group g rank := by
  simp [mean, sum_map_add, add_div]

theorem mean_sum {α : Type*} (group : Option Nat) (items : List α) (f : α → Rank → K)
    (rank : Rank) : unit.mean group (fun other => (items.map fun item => f item other).sum) rank
      = (items.map fun item => unit.mean group (f item) rank).sum := by
  induction items with
  | nil => simp [mean_zero]
  | cons item rest ih => simp only [map_cons, sum_cons, mean_add, ih]

theorem mean_congr {group : Option Nat} {f g : Rank → K} {rank : Rank}
    (h : ∀ other ∈ unit.members group rank, f other = g other) :
    unit.mean group f rank = unit.mean group g rank := by
  rw [mean, mean, map_congr_left h]

/-! ### The entries of a key -/

variable (unit) in
def entriesAt (step : unit.MicroStep K) (key : BucketKey) :
    List (Fin unit.count × Grad Rank K) :=
  ((unit.activeGrads step).filter fun entry => entry.1 = key).map Prod.snd

variable (unit) in
def averaged (step : unit.MicroStep K) (key : BucketKey) : Buffer Rank K :=
  (unit.reduceScatter key (unit.entriesAt step key)).div_ (unit.worldSize key.1)

variable {step : unit.MicroStep K}

omit [Field K] in
theorem mem_entriesAt {key : BucketKey} {entry : Fin unit.count × Grad Rank K} :
    entry ∈ unit.entriesAt step key ↔
      step entry.1 = some entry.2 ∧ unit.bucketKey entry.1 entry.2.dtype = key := by
  simp only [entriesAt, activeGrads, mem_map, mem_filter, mem_filterMap,
    mem_finRange, true_and, Option.map_eq_some_iff, decide_eq_true_eq]
  constructor
  · rintro ⟨_, ⟨⟨i, grad, hgrad, rfl⟩, hkey⟩, rfl⟩
    exact ⟨hgrad, hkey⟩
  · rintro ⟨hgrad, hkey⟩
    exact ⟨_, ⟨⟨entry.1, entry.2, hgrad, rfl⟩, hkey⟩, rfl⟩

omit [Field K] in
theorem activeGrads_params_sublist :
    ((unit.activeGrads step).map fun entry => entry.2.1).Sublist (List.finRange unit.count) := by
  unfold activeGrads
  induction List.finRange unit.count with
  | nil => exact List.Sublist.refl _
  | cons i rest ih =>
    cases hgrad : step i with
    | none =>
      rw [filterMap_cons_none (by rw [hgrad]; rfl)]
      exact ih.cons i
    | some grad =>
      rw [filterMap_cons_some (by rw [hgrad]; rfl)]
      exact ih.cons_cons i

omit [Field K] in
theorem entriesAt_params_sublist (key : BucketKey) :
    ((unit.entriesAt step key).map Prod.fst).Sublist (List.finRange unit.count) := by
  refine List.Sublist.trans ?_ (@activeGrads_params_sublist _ _ unit _ step)
  rw [entriesAt, map_map]
  exact filter_sublist.map _

omit [Field K] in
theorem nodup_entriesAt_params (key : BucketKey) :
    ((unit.entriesAt step key).map Prod.fst).Nodup :=
  (List.nodup_finRange _).sublist (entriesAt_params_sublist key)

omit [Field K] in
theorem mem_buckets {key : BucketKey} {entries : List (Fin unit.count × Grad Rank K)} :
    (key, entries) ∈ (PyDict.group (unit.activeGrads step)).entries ↔
      entries = unit.entriesAt step key ∧ entries ≠ [] := by
  rw [PyDict.mem_entries_iff, PyDict.get?_group]
  have hempty : (unit.activeGrads step).filter (fun entry => decide (entry.1 = key)) = [] ↔
      unit.entriesAt step key = [] := by
    rw [entriesAt, map_eq_nil_iff]
  split
  · rename_i hnone
    constructor
    · intro h
      cases h
    · rintro ⟨rfl, hne⟩
      exact absurd (hempty.mp hnone) hne
  · rename_i hsome
    constructor
    · intro h
      cases h
      exact ⟨rfl, fun hnil => hsome (hempty.mpr hnil)⟩
    · rintro ⟨rfl, -⟩
      rfl

theorem averaged_data (key : BucketKey) (rank : Rank) (j : Nat) :
    (unit.averaged step key).data rank j = unit.mean key.1 (fun other =>
      unit.copyIn (unit.worldSize key.1) (unit.entriesAt step key) other
        (unit.groupRank key.1 rank) j) rank := by
  unfold averaged Buffer.div_
  by_cases hsize : 1 < unit.worldSize key.1
  · rw [if_pos hsize]
    simp only [reduceScatter, if_pos hsize, mean]
  · rw [if_neg hsize, mean_eq_of_single hsize]
    have hrank : unit.groupRank key.1 rank = 0 := by
      rw [groupRank, unit.members_eq_singleton hsize]
      simp
    simp only [reduceScatter, if_neg hsize, hrank]

theorem averaged_size (key : BucketKey) : (unit.averaged step key).size
    = Packing.total (fun entry : Fin unit.count × Grad Rank K => unit.paddedNumel entry.1)
        (unit.entriesAt step key) := by
  unfold averaged Buffer.div_
  split <;> rfl

theorem averaged_element_of_nil {key : BucketKey} (h : unit.entriesAt step key = [])
    (rank : Rank) (j : Nat) : (unit.averaged step key).element rank j = 0 := by
  have hdata : ∀ j, (unit.averaged step key).data rank j = 0 := by
    intro j
    rw [averaged_data, h]
    exact mean_zero ..
  unfold Buffer.element
  split <;> exact hdata _

/-! ### The buckets of a step -/

variable (unit) in
def stepBuckets (step : unit.MicroStep K) : List (Bucket Rank K unit.count) :=
  (PyDict.group (unit.activeGrads step)).keys.map fun key => {
    key := key
    params := (unit.entriesAt step key).map Prod.fst
    replicateGroup :=
      ((unit.entriesAt step key).map Prod.fst).head?.bind fun i => (unit.param i).replicateGroup
    output := unit.averaged step key }

omit [Field K] in
theorem mem_keys {key : BucketKey} :
    key ∈ (PyDict.group (unit.activeGrads step)).keys ↔ unit.entriesAt step key ≠ [] := by
  constructor
  · intro h
    obtain ⟨⟨_, entries⟩, hmem, rfl⟩ := mem_map.mp h
    obtain ⟨rfl, hne⟩ := mem_buckets.mp hmem
    exact hne
  · intro h
    exact mem_map.mpr ⟨(key, unit.entriesAt step key), mem_buckets.mpr ⟨rfl, h⟩, rfl⟩

theorem map_key_stepBuckets : (unit.stepBuckets step).map Bucket.key
    = (PyDict.group (unit.activeGrads step)).keys := by
  rw [stepBuckets, map_map]
  exact map_id _

theorem nodup_stepBuckets : ((unit.stepBuckets step).map Bucket.key).Nodup := by
  rw [map_key_stepBuckets]
  exact PyDict.keys_nodup _

theorem allReduceGroup_eq_ok {params : List (Fin unit.count)}
    (h : ∀ i ∈ params, ∀ j ∈ params, (unit.param i).shardGroup = (unit.param j).shardGroup) :
    unit.allReduceGroup params
      = .ok (params.head?.bind fun i => (unit.param i).replicateGroup) := by
  cases params with
  | nil => rfl
  | cons first rest =>
    have hsame : ∀ i ∈ rest, (unit.param i).replicateGroup = (unit.param first).replicateGroup :=
      fun i hi => unit.replicate_eq i first
        (h i (mem_cons_of_mem _ hi) first mem_cons_self)
    cases hfirst : (unit.param first).replicateGroup with
    | none =>
      have hnone : rest.any (fun i => (unit.param i).replicateGroup.isSome) = false := by
        rw [any_eq_false]
        intro i hi
        simp [hsame i hi, hfirst]
      simp [allReduceGroup, hfirst, hnone]
    | some r =>
      have hsome : rest.any (fun i => decide ((unit.param i).replicateGroup ≠ some r)) = false := by
        rw [any_eq_false]
        intro i hi
        simp [hsame i hi, hfirst]
      simp only [allReduceGroup, hfirst, hsome]
      simp [hfirst]

omit [Field K] in
theorem shardGroup_eq_of_mem {key : BucketKey} {i : Fin unit.count}
    (h : i ∈ (unit.entriesAt step key).map Prod.fst) : (unit.param i).shardGroup = key.1 := by
  obtain ⟨entry, hentry, rfl⟩ := mem_map.mp h
  rw [← (mem_entriesAt.mp hentry).2]
  rfl

variable (unit) in
def Packable (step : unit.MicroStep K) : Prop :=
  ∀ i, (step i).isSome → ¬(unit.param i).Unpackable

variable (unit) in
def issuedBuckets (step : unit.MicroStep K) : List (Bucket Rank K unit.count) :=
  (PyDict.group (unit.activeGrads step)).entries.map fun bucket => {
    key := bucket.1
    params := bucket.2.map Prod.fst
    replicateGroup := (bucket.2.map Prod.fst).head?.bind fun i => (unit.param i).replicateGroup
    output := unit.reduceScatter bucket.1 bucket.2 }

theorem waitReduceScatter_issuedBuckets :
    unit.waitReduceScatter (unit.issuedBuckets step) = unit.stepBuckets step := by
  unfold waitReduceScatter issuedBuckets stepBuckets PyDict.keys
  rw [map_map, map_map]
  apply map_congr_left
  intro bucket hbucket
  obtain ⟨hentries, -⟩ := mem_buckets.mp (show (bucket.1, bucket.2) ∈ _ from hbucket)
  dsimp only [Function.comp_apply]
  rw [hentries]
  rfl

theorem issueBucket_eq {bucket : BucketKey × List (Fin unit.count × Grad Rank K)}
    (h : bucket ∈ (PyDict.group (unit.activeGrads step)).entries) :
    unit.issueBucket bucket = if bucket.2.any fun entry =>
        decide (unit.param entry.1).Unpackable then .error .emptyGradient
      else .ok {
        key := bucket.1
        params := bucket.2.map Prod.fst
        replicateGroup :=
          (bucket.2.map Prod.fst).head?.bind fun i => (unit.param i).replicateGroup
        output := unit.reduceScatter bucket.1 bucket.2 } := by
  obtain ⟨hentries, -⟩ := mem_buckets.mp (show (bucket.1, bucket.2) ∈ _ from h)
  have hgroup := @allReduceGroup_eq_ok _ _ unit (bucket.2.map Prod.fst) fun i hi j hj => by
    rw [hentries] at hi hj
    rw [shardGroup_eq_of_mem hi, shardGroup_eq_of_mem hj]
  unfold issueBucket issueReduceScatter
  simp only [hgroup]
  split <;> rfl

omit [Field K] in
theorem buildReduceScatterBuckets_eq : unit.buildReduceScatterBuckets step
    = .ok (PyDict.group (unit.activeGrads step)).entries := by
  unfold buildReduceScatterBuckets
  rw [if_neg]
  rw [Bool.not_eq_true, any_eq_false]
  intro bucket hbucket
  rw [Bool.not_eq_true, any_eq_false]
  intro entry hentry
  obtain ⟨hentries, -⟩ := mem_buckets.mp (show (bucket.1, bucket.2) ∈ _ from hbucket)
  have hshard : (unit.param entry.1).shardGroup = bucket.1.1 := by
    have hmem : entry.1 ∈ (unit.entriesAt step bucket.1).map Prod.fst := by
      rw [← hentries]
      exact mem_map_of_mem hentry
    exact shardGroup_eq_of_mem hmem
  simp [hshard]

theorem foreachReduceScatter_eq_ok_iff {state state' : State Rank K unit.count} :
    unit.foreachReduceScatter step state = .ok state' ↔ unit.Packable step ∧
      state' = { state with reduceScatterBuckets := unit.issuedBuckets step } := by
  unfold foreachReduceScatter
  rw [buildReduceScatterBuckets_eq]
  have hissue : unit.Packable step →
      (PyDict.group (unit.activeGrads step)).entries.mapM unit.issueBucket
        = .ok (unit.issuedBuckets step) := by
    intro hpackable
    apply mapM_eq_ok
    intro bucket hbucket
    obtain ⟨hentries, -⟩ := mem_buckets.mp (show (bucket.1, bucket.2) ∈ _ from hbucket)
    rw [issueBucket_eq hbucket, if_neg]
    rw [Bool.not_eq_true, any_eq_false]
    intro entry hentry
    rw [hentries] at hentry
    exact decide_eq_false (hpackable entry.1 (by simp [(mem_entriesAt.mp hentry).1])) ▸ Bool.false_ne_true
  constructor
  · intro h
    obtain ⟨buckets, hbuckets, h⟩ := bind_eq_ok h
    cases hbuckets
    obtain ⟨issued, hissued, hstate⟩ := bind_eq_ok h
    have hpackable : unit.Packable step := by
      intro i hi
      obtain ⟨grad, hgrad⟩ := Option.isSome_iff_exists.mp hi
      have hentry : (i, grad) ∈ unit.entriesAt step (unit.bucketKey i grad.dtype) :=
        mem_entriesAt.mpr ⟨hgrad, rfl⟩
      have hbucket : (unit.bucketKey i grad.dtype,
          unit.entriesAt step (unit.bucketKey i grad.dtype))
          ∈ (PyDict.group (unit.activeGrads step)).entries :=
        mem_buckets.mpr ⟨rfl, ne_nil_of_mem hentry⟩
      obtain ⟨bucket, -, hok⟩ := exists_of_forall₂_left (mapM_eq_ok_iff.mp hissued) hbucket
      rw [issueBucket_eq hbucket] at hok
      split at hok
      · cases hok
      · rename_i hany
        rw [Bool.not_eq_true, any_eq_false] at hany
        exact of_decide_eq_false (by simpa using hany (i, grad) hentry)
    rw [hissue hpackable] at hissued
    cases hissued
    cases hstate
    exact ⟨hpackable, rfl⟩
  · rintro ⟨hpackable, rfl⟩
    change ((PyDict.group (unit.activeGrads step)).entries.mapM unit.issueBucket >>= _) = _
    rw [hissue hpackable]
    rfl

end ParamGroup

end HyperParallel.FullyShard
