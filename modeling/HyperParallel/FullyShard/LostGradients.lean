import Mathlib.Data.Rat.Cast.CharZero
import HyperParallel.FullyShard.GradientSum

/-!
# The exact condition

When every bucket has the parameters of the last one of its key, offsets agree and
the sum is right.  Otherwise some gradient goes to another parameter, or nowhere.
-/

namespace HyperParallel.FullyShard

open Foundation List

namespace ParamGroup

variable {Rank : Type} [DecidableEq Rank] {unit : ParamGroup Rank} {K : Type} [Field K]
  {steps : List (unit.MicroStep K)} {step last : unit.MicroStep K}

/-! ### Slots -/

variable {i : Fin unit.count} {key : BucketKey} {pattern : unit.Pattern}

theorem paddedNumel_pos [Inhabited Rank] (h : (unit.param i).shape.prod ≠ 0) :
    0 < unit.paddedNumel i :=
  HsdpParam.paddedNumel_pos (unit.worldSize_pos _ default) h

theorem length_shard_le (i : Fin unit.count) (rank : Rank) :
    (unit.shard i rank).length ≤ unit.paddedNumel i :=
  HsdpParam.length_chunk_le ..

theorem shard_eq_of_replica {rank replica : Rank}
    (h : replica ∈ unit.members (unit.param i).replicateGroup rank) :
    unit.shard i replica = unit.shard i rank := by
  have hrank : unit.groupRank (unit.param i).shardGroup replica
      = unit.groupRank (unit.param i).shardGroup rank := by
    cases hreplicate : (unit.param i).replicateGroup with
    | none =>
      rw [hreplicate] at h
      rw [mem_singleton.mp h]
    | some r =>
      cases hshard : (unit.param i).shardGroup with
      | none => simp [groupRank, members]
      | some g =>
        rw [hreplicate] at h
        exact unit.aligned i g r hshard hreplicate rank replica h
  rw [shard, shard, hrank]

omit [Field K] in
theorem map_fst_layout (step : unit.MicroStep K) (key : BucketKey) :
    Packing.layoutFrom unit.paddedNumel 0 (unit.bucketMembers (unit.pattern step) key)
      = (Packing.layoutFrom (fun entry => unit.paddedNumel entry.1) 0
          (unit.entriesAt step key)).map fun entry => (entry.1.1, entry.2) := by
  rw [← map_fst_entriesAt, Packing.layoutFrom_map]

theorem averaged_size_eq (step : unit.MicroStep K) (key : BucketKey) :
    (unit.averaged step key).size
      = Packing.total unit.paddedNumel (unit.bucketMembers (unit.pattern step) key) := by
  rw [averaged_size, ← map_fst_entriesAt, Packing.total, Packing.total, map_map]
  rfl

omit [Field K] in
theorem entriesAt_eq_nil_iff : unit.entriesAt step key = [] ↔
    unit.bucketMembers (unit.pattern step) key = [] := by
  rw [← map_fst_entriesAt, map_eq_nil_iff]

theorem averaged_slot {offset : Nat} {rank : Rank} {c : Nat} {position : Nat}
    (h : (i, offset) ∈ Packing.layoutFrom unit.paddedNumel 0
      (unit.bucketMembers (unit.pattern step) key))
    (hposition : (unit.shard i rank)[c]? = some position) :
    (unit.averaged step key).element rank (offset + c)
      = unit.mean (unit.param i).shardGroup (fun other => unit.gradAt step i other position)
          rank := by
  obtain ⟨hc, hvalue⟩ := List.getElem?_eq_some_iff.mp hposition
  have hpadded : c < unit.paddedNumel i := Nat.lt_of_lt_of_le hc (unit.length_shard_le i rank)
  have hslot := Packing.le_of_mem_layoutFrom h
  dsimp only at hslot
  rw [Buffer.element_eq_data (by rw [averaged_size_eq]; omega), averaged_data]
  rw [map_fst_layout] at h
  obtain ⟨⟨⟨j, grad⟩, offset'⟩, hentry, heq⟩ := mem_map.mp h
  obtain ⟨rfl, rfl⟩ : j = i ∧ offset' = offset := Prod.mk.inj heq
  obtain ⟨hgrad, hkey⟩ := mem_entriesAt.mp (Packing.mem_of_mem_layoutFrom hentry)
  dsimp only at hgrad hkey
  subst hkey
  apply mean_congr
  intro other _
  have hpack := @Packing.pack_of_mem_layoutFrom _ K _ _
    (fun entry : Fin unit.count × Grad Rank K => (unit.param entry.1).packedRow
      (unit.worldSize (unit.param j).shardGroup)
      (unit.groupRank (unit.param j).shardGroup rank) (entry.2.value other)) 0 _ _ hentry c hpadded
  rw [Nat.sub_zero] at hpack
  refine Eq.trans hpack ?_
  rw [gradAt, hgrad]
  dsimp only [HsdpParam.packedRow]
  rw [shard] at hposition
  rw [hposition]

/-! ### The final state -/

theorem accumulate_eq_ok {state : State Rank K unit.count}
    (h : unit.accumulate steps last = .ok state) : ∃ parked parked' merged,
      Parked steps parked ∧ (∀ step ∈ steps ++ [last], unit.Packable step) ∧
        unit.addParked parked (unit.stepBuckets last) = .ok (parked', merged) ∧
          state = unit.exposed {} parked' merged := by
  obtain ⟨middle, hmiddle, hlast⟩ := bind_eq_ok h
  obtain ⟨hpackable, hparked, hshape⟩ := parked_of_run hmiddle
  obtain ⟨hlastPackable, parked', merged, hmerged, hstate⟩ := microStep_true_eq_ok_iff.mp hlast
  refine ⟨middle.reducePartialOutputs, parked', merged, hparked, ?_, hmerged, ?_⟩
  · intro step hstep
    rcases mem_append.mp hstep with hstep | hstep
    · exact hpackable step hstep
    · exact mem_singleton.mp hstep ▸ hlastPackable
  · rw [hstate, hshape]
    rfl

theorem merged_of_key {parked : PyDict BucketKey (Buffer Rank K)}
    {merged : List (Bucket Rank K unit.count)}
    (hmerged : Forall₂ (Merged parked.get?) (unit.stepBuckets last) merged)
    (hne : unit.entriesAt last key ≠ []) : ∃ result ∈ merged,
      result.params = unit.bucketMembers (unit.pattern last) key ∧
        withParked (parked.get? key) (unit.averaged last key) = .ok result.output ∧
          ∀ i ∈ result.params, result.replicateGroup = (unit.param i).replicateGroup := by
  obtain ⟨bucket, hbucket, hkey, hparams, hgroup, houtput⟩ := mem_stepBuckets hne
  obtain ⟨result, hresult, output, hsum, rfl⟩ := exists_of_forall₂_left hmerged hbucket
  rw [hkey, houtput] at hsum
  refine ⟨_, hresult, hparams.trans (map_fst_entriesAt last key), hsum, fun i hi => ?_⟩
  dsimp only at hi ⊢
  rw [hgroup]
  rw [hparams] at hi
  obtain ⟨first, hfirst⟩ : ∃ first,
      ((unit.entriesAt last key).map Prod.fst).head? = some first :=
    Option.isSome_iff_exists.mp (by simpa using hne)
  rw [hfirst, Option.bind_some]
  apply unit.replicate_eq
  rw [shardGroup_eq_of_mem hi, shardGroup_eq_of_mem (mem_of_mem_head? hfirst)]

theorem view_data {parked : PyDict BucketKey (Buffer Rank K)} (hparked : Parked steps parked)
    {output : Buffer Rank K} {group : Option Nat} {rank : Rank} {j : Nat}
    (houtput : withParked (parked.get? key) (unit.averaged last key) = .ok output)
    (hj : j < (unit.averaged last key).size) :
    unit.mean group (fun replica => output.data replica j) rank
      = ((steps ++ [last]).map fun step => unit.mean group
          (fun replica => (unit.averaged step key).element replica j) rank).sum := by
  obtain ⟨hsize, -, helement⟩ := withParked_eq_ok hparked houtput
  rw [← mean_sum]
  apply mean_congr
  intro replica _
  rw [← helement, Buffer.element_eq_data (by omega)]

theorem entries_eq_nil {ν : Type} {d : PyDict BucketKey ν} (h : ∀ key, d.get? key = none) :
    d.entries = [] := by
  apply eq_nil_iff_forall_not_mem.mpr
  rintro ⟨key, value⟩ hentry
  rw [d.mem_entries_iff, h key] at hentry
  cases hentry

/-! ### The condition is enough -/

omit [Field K] in
theorem packable_of_keepsBuckets
    (h : unit.KeepsBuckets (steps.map unit.pattern) (unit.pattern last)) :
    ∀ step ∈ steps ++ [last], unit.Packable step := by
  intro step hstep i hi
  refine h.packable (unit.pattern step) ?_ i (by simpa [pattern] using hi)
  rw [← map_singleton, ← map_append]
  exact mem_map_of_mem hstep

omit [Field K] in
theorem filledMembers_eq_of_keepsBuckets
    (h : unit.KeepsBuckets (steps.map unit.pattern) (unit.pattern last))
    (hstep : step ∈ steps ++ [last]) (hne : unit.entriesAt step key ≠ []) :
    unit.filledMembers (unit.pattern step) key = unit.filledMembers (unit.pattern last) key := by
  rcases mem_append.mp hstep with hstep | hstep
  · exact ((h.same _ (mem_map_of_mem hstep) key).resolve_left
      fun hnil => hne (entriesAt_eq_nil_iff.mpr hnil)).2
  · rw [mem_singleton.mp hstep]

omit [Field K] in
theorem mem_filledMembers :
    i ∈ unit.filledMembers pattern key ↔
      i ∈ unit.bucketMembers pattern key ∧ (unit.param i).shape.prod ≠ 0 := by
  rw [filledMembers, mem_filter, decide_eq_true_eq]

omit [Field K] in
theorem paddedNumel_of_not_filled (i : Fin unit.count)
    (h : decide ((unit.param i).shape.prod ≠ 0) = false) : unit.paddedNumel i = 0 :=
  HsdpParam.paddedNumel_eq_zero (not_not.mp (of_decide_eq_false h)) _

omit [Field K] in
theorem total_filledMembers (pattern : unit.Pattern) (key : BucketKey) :
    Packing.total unit.paddedNumel (unit.filledMembers pattern key)
      = Packing.total unit.paddedNumel (unit.bucketMembers pattern key) :=
  Packing.total_filter fun i _ => paddedNumel_of_not_filled i

omit [Field K] in
theorem mem_layoutFrom_filledMembers (hfilled : (unit.param i).shape.prod ≠ 0) {offset : Nat} :
    (i, offset) ∈ Packing.layoutFrom unit.paddedNumel 0 (unit.filledMembers pattern key) ↔
      (i, offset) ∈ Packing.layoutFrom unit.paddedNumel 0 (unit.bucketMembers pattern key) := by
  rw [filledMembers, Packing.layoutFrom_filter fun i _ => paddedNumel_of_not_filled i, mem_filter]
  exact and_iff_left (decide_eq_true hfilled)

section

variable (h : unit.KeepsBuckets (steps.map unit.pattern) (unit.pattern last))

include h

omit [Field K] in
theorem key_of_keepsBuckets (hstep : step ∈ steps ++ [last])
    (hfilled : (unit.param i).shape.prod ≠ 0) {grad : Grad Rank K} (hgrad : step i = some grad) :
    ∃ grad', last i = some grad' ∧ unit.bucketKey i grad'.dtype = unit.bucketKey i grad.dtype := by
  have hmem : (i, grad) ∈ unit.entriesAt step (unit.bucketKey i grad.dtype) :=
    mem_entriesAt.mpr ⟨hgrad, rfl⟩
  have hparams : i ∈ unit.filledMembers (unit.pattern step) (unit.bucketKey i grad.dtype) := by
    rw [mem_filledMembers, ← map_fst_entriesAt]
    exact ⟨mem_map_of_mem hmem, hfilled⟩
  rw [filledMembers_eq_of_keepsBuckets h hstep (ne_nil_of_mem hmem), mem_filledMembers,
    ← map_fst_entriesAt] at hparams
  obtain ⟨⟨j, grad'⟩, hentry, rfl⟩ := mem_map.mp hparams.1
  exact ⟨grad', mem_entriesAt.mp hentry⟩

omit [Field K] in
theorem active_of_keepsBuckets (hstep : step ∈ steps ++ [last]) (hactive : (step i).isSome) :
    ∃ grad, last i = some grad := by
  rcases mem_append.mp hstep with hstep | hstep
  · have hlast := h.active _ (mem_map_of_mem hstep) i (by simpa [pattern] using hactive)
    exact Option.isSome_iff_exists.mp (by simpa [pattern] using hlast)
  · exact Option.isSome_iff_exists.mp (mem_singleton.mp hstep ▸ hactive)

theorem exists_accumulate : ∃ state, unit.accumulate steps last = .ok state := by
  have hpackable := packable_of_keepsBuckets h
  have hsize : ∀ step ∈ steps ++ [last], ∀ key, unit.entriesAt step key ≠ [] →
      (unit.averaged step key).size = (unit.averaged last key).size := by
    intro step hstep key hne
    rw [averaged_size_eq, averaged_size_eq, ← total_filledMembers, ← total_filledMembers,
      filledMembers_eq_of_keepsBuckets h hstep hne]
  obtain ⟨middle, hmiddle⟩ := @exists_run _ _ unit _ _ steps
    (fun step hstep => hpackable step (mem_append_left _ hstep))
    fun first hfirst second hsecond key hne hne' => by
      rw [hsize first (mem_append_left _ hfirst) key hne,
        hsize second (mem_append_left _ hsecond) key hne']
  obtain ⟨-, hparked, -⟩ := parked_of_run hmiddle
  obtain ⟨⟨parked', merged⟩, hmerged⟩ := @exists_addParked _ _ unit _ _
    middle.reducePartialOutputs (unit.stepBuckets last) nodup_stepBuckets
    fun bucket hbucket buffer hbuffer => by
      obtain ⟨step, hstep, hne, hreached⟩ := hparked.reached bucket.key buffer hbuffer
      obtain ⟨key, -, rfl⟩ := mem_map.mp hbucket
      exact Or.inl (hreached.trans (hsize step (mem_append_left _ hstep) key hne))
  obtain ⟨state, hstate⟩ : ∃ state, unit.microStep true middle last = .ok state :=
    ⟨_, microStep_true_eq_ok_iff.mpr ⟨hpackable last (by simp), parked', merged, hmerged, rfl⟩⟩
  refine ⟨state, ?_⟩
  rw [accumulate, hmiddle]
  exact hstate

theorem slot_eq_gradAt (hstep : step ∈ steps ++ [last]) {grad : Grad Rank K} {offset : Nat}
    (hgrad : last i = some grad) {rank : Rank} {c position : Nat}
    (hentry : (i, offset) ∈ Packing.layoutFrom unit.paddedNumel 0
      (unit.bucketMembers (unit.pattern last) (unit.bucketKey i grad.dtype)))
    (hposition : (unit.shard i rank)[c]? = some position) :
    (unit.averaged step (unit.bucketKey i grad.dtype)).element rank (offset + c)
      = unit.mean (unit.param i).shardGroup (fun other => unit.gradAt step i other position)
          rank := by
  have hfilled : (unit.param i).shape.prod ≠ 0 := by
    intro hempty
    obtain ⟨hc, -⟩ := List.getElem?_eq_some_iff.mp hposition
    have hle := unit.length_shard_le i rank
    rw [paddedNumel, HsdpParam.paddedNumel_eq_zero hempty] at hle
    omega
  by_cases hnil : unit.entriesAt step (unit.bucketKey i grad.dtype) = []
  · rw [averaged_element_of_nil hnil]
    have hnone : step i = none := by
      cases hactive : step i with
      | none => rfl
      | some grad' =>
        obtain ⟨grad'', hlast, hkey⟩ := key_of_keepsBuckets h hstep hfilled hactive
        rw [hgrad] at hlast
        cases hlast
        have hmem : (i, grad') ∈ unit.entriesAt step (unit.bucketKey i grad.dtype) :=
          mem_entriesAt.mpr ⟨hactive, hkey.symm⟩
        rw [hnil] at hmem
        cases hmem
    simp only [gradAt, hnone, mean_zero]
  · rw [← mem_layoutFrom_filledMembers hfilled,
      ← filledMembers_eq_of_keepsBuckets h hstep hnil, mem_layoutFrom_filledMembers hfilled] at hentry
    exact averaged_slot hentry hposition

theorem losesNothing_of_keepsBuckets : unit.LosesNothing steps last := by
  obtain ⟨state, hstate⟩ := exists_accumulate h
  obtain ⟨parked, parked', merged, hparked, -, hmerged, rfl⟩ := accumulate_eq_ok hstate
  obtain ⟨hkeys, hmerged⟩ := addParked_eq_ok nodup_stepBuckets (fun _ _ => rfl) hmerged
  refine ⟨_, hstate, ?_, ?_⟩
  · apply entries_eq_nil
    intro key
    change parked'.get? key = none
    rw [hkeys]
    split
    · rfl
    · rename_i hkey
      rw [mem_map_key_stepBuckets, not_not] at hkey
      cases hget : parked.get? key with
      | none => rfl
      | some buffer =>
        obtain ⟨step, hstep, hne, -⟩ := hparked.reached key buffer hget
        have hmembers := (h.same _ (mem_map_of_mem hstep) key).resolve_left
          fun hnil => hne (entriesAt_eq_nil_iff.mpr hnil)
        exact absurd (entriesAt_eq_nil_iff.mp hkey) hmembers.1
  · rintro i ⟨step, hstep, hactive⟩
    obtain ⟨grad, hgrad⟩ := active_of_keepsBuckets h hstep hactive
    have hentry : (i, grad) ∈ unit.entriesAt last (unit.bucketKey i grad.dtype) :=
      mem_entriesAt.mpr ⟨hgrad, rfl⟩
    obtain ⟨result, hresult, hparams, houtput, hgroup⟩ :=
      merged_of_key hmerged (ne_nil_of_mem hentry)
    have hmem : i ∈ result.params := by
      rw [hparams, ← map_fst_entriesAt]
      exact mem_map_of_mem hentry
    obtain ⟨offset, hslot⟩ := @Packing.exists_mem_layoutFrom _ unit.paddedNumel 0 _ _ hmem
    obtain ⟨view, hview, hsize, hdata⟩ :=
      @reducedGrad_exposed _ _ unit _ _ last parked' merged result (i, offset)
        (map_params_merged hmerged) hresult hslot
    refine ⟨view, hview, fun rank => ?_⟩
    have hle := unit.length_shard_le i rank
    rw [cutToShard, hsize, if_pos hle]
    congr 1
    apply ext_getElem
    · simp
    · intro c hc hc'
      rw [length_map] at hc'
      rw [getElem_map, getElem_map, getElem_range, hdata]
      rw [hparams] at hslot
      have hbound := Packing.le_of_mem_layoutFrom hslot
      dsimp only at hbound
      rw [view_data hparked houtput (by rw [averaged_size_eq]; omega), meanGradSum, hgroup i hmem]
      congr 1
      apply map_congr_left
      intro step hstep
      apply mean_congr
      intro replica hreplica
      apply slot_eq_gradAt h hstep hgrad hslot
      rw [shard_eq_of_replica hreplica]
      exact getElem?_eq_getElem hc'

end

/-! ### The condition is needed -/

def constantStep (pattern : unit.Pattern) (value : Fin unit.count → K) : unit.MicroStep K :=
  fun i => (pattern i).map fun dtype => ⟨dtype, fun _ _ => value i⟩

omit [Field K] in
theorem pattern_constantStep (pattern : unit.Pattern) (value : Fin unit.count → K) :
    unit.pattern (constantStep pattern value) = pattern := by
  funext i
  cases hactive : pattern i <;> simp [ParamGroup.pattern, constantStep, hactive]

theorem gradAt_constantStep_of_eq_zero {value : Fin unit.count → K} (hzero : value i = 0)
    (rank : Rank) (position : Nat) :
    unit.gradAt (constantStep pattern value) i rank position = 0 := by
  cases hactive : pattern i <;> simp [gradAt, constantStep, hactive, hzero]

theorem averaged_eq_zero (hzero : ∀ entry ∈ unit.entriesAt step key, entry.2.value = fun _ _ => 0)
    (rank : Rank) (j : Nat) : (unit.averaged step key).element rank j = 0 := by
  have hpack : ∀ (entries : List (Fin unit.count × Grad Rank K)) (worldSize : Nat)
      (other : Rank) (index j : Nat), (∀ entry ∈ entries, entry.2.value = fun _ _ => 0) →
      unit.copyIn worldSize entries other index j = 0 := by
    intro entries worldSize other index j hzero
    induction entries generalizing j with
    | nil => rfl
    | cons entry rest ih =>
      unfold copyIn Packing.pack
      split
      · rw [HsdpParam.packedRow, hzero entry mem_cons_self]
        split <;> rfl
      · exact ih _ fun other hother => hzero other (mem_cons_of_mem _ hother)
  have hdata : ∀ j, (unit.averaged step key).data rank j = 0 := by
    intro j
    rw [averaged_data, ← unit.mean_zero key.1 rank]
    exact mean_congr fun other _ => hpack _ _ _ _ _ hzero
  unfold Buffer.element
  split <;> exact hdata _

theorem averaged_constantStep_zero (pattern : unit.Pattern) (key : BucketKey) (rank : Rank)
    (j : Nat) :
    (unit.averaged (constantStep pattern (0 : Fin unit.count → K)) key).element rank j = 0 := by
  refine averaged_eq_zero (fun entry hentry => ?_) rank j
  obtain ⟨dtype, -, heq⟩ := Option.map_eq_some_iff.mp (mem_entriesAt.mp hentry).1
  rw [← heq]
  rfl

theorem exists_groupRank_zero [Inhabited Rank] (group : Option Nat) :
    ∃ rank, unit.groupRank group rank = 0 := by
  cases group with
  | none => exact ⟨default, by simp [groupRank, members]⟩
  | some g =>
    obtain ⟨first, rest, hmembers⟩ :=
      exists_cons_of_ne_nil (ne_nil_of_mem ((unit.group g).mem_self default))
    refine ⟨first, ?_⟩
    have heq := (unit.group g).members_eq default first (by simp [hmembers])
    rw [groupRank, members, heq, hmembers]
    simp

structure Probe (steps : List (unit.MicroStep K)) (probe last : unit.MicroStep K)
    (pattern : unit.Pattern) (i : Fin unit.count) : Prop where
  probe_eq : probe = constantStep pattern (Pi.single i 1)
  mem : probe ∈ steps
  sum_eq : ∀ f : unit.MicroStep K → K,
    (∀ pattern, f (constantStep pattern 0) = 0) → ((steps ++ [last]).map f).sum = f probe

theorem Probe.of_split (before after : List unit.Pattern) (pattern lastPattern : unit.Pattern)
    (i : Fin unit.count) :
    Probe (K := K) (before.map (constantStep · 0) ++
        constantStep pattern (Pi.single i 1) :: after.map (constantStep · 0))
      (constantStep pattern (Pi.single i 1)) (constantStep lastPattern 0) pattern i := by
  refine ⟨rfl, by simp, fun f hzero => ?_⟩
  have hzeros : ∀ patterns : List unit.Pattern,
      ((patterns.map (constantStep · 0)).map f).sum = 0 := by
    intro patterns
    apply sum_eq_zero
    intro value hvalue
    rw [map_map] at hvalue
    obtain ⟨pattern, -, rfl⟩ := mem_map.mp hvalue
    exact hzero pattern
  rw [map_append, map_append, map_cons, sum_append, sum_append, sum_cons, hzeros, hzeros,
    map_singleton, sum_singleton, hzero, zero_add, add_zero, add_zero]

section

variable {probe : unit.MicroStep K} (hprobe : Probe steps probe last pattern i)
  (hloses : unit.LosesNothing steps last) (hmem : i ∈ unit.bucketMembers pattern key)

include hprobe hloses hmem

theorem Probe.spec [CharZero K] :
    unit.bucketMembers (unit.pattern last) key ≠ [] ∧
      (Packing.total unit.paddedNumel (unit.bucketMembers pattern key)
          = Packing.total unit.paddedNumel (unit.bucketMembers (unit.pattern last) key) ∨
        Packing.total unit.paddedNumel (unit.bucketMembers pattern key) = 1) ∧
      ∀ rank, ∀ entry ∈ Packing.layoutFrom unit.paddedNumel 0
          (unit.bucketMembers (unit.pattern last) key),
        ∀ c < (unit.shard entry.1 rank).length,
          (∀ replica ∈ unit.members (unit.param entry.1).replicateGroup rank,
            (unit.averaged probe key).element replica (entry.2 + c) = 1) → entry.1 = i := by
  obtain ⟨state, hstate, hempty, hviews⟩ := hloses
  obtain ⟨parked, parked', merged, hparked, -, hmerged, rfl⟩ := accumulate_eq_ok hstate
  obtain ⟨hkeys, hmerged⟩ := addParked_eq_ok nodup_stepBuckets (fun _ _ => rfl) hmerged
  have hpattern : unit.pattern probe = pattern := by rw [hprobe.probe_eq, pattern_constantStep]
  have hprobeEntries : unit.entriesAt probe key ≠ [] := by
    rw [Ne, entriesAt_eq_nil_iff, hpattern]
    exact ne_nil_of_mem hmem
  have hlast : unit.entriesAt last key ≠ [] := by
    intro hnil
    have hnone : parked'.get? key = none := by
      cases hget : parked'.get? key with
      | none => rfl
      | some buffer =>
        have hentry := parked'.mem_entries_iff.mpr hget
        rw [show parked'.entries = [] from hempty] at hentry
        cases hentry
    rw [hkeys, if_neg fun hmem => mem_map_key_stepBuckets.mp hmem hnil] at hnone
    exact hprobeEntries (hparked.absent key hnone probe hprobe.mem)
  obtain ⟨result, hresult, hparams, houtput, hgroup⟩ := merged_of_key hmerged hlast
  refine ⟨fun hnil => hlast (entriesAt_eq_nil_iff.mpr hnil), ?_, ?_⟩
  · obtain ⟨-, hsizes, -⟩ := withParked_eq_ok hparked houtput
    have hsize := hsizes probe hprobe.mem hprobeEntries
    rwa [averaged_size_eq, averaged_size_eq, hpattern] at hsize
  · rintro rank ⟨q, offset⟩ hslot c hc hone
    by_contra hne
    have hbound := Packing.le_of_mem_layoutFrom hslot
    have hq : q ∈ unit.bucketMembers (unit.pattern last) key := Packing.mem_of_mem_layoutFrom hslot
    have hle := unit.length_shard_le q rank
    dsimp only at hbound hc hone hne
    obtain ⟨view, hview, -, hdata⟩ :=
      @reducedGrad_exposed _ _ unit _ _ last parked' merged result (q, offset)
        (map_params_merged hmerged) hresult (hparams ▸ hslot)
    obtain ⟨dtype, hdtype, -⟩ := mem_bucketMembers.mp hq
    obtain ⟨grad, hgrad, -⟩ := Option.map_eq_some_iff.mp hdtype
    obtain ⟨view', hview', hcut⟩ := hviews q ⟨last, by simp, by simp [hgrad]⟩
    obtain rfl := Option.some.inj (hview.symm.trans hview')
    -- the view holds the probe's output, and should hold the gradient of `q`
    have hvalue : view.data rank c = 1 := by
      rw [hdata, view_data hparked houtput (by rw [averaged_size_eq]; omega), hprobe.sum_eq]
      · rw [hgroup q (hparams ▸ hq), ← unit.mean_one (unit.param q).replicateGroup rank]
        exact mean_congr hone
      · intro other
        simp only [averaged_constantStep_zero, mean_zero]
    have hexpected : view.data rank c
        = unit.meanGradSum (steps ++ [last]) q rank (unit.shard q rank)[c] := by
      have hcut := hcut rank
      unfold cutToShard at hcut
      dsimp only at hcut
      split at hcut
      · have hget := congrArg (·[c]?) (Option.some.inj hcut)
        simpa [hc] using hget
      · cases hcut
    have hzero : ∀ pattern (value : Fin unit.count → K), value q = 0 → ∀ position,
        unit.mean (unit.param q).replicateGroup (fun replica =>
          unit.mean (unit.param q).shardGroup (fun other =>
            unit.gradAt (constantStep pattern value) q other position) replica) rank = 0 := by
      intro pattern value hvalue position
      simp only [gradAt_constantStep_of_eq_zero hvalue, mean_zero]
    rw [hvalue, meanGradSum, hprobe.sum_eq _ fun other => hzero other 0 rfl _, hprobe.probe_eq,
      hzero _ _ (Pi.single_eq_of_ne hne 1)] at hexpected
    exact one_ne_zero hexpected

theorem Probe.mem_last [CharZero K] [Inhabited Rank] (hfilled : (unit.param i).shape.prod ≠ 0) :
    i ∈ unit.bucketMembers (unit.pattern last) key := by
  obtain ⟨state, hstate, -, hviews⟩ := hloses
  obtain ⟨parked, parked', merged, hparked, -, hmerged, rfl⟩ := accumulate_eq_ok hstate
  obtain ⟨-, hmerged⟩ := addParked_eq_ok nodup_stepBuckets (fun _ _ => rfl) hmerged
  obtain ⟨dtype, hdtype, hkey⟩ := mem_bucketMembers.mp hmem
  obtain ⟨view, hview, hcut⟩ := hviews i ⟨probe, mem_append_left _ hprobe.mem, by
    simp [hprobe.probe_eq, constantStep, hdtype]⟩
  cases hgrad : last i with
  | none =>
    have hnone := @reducedGrad_eq_none _ _ unit _ _ last parked' merged i
      (map_params_merged hmerged) hgrad
    exact absurd (hview.symm.trans hnone) (Option.some_ne_none view)
  | some grad =>
    refine mem_bucketMembers.mpr ⟨grad.dtype, by simp [ParamGroup.pattern, hgrad], ?_⟩
    by_contra hne
    -- under the other key only gradients of zeros have come in
    have hentry : (i, grad) ∈ unit.entriesAt last (unit.bucketKey i grad.dtype) :=
      mem_entriesAt.mpr ⟨hgrad, rfl⟩
    obtain ⟨result, hresult, hparams, houtput, -⟩ := merged_of_key hmerged (ne_nil_of_mem hentry)
    have hparam : i ∈ result.params := by
      rw [hparams, ← map_fst_entriesAt]
      exact mem_map_of_mem hentry
    obtain ⟨offset, hslot⟩ := @Packing.exists_mem_layoutFrom _ unit.paddedNumel 0 _ _ hparam
    obtain ⟨view', hview', -, hdata⟩ :=
      @reducedGrad_exposed _ _ unit _ _ last parked' merged result (i, offset)
        (map_params_merged hmerged) hresult hslot
    obtain rfl := Option.some.inj (hview.symm.trans hview')
    obtain ⟨rank, hrank⟩ := unit.exists_groupRank_zero (unit.param i).shardGroup
    have hshard : (unit.shard i rank).length = unit.paddedNumel i := by
      rw [shard, hrank]
      rfl
    have hpos := unit.paddedNumel_pos hfilled
    have hbound := Packing.le_of_mem_layoutFrom (hparams ▸ hslot)
    dsimp only at hbound
    have hvalue : view.data rank 0 = 0 := by
      rw [hdata, view_data hparked houtput (by rw [averaged_size_eq]; omega), hprobe.sum_eq]
      · rw [← unit.mean_zero result.replicateGroup rank]
        refine mean_congr fun replica _ => averaged_eq_zero (fun entry hmem => ?_) replica _
        obtain ⟨hprobed, hkey'⟩ := mem_entriesAt.mp hmem
        rw [hprobe.probe_eq] at hprobed
        obtain ⟨dtype', hdtype', heq⟩ := Option.map_eq_some_iff.mp hprobed
        have hother : entry.1 ≠ i := by
          rintro rfl
          rw [hdtype] at hdtype'
          cases hdtype'
          rw [← heq] at hkey'
          exact hne (hkey'.symm.trans hkey)
        rw [← heq]
        simp [hother]
      · intro other
        simp only [averaged_constantStep_zero, mean_zero]
    have hexpected : view.data rank 0 = 1 := by
      have hcut := hcut rank
      unfold cutToShard at hcut
      dsimp only at hcut
      split at hcut
      · have hget := congrArg (·[0]?) (Option.some.inj hcut)
        have hzero : 0 < (unit.shard i rank).length := by omega
        simp only [getElem?_map, getElem?_range hzero, Option.map_some,
          getElem?_eq_getElem hzero] at hget
        rw [Option.some.inj hget, meanGradSum, hprobe.sum_eq]
        · rw [← unit.mean_one (unit.param i).replicateGroup rank]
          refine mean_congr fun replica _ => ?_
          rw [← unit.mean_one (unit.param i).shardGroup replica]
          refine mean_congr fun other _ => ?_
          simp [gradAt, hprobe.probe_eq, constantStep, hdtype]
        · intro other
          have hzero : ∀ other', unit.gradAt (constantStep other (0 : Fin unit.count → K)) i other'
              (unit.shard i rank)[0] = 0 := fun other' => gradAt_constantStep_of_eq_zero rfl _ _
          simp only [hzero, mean_zero]
      · cases hcut
    exact zero_ne_one (hvalue.symm.trans hexpected)

end

theorem shardGroup_of_bucketMembers (h : i ∈ unit.bucketMembers pattern key) :
    (unit.param i).shardGroup = key.1 := by
  obtain ⟨dtype, -, rfl⟩ := mem_bucketMembers.mp h
  rfl

theorem Probe.averaged_eq_one [CharZero K] {probe : unit.MicroStep K} {pattern : unit.Pattern}
    {i : Fin unit.count} {key : BucketKey} (hprobe : Probe steps probe last pattern i)
    {offset : Nat} (hslot : (i, offset) ∈ Packing.layoutFrom unit.paddedNumel 0
      (unit.bucketMembers pattern key)) {rank : Rank} {c : Nat}
    (hc : c < (unit.shard i rank).length) :
    (unit.averaged probe key).element rank (offset + c) = 1 := by
  have hpattern : unit.pattern probe = pattern := by rw [hprobe.probe_eq, pattern_constantStep]
  rw [← hpattern] at hslot
  rw [averaged_slot hslot (getElem?_eq_getElem hc), ← unit.mean_one (unit.param i).shardGroup rank]
  obtain ⟨dtype, hactive, -⟩ := mem_bucketMembers.mp
    (hpattern ▸ Packing.mem_of_mem_layoutFrom hslot)
  apply mean_congr
  intro other _
  simp [gradAt, hprobe.probe_eq, constantStep, hactive]

theorem keepsBuckets_of_losesNothing [CharZero K] [Inhabited Rank]
    {patterns : List unit.Pattern} {lastPattern : unit.Pattern}
    (h : ∀ (steps : List (unit.MicroStep K)) last, steps.map unit.pattern = patterns →
      unit.pattern last = lastPattern → unit.LosesNothing steps last) :
    unit.KeepsBuckets patterns lastPattern := by
  have hpackable : ∀ pattern ∈ patterns ++ [lastPattern], ∀ i, (pattern i).isSome →
      ¬(unit.param i).Unpackable := by
    obtain ⟨state, hstate, -⟩ := h (patterns.map (constantStep · 0)) (constantStep lastPattern 0)
      (by rw [map_map]; simp [Function.comp_def, pattern_constantStep])
      (pattern_constantStep _ _)
    obtain ⟨-, -, -, -, hpackable, -⟩ := accumulate_eq_ok hstate
    intro pattern hmem i hi
    apply hpackable (constantStep pattern 0) _ i
    · simpa [constantStep] using hi
    · rcases mem_append.mp hmem with hmem | hmem
      · exact mem_append_left _ (mem_map_of_mem hmem)
      · simp [mem_singleton.mp hmem]
  have hprobe : ∀ pattern ∈ patterns, ∀ i, ∃ steps : List (unit.MicroStep K),
      Probe steps (constantStep pattern (Pi.single i 1)) (constantStep lastPattern 0) pattern i ∧
        unit.LosesNothing steps (constantStep lastPattern 0) := by
    intro pattern hmem i
    obtain ⟨before, after, hsplit⟩ := append_of_mem hmem
    refine ⟨_, Probe.of_split before after pattern lastPattern i,
      h _ (constantStep lastPattern 0) ?_ (pattern_constantStep _ _)⟩
    rw [hsplit, map_append, map_cons, map_map, map_map]
    simp [Function.comp_def, pattern_constantStep]
  refine ⟨hpackable, fun pattern hmem i hi => ?_, fun pattern hmem key => ?_⟩
  · obtain ⟨steps, hprobe, hloses⟩ := hprobe pattern hmem i
    obtain ⟨state, hstate, -, hviews⟩ := hloses
    obtain ⟨parked, parked', merged, -, -, hmerged, rfl⟩ := accumulate_eq_ok hstate
    obtain ⟨-, hmerged⟩ := addParked_eq_ok nodup_stepBuckets (fun _ _ => rfl) hmerged
    obtain ⟨view, hview, -⟩ := hviews i ⟨_, mem_append_left _ hprobe.mem, by
      simpa [constantStep] using hi⟩
    by_contra hnone
    have hnone : lastPattern i = none := by simpa using hnone
    have hgrad := @reducedGrad_eq_none _ _ unit _ _ (constantStep lastPattern 0) parked' merged i
      (map_params_merged hmerged) (by simp [constantStep, hnone])
    exact absurd (hview.symm.trans hgrad) (Option.some_ne_none view)
  by_cases hnil : unit.bucketMembers pattern key = []
  · exact Or.inl hnil
  have hspec := fun i (hi : i ∈ unit.bucketMembers pattern key) =>
    (hprobe pattern hmem i).choose_spec.1.spec (hprobe pattern hmem i).choose_spec.2 hi
  simp only [pattern_constantStep] at hspec
  obtain ⟨i₀, hi₀⟩ := exists_mem_of_ne_nil _ hnil
  refine Or.inr ⟨(hspec i₀ hi₀).1, ?_⟩
  have hsubset : ∀ i ∈ unit.filledMembers pattern key, i ∈ unit.filledMembers lastPattern key := by
    intro i hi
    obtain ⟨hi, hfilled⟩ := mem_filledMembers.mp hi
    obtain ⟨steps, hprobe, hloses⟩ := hprobe pattern hmem i
    have hlast := hprobe.mem_last hloses hi hfilled
    rw [pattern_constantStep] at hlast
    exact mem_filledMembers.mpr ⟨hlast, hfilled⟩
  have hsublist : (unit.filledMembers pattern key).Sublist (unit.filledMembers lastPattern key) := by
    rw [filledMembers, filledMembers, bucketMembers, bucketMembers, filter_filter, filter_filter]
    apply monotone_filter_right
    intro i hi
    have hmemi : i ∈ unit.filledMembers pattern key := by
      rw [filledMembers, bucketMembers, filter_filter]
      exact mem_filter.mpr ⟨mem_finRange i, hi⟩
    have hlast := hsubset i hmemi
    rw [filledMembers, bucketMembers, filter_filter] at hlast
    exact (mem_filter.mp hlast).2
  have hpos : ∀ pattern, ∀ i ∈ unit.filledMembers pattern key, 0 < unit.paddedNumel i :=
    fun pattern i hi => paddedNumel_pos (mem_filledMembers.mp hi).2
  rcases (hspec i₀ hi₀).2.1 with htotal | htotal
  · apply Packing.eq_of_sublist_of_total_eq hsublist (hpos lastPattern)
    rw [total_filledMembers, total_filledMembers, htotal]
  · -- a buffer of one element is broadcast, so the last bucket has no other parameter
    obtain ⟨rank, hrank⟩ := unit.exists_groupRank_zero key.1
    have hfirst : ∀ i, (unit.param i).shardGroup = key.1 →
        (unit.shard i rank).length = unit.paddedNumel i := by
      intro i hi
      rw [shard, hi, hrank, paddedNumel, hi]
      rfl
    have honly : ∀ i ∈ unit.filledMembers pattern key,
        ∀ q ∈ unit.filledMembers lastPattern key, q = i := by
      intro i hi q hq
      have hipos := hpos pattern i hi
      have hqpos := hpos lastPattern q hq
      obtain ⟨hi, -⟩ := mem_filledMembers.mp hi
      obtain ⟨hq, -⟩ := mem_filledMembers.mp hq
      obtain ⟨steps, hprobe, -⟩ := hprobe pattern hmem i
      obtain ⟨offset, hslot⟩ := @Packing.exists_mem_layoutFrom _ unit.paddedNumel 0 _ _ hi
      obtain ⟨offset', hslot'⟩ := @Packing.exists_mem_layoutFrom _ unit.paddedNumel 0 _ _ hq
      have hsize : (unit.averaged (constantStep pattern (Pi.single i (1 : K))) key).size = 1 := by
        rw [averaged_size_eq, pattern_constantStep, htotal]
      have hshard := shardGroup_of_bucketMembers hi
      refine (hspec i hi).2.2 rank (q, offset') hslot' 0 ?_ fun replica hreplica => ?_
      · rw [hfirst _ (shardGroup_of_bucketMembers hq)]
        exact hqpos
      · -- replicas of a rank with first shards have first shards
        rw [unit.replicate_eq q i ((shardGroup_of_bucketMembers hq).trans hshard.symm)] at hreplica
        have hvalue := @Probe.averaged_eq_one _ _ _ _ _ _ _ _ _ _ _ _ hprobe _ hslot replica 0 (by
          rw [shard_eq_of_replica hreplica, hfirst i hshard]
          exact hipos)
        unfold Buffer.element at hvalue ⊢
        rw [if_pos hsize] at hvalue ⊢
        exact hvalue
    -- the one element belongs to a filled parameter
    obtain ⟨i, hi⟩ : ∃ i, i ∈ unit.filledMembers pattern key := by
      refine exists_mem_of_ne_nil _ fun hempty => ?_
      rw [← total_filledMembers, hempty, Packing.total_nil] at htotal
      omega
    have hnodup : ∀ pattern, (unit.filledMembers pattern key).Nodup := fun pattern =>
      ((nodup_finRange _).filter _).filter _
    have hall : ∀ q ∈ unit.filledMembers lastPattern key, q ∈ unit.filledMembers pattern key :=
      fun q hq => honly i hi q hq ▸ hi
    exact hsublist.eq_of_length_le ((subperm_of_subset (hnodup lastPattern) hall).length_le)

/-- No gradient is lost, whatever the gradients, exactly when every bucket has the filled
parameters of the last bucket of its key and no active parameter is refused. -/
theorem losesNothing_iff_keepsBuckets [CharZero K] [Inhabited Rank] (patterns : List unit.Pattern)
    (lastPattern : unit.Pattern) :
    (∀ (steps : List (unit.MicroStep K)) last, steps.map unit.pattern = patterns →
      unit.pattern last = lastPattern → unit.LosesNothing steps last) ↔
      unit.KeepsBuckets patterns lastPattern := by
  constructor
  · exact keepsBuckets_of_losesNothing
  · rintro h steps last rfl rfl
    exact losesNothing_of_keepsBuckets h

theorem bothRanks : NeZero 2 := ⟨by decide⟩

attribute [local instance] bothRanks

theorem mem_bothRanks : ∀ rank : Fin 2, rank ∈ [(0 : Fin 2), 1] := by decide

theorem nodup_bothRanks (_ : Fin 2) : [(0 : Fin 2), 1].Nodup := by decide

theorem members_bothRanks (_ : Fin 2) : ∀ other ∈ [(0 : Fin 2), 1], [(0 : Fin 2), 1] = [0, 1] :=
  fun _ _ => rfl

theorem length_bothRanks (_ : Fin 2) : [(0 : Fin 2), 1].length = 2 := rfl

/-- Two vectors of two elements, sharded over two ranks. -/
def twoVectors : ParamGroup (Fin 2) where
  group _ := {
    members := fun _ => [0, 1]
    size := 2
    mem_self := mem_bothRanks
    nodup := nodup_bothRanks
    members_eq := members_bothRanks
    length_eq := length_bothRanks }
  count := 2
  param _ := {
    shape := [2]
    shardDim := 0
    shardGroup := some 0
    replicateGroup := none
    reduceDtype := none
    shardDim_lt := by decide }
  even _ hdim := absurd rfl hdim
  replicate_eq _ _ _ := rfl
  aligned _ _ _ _ hreplicate := by cases hreplicate

def onlyVector (vector : Fin 2) : twoVectors.MicroStep Rat :=
  fun (i : Fin 2) => if i = vector then some ⟨.float32, fun _ _ => 1⟩ else none

def bothVectors : twoVectors.MicroStep Rat := fun _ => some ⟨.float32, fun _ _ => 1⟩

theorem losesNothing_iff_keepsBuckets_both :
    twoVectors.LosesNothing [bothVectors] bothVectors := by
  refine (losesNothing_iff_keepsBuckets [twoVectors.pattern bothVectors]
    (twoVectors.pattern bothVectors)).mpr ?_ [bothVectors] bothVectors rfl rfl
  constructor
  case packable =>
    intro _ _ i _
    decide +revert
  case active =>
    intro pattern hpattern i hi
    rwa [mem_singleton.mp hpattern] at hi
  case same =>
    intro pattern hpattern key
    rw [mem_singleton.mp hpattern]
    exact (em _).imp_right fun hne => ⟨hne, rfl⟩

/-- The gradient of one vector alone, then of the other alone: the first has no view. -/
theorem losesNothing_fails_disjoint : ¬∀ (unit : ParamGroup (Fin 2))
    (steps : List (unit.MicroStep Rat)) last, unit.LosesNothing steps last := by
  intro h
  obtain ⟨state, hstate, -, hviews⟩ := h twoVectors [onlyVector 1] (onlyVector 0)
  obtain ⟨parked, parked', merged, -, -, hmerged, rfl⟩ := accumulate_eq_ok hstate
  obtain ⟨-, hmerged⟩ := addParked_eq_ok nodup_stepBuckets (fun _ _ => rfl) hmerged
  obtain ⟨view, hview, -⟩ := hviews (1 : Fin 2) ⟨onlyVector 1, mem_cons_self, rfl⟩
  have hnone := @reducedGrad_eq_none _ _ twoVectors _ _ (onlyVector 0) parked' merged (1 : Fin 2)
    (map_params_merged hmerged) rfl
  exact Option.some_ne_none view (hview.symm.trans hnone)

end ParamGroup

end HyperParallel.FullyShard
