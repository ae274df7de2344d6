import Mathlib.Data.List.Pairwise
import HyperParallel.FullyShard.MicroSteps

/-!
# When no gradient is lost

Parked buffers are told apart by their key only.  The sum over the micro-steps is
the right one exactly when every bucket that ever forms has the filled parameters
of the last bucket of its key.
-/

namespace HyperParallel.FullyShard

open Foundation List

namespace ParamGroup

variable {Rank : Type} [DecidableEq Rank] (unit : ParamGroup Rank) {K : Type} [Field K]

/-! ### What is asked for -/

def gradAt (step : unit.MicroStep K) (i : Fin unit.count) (rank : Rank) (position : Nat) : K :=
  match step i with
  | some grad => grad.value rank position
  | none => 0

def meanGradSum (steps : List (unit.MicroStep K)) (i : Fin unit.count) (rank : Rank)
    (position : Nat) : K :=
  (steps.map fun step => unit.mean (unit.param i).replicateGroup (fun replica =>
    unit.mean (unit.param i).shardGroup (fun other => unit.gradAt step i other position)
      replica) rank).sum

def cutToShard (view : Buffer Rank K) (i : Fin unit.count) (rank : Rank) : Option (List K) :=
  let numel := (unit.shard i rank).length
  if numel ≤ view.size then some ((List.range numel).map (view.data rank)) else none

/-- Nothing raises, nothing stays parked, and every parameter that had a gradient shows its
shard of the sum. -/
def LosesNothing (steps : List (unit.MicroStep K)) (last : unit.MicroStep K) : Prop :=
  ∃ state, unit.accumulate steps last = .ok state ∧ state.reducePartialOutputs.entries = [] ∧
    ∀ i, (∃ step ∈ steps ++ [last], (step i).isSome) →
      ∃ view, state.reducedGrad i = some view ∧ ∀ rank, unit.cutToShard view i rank
        = some ((unit.shard i rank).map (unit.meanGradSum (steps ++ [last]) i rank))

/-- Which parameters have a gradient, and of what dtype. -/
abbrev Pattern := Fin unit.count → Option DType

def pattern (step : unit.MicroStep K) : unit.Pattern := fun i => (step i).map Grad.dtype

def bucketMembers (pattern : unit.Pattern) (key : BucketKey) : List (Fin unit.count) :=
  (List.finRange unit.count).filter fun i => (pattern i).map (unit.bucketKey i) = some key

/-- Those of them that have elements. -/
def filledMembers (pattern : unit.Pattern) (key : BucketKey) : List (Fin unit.count) :=
  (unit.bucketMembers pattern key).filter fun i => (unit.param i).shape.prod ≠ 0

/-- No active parameter is refused, those active before are so at the end, and a bucket has
the parameters of the last of its key; parameters without elements need no bucket of their own. -/
structure KeepsBuckets (patterns : List unit.Pattern) (last : unit.Pattern) : Prop where
  packable : ∀ pattern ∈ patterns ++ [last], ∀ i, (pattern i).isSome → ¬(unit.param i).Unpackable
  active : ∀ pattern ∈ patterns, ∀ i, (pattern i).isSome → (last i).isSome
  same : ∀ pattern ∈ patterns, ∀ key, unit.bucketMembers pattern key = [] ∨
    unit.bucketMembers last key ≠ [] ∧ unit.filledMembers pattern key = unit.filledMembers last key

variable {unit}

variable {key : BucketKey}

theorem mem_bucketMembers {pattern : unit.Pattern} {i : Fin unit.count} :
    i ∈ unit.bucketMembers pattern key ↔
      ∃ dtype, pattern i = some dtype ∧ unit.bucketKey i dtype = key := by
  simp [bucketMembers]

omit [Field K] in
theorem map_fst_entriesAt (step : unit.MicroStep K) (key : BucketKey) :
    (unit.entriesAt step key).map Prod.fst = unit.bucketMembers (unit.pattern step) key := by
  unfold entriesAt activeGrads bucketMembers
  induction List.finRange unit.count with
  | nil => rfl
  | cons i rest ih =>
    cases hgrad : step i with
    | none =>
      rw [filterMap_cons_none (by rw [hgrad]; rfl), ih, filter_cons_of_neg]
      simp [pattern, hgrad]
    | some grad =>
      rw [filterMap_cons_some (by rw [hgrad]; rfl)]
      by_cases hkey : unit.bucketKey i grad.dtype = key
      · rw [filter_cons_of_pos (by simpa using hkey), filter_cons_of_pos, map_cons, map_cons, ih]
        simpa [pattern, hgrad] using hkey
      · rw [filter_cons_of_neg (by simpa using hkey), filter_cons_of_neg, ih]
        simpa [pattern, hgrad] using hkey

/-! ### What is parked after a run -/

structure Parked (steps : List (unit.MicroStep K))
    (parked : PyDict BucketKey (Buffer Rank K)) : Prop where
  absent : ∀ key, parked.get? key = none → ∀ step ∈ steps, unit.entriesAt step key = []
  reached : ∀ key buffer, parked.get? key = some buffer → ∃ step ∈ steps,
    unit.entriesAt step key ≠ [] ∧ buffer.size = (unit.averaged step key).size
  fits : ∀ key buffer, parked.get? key = some buffer → ∀ step ∈ steps,
    unit.entriesAt step key ≠ [] → buffer.Fits (unit.averaged step key)
  element : ∀ key buffer, parked.get? key = some buffer → ∀ rank j, buffer.element rank j
    = (steps.map fun step => (unit.averaged step key).element rank j).sum

variable {steps : List (unit.MicroStep K)} {step last : unit.MicroStep K}
  {parked parked' : PyDict BucketKey (Buffer Rank K)}

theorem Parked.nil : Parked ([] : List (unit.MicroStep K)) PyDict.empty := by
  constructor
  case absent => exact fun _ _ step hstep => by cases hstep
  case reached => exact fun _ _ h => by cases h
  case fits => exact fun _ _ h => by cases h
  case element => exact fun _ _ h => by cases h

theorem mem_stepBuckets (h : unit.entriesAt step key ≠ []) :
    ∃ bucket ∈ unit.stepBuckets step, bucket.key = key ∧
      bucket.params = (unit.entriesAt step key).map Prod.fst ∧
      bucket.replicateGroup = ((unit.entriesAt step key).map Prod.fst).head?.bind
        (fun i => (unit.param i).replicateGroup) ∧
      bucket.output = unit.averaged step key :=
  ⟨_, List.mem_map_of_mem (mem_keys.mpr h), rfl, rfl, rfl, rfl⟩

theorem mem_map_key_stepBuckets :
    key ∈ (unit.stepBuckets step).map Bucket.key ↔ unit.entriesAt step key ≠ [] := by
  rw [map_key_stepBuckets, mem_keys]

theorem sum_of_absent (h : ∀ step ∈ steps, unit.entriesAt step key = []) (rank : Rank) (j : Nat) :
    (steps.map fun step => (unit.averaged step key).element rank j).sum = 0 := by
  apply sum_eq_zero
  intro value hvalue
  obtain ⟨step, hstep, rfl⟩ := mem_map.mp hvalue
  exact averaged_element_of_nil (h step hstep) rank j

theorem Parked.snoc (h : Parked steps parked)
    (hpark : unit.park parked (unit.stepBuckets step) = .ok parked') :
    Parked (steps ++ [step]) parked' := by
  obtain ⟨hother, hbuckets⟩ := park_eq_ok nodup_stepBuckets hpark
  have hkept : ∀ key, unit.entriesAt step key = [] → parked'.get? key = parked.get? key :=
    fun key hnil => hother key fun hmem => mem_map_key_stepBuckets.mp hmem hnil
  have hgrown : ∀ key, unit.entriesAt step key ≠ [] → ∃ buffer,
      growParked (parked.get? key) (unit.averaged step key) = .ok buffer ∧
        parked'.get? key = some buffer := by
    intro key hne
    obtain ⟨bucket, hmem, rfl, -, -, houtput⟩ := mem_stepBuckets hne
    exact houtput ▸ hbuckets bucket hmem
  have hcase : ∀ key buffer', parked'.get? key = some buffer' → unit.entriesAt step key ≠ [] →
      (parked.get? key = none ∧ buffer' = unit.averaged step key) ∨
      ∃ buffer, parked.get? key = some buffer ∧
        buffer.add_ (unit.averaged step key) = .ok buffer' := by
    intro key buffer' hget hne
    obtain ⟨sum, hsum, hget'⟩ := hgrown key hne
    obtain rfl := Option.some.inj (hget.symm.trans hget')
    unfold growParked at hsum
    split at hsum
    · rename_i hnone
      cases hsum
      exact Or.inl ⟨hnone, rfl⟩
    · rename_i buffer hbuffer
      exact Or.inr ⟨buffer, hbuffer, hsum⟩
  constructor
  case absent =>
    intro key hnone other hmem
    by_cases hnil : unit.entriesAt step key = []
    · rcases mem_append.mp hmem with hmem | hmem
      · exact h.absent key (hkept key hnil ▸ hnone) other hmem
      · exact mem_singleton.mp hmem ▸ hnil
    · obtain ⟨buffer, -, hget⟩ := hgrown key hnil
      rw [hnone] at hget
      cases hget
  case reached =>
    intro key buffer' hget
    by_cases hnil : unit.entriesAt step key = []
    · obtain ⟨other, hmem, hreached⟩ := h.reached key buffer' (hkept key hnil ▸ hget)
      exact ⟨other, mem_append_left _ hmem, hreached⟩
    · rcases hcase key buffer' hget hnil with ⟨-, rfl⟩ | ⟨buffer, hbuffer, hadd⟩
      · exact ⟨step, by simp, hnil, rfl⟩
      · obtain ⟨other, hmem, hne, hsize⟩ := h.reached key buffer hbuffer
        exact ⟨other, mem_append_left _ hmem, hne, (Buffer.add_eq_ok hadd).2.1.trans hsize⟩
  case fits =>
    intro key buffer' hget other hmem hne
    by_cases hnil : unit.entriesAt step key = []
    · rcases mem_append.mp hmem with hmem | hmem
      · exact h.fits key buffer' (hkept key hnil ▸ hget) other hmem hne
      · exact absurd (mem_singleton.mp hmem ▸ hnil) hne
    · rcases hcase key buffer' hget hnil with ⟨hnone, rfl⟩ | ⟨buffer, hbuffer, hadd⟩
      · rcases mem_append.mp hmem with hmem | hmem
        · exact absurd (h.absent key hnone other hmem) hne
        · exact mem_singleton.mp hmem ▸ Or.inl rfl
      · obtain ⟨hfits, hsize, -⟩ := Buffer.add_eq_ok hadd
        unfold Buffer.Fits at hfits ⊢
        rw [hsize]
        rcases mem_append.mp hmem with hmem | hmem
        · exact h.fits key buffer hbuffer other hmem hne
        · exact mem_singleton.mp hmem ▸ hfits
  case element =>
    intro key buffer' hget rank j
    rw [map_append, sum_append, map_singleton, sum_singleton]
    by_cases hnil : unit.entriesAt step key = []
    · rw [averaged_element_of_nil hnil, add_zero]
      exact h.element key buffer' (hkept key hnil ▸ hget) rank j
    · rcases hcase key buffer' hget hnil with ⟨hnone, rfl⟩ | ⟨buffer, hbuffer, hadd⟩
      · rw [sum_of_absent (h.absent key hnone), zero_add]
      · rw [(Buffer.add_eq_ok hadd).2.2, h.element key buffer hbuffer]

theorem parked_of_run {state : State Rank K unit.count}
    (h : steps.foldlM (unit.microStep false) {} = .ok state) :
    (∀ step ∈ steps, unit.Packable step) ∧ Parked steps state.reducePartialOutputs ∧
      state = { reducePartialOutputs := state.reducePartialOutputs } := by
  induction steps using reverseRecOn generalizing state with
  | nil =>
    cases h
    exact ⟨fun step hstep => (by cases hstep), Parked.nil, rfl⟩
  | append_singleton steps step ih =>
    rw [foldlM_append] at h
    obtain ⟨middle, hmiddle, h⟩ := bind_eq_ok h
    obtain ⟨next, hnext, h⟩ := bind_eq_ok h
    cases h
    obtain ⟨hpackable, hparked, hmiddle'⟩ := ih hmiddle
    obtain ⟨hstep, parked, hpark, rfl⟩ := microStep_false_eq_ok_iff.mp hnext
    refine ⟨?_, hparked.snoc hpark, ?_⟩
    · intro other hmem
      rcases mem_append.mp hmem with hmem | hmem
      · exact hpackable other hmem
      · exact mem_singleton.mp hmem ▸ hstep
    · rw [hmiddle']

theorem exists_run (hpackable : ∀ step ∈ steps, unit.Packable step)
    (hsizes : ∀ first ∈ steps, ∀ second ∈ steps, ∀ key, unit.entriesAt first key ≠ [] →
      unit.entriesAt second key ≠ [] →
      (unit.averaged second key).size = (unit.averaged first key).size) :
    ∃ state, steps.foldlM (unit.microStep false) {} = .ok state := by
  induction steps using reverseRecOn with
  | nil => exact ⟨_, rfl⟩
  | append_singleton steps step ih =>
    obtain ⟨state, hstate⟩ := ih
      (fun other hmem => hpackable other (mem_append_left _ hmem))
      (fun first hfirst second hsecond => hsizes first (mem_append_left _ hfirst)
        second (mem_append_left _ hsecond))
    obtain ⟨-, hparked, -⟩ := parked_of_run hstate
    obtain ⟨parked, hpark⟩ := @exists_park _ _ unit _ _ state.reducePartialOutputs
      (unit.stepBuckets step) nodup_stepBuckets fun bucket hbucket buffer hbuffer => by
        have hne := mem_map_key_stepBuckets.mp (mem_map_of_mem hbucket)
        obtain ⟨other, hmem, hother, hsize⟩ := hparked.reached bucket.key buffer hbuffer
        obtain ⟨key, -, rfl⟩ := mem_map.mp hbucket
        apply Or.inl
        rw [hsize]
        exact hsizes other (mem_append_left _ hmem) step (by simp) key hother hne
    obtain ⟨next, hnext⟩ : ∃ next, unit.microStep false state step = .ok next :=
      ⟨_, microStep_false_eq_ok_iff.mpr ⟨hpackable step (by simp), parked, hpark, rfl⟩⟩
    refine ⟨next, ?_⟩
    rw [foldlM_append, hstate]
    change (unit.microStep false state step >>= _) = _
    rw [hnext]
    rfl

/-! ### The last micro-step -/

theorem withParked_eq_ok (h : Parked steps parked) {output : Buffer Rank K}
    (houtput : withParked (parked.get? key) (unit.averaged last key) = .ok output) :
    output.size = (unit.averaged last key).size ∧
      (∀ step ∈ steps, unit.entriesAt step key ≠ [] →
        (unit.averaged step key).size = (unit.averaged last key).size ∨
          (unit.averaged step key).size = 1) ∧
      ∀ rank j, output.element rank j
        = ((steps ++ [last]).map fun step => (unit.averaged step key).element rank j).sum := by
  unfold withParked at houtput
  split at houtput
  · rename_i hnone
    cases houtput
    have habsent := h.absent key hnone
    refine ⟨rfl, fun step hstep hne => absurd (habsent step hstep) hne, fun rank j => ?_⟩
    rw [map_append, sum_append, sum_of_absent habsent, zero_add, map_singleton, sum_singleton]
  · rename_i buffer hbuffer
    obtain ⟨hfits, hsize, helement⟩ := Buffer.add_eq_ok houtput
    refine ⟨hsize, fun step hstep hne => ?_, fun rank j => ?_⟩
    · have hstepFits := h.fits key buffer hbuffer step hstep hne
      unfold Buffer.Fits at hfits hstepFits
      omega
    · rw [helement, h.element key buffer hbuffer, map_append, sum_append,
        map_singleton, sum_singleton, add_comm]

theorem stepBuckets_disjoint : (unit.stepBuckets step).Pairwise fun first second =>
    List.Disjoint first.params second.params := by
  unfold stepBuckets
  rw [pairwise_map]
  refine (PyDict.keys_nodup _).imp fun hne => ?_
  intro i hfirst hsecond
  obtain ⟨⟨_, grad⟩, hentry, rfl⟩ := mem_map.mp hfirst
  obtain ⟨⟨_, grad'⟩, hentry', heq⟩ := mem_map.mp hsecond
  cases heq
  obtain ⟨hgrad, hkey⟩ := mem_entriesAt.mp hentry
  obtain ⟨hgrad', hkey'⟩ := mem_entriesAt.mp hentry'
  rw [hgrad] at hgrad'
  cases hgrad'
  exact hne (hkey.symm.trans hkey')

theorem replicated_spec (bucket : Bucket Rank K unit.count) :
    (unit.replicated bucket).params = bucket.params ∧
      (unit.replicated bucket).output.size = bucket.output.size ∧
      ∀ rank j, (unit.replicated bucket).output.data rank j
        = unit.mean bucket.replicateGroup (fun replica => bucket.output.data replica j) rank := by
  unfold replicated allReduce Buffer.div_
  by_cases hsize : 1 < unit.worldSize bucket.replicateGroup
  · simp only [if_pos hsize]
    exact ⟨trivial, trivial, fun _ _ => rfl⟩
  · simp only [if_neg hsize]
    exact ⟨trivial, trivial, fun rank j =>
      (mean_eq_of_single hsize (fun replica => bucket.output.data replica j) rank).symm⟩

theorem nodup_flatten_params {params : List (List (Fin unit.count))}
    (h : params.Sublist ((unit.stepBuckets step).map Bucket.params)) : params.flatten.Nodup := by
  rw [nodup_flatten]
  constructor
  · intro group hgroup
    obtain ⟨bucket, hbucket, rfl⟩ := mem_map.mp (h.subset hgroup)
    obtain ⟨key, -, rfl⟩ := mem_map.mp hbucket
    exact nodup_entriesAt_params key
  · exact (pairwise_map.mpr stepBuckets_disjoint).sublist h

theorem map_params_merged {source : BucketKey → Option (Buffer Rank K)}
    {buckets merged : List (Bucket Rank K unit.count)}
    (h : Forall₂ (Merged source) buckets merged) :
    merged.map Bucket.params = buckets.map Bucket.params := by
  induction h with
  | nil => rfl
  | cons hhead _ ih =>
    obtain ⟨output, -, rfl⟩ := hhead
    rw [map_cons, map_cons, ih]

theorem reducedGrad_exposed {merged : List (Bucket Rank K unit.count)}
    {result : Bucket Rank K unit.count} {entry : Fin unit.count × Nat}
    (hparams : merged.map Bucket.params = (unit.stepBuckets last).map Bucket.params)
    (hresult : result ∈ merged)
    (hentry : entry ∈ Packing.layoutFrom unit.paddedNumel 0 result.params) :
    ∃ view, (unit.exposed {} parked merged).reducedGrad entry.1 = some view ∧
      view.size = unit.paddedNumel entry.1 ∧
      ∀ rank c, view.data rank c = unit.mean result.replicateGroup
        (fun replica => result.output.data replica (entry.2 + c)) rank := by
  have hparam : entry.1 ∈ result.params := Packing.mem_of_mem_layoutFrom hentry
  have hnodup : ∀ keeps : Bucket Rank K unit.count → Bool,
      ((merged.filter keeps).flatMap Bucket.params).Nodup := by
    intro keeps
    rw [flatMap_def]
    have hsublist : ((merged.filter keeps).map Bucket.params).Sublist
        ((unit.stepBuckets last).map Bucket.params) := by
      rw [← hparams]
      exact filter_sublist.map _
    exact nodup_flatten_params hsublist
  have hreplicated : ∀ buckets : List (Bucket Rank K unit.count),
      (buckets.map unit.replicated).flatMap Bucket.params = buckets.flatMap Bucket.params := by
    intro buckets
    rw [flatMap_map]
    exact flatMap_congr fun bucket _ => (replicated_spec bucket).1
  cases hgroup : result.replicateGroup with
  | none =>
    have hnone : entry.1 ∉ ((merged.filter fun bucket => bucket.replicateGroup.isSome).map
        unit.replicated).flatMap Bucket.params := by
      rw [hreplicated]
      intro hmem
      obtain ⟨other, hother, hmem⟩ := mem_flatMap.mp hmem
      obtain ⟨hother, hsome⟩ := mem_filter.mp hother
      have hpairwise : merged.Pairwise fun first second =>
          List.Disjoint first.params second.params := by
        rw [← pairwise_map (R := List.Disjoint), hparams, pairwise_map]
        exact stepBuckets_disjoint
      have hne : result ≠ other := by
        rintro rfl
        rw [hgroup] at hsome
        cases hsome
      have : Std.Symm fun first second : Bucket Rank K unit.count =>
          List.Disjoint first.params second.params := ⟨fun _ _ h _ hfirst hsecond => h hsecond hfirst⟩
      exact hpairwise.forall hresult hother hne hparam hmem
    refine ⟨result.output.narrow entry.2 (unit.paddedNumel entry.1), ?_, rfl, fun rank c => ?_⟩
    · have hoff : (unit.exposed {} parked merged).allReduceOutput entry.1 = none :=
        foldl_exposeViews_of_notMem hnone
      rw [State.reducedGrad, hoff]
      apply foldl_exposeViews_of_mem (hnodup _) _ hentry
      exact mem_filter.mpr ⟨hresult, by simp [hgroup]⟩
    · have hsingle : ¬1 < unit.worldSize none := Nat.lt_irrefl 1
      rw [mean_eq_of_single hsingle]
      rfl
  | some r =>
    obtain ⟨hsame, -, hdata⟩ := replicated_spec result
    refine ⟨(unit.replicated result).output.narrow entry.2 (unit.paddedNumel entry.1), ?_, rfl,
      fun rank c => ?_⟩
    · have hon : (unit.exposed {} parked merged).allReduceOutput entry.1
          = some ((unit.replicated result).output.narrow entry.2 (unit.paddedNumel entry.1)) := by
        apply foldl_exposeViews_of_mem
        · rw [hreplicated]
          exact hnodup _
        · exact mem_map_of_mem (mem_filter.mpr ⟨hresult, by simp [hgroup]⟩)
        · rw [hsame]
          exact hentry
      rw [State.reducedGrad, hon]
    · rw [← hgroup]
      exact hdata rank (entry.2 + c)

theorem reducedGrad_eq_none {merged : List (Bucket Rank K unit.count)} {i : Fin unit.count}
    (hparams : merged.map Bucket.params = (unit.stepBuckets last).map Bucket.params)
    (hinactive : last i = none) : (unit.exposed {} parked merged).reducedGrad i = none := by
  have hnotMem : i ∉ merged.flatMap Bucket.params := by
    rw [flatMap_def, hparams, ← flatMap_def]
    intro hmem
    obtain ⟨bucket, hbucket, hmem⟩ := mem_flatMap.mp hmem
    obtain ⟨key, -, rfl⟩ := mem_map.mp hbucket
    obtain ⟨entry, hentry, rfl⟩ := mem_map.mp hmem
    rw [(mem_entriesAt.mp hentry).1] at hinactive
    cases hinactive
  have hfiltered : ∀ keeps : Bucket Rank K unit.count → Bool,
      i ∉ (merged.filter keeps).flatMap Bucket.params := by
    intro keeps hmem
    obtain ⟨bucket, hbucket, hmem⟩ := mem_flatMap.mp hmem
    exact hnotMem (mem_flatMap.mpr ⟨bucket, (mem_filter.mp hbucket).1, hmem⟩)
  have hall : (unit.exposed {} parked merged).allReduceOutput i = none := by
    apply foldl_exposeViews_of_notMem
    rw [flatMap_map, flatMap_congr fun bucket _ => (replicated_spec bucket).1]
    exact hfiltered _
  rw [State.reducedGrad, hall]
  exact foldl_exposeViews_of_notMem (hfiltered _)

end ParamGroup

end HyperParallel.FullyShard
