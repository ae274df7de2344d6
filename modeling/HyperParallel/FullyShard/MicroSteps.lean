import HyperParallel.FullyShard.ParkedBuffers

/-!
# Parking, adding back and exposing

What each loop over the buckets of a step leaves behind, key by key and parameter
by parameter, and what one micro-step amounts to.
-/

namespace HyperParallel.FullyShard

open Foundation List

variable {Rank : Type} [DecidableEq Rank] {unit : ParamGroup Rank} {K : Type} [Field K]

namespace ParamGroup

/-! ### Parking -/

variable {parked parked' : PyDict BucketKey (Buffer Rank K)}
  {buckets merged : List (Bucket Rank K unit.count)}

theorem park_eq_ok (hnodup : (buckets.map Bucket.key).Nodup)
    (h : unit.park parked buckets = .ok parked') :
    (∀ key ∉ buckets.map Bucket.key, parked'.get? key = parked.get? key) ∧
      ∀ bucket ∈ buckets, ∃ buffer,
        growParked (parked.get? bucket.key) bucket.output = .ok buffer ∧
          parked'.get? bucket.key = some buffer := by
  induction buckets generalizing parked with
  | nil =>
    cases h
    exact ⟨fun _ _ => rfl, fun bucket hbucket => by cases hbucket⟩
  | cons first rest ih =>
    obtain ⟨hfresh, hrest⟩ := nodup_cons.mp hnodup
    obtain ⟨value, hgrown, hpark⟩ := bind_eq_ok h
    obtain ⟨hother, hbuckets⟩ := ih hrest hpark
    constructor
    · intro key hkey
      rw [map_cons, mem_cons, not_or] at hkey
      rw [hother key hkey.2, PyDict.get?_set_of_ne _ _ hkey.1]
    · intro bucket hbucket
      rcases mem_cons.mp hbucket with rfl | hbucket
      · refine ⟨value, hgrown, ?_⟩
        rw [hother _ hfresh, PyDict.get?_set_self]
      · have hne : bucket.key ≠ first.key := fun heq =>
          hfresh (heq ▸ mem_map_of_mem hbucket)
        have hgrown := hbuckets bucket hbucket
        rwa [PyDict.get?_set_of_ne _ _ hne] at hgrown

theorem exists_park (hnodup : (buckets.map Bucket.key).Nodup)
    (hfits : ∀ bucket ∈ buckets, ∀ buffer, parked.get? bucket.key = some buffer →
      buffer.Fits bucket.output) : ∃ parked', unit.park parked buckets = .ok parked' := by
  induction buckets generalizing parked with
  | nil => exact ⟨parked, rfl⟩
  | cons first rest ih =>
    obtain ⟨hfresh, hrest⟩ := nodup_cons.mp hnodup
    have hgrown : ∃ value,
        growParked (parked.get? first.key) first.output = .ok value := by
      unfold growParked
      split
      · exact ⟨_, rfl⟩
      · rename_i buffer hbuffer
        exact Buffer.exists_add_ (hfits first mem_cons_self buffer hbuffer)
    obtain ⟨value, hgrown⟩ := hgrown
    obtain ⟨parked', hpark⟩ := @ih (parked.set first.key value) hrest fun bucket hbucket buffer
        hbuffer => by
      have hne : bucket.key ≠ first.key := fun heq =>
        hfresh (heq ▸ mem_map_of_mem hbucket)
      rw [PyDict.get?_set_of_ne _ _ hne] at hbuffer
      exact hfits bucket (mem_cons_of_mem _ hbucket) buffer hbuffer
    refine ⟨parked', ?_⟩
    rw [park, hgrown]
    exact hpark

/-! ### Adding back -/

/-- A bucket with what `source` has parked under its key. -/
def Merged (source : BucketKey → Option (Buffer Rank K))
    (bucket result : Bucket Rank K unit.count) : Prop :=
  ∃ output, withParked (source bucket.key) bucket.output = .ok output ∧
    result = { bucket with output := output }

theorem addParked_eq_ok {source : BucketKey → Option (Buffer Rank K)}
    (hnodup : (buckets.map Bucket.key).Nodup)
    (hsource : ∀ key ∈ buckets.map Bucket.key, parked.get? key = source key)
    (h : unit.addParked parked buckets = .ok (parked', merged)) :
    (∀ key, parked'.get? key =
      if key ∈ buckets.map Bucket.key then none else parked.get? key) ∧
      Forall₂ (Merged source) buckets merged := by
  induction buckets generalizing parked merged with
  | nil =>
    cases h
    exact ⟨fun _ => by simp, .nil⟩
  | cons first rest ih =>
    obtain ⟨hfresh, hrest⟩ := nodup_cons.mp hnodup
    unfold addParked at h
    obtain ⟨output, houtput, h⟩ := bind_eq_ok h
    obtain ⟨⟨tailParked, tailMerged⟩, htail, h⟩ := bind_eq_ok h
    cases h
    have htailSource : ∀ key ∈ rest.map Bucket.key,
        (parked.erase first.key).get? key = source key := by
      intro key hkey
      have hne : key ≠ first.key := fun heq => hfresh (heq ▸ hkey)
      rw [PyDict.get?_erase, if_neg hne]
      exact hsource key (mem_cons_of_mem _ hkey)
    obtain ⟨hkeys, hmerged⟩ := ih hrest htailSource htail
    constructor
    · intro key
      rw [hkeys key, PyDict.get?_erase, map_cons]
      by_cases hkey : key = first.key
      · simp [hkey]
      · simp [hkey]
    · refine .cons ⟨output, ?_, rfl⟩ hmerged
      rw [← hsource first.key mem_cons_self]
      exact houtput

theorem exists_addParked (hnodup : (buckets.map Bucket.key).Nodup)
    (hfits : ∀ bucket ∈ buckets, ∀ buffer, parked.get? bucket.key = some buffer →
      bucket.output.Fits buffer) : ∃ result, unit.addParked parked buckets = .ok result := by
  induction buckets generalizing parked with
  | nil => exact ⟨(parked, []), rfl⟩
  | cons first rest ih =>
    obtain ⟨hfresh, hrest⟩ := nodup_cons.mp hnodup
    have houtput : ∃ output,
        withParked (parked.get? first.key) first.output = .ok output := by
      unfold withParked
      split
      · exact ⟨_, rfl⟩
      · rename_i buffer hbuffer
        exact Buffer.exists_add_ (hfits first mem_cons_self buffer hbuffer)
    obtain ⟨output, houtput⟩ := houtput
    obtain ⟨result, hresult⟩ := @ih (parked.erase first.key) hrest fun bucket hbucket buffer
        hbuffer => by
      have hne : bucket.key ≠ first.key := fun heq =>
        hfresh (heq ▸ mem_map_of_mem hbucket)
      rw [PyDict.get?_erase, if_neg hne] at hbuffer
      exact hfits bucket (mem_cons_of_mem _ hbucket) buffer hbuffer
    refine ⟨(result.1, { first with output := output } :: result.2), ?_⟩
    rw [addParked, houtput]
    change (unit.addParked (parked.erase first.key) rest >>= _) = _
    rw [hresult]
    rfl

/-! ### Views -/

theorem foldl_update_of_notMem {α β γ : Type} [DecidableEq α] (f : γ → β) {key : γ → α}
    {items : List γ} {a : α} (h : a ∉ items.map key) (outputs : α → β) :
    items.foldl (fun outputs item => Function.update outputs (key item) (f item)) outputs a
      = outputs a := by
  induction items generalizing outputs with
  | nil => rfl
  | cons item rest ih =>
    rw [map_cons, mem_cons, not_or] at h
    rw [foldl_cons, ih h.2, Function.update_of_ne h.1]

theorem foldl_update_of_mem {α β γ : Type} [DecidableEq α] (f : γ → β) {key : γ → α}
    {items : List γ} (hnodup : (items.map key).Nodup) {item : γ} (h : item ∈ items)
    (outputs : α → β) :
    items.foldl (fun outputs item => Function.update outputs (key item) (f item)) outputs
      (key item) = f item := by
  induction items generalizing outputs with
  | nil => cases h
  | cons first rest ih =>
    obtain ⟨hfresh, hrest⟩ := nodup_cons.mp hnodup
    rw [foldl_cons]
    rcases mem_cons.mp h with rfl | h
    · rw [foldl_update_of_notMem f hfresh, Function.update_self]
    · exact ih hrest h _

variable {outputs : Fin unit.count → Option (Buffer Rank K)}

omit [Field K] in
theorem foldl_exposeViews_of_notMem {i : Fin unit.count} (h : i ∉ buckets.flatMap Bucket.params) :
    buckets.foldl unit.exposeViews outputs i = outputs i := by
  induction buckets generalizing outputs with
  | nil => rfl
  | cons bucket rest ih =>
    rw [flatMap_cons, mem_append, not_or] at h
    rw [foldl_cons, ih h.2]
    apply foldl_update_of_notMem
    rw [Packing.map_fst_layoutFrom]
    exact h.1

omit [Field K] in
theorem foldl_exposeViews_of_mem {bucket : Bucket Rank K unit.count} {entry : Fin unit.count × Nat}
    (hnodup : (buckets.flatMap Bucket.params).Nodup) (hbucket : bucket ∈ buckets)
    (hentry : entry ∈ Packing.layoutFrom unit.paddedNumel 0 bucket.params) :
    buckets.foldl unit.exposeViews outputs entry.1
      = some (bucket.output.narrow entry.2 (unit.paddedNumel entry.1)) := by
  induction buckets generalizing outputs with
  | nil => cases hbucket
  | cons first rest ih =>
    rw [flatMap_cons] at hnodup
    obtain ⟨hfirst, hrest, hdisjoint⟩ := nodup_append.mp hnodup
    rw [foldl_cons]
    have hparam : entry.1 ∈ bucket.params := by
      rw [← Packing.map_fst_layoutFrom 0 bucket.params]
      exact mem_map_of_mem hentry
    rcases mem_cons.mp hbucket with rfl | hbucket
    · rw [foldl_exposeViews_of_notMem]
      · refine foldl_update_of_mem (fun entry : Fin unit.count × Nat =>
          some (bucket.output.narrow entry.2 (unit.paddedNumel entry.1))) ?_ hentry _
        rw [Packing.map_fst_layoutFrom]
        exact hfirst
      · exact fun hmem => hdisjoint _ hparam _ hmem rfl
    · exact ih hrest hbucket

/-! ### One micro-step -/

variable {step : unit.MicroStep K} {state state' : State Rank K unit.count}

theorem microStep_false_eq_ok_iff : unit.microStep false state step = .ok state' ↔
    unit.Packable step ∧ ∃ parked,
      unit.park state.reducePartialOutputs (unit.stepBuckets step) = .ok parked ∧
        state' = { state with
          reduceScatterBuckets := []
          allReduceBuckets := []
          reducePartialOutputs := parked } := by
  constructor
  · intro h
    obtain ⟨launched, hlaunched, h⟩ := bind_eq_ok h
    obtain ⟨hpackable, rfl⟩ := foreachReduceScatter_eq_ok_iff.mp hlaunched
    obtain ⟨waited, hwaited, h⟩ := bind_eq_ok h
    obtain ⟨parked, hpark, hwaited⟩ := bind_eq_ok hwaited
    dsimp only at hpark
    rw [waitReduceScatter_issuedBuckets] at hpark
    cases hwaited
    cases h
    exact ⟨hpackable, parked, hpark, rfl⟩
  · rintro ⟨hpackable, parked, hpark, rfl⟩
    have hlaunched : unit.foreachReduceScatter step state
        = .ok { state with reduceScatterBuckets := unit.issuedBuckets step } :=
      foreachReduceScatter_eq_ok_iff.mpr ⟨hpackable, rfl⟩
    unfold microStep
    rw [hlaunched]
    rw [← waitReduceScatter_issuedBuckets] at hpark
    change (unit.park _ (unit.waitReduceScatter (unit.issuedBuckets step)) >>= _) >>= _ = _
    rw [hpark]
    rfl

variable (unit) in
def replicated (bucket : Bucket Rank K unit.count) : Bucket Rank K unit.count :=
  { unit.allReduce bucket with
    output := (unit.allReduce bucket).output.div_
      (unit.worldSize (unit.allReduce bucket).replicateGroup) }

variable (unit) in
def exposed (state : State Rank K unit.count) (parked : PyDict BucketKey (Buffer Rank K))
    (merged : List (Bucket Rank K unit.count)) : State Rank K unit.count where
  reducePartialOutputs := parked
  reduceScatterOutput := (merged.filter fun bucket => bucket.replicateGroup.isNone).foldl
    unit.exposeViews state.reduceScatterOutput
  allReduceOutput := ((merged.filter fun bucket => bucket.replicateGroup.isSome).map
    unit.replicated).foldl unit.exposeViews state.allReduceOutput

theorem microStep_true_eq_ok_iff : unit.microStep true state step = .ok state' ↔
    unit.Packable step ∧ ∃ parked merged,
      unit.addParked state.reducePartialOutputs (unit.stepBuckets step) = .ok (parked, merged) ∧
        state' = unit.exposed state parked merged := by
  have hexposed : ∀ merged : List (Bucket Rank K unit.count),
      ((merged.filter fun bucket => bucket.replicateGroup.isSome).map unit.allReduce).map
        (fun bucket => { bucket with
          output := bucket.output.div_ (unit.worldSize bucket.replicateGroup) })
        = (merged.filter fun bucket => bucket.replicateGroup.isSome).map unit.replicated := by
    intro merged
    rw [map_map]
    rfl
  constructor
  · intro h
    obtain ⟨launched, hlaunched, h⟩ := bind_eq_ok h
    obtain ⟨hpackable, rfl⟩ := foreachReduceScatter_eq_ok_iff.mp hlaunched
    obtain ⟨waited, hwaited, h⟩ := bind_eq_ok h
    obtain ⟨⟨parked, merged⟩, hmerged, hwaited⟩ := bind_eq_ok hwaited
    dsimp only at hmerged
    rw [waitReduceScatter_issuedBuckets] at hmerged
    cases hwaited
    cases h
    refine ⟨hpackable, parked, merged, hmerged, ?_⟩
    simp only [waitAllReduceAndSaveGrad, hexposed, exposed]
  · rintro ⟨hpackable, parked, merged, hmerged, rfl⟩
    have hlaunched : unit.foreachReduceScatter step state
        = .ok { state with reduceScatterBuckets := unit.issuedBuckets step } :=
      foreachReduceScatter_eq_ok_iff.mpr ⟨hpackable, rfl⟩
    unfold microStep
    rw [hlaunched]
    rw [← waitReduceScatter_issuedBuckets] at hmerged
    change (unit.addParked _ (unit.waitReduceScatter (unit.issuedBuckets step)) >>= _) >>= _ = _
    rw [hmerged]
    change Except.ok _ = Except.ok _
    simp only [waitAllReduceAndSaveGrad, hexposed, exposed]

end ParamGroup

end HyperParallel.FullyShard
