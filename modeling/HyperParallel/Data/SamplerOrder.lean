import HyperParallel.Data.BatchSampler

/-!
# The order all samplers share

Whatever the mode, the samples of an epoch stand in one order, and a sampler at
cursor `pos` hands out its part of the positions from `pos` on.  The order does
not depend on the world size, unless every rank shuffles a bucket of its own.
-/

namespace HyperParallel.Data

open Foundation List

/-- The sample at a position of the epoch. -/
def orderAt (options : SamplerOptions) (shuffle : Shuffle) (epoch dpWorldSize position : Nat) : Int :=
  match options.samplerType with
  | .single =>
    match options.indexMapping with
    | none => position
    | some mapping => mapping position
  | .cyclic false seed =>
    ((shuffle.run (seed + epoch) (List.range options.totalSamples)).getD position 0 : Nat)
  | .cyclic true seed =>
    let active := options.totalSamples -
      options.totalSamples % (options.microBatchSize * dpWorldSize)
    let bucketSize := active / dpWorldSize
    ((position % dpWorldSize * bucketSize +
      (shuffle.run (seed + epoch) (List.range bucketSize)).getD (position / dpWorldSize) 0 : Nat))

/-- Where rank `dpRank` finds entry `entry` of its part of a global micro-batch. -/
def entryOffset (options : SamplerOptions) (dpWorldSize dpRank entry : Nat) : Nat :=
  match options.samplerType with
  | .single => dpRank * options.microBatchSize + entry
  | .cyclic _ _ => entry * dpWorldSize + dpRank

def endCursor (options : SamplerOptions) (dpWorldSize : Nat) : Nat :=
  match options.samplerType with
  | .single => options.totalSamples
  | .cyclic _ _ =>
    options.totalSamples - options.totalSamples % (options.microBatchSize * dpWorldSize)

/-- The part of rank `dpRank` in the global micro-batch at cursor `pos`. -/
def localBatch (options : SamplerOptions) (shuffle : Shuffle) (epoch dpWorldSize dpRank pos : Nat) :
    List Int :=
  (List.range options.microBatchSize).map fun entry =>
    orderAt options shuffle epoch dpWorldSize (pos + entryOffset options dpWorldSize dpRank entry)

namespace Sampler

variable (sampler : Sampler)

/-- The batches from cursor `pos` on, when every one of them is complete. -/
def evenTrace (shuffle : Shuffle) (pos count : Nat) : Trace :=
  { yields := (List.range count).map fun j =>
      (localBatch sampler.toSamplerOptions shuffle sampler.epoch sampler.dpWorldSize sampler.dpRank
          (pos + j * sampler.globalMicroBatchSize),
        pos + (j + 1) * sampler.globalMicroBatchSize)
    exhausted := endCursor sampler.toSamplerOptions sampler.dpWorldSize }

variable {sampler} {shuffle : Shuffle}

theorem iterSingle_eq (hsingle : sampler.samplerType = .single) (hdrop : sampler.dropLast = true)
    {pos count : Nat} (hpos : pos + count * sampler.globalMicroBatchSize ≤ sampler.totalSamples)
    (hrest : sampler.totalSamples < pos + (count + 1) * sampler.globalMicroBatchSize) :
    sampler.iterSingle pos = sampler.evenTrace shuffle pos count := by
  have hend : endCursor sampler.toSamplerOptions sampler.dpWorldSize = sampler.totalSamples := by
    rw [endCursor, hsingle]
  induction count generalizing pos with
  | zero =>
    rw [Nat.zero_mul] at hpos
    rw [Nat.zero_add, Nat.one_mul] at hrest
    rw [iterSingle, evenTrace, hend]
    split
    · rw [if_pos ⟨hdrop, by omega⟩]
      rfl
    · simp only [range_zero, map_nil, Trace.mk.injEq, true_and]
      omega
  | succ count ih =>
    have hpositive := sampler.globalMicroBatchSize_pos
    have hstep : (count + 1) * sampler.globalMicroBatchSize =
        count * sampler.globalMicroBatchSize + sampler.globalMicroBatchSize := Nat.succ_mul _ _
    have hstop : min (pos + sampler.globalMicroBatchSize) sampler.totalSamples =
        pos + sampler.globalMicroBatchSize := by omega
    have hlocal : sampler.dpRank * sampler.microBatchSize + sampler.microBatchSize ≤
        sampler.globalMicroBatchSize := by
      rw [← Nat.succ_mul, globalMicroBatchSize, Nat.mul_comm sampler.microBatchSize]
      exact Nat.mul_le_mul_right _ sampler.dpRank_lt
    have hmicro := sampler.microBatchSize_pos
    have hlater := @ih (pos + sampler.globalMicroBatchSize) (by omega) (by
      rw [Nat.succ_mul (count + 1)] at hrest
      omega)
    have hwidth : min (pos + sampler.dpRank * sampler.microBatchSize + sampler.microBatchSize)
        (pos + sampler.globalMicroBatchSize) - (pos + sampler.dpRank * sampler.microBatchSize) =
          sampler.microBatchSize := by omega
    rw [iterSingle, dif_pos (by omega)]
    simp only [hstop]
    rw [if_neg (by omega), if_neg (by omega), hlater, hwidth]
    simp only [evenTrace, range_succ_eq_map, map_cons, map_map, Nat.zero_mul, Nat.add_zero,
      Nat.zero_add, Nat.one_mul, Trace.mk.injEq, cons.injEq, Prod.mk.injEq, and_true]
    constructor
    · refine map_congr_left fun entry _ => ?_
      cases hmapping : sampler.indexMapping with
      | none => simp only [resolveIndex, orderAt, entryOffset, hsingle, hmapping, Nat.add_assoc]
      | some mapping =>
        simp only [resolveIndex, orderAt, entryOffset, hsingle, hmapping, Nat.add_assoc]
    · refine map_congr_left fun j _ => ?_
      simp only [Function.comp_apply, Nat.succ_mul]
      rw [show pos + sampler.globalMicroBatchSize + j * sampler.globalMicroBatchSize =
        pos + (j * sampler.globalMicroBatchSize + sampler.globalMicroBatchSize) by omega]
      rw [Nat.add_assoc pos, Nat.add_comm sampler.globalMicroBatchSize]

/-- In cyclic mode a rank takes every `dpWorldSize`-th position from the cursor on. -/
def rankEntry (sampler : Sampler) (shuffle : Shuffle) (dataSharding : Bool) (seed : Int)
    (active k : Nat) : Nat :=
  if dataSharding then
    sampler.dpRank * (active / sampler.dpWorldSize) +
      (shuffle.run (seed + sampler.epoch) (List.range (active / sampler.dpWorldSize))).getD
        (sampler.consumedSamples / sampler.dpWorldSize + k) 0
  else
    (shuffle.run (seed + sampler.epoch) (List.range sampler.totalSamples)).getD
      (sampler.consumedSamples + (sampler.dpRank + k * sampler.dpWorldSize)) 0

variable {dataSharding : Bool} {seed : Int}

theorem rankIndices_eq {active batches start : Nat}
    (hactive : active ≤ sampler.totalSamples)
    (hstart : sampler.consumedSamples = start * sampler.dpWorldSize)
    (hcount : active = sampler.consumedSamples + batches * sampler.dpWorldSize) :
    sampler.rankIndices shuffle dataSharding seed active =
      (range batches).map (sampler.rankEntry shuffle dataSharding seed active) := by
  have hworld := Nat.zero_lt_of_lt sampler.dpRank_lt
  cases dataSharding with
  | true =>
    have hbucket : active / sampler.dpWorldSize = start + batches := by
      rw [hcount, hstart, ← Nat.add_mul, Nat.mul_div_cancel _ hworld]
    have hoffset : sampler.consumedSamples / sampler.dpWorldSize = start := by
      rw [hstart, Nat.mul_div_cancel _ hworld]
    have hlength : (shuffle.run (seed + sampler.epoch) (range (start + batches))).length =
        start + batches := by rw [(shuffle.perm _ _).length_eq, length_range]
    simp only [rankIndices, if_true, hbucket, hoffset]
    apply ext_getElem (by simp [hlength])
    intro k hk _
    simp only [length_map, length_drop, hlength] at hk
    simp [rankEntry, hbucket, hoffset, hlength, show start + k < start + batches by omega]
  | false =>
    have hlength : (shuffle.run (seed + sampler.epoch)
        (range sampler.totalSamples)).length = sampler.totalSamples := by
      rw [(shuffle.perm _ _).length_eq, length_range]
    simp only [rankIndices, Bool.false_eq_true, if_false]
    refine Dealing.strided_eq (f := fun index => (shuffle.run (seed + sampler.epoch)
      (range sampler.totalSamples)).getD (sampler.consumedSamples + index) 0)
      hworld sampler.dpRank_lt ?_ fun index hindex => ?_
    · rw [length_drop, length_take, hlength]
      omega
    · rw [length_drop, length_take, hlength] at hindex
      rw [getElem?_drop, getElem?_take_of_lt (by omega), getD_eq_getElem?_getD,
        getElem?_eq_getElem (by omega)]
      rfl

theorem rankEntry_eq {start : Nat}
    (hcyclic : sampler.samplerType = .cyclic dataSharding seed)
    (hstart : sampler.consumedSamples = start * sampler.dpWorldSize) (k : Nat) :
    (sampler.rankEntry shuffle dataSharding seed
        (sampler.totalSamples - sampler.totalSamples % sampler.globalMicroBatchSize) k : Int) =
      orderAt sampler.toSamplerOptions shuffle sampler.epoch sampler.dpWorldSize
        (sampler.consumedSamples + (k * sampler.dpWorldSize + sampler.dpRank)) := by
  have hworld := Nat.zero_lt_of_lt sampler.dpRank_lt
  cases dataSharding with
  | true =>
    have hdiv : (start * sampler.dpWorldSize + (k * sampler.dpWorldSize + sampler.dpRank)) /
        sampler.dpWorldSize = start + k := by
      rw [← Nat.add_assoc, ← Nat.add_mul, Nat.mul_comm, Nat.mul_add_div hworld,
        Nat.div_eq_of_lt sampler.dpRank_lt, Nat.add_zero]
    have hmod : (start * sampler.dpWorldSize + (k * sampler.dpWorldSize + sampler.dpRank)) %
        sampler.dpWorldSize = sampler.dpRank := by
      rw [← Nat.add_assoc, ← Nat.add_mul, Nat.mul_comm, Nat.mul_add_mod,
        Nat.mod_eq_of_lt sampler.dpRank_lt]
    simp only [rankEntry, if_true, orderAt, hcyclic, hstart, hdiv, hmod,
      Nat.mul_div_cancel _ hworld, globalMicroBatchSize]
  | false =>
    simp only [rankEntry, Bool.false_eq_true, if_false, orderAt, hcyclic, Nat.add_comm]

theorem iterCyclic_eq {count before : Nat}
    (hcyclic : sampler.samplerType = .cyclic dataSharding seed)
    (hbefore : sampler.consumedSamples = before * sampler.globalMicroBatchSize)
    (hactive : sampler.consumedSamples + count * sampler.globalMicroBatchSize =
      sampler.totalSamples - sampler.totalSamples % sampler.globalMicroBatchSize)
    (henough : sampler.globalMicroBatchSize ≤ sampler.totalSamples) :
    sampler.iterCyclic shuffle dataSharding seed =
      .ok (sampler.evenTrace shuffle sampler.consumedSamples count) := by
  have hpositive := sampler.globalMicroBatchSize_pos
  have hmicro := sampler.microBatchSize_pos
  have hstart : sampler.consumedSamples = before * sampler.microBatchSize * sampler.dpWorldSize := by
    rw [hbefore, globalMicroBatchSize, Nat.mul_assoc]
  have hpos : ¬ sampler.totalSamples - sampler.totalSamples % sampler.globalMicroBatchSize ≤ 0 := by
    have := Nat.mod_lt sampler.totalSamples hpositive
    omega
  have halign : ¬ sampler.consumedSamples % sampler.globalMicroBatchSize ≠ 0 := by
    rw [hbefore, Nat.mul_mod_left]
    exact fun h => h rfl
  have hindices := @rankIndices_eq sampler shuffle dataSharding seed
    (sampler.totalSamples - sampler.totalSamples % sampler.globalMicroBatchSize)
    (count * sampler.microBatchSize) (before * sampler.microBatchSize) (Nat.sub_le _ _) hstart (by
      rw [← hactive, globalMicroBatchSize, Nat.mul_assoc])
  have hend : endCursor sampler.toSamplerOptions sampler.dpWorldSize =
      sampler.consumedSamples + count * sampler.globalMicroBatchSize := by
    rw [hactive, endCursor, hcyclic, globalMicroBatchSize]
  simp only [iterCyclic, activeSamples]
  rw [if_neg hpos]
  refine (if_neg halign).trans ?_
  rw [hindices, Dealing.groups_map_range hmicro]
  refine congrArg Except.ok ?_
  simp only [evenTrace, hend, length_map, length_range, Trace.mk.injEq, and_true]
  apply ext_getElem (by simp)
  intro j hj _
  simp only [getElem_mapIdx, getElem_map, getElem_range, Prod.mk.injEq, and_true,
    localBatch, map_map]
  refine map_congr_left fun entry _ => ?_
  rw [Function.comp_apply, rankEntry_eq hcyclic hstart, entryOffset, hcyclic]
  refine congrArg _ ?_
  rw [globalMicroBatchSize]
  ring

theorem iterate_eq (hdrop : sampler.dropLast = true) {before count : Nat}
    (hbefore : sampler.consumedSamples = before * sampler.globalMicroBatchSize)
    (hactive : sampler.consumedSamples + count * sampler.globalMicroBatchSize =
      sampler.totalSamples - sampler.totalSamples % sampler.globalMicroBatchSize)
    (henough : sampler.samplerType = .single ∨
      sampler.globalMicroBatchSize ≤ sampler.totalSamples) :
    sampler.iterate shuffle =
      .ok (sampler.evenTrace shuffle sampler.consumedSamples count) := by
  have hmod := Nat.mod_lt sampler.totalSamples sampler.globalMicroBatchSize_pos
  rw [iterate]
  cases htype : sampler.samplerType with
  | single =>
    exact congrArg Except.ok (@iterSingle_eq sampler shuffle htype hdrop sampler.consumedSamples
      count (by omega) (by rw [Nat.succ_mul]; omega))
  | cyclic dataSharding seed =>
    simp only
    refine iterCyclic_eq htype hbefore hactive ?_
    rcases henough with h | h
    · rw [htype] at h
      cases h
    · exact h

end Sampler

/-! ## All ranks together -/

section Order

variable {options : SamplerOptions} {shuffle : Shuffle} {epoch dpWorldSize : Nat}

theorem entryOffset_perm (f : Nat → Int) :
    ((range dpWorldSize).flatMap fun dpRank => (range options.microBatchSize).map fun entry =>
        f (entryOffset options dpWorldSize dpRank entry)).Perm
      ((range (options.microBatchSize * dpWorldSize)).map f) := by
  cases htype : options.samplerType with
  | single =>
    simp only [entryOffset, htype]
    rw [Dealing.flatMap_range_shift, Nat.mul_comm]
  | cyclic dataSharding seed =>
    simp only [entryOffset, htype]
    exact Dealing.deal_perm dpWorldSize options.microBatchSize f

theorem getD_shuffle_inj {key : Int} {size a b : Nat} (ha : a < size) (hb : b < size)
    (h : (shuffle.run key (range size)).getD a 0 = (shuffle.run key (range size)).getD b 0) :
    a = b := by
  have hlength : (shuffle.run key (range size)).length = size := by
    rw [(shuffle.perm _ _).length_eq, length_range]
  have hnodup : (shuffle.run key (range size)).Nodup := (shuffle.perm _ _).nodup_iff.mpr nodup_range
  rw [getD_eq_getElem?_getD, getD_eq_getElem?_getD,
    getElem?_eq_getElem (by omega), getElem?_eq_getElem (by omega)] at h
  exact (getElem_inj hnodup).mp h

theorem getD_shuffle_lt {key : Int} {size a : Nat} (ha : a < size) :
    (shuffle.run key (range size)).getD a 0 < size := by
  have hlength : (shuffle.run key (range size)).length = size := by
    rw [(shuffle.perm _ _).length_eq, length_range]
  rw [getD_eq_getElem?_getD, getElem?_eq_getElem (by omega)]
  exact mem_range.mp ((shuffle.perm _ _).subset (getElem_mem _))

def Rearranges (options : SamplerOptions) : Prop :=
  ∀ mapping, options.indexMapping = some mapping →
    ∀ a < options.totalSamples, ∀ b < options.totalSamples, mapping a = mapping b → a = b

theorem orderAt_inj (hrearranges : Rearranges options) (hworld : 0 < dpWorldSize) {a b : Nat}
    (ha : a < options.totalSamples - options.totalSamples % (options.microBatchSize * dpWorldSize))
    (hb : b < options.totalSamples - options.totalSamples % (options.microBatchSize * dpWorldSize))
    (h : orderAt options shuffle epoch dpWorldSize a = orderAt options shuffle epoch dpWorldSize b) :
    a = b := by
  cases htype : options.samplerType with
  | single =>
    simp only [orderAt, htype] at h
    cases hmapping : options.indexMapping with
    | none =>
      simp only [hmapping] at h
      omega
    | some mapping =>
      simp only [hmapping] at h
      exact hrearranges mapping hmapping a (by omega) b (by omega) h
  | cyclic dataSharding seed =>
    cases dataSharding with
    | false =>
      simp only [orderAt, htype] at h
      exact getD_shuffle_inj (by omega) (by omega) (Int.ofNat.inj h)
    | true =>
      have hdvd : dpWorldSize ∣
          options.totalSamples - options.totalSamples % (options.microBatchSize * dpWorldSize) :=
        Dvd.dvd.trans (Nat.dvd_mul_left _ _) (Nat.dvd_sub_mod _)
      obtain ⟨bucket, hbucket⟩ := hdvd
      rw [hbucket] at ha hb
      simp only [orderAt, htype, hbucket, Nat.mul_div_cancel_left bucket hworld] at h
      have hadiv : a / dpWorldSize < bucket := Nat.div_lt_of_lt_mul ha
      have hbdiv : b / dpWorldSize < bucket := Nat.div_lt_of_lt_mul hb
      have hoffset := @getD_shuffle_lt shuffle (seed + epoch) bucket _ hadiv
      have hoffset' := @getD_shuffle_lt shuffle (seed + epoch) bucket _ hbdiv
      have hbucketPos : 0 < bucket := by omega
      have h := Int.ofNat.inj h
      -- rank and offset can be read off the index
      have hrank : a % dpWorldSize = b % dpWorldSize := by
        have hquotient := congrArg (· / bucket) h
        simp only [Nat.mul_comm _ bucket, Nat.mul_add_div hbucketPos] at hquotient
        rwa [Nat.div_eq_of_lt hoffset, Nat.div_eq_of_lt hoffset'] at hquotient
      have hentry : a / dpWorldSize = b / dpWorldSize := by
        rw [hrank] at h
        exact getD_shuffle_inj hadiv hbdiv (Nat.add_left_cancel h)
      rw [← Nat.div_add_mod a dpWorldSize, ← Nat.div_add_mod b dpWorldSize, hrank, hentry]

end Order

end HyperParallel.Data
