import HyperParallel.Data.SamplerOrder

/-!
# Restarts with other world sizes

A run of an epoch is a list of worlds.  Every world builds its samplers, loads
the state some rank saved before it, and stops after a number of optimizer steps
or when the samplers have nothing left.  A stop at an optimizer step is always
accepted; a stop at the end only when the cursor is aligned there.
-/

namespace HyperParallel.Data

open Foundation List

inductive Stop where
  | steps (count : Nat)
  | epochEnd

/-- `source` says whose saved state a rank loads. -/
structure World where
  dpWorldSize : Nat
  source : Nat → Nat
  stop : Stop

structure WorldYields where
  dpWorldSize : Nat
  batches : List (List (List Int))

def Sampler.stopAt (sampler : Sampler) (stop : Stop) (trace : Trace) :
    List (List Int) × SamplerState :=
  let atEnd := (trace.yields.map (·.1),
    { sampler with consumedSamples := trace.exhausted }.stateDict)
  match stop with
  | .epochEnd => atEnd
  | .steps count =>
    let taken := count * (sampler.globalBatchSize / sampler.globalMicroBatchSize)
    if taken ≤ trace.yields.length then
      let consumed := (trace.yields.take taken).getLast?.elim sampler.consumedSamples (·.2)
      ((trace.yields.take taken).map (·.1), { sampler with consumedSamples := consumed }.stateDict)
    else atEnd

section Run

variable (options : SamplerOptions) (shuffle : Shuffle) (epoch : Nat)

def startSampler (world : World) (saved : Option (List SamplerState)) (dpRank : Nat) :
    Except String Sampler := do
  let sampler ← buildDatasetBatchSampler options 0 dpRank world.dpWorldSize
  match saved with
  | none => .ok (sampler.setEpoch epoch)
  | some states =>
    match states[world.source dpRank % states.length]? with
    | none => .error "no checkpoint"
    | some state => sampler.loadStateDict state

def runRank (world : World) (saved : Option (List SamplerState)) (dpRank : Nat) :
    Except String (List (List Int) × SamplerState) := do
  let sampler ← startSampler options epoch world saved dpRank
  let trace ← sampler.iterate shuffle
  .ok (sampler.stopAt world.stop trace)

def runWorlds : Option (List SamplerState) → List World → Except String (List WorldYields)
  | _, [] => .ok []
  | saved, world :: worlds => do
      let ranks ← (List.range world.dpWorldSize).mapM (runRank options shuffle epoch world saved)
      let later ← runWorlds (some (ranks.map (·.2))) worlds
      .ok ({ dpWorldSize := world.dpWorldSize, batches := ranks.map (·.1) } :: later)

end Run

/-! ## One world -/

structure Allowed (options : SamplerOptions) (dpWorldSize : Nat) : Prop where
  dpWorldSize_pos : 0 < dpWorldSize
  dvd : options.microBatchSize * dpWorldSize ∣ options.globalBatchSize

structure Usable (options : SamplerOptions) : Prop where
  totalSamples_pos : 0 < options.totalSamples
  microBatchSize_pos : 0 < options.microBatchSize
  globalBatchSize_pos : 0 < options.globalBatchSize
  dropLast : options.dropLast = true
  unmapped : options.samplerType ≠ .single → options.indexMapping = none

def Compatible (options : SamplerOptions) (dpWorldSize dpWorldSize' : Nat) : Prop :=
  ∀ seed, options.samplerType = .cyclic true seed → dpWorldSize = dpWorldSize'

def Enough (options : SamplerOptions) (dpWorldSize : Nat) : Prop :=
  options.samplerType = .single ∨ options.microBatchSize * dpWorldSize ≤ options.totalSamples

def activeSamples (options : SamplerOptions) (dpWorldSize : Nat) : Nat :=
  options.totalSamples - options.totalSamples % (options.microBatchSize * dpWorldSize)

def available (options : SamplerOptions) (dpWorldSize pos : Nat) : Nat :=
  (activeSamples options dpWorldSize - pos) / (options.microBatchSize * dpWorldSize)

def stepBatches (options : SamplerOptions) (dpWorldSize : Nat) : Nat :=
  options.globalBatchSize / (options.microBatchSize * dpWorldSize)

def batchCount (options : SamplerOptions) (world : World) (pos : Nat) : Nat :=
  match world.stop with
  | .epochEnd => available options world.dpWorldSize pos
  | .steps count => if pos + count * options.globalBatchSize ≤ options.totalSamples
      then count * stepBatches options world.dpWorldSize
      else available options world.dpWorldSize pos

def nextCursor (options : SamplerOptions) (world : World) (pos : Nat) : Nat :=
  match world.stop with
  | .epochEnd => endCursor options world.dpWorldSize
  | .steps count => if pos + count * options.globalBatchSize ≤ options.totalSamples
      then pos + count * options.globalBatchSize else endCursor options world.dpWorldSize

def SavedAt (options : SamplerOptions) (epoch dpWorldSize pos : Nat) :
    Option (List SamplerState) → Prop
  | none => pos = 0
  | some states => states ≠ [] ∧ ∃ dpWorldSize', Compatible options dpWorldSize' dpWorldSize ∧
      ∀ state ∈ states, state =
        { consumedSamples := pos, epoch := epoch, globalBatchSize := options.globalBatchSize
          dpWorldSize := dpWorldSize' }

section World

variable {options : SamplerOptions} {shuffle : Shuffle} {epoch dpWorldSize dpRank pos : Nat}

theorem newBatchSampler_ok (husable : Usable options) (hallowed : Allowed options dpWorldSize)
    (hrank : dpRank < dpWorldSize) :
    ∃ sampler, newBatchSampler options 0 dpRank dpWorldSize = .ok sampler ∧
      sampler.toSamplerOptions = options ∧ sampler.dpRank = dpRank ∧
      sampler.dpWorldSize = dpWorldSize ∧ sampler.consumedSamples = 0 ∧ sampler.epoch = 0 ∧
      sampler.resumeAtSourceBatch = false := by
  have htotal := husable.totalSamples_pos
  have hmicro := husable.microBatchSize_pos
  have hglobal := husable.globalBatchSize_pos
  have hworld := hallowed.dpWorldSize_pos
  rw [newBatchSampler, dif_neg (by omega), dif_neg (by omega), if_neg (by omega), if_neg (by omega),
    dif_neg (by omega), dif_neg (by omega), dif_neg (not_not.mpr hallowed.dvd)]
  exact ⟨_, rfl, rfl, rfl, rfl, rfl, rfl, rfl⟩

theorem buildDatasetBatchSampler_ok (husable : Usable options)
    (hallowed : Allowed options dpWorldSize) (hrank : dpRank < dpWorldSize) :
    ∃ sampler, buildDatasetBatchSampler options 0 dpRank dpWorldSize = .ok sampler ∧
      sampler.toSamplerOptions = options ∧ sampler.dpRank = dpRank ∧
      sampler.dpWorldSize = dpWorldSize ∧ sampler.consumedSamples = 0 ∧ sampler.epoch = 0 ∧
      sampler.resumeAtSourceBatch = false := by
  obtain ⟨sampler, hnew, hsampler⟩ := newBatchSampler_ok husable hallowed hrank
  refine ⟨sampler, ?_, hsampler⟩
  rw [buildDatasetBatchSampler]
  cases htype : options.samplerType with
  | single => exact hnew
  | cyclic dataSharding seed =>
    have hmapping := husable.unmapped (by rw [htype]; exact SamplerType.noConfusion)
    simp only [hmapping, Option.isSome_none, Bool.false_eq_true, if_false, hnew]
    exact if_pos husable.dropLast

variable {saved : Option (List SamplerState)} {world : World}

theorem startSampler_ok (husable : Usable options) (hallowed : Allowed options world.dpWorldSize)
    (hrank : dpRank < world.dpWorldSize)
    (hsaved : SavedAt options epoch world.dpWorldSize pos saved) (hpos : pos ≤ options.totalSamples)
    (hdvd : options.globalBatchSize ∣ pos) :
    ∃ sampler, startSampler options epoch world saved dpRank = .ok sampler ∧
      sampler.toSamplerOptions = options ∧ sampler.dpRank = dpRank ∧
      sampler.dpWorldSize = world.dpWorldSize ∧ sampler.consumedSamples = pos ∧
      sampler.epoch = epoch := by
  obtain ⟨sampler, hbuild, hoptions, hsamplerRank, hworld, hconsumed, hepoch, hsource⟩ :=
    buildDatasetBatchSampler_ok husable hallowed hrank
  rw [startSampler, hbuild]
  cases saved with
  | none =>
    obtain rfl : pos = 0 := hsaved
    refine ⟨_, rfl, ?_⟩
    rw [Sampler.setEpoch]
    split
    · exact ⟨hoptions, hsamplerRank, hworld, rfl, rfl⟩
    · rename_i hsame
      exact ⟨hoptions, hsamplerRank, hworld, hconsumed, (not_not.mp hsame).symm⟩
  | some states =>
    obtain ⟨hne, before, hcompatible, hstates⟩ := hsaved
    have hlt : world.source dpRank % states.length < states.length :=
      Nat.mod_lt _ (length_pos_iff.mpr hne)
    have hstate := hstates _ (getElem_mem hlt)
    have hload : sampler.loadDatasetState (states[world.source dpRank % states.length]) =
        .ok { sampler with consumedSamples := pos, epoch := epoch } := by
      rw [hstate, Sampler.loadDatasetState, if_neg (by rw [hoptions]; exact Nat.not_lt.mpr hpos),
        if_neg (by rw [hoptions]; exact not_not.mpr rfl), if_neg (by simp [hsource]),
        if_neg (by simp [hsource]), if_neg (by
          rw [hoptions, Nat.mod_eq_zero_of_dvd hdvd]
          exact fun h => h.2 rfl)]
    refine ⟨{ sampler with consumedSamples := pos, epoch := epoch }, ?_, hoptions, hsamplerRank,
      hworld, rfl, rfl⟩
    simp only [getElem?_eq_getElem hlt]
    refine Eq.trans ?_ hload
    show Sampler.loadStateDict _ _ = _
    rw [Sampler.loadStateDict]
    split
    · rename_i seed htype
      rw [if_neg]
      rw [not_not, hworld, hstate]
      exact hcompatible seed (by rw [← hoptions]; exact htype)
    · rfl

theorem dvd_of_loadDatasetState {sampler sampler' : Sampler} {state : SamplerState}
    (hsource : sampler.resumeAtSourceBatch = false)
    (h : sampler.loadDatasetState state = .ok sampler') :
    sampler.globalBatchSize ∣ state.consumedSamples := by
  rw [Sampler.loadDatasetState, hsource] at h
  split at h
  · cases h
  · split at h
    · cases h
    · simp only [Bool.false_eq_true, false_and, if_false, not_false_eq_true, true_and] at h
      split at h
      · cases h
      · rename_i haligned
        exact Nat.dvd_of_mod_eq_zero (not_not.mp haligned)

theorem dvd_of_startSampler (husable : Usable options)
    (hallowed : Allowed options world.dpWorldSize) (hrank : dpRank < world.dpWorldSize)
    {sampler : Sampler} {states : List SamplerState}
    (hstart : startSampler options epoch world (some states) dpRank = .ok sampler)
    (hstates : ∀ state ∈ states, state.consumedSamples = pos) : options.globalBatchSize ∣ pos := by
  obtain ⟨built, hbuild, hoptions, -, -, -, -, hsource⟩ :=
    buildDatasetBatchSampler_ok husable hallowed hrank
  rw [startSampler, hbuild] at hstart
  obtain ⟨_, heq, hstart⟩ := bind_eq_ok hstart
  cases heq
  simp only at hstart
  split at hstart
  · cases hstart
  · rename_i state hget
    have hload : ∃ loaded, built.loadDatasetState state = .ok loaded := by
      rw [Sampler.loadStateDict] at hstart
      split at hstart
      · split at hstart
        · cases hstart
        · exact ⟨sampler, hstart⟩
      · exact ⟨sampler, hstart⟩
    obtain ⟨loaded, hload⟩ := hload
    have hdvd := dvd_of_loadDatasetState hsource hload
    rwa [hoptions, hstates state (mem_of_getElem? hget)] at hdvd

/-! What a rank yields, and the cursor it saves -/

theorem microStep_pos (husable : Usable options) (hallowed : Allowed options dpWorldSize) :
    0 < options.microBatchSize * dpWorldSize :=
  Nat.mul_pos husable.microBatchSize_pos hallowed.dpWorldSize_pos

theorem stepBatches_mul (hallowed : Allowed options dpWorldSize) :
    stepBatches options dpWorldSize * (options.microBatchSize * dpWorldSize) =
      options.globalBatchSize :=
  Nat.div_mul_cancel hallowed.dvd

theorem stepBatches_pos (husable : Usable options) (hallowed : Allowed options dpWorldSize) :
    0 < stepBatches options dpWorldSize :=
  Nat.div_pos (Nat.le_of_dvd husable.globalBatchSize_pos hallowed.dvd)
    (microStep_pos husable hallowed)

theorem activeSamples_eq (options : SamplerOptions) (dpWorldSize : Nat) :
    activeSamples options dpWorldSize =
      options.totalSamples / (options.microBatchSize * dpWorldSize) *
        (options.microBatchSize * dpWorldSize) := by
  have := Nat.div_add_mod' options.totalSamples (options.microBatchSize * dpWorldSize)
  rw [activeSamples]
  omega

section

variable (husable : Usable options) (hallowed : Allowed options dpWorldSize)
  (hpos : pos ≤ options.totalSamples) (hdvd : options.globalBatchSize ∣ pos)

include husable hallowed hpos hdvd

theorem le_activeSamples : pos ≤ activeSamples options dpWorldSize := by
  obtain ⟨count, rfl⟩ := hallowed.dvd.trans hdvd
  rw [activeSamples_eq, Nat.mul_comm]
  refine Nat.mul_le_mul_right _ ((Nat.le_div_iff_mul_le (microStep_pos husable hallowed)).mpr ?_)
  rw [Nat.mul_comm]
  exact hpos

theorem add_available_mul :
    pos + available options dpWorldSize pos * (options.microBatchSize * dpWorldSize) =
      activeSamples options dpWorldSize := by
  have hle := le_activeSamples husable hallowed hpos hdvd
  have hrest : options.microBatchSize * dpWorldSize ∣ activeSamples options dpWorldSize - pos := by
    rw [activeSamples_eq]
    exact Nat.dvd_sub (Nat.dvd_mul_left _ _) (hallowed.dvd.trans hdvd)
  rw [available, Nat.div_mul_cancel hrest]
  omega

theorem steps_le_available_iff {count : Nat} :
    count * stepBatches options dpWorldSize ≤ available options dpWorldSize pos ↔
      pos + count * options.globalBatchSize ≤ options.totalSamples := by
  have hmicro := microStep_pos husable hallowed
  have hsum := add_available_mul husable hallowed hpos hdvd
  have hstep := stepBatches_mul hallowed
  have hscaled : count * stepBatches options dpWorldSize * (options.microBatchSize * dpWorldSize) =
      count * options.globalBatchSize := by rw [Nat.mul_assoc, hstep]
  constructor
  · intro h
    have := Nat.mul_le_mul_right (options.microBatchSize * dpWorldSize) h
    have : activeSamples options dpWorldSize ≤ options.totalSamples := Nat.sub_le _ _
    omega
  · intro h
    have hcursor := le_activeSamples husable hallowed h (Nat.dvd_add hdvd (Nat.dvd_mul_left _ _))
    refine Nat.le_of_mul_le_mul_right ?_ hmicro
    omega

end

/-- The batches of rank `dpRank` from the cursor on. -/
def rankBatches (options : SamplerOptions) (shuffle : Shuffle)
    (epoch dpWorldSize dpRank pos count : Nat) : List (List Int) :=
  (List.range count).map fun j => localBatch options shuffle epoch dpWorldSize dpRank
    (pos + j * (options.microBatchSize * dpWorldSize))

theorem getLast?_map_range {α : Type*} (count : Nat) (f : Nat → α) :
    ((range count).map f).getLast? = if count = 0 then none else some (f (count - 1)) := by
  cases count with
  | zero => rfl
  | succ count => simp [range_succ]

theorem stopAt_evenTrace (husable : Usable options) (hallowed : Allowed options world.dpWorldSize)
    (hpos : pos ≤ options.totalSamples) (hdvd : options.globalBatchSize ∣ pos) {sampler : Sampler}
    (hoptions : sampler.toSamplerOptions = options)
    (hworld : sampler.dpWorldSize = world.dpWorldSize) (hconsumed : sampler.consumedSamples = pos) :
    sampler.stopAt world.stop
        (sampler.evenTrace shuffle pos (available options world.dpWorldSize pos)) =
      (rankBatches options shuffle sampler.epoch world.dpWorldSize sampler.dpRank pos
          (batchCount options world pos),
        { consumedSamples := nextCursor options world pos
          epoch := sampler.epoch
          globalBatchSize := options.globalBatchSize
          dpWorldSize := world.dpWorldSize }) := by
  subst hoptions
  have hsize : sampler.globalMicroBatchSize = sampler.microBatchSize * world.dpWorldSize := by
    rw [Sampler.globalMicroBatchSize, hworld]
  have hsteps : sampler.globalBatchSize / sampler.globalMicroBatchSize =
      stepBatches sampler.toSamplerOptions world.dpWorldSize := by
    rw [hsize, stepBatches]
  have hatEnd : (((sampler.evenTrace shuffle pos
        (available sampler.toSamplerOptions world.dpWorldSize pos)).yields.map (·.1)),
      Sampler.stateDict { sampler with consumedSamples := (sampler.evenTrace shuffle pos
        (available sampler.toSamplerOptions world.dpWorldSize pos)).exhausted }) =
      (rankBatches sampler.toSamplerOptions shuffle sampler.epoch world.dpWorldSize sampler.dpRank pos
          (available sampler.toSamplerOptions world.dpWorldSize pos),
        { consumedSamples := endCursor sampler.toSamplerOptions world.dpWorldSize
          epoch := sampler.epoch
          globalBatchSize := sampler.globalBatchSize
          dpWorldSize := world.dpWorldSize }) := by
    simp only [Sampler.evenTrace, Sampler.stateDict, rankBatches, map_map, hworld, hsize,
      Prod.mk.injEq, and_true]
    rfl
  cases hstop : world.stop with
  | epochEnd =>
    simp only [Sampler.stopAt, batchCount, nextCursor, hstop]
    exact hatEnd
  | steps count =>
    have hiff := @steps_le_available_iff _ _ _ husable hallowed hpos hdvd count
    simp only [Sampler.stopAt, batchCount, nextCursor, hstop, hsteps]
    have hlength : (sampler.evenTrace shuffle pos
        (available sampler.toSamplerOptions world.dpWorldSize pos)).yields.length =
          available sampler.toSamplerOptions world.dpWorldSize pos := by
      simp [Sampler.evenTrace]
    rw [hlength]
    by_cases hle : count * stepBatches sampler.toSamplerOptions world.dpWorldSize ≤
        available sampler.toSamplerOptions world.dpWorldSize pos
    · rw [if_pos hle, if_pos (hiff.mp hle), if_pos (hiff.mp hle)]
      simp only [Sampler.evenTrace, ← map_take, take_range, Nat.min_eq_left hle,
        getLast?_map_range, Sampler.stateDict, rankBatches, map_map, hworld, hsize,
        Prod.mk.injEq, SamplerState.mk.injEq, and_true]
      refine ⟨rfl, ?_⟩
      have htaken := congrArg (count * ·) (stepBatches_mul hallowed)
      simp only [← Nat.mul_assoc] at htaken
      rcases Nat.eq_zero_or_pos (count * stepBatches sampler.toSamplerOptions world.dpWorldSize)
        with hzero | htakenPos
      · rw [hzero, Nat.zero_mul, Nat.zero_mul] at htaken
        rw [if_pos hzero, ← htaken, hconsumed]
        rfl
      · rw [if_neg (by omega), Option.elim_some, Nat.sub_add_cancel htakenPos, Nat.mul_assoc,
          stepBatches_mul hallowed]
    · rw [if_neg hle, if_neg fun h => hle (hiff.mpr h), if_neg fun h => hle (hiff.mpr h)]
      exact hatEnd

def savedState (options : SamplerOptions) (epoch : Nat) (world : World) (pos : Nat) : SamplerState :=
  { consumedSamples := nextCursor options world pos
    epoch := epoch
    globalBatchSize := options.globalBatchSize
    dpWorldSize := world.dpWorldSize }

theorem runRank_ok (husable : Usable options) (hallowed : Allowed options world.dpWorldSize)
    (henough : Enough options world.dpWorldSize) (hrank : dpRank < world.dpWorldSize)
    (hsaved : SavedAt options epoch world.dpWorldSize pos saved) (hpos : pos ≤ options.totalSamples)
    (hdvd : options.globalBatchSize ∣ pos) :
    runRank options shuffle epoch world saved dpRank =
      .ok (rankBatches options shuffle epoch world.dpWorldSize dpRank pos
        (batchCount options world pos), savedState options epoch world pos) := by
  obtain ⟨sampler, hstart, hoptions, hsamplerRank, hworld, hconsumed, hepoch⟩ :=
    startSampler_ok husable hallowed hrank hsaved hpos hdvd
  have hsize : sampler.globalMicroBatchSize = options.microBatchSize * world.dpWorldSize := by
    rw [Sampler.globalMicroBatchSize, hworld, hoptions]
  obtain ⟨before, hbefore⟩ := hallowed.dvd.trans hdvd
  have htrace : sampler.iterate shuffle =
      .ok (sampler.evenTrace shuffle pos (available options world.dpWorldSize pos)) := by
    rw [← hconsumed]
    refine @Sampler.iterate_eq sampler shuffle (by rw [hoptions]; exact husable.dropLast) before _
      ?_ ?_ ?_
    · rw [hconsumed, hsize, hbefore, Nat.mul_comm]
    · rw [hconsumed, hsize, hoptions]
      exact add_available_mul husable hallowed hpos hdvd
    · rw [hsize, hoptions]
      exact henough
  rw [runRank, hstart]
  show (sampler.iterate shuffle >>= fun trace => Except.ok (sampler.stopAt world.stop trace)) = _
  rw [htrace]
  show Except.ok (sampler.stopAt world.stop _) = _
  rw [stopAt_evenTrace husable hallowed hpos hdvd hoptions hworld hconsumed, hepoch, hsamplerRank,
    savedState]

theorem enough_of_runRank (husable : Usable options) (hallowed : Allowed options world.dpWorldSize)
    (hrank : dpRank < world.dpWorldSize)
    (hsaved : SavedAt options epoch world.dpWorldSize pos saved) (hpos : pos ≤ options.totalSamples)
    (hdvd : options.globalBatchSize ∣ pos) {result : List (List Int) × SamplerState}
    (hrun : runRank options shuffle epoch world saved dpRank = .ok result) :
    Enough options world.dpWorldSize := by
  obtain ⟨sampler, hstart, hoptions, -, hworld, -, -⟩ :=
    startSampler_ok husable hallowed hrank hsaved hpos hdvd
  rw [runRank, hstart] at hrun
  obtain ⟨_, heq, hrun⟩ := bind_eq_ok hrun
  cases heq
  obtain ⟨trace, htrace, -⟩ := bind_eq_ok hrun
  cases htype : options.samplerType with
  | single => exact .inl htype
  | cyclic dataSharding seed =>
    right
    simp only [Sampler.iterate, hoptions, htype] at htrace
    obtain ⟨active, hactive, -⟩ := bind_eq_ok htrace
    rw [Sampler.activeSamples] at hactive
    split at hactive
    · cases hactive
    · rename_i hsome
      by_contra hless
      refine hsome (Nat.le_of_eq ?_)
      rw [Sampler.globalMicroBatchSize, hworld, hoptions, Nat.mod_eq_of_lt (by omega), Nat.sub_self]

def worldYields (options : SamplerOptions) (shuffle : Shuffle) (epoch dpWorldSize pos count : Nat) :
    WorldYields :=
  { dpWorldSize := dpWorldSize
    batches := (List.range dpWorldSize).map fun dpRank =>
      rankBatches options shuffle epoch dpWorldSize dpRank pos count }

theorem runWorlds_cons (husable : Usable options) {world : World} {worlds : List World}
    (hallowed : Allowed options world.dpWorldSize) (henough : Enough options world.dpWorldSize)
    {saved : Option (List SamplerState)} (hsaved : SavedAt options epoch world.dpWorldSize pos saved)
    (hpos : pos ≤ options.totalSamples) (hdvd : options.globalBatchSize ∣ pos) :
    runWorlds options shuffle epoch saved (world :: worlds) =
      (runWorlds options shuffle epoch
        (some (replicate world.dpWorldSize (savedState options epoch world pos))) worlds).map
          fun later => worldYields options shuffle epoch world.dpWorldSize pos
            (batchCount options world pos) :: later := by
  rw [runWorlds, mapM_eq_ok fun dpRank hrank => runRank_ok husable hallowed henough
    (mem_range.mp hrank) hsaved hpos hdvd]
  have hstates : ((range world.dpWorldSize).map fun dpRank =>
      (rankBatches options shuffle epoch world.dpWorldSize dpRank pos
        (batchCount options world pos), savedState options epoch world pos)).map (·.2) =
        replicate world.dpWorldSize (savedState options epoch world pos) := by
    simp [map_map, Function.comp_def]
  have hbatches : ((range world.dpWorldSize).map fun dpRank =>
      (rankBatches options shuffle epoch world.dpWorldSize dpRank pos
        (batchCount options world pos), savedState options epoch world pos)).map (·.1) =
        (range world.dpWorldSize).map fun dpRank =>
          rankBatches options shuffle epoch world.dpWorldSize dpRank pos
            (batchCount options world pos) := by
    simp [map_map, Function.comp_def]
  show (runWorlds options shuffle epoch (some (List.map Prod.snd _)) worlds >>= fun later =>
    Except.ok (WorldYields.mk world.dpWorldSize (List.map Prod.fst _) :: later)) = _
  rw [hstates, hbatches]
  cases runWorlds options shuffle epoch
    (some (replicate world.dpWorldSize (savedState options epoch world pos))) worlds <;> rfl

end World

end HyperParallel.Data
