import HyperParallel.Data.SamplerRun

/-!
# Every sample once

The worlds of an epoch take consecutive stretches of the shared order, however
they are sized.  So nothing is repeated, and an optimizer step consumes the same
samples in every run.
-/

namespace HyperParallel.Data

open Foundation List

def indices (yields : List WorldYields) : List Int :=
  yields.flatMap fun world => world.batches.flatMap List.flatten

def worldSteps (options : SamplerOptions) (world : WorldYields) : List (List Int) :=
  let perStep := stepBatches options world.dpWorldSize
  (List.range ((world.batches.headD []).length / perStep)).map fun step =>
    world.batches.flatMap fun batches => ((batches.drop (step * perStep)).take perStep).flatten

def optimizerSteps (options : SamplerOptions) (yields : List WorldYields) : List (List Int) :=
  yields.flatMap (worldSteps options)

def stretch (options : SamplerOptions) (shuffle : Shuffle) (epoch dpWorldSize pos count : Nat) :
    List Int :=
  (List.range count).map fun offset => orderAt options shuffle epoch dpWorldSize (pos + offset)

section World

variable {options : SamplerOptions} {shuffle : Shuffle} {epoch dpWorldSize pos : Nat}

theorem stretch_append (first second : Nat) :
    stretch options shuffle epoch dpWorldSize pos (first + second) =
      stretch options shuffle epoch dpWorldSize pos first ++
        stretch options shuffle epoch dpWorldSize (pos + first) second := by
  simp [stretch, range_add, map_map, Function.comp_def, Nat.add_assoc]

theorem orderAt_compatible {dpWorldSize' : Nat} (h : Compatible options dpWorldSize dpWorldSize')
    (position : Nat) :
    orderAt options shuffle epoch dpWorldSize position =
      orderAt options shuffle epoch dpWorldSize' position := by
  cases htype : options.samplerType with
  | single => simp only [orderAt, htype]
  | cyclic dataSharding seed =>
    cases dataSharding with
    | false => simp only [orderAt, htype]
    | true => rw [h seed htype]

theorem stretch_compatible {dpWorldSize' : Nat} (h : Compatible options dpWorldSize dpWorldSize')
    (count : Nat) :
    stretch options shuffle epoch dpWorldSize pos count =
      stretch options shuffle epoch dpWorldSize' pos count :=
  List.map_congr_left fun _ _ => orderAt_compatible h _

theorem rankBatches_perm (options : SamplerOptions) (shuffle : Shuffle)
    (epoch dpWorldSize pos count : Nat) :
    ((range dpWorldSize).flatMap fun dpRank =>
        (rankBatches options shuffle epoch dpWorldSize dpRank pos count).flatten).Perm
      (stretch options shuffle epoch dpWorldSize pos
        (count * (options.microBatchSize * dpWorldSize))) := by
  have hswap := Dealing.flatMap_swap_perm (range dpWorldSize) (range count)
    fun dpRank j => localBatch options shuffle epoch dpWorldSize dpRank
      (pos + j * (options.microBatchSize * dpWorldSize))
  simp only [rankBatches, ← flatMap_def]
  refine hswap.trans ?_
  rw [stretch, ← Dealing.flatMap_range_shift]
  refine List.Perm.flatMap_left _ fun j _ => ?_
  have hblock := @entryOffset_perm options dpWorldSize fun offset =>
    orderAt options shuffle epoch dpWorldSize
      (pos + j * (options.microBatchSize * dpWorldSize) + offset)
  simpa only [localBatch, Nat.add_assoc] using hblock

theorem rankBatches_window {dpRank count first taken : Nat} (h : first + taken ≤ count) :
    ((rankBatches options shuffle epoch dpWorldSize dpRank pos count).drop first).take taken =
      rankBatches options shuffle epoch dpWorldSize dpRank
        (pos + first * (options.microBatchSize * dpWorldSize)) taken := by
  apply ext_getElem (by simp [rankBatches]; omega)
  intro j hj _
  simp only [rankBatches, getElem_take, getElem_drop, getElem_map,
    getElem_range, Nat.add_mul, Nat.add_assoc]

theorem indices_worldYields (options : SamplerOptions) (shuffle : Shuffle)
    (epoch dpWorldSize pos count : Nat) :
    (indices [worldYields options shuffle epoch dpWorldSize pos count]).Perm
      (stretch options shuffle epoch dpWorldSize pos
        (count * (options.microBatchSize * dpWorldSize))) := by
  simpa [indices, worldYields, flatMap_map] using
    rankBatches_perm options shuffle epoch dpWorldSize pos count

theorem worldSteps_worldYields (hallowed : Allowed options dpWorldSize) (count : Nat) :
    Forall₂ Perm
      (worldSteps options (worldYields options shuffle epoch dpWorldSize pos count))
      ((range (count / stepBatches options dpWorldSize)).map fun step =>
        stretch options shuffle epoch dpWorldSize (pos + step * options.globalBatchSize)
          options.globalBatchSize) := by
  have hfirst : ((worldYields options shuffle epoch dpWorldSize pos count).batches.headD []).length =
      count := by
    obtain ⟨rest, hrest⟩ := Nat.exists_eq_succ_of_ne_zero hallowed.dpWorldSize_pos.ne'
    simp only [worldYields, hrest, range_succ_eq_map, map_cons, headD_cons]
    simp [rankBatches]
  have hsize : (worldYields options shuffle epoch dpWorldSize pos count).dpWorldSize = dpWorldSize := rfl
  simp only [worldSteps, hfirst, hsize]
  rw [forall₂_map_left_iff, forall₂_map_right_iff, forall₂_same]
  intro step hstep
  have hwindow : step * stepBatches options dpWorldSize + stepBatches options dpWorldSize ≤ count := by
    rw [← Nat.succ_mul]
    exact Nat.le_trans (Nat.mul_le_mul_right _ (mem_range.mp hstep)) (Nat.div_mul_le_self _ _)
  have hcursor : step * stepBatches options dpWorldSize * (options.microBatchSize * dpWorldSize) =
      step * options.globalBatchSize := by rw [Nat.mul_assoc, stepBatches_mul hallowed]
  have hperm := rankBatches_perm options shuffle epoch dpWorldSize
    (pos + step * options.globalBatchSize) (stepBatches options dpWorldSize)
  rw [stepBatches_mul hallowed] at hperm
  simp only [worldYields, flatMap_map]
  refine (List.Perm.flatMap_left _ fun dpRank _ => ?_).trans hperm
  rw [rankBatches_window hwindow, hcursor]

end World

/-! ## The whole epoch -/

/-- Every stop but the last is at the end of an optimizer step. -/
def Resumable (options : SamplerOptions) : Nat → List World → Prop
  | _, [] => True
  | pos, world :: worlds =>
    Enough options world.dpWorldSize ∧
      (worlds ≠ [] → options.globalBatchSize ∣ nextCursor options world pos) ∧
        Resumable options (nextCursor options world pos) worlds

section Epoch

variable {options : SamplerOptions} {shuffle : Shuffle} {epoch pos : Nat} {world : World}

theorem batchCount_le (husable : Usable options) (hallowed : Allowed options world.dpWorldSize)
    (hpos : pos ≤ options.totalSamples) (hdvd : options.globalBatchSize ∣ pos) :
    batchCount options world pos ≤ available options world.dpWorldSize pos := by
  rw [batchCount]
  split
  · exact Nat.le_refl _
  · split
    · rename_i h
      exact (steps_le_available_iff husable hallowed hpos hdvd).mpr h
    · exact Nat.le_refl _

theorem add_batchCount_le (husable : Usable options) (hallowed : Allowed options world.dpWorldSize)
    (hpos : pos ≤ options.totalSamples) (hdvd : options.globalBatchSize ∣ pos) :
    pos + batchCount options world pos * (options.microBatchSize * world.dpWorldSize) ≤
      activeSamples options world.dpWorldSize := by
  rw [← add_available_mul husable hallowed hpos hdvd]
  exact Nat.add_le_add_left (Nat.mul_le_mul_right _ (batchCount_le husable hallowed hpos hdvd)) _

theorem activeSamples_le (options : SamplerOptions) (dpWorldSize : Nat) :
    activeSamples options dpWorldSize ≤ options.totalSamples :=
  Nat.sub_le _ _

theorem endCursor_of_dvd {dpWorldSize : Nat} (hallowed : Allowed options dpWorldSize)
    (h : options.globalBatchSize ∣ endCursor options dpWorldSize) :
    endCursor options dpWorldSize = activeSamples options dpWorldSize := by
  cases htype : options.samplerType with
  | single =>
    simp only [endCursor, htype] at h ⊢
    rw [activeSamples, Nat.mod_eq_zero_of_dvd (hallowed.dvd.trans h), Nat.sub_zero]
  | cyclic dataSharding seed => simp only [endCursor, htype, activeSamples]

theorem nextCursor_of_dvd (husable : Usable options) (hallowed : Allowed options world.dpWorldSize)
    (hpos : pos ≤ options.totalSamples) (hdvd : options.globalBatchSize ∣ pos)
    (h : options.globalBatchSize ∣ nextCursor options world pos) :
    nextCursor options world pos =
      pos + batchCount options world pos * (options.microBatchSize * world.dpWorldSize) := by
  have hend := add_available_mul husable hallowed hpos hdvd
  cases hstop : world.stop with
  | epochEnd =>
    simp only [nextCursor, hstop] at h ⊢
    simp only [batchCount, hstop]
    rw [endCursor_of_dvd hallowed h, hend]
  | steps count =>
    simp only [nextCursor, hstop] at h ⊢
    simp only [batchCount, hstop]
    split at h
    · rename_i hle
      rw [if_pos hle, if_pos hle, Nat.mul_assoc, stepBatches_mul hallowed]
    · rename_i hgt
      rw [if_neg hgt, if_neg hgt, endCursor_of_dvd hallowed h, hend]

theorem steps_mul_le (hallowed : Allowed options world.dpWorldSize) (count : Nat) :
    count / stepBatches options world.dpWorldSize * options.globalBatchSize ≤
      count * (options.microBatchSize * world.dpWorldSize) := by
  rw [← stepBatches_mul hallowed, ← Nat.mul_assoc]
  exact Nat.mul_le_mul_right _ (Nat.div_mul_le_self _ _)

theorem steps_mul_eq (husable : Usable options) (hallowed : Allowed options world.dpWorldSize)
    {count : Nat}
    (h : options.globalBatchSize ∣ count * (options.microBatchSize * world.dpWorldSize)) :
    count / stepBatches options world.dpWorldSize * options.globalBatchSize =
      count * (options.microBatchSize * world.dpWorldSize) := by
  have hdvd : stepBatches options world.dpWorldSize ∣ count := by
    rw [← stepBatches_mul hallowed] at h
    exact Nat.dvd_of_mul_dvd_mul_right (microStep_pos husable hallowed) h
  rw [← stepBatches_mul hallowed, ← Nat.mul_assoc, Nat.div_mul_cancel hdvd]

theorem lt_add_steps (husable : Usable options) (hallowed : Allowed options world.dpWorldSize)
    (hpos : pos ≤ options.totalSamples) (hdvd : options.globalBatchSize ∣ pos)
    (hstop : world.stop = .epochEnd) :
    options.totalSamples < pos + (batchCount options world pos /
      stepBatches options world.dpWorldSize + 1) * options.globalBatchSize := by
  have hend := add_available_mul husable hallowed hpos hdvd
  have hmicro := microStep_pos husable hallowed
  have hrest := Nat.mod_lt options.totalSamples hmicro
  have hactive : options.totalSamples < activeSamples options world.dpWorldSize +
      options.microBatchSize * world.dpWorldSize := by
    rw [activeSamples]
    omega
  simp only [batchCount, hstop]
  have hstep := Nat.lt_mul_div_succ (available options world.dpWorldSize pos)
    (stepBatches_pos husable hallowed)
  rw [Nat.mul_comm] at hstep
  have hscaled := Nat.mul_le_mul_right (options.microBatchSize * world.dpWorldSize) hstep
  rw [Nat.mul_assoc, stepBatches_mul hallowed, Nat.succ_mul] at hscaled
  omega

theorem Compatible.symm {a b : Nat} (h : Compatible options a b) : Compatible options b a :=
  fun seed htype => (h seed htype).symm

theorem Compatible.trans {a b c : Nat} (h : Compatible options a b) (h' : Compatible options b c) :
    Compatible options a c :=
  fun seed htype => (h seed htype).trans (h' seed htype)

variable {reference : Nat}

theorem savedAt_replicate (hallowed : Allowed options world.dpWorldSize)
    (hcompatible : Compatible options world.dpWorldSize reference) :
    SavedAt options epoch reference (nextCursor options world pos)
      (some (replicate world.dpWorldSize (savedState options epoch world pos))) := by
  refine ⟨?_, world.dpWorldSize, hcompatible, fun state hstate => ?_⟩
  · rw [ne_nil_iff_length_pos, length_replicate]
    exact hallowed.dpWorldSize_pos
  · rw [eq_of_mem_replicate hstate, savedState]

theorem SavedAt.compatible {dpWorldSize : Nat} {saved : Option (List SamplerState)}
    (h : SavedAt options epoch reference pos saved)
    (hcompatible : Compatible options reference dpWorldSize) :
    SavedAt options epoch dpWorldSize pos saved := by
  cases saved with
  | none => exact h
  | some states =>
    obtain ⟨hne, before, hbefore, hstates⟩ := h
    exact ⟨hne, before, hbefore.trans hcompatible, hstates⟩

/-- What the worlds from a cursor on consume of the order of world size `reference`. -/
structure Consumes (options : SamplerOptions) (shuffle : Shuffle) (epoch reference pos : Nat)
    (worlds : List World) (yields : List WorldYields) (count steps : Nat) : Prop where
  perm : (indices yields).Perm (stretch options shuffle epoch reference pos count)
  bounded : count ≠ 0 → ∃ world ∈ worlds, pos + count ≤ activeSamples options world.dpWorldSize
  steps_perm : List.Forall₂ List.Perm (optimizerSteps options yields)
    ((List.range steps).map fun step => stretch options shuffle epoch reference
      (pos + step * options.globalBatchSize) options.globalBatchSize)
  steps_le : pos + steps * options.globalBatchSize ≤ options.totalSamples
  steps_all : worlds.getLast?.map World.stop = some .epochEnd →
    options.totalSamples < pos + (steps + 1) * options.globalBatchSize

theorem Consumes.cons {reference count steps : Nat} {worlds : List World}
    {yields : List WorldYields} (husable : Usable options)
    (hallowed : Allowed options world.dpWorldSize)
    (hcompatible : Compatible options world.dpWorldSize reference)
    (hpos : pos ≤ options.totalSamples) (hdvd : options.globalBatchSize ∣ pos)
    (hworlds : worlds ≠ []) (hnext : options.globalBatchSize ∣ nextCursor options world pos)
    (h : Consumes options shuffle epoch reference (nextCursor options world pos) worlds yields count
      steps) :
    Consumes options shuffle epoch reference pos (world :: worlds)
      (worldYields options shuffle epoch world.dpWorldSize pos (batchCount options world pos) :: yields)
      (batchCount options world pos * (options.microBatchSize * world.dpWorldSize) + count)
      (batchCount options world pos / stepBatches options world.dpWorldSize + steps) := by
  have hcursor := nextCursor_of_dvd husable hallowed hpos hdvd hnext
  rw [hcursor] at h hnext
  have hsteps := steps_mul_eq husable hallowed ((Nat.dvd_add_right hdvd).mp hnext)
  obtain ⟨hperm, hbounded, hstepsPerm, hle, hall⟩ := h
  refine ⟨?_, fun hcount => ?_, ?_, ?_, fun hlast => ?_⟩
  · have hfirst := indices_worldYields options shuffle epoch world.dpWorldSize pos
      (batchCount options world pos)
    rw [stretch_compatible hcompatible] at hfirst
    rw [stretch_append]
    refine List.Perm.trans ?_ (hfirst.append hperm)
    simp [indices]
  · rcases Nat.eq_zero_or_pos count with hzero | hpositive
    · refine ⟨world, mem_cons_self, ?_⟩
      have := add_batchCount_le husable hallowed hpos hdvd
      omega
    · obtain ⟨later, hlater, hle⟩ := hbounded hpositive.ne'
      exact ⟨later, mem_cons_of_mem _ hlater, by omega⟩
  · have hfirst := @worldSteps_worldYields options shuffle epoch world.dpWorldSize pos hallowed
      (batchCount options world pos)
    simp only [stretch_compatible hcompatible] at hfirst
    rw [range_add, map_append, map_map]
    refine rel_append hfirst ?_
    simp only [Function.comp_def, Nat.add_mul, hsteps, ← Nat.add_assoc]
    exact hstepsPerm
  · rw [Nat.add_mul, hsteps]
    omega
  · have hrest : worlds.getLast?.map World.stop = some .epochEnd := by
      obtain ⟨second, rest, rfl⟩ := exists_cons_of_ne_nil hworlds
      simpa using hlast
    have := hall hrest
    rw [Nat.add_assoc, Nat.add_mul, hsteps]
    omega

theorem runWorlds_spec (husable : Usable options) {reference : Nat} {worlds : List World}
    (hworlds : ∀ world ∈ worlds,
      Allowed options world.dpWorldSize ∧ Compatible options world.dpWorldSize reference)
    {saved : Option (List SamplerState)} (hsaved : SavedAt options epoch reference pos saved)
    (hpos : pos ≤ options.totalSamples) (hdvd : options.globalBatchSize ∣ pos)
    (hresumable : Resumable options pos worlds) :
    ∃ yields count steps, runWorlds options shuffle epoch saved worlds = .ok yields ∧
      Consumes options shuffle epoch reference pos worlds yields count steps := by
  induction worlds generalizing pos saved with
  | nil => exact ⟨[], 0, 0, rfl, .nil, fun h => absurd rfl h, .nil, by omega, by simp⟩
  | cons world worlds ih =>
    obtain ⟨henough, hnext, hresumable⟩ := hresumable
    obtain ⟨hallowed, hcompatible⟩ := hworlds world mem_cons_self
    have hrun := @runWorlds_cons options shuffle epoch pos husable world worlds hallowed henough saved
      (hsaved.compatible hcompatible.symm) hpos hdvd
    by_cases hlast : worlds = []
    · subst hlast
      refine ⟨_, batchCount options world pos * (options.microBatchSize * world.dpWorldSize),
        batchCount options world pos / stepBatches options world.dpWorldSize, hrun, ?_,
        fun _ => ⟨world, mem_cons_self, add_batchCount_le husable hallowed hpos hdvd⟩,
        ?_, ?_, fun hstop => ?_⟩
      · rw [← stretch_compatible hcompatible]
        exact indices_worldYields options shuffle epoch world.dpWorldSize pos _
      · have hfirst := @worldSteps_worldYields options shuffle epoch world.dpWorldSize pos hallowed
          (batchCount options world pos)
        simp only [stretch_compatible hcompatible] at hfirst
        rw [optimizerSteps, flatMap_singleton]
        exact hfirst
      · have := add_batchCount_le husable hallowed hpos hdvd
        have := steps_mul_le hallowed (batchCount options world pos)
        have := activeSamples_le options world.dpWorldSize
        omega
      · exact lt_add_steps husable hallowed hpos hdvd (by simpa using hstop)
    · have hcursor := nextCursor_of_dvd husable hallowed hpos hdvd (hnext hlast)
      have hbound := add_batchCount_le husable hallowed hpos hdvd
      have hactive := activeSamples_le options world.dpWorldSize
      obtain ⟨yields, count, steps, hlater, hconsumes⟩ :=
        ih (fun other hother => hworlds other (mem_cons_of_mem _ hother))
          (savedAt_replicate hallowed hcompatible) (by omega) (hnext hlast) hresumable
      rw [hlater] at hrun
      exact ⟨_, _, _, hrun,
        hconsumes.cons husable hallowed hcompatible hpos hdvd hlast (hnext hlast)⟩

theorem resumable_of_runWorlds (husable : Usable options) {reference : Nat} {worlds : List World}
    (hworlds : ∀ world ∈ worlds,
      Allowed options world.dpWorldSize ∧ Compatible options world.dpWorldSize reference)
    {saved : Option (List SamplerState)} (hsaved : SavedAt options epoch reference pos saved)
    (hpos : pos ≤ options.totalSamples) (hdvd : options.globalBatchSize ∣ pos)
    {yields : List WorldYields} (hrun : runWorlds options shuffle epoch saved worlds = .ok yields) :
    Resumable options pos worlds := by
  induction worlds generalizing pos saved yields with
  | nil => trivial
  | cons world worlds ih =>
    obtain ⟨hallowed, hcompatible⟩ := hworlds world mem_cons_self
    have hsaved := hsaved.compatible hcompatible.symm
    have henough : Enough options world.dpWorldSize := by
      obtain ⟨ranks, hranks, -⟩ := bind_eq_ok hrun
      obtain ⟨result, -, hresult⟩ := exists_of_forall₂_left (mapM_eq_ok_iff.mp hranks)
        (mem_range.mpr hallowed.dpWorldSize_pos)
      exact enough_of_runRank husable hallowed hallowed.dpWorldSize_pos hsaved hpos hdvd hresult
    rw [runWorlds_cons husable hallowed henough hsaved hpos hdvd] at hrun
    obtain ⟨later, hlater, -⟩ := map_eq_ok hrun
    have hnext : worlds ≠ [] → options.globalBatchSize ∣ nextCursor options world pos := by
      intro hne
      obtain ⟨second, rest, rfl⟩ := exists_cons_of_ne_nil hne
      obtain ⟨hsecond, -⟩ := hworlds second (by simp)
      obtain ⟨ranks, hranks, -⟩ := bind_eq_ok hlater
      obtain ⟨result, -, hresult⟩ := exists_of_forall₂_left (mapM_eq_ok_iff.mp hranks)
        (mem_range.mpr hsecond.dpWorldSize_pos)
      obtain ⟨sampler, hstart, -⟩ := bind_eq_ok hresult
      refine dvd_of_startSampler husable hsecond hsecond.dpWorldSize_pos hstart fun state hstate => ?_
      rw [eq_of_mem_replicate hstate, savedState]
    refine ⟨henough, hnext, ?_⟩
    by_cases hlast : worlds = []
    · subst hlast
      trivial
    · have hcursor := nextCursor_of_dvd husable hallowed hpos hdvd (hnext hlast)
      have hbound := add_batchCount_le husable hallowed hpos hdvd
      have hactive := activeSamples_le options world.dpWorldSize
      exact ih (fun other hother => hworlds other (mem_cons_of_mem _ hother))
        (savedAt_replicate hallowed hcompatible) (by omega) (hnext hlast) hlater

structure Schedulable (options : SamplerOptions) (reference : Nat) (worlds : List World) : Prop where
  usable : Usable options
  allowed : ∀ world ∈ worlds, Allowed options world.dpWorldSize
  compatible : ∀ world ∈ worlds, Compatible options world.dpWorldSize reference

def SameSamples (first second : List Int) : Prop := ∀ index, index ∈ first ↔ index ∈ second

def ConsumedOnce (options : SamplerOptions) (shuffle : Shuffle) (epoch reference : Nat)
    (worlds : List World) : Prop :=
  ∃ yields, runWorlds options shuffle epoch none worlds = .ok yields ∧
    (Rearranges options → (indices yields).Nodup) ∧
    ∀ whole : World, whole.stop = .epochEnd → Schedulable options reference [whole] →
      ∀ full, runWorlds options shuffle epoch none [whole] = .ok full →
        List.Forall₂ SameSamples (optimizerSteps options yields)
          ((optimizerSteps options full).take (optimizerSteps options yields).length) ∧
        (worlds.getLast?.map World.stop = some .epochEnd →
          (optimizerSteps options yields).length = (optimizerSteps options full).length)

theorem Consumes.nodup {count steps : Nat} {worlds : List World} {yields : List WorldYields}
    (h : Consumes options shuffle epoch reference 0 worlds yields count steps)
    (hworlds : Schedulable options reference worlds) (hrearranges : Rearranges options) :
    (indices yields).Nodup := by
  refine h.perm.nodup_iff.mpr ?_
  rcases Nat.eq_zero_or_pos count with rfl | hpositive
  · exact nodup_nil
  · obtain ⟨world, hmem, hle⟩ := h.bounded hpositive.ne'
    rw [← stretch_compatible (hworlds.compatible world hmem)]
    refine List.Nodup.map_on (fun a ha b hb hab => ?_) nodup_range
    have ha := mem_range.mp ha
    have hb := mem_range.mp hb
    rw [Nat.zero_add] at hle hab
    rw [Nat.zero_add] at hab
    exact orderAt_inj hrearranges (hworlds.allowed world hmem).dpWorldSize_pos
      (Nat.lt_of_lt_of_le ha hle) (Nat.lt_of_lt_of_le hb hle) hab

theorem Consumes.steps_length {count steps : Nat} {worlds : List World} {yields : List WorldYields}
    (h : Consumes options shuffle epoch reference pos worlds yields count steps) :
    (optimizerSteps options yields).length = steps := by
  have := h.steps_perm.length_eq
  simpa using this

theorem consumedOnce_iff {reference : Nat} {worlds : List World}
    (hworlds : Schedulable options reference worlds) :
    ConsumedOnce options shuffle epoch reference worlds ↔ Resumable options 0 worlds := by
  have hparts := fun world hmem => And.intro (hworlds.allowed world hmem) (hworlds.compatible world hmem)
  constructor
  · rintro ⟨yields, hrun, -⟩
    exact @resumable_of_runWorlds options shuffle epoch 0 hworlds.usable reference worlds hparts none
      rfl (Nat.zero_le _) (Nat.dvd_zero _) yields hrun
  · intro hresumable
    obtain ⟨yields, count, steps, hrun, hconsumes⟩ :=
      @runWorlds_spec options shuffle epoch 0 hworlds.usable reference worlds hparts none rfl
        (Nat.zero_le _) (Nat.dvd_zero _) hresumable
    refine ⟨yields, hrun, hconsumes.nodup hworlds, fun whole hstop hwhole full hfull => ?_⟩
    have hwholeParts := fun world hmem =>
      And.intro (hwhole.allowed world hmem) (hwhole.compatible world hmem)
    obtain ⟨full', count', steps', hrun', hconsumes'⟩ :=
      @runWorlds_spec options shuffle epoch 0 hworlds.usable reference [whole] hwholeParts none rfl
        (Nat.zero_le _) (Nat.dvd_zero _) (@resumable_of_runWorlds options shuffle epoch 0
          hworlds.usable reference [whole] hwholeParts none rfl (Nat.zero_le _) (Nat.dvd_zero _) full
          hfull)
    obtain rfl : full' = full := Except.ok.inj (hrun'.symm.trans hfull)
    have hall := hconsumes'.steps_all (by simp [hstop])
    have hle := hconsumes.steps_le
    have hsteps : steps ≤ steps' := by
      refine Nat.lt_add_one_iff.mp (Nat.lt_of_mul_lt_mul_right (a := options.globalBatchSize) ?_)
      omega
    rw [hconsumes.steps_length, hconsumes'.steps_length]
    refine ⟨?_, fun hlast => ?_⟩
    · have htake := forall₂_take steps hconsumes'.steps_perm
      rw [← map_take, take_range, Nat.min_eq_left hsteps] at htake
      exact forall₂_join (fun first second shared hfirst hsecond index =>
        hfirst.mem_iff.trans hsecond.mem_iff.symm) hconsumes.steps_perm htake
    · refine Nat.le_antisymm hsteps ?_
      have hall := hconsumes.steps_all hlast
      have hle := hconsumes'.steps_le
      refine Nat.lt_add_one_iff.mp (Nat.lt_of_mul_lt_mul_right (a := options.globalBatchSize) ?_)
      omega

end Epoch

def shuffle42 : Shuffle where
  run key xs :=
    if key = 42 ∧ xs = List.range 12 then [7, 5, 2, 8, 9, 6, 11, 3, 4, 0, 1, 10] else xs
  perm key xs := by
    split
    · rename_i h
      rw [h.2]
      decide
    · exact .refl _

def cyclic42 : SamplerOptions where
  totalSamples := 12
  microBatchSize := 1
  globalBatchSize := 4
  dropLast := true
  indexMapping := none
  samplerType := .cyclic false 42

theorem consumedOnce_cyclic42 :
    ConsumedOnce cyclic42 shuffle42 0 2 [⟨2, id, .steps 1⟩, ⟨4, fun _ => 1, .epochEnd⟩] := by
  refine (consumedOnce_iff ⟨⟨by decide, by decide, by decide, rfl, fun _ => rfl⟩, ?_, ?_⟩).mpr ?_
  · rintro world (_ | ⟨_, _ | ⟨_, ⟨⟩⟩⟩)
    · exact ⟨by decide, by decide⟩
    · exact ⟨by decide, by decide⟩
  · rintro world - seed hseed
    cases hseed
  · exact ⟨.inr (by decide), fun _ => by decide, .inr (by decide), fun h => absurd rfl h, trivial⟩

/-- Ten samples in steps of four: the end of the epoch is inside a step. -/
def single10 : SamplerOptions where
  totalSamples := 10
  microBatchSize := 1
  globalBatchSize := 4
  dropLast := true
  indexMapping := none
  samplerType := .single

theorem consumedOnce_fails_single10 :
    Schedulable single10 2 [⟨2, id, .epochEnd⟩, ⟨2, id, .epochEnd⟩] ∧
      ¬ ConsumedOnce single10 shuffle42 0 2 [⟨2, id, .epochEnd⟩, ⟨2, id, .epochEnd⟩] := by
  have hworlds : Schedulable single10 2 [⟨2, id, .epochEnd⟩, ⟨2, id, .epochEnd⟩] := by
    refine ⟨⟨by decide, by decide, by decide, rfl, fun h => absurd rfl h⟩, ?_, ?_⟩
    · rintro world (_ | ⟨_, _ | ⟨_, ⟨⟩⟩⟩)
      · exact ⟨by decide, by decide⟩
      · exact ⟨by decide, by decide⟩
    · rintro world - seed hseed
      cases hseed
  refine ⟨hworlds, fun ⟨yields, hrun, _⟩ => ?_⟩
  have hresumable := @resumable_of_runWorlds single10 shuffle42 0 0 hworlds.usable 2 _
    (fun world hmem => ⟨hworlds.allowed world hmem, hworlds.compatible world hmem⟩) none rfl
    (Nat.zero_le _) (Nat.dvd_zero _) yields hrun
  exact absurd (hresumable.2.1 (cons_ne_nil _ _)) (by decide)

end HyperParallel.Data
