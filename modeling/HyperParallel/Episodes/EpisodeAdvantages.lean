import HyperParallel.Episodes.AdvantageEstimator
import HyperParallel.Episodes.EpisodeRows

/-!
# Episode advantages

The estimator takes one reward an episode, and every row gets the advantage of its episode
on the tokens of its loss mask.
-/

namespace HyperParallel.Episodes

open Foundation List

variable {K Components : Type}

def isPadding (row : Trajectory K Components) : Bool := row.metadata.dpPadding = some (.bool true)

def rowToEpisode (length : ℕ) (groups : List (List (ℕ × Trajectory K Components))) : List ℕ :=
  groups.zipIdx.foldl
    (fun places entry => entry.1.foldl (fun places row => places.set row.1 entry.2) places)
    (List.replicate length 0)

def usesEpisodeTargets (rows : List (Trajectory K Components)) : Bool :=
  rows.any fun row => row.metadata.episodeId.isSome || isPadding row

section Targets

variable [Field K] [DecidableEq K] [DecidableEq Components] (sqrt : K → K) (epsilon : K)

def maskAdvantage (lossMask : List Bool) (advantage : K) : List K :=
  lossMask.map fun inLoss => advantage * if inLoss then 1 else 0

def episodeTargets (rows : List (Trajectory K Components)) : Except String (List (List K)) := do
  let groups ← episodeRows rows
  if rows.any fun row => row.tensorReward ≠ row.reward then
    .error "Per-call reward tensor must match its episode trajectories"
  else if rows.any fun row => isPadding row && row.lossMask.any id then
    .error "DP padding must not contribute to the training loss mask"
  else if groups.isEmpty then .error "GRPO requires at least one real episode"
  else
    let firstRows := groups.filterMap List.head?
    (estimate sqrt epsilon (firstRows.map (·.2.tensorReward)) (firstRows.map (·.2.groupId))).map
      fun targets => (rows.zip (rowToEpisode rows.length groups)).map fun entry =>
        maskAdvantage entry.1.lossMask (targets.getD entry.2 0)

/-- `_validate_padding_row` and `_validate_sampled_actions`, on masks. -/
def validateRow (row : Trajectory K Components) : Except String Unit :=
  if isPadding row then
    if row.reward ≠ 0 ∨ row.actionMask.any id then
      .error "DP padding must have zero reward and no action tokens"
    else if row.metadata.segmented then .error "DP padding must not impersonate an episode"
    else .ok ()
  else if row.actionMask.length < 2 then
    .error "Trajectory must contain a prompt and at least one action token"
  else if row.actionMask.headD false ∨ ¬row.actionMask.tail.any id then
    .error "Trajectory must contain valid next-token actions"
  else .ok ()

def validateTrajectoryRows (rows : List (Trajectory K Components)) : Except String Unit := do
  let _ ← episodeRows rows
  rows.forM validateRow

/-- `prepare_targets` of a GRPO run, up to the advantages. -/
def prepareTargets (rows : List (Trajectory K Components)) : Except String (List (List K)) := do
  validateTrajectoryRows rows
  if usesEpisodeTargets rows then episodeTargets sqrt epsilon rows
  else
    (estimate sqrt epsilon (rows.map (·.tensorReward)) (rows.map (·.groupId))).map
      fun targets => (rows.zip targets).map fun entry => maskAdvantage entry.1.lossMask entry.2

end Targets

/-! ## Rows and their episodes -/

def sequenceOf (row : Trajectory K Components) : K × Option String :=
  (row.tensorReward, row.groupId)

variable {groups : List (List (ℕ × Trajectory K Components))}

theorem rowToEpisode_eq (length : ℕ) {episode : ℕ → ℕ}
    (h : ∀ entry ∈ groups.zipIdx, ∀ row ∈ entry.1, episode row.1 = entry.2) :
    rowToEpisode length groups = (replicate length 0).mapIdx fun place entry =>
      if place ∈ groups.zipIdx.flatMap fun entry => entry.1.map Prod.fst then episode place
      else entry := by
  have hset : ∀ (entry : List (ℕ × Trajectory K Components) × ℕ) (places : List ℕ),
      entry.1.foldl (fun places row => places.set row.1 entry.2) places =
        indexCopy places (entry.1.map Prod.fst) (entry.1.map fun _ => entry.2) := by
    intro entry places
    rw [indexCopy, zip_map', foldl_map]
  unfold rowToEpisode
  simp only [hset]
  apply foldl_indexCopy
  intro entry hentry
  rw [map_map]
  apply map_congr_left
  intro row hrow
  exact (h entry hentry row hrow).symm

theorem index_unique (hnodup : (groups.flatten.map Prod.fst).Nodup) {first second place : ℕ}
    {group other : List (ℕ × Trajectory K Components)} (hfirst : groups[first]? = some group)
    (hsecond : groups[second]? = some other) (hgroup : place ∈ group.map Prod.fst)
    (hother : place ∈ other.map Prod.fst) : first = second := by
  rw [map_flatten, nodup_flatten] at hnodup
  have hdisjoint := pairwise_iff_getElem.mp hnodup.2
  obtain ⟨hlt, hget⟩ := List.getElem?_eq_some_iff.mp hfirst
  obtain ⟨hlt', hget'⟩ := List.getElem?_eq_some_iff.mp hsecond
  rcases Nat.lt_trichotomy first second with hless | heq | hmore
  · have := hdisjoint first second (by simpa using hlt) (by simpa using hlt') hless
    rw [getElem_map, getElem_map, hget, hget'] at this
    exact (this hgroup hother).elim
  · exact heq
  · have := hdisjoint second first (by simpa using hlt') (by simpa using hlt) hmore
    rw [getElem_map, getElem_map, hget, hget'] at this
    exact (this hother hgroup).elim

theorem rowToEpisode_getElem? {length : ℕ} (hnodup : (groups.flatten.map Prod.fst).Nodup)
    {index : ℕ} {row : ℕ × Trajectory K Components} {group : List (ℕ × Trajectory K Components)}
    (hgroup : groups[index]? = some group) (hrow : row ∈ group) (hplace : row.1 < length) :
    (rowToEpisode length groups)[row.1]? = some index := by
  let episode : ℕ → ℕ := fun place =>
    groups.findIdx fun group => decide (place ∈ group.map Prod.fst)
  have hepisode : ∀ entry ∈ groups.zipIdx, ∀ row ∈ entry.1, episode row.1 = entry.2 := by
    intro entry hentry row hrow
    have hentry := mem_zipIdx_iff_getElem?.mp hentry
    have hmem := mem_map_of_mem (f := Prod.fst) hrow
    have hlt : groups.findIdx (fun group => decide (row.1 ∈ group.map Prod.fst)) < groups.length :=
      findIdx_lt_length_of_exists ⟨_, mem_of_getElem? hentry, by simpa using hmem⟩
    have hfound := findIdx_getElem (w := hlt)
    exact index_unique hnodup (getElem?_eq_getElem hlt) hentry (of_decide_eq_true hfound) hmem
  have hentry : (group, index) ∈ groups.zipIdx := mk_mem_zipIdx_iff_getElem?.mpr hgroup
  have hmem : row.1 ∈ groups.zipIdx.flatMap fun entry => entry.1.map Prod.fst :=
    mem_flatMap.mpr ⟨_, hentry, mem_map_of_mem hrow⟩
  rw [rowToEpisode_eq length hepisode, getElem?_mapIdx, getElem?_replicate,
    if_pos hplace, Option.map_some, if_pos hmem, hepisode _ hentry row hrow]

theorem length_rowToEpisode (length : ℕ) (groups : List (List (ℕ × Trajectory K Components))) :
    (rowToEpisode length groups).length = length := by
  unfold rowToEpisode
  have hkeep : ∀ (entries : List (List (ℕ × Trajectory K Components) × ℕ)) (places : List ℕ),
      (entries.foldl (fun places entry =>
        entry.1.foldl (fun places row => places.set row.1 entry.2) places) places).length =
        places.length := by
    intro entries
    induction entries with
    | nil => exact fun _ => rfl
    | cons entry rest ih =>
      intro places
      rw [foldl_cons, ih]
      induction entry.1 generalizing places with
      | nil => rfl
      | cons row rows ih => rw [foldl_cons, ih, length_set]
  rw [hkeep, length_replicate]

/-! ## The rows that stand for the episodes -/

theorem kind_of_isFirst {row : Trajectory K Components} (h : isFirst row = true) :
    (kind row).isSome = true := by
  unfold isFirst at h
  cases hkind : kind row with
  | none => simp [hkind] at h
  | some found => rfl

theorem isPadding_of_kind {row : Trajectory K Components}
    (h : ∃ found, rowKind row = .ok found) (hkind : kind row = none) : isPadding row = true := by
  obtain ⟨found, hfound⟩ := h
  obtain rfl : found = none := by simpa [kind, hfound] using hkind
  unfold rowKind at hfound
  cases hpadding : row.metadata.padding with
  | error error => simp [hpadding] at hfound
  | ok padding =>
    cases padding with
    | true =>
      unfold Metadata.padding at hpadding
      unfold isPadding
      split at hpadding
      · cases hpadding
      · rename_i value hvalue
        cases hpadding
        simp [hvalue]
      · cases hpadding
    | false =>
      rw [hpadding] at hfound
      simp only at hfound
      split at hfound
      · cases hidentity : row.metadata.callIdentity with
        | error error => simp [hidentity, Except.map] at hfound
        | ok identity => simp [hidentity, Except.map] at hfound
      · cases hfound

theorem firstRows_perm {rows : List (Trajectory K Components)}
    (hperm : groups.flatten.Perm ((keyed rows).map Prod.snd))
    (hgrouped : ∀ group ∈ groups, Grouped group) :
    ((groups.filterMap List.head?).map Prod.snd).Perm (rows.filter isFirst) := by
  have hheads : groups.filterMap List.head? =
      groups.flatten.filter fun entry => isFirst entry.2 := by
    clear hperm
    induction groups with
    | nil => rfl
    | cons group rest ih =>
      obtain ⟨head, tail, rfl, hhead, htail⟩ := (hgrouped group mem_cons_self).first
      have hnone : tail.filter (fun entry => isFirst entry.2) = [] :=
        filter_eq_nil_iff.mpr fun entry hentry => by simp [htail entry hentry]
      have hone : (head :: tail).filter (fun entry => isFirst entry.2) = [head] := by
        simp only [filter_cons, hhead, if_true, hnone]
      rw [flatten_cons, filter_append, hone, ← ih fun other hother =>
        hgrouped other (mem_cons_of_mem _ hother)]
      rfl
  have hrows : (((keyed rows).map Prod.snd).filter fun entry => isFirst entry.2).map Prod.snd =
      rows.filter isFirst := by
    have hmap := map_keyed rows
    rw [filter_map, map_map]
    have hfilter := congrArg (List.filter isFirst) hmap
    rw [filter_map, filter_filter] at hfilter
    refine Eq.trans ?_ (hfilter.trans ?_)
    · rfl
    · apply filter_congr
      intro row _
      cases hfirst : isFirst row with
      | true => simp [kind_of_isFirst hfirst]
      | false => rfl
  rw [hheads, ← hrows]
  exact (hperm.filter _).map _

theorem getElem?_heads (hgrouped : ∀ group ∈ groups, Grouped group) (index : ℕ) :
    (groups.filterMap List.head?)[index]? = groups[index]?.bind List.head? := by
  induction groups generalizing index with
  | nil => rfl
  | cons group rest ih =>
    obtain ⟨head, tail, rfl, -, -⟩ := (hgrouped group mem_cons_self).first
    rw [filterMap_cons, head?_cons]
    cases index with
    | zero => rfl
    | succ index =>
      exact ih (fun other hother => hgrouped other (mem_cons_of_mem _ hother)) index

def groupRewards (rows : List (Trajectory K Components)) (group : Option String) : List K :=
  membersOf ((rows.filter isFirst).map sequenceOf) group

theorem length_heads (hgrouped : ∀ group ∈ groups, Grouped group) :
    (groups.filterMap List.head?).length = groups.length := by
  induction groups with
  | nil => rfl
  | cons group rest ih =>
    obtain ⟨head, tail, rfl, -, -⟩ := (hgrouped group mem_cons_self).first
    simp [ih fun other hother => hgrouped other (mem_cons_of_mem _ hother)]

theorem sizes_iff {rows : List (Trajectory K Components)} {sequences : List (K × Option String)}
    (h : sequences.Perm ((rows.filter isFirst).map sequenceOf)) :
    (∀ sequence ∈ sequences, 2 ≤ (membersOf sequences sequence.2).length) ↔
      ∀ row ∈ rows, isFirst row = true → 2 ≤ (groupRewards rows row.groupId).length := by
  have hsame : ∀ group, (membersOf sequences group).length = (groupRewards rows group).length :=
    fun group => (membersOf_perm h group).length_eq
  simp only [h.mem_iff, hsame, forall_mem_map, mem_filter, and_imp, sequenceOf]

section Advantages

variable [Field K] {sqrt : K → K} {epsilon : K}

variable (sqrt epsilon) in
def tokenAdvantages (rows : List (Trajectory K Components)) (row : Trajectory K Components) :
    List K :=
  maskAdvantage row.lossMask
    (groupAdvantage sqrt epsilon (groupRewards rows row.groupId) row.tensorReward)

theorem tokenAdvantages_congr {rows rows' : List (Trajectory K Components)}
    (h : ((rows.filter isFirst).map sequenceOf).Perm ((rows'.filter isFirst).map sequenceOf)) :
    tokenAdvantages sqrt epsilon rows = tokenAdvantages sqrt epsilon rows' := by
  funext row
  have hsame := @groupAdvantage_perm K _ sqrt epsilon _ _ (membersOf_perm h row.groupId)
    row.tensorReward
  simp only [tokenAdvantages, groupRewards, hsame]

theorem maskAdvantage_of_quiet {lossMask : List Bool} (h : ∀ inLoss ∈ lossMask, inLoss = false)
    (first second : K) : maskAdvantage lossMask first = maskAdvantage lossMask second := by
  apply map_congr_left
  intro inLoss hmem
  simp [h inLoss hmem]

theorem advantages_eq {rows : List (Trajectory K Components)}
    (hkinds : ∀ row ∈ rows, ∃ found, rowKind row = .ok found)
    (hperm : groups.flatten.Perm ((keyed rows).map Prod.snd))
    (hgrouped : ∀ group ∈ groups, Grouped group)
    (hrewards : ∀ row ∈ rows, row.tensorReward = row.reward)
    (hquiet : ∀ row ∈ rows, isPadding row = true → ∀ inLoss ∈ row.lossMask, inLoss = false) :
    ((rows.zip (rowToEpisode rows.length groups)).map fun entry =>
      maskAdvantage entry.1.lossMask
        ((((groups.filterMap List.head?).map fun entry => sequenceOf entry.2).map fun sequence =>
          groupAdvantage sqrt epsilon (membersOf ((groups.filterMap List.head?).map
            fun entry => sequenceOf entry.2) sequence.2) sequence.1).getD entry.2 0)) =
      rows.map (tokenAdvantages sqrt epsilon rows) := by
  have hfirsts : ((groups.filterMap List.head?).map fun entry => sequenceOf entry.2).Perm
      ((rows.filter isFirst).map sequenceOf) := by
    have := (firstRows_perm hperm hgrouped).map sequenceOf
    rwa [map_map] at this
  have hnodup : (groups.flatten.map Prod.fst).Nodup := by
    rw [(hperm.map Prod.fst).nodup_iff, map_map]
    exact keyed_places rows
  apply ext_getElem?
  intro place
  rw [getElem?_map, getElem?_map]
  cases hrow : rows[place]? with
  | none =>
    have hzip : (rows.zip (rowToEpisode rows.length groups))[place]? = none := by
      rw [getElem?_eq_none_iff, length_zip, length_rowToEpisode, min_self]
      exact getElem?_eq_none_iff.mp hrow
    rw [hzip]
    rfl
  | some row =>
    have hlt := (List.getElem?_eq_some_iff.mp hrow).1
    have hmem := mem_of_getElem? hrow
    obtain ⟨episode, hepisode⟩ : ∃ episode,
        (rowToEpisode rows.length groups)[place]? = some episode := by
      rw [← length_rowToEpisode rows.length groups] at hlt
      exact ⟨_, getElem?_eq_getElem hlt⟩
    have hzip : (rows.zip (rowToEpisode rows.length groups))[place]? = some (row, episode) := by
      rw [getElem?_zip_eq_some]
      exact ⟨hrow, hepisode⟩
    rw [hzip, Option.map_some, Option.map_some, Option.some.injEq]
    cases hkind : kind row with
    | none =>
      exact maskAdvantage_of_quiet (hquiet row hmem (isPadding_of_kind (hkinds row hmem) hkind)) _ _
    | some found =>
      have hkeyed : (place, row) ∈ (keyed rows).map Prod.snd :=
        mem_map.mpr ⟨_, mem_keyed.mpr ⟨hrow, found, hkind, rfl⟩, rfl⟩
      obtain ⟨group, hgroup, hin⟩ := mem_flatten.mp (hperm.symm.subset hkeyed)
      obtain ⟨index, hindex⟩ := mem_iff_getElem?.mp hgroup
      have hplace := rowToEpisode_getElem? hnodup hindex hin hlt
      obtain rfl : episode = index := Option.some.inj (hepisode.symm.trans hplace)
      obtain ⟨head, tail, hcons, -, -⟩ := (hgrouped group hgroup).first
      have hhead : (groups.filterMap List.head?)[episode]? = some head := by
        rw [getElem?_heads hgrouped, hindex, hcons]
        rfl
      have hshared := (hgrouped group hgroup).shared head (by simp [hcons]) _ hin
      have hheadmem : head.2 ∈ rows := by
        have hflat : head ∈ groups.flatten := mem_flatten.mpr ⟨group, hgroup, by simp [hcons]⟩
        obtain ⟨⟨key, place', row'⟩, hentry, rfl⟩ := mem_map.mp (hperm.subset hflat)
        exact mem_of_getElem? (mem_keyed.mp hentry).1
      have hreward : head.2.tensorReward = row.tensorReward := by
        rw [hrewards _ hheadmem, hrewards row hmem]
        exact hshared.2
      simp only [List.getD, getElem?_map, hhead, Option.map_some, Option.getD_some]
      rw [tokenAdvantages, groupAdvantage_perm (membersOf_perm hfirsts _)]
      simp only [sequenceOf, hreward, hshared.1, groupRewards]

theorem plainTargets_eq_ok_iff {rows : List (Trajectory K Components)}
    {advantages : List (List K)} (hfirst : ∀ row ∈ rows, isFirst row = true) :
    (estimate sqrt epsilon (rows.map (·.tensorReward)) (rows.map (·.groupId))).map
        (fun targets => (rows.zip targets).map fun entry =>
          maskAdvantage entry.1.lossMask entry.2) = .ok advantages ↔
      (∀ row ∈ rows, isFirst row = true → 2 ≤ (groupRewards rows row.groupId).length) ∧
      advantages = rows.map (tokenAdvantages sqrt epsilon rows) := by
  have hall : rows.filter isFirst = rows := filter_eq_self.mpr hfirst
  have hestimate := @map_eq_ok_estimate K _ sqrt epsilon (List (List K)) (rows.map sequenceOf)
    (fun targets => (rows.zip targets).map fun entry => maskAdvantage entry.1.lossMask entry.2)
    advantages
  have hperm : (rows.map sequenceOf).Perm ((rows.filter isFirst).map sequenceOf) := by rw [hall]
  rw [sizes_iff hperm, map_map, map_map, map_map] at hestimate
  refine hestimate.trans (and_congr_right fun _ => ?_)
  have hzip : ∀ value : Trajectory K Components → K,
      ((rows.zip (rows.map value)).map fun entry => maskAdvantage entry.1.lossMask entry.2) =
        rows.map fun row => maskAdvantage row.lossMask (value row) := by
    intro value
    have hpairs := @zip_map' _ _ _ id value rows
    rw [map_id] at hpairs
    rw [hpairs, map_map]
    rfl
  rw [hzip]
  unfold tokenAdvantages groupRewards
  rw [hall]
  rfl

end Advantages

/-! ## Accepted batches -/

theorem kind_of_plain {row : Trajectory K Components} (h : ∃ found, rowKind row = .ok found)
    (hepisode : row.metadata.episodeId = none) (hpadding : isPadding row = false) :
    kind row = some none := by
  cases hkind : kind row with
  | none =>
    rw [isPadding_of_kind h hkind] at hpadding
    cases hpadding
  | some found =>
    cases found with
    | none => rfl
    | some identity =>
      unfold kind rowKind at hkind
      have hidentity : row.metadata.callIdentity =
          .error "Segmented trajectories require a non-empty episode_id" := by
        simp [Metadata.callIdentity, hepisode]
      rw [hidentity] at hkind
      cases hpad : row.metadata.padding with
      | error error => simp [hpad] at hkind
      | ok padding =>
        cases padding with
        | true => simp [hpad] at hkind
        | false =>
          cases hsegmented : row.metadata.segmented <;>
            simp [hpad, hsegmented, Except.map] at hkind

theorem isFirst_of_plain {rows : List (Trajectory K Components)}
    (hkinds : ∀ row ∈ rows, ∃ found, rowKind row = .ok found)
    (hplain : usesEpisodeTargets rows = false) : ∀ row ∈ rows, isFirst row = true := by
  intro row hrow
  have hboth := any_eq_false.mp hplain row hrow
  simp only [Bool.or_eq_true, Option.isSome_iff_ne_none, not_or, not_not, Bool.not_eq_true] at hboth
  simp [isFirst, kind_of_plain (hkinds row hrow) hboth.1 hboth.2]

theorem forM_eq_ok_iff {α : Type} {check : α → Except String Unit} {entries : List α} :
    entries.forM check = .ok () ↔ ∀ entry ∈ entries, check entry = .ok () := by
  induction entries with
  | nil => exact iff_of_true rfl (by simp)
  | cons entry rest ih =>
    have hstep : (entry :: rest).forM check = check entry >>= fun _ => rest.forM check := rfl
    rw [hstep, forall_mem_cons, ← ih]
    cases check entry with
    | error error => exact iff_of_false (fun h => by cases h) fun h => by cases h.1
    | ok value => exact ⟨fun h => ⟨rfl, h⟩, fun h => h.2⟩

section Accepted

variable [Field K] [DecidableEq K] [DecidableEq Components] {sqrt : K → K} {epsilon : K}

structure Prepared (rows : List (Trajectory K Components)) : Prop where
  kinds : ∀ row ∈ rows, ∃ found, rowKind row = .ok found
  complete : ∀ identity, Complete (callsOf identity rows)
  valid : ∀ row ∈ rows, validateRow row = .ok ()
  rewards : usesEpisodeTargets rows = true → ∀ row ∈ rows, row.tensorReward = row.reward
  quiet : ∀ row ∈ rows, isPadding row = true → ∀ inLoss ∈ row.lossMask, inLoss = false
  real : usesEpisodeTargets rows = true → ∃ row ∈ rows, isFirst row = true
  sizes : ∀ row ∈ rows, isFirst row = true → 2 ≤ (groupRewards rows row.groupId).length

variable {rows : List (Trajectory K Components)}

theorem validateTrajectoryRows_eq_ok_iff :
    validateTrajectoryRows rows = .ok () ↔
      (∀ row ∈ rows, ∃ found, rowKind row = .ok found) ∧
      (∀ identity, Complete (callsOf identity rows)) ∧ ∀ row ∈ rows, validateRow row = .ok () := by
  constructor
  · intro h
    obtain ⟨groups, hgroups, hvalid⟩ := bind_eq_ok h
    obtain ⟨hkinds, hcomplete, -⟩ := episodeRows_eq_ok hgroups
    exact ⟨hkinds, hcomplete, forM_eq_ok_iff.mp hvalid⟩
  · rintro ⟨hkinds, hcomplete, hvalid⟩
    obtain ⟨groups, hgroups⟩ := exists_episodeRows hkinds hcomplete
    unfold validateTrajectoryRows
    rw [hgroups]
    exact forM_eq_ok_iff.mpr hvalid

theorem episodeTargets_eq_ok_iff {advantages : List (List K)}
    (hkinds : ∀ row ∈ rows, ∃ found, rowKind row = .ok found)
    (hcomplete : ∀ identity, Complete (callsOf identity rows)) :
    episodeTargets sqrt epsilon rows = .ok advantages ↔
      (∀ row ∈ rows, row.tensorReward = row.reward) ∧
      (∀ row ∈ rows, isPadding row = true → ∀ inLoss ∈ row.lossMask, inLoss = false) ∧
      (∃ row ∈ rows, isFirst row = true) ∧
      (∀ row ∈ rows, isFirst row = true → 2 ≤ (groupRewards rows row.groupId).length) ∧
      advantages = rows.map (tokenAdvantages sqrt epsilon rows) := by
  obtain ⟨groups, hgroups⟩ := exists_episodeRows hkinds hcomplete
  obtain ⟨-, -, hperm, hgrouped⟩ := episodeRows_eq_ok hgroups
  have hfirsts := firstRows_perm hperm hgrouped
  have hsequences : ((groups.filterMap List.head?).map fun entry => sequenceOf entry.2).Perm
      ((rows.filter isFirst).map sequenceOf) := by
    have := hfirsts.map sequenceOf
    rwa [map_map] at this
  have hreal : groups.isEmpty = false ↔ ∃ row ∈ rows, isFirst row = true := by
    have hlength := hfirsts.length_eq
    rw [List.length_map, length_heads hgrouped] at hlength
    rw [← Bool.not_eq_true, List.isEmpty_iff, ← List.length_eq_zero_iff, hlength,
      List.length_eq_zero_iff, List.filter_eq_nil_iff]
    simp
  unfold episodeTargets
  rw [hgroups]
  change (if _ then _ else _) = _ ↔ _
  split
  · rename_i hdiffers
    refine iff_of_false (by simp) fun h => ?_
    simp only [any_eq_true, decide_eq_true_eq] at hdiffers
    obtain ⟨row, hrow, hne⟩ := hdiffers
    exact hne (h.1 row hrow)
  rename_i hrewards
  simp only [any_eq_true, decide_eq_true_eq, not_exists, not_and, not_not] at hrewards
  split
  · rename_i hloud
    refine iff_of_false (by simp) fun h => ?_
    simp only [any_eq_true, Bool.and_eq_true, id_eq] at hloud
    obtain ⟨row, hrow, hpadding, inLoss, hmem, htrue⟩ := hloud
    rw [h.2.1 row hrow hpadding inLoss hmem] at htrue
    cases htrue
  rename_i hquiet
  have hquiet : ∀ row ∈ rows, isPadding row = true → ∀ inLoss ∈ row.lossMask, inLoss = false := by
    simpa using hquiet
  split
  · rename_i hnone
    refine iff_of_false (by simp) fun h => ?_
    rw [hreal.mpr h.2.2.1] at hnone
    cases hnone
  rename_i hsome
  have hestimate := @map_eq_ok_estimate K _ sqrt epsilon (List (List K))
    ((groups.filterMap List.head?).map fun entry => sequenceOf entry.2)
    (fun targets => (rows.zip (rowToEpisode rows.length groups)).map fun entry =>
      maskAdvantage entry.1.lossMask (targets.getD entry.2 0)) advantages
  rw [advantages_eq hkinds hperm hgrouped hrewards hquiet, sizes_iff hsequences] at hestimate
  simp only [map_map] at hestimate
  refine Iff.trans hestimate ?_
  constructor
  · rintro ⟨hsizes, rfl⟩
    exact ⟨hrewards, hquiet, hreal.mp (by simpa using hsome), hsizes, rfl⟩
  · rintro ⟨-, -, -, hsizes, rfl⟩
    exact ⟨hsizes, rfl⟩

theorem prepareTargets_eq_ok_iff {advantages : List (List K)} :
    prepareTargets sqrt epsilon rows = .ok advantages ↔
      Prepared rows ∧ advantages = rows.map (tokenAdvantages sqrt epsilon rows) := by
  unfold prepareTargets
  constructor
  · intro h
    obtain ⟨⟨⟩, hvalid, h⟩ := bind_eq_ok h
    obtain ⟨hkinds, hcomplete, hvalid⟩ := validateTrajectoryRows_eq_ok_iff.mp hvalid
    cases huses : usesEpisodeTargets rows with
    | true =>
      rw [if_pos huses] at h
      obtain ⟨hrewards, hquiet, hreal, hsizes, rfl⟩ :=
        (episodeTargets_eq_ok_iff hkinds hcomplete).mp h
      exact ⟨⟨hkinds, hcomplete, hvalid, fun _ => hrewards, hquiet, fun _ => hreal, hsizes⟩, rfl⟩
    | false =>
      rw [if_neg (by simp [huses])] at h
      obtain ⟨hsizes, rfl⟩ := (plainTargets_eq_ok_iff (isFirst_of_plain hkinds huses)).mp h
      refine ⟨⟨hkinds, hcomplete, hvalid, by simp [huses], fun row hrow hpadding => ?_,
        by simp [huses], hsizes⟩, rfl⟩
      have := any_eq_false.mp huses row hrow
      simp [hpadding] at this
  · rintro ⟨hprepared, rfl⟩
    have hvalid := validateTrajectoryRows_eq_ok_iff.mpr
      ⟨hprepared.kinds, hprepared.complete, hprepared.valid⟩
    rw [hvalid]
    change (if _ then _ else _) = _
    cases huses : usesEpisodeTargets rows with
    | true =>
      rw [if_pos rfl]
      exact (episodeTargets_eq_ok_iff hprepared.kinds hprepared.complete).mpr
        ⟨hprepared.rewards huses, hprepared.quiet, hprepared.real huses, hprepared.sizes, rfl⟩
    | false =>
      rw [if_neg (by simp)]
      exact (plainTargets_eq_ok_iff (isFirst_of_plain hprepared.kinds huses)).mpr
        ⟨hprepared.sizes, rfl⟩

end Accepted

end HyperParallel.Episodes
