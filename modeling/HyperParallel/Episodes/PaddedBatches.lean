import HyperParallel.Episodes.EpisodeAdvantages
import Mathlib.Data.List.MinMax

/-!
# Batches with padding rows

Data-parallel ranks append rows without actions or reward until all have as many rows as
the longest one.
-/

namespace HyperParallel.Episodes

open Foundation List

variable {K Components : Type}

section Definitions

variable [Field K] [Inhabited Components]

def paddingRow (template : Trajectory K Components) : Trajectory K Components :=
  { template with
    reward := 0
    rewardComponents := default
    metadata := { dpPadding := some (.bool true) }
    actionMask := template.actionMask.map fun _ => false
    tensorReward := 0
    lossMask := template.lossMask.map fun _ => false }

/-- `_append_padding_rows`: the template is the first row with the most tokens. -/
def appendPaddingRows (rows : List (Trajectory K Components)) (missing : ℕ) :
    Except String (List (Trajectory K Components)) :=
  match rows.argmax fun row => row.actionMask.length with
  | none => .error "max() iterable argument is empty"
  | some template => .ok (rows ++ List.replicate missing (paddingRow template))

/-- `pad_agent_call_batch_for_dp` on one rank, with the batches of all ranks of its group. -/
def padAgentCallBatchForDp (dpGroup : Option (List (List (Trajectory K Components))))
    (hasOutputs : Bool) (rows : List (Trajectory K Components)) :
    Except String (List (Trajectory K Components)) :=
  match dpGroup with
  | none => .ok rows
  | some batches =>
    let hasCalls := batches.any fun batch => batch.any fun row => row.metadata.episodeId.isSome
    let target := (batches.map List.length).foldl max 0
    if batches.length ≤ 1 then .ok rows
    else if hasCalls = false ∨ target = rows.length then .ok rows
    else if hasOutputs then
      .error "DP call alignment must precede role outputs and target preparation"
    else appendPaddingRows rows (target - rows.length)

end Definitions

/-! ## Orders of the rows -/

variable {padding rows rows' : List (Trajectory K Components)}

theorem usesEpisodeTargets_perm (h : rows.Perm rows') :
    usesEpisodeTargets rows' = usesEpisodeTargets rows := by
  unfold usesEpisodeTargets
  rw [Bool.eq_iff_iff, any_eq_true, any_eq_true]
  simp only [h.mem_iff]

theorem groupRewards_perm (h : rows.Perm rows') (group : Option String) :
    (groupRewards rows group).Perm (groupRewards rows' group) :=
  membersOf_perm ((h.filter _).map _) group

theorem Prepared.perm [Field K] [DecidableEq K] (h : Prepared rows) (hperm : rows.Perm rows') :
    Prepared rows' where
  kinds := fun row hrow => h.kinds row (hperm.mem_iff.mpr hrow)
  complete := fun identity => (h.complete identity).perm (hperm.filter _)
  valid := fun row hrow => h.valid row (hperm.mem_iff.mpr hrow)
  rewards := by
    intro huses row hrow
    rw [usesEpisodeTargets_perm hperm] at huses
    exact h.rewards huses row (hperm.mem_iff.mpr hrow)
  quiet := fun row hrow => h.quiet row (hperm.mem_iff.mpr hrow)
  real := by
    intro huses
    rw [usesEpisodeTargets_perm hperm] at huses
    obtain ⟨row, hrow, hfirst⟩ := h.real huses
    exact ⟨row, hperm.mem_iff.mp hrow, hfirst⟩
  sizes := by
    intro row hrow hfirst
    rw [← (groupRewards_perm hperm row.groupId).length_eq]
    exact h.sizes row (hperm.mem_iff.mpr hrow) hfirst

/-! ## Padding -/

structure Blank (row : Trajectory K Components) : Prop where
  kind : rowKind row = .ok none
  padding : isPadding row = true
  reward : row.tensorReward = row.reward
  quiet : ∀ inLoss ∈ row.lossMask, inLoss = false

theorem Blank.kind_eq {row : Trajectory K Components} (h : Blank row) :
    Episodes.kind row = none := by
  simp [Episodes.kind, h.kind]

theorem Blank.isFirst_eq {row : Trajectory K Components} (h : Blank row) : isFirst row = false := by
  simp [isFirst, h.kind_eq]

theorem blank_paddingRow [Field K] [Inhabited Components] (template : Trajectory K Components) :
    Blank (paddingRow template) where
  kind := rfl
  padding := rfl
  reward := rfl
  quiet := by simp [paddingRow]

theorem validateRow_paddingRow [Field K] [DecidableEq K] [Inhabited Components]
    (template : Trajectory K Components) : validateRow (paddingRow template) = .ok () := by
  simp [validateRow, isPadding, paddingRow, Metadata.segmented]

theorem filter_isFirst_append (h : ∀ row ∈ padding, Blank row) :
    (rows ++ padding).filter isFirst = rows.filter isFirst := by
  have hnone : padding.filter isFirst = [] :=
    filter_eq_nil_iff.mpr fun row hrow => by simp [(h row hrow).isFirst_eq]
  rw [filter_append, hnone, append_nil]

theorem callsOf_append (h : ∀ row ∈ padding, Blank row) (identity : String) :
    callsOf identity (rows ++ padding) = callsOf identity rows := by
  have hnone : callsOf identity padding = [] :=
    filter_eq_nil_iff.mpr fun row hrow => by simp [(h row hrow).kind_eq]
  unfold callsOf at *
  rw [filter_append, hnone, append_nil]

theorem tokenAdvantages_append [Field K] {sqrt : K → K} {epsilon : K}
    (h : ∀ row ∈ padding, Blank row) :
    tokenAdvantages sqrt epsilon (rows ++ padding) = tokenAdvantages sqrt epsilon rows :=
  tokenAdvantages_congr (by rw [filter_isFirst_append h])

theorem padAgentCallBatchForDp_eq_ok [Field K] [Inhabited Components]
    {dpGroup : Option (List (List (Trajectory K Components)))} {hasOutputs : Bool}
    {padded : List (Trajectory K Components)}
    (h : padAgentCallBatchForDp dpGroup hasOutputs rows = .ok padded) :
    ∃ padding, padded = rows ++ padding ∧
      ∀ row ∈ padding, ∃ template ∈ rows, row = paddingRow template := by
  have hkept : (Except.ok rows : Except String _) = .ok padded → ∃ padding,
      padded = rows ++ padding ∧ ∀ row ∈ padding, ∃ template ∈ rows, row = paddingRow template := by
    intro h
    cases h
    exact ⟨[], by simp, by simp⟩
  unfold padAgentCallBatchForDp at h
  cases dpGroup with
  | none => exact hkept h
  | some batches =>
    simp only at h
    split at h
    · exact hkept h
    split at h
    · exact hkept h
    split at h
    · cases h
    unfold appendPaddingRows at h
    split at h
    · cases h
    · rename_i template htemplate
      cases h
      refine ⟨_, rfl, fun row hrow => ⟨template, argmax_mem htemplate, ?_⟩⟩
      exact eq_of_mem_replicate hrow

theorem Prepared.append [Field K] [DecidableEq K] [Inhabited Components] (h : Prepared rows)
    (hrewards : ∀ row ∈ rows, row.tensorReward = row.reward)
    (hpadding : ∀ row ∈ padding, ∃ template ∈ rows, row = paddingRow template) :
    Prepared (rows ++ padding) := by
  have hblank : ∀ row ∈ padding, Blank row := by
    intro row hrow
    obtain ⟨template, -, rfl⟩ := hpadding row hrow
    exact blank_paddingRow template
  constructor
  · intro row hrow
    rcases mem_append.mp hrow with hrow | hrow
    · exact h.kinds row hrow
    · exact ⟨none, (hblank row hrow).kind⟩
  · intro identity
    rw [callsOf_append hblank]
    exact h.complete identity
  · intro row hrow
    rcases mem_append.mp hrow with hrow | hrow
    · exact h.valid row hrow
    · obtain ⟨template, -, rfl⟩ := hpadding row hrow
      exact validateRow_paddingRow template
  · intro _ row hrow
    rcases mem_append.mp hrow with hrow | hrow
    · exact hrewards row hrow
    · exact (hblank row hrow).reward
  · intro row hrow hpad
    rcases mem_append.mp hrow with hrow | hrow
    · exact h.quiet row hrow hpad
    · exact (hblank row hrow).quiet
  · intro huses
    have hreal : ∃ row ∈ rows, isFirst row = true := by
      cases hown : usesEpisodeTargets rows with
      | true => exact h.real hown
      | false =>
        -- without rows of its own the batch has no padding either
        obtain ⟨row, hrow, -⟩ := any_eq_true.mp huses
        have hsome : ∃ row, row ∈ rows := by
          rcases mem_append.mp hrow with hrow | hrow
          · exact ⟨row, hrow⟩
          · obtain ⟨template, htemplate, -⟩ := hpadding row hrow
            exact ⟨template, htemplate⟩
        obtain ⟨row, hrow⟩ := hsome
        exact ⟨row, hrow, isFirst_of_plain h.kinds hown row hrow⟩
    obtain ⟨row, hrow, hfirst⟩ := hreal
    exact ⟨row, mem_append_left _ hrow, hfirst⟩
  · intro row hrow hfirst
    have hsame : groupRewards (rows ++ padding) row.groupId = groupRewards rows row.groupId := by
      unfold groupRewards
      rw [filter_isFirst_append hblank]
    rw [hsame]
    rcases mem_append.mp hrow with hrow | hrow
    · exact h.sizes row hrow hfirst
    · rw [(hblank row hrow).isFirst_eq] at hfirst
      cases hfirst

/-! ## Advantages and batches -/

def episodes (groups : List (List (ℕ × Trajectory K Components))) : List (K × Option String) :=
  (groups.filterMap List.head?).map fun entry => sequenceOf entry.2

theorem episodes_perm [DecidableEq K] [DecidableEq Components]
    {groups : List (List (ℕ × Trajectory K Components))} (h : episodeRows rows = .ok groups) :
    (episodes groups).Perm ((rows.filter isFirst).map sequenceOf) := by
  obtain ⟨-, -, hperm, hgrouped⟩ := episodeRows_eq_ok h
  have hfirsts := (firstRows_perm hperm hgrouped).map sequenceOf
  rwa [map_map] at hfirsts

/-- A row's advantages follow from the rewards and groups of the episodes alone, whatever the
order of the rows, the padding and the cut of the episodes into calls; and an accepted batch
has every call of its episodes once, with one reward and one group. -/
theorem advantages_independent_of_batching [Field K] [DecidableEq K] [DecidableEq Components]
    [Inhabited Components] (sqrt : K → K) (epsilon : K)
    {rows : List (Trajectory K Components)} {groups : List (List (ℕ × Trajectory K Components))}
    (hgroups : episodeRows rows = .ok groups) :
    (∀ identity, ((callsOf identity rows).map fun row => row.metadata.index).Perm
        ((List.range (callsOf identity rows).length).map Int.ofNat) ∧
      ∀ row ∈ callsOf identity rows, ∀ other ∈ callsOf identity rows,
        row.reward = other.reward ∧ row.groupId = other.groupId) ∧
    ∀ advantages, prepareTargets sqrt epsilon rows = .ok advantages →
      (advantages = rows.map fun row => maskAdvantage row.lossMask
        (groupAdvantage sqrt epsilon (membersOf (episodes groups) row.groupId) row.tensorReward)) ∧
      (∀ row ∈ rows, ∀ place < row.lossMask.length,
        isPadding row = true ∨ row.lossMask[place]? = some false →
        (tokenAdvantages sqrt epsilon rows row)[place]? = some 0) ∧
      (∀ rows', rows.Perm rows' → prepareTargets sqrt epsilon rows' =
        .ok (rows'.map (tokenAdvantages sqrt epsilon rows))) ∧
      (∀ dpGroup hasOutputs padded, (∀ row ∈ rows, row.tensorReward = row.reward) →
        padAgentCallBatchForDp dpGroup hasOutputs rows = .ok padded →
        ∃ padding, padded = rows ++ padding ∧ prepareTargets sqrt epsilon padded =
          .ok (advantages ++ padding.map fun row => row.lossMask.map fun _ => 0)) ∧
      ∀ rows' groups' advantages', episodeRows rows' = .ok groups' →
        (episodes groups).Perm (episodes groups') →
        prepareTargets sqrt epsilon rows' = .ok advantages' →
        advantages = rows.map (tokenAdvantages sqrt epsilon rows) ∧
          advantages' = rows'.map (tokenAdvantages sqrt epsilon rows) := by
  obtain ⟨-, hcomplete, -⟩ := episodeRows_eq_ok hgroups
  refine ⟨fun identity => ⟨(hcomplete identity).indices, fun row hrow other hother => ?_⟩, ?_⟩
  · have hshared := (hcomplete identity).shared row hrow other hother
    exact ⟨hshared.2.2.1, hshared.2.1⟩
  intro advantages h
  obtain ⟨hprepared, hvalue⟩ := prepareTargets_eq_ok_iff.mp h
  refine ⟨?_, ?_, ?_, ?_, ?_⟩
  · rw [hvalue]
    apply map_congr_left
    intro row _
    have hsame := membersOf_perm (episodes_perm hgroups) row.groupId
    rw [tokenAdvantages, groupAdvantage_perm hsame]
    rfl
  · intro row hrow place hlt hzero
    have hplace : row.lossMask[place]? = some false := by
      rcases hzero with hpadding | hplace
      · rw [getElem?_eq_getElem hlt, Option.some.injEq]
        exact hprepared.quiet row hrow hpadding _ (getElem_mem hlt)
      · exact hplace
    simp [tokenAdvantages, maskAdvantage, hplace]
  · intro rows' hperm
    apply prepareTargets_eq_ok_iff.mpr
    refine ⟨hprepared.perm hperm, ?_⟩
    rw [tokenAdvantages_congr ((hperm.filter isFirst).map sequenceOf)]
  · intro dpGroup hasOutputs padded hrewards hpad
    obtain ⟨padding, rfl, hpadding⟩ := padAgentCallBatchForDp_eq_ok hpad
    have hblank : ∀ row ∈ padding, Blank row := by
      intro row hrow
      obtain ⟨template, -, rfl⟩ := hpadding row hrow
      exact blank_paddingRow template
    refine ⟨padding, rfl, prepareTargets_eq_ok_iff.mpr ⟨hprepared.append hrewards hpadding, ?_⟩⟩
    rw [tokenAdvantages_append hblank, map_append, hvalue]
    congr 1
    apply map_congr_left
    intro row hrow
    have hzero := maskAdvantage_of_quiet (hblank row hrow).quiet
      (groupAdvantage sqrt epsilon (groupRewards rows row.groupId) row.tensorReward) 0
    rw [tokenAdvantages, hzero]
    simp [maskAdvantage]
  · intro rows' groups' advantages' hgroups' hepisodes h'
    obtain ⟨-, rfl⟩ := prepareTargets_eq_ok_iff.mp h'
    have hfirsts := ((episodes_perm hgroups).symm.trans hepisodes).trans (episodes_perm hgroups')
    exact ⟨hvalue, by rw [tokenAdvantages_congr hfirsts]⟩

def mixedRows : List (Trajectory ℚ ℕ) :=
  let call := fun (reward : ℚ) (metadata : Metadata) =>
    (⟨"prompt", some "group", reward, 0, 1, some 1, metadata, [false, true, false], reward,
      [true, false]⟩ : Trajectory ℚ ℕ)
  let part := fun (index : Int) =>
    (⟨some (.text "episode"), some (.int index), some (.int 2), none, none⟩ : Metadata)
  [call 2 (part 1), call 1 {}, call 2 (part 0), call 3 {}]

theorem mixedRows_reversed :
    prepareTargets id 0 mixedRows.reverse =
      .ok (mixedRows.reverse.map (tokenAdvantages id 0 mixedRows)) := by
  have hgroups : episodeRows mixedRows = .ok
      [[(2, mixedRows[2]), (0, mixedRows[0])], [(1, mixedRows[1])], [(3, mixedRows[3])]] := by
    rfl
  have htargets : prepareTargets id 0 mixedRows =
      .ok [[0, 0], [-1, 0], [0, 0], [1, 0]] := by
    decide +kernel
  exact ((advantages_independent_of_batching id 0 hgroups).2 _ htargets).2.2.1 _
    (reverse_perm mixedRows).symm

end HyperParallel.Episodes
