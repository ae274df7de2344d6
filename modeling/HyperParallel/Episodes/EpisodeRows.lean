import HyperParallel.Foundation.PyDict
import HyperParallel.Foundation.PySequence
import Mathlib.Data.List.Sort
import Mathlib.Data.List.Range

/-!
# Grouping the calls of an episode

A row without call fields is an episode by itself; rows with call fields belong to the
episode they name and have to be all of its calls.  Padding rows belong to none.
-/

namespace HyperParallel.Episodes

open Foundation List

inductive MetaValue where
  | text (value : String)
  | int (value : Int)
  | bool (value : Bool)
  | other
  deriving DecidableEq, Repr

structure Metadata where
  episodeId : Option MetaValue := none
  callIndex : Option MetaValue := none
  callCount : Option MetaValue := none
  dpPadding : Option MetaValue := none
  asyncTraining : Option MetaValue := none
  deriving DecidableEq, Repr

/-- A trajectory with its row of the batch tensors: the entry of `rewards` and the loss mask. -/
structure Trajectory (K Components : Type) where
  promptId : String
  groupId : Option String
  reward : K
  rewardComponents : Components
  policyVersion : Int
  workerPolicyVersion : Option Int
  metadata : Metadata
  actionMask : List Bool
  tensorReward : K
  lossMask : List Bool

variable {K Components : Type}

/-- The white space `str.strip` takes away. -/
def isSpace (c : Char) : Bool :=
  let code := c.toNat
  (9 ≤ code && code ≤ 13) || (28 ≤ code && code ≤ 32) || code = 0x85 || code = 0xa0 ||
    code = 0x1680 || (0x2000 ≤ code && code ≤ 0x200a) || code = 0x2028 || code = 0x2029 ||
    code = 0x202f || code = 0x205f || code = 0x3000

namespace Metadata

def segmented (metadata : Metadata) : Bool :=
  metadata.episodeId.isSome || metadata.callIndex.isSome || metadata.callCount.isSome

def index (metadata : Metadata) : Int :=
  match metadata.callIndex with
  | some (.int index) => index
  | _ => 0

def count (metadata : Metadata) : Int :=
  match metadata.callCount with
  | some (.int count) => count
  | _ => 0

/-- `_call_identity`. -/
def callIdentity (metadata : Metadata) : Except String String :=
  match metadata.episodeId with
  | some (.text identity) =>
    if identity.toList.all isSpace then
      .error "Segmented trajectories require a non-empty episode_id"
    else
      match metadata.callIndex, metadata.callCount with
      | some (.int index), some (.int count) =>
        if 0 ≤ index ∧ index < count then .ok identity
        else .error s!"Episode {identity} has an invalid call index/count"
      | some (.int _), _ => .error s!"Episode {identity} requires integer call_count"
      | _, _ => .error s!"Episode {identity} requires integer call_index"
  | _ => .error "Segmented trajectories require a non-empty episode_id"

/-- `metadata.get("dp_padding", False)`, which has to be a boolean. -/
def padding (metadata : Metadata) : Except String Bool :=
  match metadata.dpPadding with
  | none => .ok false
  | some (.bool padding) => .ok padding
  | _ => .error "dp_padding must be a boolean"

end Metadata

inductive EpisodeKey where
  | calls (identity : String)
  | row (index : ℕ)
  deriving DecidableEq, Repr

/-- The key a row is grouped under; `none` for padding. -/
def episodeKey (index : ℕ) (row : Trajectory K Components) : Except String (Option EpisodeKey) := do
  if (← row.metadata.padding) then
    pure none
  else if row.metadata.segmented then
    pure (some (.calls (← row.metadata.callIdentity)))
  else
    pure (some (.row index))

def isAsynchronous (row : Trajectory K Components) : Bool :=
  row.metadata.asyncTraining = some (.bool true)

def keyedRows (trajectories : List (Trajectory K Components)) :
    Except String (List (EpisodeKey × ℕ × Trajectory K Components)) := do
  let keyed ← trajectories.zipIdx.mapM fun (row, index) =>
    (episodeKey index row).map (·.map fun key => (key, index, row))
  pure keyed.reduceOption

section Checks

variable [DecidableEq K] [DecidableEq Components]

def inconsistentField (asynchronous : Bool) (first : Trajectory K Components)
    (rest : List (Trajectory K Components)) : Option String :=
  if rest.any (·.promptId ≠ first.promptId) then some "prompt_id"
  else if rest.any (·.groupId ≠ first.groupId) then some "group_id"
  else if rest.any (·.reward ≠ first.reward) then some "reward"
  else if rest.any (·.rewardComponents ≠ first.rewardComponents) then some "reward_components"
  else if asynchronous then none
  else if rest.any (·.policyVersion ≠ first.policyVersion) then some "policy_version"
  else if rest.any (·.workerPolicyVersion ≠ first.workerPolicyVersion) then
    some "worker_policy_version"
  else none

/-- `_validate_episode` on the rows of one identity. -/
def validateEpisode (identity : String) (rows : List (Trajectory K Components)) :
    Except String Unit :=
  if rows.any (fun row => row.metadata.count ≠ rows.length) ∨
      (rows.map fun row => row.metadata.index).insertionSort (· ≤ ·) ≠
        (List.range rows.length).map Int.ofNat then
    .error s!"Incomplete or duplicated calls in episode {identity}"
  else
    let asynchronous := rows.all isAsynchronous
    let ordered := rows.insertionSort fun row other => row.metadata.index ≤ other.metadata.index
    let versions := ordered.map (·.policyVersion)
    if asynchronous = true ∧ (versions.any (· < 1) ∨ versions ≠ versions.insertionSort (· ≤ ·) ∨
        rows.any fun row => row.workerPolicyVersion ≠ some row.policyVersion) then
      .error s!"Invalid asynchronous call versions in episode {identity}"
    else
      match rows with
      | [] => .ok ()
      | first :: rest =>
        match inconsistentField asynchronous first rest with
        | some field => .error s!"Inconsistent {field} in episode {identity}"
        | none => .ok ()

def orderEpisode (entry : EpisodeKey × List (ℕ × Trajectory K Components)) :
    Except String (List (ℕ × Trajectory K Components)) :=
  match entry.1 with
  | .row _ => .ok entry.2
  | .calls identity => do
      validateEpisode identity (entry.2.map Prod.snd)
      pure (entry.2.insertionSort fun row other => row.2.metadata.index ≤ other.2.metadata.index)

/-- `episode_rows`, each index with its row. -/
def episodeRows (trajectories : List (Trajectory K Components)) :
    Except String (List (List (ℕ × Trajectory K Components))) := do
  let keyed ← keyedRows trajectories
  (PyDict.group keyed).entries.mapM orderEpisode

end Checks

/-! ## Complete episodes -/

/-- The calls of one complete episode, in any order. -/
structure Complete (rows : List (Trajectory K Components)) : Prop where
  count : ∀ row ∈ rows, row.metadata.count = rows.length
  indices : (rows.map fun row => row.metadata.index).Perm ((List.range rows.length).map Int.ofNat)
  versions : rows.all isAsynchronous = true →
    (∀ row ∈ rows, 1 ≤ row.policyVersion ∧ row.workerPolicyVersion = some row.policyVersion) ∧
    ∀ row ∈ rows, ∀ other ∈ rows, row.metadata.index ≤ other.metadata.index →
      row.policyVersion ≤ other.policyVersion
  shared : ∀ row ∈ rows, ∀ other ∈ rows, row.promptId = other.promptId ∧
    row.groupId = other.groupId ∧ row.reward = other.reward ∧
    row.rewardComponents = other.rewardComponents
  policy : rows.all isAsynchronous = false → ∀ row ∈ rows, ∀ other ∈ rows,
    row.policyVersion = other.policyVersion ∧ row.workerPolicyVersion = other.workerPolicyVersion

theorem sorted_eq_range_iff {indices : List Int} {length : ℕ} :
    indices.insertionSort (· ≤ ·) = (range length).map Int.ofNat ↔
      indices.Perm ((range length).map Int.ofNat) := by
  constructor
  · intro h
    rw [← h]
    exact (perm_insertionSort (· ≤ ·) indices).symm
  · intro h
    have hrange : ((range length).map Int.ofNat).Pairwise (· ≤ ·) := by
      rw [pairwise_map]
      exact pairwise_lt_range.imp fun hlt => Int.ofNat_le.mpr hlt.le
    exact ((perm_insertionSort (· ≤ ·) indices).trans h).eq_of_pairwise'
      (pairwise_insertionSort (· ≤ ·) indices) hrange

variable {rows : List (Trajectory K Components)} {entries : List (ℕ × Trajectory K Components)}

theorem versions_sorted_iff (hdistinct : (rows.map fun row => row.metadata.index).Nodup) :
    let versions := (rows.insertionSort fun row other =>
      row.metadata.index ≤ other.metadata.index).map (·.policyVersion)
    versions = versions.insertionSort (· ≤ ·) ↔
      ∀ row ∈ rows, ∀ other ∈ rows, row.metadata.index ≤ other.metadata.index →
        row.policyVersion ≤ other.policyVersion := by
  intro versions
  let byIndex : Trajectory K Components → Trajectory K Components → Prop :=
    fun row other => row.metadata.index ≤ other.metadata.index
  have hperm := perm_insertionSort byIndex rows
  have hordered : (rows.insertionSort byIndex).Pairwise byIndex := by
    have : Std.Total byIndex := ⟨fun _ _ => le_total _ _⟩
    have : IsTrans _ byIndex := ⟨fun _ _ _ => le_trans⟩
    exact pairwise_insertionSort byIndex rows
  have hsorted : versions = versions.insertionSort (· ≤ ·) ↔ versions.Pairwise (· ≤ ·) := by
    constructor
    · intro h
      rw [h]
      exact pairwise_insertionSort (· ≤ ·) versions
    · intro h
      exact h.insertionSort_eq.symm
  have hmem : ∀ row, row ∈ rows.insertionSort byIndex ↔ row ∈ rows := fun row => hperm.mem_iff
  rw [hsorted, pairwise_map]
  constructor
  · intro h row hrow other hother hle
    let either : Trajectory K Components → Trajectory K Components → Prop := fun row other =>
      (byIndex row other ∧ row.policyVersion ≤ other.policyVersion) ∨
        (byIndex other row ∧ other.policyVersion ≤ row.policyVersion)
    have : Std.Symm either := ⟨fun _ _ h => h.symm⟩
    have hboth : (rows.insertionSort byIndex).Pairwise either := (hordered.and h).imp Or.inl
    have hall := List.Pairwise.forall_of_forall (R := either)
      (fun row _ => Or.inl ⟨le_refl row.metadata.index, le_refl _⟩) hboth
      ((hmem row).mpr hrow) ((hmem other).mpr hother)
    rcases hall with hforth | ⟨hback, -⟩
    · exact hforth.2
    · have hsame := inj_on_of_nodup_map hdistinct hrow hother (le_antisymm hle hback)
      rw [hsame]
  · intro h
    apply hordered.imp_of_mem
    intro row other hrow hother hle
    exact h row ((hmem row).mp hrow) other ((hmem other).mp hother) hle

theorem Complete.perm {rows' : List (Trajectory K Components)} (h : Complete rows)
    (hperm : rows.Perm rows') : Complete rows' := by
  have hmem : ∀ row, row ∈ rows' ↔ row ∈ rows := fun row => hperm.mem_iff.symm
  have hlength := hperm.length_eq
  have hall : rows'.all isAsynchronous = rows.all isAsynchronous := by
    rw [Bool.eq_iff_iff, all_eq_true, all_eq_true]
    simp [hmem]
  constructor
  · intro row hrow
    rw [← hlength]
    exact h.count row ((hmem row).mp hrow)
  · rw [← hlength]
    exact (hperm.map _).symm.trans h.indices
  · rw [hall]
    simpa [hmem] using h.versions
  · simpa [hmem] using h.shared
  · rw [hall]
    simpa [hmem] using h.policy

theorem complete_nil : Complete ([] : List (Trajectory K Components)) where
  count := by simp
  indices := .nil
  versions := fun _ => by simp
  shared := by simp
  policy := fun _ => by simp

/-! ## The kind of a row -/

def rowKind (row : Trajectory K Components) : Except String (Option (Option String)) :=
  match row.metadata.padding with
  | .error error => .error error
  | .ok true => .ok none
  | .ok false =>
    if row.metadata.segmented then row.metadata.callIdentity.map fun identity => some (some identity)
    else .ok (some none)

def kind (row : Trajectory K Components) : Option (Option String) :=
  match rowKind row with
  | .ok kind => kind
  | .error _ => none

def keyAt (index : ℕ) (kind : Option String) : EpisodeKey :=
  match kind with
  | none => .row index
  | some identity => .calls identity

def callsOf (identity : String) (rows : List (Trajectory K Components)) :
    List (Trajectory K Components) :=
  rows.filter fun row => kind row = some (some identity)

def isFirst (row : Trajectory K Components) : Bool :=
  match kind row with
  | none => false
  | some none => true
  | some (some _) => row.metadata.index = 0

theorem episodeKey_eq (index : ℕ) (row : Trajectory K Components) :
    episodeKey index row = (rowKind row).map (·.map (keyAt index)) := by
  unfold episodeKey rowKind
  cases row.metadata.padding with
  | error error => rfl
  | ok padding =>
    cases padding with
    | true => rfl
    | false =>
      cases hsegmented : row.metadata.segmented with
      | false => simp [bind, Except.bind, pure, Except.pure, Except.map, keyAt]
      | true =>
        cases hidentity : row.metadata.callIdentity with
        | error error => simp [bind, Except.bind, Except.map]
        | ok identity => simp [bind, Except.bind, pure, Except.pure, Except.map, keyAt]

def keyed (rows : List (Trajectory K Components)) : List (EpisodeKey × ℕ × Trajectory K Components) :=
  rows.zipIdx.filterMap fun entry =>
    (kind entry.1).map fun kind => (keyAt entry.2 kind, entry.2, entry.1)

theorem keyedRows_eq_ok_iff {result : List (EpisodeKey × ℕ × Trajectory K Components)} :
    keyedRows rows = .ok result ↔
      (∀ row ∈ rows, ∃ kind, rowKind row = .ok kind) ∧ result = keyed rows := by
  have hok : (∀ row ∈ rows, ∃ kind, rowKind row = .ok kind) → keyedRows rows = .ok (keyed rows) := by
    intro h
    unfold keyedRows
    rw [mapM_eq_ok (g := fun entry : Trajectory K Components × ℕ =>
      (kind entry.1).map fun kind => (keyAt entry.2 kind, entry.2, entry.1))]
    · exact congrArg Except.ok filterMap_map
    · intro entry hentry
      obtain ⟨found, hfound⟩ := h entry.1 (fst_mem_of_mem_zipIdx hentry)
      have hkind : kind entry.1 = found := by simp [kind, hfound]
      simp only [episodeKey_eq, hfound, Except.map, hkind, Option.map_map]
      rfl
  constructor
  · intro h
    have hkinds : ∀ row ∈ rows, ∃ kind, rowKind row = .ok kind := by
      obtain ⟨found, hfound, -⟩ := bind_eq_ok h
      intro row hrow
      obtain ⟨index, hindex⟩ := mem_iff_getElem?.mp hrow
      obtain ⟨key, -, hkey⟩ := exists_of_forall₂_left (mapM_eq_ok_iff.mp hfound)
        (mk_mem_zipIdx_iff_getElem?.mpr hindex)
      simp only [episodeKey_eq] at hkey
      cases hkind : rowKind row with
      | error error => simp [hkind, Except.map] at hkey
      | ok kind => exact ⟨kind, rfl⟩
    rw [hok hkinds] at h
    exact ⟨hkinds, (Except.ok.inj h).symm⟩
  · rintro ⟨hkinds, rfl⟩
    exact hok hkinds

/-! ## The groups of a batch -/

variable {key : EpisodeKey} {identity : String}

theorem mem_keyed {index : ℕ} {row : Trajectory K Components} :
    (key, index, row) ∈ keyed rows ↔
      rows[index]? = some row ∧ ∃ found, kind row = some found ∧ key = keyAt index found := by
  simp only [keyed, mem_filterMap, mem_zipIdx_iff_getElem?, Option.map_eq_some_iff, Prod.mk.injEq]
  constructor
  · rintro ⟨⟨row', index'⟩, hrow, found, hfound, rfl, rfl, rfl⟩
    exact ⟨hrow, found, hfound, rfl⟩
  · rintro ⟨hrow, found, hfound, rfl⟩
    exact ⟨(row, index), hrow, found, hfound, rfl, rfl, rfl⟩

theorem map_filter_keyed {p : EpisodeKey → Bool} {q : Option String → Bool}
    (h : ∀ index found, p (keyAt index found) = q found) (rows : List (Trajectory K Components)) :
    ((keyed rows).filter fun entry => p entry.1).map (fun entry => entry.2.2) =
      rows.filter fun row => (kind row).elim false q := by
  unfold keyed
  generalize 0 = start
  induction rows generalizing start with
  | nil => rfl
  | cons row rest ih =>
    rw [zipIdx_cons, filterMap_cons]
    cases hkind : kind row with
    | none => simpa [hkind] using ih (start + 1)
    | some found =>
      have hp := h start found
      cases hq : q found with
      | true => simpa [hkind, hp, hq] using ih (start + 1)
      | false => simpa [hkind, hp, hq] using ih (start + 1)

theorem map_keyed (rows : List (Trajectory K Components)) :
    (keyed rows).map (fun entry => entry.2.2) = rows.filter fun row => (kind row).isSome := by
  have h := @map_filter_keyed K Components (fun _ => true) (fun _ => true) (fun _ _ => rfl) rows
  rw [filter_true] at h
  rw [h]
  congr 1
  funext row
  cases kind row <;> rfl

theorem keyed_calls (rows : List (Trajectory K Components)) (identity : String) :
    ((keyed rows).filter fun entry => entry.1 = .calls identity).map (fun entry => entry.2.2) =
      callsOf identity rows := by
  have h := map_filter_keyed (p := fun key => key = .calls identity)
    (q := fun found => found = some identity) (fun index found => by
      cases found <;> simp [keyAt]) rows
  rw [h]
  unfold callsOf
  congr 1
  funext row
  cases kind row <;> simp

theorem keyed_places (rows : List (Trajectory K Components)) :
    ((keyed rows).map fun entry => entry.2.1).Nodup := by
  have hsublist : ((keyed rows).map fun entry => entry.2.1).Sublist (rows.zipIdx.map Prod.snd) := by
    unfold keyed
    generalize rows.zipIdx = entries
    induction entries with
    | nil => exact .slnil
    | cons entry rest ih =>
      rw [filterMap_cons, map_cons]
      cases kind entry.1 with
      | none => exact ih.cons _
      | some found => exact ih.cons_cons _
  apply hsublist.nodup
  rw [zipIdx_map_snd]
  exact nodup_range'

theorem keyed_row (rows : List (Trajectory K Components)) {index : ℕ}
    {entry : ℕ × Trajectory K Components} (h : (.row index, entry) ∈ keyed rows) :
    ((keyed rows).filter fun entry => entry.1 = .row index).map Prod.snd = [entry] := by
  have hplace : ∀ index' row, (EpisodeKey.row index, index', row) ∈ keyed rows →
      index' = index ∧ rows[index']? = some row := by
    intro index' row hmem
    obtain ⟨hrow, found, -, hkey⟩ := mem_keyed.mp hmem
    cases found with
    | none =>
      cases hkey
      exact ⟨rfl, hrow⟩
    | some identity => cases hkey
  have hsame : ∀ other ∈ ((keyed rows).filter fun entry => entry.1 = .row index).map Prod.snd,
      other = entry := by
    intro other hother
    obtain ⟨⟨key, index', row⟩, hmem, rfl⟩ := mem_map.mp hother
    obtain ⟨hmem, hkey⟩ := mem_filter.mp hmem
    obtain rfl : key = .row index := by simpa using hkey
    obtain ⟨index'', row''⟩ := entry
    obtain ⟨rfl, hrow⟩ := hplace _ _ hmem
    obtain ⟨rfl, hrow''⟩ := hplace _ _ h
    rw [hrow, Option.some.injEq] at hrow''
    rw [hrow'']
  have hnodup : (((keyed rows).filter fun entry => entry.1 = .row index).map Prod.snd).Nodup := by
    apply List.Nodup.of_map Prod.fst
    rw [map_map]
    exact (filter_sublist.map _).nodup (keyed_places rows)
  have hmem : entry ∈ ((keyed rows).filter fun entry => entry.1 = .row index).map Prod.snd :=
    mem_map.mpr ⟨_, mem_filter.mpr ⟨h, by simp⟩, rfl⟩
  generalize ((keyed rows).filter fun entry => entry.1 = .row index).map Prod.snd = found at *
  cases found with
  | nil => cases hmem
  | cons first rest =>
    obtain rfl := hsame first mem_cons_self
    cases rest with
    | nil => rfl
    | cons second rest =>
      have := hsame second (mem_cons_of_mem _ mem_cons_self)
      simp [this] at hnodup

/-- An episode as it comes out: its rows, one of which stands for it and comes first. -/
structure Grouped (group : List (ℕ × Trajectory K Components)) : Prop where
  first : ∃ head rest, group = head :: rest ∧ isFirst head.2 = true ∧
    ∀ entry ∈ rest, isFirst entry.2 = false
  shared : ∀ entry ∈ group, ∀ other ∈ group, entry.2.groupId = other.2.groupId ∧
    entry.2.reward = other.2.reward

theorem Complete.grouped (h : Complete (entries.map Prod.snd))
    (hne : entries ≠ []) (hkind : ∀ entry ∈ entries, kind entry.2 = some (some identity)) :
    Grouped (entries.insertionSort fun row other =>
      row.2.metadata.index ≤ other.2.metadata.index) := by
  let byIndex : ℕ × Trajectory K Components → ℕ × Trajectory K Components → Prop :=
    fun row other => row.2.metadata.index ≤ other.2.metadata.index
  have : Std.Total byIndex := ⟨fun _ _ => le_total _ _⟩
  have : IsTrans _ byIndex := ⟨fun _ _ _ => le_trans⟩
  have hperm := perm_insertionSort byIndex entries
  have hmem : ∀ entry, entry ∈ entries.insertionSort byIndex ↔ entry ∈ entries :=
    fun entry => hperm.mem_iff
  have hsorted : (entries.insertionSort byIndex).map (fun entry => entry.2.metadata.index) =
      (range entries.length).map Int.ofNat := by
    have hindices := h.indices
    simp only [map_map, length_map] at hindices
    have hrange : ((range entries.length).map Int.ofNat).Pairwise (· ≤ ·) := by
      rw [pairwise_map]
      exact pairwise_lt_range.imp fun hlt => Int.ofNat_le.mpr hlt.le
    have hordered : ((entries.insertionSort byIndex).map
        fun entry => entry.2.metadata.index).Pairwise (· ≤ ·) := by
      rw [pairwise_map]
      exact pairwise_insertionSort byIndex entries
    exact ((hperm.map _).trans hindices).eq_of_pairwise' hordered hrange
  have hfirst : ∀ entry ∈ entries.insertionSort byIndex,
      isFirst entry.2 = decide (entry.2.metadata.index = 0) := by
    intro entry hentry
    simp [isFirst, hkind entry ((hmem entry).mp hentry)]
  constructor
  · change ∃ head rest, entries.insertionSort byIndex = head :: rest ∧ _
    obtain ⟨count, hcount⟩ := Nat.exists_eq_succ_of_ne_zero (mt length_eq_zero_iff.mp hne)
    rw [hcount, range_succ_eq_map, map_cons, map_map] at hsorted
    cases hgroup : entries.insertionSort byIndex with
    | nil => simp [hgroup] at hsorted
    | cons head rest =>
      rw [hgroup] at hsorted hfirst
      rw [map_cons, cons.injEq] at hsorted
      refine ⟨head, rest, rfl, ?_, fun entry hentry => ?_⟩
      · rw [hfirst head mem_cons_self, hsorted.1]
        rfl
      · rw [hfirst entry (mem_cons_of_mem _ hentry), decide_eq_false_iff_not]
        have hindex := mem_map_of_mem (f := fun entry : ℕ × Trajectory K Components =>
          entry.2.metadata.index) hentry
        rw [hsorted.2] at hindex
        obtain ⟨place, -, hplace⟩ := mem_map.mp hindex
        change ((place.succ : ℕ) : Int) = _ at hplace
        omega
  · intro entry hentry other hother
    have hshared := h.shared _ (mem_map_of_mem ((hmem entry).mp hentry)) _
      (mem_map_of_mem ((hmem other).mp hother))
    exact ⟨hshared.2.1, hshared.2.2.1⟩

theorem get?_keyed (h : (key, entries) ∈ (PyDict.group (keyed rows)).entries) :
    entries ≠ [] ∧ entries = ((keyed rows).filter fun entry => entry.1 = key).map Prod.snd := by
  have hget := (PyDict.mem_entries_iff _).mp h
  rw [PyDict.get?_group] at hget
  split at hget
  · cases hget
  · rename_i hne
    cases hget
    exact ⟨by simpa using hne, rfl⟩

theorem map_calls
    (h : (.calls identity, entries) ∈ (PyDict.group (keyed rows)).entries) :
    entries.map Prod.snd = callsOf identity rows := by
  rw [(get?_keyed h).2, map_map, ← keyed_calls]
  rfl

/-! ## What is accepted -/

variable [DecidableEq K] [DecidableEq Components]

theorem inconsistentField_eq_none_iff_first {asynchronous : Bool}
    {first : Trajectory K Components} {rest : List (Trajectory K Components)} :
    inconsistentField asynchronous first rest = none ↔
      (∀ row ∈ rest, row.promptId = first.promptId ∧ row.groupId = first.groupId ∧
        row.reward = first.reward ∧ row.rewardComponents = first.rewardComponents) ∧
      (asynchronous = false → ∀ row ∈ rest, row.policyVersion = first.policyVersion ∧
        row.workerPolicyVersion = first.workerPolicyVersion) := by
  unfold inconsistentField
  cases asynchronous <;> simp [ite_eq_iff, imp_and, forall_and, and_assoc]

theorem inconsistentField_eq_none_iff {asynchronous : Bool} {first : Trajectory K Components}
    {rest : List (Trajectory K Components)} :
    inconsistentField asynchronous first rest = none ↔
      (∀ row ∈ first :: rest, ∀ other ∈ first :: rest, row.promptId = other.promptId ∧
        row.groupId = other.groupId ∧ row.reward = other.reward ∧
        row.rewardComponents = other.rewardComponents) ∧
      (asynchronous = false → ∀ row ∈ first :: rest, ∀ other ∈ first :: rest,
        row.policyVersion = other.policyVersion ∧
        row.workerPolicyVersion = other.workerPolicyVersion) := by
  rw [inconsistentField_eq_none_iff_first]
  constructor
  · rintro ⟨hshared, hpolicy⟩
    have hshared' : ∀ row ∈ first :: rest, row.promptId = first.promptId ∧
        row.groupId = first.groupId ∧ row.reward = first.reward ∧
        row.rewardComponents = first.rewardComponents := by
      simpa using hshared
    have hpolicy' : asynchronous = false → ∀ row ∈ first :: rest,
        row.policyVersion = first.policyVersion ∧
        row.workerPolicyVersion = first.workerPolicyVersion := by
      simpa using hpolicy
    constructor
    · intro row hrow other hother
      obtain ⟨h₁, h₂, h₃, h₄⟩ := hshared' row hrow
      obtain ⟨g₁, g₂, g₃, g₄⟩ := hshared' other hother
      exact ⟨h₁.trans g₁.symm, h₂.trans g₂.symm, h₃.trans g₃.symm, h₄.trans g₄.symm⟩
    · intro hsame row hrow other hother
      obtain ⟨h₁, h₂⟩ := hpolicy' hsame row hrow
      obtain ⟨g₁, g₂⟩ := hpolicy' hsame other hother
      exact ⟨h₁.trans g₁.symm, h₂.trans g₂.symm⟩
  · rintro ⟨hshared, hpolicy⟩
    exact ⟨fun row hrow => hshared row (mem_cons_of_mem _ hrow) first mem_cons_self,
      fun hsame row hrow =>
        hpolicy hsame row (mem_cons_of_mem _ hrow) first mem_cons_self⟩

theorem validateEpisode_eq_ok_iff :
    validateEpisode identity rows = .ok () ↔ Complete rows := by
  unfold validateEpisode
  split
  · rename_i hincomplete
    constructor
    · intro h
      cases h
    · intro h
      rcases hincomplete with hcount | hindices
      · simp only [any_eq_true, decide_eq_true_eq] at hcount
        obtain ⟨row, hrow, hne⟩ := hcount
        exact absurd (h.count row hrow) hne
      · exact absurd (sorted_eq_range_iff.mpr h.indices) hindices
  · rename_i hcomplete
    simp only [any_eq_true, decide_eq_true_eq, not_or, not_exists, not_and, ne_eq,
      not_not] at hcomplete
    obtain ⟨hcount, hsorted⟩ := hcomplete
    have hindices := sorted_eq_range_iff.mp hsorted
    have hdistinct : (rows.map fun row => row.metadata.index).Nodup := by
      rw [hindices.nodup_iff]
      exact nodup_range.map fun _ _ => Int.ofNat.inj
    have hversions := versions_sorted_iff hdistinct
    have hordered : ∀ row, row ∈ rows.insertionSort (fun row other =>
        row.metadata.index ≤ other.metadata.index) ↔ row ∈ rows :=
      fun row => (perm_insertionSort _ rows).mem_iff
    have hbelow : ((rows.insertionSort fun row other =>
        row.metadata.index ≤ other.metadata.index).map (·.policyVersion)).any (· < 1) = true ↔
        ∃ row ∈ rows, row.policyVersion < 1 := by
      simp [hordered]
    simp only [hbelow, ne_eq, hversions]
    split
    · rename_i hfault
      obtain ⟨hasync, hfault⟩ := hfault
      refine iff_of_false (by simp) fun h => ?_
      obtain ⟨hpolicy, hgrow⟩ := h.versions hasync
      rcases hfault with ⟨row, hrow, hlow⟩ | hunsorted | hworker
      · have := (hpolicy row hrow).1
        omega
      · exact hunsorted hgrow
      · simp only [any_eq_true, decide_eq_true_eq] at hworker
        obtain ⟨row, hrow, hne⟩ := hworker
        exact hne (hpolicy row hrow).2
    · rename_i hfaultless
      have hasync : rows.all isAsynchronous = true →
          (∀ row ∈ rows, 1 ≤ row.policyVersion ∧ row.workerPolicyVersion = some row.policyVersion) ∧
          ∀ row ∈ rows, ∀ other ∈ rows, row.metadata.index ≤ other.metadata.index →
            row.policyVersion ≤ other.policyVersion := by
        intro hall
        simp only [hall, true_and, not_or, not_exists, not_and, not_lt, not_not, any_eq_true,
          decide_eq_true_eq] at hfaultless
        exact ⟨fun row hrow => ⟨hfaultless.1 row hrow, hfaultless.2.2 row hrow⟩, hfaultless.2.1⟩
      cases rows with
      | nil => exact iff_of_true rfl ⟨by simp, by simp, fun _ => by simp, by simp, fun _ => by simp⟩
      | cons first rest =>
        have hcheck : (match inconsistentField ((first :: rest).all isAsynchronous) first rest with
            | some field => Except.error s!"Inconsistent {field} in episode {identity}"
            | none => .ok ()) = .ok () ↔
              inconsistentField ((first :: rest).all isAsynchronous) first rest = none := by
          cases inconsistentField ((first :: rest).all isAsynchronous) first rest <;> simp
        refine hcheck.trans (inconsistentField_eq_none_iff.trans ⟨?_, ?_⟩)
        · rintro ⟨hshared, hpolicy⟩
          exact ⟨hcount, hindices, hasync, hshared, hpolicy⟩
        · intro h
          exact ⟨h.shared, h.policy⟩

theorem orderEpisode_eq_ok {group : List (ℕ × Trajectory K Components)}
    (hmem : (key, entries) ∈ (PyDict.group (keyed rows)).entries)
    (h : orderEpisode (key, entries) = .ok group) :
    group.Perm entries ∧ Grouped group ∧
      ∀ identity, key = .calls identity → Complete (callsOf identity rows) := by
  obtain ⟨hne, hentries⟩ := get?_keyed hmem
  cases key with
  | row index =>
    cases h
    obtain ⟨entry, hentry⟩ := exists_mem_of_ne_nil _ hne
    have hkeyed : (EpisodeKey.row index, entry) ∈ keyed rows := by
      rw [hentries] at hentry
      obtain ⟨⟨key, other⟩, hother, rfl⟩ := mem_map.mp hentry
      obtain ⟨hother, hkey⟩ := mem_filter.mp hother
      obtain rfl : key = .row index := by simpa using hkey
      exact hother
    rw [keyed_row rows hkeyed] at hentries
    subst hentries
    refine ⟨.refl _, ⟨⟨entry, [], rfl, ?_, by simp⟩, by simp⟩, fun _ h => by cases h⟩
    obtain ⟨-, found, hfound, hkey⟩ := mem_keyed.mp hkeyed
    cases found with
    | none => simp [isFirst, hfound]
    | some identity => cases hkey
  | calls identity =>
    obtain ⟨⟨⟩, hvalid, hgroup⟩ := bind_eq_ok h
    cases hgroup
    have hcomplete := validateEpisode_eq_ok_iff.mp hvalid
    have hkind : ∀ entry ∈ entries, kind entry.2 = some (some identity) := by
      intro entry hentry
      have hcall := mem_map_of_mem (f := Prod.snd) hentry
      rw [map_calls hmem] at hcall
      exact of_decide_eq_true (mem_filter.mp hcall).2
    refine ⟨perm_insertionSort _ entries, hcomplete.grouped hne hkind, fun other hother => ?_⟩
    cases hother
    rw [← map_calls hmem]
    exact hcomplete

/-- What `episode_rows` accepts, and what it groups. -/
theorem episodeRows_eq_ok {groups : List (List (ℕ × Trajectory K Components))}
    (h : episodeRows rows = .ok groups) :
    (∀ row ∈ rows, ∃ found, rowKind row = .ok found) ∧
    (∀ identity, Complete (callsOf identity rows)) ∧
    groups.flatten.Perm ((keyed rows).map Prod.snd) ∧ ∀ group ∈ groups, Grouped group := by
  obtain ⟨found, hfound, hgroups⟩ := bind_eq_ok h
  obtain ⟨hkinds, rfl⟩ := keyedRows_eq_ok_iff.mp hfound
  have hall := mapM_eq_ok_iff.mp hgroups
  refine ⟨hkinds, fun identity => ?_, ?_, fun group hgroup => ?_⟩
  · cases hget : (PyDict.group (keyed rows)).get? (.calls identity) with
    | none =>
      rw [PyDict.get?_group] at hget
      split at hget
      · rename_i hnone
        rw [← keyed_calls, hnone]
        exact complete_nil
      · cases hget
    | some entries =>
      have hmem := (PyDict.mem_entries_iff _).mpr hget
      obtain ⟨group, -, hgroup⟩ := exists_of_forall₂_left hall hmem
      exact (orderEpisode_eq_ok hmem hgroup).2.2 identity rfl
  · apply List.Perm.trans ?_ (PyDict.group_flatten_perm (keyed rows))
    have hperm : ∀ entries : List (EpisodeKey × List (ℕ × Trajectory K Components)),
        (∀ entry ∈ entries, entry ∈ (PyDict.group (keyed rows)).entries) → ∀ groups,
        Forall₂ (fun entry group => orderEpisode entry = .ok group) entries groups →
        groups.flatten.Perm (entries.map Prod.snd).flatten := by
      intro entries hentries groups hall
      induction hall with
      | nil => exact .nil
      | cons hfirst _ ih =>
        have hgroup := (orderEpisode_eq_ok (hentries _ mem_cons_self) hfirst).1
        exact hgroup.append (ih fun entry hentry => hentries entry (mem_cons_of_mem _ hentry))
    exact hperm _ (fun _ h => h) _ hall
  · obtain ⟨⟨key, entries⟩, hmem, hgroup⟩ := exists_of_forall₂_right hall hgroup
    exact (orderEpisode_eq_ok hmem hgroup).2.1

theorem exists_episodeRows (hkinds : ∀ row ∈ rows, ∃ found, rowKind row = .ok found)
    (hcomplete : ∀ identity, Complete (callsOf identity rows)) :
    ∃ groups, episodeRows rows = .ok groups := by
  unfold episodeRows
  rw [keyedRows_eq_ok_iff.mpr ⟨hkinds, rfl⟩]
  refine exists_mapM_eq_ok fun entry hentry => ?_
  obtain ⟨key, entries⟩ := entry
  cases key with
  | row index => exact ⟨entries, rfl⟩
  | calls identity =>
    have hvalid : validateEpisode identity (entries.map Prod.snd) = .ok () := by
      rw [validateEpisode_eq_ok_iff, map_calls hentry]
      exact hcomplete identity
    exact ⟨_, by simp only [orderEpisode, hvalid]; rfl⟩

end HyperParallel.Episodes
