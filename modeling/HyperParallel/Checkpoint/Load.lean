import HyperParallel.Checkpoint.LoadRun
import Mathlib.Data.List.ReduceOption

/-!
# A load of a whole state dict

The plan of a load is the read items of its entries, one entry after the other.
A load raises nothing exactly when every entry can be read by itself, and then
every entry is what its own items make of it.
-/

namespace HyperParallel.Checkpoint

open Foundation List
open Foundation.Nested (Diverge)

variable {α β : Type}

def StandardLoadPlanner.initialState (planner : StandardLoadPlanner α β) : LoadState α β where
  stateDict := planner.stateDict
  originalStateDict := planner.originalStateDict

def load (pickle : Pickle α β) (setItem : TensorSetItem α β) (isOnHost : StateValue α β → Bool)
    (planner : StandardLoadPlanner α β) (reader : FileSystemReader α) :
    Except LoadError (LoadState α β) := do
  let plan ← planner.buildLocalPlan isOnHost
  readPrivate pickle setItem planner reader plan.items planner.initialState

/-! ## The planner of a state dict -/

section Configured

variable {rank : Nat} {stateDict : StateDict α β} {metadata : Metadata}
  {planner : StandardLoadPlanner α β}

theorem configureLoadPlanner_eq_ok
    (h : configureLoadPlanner rank stateDict.value metadata = .ok planner) :
    ∃ flat, flattenStateDict stateDict.value = .ok flat ∧ planner = {
      rank := rank
      metadata := metadata
      originalStateDict := stateDict.value
      stateDict := flat.fqnNames
      nameMapping := flat.mappings } := by
  unfold configureLoadPlanner at h
  cases hflat : flattenStateDict stateDict.value with
  | error e =>
    rw [hflat] at h
    cases h
  | ok flat =>
    rw [hflat] at h
    cases h
    exact ⟨flat, rfl, rfl⟩

structure Configured (planner : StandardLoadPlanner α β) (stateDict : StateDict α β)
    (metadata : Metadata) : Prop where
  metadata_eq : planner.metadata = metadata
  original_eq : planner.originalStateDict = stateDict.value
  entry_iff : ∀ fqn value, planner.stateDict.get? fqn = some value ↔
    ∃ path, (path, value) ∈ traverseStateDict stateDict.value ∧ dottedName path = fqn
  path_iff : ∀ fqn path, planner.nameMapping.get? fqn = some path ↔
    ∃ value, (path, value) ∈ traverseStateDict stateDict.value ∧ dottedName path = fqn

theorem configured (h : configureLoadPlanner rank stateDict.value metadata = .ok planner) :
    Configured planner stateDict metadata := by
  obtain ⟨flat, hflat, rfl⟩ := configureLoadPlanner_eq_ok h
  exact ⟨rfl, rfl, fun _ _ => get?_fqnNames_iff hflat, fun _ _ => get?_mappings_iff hflat⟩

theorem traverse_get? {visit : ObjectPath × StateValue α β}
    (h : visit ∈ traverseStateDict stateDict.value) :
    visit.1 ≠ [] ∧ stateDict.value.get? visit.1 = some visit.2 := by
  constructor
  · obtain ⟨key, inner, rest, -, hpath, -⟩ :=
      StateValue.get?_of_mem_traverseEntries [] stateDict.entries stateDict.distinct.2 h
    rw [hpath]
    simp
  · obtain ⟨rest, hpath, hget⟩ :=
      StateValue.get?_of_mem_traverseObj [] stateDict.value stateDict.distinct h
    rw [hpath]
    exact hget

theorem traverse_diverge {visit other : ObjectPath × StateValue α β}
    (hvisit : visit ∈ traverseStateDict stateDict.value)
    (hother : other ∈ traverseStateDict stateDict.value) (hne : visit ≠ other) :
    Diverge visit.1 other.1 := by
  have hpairwise := StateValue.traverseObj_diverge [] stateDict.value stateDict.distinct
  have hsymm : Std.Symm fun visit other : ObjectPath × StateValue α β =>
      Diverge visit.1 other.1 := ⟨fun _ _ hdiverge => hdiverge.symm⟩
  exact hpairwise.forall hvisit hother hne

theorem Configured.paths (h : Configured planner stateDict metadata) : DivergingPaths planner where
  diverge := by
    intro fqn fqn' path path' hpath hpath' hne
    obtain ⟨value, hvisit, rfl⟩ := (h.path_iff fqn path).mp hpath
    obtain ⟨value', hvisit', rfl⟩ := (h.path_iff fqn' path').mp hpath'
    exact traverse_diverge hvisit hvisit' fun heq => hne (by rw [(Prod.mk.inj heq).1])
  ne_nil := by
    intro fqn path hpath
    obtain ⟨value, hvisit, -⟩ := (h.path_iff fqn path).mp hpath
    exact (traverse_get? hvisit).1

theorem Configured.agrees (h : Configured planner stateDict metadata) :
    Agrees planner planner.initialState where
  at_path := by
    intro fqn path hpath
    obtain ⟨value, hvisit, hname⟩ := (h.path_iff fqn path).mp hpath
    refine ⟨value, (h.entry_iff fqn value).mpr ⟨path, hvisit, hname⟩, ?_⟩
    rw [StandardLoadPlanner.initialState, h.original_eq]
    exact (traverse_get? hvisit).2
  named := by
    intro fqn value hvalue
    obtain ⟨path, hvisit, hname⟩ := (h.entry_iff fqn value).mp hvalue
    exact ⟨path, (h.path_iff fqn path).mpr ⟨value, hvisit, hname⟩⟩
  tuples := fun _ _ _ => Iff.rfl
  others := fun _ _ => rfl

end Configured

/-! ## The plan -/

section Plan

variable {planner : StandardLoadPlanner α β} {isOnHost : StateValue α β → Bool}

variable {items : List ReadItem} {fqn : String}

theorem readItemFor_source {broadcastable : Bool}
    {localEntry storageEntry : ChunkStorageMetadata × Nat} {item : ReadItem}
    (h : readItemFor fqn broadcastable localEntry storageEntry = .ok (some item)) :
    item.destIndex.fqn = fqn ∧ item.storageIndex.fqn = fqn ∧ item.source = none ∧
      item.type = .tensor := by
  unfold readItemFor at h
  obtain ⟨overlap, -, hitem⟩ := map_eq_ok h
  obtain ⟨area, -, rfl⟩ := Option.map_eq_some_iff.mp hitem
  exact ⟨rfl, rfl, rfl, rfl⟩

theorem createReadItems_source {md : TensorStorageMetadata}
    {localChunks : List ChunkStorageMetadata} {broadcastable : Bool}
    (h : createReadItemsForChunkList fqn md localChunks broadcastable = .ok items) :
    ∀ item ∈ items, item.destIndex.fqn = fqn ∧ item.storageIndex.fqn = fqn ∧
      item.source = none ∧ item.type = .tensor := by
  unfold createReadItemsForChunkList at h
  obtain ⟨found, hfound, rfl⟩ := map_eq_ok h
  intro item hitem
  rw [reduceOption_mem_iff, mem_flatten] at hitem
  obtain ⟨row, hrow, hitem⟩ := hitem
  obtain ⟨localEntry, -, hrow⟩ := exists_of_forall₂_right (mapM_eq_ok_iff.mp hfound) hrow
  obtain ⟨storageEntry, -, hread⟩ := exists_of_forall₂_right (mapM_eq_ok_iff.mp hrow) hitem
  exact readItemFor_source hread

theorem ofPlan_eq_ok {γ : Type} {x : Except PlanError γ} {value : γ}
    (h : LoadError.ofPlan x = .ok value) : x = .ok value := by
  cases x with
  | error e => cases h
  | ok found => exact congrArg Except.ok (Except.ok.inj h)

theorem entryReadItems_source {entry : String × StateValue α β}
    (h : entryReadItems planner isOnHost entry = .ok items) :
    ∀ item ∈ items, item.destIndex.fqn = entry.1 ∧ item.source = none := by
  unfold entryReadItems at h
  dsimp only at h
  split at h
  · split at h
    · cases h
      simp
    · split at h
      · cases h
        simp
      · cases h
  · split at h
    · cases h
    · split at h
      · obtain ⟨chunks, -, hitems⟩ := bind_eq_ok (ofPlan_eq_ok h)
        intro item hitem
        obtain ⟨hfqn, -, hsource, -⟩ := createReadItems_source hitems item hitem
        exact ⟨hfqn, hsource⟩
      · cases h
        simp
  · cases h
    simp [bytesReadItem]

theorem ownItemsOf_of_all (h : ∀ item ∈ items, item.destIndex.fqn = fqn) :
    ownItemsOf fqn items = items := by
  rw [ownItemsOf, filter_eq_self]
  simpa using h

theorem ownItemsOf_of_none (h : ∀ item ∈ items, item.destIndex.fqn ≠ fqn) :
    ownItemsOf fqn items = [] := by
  rw [ownItemsOf, filter_eq_nil_iff]
  simpa using h

theorem ownItemsOf_flatten {entries : List (String × StateValue α β)}
    {perEntry : List (List ReadItem)} (hnodup : (entries.map Prod.fst).Nodup)
    (h : Forall₂ (fun entry items => entryReadItems planner isOnHost entry = .ok items)
      entries perEntry) :
    (fqn ∉ entries.map Prod.fst → ownItemsOf fqn perEntry.flatten = []) ∧
    ∀ obj, (fqn, obj) ∈ entries →
      entryReadItems planner isOnHost (fqn, obj) = .ok (ownItemsOf fqn perEntry.flatten) := by
  induction h with
  | nil => exact ⟨fun _ => rfl, fun obj hobj => by cases hobj⟩
  | @cons entry items entries perEntry hentry _ ih =>
    obtain ⟨hfresh, hnodup⟩ := nodup_cons.mp hnodup
    obtain ⟨hmissing, hpresent⟩ := ih hnodup
    have hsource := fun item hitem => (entryReadItems_source hentry item hitem).1
    have hsplit : ownItemsOf fqn (items :: perEntry).flatten =
        ownItemsOf fqn items ++ ownItemsOf fqn perEntry.flatten := by
      rw [flatten_cons, ownItemsOf, filter_append]
      rfl
    rw [hsplit]
    constructor
    · intro hfqn
      rw [map_cons, mem_cons, not_or] at hfqn
      rw [hmissing hfqn.2, ownItemsOf_of_none fun item hitem =>
        (hsource item hitem).trans_ne (Ne.symm hfqn.1)]
      rfl
    · intro obj hobj
      rcases mem_cons.mp hobj with rfl | hobj
      · rw [hmissing hfresh, ownItemsOf_of_all hsource, append_nil]
        exact hentry
      · have hne : entry.1 ≠ fqn := by
          rintro rfl
          exact hfresh (mem_map.mpr ⟨_, hobj, rfl⟩)
        rw [ownItemsOf_of_none fun item hitem => (hsource item hitem).trans_ne hne]
        exact hpresent obj hobj

theorem buildLocalPlan_own {plan : LoadPlan} (h : planner.buildLocalPlan isOnHost = .ok plan) :
    (∀ item ∈ plan.items, item.source = none ∧
      ∃ obj, planner.stateDict.get? item.destIndex.fqn = some obj) ∧
    ∀ fqn obj, planner.stateDict.get? fqn = some obj →
      entryReadItems planner isOnHost (fqn, obj) = .ok (ownItemsOf fqn plan.items) := by
  unfold StandardLoadPlanner.buildLocalPlan at h
  obtain ⟨perEntry, hperEntry, rfl⟩ := map_eq_ok h
  have hentries := mapM_eq_ok_iff.mp hperEntry
  constructor
  · intro item hitem
    obtain ⟨items, hitems, hitem⟩ := mem_flatten.mp hitem
    obtain ⟨⟨fqn, obj⟩, hentry, hok⟩ := exists_of_forall₂_right hentries hitems
    obtain ⟨hfqn, hsource⟩ := entryReadItems_source hok item hitem
    exact ⟨hsource, obj, hfqn ▸ planner.stateDict.mem_entries_iff.mp hentry⟩
  · intro fqn obj hobj
    exact (ownItemsOf_flatten planner.stateDict.nodup hentries).2 obj
      (planner.stateDict.mem_entries_iff.mpr hobj)

theorem exists_buildLocalPlan
    (h : ∀ fqn obj, planner.stateDict.get? fqn = some obj →
      ∃ items, entryReadItems planner isOnHost (fqn, obj) = .ok items) :
    ∃ plan, planner.buildLocalPlan isOnHost = .ok plan := by
  have hentries : ∀ entry ∈ planner.stateDict.entries,
      ∃ items, entryReadItems planner isOnHost entry = .ok items := fun entry hentry =>
    h entry.1 entry.2 (planner.stateDict.mem_entries_iff.mp hentry)
  obtain ⟨perEntry, hperEntry⟩ := exists_mapM_eq_ok hentries
  exact ⟨{ items := perEntry.flatten }, by
    rw [StandardLoadPlanner.buildLocalPlan, hperEntry]; rfl⟩

end Plan

/-! ## The load -/

section Load

variable (pickle : Pickle α β) (setItem : TensorSetItem α β) {isOnHost : StateValue α β → Bool}
  {planner : StandardLoadPlanner α β} {reader : FileSystemReader α} {plan : LoadPlan}

def EntryRead (pickle : Pickle α β) (planner : StandardLoadPlanner α β)
    (reader : FileSystemReader α) (items : List ReadItem) (value value' : Option (StateValue α β)) :
    Prop :=
  items.foldlM (fun value item => readValue pickle planner reader item value) value = .ok value'

theorem load_entries (hpaths : DivergingPaths planner)
    (hagrees : Agrees planner planner.initialState)
    (hplan : planner.buildLocalPlan isOnHost = .ok plan) (hlocates : reader.Locates plan.items) :
    ∃ order : List ReadItem, order.Perm plan.items ∧
      (∀ final, load pickle setItem isOnHost planner reader = .ok final →
        Agrees planner final ∧ ∀ fqn, EntryRead pickle planner reader (ownItemsOf fqn order)
          (planner.stateDict.get? fqn) (final.stateDict.get? fqn)) ∧
      ((∀ fqn, ∃ value, EntryRead pickle planner reader (ownItemsOf fqn order)
          (planner.stateDict.get? fqn) value) →
        ∃ final, load pickle setItem isOnHost planner reader = .ok final) := by
  obtain ⟨order, hperm, horder⟩ := exists_readOrder pickle setItem planner reader
    (fun item hitem => ((buildLocalPlan_own hplan).1 item hitem).1) hlocates
  have hload : ∀ final, load pickle setItem isOnHost planner reader = .ok final ↔
      order.foldlM (readItem pickle setItem planner reader) planner.initialState = .ok final := by
    intro final
    rw [← horder, load, hplan]
    rfl
  refine ⟨order, hperm, fun final hfinal => ?_, fun hentries => ?_⟩
  · exact readItems_components hpaths hagrees ((hload final).mp hfinal)
  · obtain ⟨final, hfinal⟩ := exists_readItems setItem hpaths hagrees hentries
    exact ⟨final, (hload final).mpr hfinal⟩

theorem ownItemsOf_perm (fqn : String) {items order : List ReadItem} (h : order.Perm items) :
    (ownItemsOf fqn order).Perm (ownItemsOf fqn items) :=
  h.filter _

end Load

end HyperParallel.Checkpoint
