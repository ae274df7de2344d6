import HyperParallel.Checkpoint.Load
import HyperParallel.Checkpoint.SavedMetadata
import HyperParallel.Checkpoint.Storage

/-!
# Leaves that are no tensors

An entry that is no tensor is pickled by the one rank that owns it into its
bytes file, and unpickled by every rank that loads it.  A bytes object is
written as it is, so it comes back only if its own content unpickles to it; and
nothing can be put back into a tuple.
-/

namespace HyperParallel.Checkpoint

open Foundation List
open Foundation.Nested (Diverge)

variable {α β : Type}

def OwnsBytes (finals : List SavePlan) (fqn : String) (rank : Nat) : Prop :=
  ∃ final, finals[rank]? = some final ∧ ∃ item ∈ byteItems final, item.index.fqn = fqn

structure SameStructure (saved : List (StateDict α β)) (loaded : StateDict α β) : Prop where
  held : ∀ visit ∈ traverseStateDict loaded.value, ∃ stateDict ∈ saved, ∃ value,
    (visit.1, value) ∈ traverseStateDict stateDict.value
  kind : ∀ stateDict ∈ saved, ∀ visit ∈ traverseStateDict stateDict.value, ∃ value,
    (visit.1, value) ∈ traverseStateDict loaded.value ∧ value.isTensor = visit.2.isTensor

def TensorsFit (planner : StandardLoadPlanner α β) (isOnHost : StateValue α β → Bool)
    (reader : FileSystemReader α) : Prop :=
  ∀ fqn leaf, planner.stateDict.get? fqn = some (.leaf leaf) → leaf.isTensor = true →
    ∃ items, entryReadItems planner isOnHost (fqn, .leaf leaf) = .ok items ∧
      ∀ item ∈ items, item.type = .tensor ∧
        ∃ written, readLeaf planner reader leaf item = .ok written

/-- What a load is to leave in a state dict. -/
structure Restored (saved : List (StateDict α β)) (finals : List SavePlan)
    (loaded : StateDict α β) (planner : StandardLoadPlanner α β)
    (isOnHost : StateValue α β → Bool) (reader : FileSystemReader α)
    (final : LoadState α β) : Prop where
  bytes : ∀ visit ∈ traverseStateDict loaded.value, visit.2.isTensor = false →
    ∃ (owner : Nat) (stateDict : StateDict α β) (value : StateValue α β),
      (∀ rank, OwnsBytes finals (visitName visit) rank ↔ rank = owner) ∧
      saved[owner]? = some stateDict ∧ stateDict.value.get? visit.1 = some value ∧
      final.originalStateDict.get? visit.1 = some value
  tensors : ∀ path leaf, (path, .leaf leaf) ∈ traverseStateDict loaded.value →
    leaf.isTensor = true → ∃ (items order : List ReadItem) (written : Leaf α β),
      entryReadItems planner isOnHost (dottedName path, .leaf leaf) = .ok items ∧
      order.Perm items ∧ order.foldlM (readLeaf planner reader) leaf = .ok written ∧
      final.originalStateDict.get? path = some (.leaf written)
  others : ∀ other, (∀ visit ∈ traverseStateDict loaded.value, Diverge visit.1 other) →
    final.originalStateDict.get? other = loaded.value.get? other

/-! ## What is written for a value -/

def serializeValue (pickle : Pickle α β) : StateValue α β → Option (List UInt8)
  | .leaf (.bytes content) => some content
  | value => pickle.dumps value

theorem loads_serializeValue {pickle : Pickle α β} {value : StateValue α β}
    {payload : List UInt8} (h : serializeValue pickle value = some payload) :
    pickle.loads payload = some value ↔
      ∀ content, value = .leaf (.bytes content) → pickle.loads content = some value := by
  unfold serializeValue at h
  split at h
  · rename_i content
    cases h
    constructor
    · intro hload other heq
      cases heq
      exact hload
    · intro hload
      exact hload payload rfl
  · rename_i hne
    exact ⟨fun _ content heq => absurd heq (hne content), fun _ => pickle.loads_dumps _ _ h⟩

theorem serializeBytesItem_eq {pickle : Pickle α β} {rank : Nat} {stateDict : FlatStateDict α β}
    {item : WriteItem} {value : StateValue α β} (htype : item.type = .byteIo)
    (hvalue : stateDict.fqnNames.get? item.index.fqn = some value) (payload : List UInt8) :
    serializeBytesItem pickle rank stateDict item = .ok payload ↔
      serializeValue pickle value = some payload := by
  have hdata : getData rank stateDict.fqnNames item = .ok (.object value) := by
    rw [getData, hvalue]
    simp only [htype]
  unfold serializeBytesItem
  rw [hdata]
  cases value with
  | leaf leaf =>
    cases leaf with
    | bytes content => simp [serializeValue]
    | _ =>
      simp only [serializeValue]
      generalize pickle.dumps _ = dumped
      cases dumped <;> simp
  | _ =>
    simp only [serializeValue]
    generalize pickle.dumps _ = dumped
    cases dumped <;> simp

theorem endsWith_bytesFileName (rank : Nat) :
    endsWithAny (bytesFileName rank) [".bytes"] = true := by
  simp only [endsWithAny, bytesFileName, any_cons, any_nil, Bool.or_false,
    decide_eq_true_eq, String.toList_append]
  exact ⟨_ ++ ['_'], by rw [append_assoc]; rfl⟩

theorem endsWith_tensorFileName (rank : Nat) :
    endsWithAny (tensorFileName rank) [".bytes"] = false := by
  simp only [endsWithAny, tensorFileName, any_cons, any_nil, Bool.or_false,
    decide_eq_false_iff_not, String.toList_append]
  rintro ⟨front, hfront⟩
  have hlast := congrArg (fun name => name.reverse.take 2) hfront
  simp at hlast

section Restore

variable {pickle : Pickle α β} {setItem : TensorSetItem α β} {isOnHost : StateValue α β → Bool}
  {savePlanner : StandardSavePlanner} {saved : List (StateDict α β)}
  {stateDicts : List (FlatStateDict α β)} {finals : List SavePlan} {metadata : Metadata}
  {tensorKey : MetadataIndex → String} {tensorFile : String × List Nat → Option (Tensor α)}
  {loaded : StateDict α β} {rank : Nat} {planner : StandardLoadPlanner α β}
  {reader : FileSystemReader α}

def Flattened (saved : List (StateDict α β)) (stateDicts : List (FlatStateDict α β)) : Prop :=
  List.Forall₂ (fun stateDict flat => flattenStateDict stateDict.value = .ok flat) saved stateDicts

variable {value : StateValue α β} {flat : FlatStateDict α β}

theorem Flattened.exists_saved (h : Flattened saved stateDicts) {i : Nat}
    (hflat : stateDicts[i]? = some flat) :
    ∃ stateDict, saved[i]? = some stateDict ∧ flattenStateDict stateDict.value = .ok flat := by
  obtain ⟨hi, rfl⟩ := List.getElem?_eq_some_iff.mp hflat
  have hi' : i < saved.length := h.length_eq ▸ hi
  exact ⟨_, getElem?_eq_getElem hi', (forall₂_iff_get.mp h).2 i hi' hi⟩

theorem Flattened.exists_flat (h : Flattened saved stateDicts) {stateDict : StateDict α β}
    (hmem : stateDict ∈ saved) :
    ∃ flat ∈ stateDicts, flattenStateDict stateDict.value = .ok flat :=
  exists_of_forall₂_left h hmem

/-- The value a rank saves under the name of a leaf of the load stands at the path of the leaf. -/
theorem SameStructure.visit (hstructure : SameStructure saved loaded)
    {flatLoaded : FlatStateDict α β} (hloaded : flattenStateDict loaded.value = .ok flatLoaded)
    {stateDict : StateDict α β} (hmem : stateDict ∈ saved)
    (hflat : flattenStateDict stateDict.value = .ok flat) {visit : ObjectPath × StateValue α β}
    (hvisit : visit ∈ traverseStateDict loaded.value)
    (hvalue : flat.fqnNames.get? (visitName visit) = some value) :
    (visit.1, value) ∈ traverseStateDict stateDict.value ∧ value.isTensor = visit.2.isTensor := by
  obtain ⟨path, hpath, hname⟩ := (get?_fqnNames_iff hflat).mp hvalue
  obtain ⟨other, hother, hkind⟩ := hstructure.kind stateDict hmem _ hpath
  have hsame := visit_unique hloaded hother hvisit hname
  obtain rfl : path = visit.1 := congrArg Prod.fst hsame
  obtain rfl : other = visit.2 := congrArg Prod.snd hsame
  exact ⟨hpath, hkind.symm⟩

structure SavedLeaf (pickle : Pickle α β) (saved : List (StateDict α β)) (finals : List SavePlan)
    (reader : FileSystemReader α) (visit : ObjectPath × StateValue α β) (owner : Nat)
    (value : StateValue α β) (payload : List UInt8) : Prop where
  owns : ∀ rank, OwnsBytes finals (visitName visit) rank ↔ rank = owner
  held : ∃ stateDict, saved[owner]? = some stateDict ∧ stateDict.value.get? visit.1 = some value
  serialized : serializeValue pickle value = some payload
  fetched : reader.fetchItem (bytesReadItem (visitName visit)) =
    .ok (bytesReadItem (visitName visit), .bytes payload)

theorem Saved.globalSave (hsave : Saved savePlanner stateDicts finals metadata)
    (hpos : 0 < stateDicts.length) (hranks : finals.length = stateDicts.length) :
    ∃ plans : List SavePlan, GlobalSave plans finals metadata ∧
      ∀ (rank : Nat) stateDict, stateDicts[rank]? = some stateDict → ∃ plan,
        plans[rank]? = some plan ∧
          buildLocalPlan { savePlanner with rank := rank } stateDict = .ok plan := by
  obtain ⟨plans, masks, hlength, hlocal, hshared, hfinals⟩ := hsave.exists_shared hpos
  have heq : finals = finalPlans plans masks := by
    apply ext_getElem?
    intro rank
    rw [getElem?_finalPlans]
    split
    · rename_i hrank
      exact hfinals rank hrank
    · exact getElem?_eq_none_iff.mpr (by omega)
  refine ⟨plans, heq ▸ globalSave_of_sharedPlan rfl hshared, fun rank stateDict hdict => ?_⟩
  have hrank := (List.getElem?_eq_some_iff.mp hdict).1
  have hplan := List.getElem?_eq_getElem (hlength.symm ▸ hrank)
  exact ⟨_, hplan, hlocal rank stateDict _ hdict hplan⟩

theorem exists_owner (hsave : Saved savePlanner stateDicts finals metadata)
    (hranks : finals.length = stateDicts.length) {fqn : String}
    (hbytes : ∀ stateDict ∈ stateDicts, ∀ value, stateDict.fqnNames.get? fqn = some value →
      value.isTensor = false)
    (hheld : ∃ stateDict ∈ stateDicts, ∃ value, stateDict.fqnNames.get? fqn = some value) :
    (∀ (rank : Nat) final item, finals[rank]? = some final → item ∈ final.items →
      item.index.fqn = fqn → item.type = .byteIo ∧ item.index.key = (fqn, []) ∧
        ∃ stateDict value, stateDicts[rank]? = some stateDict ∧
          stateDict.fqnNames.get? fqn = some value) ∧
    ∃ owner, ∀ rank, OwnsBytes finals fqn rank ↔ rank = owner := by
  obtain ⟨stateDict, hmem, value, hvalue⟩ := hheld
  obtain ⟨i, hdict⟩ := mem_iff_getElem?.mp hmem
  obtain ⟨plans, hglobal, hlocal⟩ := hsave.globalSave (length_pos_of_mem hmem) hranks
  have hkind : ∀ (rank : Nat) final item, finals[rank]? = some final → item ∈ final.items →
      item.index.fqn = fqn → item.type = .byteIo ∧ item.index.key = (fqn, []) ∧
        ∃ stateDict value, stateDicts[rank]? = some stateDict ∧
          stateDict.fqnNames.get? fqn = some value := by
    intro rank final item hfinal hitem hfqn
    obtain ⟨plan, hplan, hown⟩ := hglobal.own_items rank final hfinal
    obtain ⟨original, horiginal, htype, -, hkey⟩ := hown item hitem
    have hrank : rank < stateDicts.length := hranks ▸ (List.getElem?_eq_some_iff.mp hfinal).1
    have hat := List.getElem?_eq_getElem hrank
    obtain ⟨plan', hplan', hbuild⟩ := hlocal rank _ hat
    obtain rfl : plan = plan' := Option.some.inj (hplan.symm.trans hplan')
    obtain ⟨value', items, hvalue', hitems, hin⟩ := (mem_buildLocalPlan hbuild).mp horiginal
    have horiginalFqn : original.index.fqn = fqn := (congrArg Prod.fst hkey).symm.trans hfqn
    rw [horiginalFqn] at hvalue' hitems
    rw [leafWriteItems_bytes (hbytes _ (getElem_mem hrank) value' hvalue')] at hitems
    cases hitems
    obtain rfl := mem_singleton.mp hin
    exact ⟨htype, hkey, _, value', hat, hvalue'⟩
  refine ⟨hkind, ?_⟩
  obtain ⟨plan, hplan, hbuild⟩ := hlocal i stateDict hdict
  have hitem : ({ index := { fqn := fqn }, type := .byteIo } : WriteItem) ∈ plan.items :=
    (mem_buildLocalPlan hbuild).mpr
      ⟨value, _, hvalue, leafWriteItems_bytes (hbytes stateDict hmem value hvalue), by simp⟩
  obtain ⟨owner, ⟨final, hfinal, kept, hkept, hkey⟩, hunique⟩ := hglobal.one_rank _
    (mem_flatMap.mpr ⟨plan, mem_of_getElem? hplan, hitem⟩)
  have hfqn : kept.index.fqn = fqn := congrArg Prod.fst hkey
  refine ⟨owner, fun rank => ⟨?_, ?_⟩⟩
  · rintro ⟨final', hfinal', item, hitem', hname⟩
    have hin := (mem_filter.mp hitem').1
    exact hunique rank ⟨final', hfinal', item, hin, (hkind rank final' item hfinal' hin hname).2.1⟩
  · rintro rfl
    have htype := (hkind rank final kept hfinal hkept hfqn).1
    exact ⟨final, hfinal, kept, mem_filter.mpr ⟨hkept, by simpa using htype⟩, hfqn⟩

theorem exists_savedLeaf (hflat : Flattened saved stateDicts)
    (hsave : Saved savePlanner stateDicts finals metadata)
    (hranks : finals.length = stateDicts.length)
    (hwritten : writeCheckpoint pickle tensorKey stateDicts finals tensorFile = .ok reader)
    {flatLoaded : FlatStateDict α β} (hloaded : flattenStateDict loaded.value = .ok flatLoaded)
    (hstructure : SameStructure saved loaded) {visit : ObjectPath × StateValue α β}
    (hvisit : visit ∈ traverseStateDict loaded.value) (hkind : visit.2.isTensor = false) :
    metadata.stateDictMetadata.get? (visitName visit) = some .bytes ∧
      ∃ owner value payload, SavedLeaf pickle saved finals reader visit owner value payload := by
  have hbytes : ∀ flat ∈ stateDicts, ∀ value,
      flat.fqnNames.get? (visitName visit) = some value → value.isTensor = false := by
    intro flat hmem value hvalue
    obtain ⟨stateDict, hdict, hok⟩ := exists_of_forall₂_right hflat hmem
    exact (hstructure.visit hloaded hdict hok hvisit hvalue).2.trans hkind
  have hheld : ∃ flat ∈ stateDicts, ∃ value,
      flat.fqnNames.get? (visitName visit) = some value := by
    obtain ⟨stateDict, hdict, value, hvalue⟩ := hstructure.held visit hvisit
    obtain ⟨flat, hmem, hok⟩ := hflat.exists_flat hdict
    exact ⟨flat, hmem, value, (get?_fqnNames_iff hok).mpr ⟨visit.1, hvalue, rfl⟩⟩
  refine ⟨hsave.metadata_bytes hbytes hheld, ?_⟩
  obtain ⟨hitems, owner, howner⟩ := exists_owner hsave hranks hbytes hheld
  obtain ⟨final, hfinal, item, hitem, hname⟩ := (howner owner).mpr rfl
  obtain ⟨hin, htype⟩ := mem_filter.mp hitem
  obtain ⟨-, hkey, flat, value, hdict, hvalue⟩ := hitems owner final item hfinal hin hname
  obtain ⟨info, hinfo⟩ := writeCheckpoint_located hwritten hfinal
    (List.getElem?_eq_some_iff.mp hdict).1 hin (.inl (by simpa using htype))
  rw [hkey] at hinfo
  obtain ⟨rank', flat', final', hdict', hfinal', hwrote⟩ :=
    writeCheckpoint_storageData hwritten hinfo
  rcases hwrote with ⟨item', hitem', hkey', hpath, content, hcontent, hserialize⟩ |
    ⟨item', hitem', htype', hkey', -⟩
  · have hname' : item'.index.fqn = visitName visit := congrArg Prod.fst hkey'
    obtain rfl : rank' = owner := (howner rank').mp ⟨final', hfinal', item', hitem', hname'⟩
    obtain rfl : flat = flat' := Option.some.inj (hdict.symm.trans hdict')
    obtain ⟨stateDict, hsaved, hok⟩ := hflat.exists_saved hdict
    refine ⟨rank', value, FileSystemReader.readAt content info.offset info.length, howner,
      ⟨stateDict, hsaved, ?_⟩, ?_, ?_⟩
    · exact (traverse_get? (hstructure.visit hloaded (mem_of_getElem? hsaved) hok hvisit
        hvalue).1).2
    · exact (serializeBytesItem_eq (by simpa using (mem_filter.mp hitem').2)
        (hname' ▸ hvalue) _).mp hserialize
    · unfold FileSystemReader.fetchItem
      rw [FileSystemReader.getStorageInfo_of_some hinfo]
      simp only [bind, Except.bind, hcontent]
      rw [if_pos (hpath ▸ endsWith_bytesFileName rank')]
  · have hbyte := (hitems rank' final' item' hfinal' hitem' (congrArg Prod.fst hkey')).1
    rw [htype'] at hbyte
    cases hbyte

def Picklable (pickle : Pickle α β) (saved : List (StateDict α β)) : Prop :=
  ∀ stateDict ∈ saved, ∀ visit ∈ traverseStateDict stateDict.value,
    visit.2.isTensor = false → (serializeValue pickle visit.2).isSome = true

theorem exists_foldlM_writeBytesItem {items : List WriteItem}
    (h : ∀ item ∈ items, ∃ payload, serializeBytesItem pickle rank flat item = .ok payload)
    (file : BytesWrite) :
    ∃ file', items.foldlM (writeBytesItem pickle rank flat) file = .ok file' := by
  induction items generalizing file with
  | nil => exact ⟨file, rfl⟩
  | cons item items ih =>
    obtain ⟨payload, hpayload⟩ := h item mem_cons_self
    rw [foldlM_cons, writeBytesItem, hpayload]
    exact ih (fun other hother => h other (mem_cons_of_mem _ hother)) _

theorem exists_writeCheckpoint (tensorKey : MetadataIndex → String)
    (tensorFile : String × List Nat → Option (Tensor α)) (hflat : Flattened saved stateDicts)
    (hsave : Saved savePlanner stateDicts finals metadata)
    (hranks : finals.length = stateDicts.length) (hpickle : Picklable pickle saved) :
    ∃ reader, writeCheckpoint pickle tensorKey stateDicts finals tensorFile = .ok reader := by
  have hrank : ∀ entry ∈ (stateDicts.zip finals).zipIdx, ∃ result,
      executeWrite pickle entry.2 entry.1.1 tensorKey entry.1.2 = .ok result := by
    rintro ⟨⟨flat, final⟩, rank⟩ hentry
    have hat := mk_mem_zipIdx_iff_getElem?.mp hentry
    rw [getElem?_zip_eq_some] at hat
    obtain ⟨hdict, hfinal⟩ := hat
    obtain ⟨plans, hglobal, hlocal⟩ := hsave.globalSave
      (length_pos_of_mem (mem_of_getElem? hdict)) hranks
    obtain ⟨plan, hplan, hbuild⟩ := hlocal rank flat hdict
    obtain ⟨plan', hplan', hown⟩ := hglobal.own_items rank final hfinal
    obtain rfl : plan = plan' := Option.some.inj (hplan.symm.trans hplan')
    have hitems : ∀ item ∈ byteItems final,
        ∃ payload, serializeBytesItem pickle rank flat item = .ok payload := by
      intro item hitem
      obtain ⟨hin, htype⟩ := mem_filter.mp hitem
      have htype : item.type = .byteIo := by simpa using htype
      obtain ⟨original, horiginal, hsame, -, hkey⟩ := hown item hin
      obtain ⟨value, items, hvalue, hleaf, hmem⟩ := (mem_buildLocalPlan hbuild).mp horiginal
      have hkind : value.isTensor = false := by
        by_contra htensor
        have hwrong := (leafWriteItems_tensor hleaf (by simpa using htensor) original hmem).2.1
        rw [← hsame, htype] at hwrong
        cases hwrong
      have hfqn : item.index.fqn = original.index.fqn := congrArg Prod.fst hkey
      obtain ⟨stateDict, hsaved, hok⟩ := hflat.exists_saved hdict
      obtain ⟨path, hvisit, -⟩ := (get?_fqnNames_iff hok).mp hvalue
      obtain ⟨payload, hpayload⟩ := Option.isSome_iff_exists.mp
        (hpickle stateDict (mem_of_getElem? hsaved) _ hvisit hkind)
      exact ⟨payload, (serializeBytesItem_eq htype (hfqn ▸ hvalue) payload).mpr hpayload⟩
    obtain ⟨file, hfile⟩ := exists_foldlM_writeBytesItem hitems ⟨[], []⟩
    exact ⟨_, by rw [executeWrite, writeBytesItems, hfile]; rfl⟩
  have hall : ∃ written, (stateDicts.zip finals).zipIdx.mapM (fun entry =>
      executeWrite pickle entry.2 entry.1.1 tensorKey entry.1.2) = .ok written :=
    exists_mapM_eq_ok hrank
  obtain ⟨written, hwritten⟩ := hall
  exact ⟨_, by rw [writeCheckpoint, hwritten]; rfl⟩

theorem SavedLeaf.readValue_eq_ok_iff {visit : ObjectPath × StateValue α β} {owner : Nat}
    {payload : List UInt8} (h : SavedLeaf pickle saved finals reader visit owner value payload)
    (hpath : planner.nameMapping.get? (visitName visit) = some visit.1)
    (old new : Option (StateValue α β)) :
    readValue pickle planner reader (bytesReadItem (visitName visit)) old = .ok new ↔
      ∃ obj, new = some obj ∧ pickle.loads payload = some obj ∧
        ¬ InTuple planner.originalStateDict visit.1 := by
  have hfqn : (bytesReadItem (visitName visit)).destIndex.fqn = visitName visit := rfl
  have htype : (bytesReadItem (visitName visit)).type = .byteIo := rfl
  unfold readValue
  rw [h.fetched]
  simp only [bind, Except.bind, htype, hfqn, hpath]
  cases pickle.loads payload with
  | none => simp
  | some obj =>
    dsimp only
    split
    · rename_i htuple
      simp [htuple]
    · rename_i htuple
      simp [htuple, eq_comm]

variable {item : ReadItem}

theorem entryRead_singleton {old new : Option (StateValue α β)} :
    EntryRead pickle planner reader [item] old new ↔
      readValue pickle planner reader item old = .ok new := by
  unfold EntryRead
  rw [foldlM_cons]
  cases readValue pickle planner reader item old with
  | error e => simp [bind, Except.bind]
  | ok found => simp [bind, Except.bind, pure, Except.pure]

theorem fetchItem_storageInfo {fetched : ReadItem × Payload α}
    (h : reader.fetchItem item = .ok fetched) :
    ∃ info, reader.storageData.get? item.storageIndex.key = some info := by
  unfold FileSystemReader.fetchItem at h
  obtain ⟨info, hinfo, -⟩ := bind_eq_ok h
  unfold FileSystemReader.getStorageInfo at hinfo
  split at hinfo
  · cases hinfo
  · exact ⟨_, by assumption⟩

theorem readLeaf_storageInfo {target written : Leaf α β}
    (h : readLeaf planner reader target item = .ok written) :
    ∃ info, reader.storageData.get? item.storageIndex.key = some info := by
  obtain ⟨fetched, hfetched, -⟩ := bind_eq_ok h
  exact fetchItem_storageInfo hfetched

theorem isTensor_leaf (h : value.isTensor = true) :
    ∃ leaf, value = .leaf leaf ∧ leaf.isTensor = true := by
  cases value with
  | leaf leaf => exact ⟨leaf, rfl, h⟩
  | _ => cases h

structure LoadPlanned (planner : StandardLoadPlanner α β) (isOnHost : StateValue α β → Bool)
    (reader : FileSystemReader α) (loaded : StateDict α β) (plan : LoadPlan) : Prop where
  planned : planner.buildLocalPlan isOnHost = .ok plan
  locates : reader.Locates plan.items
  bytes : ∀ visit ∈ traverseStateDict loaded.value, visit.2.isTensor = false →
    ownItemsOf (visitName visit) plan.items = [bytesReadItem (visitName visit)]
  tensors : ∀ path leaf, (path, .leaf leaf) ∈ traverseStateDict loaded.value →
    leaf.isTensor = true →
    entryReadItems planner isOnHost (dottedName path, .leaf leaf) =
        .ok (ownItemsOf (dottedName path) plan.items) ∧
      ∀ item ∈ ownItemsOf (dottedName path) plan.items, item.type = .tensor ∧
        ∃ written, readLeaf planner reader leaf item = .ok written

theorem exists_loadPlanned (hflat : Flattened saved stateDicts)
    (hsave : Saved savePlanner stateDicts finals metadata)
    (hranks : finals.length = stateDicts.length)
    (hplanner : configureLoadPlanner rank loaded.value metadata = .ok planner)
    (hstructure : SameStructure saved loaded)
    (hwritten : writeCheckpoint pickle tensorKey stateDicts finals tensorFile = .ok reader)
    (hfit : TensorsFit planner isOnHost reader) :
    ∃ plan, LoadPlanned planner isOnHost reader loaded plan := by
  obtain ⟨flat, hloaded, -⟩ := configureLoadPlanner_eq_ok hplanner
  have hconf := configured hplanner
  have hbytes : ∀ visit ∈ traverseStateDict loaded.value, visit.2.isTensor = false →
      ∀ obj, entryReadItems planner isOnHost (visitName visit, obj) =
        .ok [bytesReadItem (visitName visit)] := by
    intro visit hvisit hkind obj
    have hmd := (exists_savedLeaf hflat hsave hranks hwritten hloaded hstructure hvisit hkind).1
    rw [← hconf.metadata_eq] at hmd
    unfold entryReadItems
    simp only [hmd]
  have hentries : ∀ fqn obj, planner.stateDict.get? fqn = some obj →
      ∃ items, entryReadItems planner isOnHost (fqn, obj) = .ok items := by
    intro fqn obj hobj
    cases hkind : obj.isTensor with
    | true =>
      obtain ⟨leaf, rfl, hleaf⟩ := isTensor_leaf hkind
      obtain ⟨items, hitems, -⟩ := hfit fqn leaf hobj hleaf
      exact ⟨items, hitems⟩
    | false =>
      obtain ⟨path, hvisit, rfl⟩ := (hconf.entry_iff fqn obj).mp hobj
      exact ⟨_, hbytes _ hvisit hkind obj⟩
  obtain ⟨plan, hplan⟩ := exists_buildLocalPlan hentries
  obtain ⟨hnamed, hown⟩ := buildLocalPlan_own hplan
  have hvisitBytes : ∀ visit ∈ traverseStateDict loaded.value, visit.2.isTensor = false →
      ownItemsOf (visitName visit) plan.items = [bytesReadItem (visitName visit)] := by
    intro visit hvisit hkind
    have hget := (hconf.entry_iff _ _).mpr ⟨visit.1, hvisit, rfl⟩
    exact Except.ok.inj ((hown _ _ hget).symm.trans (hbytes visit hvisit hkind visit.2))
  have hvisitTensors : ∀ path leaf, (path, .leaf leaf) ∈ traverseStateDict loaded.value →
      leaf.isTensor = true →
      entryReadItems planner isOnHost (dottedName path, .leaf leaf) =
          .ok (ownItemsOf (dottedName path) plan.items) ∧
        ∀ item ∈ ownItemsOf (dottedName path) plan.items, item.type = .tensor ∧
          ∃ written, readLeaf planner reader leaf item = .ok written := by
    intro path leaf hvisit hleaf
    have hget := (hconf.entry_iff _ _).mpr ⟨path, hvisit, rfl⟩
    obtain ⟨items, hitems, hreads⟩ := hfit _ leaf hget hleaf
    have hsame := Except.ok.inj (hitems.symm.trans (hown _ _ hget))
    exact ⟨hown _ _ hget, hsame ▸ hreads⟩
  refine ⟨plan, hplan, fun item hitem => ?_, hvisitBytes, hvisitTensors⟩
  obtain ⟨-, obj, hobj⟩ := hnamed item hitem
  obtain ⟨path, hvisit, hname⟩ := (hconf.entry_iff _ _).mp hobj
  have hmem : item ∈ ownItemsOf (dottedName path) plan.items :=
    mem_filter.mpr ⟨hitem, by simpa using hname.symm⟩
  cases hkind : obj.isTensor with
  | true =>
    obtain ⟨leaf, rfl, hleaf⟩ := isTensor_leaf hkind
    obtain ⟨-, written, hwrite⟩ := (hvisitTensors path leaf hvisit hleaf).2 item hmem
    exact readLeaf_storageInfo hwrite
  | false =>
    have hvisitItems : ownItemsOf (dottedName path) plan.items =
        [bytesReadItem (dottedName path)] := hvisitBytes _ hvisit hkind
    rw [hvisitItems, mem_singleton] at hmem
    obtain ⟨owner, value, payload, hsaved⟩ :=
      (exists_savedLeaf hflat hsave hranks hwritten hloaded hstructure hvisit hkind).2
    rw [hmem]
    exact fetchItem_storageInfo hsaved.fetched

theorem load_bytes (hconf : Configured planner loaded metadata) {plan : LoadPlan}
    (hplan : LoadPlanned planner isOnHost reader loaded plan) {order : List ReadItem}
    (hperm : order.Perm plan.items) {final : LoadState α β} (hagrees : Agrees planner final)
    {visit : ObjectPath × StateValue α β} (hvisit : visit ∈ traverseStateDict loaded.value)
    (hkind : visit.2.isTensor = false) {owner : Nat} {payload : List UInt8}
    (hsaved : SavedLeaf pickle saved finals reader visit owner value payload)
    (hread : EntryRead pickle planner reader (ownItemsOf (visitName visit) order)
      (planner.stateDict.get? (visitName visit)) (final.stateDict.get? (visitName visit))) :
    ∃ obj, pickle.loads payload = some obj ∧ ¬ InTuple loaded.value visit.1 ∧
      final.originalStateDict.get? visit.1 = some obj := by
  have hpath := (hconf.path_iff _ _).mpr ⟨visit.2, hvisit, rfl⟩
  have hown := ownItemsOf_perm (visitName visit) hperm
  rw [hplan.bytes visit hvisit hkind] at hown
  rw [perm_singleton.mp hown, entryRead_singleton, hsaved.readValue_eq_ok_iff hpath] at hread
  obtain ⟨obj, hobj, hloads, htuple⟩ := hread
  obtain ⟨found, hfound, hget⟩ := hagrees.at_path _ _ hpath
  refine ⟨obj, hloads, hconf.original_eq ▸ htuple, ?_⟩
  rw [hget, ← hfound]
  exact hobj

theorem entryRead_tensor (pickle : Pickle α β) {plan : LoadPlan}
    (hplan : LoadPlanned planner isOnHost reader loaded plan)
    {order : List ReadItem} (hperm : order.Perm plan.items) {path : ObjectPath} {leaf : Leaf α β}
    (hvisit : (path, .leaf leaf) ∈ traverseStateDict loaded.value) (hleaf : leaf.isTensor = true) :
    ∃ written, (ownItemsOf (dottedName path) order).foldlM (readLeaf planner reader) leaf =
        .ok written ∧
      EntryRead pickle planner reader (ownItemsOf (dottedName path) order) (some (.leaf leaf))
        (some (.leaf written)) := by
  have hitems := (hplan.tensors path leaf hvisit hleaf).2
  have hown : ∀ item ∈ ownItemsOf (dottedName path) order, item.type = .tensor ∧
      ∃ written, readLeaf planner reader leaf item = .ok written :=
    fun item hitem => hitems item ((ownItemsOf_perm _ hperm).subset hitem)
  obtain ⟨written, hwritten, -⟩ :=
    exists_readLeaves (SameForm.refl leaf) fun item hitem => (hown item hitem).2
  refine ⟨written, hwritten, ?_⟩
  rw [EntryRead, readValues_leaf pickle fun item hitem => (hown item hitem).1, hwritten]
  rfl

/--
A load leaves at every path of a leaf that is no tensor what its owner saved, and nothing else
changed, exactly when no such leaf stands in a tuple and every bytes object unpickles to itself.
-/
theorem byteLeaves_restored_iff (hflat : Flattened saved stateDicts)
    (hsave : Saved savePlanner stateDicts finals metadata)
    (hranks : finals.length = stateDicts.length) (hpickle : Picklable pickle saved)
    (hplanner : configureLoadPlanner rank loaded.value metadata = .ok planner)
    (hstructure : SameStructure saved loaded)
    (hfit : ∀ reader, writeCheckpoint pickle tensorKey stateDicts finals tensorFile = .ok reader →
      TensorsFit planner isOnHost reader) :
    (∃ reader final, writeCheckpoint pickle tensorKey stateDicts finals tensorFile = .ok reader ∧
      load pickle setItem isOnHost planner reader = .ok final ∧
      Restored saved finals loaded planner isOnHost reader final) ↔
    ∀ visit ∈ traverseStateDict loaded.value, visit.2.isTensor = false →
      ¬ InTuple loaded.value visit.1 ∧
      ∀ owner stateDict content, OwnsBytes finals (visitName visit) owner →
        saved[owner]? = some stateDict →
        stateDict.value.get? visit.1 = some (.leaf (.bytes content)) →
          pickle.loads content = some (.leaf (.bytes content)) := by
  obtain ⟨flat, hloaded, -⟩ := configureLoadPlanner_eq_ok hplanner
  have hconf := configured hplanner
  constructor
  · rintro ⟨reader, final, hwritten, hload, hrestored⟩ visit hvisit hkind
    obtain ⟨plan, hplan⟩ := exists_loadPlanned hflat hsave hranks hplanner hstructure hwritten
      (hfit reader hwritten)
    obtain ⟨order, hperm, hreturned, -⟩ := load_entries pickle setItem
      hconf.paths hconf.agrees hplan.planned hplan.locates
    obtain ⟨hagrees, hentries⟩ := hreturned final hload
    obtain ⟨-, owner, value, payload, hsaved⟩ :=
      exists_savedLeaf hflat hsave hranks hwritten hloaded hstructure hvisit hkind
    obtain ⟨obj, hloads, htuple, hget⟩ :=
      load_bytes hconf hplan hperm hagrees hvisit hkind hsaved (hentries _)
    refine ⟨htuple, fun rank' stateDict content howns hdict hcontent => ?_⟩
    obtain ⟨owner', stateDict', value', howner', hdict', hvalue', hget'⟩ :=
      hrestored.bytes visit hvisit hkind
    obtain rfl : rank' = owner := (hsaved.owns rank').mp howns
    obtain rfl : rank' = owner' := (howner' rank').mp howns
    obtain rfl : stateDict = stateDict' := Option.some.inj (hdict.symm.trans hdict')
    obtain ⟨stateDict'', hdict'', hvalue⟩ := hsaved.held
    obtain rfl : stateDict = stateDict'' := Option.some.inj (hdict.symm.trans hdict'')
    obtain rfl : value' = value := Option.some.inj (hvalue'.symm.trans hvalue)
    obtain rfl : obj = value' := Option.some.inj (hget.symm.trans hget')
    obtain rfl : obj = .leaf (.bytes content) := Option.some.inj (hvalue.symm.trans hcontent)
    exact (loads_serializeValue hsaved.serialized).mp hloads content rfl
  · intro hcond
    obtain ⟨reader, hwritten⟩ := exists_writeCheckpoint tensorKey tensorFile hflat hsave hranks hpickle
    obtain ⟨plan, hplan⟩ := exists_loadPlanned hflat hsave hranks hplanner hstructure hwritten
      (hfit reader hwritten)
    obtain ⟨order, hperm, hreturned, hreturns⟩ := load_entries pickle setItem
      hconf.paths hconf.agrees hplan.planned hplan.locates
    have hloads : ∀ visit ∈ traverseStateDict loaded.value, visit.2.isTensor = false →
        ∃ owner value payload, SavedLeaf pickle saved finals reader visit owner value payload ∧
          pickle.loads payload = some value := by
      intro visit hvisit hkind
      obtain ⟨-, owner, value, payload, hsaved⟩ :=
        exists_savedLeaf hflat hsave hranks hwritten hloaded hstructure hvisit hkind
      refine ⟨owner, value, payload, hsaved, (loads_serializeValue hsaved.serialized).mpr ?_⟩
      rintro content rfl
      obtain ⟨stateDict, hdict, hvalue⟩ := hsaved.held
      exact (hcond visit hvisit hkind).2 owner stateDict content ((hsaved.owns owner).mpr rfl)
        hdict hvalue
    obtain ⟨final, hfinal⟩ := hreturns fun fqn => by
      cases hget : planner.stateDict.get? fqn with
      | none =>
        have hnone : ownItemsOf fqn order = [] := by
          apply ownItemsOf_of_none
          rintro item hitem rfl
          obtain ⟨-, obj, hobj⟩ := (buildLocalPlan_own hplan.planned).1 item (hperm.subset hitem)
          rw [hget] at hobj
          cases hobj
        exact ⟨none, by rw [hnone]; rfl⟩
      | some obj =>
        obtain ⟨path, hvisit, rfl⟩ := (hconf.entry_iff fqn obj).mp hget
        cases hkind : obj.isTensor with
        | true =>
          obtain ⟨leaf, rfl, hleaf⟩ := isTensor_leaf hkind
          obtain ⟨written, -, hread⟩ := entryRead_tensor pickle hplan hperm hvisit hleaf
          exact ⟨_, hread⟩
        | false =>
          obtain ⟨owner, value, payload, hsaved, hvalue⟩ := hloads _ hvisit hkind
          have hown := ownItemsOf_perm (dottedName path) hperm
          have hbytes : ownItemsOf (dottedName path) plan.items =
              [bytesReadItem (dottedName path)] := hplan.bytes _ hvisit hkind
          rw [hbytes] at hown
          have hpath := (hconf.path_iff _ path).mpr ⟨obj, hvisit, rfl⟩
          refine ⟨some value, ?_⟩
          rw [perm_singleton.mp hown, entryRead_singleton]
          refine (hsaved.readValue_eq_ok_iff hpath _ _).mpr ⟨value, rfl, hvalue, ?_⟩
          rw [hconf.original_eq]
          exact (hcond _ hvisit hkind).1
    obtain ⟨hagrees, hentries⟩ := hreturned final hfinal
    refine ⟨reader, final, hwritten, hfinal, ?_, ?_, ?_⟩
    · intro visit hvisit hkind
      obtain ⟨owner, value, payload, hsaved, hvalue⟩ := hloads visit hvisit hkind
      obtain ⟨obj, hobj, -, hget⟩ :=
        load_bytes hconf hplan hperm hagrees hvisit hkind hsaved (hentries _)
      obtain rfl : value = obj := Option.some.inj (hvalue.symm.trans hobj)
      obtain ⟨stateDict, hdict, hheld⟩ := hsaved.held
      exact ⟨owner, stateDict, value, hsaved.owns, hdict, hheld, hget⟩
    · intro path leaf hvisit hleaf
      obtain ⟨written, hwritten, hread⟩ :=
        entryRead_tensor pickle hplan hperm hvisit hleaf
      have hentry := hentries (dottedName path)
      rw [(hconf.entry_iff _ _).mpr ⟨path, hvisit, rfl⟩] at hentry
      have hfinalEntry : final.stateDict.get? (dottedName path) = some (.leaf written) :=
        (Except.ok.inj (hread.symm.trans hentry)).symm
      obtain ⟨found, hfound, hget⟩ := hagrees.at_path _ path
        ((hconf.path_iff _ _).mpr ⟨_, hvisit, rfl⟩)
      obtain rfl : found = .leaf written := Option.some.inj (hfound.symm.trans hfinalEntry)
      exact ⟨_, _, written, (hplan.tensors path leaf hvisit hleaf).1, ownItemsOf_perm _ hperm,
        hwritten, hget⟩
    · intro other hother
      rw [← hconf.original_eq]
      apply hagrees.others
      intro fqn path hpath
      obtain ⟨value, hvisit, -⟩ := (hconf.path_iff fqn path).mp hpath
      exact hother _ hvisit

end Restore

/-! ## One leaf -/

/-- Pickles `None` and nothing else. -/
def nonePickle : Pickle Unit Unit where
  dumps
    | .leaf .none => some [0x80, 0x04, 0x4e, 0x2e]
    | _ => none
  loads content := if content = [0x80, 0x04, 0x4e, 0x2e] then some (.leaf .none) else none
  loads_dumps := by
    intro value content h
    split at h
    · cases h
      rfl
    · cases h

/-- Assigns nothing: the state dicts below nest nothing in a tensor. -/
def keepTensor : TensorSetItem Unit Unit := fun tensor _ _ => .ok tensor

/-- A state dict with the one leaf `k`. -/
def leafDict (leaf : Leaf Unit Unit) : StateDict Unit Unit :=
  ⟨[("k", .leaf leaf)], by simp [Nested.DistinctKeys, Nested.DistinctEntries]⟩

def leafFlat (leaf : Leaf Unit Unit) : FlatStateDict Unit Unit where
  fqnNames := PyDict.empty.set "k" (.leaf leaf)
  mappings := PyDict.empty.set "k" [.name "k"]

def leafPlan : SavePlan where
  items := [⟨{ fqn := "k" }, .byteIo, none⟩]
  plannerData := some (PyDict.empty.set "k" [.name "k"])

def leafMetadata : Metadata where
  stateDictMetadata := PyDict.empty.set "k" .bytes
  plannerData := some (PyDict.empty.set "k" [.name "k"])

def leafPlanner (leaf : Leaf Unit Unit) : StandardLoadPlanner Unit Unit where
  rank := 0
  metadata := leafMetadata
  originalStateDict := (leafDict leaf).value
  stateDict := (leafFlat leaf).fqnNames
  nameMapping := (leafFlat leaf).mappings

def noTensorKey (_ : MetadataIndex) : String := ""

theorem leaf_flattened (leaf : Leaf Unit Unit) : Flattened [leafDict leaf] [leafFlat leaf] :=
  .cons rfl .nil

variable {leaf : Leaf Unit Unit}

theorem leaf_saved (h : leaf.isTensor = false) :
    Saved { rank := 0 } [leafFlat leaf] [leafPlan] leafMetadata where
  built := by
    refine ⟨[leafPlan], rfl, ?_, ?_⟩
    · intro rank stateDict plan hs hp
      match rank with
      | 0 =>
        cases hs
        cases hp
        cases leaf <;> first | rfl | cases h
      | _ + 1 => simp at hs
    · intro rank hrank
      match rank, hrank with
      | 0, _ => exact ⟨_, rfl, by decide +kernel⟩

theorem leaf_picklable
    (h : (serializeValue nonePickle (.leaf leaf)).isSome = true) :
    Picklable nonePickle [leafDict leaf] := by
  intro stateDict hmem visit hvisit _
  obtain rfl := mem_singleton.mp hmem
  obtain rfl := mem_singleton.mp hvisit
  exact h

theorem leaf_sameStructure (leaf : Leaf Unit Unit) :
    SameStructure [leafDict leaf] (leafDict leaf) where
  held := fun visit hvisit => ⟨_, List.mem_singleton.mpr rfl, visit.2, hvisit⟩
  kind := by
    intro stateDict hmem visit hvisit
    obtain rfl := mem_singleton.mp hmem
    exact ⟨visit.2, hvisit, rfl⟩

theorem leaf_tensorsFit (h : leaf.isTensor = false)
    (isOnHost : StateValue Unit Unit → Bool) (reader : FileSystemReader Unit) :
    TensorsFit (leafPlanner leaf) isOnHost reader := by
  intro fqn found hfound htensor
  rw [show (leafPlanner leaf).stateDict.get? fqn = _ from PyDict.get?_set ..] at hfound
  split at hfound
  · cases hfound
    rw [h] at htensor
    cases htensor
  · cases hfound

/-- `None` comes back from the one rank that saved it. -/
theorem byteLeaves_restored_none :
    ∃ reader final,
      writeCheckpoint nonePickle noTensorKey [leafFlat .none] [leafPlan] (fun _ => none) =
        .ok reader ∧
      load nonePickle keepTensor (fun _ => true) (leafPlanner .none) reader = .ok final ∧
      Restored [leafDict .none] [leafPlan] (leafDict .none) (leafPlanner .none) (fun _ => true)
        reader final :=
  (byteLeaves_restored_iff (leaf_flattened .none) (leaf_saved rfl) rfl (leaf_picklable rfl) rfl
    (leaf_sameStructure .none) fun reader _ => leaf_tensorsFit rfl _ reader).mpr (by
      intro visit hvisit _
      obtain rfl := List.mem_singleton.mp hvisit
      refine ⟨by decide, ?_⟩
      intro owner stateDict content _ hdict hcontent
      match owner with
      | 0 => cases hdict; cases hcontent
      | _ + 1 => simp at hdict)

/-- The bytes object `b"x"` is written as it is and is no pickle: it can not be loaded. -/
theorem byteLeaves_lost_rawBytes :
    Flattened [leafDict (.bytes [0x78])] [leafFlat (.bytes [0x78])] ∧
    Saved { rank := 0 } [leafFlat (.bytes [0x78])] [leafPlan] leafMetadata ∧
    Picklable nonePickle [leafDict (.bytes [0x78])] ∧
    configureLoadPlanner 0 (leafDict (.bytes [0x78])).value leafMetadata =
      .ok (leafPlanner (.bytes [0x78])) ∧
    SameStructure [leafDict (.bytes [0x78])] (leafDict (.bytes [0x78])) ∧
    ¬ ∃ reader final,
      writeCheckpoint nonePickle noTensorKey [leafFlat (.bytes [0x78])] [leafPlan]
        (fun _ => none) = .ok reader ∧
      load nonePickle keepTensor (fun _ => true) (leafPlanner (.bytes [0x78])) reader =
        .ok final ∧
      Restored [leafDict (.bytes [0x78])] [leafPlan] (leafDict (.bytes [0x78]))
        (leafPlanner (.bytes [0x78])) (fun _ => true) reader final := by
  refine ⟨leaf_flattened _, leaf_saved rfl, leaf_picklable rfl, rfl, leaf_sameStructure _, ?_⟩
  rintro ⟨reader, final, hwritten, hload, -⟩
  cases hwritten
  cases hload

end HyperParallel.Checkpoint
