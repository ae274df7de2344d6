import HyperParallel.Checkpoint.Resharding
import HyperParallel.Checkpoint.LoadPlanner

/-!
# What the metadata of a save names

A name is in the metadata of a save exactly when some rank has an item to write
for it: as a tensor when the item is a tensor, else as bytes.  An entry that is
bytes is written by one rank.
-/

namespace HyperParallel.Checkpoint

open Foundation List

variable {α β : Type}

def WriteItem.dataFor (fqn : String) (item : WriteItem) : Option TensorData :=
  if item.type = .tensor ∧ item.index.fqn = fqn then item.tensorData else none

def WriteItem.isBytesFor (fqn : String) (item : WriteItem) : Prop :=
  item.type = .byteIo ∧ item.index.fqn = fqn

structure Registered (fqn : String) (entries : List (Nat × WriteItem))
    (shared : PyDict String TensorStorageMetadata × PyDict String StorageMetadata) : Prop where
  tensor : ∀ info, shared.1.get? fqn = some info → ∃ entry ∈ entries, ∃ data,
    entry.2.dataFor fqn = some data ∧ data.size = info.size ∧ data.properties = info.properties
  no_tensor : shared.1.get? fqn = none → ∀ entry ∈ entries, entry.2.dataFor fqn = none
  bytes : ∀ md, shared.2.get? fqn = some md → md = .bytes ∧
    ∃ entry ∈ entries, entry.2.isBytesFor fqn
  no_bytes : shared.2.get? fqn = none → ∀ entry ∈ entries, ¬ entry.2.isBytesFor fqn

theorem globalChunksFor_info {fqn : String} {properties : TensorProperties} {size : List Nat}
    {fqnInfo : PyDict String TensorStorageMetadata} {info : TensorStorageMetadata}
    (h : globalChunksFor fqn properties size fqnInfo = .ok info) :
    info.properties = properties ∧ info.size = size := by
  unfold globalChunksFor at h
  split at h
  · cases h
    exact ⟨rfl, rfl⟩
  · split at h
    · cases h
    · rename_i hsame
      cases h
      rw [not_or, not_not, not_not] at hsame
      exact hsame

theorem Registered.step {fqn : String} {seen : List (Nat × WriteItem)}
    {shared shared' : PyDict String TensorStorageMetadata × PyDict String StorageMetadata}
    {entry : Nat × WriteItem} (h : Registered fqn seen shared)
    (hstep : registerItem shared entry = .ok shared') :
    Registered fqn (seen ++ [entry]) shared' := by
  obtain ⟨planIndex, item⟩ := entry
  have hold : ∀ {P : Nat × WriteItem → Prop}, (∃ e ∈ seen, P e) →
      ∃ e ∈ seen ++ [(planIndex, item)], P e :=
    fun ⟨e, he, hP⟩ => ⟨e, mem_append_left _ he, hP⟩
  have hall : ∀ {P : Nat × WriteItem → Prop}, (∀ e ∈ seen, P e) → P (planIndex, item) →
      ∀ e ∈ seen ++ [(planIndex, item)], P e := by
    intro P hseen hlast e he
    rcases mem_append.mp he with he | he
    · exact hseen e he
    · obtain rfl := mem_singleton.mp he
      exact hlast
  unfold registerItem at hstep
  split at hstep
  · rename_i data htype hdata
    obtain ⟨info, hinfo, hset⟩ := bind_eq_ok hstep
    cases hset
    have hbytes : ¬ item.isBytesFor fqn := by
      dsimp only at htype
      simp [WriteItem.isBytesFor, htype]
    by_cases hname : fqn = item.index.fqn
    · have hdataFor : item.dataFor fqn = some data := by
        dsimp only at htype hdata
        simp [WriteItem.dataFor, htype, hname, hdata]
      obtain ⟨hproperties, hsize⟩ := globalChunksFor_info hinfo
      refine ⟨fun info' hget => ?_, fun hget => ?_, fun md hget => ?_, fun hget => ?_⟩
      · rw [PyDict.get?_set, if_pos hname] at hget
        cases hget
        exact ⟨(planIndex, item), by simp, data, hdataFor, hsize.symm, hproperties.symm⟩
      · rw [PyDict.get?_set, if_pos hname] at hget
        cases hget
      · exact ⟨(h.bytes md hget).1, hold (h.bytes md hget).2⟩
      · exact hall (h.no_bytes hget) hbytes
    · have hdataFor : item.dataFor fqn = none := by
        rw [WriteItem.dataFor, if_neg fun hboth => hname hboth.2.symm]
      refine ⟨fun info' hget => ?_, fun hget => ?_, fun md hget => ?_, fun hget => ?_⟩
      · rw [PyDict.get?_set, if_neg hname] at hget
        exact hold (h.tensor info' hget)
      · rw [PyDict.get?_set, if_neg hname] at hget
        exact hall (h.no_tensor hget) hdataFor
      · exact ⟨(h.bytes md hget).1, hold (h.bytes md hget).2⟩
      · exact hall (h.no_bytes hget) hbytes
  · rename_i htype
    cases hstep
    dsimp only at htype
    have hdataFor : item.dataFor fqn = none := by simp [WriteItem.dataFor, htype]
    refine ⟨fun info hget => hold (h.tensor info hget), fun hget => hall (h.no_tensor hget) hdataFor,
      fun md hget => ?_, fun hget => ?_⟩
    · rw [PyDict.get?_set] at hget
      split at hget
      · rename_i hname
        cases hget
        exact ⟨rfl, (planIndex, item), by simp, htype, hname.symm⟩
      · exact ⟨(h.bytes md hget).1, hold (h.bytes md hget).2⟩
    · rw [PyDict.get?_set] at hget
      split at hget
      · cases hget
      · rename_i hname
        exact hall (h.no_bytes hget) fun hboth => hname hboth.2.symm
  · cases hstep

theorem registered {entries : List (Nat × WriteItem)}
    {shared : PyDict String TensorStorageMetadata × PyDict String StorageMetadata}
    (h : entries.foldlM registerItem (.empty, .empty) = .ok shared) (fqn : String) :
    Registered fqn entries shared :=
  foldlM_invariant (Registered fqn) (fun _ _ _ _ => Registered.step)
    ⟨by simp, by simp, by simp, by simp⟩ h

theorem sharedPlan_metadata {planner : StandardSavePlanner} {allPlans : List SavePlan}
    {masks : Option (List (List Bool))} {metadata : Metadata}
    (h : sharedPlan planner allPlans = .ok (masks, metadata)) (fqn : String) :
    ∃ shared, Registered fqn (keptEntries allPlans masks) shared ∧
      metadata.stateDictMetadata.get? fqn = match shared.1.get? fqn with
        | some info => some (.tensor info)
        | none => shared.2.get? fqn := by
  unfold sharedPlan at h
  obtain ⟨masks', -, h⟩ := bind_eq_ok h
  obtain ⟨shared, hshared, h⟩ := bind_eq_ok h
  obtain ⟨plannerData, -, h⟩ := bind_eq_ok h
  cases h
  refine ⟨shared, registered hshared fqn, ?_⟩
  dsimp only
  rw [tensorMetadata, PyDict.get?_foldl_set _ shared.1.nodup]
  unfold PyDict.get?
  cases shared.1.entries.lookup fqn <;> rfl

/-! ## From the state dicts of the ranks -/

theorem leafWriteItems_tensor {rank : Nat} {fqn : String} {value : StateValue α β}
    {items : List WriteItem} (h : leafWriteItems rank fqn value = .ok items)
    (htensor : value.isTensor = true) : ∀ item ∈ items,
      item.index.fqn = fqn ∧ item.type = .tensor ∧ item.tensorData.isSome = true := by
  unfold leafWriteItems at h
  split at h
  · split at h
    · cases h
      simp [tensorWriteItem]
    · split at h
      · unfold createRaggedWriteItems at h
        obtain ⟨boxes, -, rfl⟩ := map_eq_ok h
        intro item hitem
        obtain ⟨box, -, rfl⟩ := mem_map.mp hitem
        exact ⟨rfl, rfl, rfl⟩
      · obtain ⟨offsets, -, rfl⟩ := map_eq_ok h
        simp [tensorWriteItem]
  · cases h
    simp [tensorWriteItem]
  · cases h
    simp [tensorWriteItem]
  · rename_i hdtensor hplain hinfo
    cases value with
    | leaf leaf =>
      cases leaf with
      | dtensor tensor => exact absurd rfl (hdtensor tensor)
      | tensor tensor info =>
        cases info with
        | none => exact absurd rfl (hplain tensor)
        | some info => exact absurd rfl (hinfo tensor info)
      | _ => cases htensor
    | _ => cases htensor

theorem leafWriteItems_bytes {rank : Nat} {fqn : String} {value : StateValue α β}
    (hvalue : value.isTensor = false) :
    leafWriteItems rank fqn value = .ok [{ index := { fqn := fqn }, type := .byteIo }] := by
  cases value with
  | leaf leaf =>
    cases leaf with
    | dtensor tensor => cases hvalue
    | tensor tensor info => cases hvalue
    | _ => rfl
  | _ => rfl

section Saved

variable {planner : StandardSavePlanner} {stateDicts : List (FlatStateDict α β)}
  {finals : List SavePlan} {metadata : Metadata}

section

variable (hsave : Saved planner stateDicts finals metadata)

include hsave

theorem Saved.registered (hpos : 0 < stateDicts.length) (fqn : String) :
    ∃ entries shared, Registered fqn entries shared ∧
      (metadata.stateDictMetadata.get? fqn = match shared.1.get? fqn with
        | some info => some (.tensor info)
        | none => shared.2.get? fqn) ∧
      (∀ entry ∈ entries, ∃ (rank : Nat) (stateDict : _) (value : _) (items : _),
        stateDicts[rank]? = some stateDict ∧
        stateDict.fqnNames.get? entry.2.index.fqn = some value ∧
        leafWriteItems rank entry.2.index.fqn value = .ok items ∧ entry.2 ∈ items) ∧
      ∀ (rank : Nat) stateDict value items item, stateDicts[rank]? = some stateDict →
        stateDict.fqnNames.get? fqn = some value → leafWriteItems rank fqn value = .ok items →
        item ∈ items → ∃ entry ∈ entries, entry.2.index.key = item.index.key := by
  obtain ⟨plans, masks, hlength, hlocal, hshared, -⟩ := hsave.exists_shared hpos
  obtain ⟨shared, hregistered, hmetadata⟩ := sharedPlan_metadata hshared fqn
  have hkeeps := ownershipMasks_keepsOne rfl (sharedPlan_chunks hshared "").1
  refine ⟨keptEntries plans masks, shared, hregistered, hmetadata, ?_, ?_⟩
  · rintro ⟨rank, item⟩ hentry
    rw [keptEntries_eq hkeeps.shaped] at hentry
    obtain ⟨⟨rank', position, item'⟩, hmem, heq⟩ := mem_map.mp hentry
    obtain ⟨rfl, rfl⟩ := Prod.mk.inj heq
    obtain ⟨plan, hplan, hitem⟩ := mem_planEntries.mp (mem_filter.mp hmem).1
    have hrank := (List.getElem?_eq_some_iff.mp hplan).1
    have hstateDict := List.getElem?_eq_getElem (hlength ▸ hrank)
    obtain ⟨value, items, hvalue, hitems, hin⟩ :=
      (mem_buildLocalPlan (hlocal rank' _ plan hstateDict hplan)).mp (mem_of_getElem? hitem)
    exact ⟨rank', _, value, items, hstateDict, hvalue, hitems, hin⟩
  · intro rank stateDict value items item hstateDict hvalue hitems hitem
    have hrank := (List.getElem?_eq_some_iff.mp hstateDict).1
    have hplan := List.getElem?_eq_getElem (hlength.symm ▸ hrank)
    have hfqn := (leafWriteItems_fqn hitems item hitem).1
    have hmem : item ∈ plans[rank].items :=
      (mem_buildLocalPlan (hlocal rank _ _ hstateDict hplan)).mpr
        ⟨value, items, hfqn ▸ hvalue, hfqn ▸ hitems, hitem⟩
    obtain ⟨position, hposition⟩ := mem_iff_getElem?.mp hmem
    obtain ⟨kept, hkept, hiskept, hkey, -⟩ := hkeeps.exists_kept (rank, position, item)
      (mem_planEntries.mpr ⟨_, hplan, hposition⟩)
    refine ⟨(kept.1, kept.2.2), ?_, hkey⟩
    rw [keptEntries_eq hkeeps.shaped]
    exact mem_map.mpr ⟨kept, mem_filter.mpr ⟨hkept, hiskept⟩, rfl⟩

theorem Saved.metadata_tensor (hpos : 0 < stateDicts.length) {fqn : String}
    {md : TensorStorageMetadata} (hmd : metadata.stateDictMetadata.get? fqn = some (.tensor md)) :
    ∃ (rank : Nat) (stateDict : _) (value : _) (items : _) (item : WriteItem) (data : TensorData),
      stateDicts[rank]? = some stateDict ∧ stateDict.fqnNames.get? fqn = some value ∧
      leafWriteItems rank fqn value = .ok items ∧ item ∈ items ∧ item.tensorData = some data ∧
      data.size = md.size ∧ data.properties = md.properties := by
  obtain ⟨entries, shared, hregistered, hmetadata, horigin, -⟩ := hsave.registered hpos fqn
  rw [hmd] at hmetadata
  cases hinfo : shared.1.get? fqn with
  | none =>
    rw [hinfo] at hmetadata
    have hbytes := (hregistered.bytes _ hmetadata.symm).1
    cases hbytes
  | some info =>
    rw [hinfo] at hmetadata
    cases hmetadata
    obtain ⟨entry, hentry, data, hdata, hsize, hproperties⟩ := hregistered.tensor md hinfo
    unfold WriteItem.dataFor at hdata
    split at hdata
    · rename_i hboth
      obtain ⟨rank, stateDict, value, items, hdict, hvalue, hitems, hin⟩ := horigin entry hentry
      rw [hboth.2] at hvalue hitems
      exact ⟨rank, stateDict, value, items, entry.2, data, hdict, hvalue, hitems, hin, hdata,
        hsize, hproperties⟩
    · cases hdata

theorem Saved.exists_tensor {fqn : String}
    (htensors : ∀ stateDict ∈ stateDicts, ∀ value,
      stateDict.fqnNames.get? fqn = some value → value.isTensor = true)
    {rank : Nat} {stateDict : FlatStateDict α β} {value : StateValue α β} {items : List WriteItem}
    {item : WriteItem} (hdict : stateDicts[rank]? = some stateDict)
    (hvalue : stateDict.fqnNames.get? fqn = some value)
    (hitems : leafWriteItems rank fqn value = .ok items) (hitem : item ∈ items) :
    ∃ md, metadata.stateDictMetadata.get? fqn = some (.tensor md) := by
  have hpos : 0 < stateDicts.length := by
    have hrank := (List.getElem?_eq_some_iff.mp hdict).1
    omega
  obtain ⟨entries, shared, hregistered, hmetadata, horigin, hall⟩ := hsave.registered hpos fqn
  obtain ⟨entry, hentry, hkey⟩ := hall rank stateDict value items item hdict hvalue hitems hitem
  have hfqn : entry.2.index.fqn = fqn :=
    (congrArg Prod.fst hkey).trans (leafWriteItems_fqn hitems item hitem).1
  obtain ⟨rank', stateDict', value', items', hdict', hvalue', hitems', hin'⟩ := horigin entry hentry
  rw [hfqn] at hvalue' hitems'
  obtain ⟨-, htype, hdata⟩ := leafWriteItems_tensor hitems'
    (htensors stateDict' (mem_of_getElem? hdict') value' hvalue') entry.2 hin'
  cases hinfo : shared.1.get? fqn with
  | some info => exact ⟨info, by rw [hmetadata, hinfo]⟩
  | none =>
    have hnone := hregistered.no_tensor hinfo entry hentry
    rw [WriteItem.dataFor, if_pos ⟨htype, hfqn⟩] at hnone
    rw [hnone] at hdata
    cases hdata

theorem Saved.metadata_bytes {fqn : String}
    (hbytes : ∀ stateDict ∈ stateDicts, ∀ value,
      stateDict.fqnNames.get? fqn = some value → value.isTensor = false)
    (hheld : ∃ stateDict ∈ stateDicts, ∃ value, stateDict.fqnNames.get? fqn = some value) :
    metadata.stateDictMetadata.get? fqn = some .bytes := by
  obtain ⟨stateDict, hmem, value, hvalue⟩ := hheld
  obtain ⟨rank, hdict⟩ := mem_iff_getElem?.mp hmem
  have hpos := length_pos_of_mem hmem
  obtain ⟨entries, shared, hregistered, hmetadata, horigin, hall⟩ := hsave.registered hpos fqn
  have hitems := @leafWriteItems_bytes _ _ rank fqn value (hbytes stateDict hmem value hvalue)
  obtain ⟨entry, hentry, hkey⟩ := hall rank stateDict value _ _ hdict hvalue hitems mem_cons_self
  have hfqn : entry.2.index.fqn = fqn := congrArg Prod.fst hkey
  -- Every registered item of the name is bytes.
  have hkind : ∀ entry ∈ entries, entry.2.index.fqn = fqn → entry.2.type = .byteIo := by
    intro entry hentry hfqn
    obtain ⟨rank', stateDict', value', items', hdict', hvalue', hitems', hin'⟩ :=
      horigin entry hentry
    rw [hfqn] at hvalue' hitems'
    rw [leafWriteItems_bytes (hbytes stateDict' (mem_of_getElem? hdict') value' hvalue')]
      at hitems'
    cases hitems'
    rw [mem_singleton.mp hin']
  rw [hmetadata]
  cases hinfo : shared.1.get? fqn with
  | some info =>
    obtain ⟨other, hother, data, hdata, -⟩ := hregistered.tensor info hinfo
    unfold WriteItem.dataFor at hdata
    split at hdata
    · rename_i hboth
      rw [hkind other hother hboth.2] at hboth
      cases hboth.1
    · cases hdata
  | none =>
    dsimp only
    cases hmd : shared.2.get? fqn with
    | none => exact absurd ⟨hkind entry hentry hfqn, hfqn⟩ (hregistered.no_bytes hmd entry hentry)
    | some md =>
      obtain rfl := (hregistered.bytes md hmd).1
      rfl

end

end Saved

end HyperParallel.Checkpoint
