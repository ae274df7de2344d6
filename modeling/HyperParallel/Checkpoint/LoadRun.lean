import HyperParallel.Checkpoint.LoadPlanner

/-!
# What a load leaves in a state dict

However the items of a plan are gathered by file, they are read one after the
other, and an item changes the entry of its own name alone.  So a load is, for
each entry, the reads of that entry by themselves.
-/

namespace HyperParallel.Checkpoint

open Foundation List
open Foundation.Nested (Diverge)

variable {α β : Type}

/-! ## One item at a time -/

namespace FileSystemReader

variable (reader : FileSystemReader α)

def fetchItem (item : ReadItem) : Except LoadError (ReadItem × Payload α) := do
  let info ← reader.getStorageInfo item
  if endsWithAny info.relativePath [".bytes"] then
    match reader.bytesFile info.relativePath with
    | none => .error (.fileNotFound info.relativePath)
    | some content => .ok (item, .bytes (readAt content info.offset info.length))
  else
    match reader.tensorFile item.storageIndex.key with
    | none => .error (.tensorNotFound item.storageIndex)
    | some tensor =>
      .ok (item, .tensor (narrowTensorByIndex tensor item.storageOffsets item.lengths))

def pathOf (item : ReadItem) : String :=
  ((reader.storageData.get? item.storageIndex.key).map (·.relativePath)).getD ""

def Locates (items : List ReadItem) : Prop :=
  ∀ item ∈ items, ∃ info, reader.storageData.get? item.storageIndex.key = some info

def fileGroups (items : List ReadItem) : PyDict String (List ReadItem) :=
  PyDict.group (items.map fun item => (reader.pathOf item, item))

variable {reader} {items : List ReadItem}

theorem getStorageInfo_of_some {item : ReadItem} {info : StorageInfo}
    (h : reader.storageData.get? item.storageIndex.key = some info) :
    reader.getStorageInfo item = .ok info := by
  rw [getStorageInfo, h]

theorem groupItemsByFile_eq (h : reader.Locates items) :
    reader.groupItemsByFile items = .ok (reader.fileGroups items) := by
  rw [groupItemsByFile, mapM_eq_ok (g := fun item => (reader.pathOf item, item))]
  · rfl
  · intro item hitem
    obtain ⟨info, hinfo⟩ := h item hitem
    rw [getStorageInfo_of_some hinfo, pathOf, hinfo]
    rfl

variable (reader) in
theorem fileGroups_perm (items : List ReadItem) :
    (reader.fileGroups items).values.flatten.Perm items := by
  have hperm := PyDict.group_flatten_perm (items.map fun item => (reader.pathOf item, item))
  simpa [fileGroups, Function.comp_def] using hperm

theorem fetchFile_eq_ok_iff {path : String} {reqs : List ReadItem}
    (hmem : (path, reqs) ∈ (reader.fileGroups items).entries) (hlocates : reader.Locates items)
    {fetched : List (ReadItem × Payload α)} :
    reader.fetchFile (path, reqs) = .ok fetched ↔ reqs.mapM reader.fetchItem = .ok fetched := by
  obtain ⟨hne, hgroup⟩ := PyDict.mem_group ((PyDict.mem_entries_iff _).mp hmem)
  have hreq : ∀ req ∈ reqs, ∃ info, reader.storageData.get? req.storageIndex.key = some info ∧
      info.relativePath = path := by
    intro req hin
    obtain ⟨item, hitem, heq⟩ := mem_map.mp (hgroup req hin)
    obtain ⟨hpath, rfl⟩ := Prod.mk.inj heq
    obtain ⟨info, hinfo⟩ := hlocates item hitem
    refine ⟨info, hinfo, ?_⟩
    rw [← hpath, pathOf, hinfo]
    rfl
  rw [fetchFile]
  split
  · rename_i hbytes
    rw [fetchBytesFile]
    cases hfile : reader.bytesFile path with
    | none =>
      obtain ⟨req, rest, rfl⟩ := exists_cons_of_ne_nil hne
      obtain ⟨info, hinfo, hpath⟩ := hreq req mem_cons_self
      have hfails : reader.fetchItem req = .error (.fileNotFound path) := by
        unfold fetchItem
        rw [getStorageInfo_of_some hinfo]
        simp only [bind, Except.bind, hpath, hfile]
        exact if_pos hbytes
      rw [mapM_cons, hfails]
      simp [bind, Except.bind]
    | some content =>
      have hsame : ∀ req ∈ reqs, reader.fetchItem req = (reader.getStorageInfo req).map fun info =>
          (req, .bytes (readAt content info.offset info.length)) := by
        intro req hin
        obtain ⟨info, hinfo, hpath⟩ := hreq req hin
        unfold fetchItem
        rw [getStorageInfo_of_some hinfo]
        simp only [bind, Except.bind, hpath, hfile]
        exact if_pos hbytes
      rw [mapM_congr_mem hsame]
  · rename_i hbytes
    have hsame : ∀ req ∈ reqs, reader.fetchItem req =
        match reader.tensorFile req.storageIndex.key with
        | none => .error (.tensorNotFound req.storageIndex)
        | some tensor =>
          .ok (req, .tensor (narrowTensorByIndex tensor req.storageOffsets req.lengths)) := by
      intro req hin
      obtain ⟨info, hinfo, hpath⟩ := hreq req hin
      unfold fetchItem
      rw [getStorageInfo_of_some hinfo]
      simp only [bind, Except.bind, hpath]
      exact if_neg hbytes
    rw [mapM_congr_mem hsame]
    rfl

def batchOrder (reader : FileSystemReader α) (items : List ReadItem) : List ReadItem :=
  (reader.fileGroups items).values.flatten

theorem fetchFromStorage_eq_ok_iff (hlocates : reader.Locates items)
    {fetched : List (ReadItem × Payload α)} :
    reader.fetchFromStorage items = .ok fetched ↔
      (reader.batchOrder items).mapM reader.fetchItem = .ok fetched := by
  have hflat : (∃ files, (reader.fileGroups items).entries.mapM reader.fetchFile = .ok files ∧
      files.flatten = fetched) ↔ (reader.batchOrder items).mapM reader.fetchItem = .ok fetched :=
    mapM_flatten_eq_ok_iff fun _ hfile _ => fetchFile_eq_ok_iff hfile hlocates
  rw [← hflat, fetchFromStorage, groupItemsByFile_eq hlocates]
  simp only [bind, Except.bind]
  cases hall : (reader.fileGroups items).entries.mapM reader.fetchFile with
  | error e => simp
  | ok fetchedFiles => simp [pure, Except.pure]

theorem batchOrder_perm (items : List ReadItem) : (reader.batchOrder items).Perm items :=
  reader.fileGroups_perm items

theorem Locates.of_subset {others : List ReadItem} (h : reader.Locates items)
    (hsubset : others ⊆ items) : reader.Locates others :=
  fun item hitem => h item (hsubset hitem)

end FileSystemReader

theorem itemsByShard_perm (items : List ReadItem) :
    (itemsByShard items).values.flatten.Perm items := by
  have hperm := PyDict.group_flatten_perm (items.map fun item => (item.destIndex.key, item))
  simpa [itemsByShard, Function.comp_def] using hperm

section Read

variable (pickle : Pickle α β) (setItem : TensorSetItem α β) (planner : StandardLoadPlanner α β)
  (reader : FileSystemReader α)

def readItem (state : LoadState α β) (item : ReadItem) : Except LoadError (LoadState α β) :=
  reader.fetchItem item >>= applyFetched pickle setItem planner state

theorem exists_readOrder {items : List ReadItem} (hprivate : ∀ item ∈ items, item.source = none)
    (hlocates : reader.Locates items) : ∃ order : List ReadItem, order.Perm items ∧
      ∀ state final, readPrivate pickle setItem planner reader items state = .ok final ↔
        order.foldlM (readItem pickle setItem planner reader) state = .ok final := by
  have hshards : (itemsByShard items).values.filter (fun shard =>
      (shard.head?.bind (·.source)).isNone) = (itemsByShard items).values := by
    rw [filter_eq_self]
    intro shard hshard
    cases shard with
    | nil => rfl
    | cons item rest =>
      have hitem : item ∈ items := (itemsByShard_perm items).subset
        (mem_flatten.mpr ⟨_, hshard, mem_cons_self⟩)
      simp [hprivate item hitem]
  have hflat := hlocates.of_subset (itemsByShard_perm items).subset
  have hbatches : privateBatches reader items =
      .ok (reader.fileGroups (itemsByShard items).values.flatten) := by
    rw [privateBatches, hshards, FileSystemReader.groupItemsByFile_eq hflat]
  have hgroups := reader.fileGroups_perm (itemsByShard items).values.flatten
  generalize hvalues : (reader.fileGroups (itemsByShard items).values.flatten).values = batches
    at hgroups
  refine ⟨batches.flatMap reader.batchOrder, ?_, fun state final => ?_⟩
  · have heach : (batches.flatMap reader.batchOrder).Perm (batches.flatMap id) :=
      List.Perm.flatMap (List.Perm.refl _) fun batch _ => FileSystemReader.batchOrder_perm batch
    rw [flatMap_id] at heach
    exact heach.trans (hgroups.trans (itemsByShard_perm items))
  · rw [readPrivate, hbatches]
    simp only [bind, Except.bind, hvalues]
    apply foldlM_flatten_eq_ok_iff
    intro batch hbatch s s'
    have hbatchLocates : reader.Locates batch := hflat.of_subset fun item hitem =>
      hgroups.subset (mem_flatten.mpr ⟨batch, hbatch, hitem⟩)
    have hitems : ((reader.batchOrder batch).mapM reader.fetchItem >>= fun fetched =>
        fetched.foldlM (applyFetched pickle setItem planner) s) = .ok s' ↔
        (reader.batchOrder batch).foldlM (readItem pickle setItem planner reader) s = .ok s' :=
      foldlM_mapM_eq_ok_iff
    rw [← hitems]
    cases hfetch : reader.fetchFromStorage batch with
    | ok fetched =>
      rw [(FileSystemReader.fetchFromStorage_eq_ok_iff hbatchLocates).mp hfetch]
      rfl
    | error e =>
      cases hall : (reader.batchOrder batch).mapM reader.fetchItem with
      | error e' => simp [bind, Except.bind]
      | ok fetched =>
        rw [(FileSystemReader.fetchFromStorage_eq_ok_iff hbatchLocates).mpr hall] at hfetch
        cases hfetch

/-! ## One entry at a time -/

/-- What an item makes of the entry of its name. -/
def readValue (item : ReadItem) (value : Option (StateValue α β)) :
    Except LoadError (Option (StateValue α β)) := do
  let fetched ← reader.fetchItem item
  match item.type, fetched.2, value with
  | .byteIo, .bytes content, _ =>
    match pickle.loads content, planner.nameMapping.get? item.destIndex.fqn with
    | some obj, some path =>
      if InTuple planner.originalStateDict path then .error (.stateDict .typeError)
      else .ok (some obj)
    | none, _ => .error .unpickling
    | _, none => .error (.keyNotFound item.destIndex.fqn)
  | .tensor, .tensor tensor, some (.leaf target) =>
    (validateAndCopyTensor planner.rank item tensor target).map fun written =>
      some (.leaf written)
  | .tensor, .tensor _, _ => .error (.keyNotFound item.destIndex.fqn)
  | _, _, _ => .error .typeError

structure Agrees (planner : StandardLoadPlanner α β) (state : LoadState α β) : Prop where
  at_path : ∀ fqn path, planner.nameMapping.get? fqn = some path →
    ∃ value, state.stateDict.get? fqn = some value ∧ state.originalStateDict.get? path = some value
  named : ∀ fqn value, state.stateDict.get? fqn = some value →
    ∃ path, planner.nameMapping.get? fqn = some path
  tuples : ∀ fqn path, planner.nameMapping.get? fqn = some path →
    (InTuple state.originalStateDict path ↔ InTuple planner.originalStateDict path)
  others : ∀ other, (∀ fqn path, planner.nameMapping.get? fqn = some path → Diverge path other) →
    state.originalStateDict.get? other = planner.originalStateDict.get? other

structure DivergingPaths (planner : StandardLoadPlanner α β) : Prop where
  diverge : ∀ fqn fqn' path path', planner.nameMapping.get? fqn = some path →
    planner.nameMapping.get? fqn' = some path' → fqn ≠ fqn' → Diverge path path'
  ne_nil : ∀ fqn path, planner.nameMapping.get? fqn = some path → path ≠ []

variable {pickle setItem planner reader}

def LoadState.put (state : LoadState α β) (fqn : String) (path : ObjectPath)
    (value : StateValue α β) : LoadState α β where
  stateDict := state.stateDict.set fqn value
  originalStateDict := state.originalStateDict.replaceAt path value

theorem not_prefix_dropLast {path other : ObjectPath} (hne : other ≠ [])
    (h : path = other ∨ Diverge path other) : ¬ path <+: other.dropLast := by
  intro hpre
  rcases h with rfl | hdiverge
  · have hlength := hpre.length_le
    have hpos := length_pos_iff.mpr hne
    rw [length_dropLast] at hlength
    omega
  · exact hdiverge.1 (hpre.trans <| dropLast_prefix other)

theorem inTuple_replaceAt {value : StateValue α β} {path other : ObjectPath}
    (hne : other ≠ []) (h : path = other ∨ Diverge path other) (new : StateValue α β) :
    InTuple (value.replaceAt path new) other ↔ InTuple value other := by
  unfold InTuple
  rw [Nested.map_isTuple_replaceAt _ _ (not_prefix_dropLast hne h)]

variable {state : LoadState α β}

theorem Agrees.put (hpaths : DivergingPaths planner) (h : Agrees planner state) {fqn : String}
    {path : ObjectPath} (hpath : planner.nameMapping.get? fqn = some path)
    (value : StateValue α β) :
    Agrees planner (state.put fqn path value) where
  at_path := by
    intro other otherPath hother
    by_cases heq : other = fqn
    · subst heq
      obtain rfl : path = otherPath := Option.some.inj (hpath.symm.trans hother)
      obtain ⟨old, -, hold⟩ := h.at_path other path hpath
      exact ⟨value, PyDict.get?_set_self _ _ _, Nested.get?_replaceAt_self hold value⟩
    · obtain ⟨old, hflat, hold⟩ := h.at_path other otherPath hother
      refine ⟨old, ?_, ?_⟩
      · rw [LoadState.put, PyDict.get?_set_of_ne _ _ heq, hflat]
      · rw [LoadState.put, Nested.get?_replaceAt_of_diverge _ _
          (hpaths.diverge fqn other path otherPath hpath hother (Ne.symm heq)), hold]
  named := by
    intro other old hold
    rw [LoadState.put, PyDict.get?_set] at hold
    split at hold
    · rename_i heq
      exact ⟨path, heq ▸ hpath⟩
    · exact h.named other old hold
  tuples := by
    intro other otherPath hother
    rw [← h.tuples other otherPath hother]
    apply inTuple_replaceAt (hpaths.ne_nil other otherPath hother)
    by_cases heq : other = fqn
    · subst heq
      exact .inl (Option.some.inj (hpath.symm.trans hother))
    · exact .inr (hpaths.diverge fqn other path otherPath hpath hother (Ne.symm heq))
  others := by
    intro other hother
    rw [← h.others other hother]
    exact Nested.get?_replaceAt_of_diverge _ _ (hother fqn path hpath)

theorem readItem_eq (hpaths : DivergingPaths planner) (h : Agrees planner state) (item : ReadItem) :
    (∃ path value, planner.nameMapping.get? item.destIndex.fqn = some path ∧
      readValue pickle planner reader item (state.stateDict.get? item.destIndex.fqn) =
        .ok (some value) ∧
      readItem pickle setItem planner reader state item =
        .ok (state.put item.destIndex.fqn path value)) ∨
    ∃ e e', readValue pickle planner reader item (state.stateDict.get? item.destIndex.fqn) =
        .error e ∧ readItem pickle setItem planner reader state item = .error e' := by
  unfold readItem readValue
  cases hfetch : reader.fetchItem item with
  | error e => exact .inr ⟨e, e, rfl, rfl⟩
  | ok fetched =>
    obtain ⟨item', payload⟩ := fetched
    obtain rfl : item = item' := by
      unfold FileSystemReader.fetchItem at hfetch
      obtain ⟨info, -, hfetch⟩ := bind_eq_ok hfetch
      split at hfetch <;> split at hfetch <;> cases hfetch <;> rfl
    simp only [bind, Except.bind, applyFetched]
    cases htype : item.type with
    | byteIo =>
      cases payload with
      | tensor tensor => exact .inr ⟨_, _, rfl, rfl⟩
      | bytes content =>
        simp only [applyBytes]
        cases hobj : pickle.loads content with
        | none => exact .inr ⟨_, _, rfl, rfl⟩
        | some obj =>
          cases hpath : planner.nameMapping.get? item.destIndex.fqn with
          | none => exact .inr ⟨_, _, rfl, rfl⟩
          | some path =>
            obtain ⟨old, -, hold⟩ := h.at_path _ path hpath
            simp only
            rw [setElement_of_get? setItem (hpaths.ne_nil _ path hpath) hold]
            by_cases htuple : InTuple planner.originalStateDict path
            · rw [if_pos htuple, if_pos ((h.tuples _ path hpath).mpr htuple)]
              exact .inr ⟨_, _, rfl, rfl⟩
            · rw [if_neg htuple, if_neg fun hin => htuple ((h.tuples _ path hpath).mp hin)]
              exact .inl ⟨path, obj, rfl, rfl, rfl⟩
    | tensor =>
      cases payload with
      | bytes content => exact .inr ⟨_, _, rfl, rfl⟩
      | tensor tensor =>
        simp only [applyTensor]
        cases hget : state.stateDict.get? item.destIndex.fqn with
        | none => exact .inr ⟨_, _, rfl, rfl⟩
        | some value =>
          cases value with
          | mapping entries => exact .inr ⟨_, _, rfl, rfl⟩
          | sequence type items => exact .inr ⟨_, _, rfl, rfl⟩
          | leaf target =>
            obtain ⟨path, hpath⟩ := h.named _ _ hget
            simp only [hpath]
            cases validateAndCopyTensor planner.rank item tensor target with
            | error e => exact .inr ⟨_, _, rfl, rfl⟩
            | ok written => exact .inl ⟨path, .leaf written, rfl, rfl, rfl⟩

def ownItemsOf (fqn : String) (items : List ReadItem) : List ReadItem :=
  items.filter fun item => decide (item.destIndex.fqn = fqn)

def entryOf (state : LoadState α β) (fqn : String) : Option (StateValue α β) :=
  state.stateDict.get? fqn

theorem readItem_component (hpaths : DivergingPaths planner) (state : LoadState α β)
    (item : ReadItem) (state' : LoadState α β) (h : Agrees planner state)
    (hstep : readItem pickle setItem planner reader state item = .ok state') :
    Agrees planner state' ∧
      readValue pickle planner reader item (entryOf state item.destIndex.fqn) =
        .ok (entryOf state' item.destIndex.fqn) ∧
      ∀ fqn, fqn ≠ item.destIndex.fqn → entryOf state' fqn = entryOf state fqn := by
  rcases readItem_eq hpaths h item with ⟨path, value, hpath, hvalue, hitem⟩ | ⟨e, e', -, hitem⟩
  · rw [hitem] at hstep
    cases hstep
    refine ⟨h.put hpaths hpath value, ?_, fun fqn hne => PyDict.get?_set_of_ne _ _ hne⟩
    rw [entryOf, hvalue, entryOf, LoadState.put, PyDict.get?_set_self]
  · rw [hitem] at hstep
    cases hstep

theorem readItems_components {items : List ReadItem} {final : LoadState α β}
    (hpaths : DivergingPaths planner) (h : Agrees planner state)
    (hrun : items.foldlM (readItem pickle setItem planner reader) state = .ok final) :
    Agrees planner final ∧ ∀ fqn, (ownItemsOf fqn items).foldlM
      (fun value item => readValue pickle planner reader item value) (entryOf state fqn) =
        .ok (entryOf final fqn) := by
  unfold ownItemsOf
  exact foldlM_components entryOf (fun item : ReadItem => item.destIndex.fqn)
    (readValue pickle planner reader) (readItem_component hpaths) h hrun

theorem exists_readItems (setItem : TensorSetItem α β) {items : List ReadItem}
    (hpaths : DivergingPaths planner) (h : Agrees planner state)
    (hentries : ∀ fqn, ∃ value, (ownItemsOf fqn items).foldlM
      (fun value item => readValue pickle planner reader item value) (entryOf state fqn) =
        .ok value) :
    ∃ final, items.foldlM (readItem pickle setItem planner reader) state = .ok final := by
  unfold ownItemsOf at hentries
  refine exists_foldlM_of_components entryOf (fun item : ReadItem => item.destIndex.fqn)
    (readValue pickle planner reader) (readItem_component hpaths) ?_ h hentries
  intro s item e hs hstep
  rcases readItem_eq hpaths hs item with ⟨path, value, -, -, hitem⟩ | ⟨e', e'', hvalue, hitem⟩
  · rw [hitem] at hstep
    cases hstep
  · exact ⟨e', hvalue⟩

end Read

/-! ## Entries that are tensors -/

def SameForm (left right : Leaf α β) : Prop :=
  left.isTensor = right.isTensor ∧ ∀ rank index,
    (acquireLocal rank left index).map Tensor.shape =
      (acquireLocal rank right index).map Tensor.shape

theorem SameForm.refl (leaf : Leaf α β) : SameForm leaf leaf := ⟨rfl, fun _ _ => rfl⟩

theorem SameForm.trans {first second third : Leaf α β} (h : SameForm first second)
    (h' : SameForm second third) : SameForm first third :=
  ⟨h.1.trans h'.1, fun rank index => (h.2 rank index).trans (h'.2 rank index)⟩

theorem narrow_shape_congr {left right : Tensor α} (h : left.shape = right.shape)
    (offsets lengths : List Nat) :
    (narrowTensorByIndex left offsets lengths).shape =
      (narrowTensorByIndex right offsets lengths).shape := by
  unfold narrowTensorByIndex
  split
  · exact h
  · dsimp only
    rw [h]

theorem copy_shape (target : Tensor α) (offsets lengths : List Nat) (source : Tensor α) :
    (copyTensorToTarget target offsets lengths source).shape = target.shape := by
  unfold copyTensorToTarget
  split <;> rfl

theorem getRaggedBoxTensor_shape (tensor : DTensor α) (localTensor : Tensor α)
    (layout : DTensor.Layout) (rank : Nat) (index : MetadataIndex) :
    (getRaggedBoxTensor { tensor with localTensor := localTensor } layout rank index).map
        Tensor.shape = (getRaggedBoxTensor tensor layout rank index).map Tensor.shape := by
  unfold getRaggedBoxTensor
  dsimp only
  cases computeRaggedBoxes tensor.shape layout rank with
  | error e => rfl
  | ok boxes =>
    simp only [bind, Except.bind]
    split <;> rfl

theorem putLocal_sameForm {rank : Nat} {target : Leaf α β} {index : MetadataIndex}
    {acquired written : Tensor α} (h : acquireLocal rank target index = .ok acquired)
    (hshape : written.shape = acquired.shape) :
    SameForm target (putLocal rank target index written) := by
  cases target with
  | dtensor tensor =>
    refine ⟨?_, fun rank' index' => ?_⟩
    · simp only [putLocal]
      split
      · split <;> rfl
      · rfl
    · cases hlayout : tensor.layout with
      | none =>
        simp only [acquireLocal, hlayout, Except.ok.injEq] at h
        subst h
        simp only [putLocal, acquireLocal, hlayout, Except.map, hshape]
      | some layout =>
        by_cases hragged : layout.raggedShard.isSome
        · simp only [putLocal, acquireLocal, hlayout, if_pos hragged]
          exact (getRaggedBoxTensor_shape tensor _ layout rank' index').symm
        · simp only [acquireLocal, hlayout, if_neg hragged, Except.ok.injEq] at h
          subst h
          simp only [putLocal, acquireLocal, hlayout, if_neg hragged, Except.map, hshape]
  | tensor tensor info =>
    cases h
    exact ⟨rfl, fun _ _ => congrArg Except.ok hshape.symm⟩
  | bytes content => cases h
  | none => cases h
  | object value => cases h

theorem validateAndCopyTensor_sameForm {rank : Nat} {req : ReadItem} {tensor : Tensor α}
    {target target' written : Leaf α β} (hform : SameForm target target')
    (h : validateAndCopyTensor rank req tensor target = .ok written) :
    ∃ written', validateAndCopyTensor rank req tensor target' = .ok written' ∧
      SameForm target written' := by
  unfold validateAndCopyTensor at h ⊢
  obtain ⟨acquired, hacquired, h⟩ := bind_eq_ok h
  dsimp only at h
  split at h
  · cases h
  · rename_i hsize
    have hok : acquireLocal rank target req.destIndex = .ok acquired := by
      cases hlocal : acquireLocal rank target req.destIndex with
      | error e =>
        rw [hlocal] at hacquired
        cases hacquired
      | ok found =>
        rw [hlocal] at hacquired
        cases hacquired
        rfl
    have hsame := hform.2 rank req.destIndex
    rw [hok] at hsame
    cases hlocal : acquireLocal rank target' req.destIndex with
    | error e =>
      rw [hlocal] at hsame
      cases hsame
    | ok acquired' =>
      rw [hlocal] at hsame
      have hshape : acquired.shape = acquired'.shape := Except.ok.inj hsame
      rw [narrow_shape_congr hshape] at hsize
      simp only [LoadError.ofPlan, bind, Except.bind]
      rw [if_neg hsize]
      exact ⟨_, rfl, hform.trans (putLocal_sameForm hlocal (copy_shape _ _ _ _))⟩

section Leaves

variable (planner : StandardLoadPlanner α β) (reader : FileSystemReader α)

def readLeaf (target : Leaf α β) (item : ReadItem) : Except LoadError (Leaf α β) := do
  let fetched ← reader.fetchItem item
  match fetched.2 with
  | .tensor tensor => validateAndCopyTensor planner.rank item tensor target
  | .bytes _ => .error .typeError

variable {planner reader}

theorem exists_readLeaves {items : List ReadItem} {target target' : Leaf α β}
    (hform : SameForm target target')
    (h : ∀ item ∈ items, ∃ written, readLeaf planner reader target item = .ok written) :
    ∃ written, items.foldlM (readLeaf planner reader) target' = .ok written ∧
      SameForm target written := by
  induction items generalizing target' with
  | nil => exact ⟨target', rfl, hform⟩
  | cons item items ih =>
    obtain ⟨first, hfirst⟩ := h item mem_cons_self
    have hnext : ∃ written, readLeaf planner reader target' item = .ok written ∧
        SameForm target written := by
      unfold readLeaf at hfirst ⊢
      obtain ⟨fetched, hfetched, hfirst⟩ := bind_eq_ok hfirst
      rw [hfetched]
      simp only [bind, Except.bind]
      split at hfirst
      · exact validateAndCopyTensor_sameForm hform hfirst
      · cases hfirst
    obtain ⟨written, hwritten, hform'⟩ := hnext
    rw [foldlM_cons, hwritten]
    exact ih hform' fun item hitem => h item (mem_cons_of_mem _ hitem)

theorem readValue_leaf (pickle : Pickle α β) {item : ReadItem} (htype : item.type = .tensor)
    (target : Leaf α β) : readValue pickle planner reader item (some (.leaf target)) =
      (readLeaf planner reader target item).map fun written => some (.leaf written) := by
  unfold readValue readLeaf
  cases reader.fetchItem item with
  | error e => rfl
  | ok fetched =>
    simp only [bind, Except.bind, htype]
    cases fetched.2 <;> rfl

theorem readValues_leaf (pickle : Pickle α β) {items : List ReadItem}
    (htype : ∀ item ∈ items, item.type = .tensor) (target : Leaf α β) :
    items.foldlM (fun value item => readValue pickle planner reader item value)
        (some (.leaf target)) =
      (items.foldlM (readLeaf planner reader) target).map fun written => some (.leaf written) := by
  induction items generalizing target with
  | nil => rfl
  | cons item items ih =>
    rw [foldlM_cons, foldlM_cons, readValue_leaf pickle (htype item mem_cons_self)]
    cases readLeaf planner reader target item with
    | error e => rfl
    | ok written => exact ih (fun item hitem => htype item (mem_cons_of_mem _ hitem)) written

end Leaves

end HyperParallel.Checkpoint
