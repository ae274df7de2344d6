import HyperParallel.Checkpoint.OfflineMerge
import HyperParallel.Checkpoint.ByteLeaves

/-!
# What a merge restores

A save of a state dict of tensors is merged back exactly when none of its
tensors is nested and none is ragged and empty: a nested tensor is filled in
twice under one dotted name, and an empty ragged shard writes nothing.
-/

namespace HyperParallel.Checkpoint

open Foundation List
open Foundation.Nested (Diverge)
open HyperParallel.DTensor (Layout InShape InArea)

variable {α β : Type}

/-! ## Reading into one tensor -/

section OneTensor

variable (planner : StandardLoadPlanner α β) {reader : FileSystemReader α}

def InTensorFile (reader : FileSystemReader α) (key : String × List Nat) : Prop :=
  ∃ info, reader.storageData.get? key = some info ∧ endsWithAny info.relativePath [".bytes"] = false

theorem readLeaf_of_readInto {chunk : ChunkStorageMetadata} {target : Tensor α} {item : ReadItem}
    {targets : List (Tensor α)} (hfile : InTensorFile reader item.storageIndex.key)
    (h : readInto reader.tensorFile [chunk] [target] item = .ok targets) :
    ∃ written, targets = [written] ∧ written.dtype = target.dtype ∧
      readLeaf planner reader (.tensor target none) item = .ok (.tensor written none) := by
  obtain ⟨info, hinfo, hpath⟩ := hfile
  unfold readInto at h
  cases hstore : reader.tensorFile item.storageIndex.key with
  | none =>
    rw [hstore] at h
    cases h
  | some saved =>
    rw [hstore] at h
    dsimp only at h
    generalize [chunk].findIdx _ = i at h
    cases i with
    | succ i => cases h
    | zero =>
      dsimp only [getElem?_cons_zero] at h
      split at h
      · cases h
      · rename_i hsize
        cases h
        refine ⟨_, rfl, ?_, ?_⟩
        · unfold copyTensorToTarget
          split <;> rfl
        · rw [readLeaf, FileSystemReader.fetchItem, FileSystemReader.getStorageInfo_of_some hinfo]
          simp only [bind, Except.bind, hpath, Bool.false_eq_true, if_false, hstore]
          rw [validateAndCopyTensor]
          simp only [acquireLocal, LoadError.ofPlan, bind, Except.bind, if_neg hsize, putLocal]

theorem readLeaves_of_executeRead {chunk : ChunkStorageMetadata} {target : Tensor α}
    {items : List ReadItem} {result : List (Tensor α)}
    (hfile : ∀ item ∈ items, InTensorFile reader item.storageIndex.key)
    (h : executeRead reader.tensorFile [chunk] items [target] = .ok result) :
    ∃ written, result = [written] ∧ written.dtype = target.dtype ∧
      items.foldlM (readLeaf planner reader) (.tensor target none) = .ok (.tensor written none) := by
  unfold executeRead at h
  induction items generalizing target with
  | nil =>
    cases h
    exact ⟨target, rfl, rfl, rfl⟩
  | cons item items ih =>
    rw [foldlM_cons] at h
    obtain ⟨targets, hread, h⟩ := bind_eq_ok h
    obtain ⟨first, rfl, hdtype, hleaf⟩ :=
      readLeaf_of_readInto planner (hfile item mem_cons_self) hread
    obtain ⟨written, hresult, hdtype', hleaves⟩ :=
      ih (fun item hitem => hfile item (mem_cons_of_mem _ hitem)) h
    refine ⟨written, hresult, hdtype'.trans hdtype, ?_⟩
    rw [foldlM_cons, hleaf]
    exact hleaves

theorem fullChunk_within (shape : List Nat) : (fullChunk shape).Within shape where
  offsets_length := by simp [fullChunk]
  sizes_length := rfl
  element := by
    intro y hy
    have hzero : zipWith (· + ·) (replicate shape.length 0) y = y := by
      have hlength : y.length = shape.length := hy.length_eq.symm
      rw [← hlength]
      clear hy hlength
      induction y with
      | nil => rfl
      | cons pos y ih => simp [replicate_succ, ih]
    rw [fullChunk, hzero]
    exact hy

theorem exists_mergedTensor {isOnHost : StateValue α β → Bool} {name : String}
    {md : TensorStorageMetadata} {global : List Nat → α}
    (hmd : planner.metadata.stateDictMetadata.get? name = some (.tensor md))
    (hchunks : ∀ chunk ∈ md.chunks, chunk.Within md.size ∧
      InTensorFile reader (name, chunk.offsets) ∧ ∃ saved,
        reader.tensorFile (name, chunk.offsets) = some saved ∧ HoldsChunk global chunk saved)
    (hcovers : ∀ x, InShape md.size x → ∃ chunk ∈ md.chunks, InArea (chunkToArea chunk) x)
    {target : Tensor α} (htarget : target.shape = md.size) :
    ∃ items, entryReadItems planner isOnHost (name, .leaf (.tensor target none)) = .ok items ∧
      (∀ item ∈ items, item.type = .tensor ∧ InTensorFile reader item.storageIndex.key) ∧
      ∀ order : List ReadItem, order.Perm items → ∃ written,
        order.foldlM (readLeaf planner reader) (.tensor target none) = .ok (.tensor written none) ∧
          written.dtype = target.dtype ∧ HoldsChunk global (fullChunk md.size) written := by
  have hlocal : ∀ chunk ∈ [fullChunk md.size], chunk.Within md.size := by
    intro chunk hchunk
    obtain rfl := mem_singleton.mp hchunk
    exact fullChunk_within md.size
  obtain ⟨items, hitems, hbetween, hcopied⟩ := exists_coveringItems name
    (!isOnHost (.leaf (.tensor target none))) hlocal (fun chunk hchunk => (hchunks chunk hchunk).1)
    hcovers
  have hfile : ∀ item ∈ items, InTensorFile reader item.storageIndex.key := by
    intro item hitem
    obtain ⟨-, -, savedChunk, hs, -, hkey⟩ := hbetween item hitem
    rw [hkey]
    exact (hchunks savedChunk hs).2.1
  refine ⟨items, ?_, fun item hitem => ⟨(createReadItems_source hitems item hitem).2.2.2,
    hfile item hitem⟩, fun order hperm => ?_⟩
  · unfold entryReadItems
    simp only [hmd, objSize, htarget, ne_eq, not_true_eq_false, if_false, rankOwnsDtensorShard,
      if_true]
    have hchunkList : createChunkListForTensor planner.rank
        (.leaf (.tensor target none) : StateValue α β) = .ok [fullChunk target.shape] := rfl
    rw [hchunkList, htarget]
    simp only [bind, Except.bind, hitems, LoadError.ofPlan]
  · obtain ⟨result, hresult, hholds⟩ := executeRead_copied md.size (by simp)
      (fun item hitem => by
        obtain ⟨localChunk, hl, savedChunk, hs, hreads, hkey⟩ := hbetween item (hperm.subset hitem)
        obtain ⟨-, -, saved, hstore, hsaved⟩ := hchunks savedChunk hs
        exact ⟨localChunk, hl, savedChunk, saved, hreads, hkey ▸ hstore, hsaved⟩)
      (fun localChunk hl y hy => by
        obtain ⟨item, hitem, hcopies⟩ := hcopied localChunk hl y hy
        exact ⟨item, hperm.symm.subset hitem, hcopies⟩)
      (.cons htarget .nil)
    obtain ⟨written, rfl, hdtype, hread⟩ := readLeaves_of_executeRead planner
      (fun item hitem => hfile item (hperm.subset hitem)) hresult
    cases hholds with
    | cons hwritten _ => exact ⟨written, hread, hdtype, hwritten⟩

end OneTensor

/-! ## How the ranks hold a tensor -/

def Leaf.localDtype : Leaf α β → Option String
  | .dtensor held => some held.localTensor.dtype
  | .tensor held _ => some held.dtype
  | _ => Option.none

def plainChunk : Leaf α β → Option (Tensor α × ChunkStorageMetadata × List Nat)
  | .dtensor ⟨shape, none, localTensor⟩ =>
    some (localTensor, ⟨List.replicate localTensor.shape.length 0, localTensor.shape⟩, shape)
  | .tensor tensor none => some (tensor, fullChunk tensor.shape, tensor.shape)
  | .tensor tensor (some info) => some (tensor, info.chunk, info.globalShape)
  | _ => none

structure Chunked (stateDicts : List (FlatStateDict α β)) (fqn : String)
    (global : List Nat → α) (shape : List Nat) : Prop where
  held : ∀ stateDict ∈ stateDicts, ∀ value, stateDict.fqnNames.get? fqn = some value →
    ∃ leaf localTensor chunk, value = .leaf leaf ∧
      plainChunk leaf = some (localTensor, chunk, shape) ∧ chunk.Within shape ∧
      HoldsChunk global chunk localTensor
  covers : ∀ x, InShape shape x → ∃ stateDict ∈ stateDicts, ∃ leaf localTensor chunk,
    stateDict.fqnNames.get? fqn = some (.leaf leaf) ∧
      plainChunk leaf = some (localTensor, chunk, shape) ∧ InArea (chunkToArea chunk) x
  nonempty : ∃ stateDict ∈ stateDicts, ∃ value, stateDict.fqnNames.get? fqn = some value

structure SavedTensor (stateDicts : List (FlatStateDict α β)) (fqn : String)
    (tensor : Tensor α) : Prop where
  form : (∃ layout, LayoutOf layout tensor.shape ∧
      Sharded stateDicts fqn tensor.elem tensor.shape layout) ∨
    Chunked stateDicts fqn tensor.elem tensor.shape
  dtype : ∀ stateDict ∈ stateDicts, ∀ leaf, stateDict.fqnNames.get? fqn = some (.leaf leaf) →
    leaf.localDtype = some tensor.dtype

def NoEmptyRagged (stateDicts : List (FlatStateDict α β)) : Prop :=
  ∀ stateDict ∈ stateDicts, ∀ fqn shape layout localTensor,
    stateDict.fqnNames.get? fqn = some (.leaf (.dtensor ⟨shape, some layout, localTensor⟩)) →
      layout.raggedShard.isSome = true → shape.prod ≠ 0

section Held

variable {stateDicts : List (FlatStateDict α β)} {fqn : String} {global : List Nat → α}
  {shape : List Nat} {tensor : Tensor α}

section

variable {leaf : Leaf α β} {localTensor : Tensor α} {chunk : ChunkStorageMetadata}
  (h : plainChunk leaf = some (localTensor, chunk, shape))

include h

theorem leafWriteItems_plain (rank : Nat) :
    leafWriteItems rank fqn (.leaf leaf) =
      .ok [tensorWriteItem fqn chunk localTensor.dtype shape] := by
  unfold plainChunk at h
  split at h <;> cases h <;> rfl

theorem getData_plain {rank : Nat} {item : WriteItem} {stateDict : PyDict String (StateValue α β)}
    (htype : item.type = .tensor) (hget : stateDict.get? item.index.fqn = some (.leaf leaf)) :
    getData rank stateDict item = .ok (.tensor localTensor) := by
  unfold getData
  rw [hget, htype]
  unfold plainChunk at h
  split at h <;> cases h <;> rfl

end

theorem Chunked.parts (h : Chunked stateDicts fqn global shape) :
    SavedParts stateDicts fqn global shape where
  items := by
    intro rank stateDict value items hstateDict hvalue hitems item hitem
    obtain ⟨leaf, localTensor, chunk, rfl, hplain, hwithin, hholds⟩ :=
      h.held stateDict (mem_of_getElem? hstateDict) value hvalue
    rw [leafWriteItems_plain hplain] at hitems
    cases hitems
    obtain rfl := mem_singleton.mp hitem
    refine ⟨chunk, localTensor.dtype, rfl, hwithin, fun kept htype hkey => ?_⟩
    have hfqn : kept.index.fqn = fqn := congrArg Prod.fst hkey
    exact ⟨localTensor, getData_plain hplain htype (hfqn ▸ hvalue), hholds⟩
  covers := by
    intro _ x hx
    obtain ⟨stateDict, hmem, leaf, localTensor, chunk, hget, hplain, harea⟩ := h.covers x hx
    obtain ⟨rank, hstateDict⟩ := mem_iff_getElem?.mp hmem
    exact ⟨rank, stateDict, _, _, chunk, localTensor.dtype, hstateDict, hget,
      leafWriteItems_plain hplain rank, mem_singleton.mpr rfl, harea⟩

theorem SavedTensor.parts (h : SavedTensor stateDicts fqn tensor) :
    SavedParts stateDicts fqn tensor.elem tensor.shape := by
  rcases h.form with ⟨layout, hlayout, hsharded⟩ | hchunked
  · exact hsharded.parts hlayout
  · exact hchunked.parts

theorem SavedTensor.leaf (h : SavedTensor stateDicts fqn tensor) {stateDict : FlatStateDict α β}
    (hmem : stateDict ∈ stateDicts) {value : StateValue α β}
    (hvalue : stateDict.fqnNames.get? fqn = some value) :
    ∃ leaf, value = .leaf leaf ∧ leaf.isTensor = true := by
  rcases h.form with ⟨layout, -, hsharded⟩ | hchunked
  · obtain ⟨rank, hstateDict⟩ := mem_iff_getElem?.mp hmem
    by_cases hrank : rank ∈ layout.mesh.rankList
    · obtain ⟨localTensor, hget, -⟩ := hsharded.held rank stateDict hstateDict hrank
      exact ⟨_, Option.some.inj (hvalue.symm.trans hget), rfl⟩
    · rw [hsharded.elsewhere rank stateDict hstateDict hrank] at hvalue
      cases hvalue
  · obtain ⟨leaf, localTensor, chunk, rfl, hplain, -⟩ := hchunked.held stateDict hmem value hvalue
    refine ⟨leaf, rfl, ?_⟩
    unfold plainChunk at hplain
    split at hplain <;> first | rfl | cases hplain

theorem SavedTensor.held (h : SavedTensor stateDicts fqn tensor) :
    ∃ (rank : Nat) (stateDict : _) (value : _), stateDicts[rank]? = some stateDict ∧
      stateDict.fqnNames.get? fqn = some value := by
  rcases h.form with ⟨layout, hlayout, hsharded⟩ | hchunked
  · have hprod : 0 < layout.mesh.rankList.length := by
      rw [layout.mesh.ranks_ok]
      exact Nat.pos_of_ne_zero fun hzero =>
        absurd (hlayout.sizes_pos 0 (prod_eq_zero_iff.mp hzero)) (by omega)
    have hrank := getElem_mem hprod
    have hstateDict := getElem?_eq_getElem (hsharded.ranks _ hrank)
    obtain ⟨localTensor, hget, -⟩ := hsharded.held _ _ hstateDict hrank
    exact ⟨_, _, _, hstateDict, hget⟩
  · obtain ⟨stateDict, hmem, value, hvalue⟩ := hchunked.nonempty
    obtain ⟨rank, hstateDict⟩ := mem_iff_getElem?.mp hmem
    exact ⟨rank, stateDict, value, hstateDict, hvalue⟩

theorem leafWriteItems_dtype {rank : Nat} {leaf : Leaf α β} {items : List WriteItem}
    (h : leafWriteItems rank fqn (.leaf leaf) = .ok items) {item : WriteItem} (hitem : item ∈ items)
    {data : TensorData} (hdata : item.tensorData = some data) :
    data.properties.dtype = leaf.localDtype := by
  have htensor : ∀ chunk dtype size, (tensorWriteItem fqn chunk dtype size).tensorData =
      some data → data.properties.dtype = some dtype := by
    intro chunk dtype size hsome
    cases hsome
    rfl
  unfold leafWriteItems at h
  split at h
  · rename_i found heq
    cases heq
    split at h
    · cases h
      obtain rfl := mem_singleton.mp hitem
      exact htensor _ _ _ hdata
    · split at h
      · unfold createRaggedWriteItems at h
        obtain ⟨boxes, -, rfl⟩ := map_eq_ok h
        obtain ⟨box, -, rfl⟩ := mem_map.mp hitem
        exact htensor _ _ _ hdata
      · obtain ⟨offsets, -, rfl⟩ := map_eq_ok h
        obtain rfl := mem_singleton.mp hitem
        exact htensor _ _ _ hdata
  · rename_i heq
    cases heq
    cases h
    obtain rfl := mem_singleton.mp hitem
    exact htensor _ _ _ hdata
  · rename_i heq
    cases heq
    cases h
    obtain rfl := mem_singleton.mp hitem
    exact htensor _ _ _ hdata
  · cases h
    obtain rfl := mem_singleton.mp hitem
    cases hdata

theorem exists_inShape {sizes : List Nat} (h : sizes.prod ≠ 0) : ∃ y, InShape sizes y := by
  induction sizes with
  | nil => exact ⟨[], .nil⟩
  | cons size sizes ih =>
    rw [prod_cons, Nat.mul_ne_zero_iff] at h
    obtain ⟨y, hy⟩ := ih h.2
    exact ⟨0 :: y, .cons (Nat.pos_of_ne_zero h.1) hy⟩

theorem InShape.prod_ne_zero {sizes y : List Nat} (h : InShape sizes y) : sizes.prod ≠ 0 := by
  have hlt := MixedRadix.value_lt h.flip
  omega

theorem leafWriteItems_raggedEmpty {rank : Nat} {layout : Layout} {localTensor : Tensor α}
    (hragged : layout.raggedShard.isSome = true)
    (hempty : shape.prod = 0) {items : List WriteItem}
    (h : leafWriteItems rank fqn (.leaf (.dtensor ⟨shape, some layout, localTensor⟩) :
      StateValue α β) = .ok items) : items = [] := by
  unfold leafWriteItems at h
  dsimp only at h
  rw [if_pos hragged] at h
  unfold createRaggedWriteItems at h
  obtain ⟨boxes, hboxes, rfl⟩ := map_eq_ok h
  obtain ⟨interval, rawBoxes, -, hraw, rfl⟩ := computeRaggedBoxes_consecutive hboxes
  cases rawBoxes with
  | nil => rfl
  | cons box rawBoxes =>
    obtain ⟨y, hy⟩ := exists_inShape (Nat.pos_iff_ne_zero.mp hraw.1.nonempty)
    exact absurd hempty (InShape.prod_ne_zero (hraw.1.element y hy).1)

end Held

/-! ## The metadata of such a save -/

section Metadata

variable {savePlanner : StandardSavePlanner} {saved : List (StateDict α β)}
  {stateDicts : List (FlatStateDict α β)} {finals : List SavePlan} {metadata : Metadata}
  {torchDtype : String → Option String} {whole : StateDict α β}

structure ShardsOf (torchDtype : String → Option String) (whole : StateDict α β)
    (saved : List (StateDict α β)) (stateDicts : List (FlatStateDict α β)) : Prop where
  names : ((traverseStateDict whole.value).map visitName).Nodup
  leaves : ∀ visit ∈ traverseStateDict whole.value, ∃ tensor, visit.2 = .leaf (.tensor tensor none) ∧
    SavedTensor stateDicts (visitName visit) tensor ∧
      strToDtype torchDtype (some tensor.dtype) = .ok tensor.dtype
  within : ∀ stateDict ∈ saved, ∀ visit ∈ traverseStateDict stateDict.value,
    ∃ value, (visit.1, value) ∈ traverseStateDict whole.value

theorem mergePlannerData_get? {plans : List SavePlan} {merged : PyDict String ObjectPath}
    (h : mergePlannerData plans = .ok merged) (name : String) :
    (∀ path, merged.get? name = some path → ∃ plan ∈ plans, ∃ mapping,
      plan.plannerData = some mapping ∧ mapping.get? name = some path) ∧
    ∀ plan ∈ plans, ∀ mapping, plan.plannerData = some mapping → ∀ path,
      mapping.get? name = some path → ∃ path', merged.get? name = some path' := by
  refine foldlM_invariant (fun (seen : List SavePlan) (merged : PyDict String ObjectPath) =>
    (∀ path, merged.get? name = some path → ∃ plan ∈ seen, ∃ mapping,
      plan.plannerData = some mapping ∧ mapping.get? name = some path) ∧
    ∀ plan ∈ seen, ∀ mapping, plan.plannerData = some mapping → ∀ path,
      mapping.get? name = some path → ∃ path', merged.get? name = some path') ?_ ?_ h
  · rintro seen merged plan merged' ⟨hfrom, hto⟩ hstep
    split at hstep
    · cases hstep
    · rename_i mapping hmapping
      cases hstep
      have hget := PyDict.get?_update merged mapping name
      cases hown : mapping.get? name with
      | some path =>
        rw [hown] at hget
        refine ⟨fun path' hpath' => ?_, fun _ _ _ _ _ _ => ⟨path, hget⟩⟩
        obtain rfl : path = path' := Option.some.inj (hget.symm.trans hpath')
        exact ⟨plan, by simp, mapping, hmapping, hown⟩
      | none =>
        rw [hown] at hget
        refine ⟨fun path hpath => ?_, fun other hother otherMapping hotherMapping path hpath => ?_⟩
        · obtain ⟨old, hold, hrest⟩ := hfrom path (hget.symm.trans hpath)
          exact ⟨old, mem_append_left _ hold, hrest⟩
        · rcases mem_append.mp hother with hold | hnew
          · obtain ⟨path', hpath'⟩ := hto other hold otherMapping hotherMapping path hpath
            exact ⟨path', hget.trans hpath'⟩
          · obtain rfl := mem_singleton.mp hnew
            obtain rfl := Option.some.inj (hmapping.symm.trans hotherMapping)
            rw [hown] at hpath
            cases hpath
  · exact ⟨fun path hpath => by simp at hpath, by simp⟩

theorem Saved.plannerData (hsave : Saved savePlanner stateDicts finals metadata)
    (hpos : 0 < stateDicts.length) (hflatten : savePlanner.flattenStateDict = true) :
    ∃ data, metadata.plannerData = some data ∧ ∀ name,
      (∀ path, data.get? name = some path → ∃ stateDict ∈ stateDicts,
        stateDict.mappings.get? name = some path) ∧
      ∀ stateDict ∈ stateDicts, ∀ path, stateDict.mappings.get? name = some path →
        ∃ path', data.get? name = some path' := by
  obtain ⟨plans, masks, hlength, hlocal, hshared, -⟩ := hsave.exists_shared hpos
  unfold sharedPlan at hshared
  obtain ⟨_, -, hshared⟩ := bind_eq_ok hshared
  obtain ⟨_, -, hshared⟩ := bind_eq_ok hshared
  obtain ⟨plannerData, hdata, hshared⟩ := bind_eq_ok hshared
  cases hshared
  unfold globalPlannerData at hdata
  rw [if_pos hflatten] at hdata
  obtain ⟨merged, hmerged, rfl⟩ := map_eq_ok hdata
  have hplanOf {rank : Nat} {stateDict : FlatStateDict α β} {plan : SavePlan}
      (hstateDict : stateDicts[rank]? = some stateDict) (hplan : plans[rank]? = some plan) :
      plan.plannerData = some stateDict.mappings := by
    have hbuild := hlocal rank stateDict plan hstateDict hplan
    unfold buildLocalPlan at hbuild
    obtain ⟨_, -, rfl⟩ := map_eq_ok hbuild
    exact if_pos hflatten
  refine ⟨merged, rfl, fun name => ⟨fun path hpath => ?_, fun stateDict hmem path hpath => ?_⟩⟩
  · obtain ⟨plan, hplan, mapping, hmapping, hget⟩ := (mergePlannerData_get? hmerged name).1 path hpath
    obtain ⟨rank, hat⟩ := mem_iff_getElem?.mp hplan
    have hrank := (List.getElem?_eq_some_iff.mp hat).1
    have hstateDict := List.getElem?_eq_getElem (hlength ▸ hrank)
    rw [hplanOf hstateDict hat] at hmapping
    cases hmapping
    exact ⟨_, mem_of_getElem? hstateDict, hget⟩
  · obtain ⟨rank, hstateDict⟩ := mem_iff_getElem?.mp hmem
    have hrank := (List.getElem?_eq_some_iff.mp hstateDict).1
    have hat := List.getElem?_eq_getElem (hlength.symm ▸ hrank)
    exact (mergePlannerData_get? hmerged name).2 _ (mem_of_getElem? hat) _
      (hplanOf hstateDict hat) path hpath

variable {name : String}

theorem Saved.metadata_held (hsave : Saved savePlanner stateDicts finals metadata)
    (hpos : 0 < stateDicts.length) {md : StorageMetadata}
    (hmd : metadata.stateDictMetadata.get? name = some md) :
    ∃ stateDict ∈ stateDicts, ∃ value, stateDict.fqnNames.get? name = some value ∧
      (value.isTensor = true → ∃ info, md = .tensor info) := by
  cases md with
  | tensor info =>
    obtain ⟨rank, stateDict, value, -, -, -, hstateDict, hvalue, -⟩ :=
      hsave.metadata_tensor hpos hmd
    exact ⟨stateDict, mem_of_getElem? hstateDict, value, hvalue, fun _ => ⟨info, rfl⟩⟩
  | bytes =>
    obtain ⟨entries, shared, hregistered, hmetadata, horigin, -⟩ := hsave.registered hpos name
    rw [hmd] at hmetadata
    cases hinfo : shared.1.get? name with
    | some info =>
      rw [hinfo] at hmetadata
      cases hmetadata
    | none =>
      rw [hinfo] at hmetadata
      obtain ⟨entry, hentry, htype, hname⟩ := (hregistered.bytes _ hmetadata.symm).2
      obtain ⟨rank, stateDict, value, items, hstateDict, hvalue, hitems, hin⟩ :=
        horigin entry hentry
      rw [hname] at hvalue hitems
      refine ⟨stateDict, mem_of_getElem? hstateDict, value, hvalue, fun htensor => ?_⟩
      have hwrong := (leafWriteItems_tensor hitems htensor entry.2 hin).2.1
      rw [htype] at hwrong
      cases hwrong

section

variable (hshards : ShardsOf torchDtype whole saved stateDicts)

include hshards

theorem ShardsOf.visit (hflat : Flattened saved stateDicts) {stateDict : FlatStateDict α β}
    (hmem : stateDict ∈ stateDicts) {value : StateValue α β}
    (hvalue : stateDict.fqnNames.get? name = some value) :
    ∃ visit ∈ traverseStateDict whole.value, visitName visit = name ∧
      stateDict.mappings.get? name = some visit.1 := by
  obtain ⟨source, hsource, hok⟩ := exists_of_forall₂_right hflat hmem
  obtain ⟨path, hvisit, hname⟩ := (get?_fqnNames_iff hok).mp hvalue
  obtain ⟨value', hwhole⟩ := hshards.within source hsource _ hvisit
  exact ⟨_, hwhole, hname, (get?_mappings_iff hok).mpr ⟨value, hvisit, hname⟩⟩

theorem ShardsOf.unique {visit other : ObjectPath × StateValue α β}
    (hvisit : visit ∈ traverseStateDict whole.value)
    (hother : other ∈ traverseStateDict whole.value) (hname : visitName visit = visitName other) :
    visit = other :=
  List.inj_on_of_nodup_map hshards.names hvisit hother hname

theorem ShardsOf.isTensor (hflat : Flattened saved stateDicts) {stateDict : FlatStateDict α β}
    (hmem : stateDict ∈ stateDicts) {value : StateValue α β}
    (hvalue : stateDict.fqnNames.get? name = some value) : value.isTensor = true := by
  obtain ⟨visit, hvisit, rfl, -⟩ := hshards.visit hflat hmem hvalue
  obtain ⟨tensor, -, hsaved, -⟩ := hshards.leaves visit hvisit
  obtain ⟨leaf, rfl, hleaf⟩ := hsaved.leaf hmem hvalue
  exact hleaf

theorem ShardsOf.registered (hflat : Flattened saved stateDicts)
    (hsave : Saved savePlanner stateDicts finals metadata) (hpos : 0 < stateDicts.length)
    {data : PyDict String ObjectPath}
    (hdata : ∀ name,
      (∀ path, data.get? name = some path →
        ∃ stateDict ∈ stateDicts, stateDict.mappings.get? name = some path) ∧
      ∀ stateDict ∈ stateDicts, ∀ path, stateDict.mappings.get? name = some path →
        ∃ path', data.get? name = some path')
    {md : StorageMetadata} (hmd : metadata.stateDictMetadata.get? name = some md) :
    ∃ visit ∈ traverseStateDict whole.value, visitName visit = name ∧
      data.get? name = some visit.1 ∧ ∃ info, md = .tensor info := by
  obtain ⟨stateDict, hmem, value, hvalue, hkind⟩ := hsave.metadata_held hpos hmd
  obtain ⟨visit, hvisit, hname, hmapping⟩ := hshards.visit hflat hmem hvalue
  obtain ⟨path, hpath⟩ := (hdata name).2 stateDict hmem _ hmapping
  obtain ⟨other, hother, hotherMapping⟩ := (hdata name).1 path hpath
  obtain ⟨source, hsource, hok⟩ := exists_of_forall₂_right hflat hother
  obtain ⟨found, hfound, hfoundName⟩ := (get?_mappings_iff hok).mp hotherMapping
  obtain ⟨value', hwhole⟩ := hshards.within source hsource _ hfound
  have hsame := hshards.unique hwhole hvisit (hfoundName.trans hname.symm)
  obtain rfl : path = visit.1 := congrArg Prod.fst hsame
  exact ⟨visit, hvisit, hname, hpath, hkind (hshards.isTensor hflat hmem hvalue)⟩

end

theorem traverse_head {visit : ObjectPath × StateValue α β}
    (h : visit ∈ traverseStateDict whole.value) : ∃ head rest, visit.1 = .name head :: rest := by
  obtain ⟨hne, hget⟩ := traverse_get? h
  cases hpath : visit.1 with
  | nil => exact absurd hpath hne
  | cons key rest =>
    rw [hpath, Nested.get?_cons, Option.bind_eq_some_iff] at hget
    obtain ⟨child, hchild, -⟩ := hget
    cases key with
    | name head => exact ⟨head, rest, rfl⟩
    | position i => cases hchild

theorem ShardsOf.placeable (hshards : ShardsOf torchDtype whole saved stateDicts)
    (hflat : Flattened saved stateDicts)
    (hsave : Saved savePlanner stateDicts finals metadata)
    (hpos : 0 < stateDicts.length) (hflatten : savePlanner.flattenStateDict = true) :
    Placeable metadata := by
  obtain ⟨data, hplanner, hdata⟩ := hsave.plannerData hpos hflatten
  have hvisit {name : String} {path : ObjectPath} (hpath : data.get? name = some path) :
      ∃ value, (path, value) ∈ traverseStateDict whole.value ∧ dottedName path = name := by
    obtain ⟨stateDict, hmem, hmapping⟩ := (hdata name).1 path hpath
    obtain ⟨source, hsource, hok⟩ := exists_of_forall₂_right hflat hmem
    obtain ⟨value, hvisit, hname⟩ := (get?_mappings_iff hok).mp hmapping
    obtain ⟨value', hwhole⟩ := hshards.within source hsource _ hvisit
    exact ⟨value', hwhole, hname⟩
  refine ⟨fun name md hmd => ?_, fun name md hmd => ?_, ?_⟩
  · obtain ⟨-, -, -, -, hinfo⟩ := hshards.registered hflat hsave hpos hdata hmd
    exact hinfo
  · obtain ⟨visit, hmem, hname, hpath, -⟩ := hshards.registered hflat hsave hpos hdata hmd
    obtain ⟨head, rest, hhead⟩ := traverse_head hmem
    rw [visitName, hhead] at hname
    exact ⟨data, head, rest, hplanner, hhead ▸ hpath, hname⟩
  · intro data' name name' path path' hdata' hpath hpath' hne
    obtain rfl : data = data' := Option.some.inj (hplanner.symm.trans hdata')
    obtain ⟨value, hwhole, rfl⟩ := hvisit hpath
    obtain ⟨value', hwhole', rfl⟩ := hvisit hpath'
    exact traverse_diverge hwhole hwhole' fun heq => hne (by rw [(Prod.mk.inj heq).1])

section

variable {tensor : Tensor α} (h : SavedTensor stateDicts name tensor)
  (hsave : Saved savePlanner stateDicts finals metadata) (hpos : 0 < stateDicts.length)

include h hsave hpos

theorem SavedTensor.info {info : TensorStorageMetadata}
    (hinfo : metadata.stateDictMetadata.get? name = some (.tensor info)) :
    info.size = tensor.shape ∧ info.properties.dtype = some tensor.dtype := by
  obtain ⟨rank, stateDict, value, items, item, data, hstateDict, hvalue, hitems, hitem, hdata, hsize,
    hproperties⟩ := hsave.metadata_tensor hpos hinfo
  obtain ⟨chunk, dtype, rfl, -⟩ := h.parts.items rank stateDict value items hstateDict hvalue hitems
    item hitem
  have hmem := mem_of_getElem? hstateDict
  obtain ⟨leaf, rfl, -⟩ := h.leaf hmem hvalue
  constructor
  · rw [← hsize]
    cases hdata
    rfl
  · rw [← hproperties, leafWriteItems_dtype hitems hitem hdata]
    exact h.dtype stateDict hmem leaf hvalue

theorem SavedTensor.exists_info (hragged : NoEmptyRagged stateDicts) :
    ∃ info, metadata.stateDictMetadata.get? name = some (.tensor info) := by
  obtain ⟨plans, masks, hlength, hlocal, -⟩ := hsave.exists_shared hpos
  have hok : ∀ (rank : Nat) stateDict value, stateDicts[rank]? = some stateDict →
      stateDict.fqnNames.get? name = some value →
        ∃ items, leafWriteItems rank name value = .ok items := by
    intro rank stateDict value hstateDict hvalue
    have hrank := (List.getElem?_eq_some_iff.mp hstateDict).1
    have hplan := List.getElem?_eq_getElem (hlength.symm ▸ hrank)
    exact exists_leafWriteItems (hlocal rank stateDict _ hstateDict hplan) hvalue
  have htensors : ∀ stateDict ∈ stateDicts, ∀ value, stateDict.fqnNames.get? name = some value →
      value.isTensor = true := by
    intro stateDict hmem value hvalue
    obtain ⟨leaf, rfl, hleaf⟩ := h.leaf hmem hvalue
    exact hleaf
  suffices hitem : ∃ (rank : Nat) (stateDict : _) (value : _) (items : _) (item : _),
      stateDicts[rank]? = some stateDict ∧ stateDict.fqnNames.get? name = some value ∧
      leafWriteItems rank name value = .ok items ∧ item ∈ items by
    obtain ⟨rank, stateDict, value, items, item, hstateDict, hvalue, hitems, hitem⟩ := hitem
    exact hsave.exists_tensor htensors hstateDict hvalue hitems hitem
  obtain ⟨rank, stateDict, value, hstateDict, hvalue⟩ := h.held
  obtain ⟨items, hitems⟩ := hok rank stateDict value hstateDict hvalue
  have hmem := mem_of_getElem? hstateDict
  rcases h.form with ⟨layout, hlayout, hsharded⟩ | hchunked
  · by_cases hrank : rank ∈ layout.mesh.rankList
    · obtain ⟨localTensor, hget, hholds⟩ := hsharded.held rank stateDict hstateDict hrank
      obtain rfl := Option.some.inj (hget.symm.trans hvalue)
      by_cases hkind : layout.raggedShard.isSome = true
      · obtain ⟨x, hx⟩ := exists_inShape (hragged stateDict hmem _ _ _ _ hget hkind)
        obtain ⟨rank', stateDict', value', items', chunk, dtype, hstateDict', hvalue', hitems',
          hin, -⟩ := h.parts.covers hok x hx
        exact ⟨rank', stateDict', value', items', _, hstateDict', hvalue', hitems', hin⟩
      · have hitems' := hitems
        unfold leafWriteItems at hitems'
        dsimp only at hitems'
        rw [if_neg hkind] at hitems'
        obtain ⟨offsets, -, rfl⟩ := map_eq_ok hitems'
        exact ⟨rank, stateDict, _, _, _, hstateDict, hvalue, hitems, mem_singleton.mpr rfl⟩
    · rw [hsharded.elsewhere rank stateDict hstateDict hrank] at hvalue
      cases hvalue
  · obtain ⟨leaf, localTensor, chunk, rfl, hplain, -⟩ := hchunked.held stateDict hmem value hvalue
    exact ⟨rank, stateDict, _, _, _, hstateDict, hvalue, leafWriteItems_plain hplain rank,
      mem_singleton.mpr rfl⟩

end

theorem ShardsOf.noEmptyRagged (hshards : ShardsOf torchDtype whole saved stateDicts)
    (hflat : Flattened saved stateDicts) (hsave : Saved savePlanner stateDicts finals metadata)
    (hpos : 0 < stateDicts.length)
    (hall : ∀ visit ∈ traverseStateDict whole.value,
      ∃ info, metadata.stateDictMetadata.get? (visitName visit) = some (.tensor info)) :
    NoEmptyRagged stateDicts := by
  intro stateDict hmem name shape layout localTensor hvalue hragged hempty
  obtain ⟨visit, hvisit, rfl, -⟩ := hshards.visit hflat hmem hvalue
  obtain ⟨tensor, -, hsaved, -⟩ := hshards.leaves visit hvisit
  obtain ⟨info, hinfo⟩ := hall visit hvisit
  obtain ⟨rank, hstateDict⟩ := mem_iff_getElem?.mp hmem
  rcases hsaved.form with ⟨found, hlayout, hsharded⟩ | hchunked
  · have hlayoutOf {rank : Nat} {stateDict : FlatStateDict α β} {value : StateValue α β}
        (hat : stateDicts[rank]? = some stateDict)
        (hget : stateDict.fqnNames.get? (visitName visit) = some value) :
        ∃ localTensor, value = .leaf (.dtensor ⟨tensor.shape, some found, localTensor⟩) := by
      by_cases hrank : rank ∈ found.mesh.rankList
      · obtain ⟨localTensor, hheld, -⟩ := hsharded.held rank stateDict hat hrank
        exact ⟨localTensor, Option.some.inj (hget.symm.trans hheld)⟩
      · rw [hsharded.elsewhere rank stateDict hat hrank] at hget
        cases hget
    obtain ⟨localTensor', heq⟩ := hlayoutOf hstateDict hvalue
    cases heq
    -- The metadata has the tensor from an item, and no rank has one.
    obtain ⟨rank', stateDict', value, items, item, -, hstateDict', hvalue', hitems, hitem, -⟩ :=
      hsave.metadata_tensor hpos hinfo
    obtain ⟨localTensor', rfl⟩ := hlayoutOf hstateDict' hvalue'
    rw [leafWriteItems_raggedEmpty hragged hempty hitems] at hitem
    cases hitem
  · obtain ⟨leaf, _, _, heq, hplain, -⟩ := hchunked.held stateDict hmem _ hvalue
    cases heq
    cases hplain

end Metadata

/-! ## The merge -/

section Merge

variable {savePlanner : StandardSavePlanner} {saved : List (StateDict α β)}
  {stateDicts : List (FlatStateDict α β)} {finals : List SavePlan} {metadata : Metadata}
  {torchDtype : String → Option String} {uninitialized : List Nat → α} {bytesMetadata : β}
  {setItem : TensorSetItem α β} {pickle : Pickle α β} {isOnHost : StateValue α β → Bool}
  {whole : StateDict α β} {tensorKey : MetadataIndex → String}
  {tensorFile : String × List Nat → Option (Tensor α)} {reader : FileSystemReader α}

theorem ShardsOf.inTensorFile (hshards : ShardsOf torchDtype whole saved stateDicts)
    (hflat : Flattened saved stateDicts) (hsave : Saved savePlanner stateDicts finals metadata)
    (hranks : finals.length = stateDicts.length)
    (hwritten : writeCheckpoint pickle tensorKey stateDicts finals tensorFile = .ok reader)
    {rank : Nat} {final : SavePlan} (hfinal : finals[rank]? = some final) {item : WriteItem}
    (hitem : item ∈ final.items) (hdata : item.tensorData.isSome = true) :
    InTensorFile reader item.index.key := by
  have hrank : rank < stateDicts.length := hranks ▸ (List.getElem?_eq_some_iff.mp hfinal).1
  obtain ⟨info, hinfo⟩ := writeCheckpoint_located hwritten hfinal hrank hitem (.inr hdata)
  refine ⟨info, hinfo, ?_⟩
  obtain ⟨writer, stateDict, writerFinal, hstateDict, hwriterFinal, hwrote⟩ :=
    writeCheckpoint_storageData hwritten hinfo
  rcases hwrote with ⟨bytes, hbytes, -⟩ | ⟨-, -, -, -, hpath⟩
  · obtain ⟨hin, htype⟩ := mem_filter.mp hbytes
    have htype : bytes.type = .byteIo := by simpa using htype
    obtain ⟨plans, hglobal, hlocal⟩ := hsave.globalSave
      (length_pos_of_mem (mem_of_getElem? hstateDict)) hranks
    obtain ⟨plan, hplan, hown⟩ := hglobal.own_items writer writerFinal hwriterFinal
    obtain ⟨original, horiginal, hsame, -⟩ := hown bytes hin
    obtain ⟨plan', hplan', hbuild⟩ := hlocal writer stateDict hstateDict
    obtain rfl : plan = plan' := Option.some.inj (hplan.symm.trans hplan')
    obtain ⟨value, items, hvalue, hitems, hmem⟩ := (mem_buildLocalPlan hbuild).mp horiginal
    have htensor := hshards.isTensor hflat (mem_of_getElem? hstateDict) hvalue
    have hwrong := (leafWriteItems_tensor hitems htensor original hmem).2.1
    rw [← hsame, htype] at hwrong
    cases hwrong
  · rw [hpath]
    exact endsWith_tensorFileName writer

theorem ShardsOf.exists_read (hshards : ShardsOf torchDtype whole saved stateDicts)
    (isOnHost : StateValue α β → Bool) (hflat : Flattened saved stateDicts) (hsave : Saved savePlanner stateDicts finals metadata)
    (hranks : finals.length = stateDicts.length) (hstored : Stored stateDicts finals tensorFile)
    (hwritten : writeCheckpoint pickle tensorKey stateDicts finals tensorFile = .ok reader)
    {planner : StandardLoadPlanner α β} (hmetadata : planner.metadata = metadata)
    {name : String} {tensor : Tensor α} (hsaved : SavedTensor stateDicts name tensor)
    {info : TensorStorageMetadata}
    (hinfo : metadata.stateDictMetadata.get? name = some (.tensor info)) (target : Tensor α)
    (htarget : target.shape = info.size) :
    ∃ items, entryReadItems planner isOnHost (name, .leaf (.tensor target none)) = .ok items ∧
      (∀ item ∈ items, item.type = .tensor ∧ InTensorFile reader item.storageIndex.key) ∧
      ∀ order : List ReadItem, order.Perm items → ∃ written,
        order.foldlM (readLeaf planner reader) (.tensor target none) = .ok (.tensor written none) ∧
          written.dtype = target.dtype ∧
          HoldsChunk tensor.elem (fullChunk tensor.shape) written := by
  have hpos : 0 < stateDicts.length := by
    obtain ⟨rank, stateDict, value, hstateDict, -⟩ := hsaved.held
    have hrank := (List.getElem?_eq_some_iff.mp hstateDict).1
    omega
  have hsize := (hsaved.info hsave hpos hinfo).1
  have hchunksEq : metadata.chunks name = info.chunks := by rw [Metadata.chunks, hinfo]
  have htensorFile : reader.tensorFile = tensorFile := by
    obtain ⟨written, rfl, -⟩ := writeCheckpoint_ranks hwritten
    rfl
  rw [← hsize]
  refine exists_mergedTensor planner (hmetadata ▸ hinfo) (fun chunk hchunk => ?_) (fun x hx => ?_)
    htarget
  · rw [← hchunksEq] at hchunk
    obtain ⟨hwithin, rank, stateDict, final, kept, found, hstateDict, hfinal, hkept, hdata, hkey,
      hget, hholds⟩ := hsave.exists_part hpos hsaved.parts hchunk
    have hfile := hshards.inTensorFile hflat hsave hranks hwritten hfinal hkept hdata
    rw [hkey] at hfile
    refine ⟨hsize ▸ hwithin, hfile, found, ?_, hholds⟩
    rw [htensorFile, ← hkey]
    exact hstored rank stateDict final kept found hstateDict hfinal hkept hget
  · rw [← hchunksEq]
    exact hsave.parts_cover hpos hsaved.parts (hsize ▸ hx)

theorem dcpToFullStateDict_eq_ok {merged : StateValue α β}
    (h : dcpToFullStateDict torchDtype uninitialized bytesMetadata setItem pickle isOnHost metadata
      reader = .ok merged) :
    ∃ state planner final,
      populate torchDtype uninitialized bytesMetadata setItem metadata = .ok state ∧
      configureLoadPlanner 0 state metadata = .ok planner ∧
      load pickle setItem isOnHost planner reader = .ok final ∧
      merged = final.originalStateDict := by
  obtain ⟨state, hstate, h⟩ := bind_eq_ok h
  obtain ⟨planner, hplanner, h⟩ := bind_eq_ok h
  obtain ⟨final, hfinal, h⟩ := bind_eq_ok h
  cases h
  exact ⟨state, planner, final, hstate, liftLoad_eq_ok hplanner, liftLoad_eq_ok hfinal, rfl⟩

theorem ShardsOf.topLevel (hshards : ShardsOf torchDtype whole saved stateDicts)
    (hflat : Flattened saved stateDicts) (hsave : Saved savePlanner stateDicts finals metadata)
    (hpos : 0 < stateDicts.length) (hflatten : savePlanner.flattenStateDict = true)
    (hshort : ∀ visit ∈ traverseStateDict whole.value,
      (∃ md, metadata.stateDictMetadata.get? (visitName visit) = some md) → visit.1.length = 1) :
    TopLevel torchDtype metadata := by
  intro name md hmd
  obtain ⟨data, hplanner, hdata⟩ := hsave.plannerData hpos hflatten
  obtain ⟨visit, hvisit, rfl, hpath, info, rfl⟩ := hshards.registered hflat hsave hpos hdata hmd
  obtain ⟨tensor, -, hsaved, hdtype⟩ := hshards.leaves visit hvisit
  refine ⟨info, tensor.dtype, data, rfl, (hsaved.info hsave hpos hmd).2, hdtype, hplanner, ?_⟩
  obtain ⟨head, rest, hhead⟩ := traverse_head hvisit
  have hlength := hshort visit hvisit ⟨_, hmd⟩
  rw [hhead, length_cons, Nat.add_eq_right, length_eq_zero_iff] at hlength
  rw [hpath, visitName, hhead, hlength, dottedName_singleton]
  rfl

structure MergePlanned (pickle : Pickle α β) (setItem : TensorSetItem α β)
    (isOnHost : StateValue α β → Bool) (reader : FileSystemReader α) (filled : StateDict α β)
    (planner : StandardLoadPlanner α β) (order : List ReadItem) : Prop where
  entries : ∀ path value, (path, value) ∈ traverseStateDict filled.value → ∃ items,
    entryReadItems planner isOnHost (dottedName path, value) = .ok items ∧
      (ownItemsOf (dottedName path) order).Perm items
  others : ∀ name, planner.stateDict.get? name = none → ownItemsOf name order = []
  returned : ∀ final, load pickle setItem isOnHost planner reader = .ok final →
    Agrees planner final ∧ ∀ fqn, EntryRead pickle planner reader (ownItemsOf fqn order)
      (planner.stateDict.get? fqn) (final.stateDict.get? fqn)
  returns : (∀ fqn, ∃ value, EntryRead pickle planner reader (ownItemsOf fqn order)
      (planner.stateDict.get? fqn) value) →
    ∃ final, load pickle setItem isOnHost planner reader = .ok final

theorem exists_mergePlanned (pickle : Pickle α β) (setItem : TensorSetItem α β)
    (isOnHost : StateValue α β → Bool) (reader : FileSystemReader α) {filled : StateDict α β}
    {planner : StandardLoadPlanner α β}
    (hconf : Configured planner filled metadata)
    (hentries : ∀ path value, (path, value) ∈ traverseStateDict filled.value → ∃ items,
      entryReadItems planner isOnHost (dottedName path, value) = .ok items ∧
        ∀ item ∈ items, InTensorFile reader item.storageIndex.key) :
    ∃ order, MergePlanned pickle setItem isOnHost reader filled planner order := by
  obtain ⟨plan, hplan⟩ := @exists_buildLocalPlan _ _ planner isOnHost fun fqn obj hobj => by
    obtain ⟨path, hvisit, rfl⟩ := (hconf.entry_iff fqn obj).mp hobj
    obtain ⟨items, hitems, -⟩ := hentries path obj hvisit
    exact ⟨items, hitems⟩
  obtain ⟨hsource, hown⟩ := buildLocalPlan_own hplan
  have hlocates : reader.Locates plan.items := by
    intro item hitem
    obtain ⟨-, obj, hobj⟩ := hsource item hitem
    obtain ⟨path, hvisit, hname⟩ := (hconf.entry_iff _ obj).mp hobj
    obtain ⟨items, hitems, hfile⟩ := hentries path obj hvisit
    have hok := hown _ obj hobj
    rw [← hname, hitems] at hok
    have hmem : item ∈ items := by
      rw [Except.ok.inj hok]
      exact mem_filter.mpr ⟨hitem, by simp [hname]⟩
    obtain ⟨info, hinfo, -⟩ := hfile item hmem
    exact ⟨info, hinfo⟩
  obtain ⟨order, hperm, hreturned, hreturns⟩ := load_entries pickle setItem
    hconf.paths hconf.agrees hplan hlocates
  refine ⟨order, fun path value hvisit => ?_, fun name hnone => ?_, hreturned, hreturns⟩
  · exact ⟨_, hown _ value ((hconf.entry_iff _ value).mpr ⟨path, hvisit, rfl⟩),
      ownItemsOf_perm _ hperm⟩
  · apply ownItemsOf_of_none
    rintro item hitem rfl
    obtain ⟨-, obj, hobj⟩ := hsource item (hperm.subset hitem)
    rw [hnone] at hobj
    cases hobj

def HoldsWhole (whole : StateDict α β) (merged : StateValue α β) : Prop :=
  ∀ path tensor, (path, .leaf (.tensor tensor none)) ∈ traverseStateDict whole.value →
    ∃ found, merged.get? path = some (.leaf (.tensor found none)) ∧ found.dtype = tensor.dtype ∧
      HoldsChunk tensor.elem (fullChunk tensor.shape) found

theorem ShardsOf.exists_flatMerge (hshards : ShardsOf torchDtype whole saved stateDicts)
    (hflat : Flattened saved stateDicts) (hsave : Saved savePlanner stateDicts finals metadata)
    (hpos : 0 < stateDicts.length) (hranks : finals.length = stateDicts.length)
    (hflatten : savePlanner.flattenStateDict = true)
    (hwritten : writeCheckpoint pickle tensorKey stateDicts finals tensorFile = .ok reader)
    (hstored : Stored stateDicts finals tensorFile) (uninitialized : List Nat → α)
    (bytesMetadata : β) (setItem : TensorSetItem α β) (isOnHost : StateValue α β → Bool) :
    ∃ planner order, configureLoadPlanner 0
        (emptyStateDict uninitialized bytesMetadata metadata).value metadata = .ok planner ∧
      MergePlanned pickle setItem isOnHost reader
        (emptyStateDict uninitialized bytesMetadata metadata) planner order := by
  obtain ⟨data, -, hdata⟩ := hsave.plannerData hpos hflatten
  obtain ⟨flat, hempty⟩ := @exists_flat_emptyStateDict _ _ uninitialized bytesMetadata metadata
  have hplanner : configureLoadPlanner 0
      (emptyStateDict uninitialized bytesMetadata metadata).value metadata = .ok {
        rank := 0
        metadata := metadata
        originalStateDict := (emptyStateDict uninitialized bytesMetadata metadata).value
        stateDict := flat.fqnNames
        nameMapping := flat.mappings } := by
    rw [configureLoadPlanner, hempty]
    rfl
  obtain ⟨order, horder⟩ := exists_mergePlanned pickle setItem isOnHost reader
    (configured hplanner) (fun path value hvisit => by
      obtain ⟨name, md, rfl, hmd, rfl⟩ := mem_traverse_emptyStateDict.mp hvisit
      obtain ⟨visit, hmem, rfl, -, info, rfl⟩ := hshards.registered hflat hsave hpos hdata hmd
      obtain ⟨tensor, -, hsaved, -⟩ := hshards.leaves visit hmem
      obtain ⟨items, hitems, hfile, -⟩ := hshards.exists_read isOnHost hflat hsave hranks hstored
        hwritten (configured hplanner).metadata_eq hsaved hmd
        ⟨info.properties.dtype.getD "", info.size, uninitialized⟩ rfl
      rw [dottedName_singleton]
      exact ⟨items, hitems, fun item hitem => (hfile item hitem).2⟩)
  exact ⟨_, order, hplanner, horder⟩

/--
A merge gives back every tensor exactly when all of them are at the top level of the state dict
and none is ragged and without elements.
-/
theorem dcpToFullStateDict_restores_iff (hshards : ShardsOf torchDtype whole saved stateDicts)
    (hflat : Flattened saved stateDicts) (hsave : Saved savePlanner stateDicts finals metadata)
    (hpos : 0 < stateDicts.length) (hranks : finals.length = stateDicts.length)
    (hflatten : savePlanner.flattenStateDict = true)
    (hwritten : writeCheckpoint pickle tensorKey stateDicts finals tensorFile = .ok reader)
    (hstored : Stored stateDicts finals tensorFile) :
    (∃ merged, dcpToFullStateDict torchDtype uninitialized bytesMetadata setItem pickle isOnHost
        metadata reader = .ok merged ∧ HoldsWhole whole merged) ↔
      (∀ visit ∈ traverseStateDict whole.value, visit.1.length = 1) ∧
        NoEmptyRagged stateDicts := by
  obtain ⟨data, hplannerData, hdata⟩ := hsave.plannerData hpos hflatten
  obtain ⟨planner, order, hplanner, hload⟩ := hshards.exists_flatMerge hflat hsave hpos hranks
    hflatten hwritten hstored uninitialized bytesMetadata setItem isOnHost
  have hconf := configured hplanner
  constructor
  · rintro ⟨merged, hmerged, hholds⟩
    obtain ⟨state, planner', final, hpopulate, hplanner', hfinal, rfl⟩ :=
      dcpToFullStateDict_eq_ok hmerged
    have hflattened : ∃ flat, flattenStateDict state = .ok flat := by
      unfold configureLoadPlanner at hplanner'
      cases hstate : flattenStateDict state with
      | error e =>
        rw [hstate] at hplanner'
        cases hplanner'
      | ok flat => exact ⟨flat, rfl⟩
    obtain ⟨flat, hstate⟩ := hflattened
    have hshort : ∀ visit ∈ traverseStateDict whole.value,
        (∃ md, metadata.stateDictMetadata.get? (visitName visit) = some md) →
          visit.1.length = 1 := by
      rintro visit hvisit ⟨md, hmd⟩
      obtain ⟨other, hother, hname, hpath, -⟩ := hshards.registered hflat hsave hpos hdata hmd
      obtain rfl := hshards.unique hother hvisit hname
      obtain ⟨head, rest, hhead⟩ := traverse_head hvisit
      cases rest with
      | nil => rw [hhead, length_singleton]
      | cons next rest =>
        exact absurd hstate (populate_not_flat (hshards.placeable hflat hsave hpos hflatten)
          hpopulate hplannerData (metadata.stateDictMetadata.mem_keys_iff.mpr ⟨md, hmd⟩)
          (hhead ▸ hpath) flat)
    rw [populate_topLevel (hshards.topLevel hflat hsave hpos hflatten hshort)] at hpopulate
    cases hpopulate
    obtain rfl : planner = planner' := Except.ok.inj (hplanner.symm.trans hplanner')
    obtain ⟨hagrees, -⟩ := hload.returned final hfinal
    have hregistered : ∀ visit ∈ traverseStateDict whole.value,
        ∃ info, metadata.stateDictMetadata.get? (visitName visit) = some (.tensor info) := by
      intro visit hvisit
      by_contra hmissing
      have hnot : ∀ md, metadata.stateDictMetadata.get? (visitName visit) ≠ some md := by
        intro md hmd
        obtain ⟨-, -, -, -, info, rfl⟩ := hshards.registered hflat hsave hpos hdata hmd
        exact hmissing ⟨info, hmd⟩
      have hdiverge : ∀ name md, metadata.stateDictMetadata.get? name = some md →
          Diverge [.name name] visit.1 := by
        intro name md hmd
        obtain ⟨other, hother, rfl, -⟩ := hshards.registered hflat hsave hpos hdata hmd
        obtain ⟨head, rest, hhead⟩ := traverse_head hother
        have hlength := hshort other hother ⟨md, hmd⟩
        rw [hhead, length_cons, Nat.add_eq_right, length_eq_zero_iff] at hlength
        have hname : [PathKey.name (visitName other)] = other.1 := by
          rw [visitName, hhead, hlength, dottedName_singleton]
          rfl
        rw [hname]
        exact traverse_diverge hother hvisit fun heq => hnot md (heq ▸ hmd)
      have hsame := hagrees.others visit.1 fun name path hpath => by
        obtain ⟨value, hmem, -⟩ := (hconf.path_iff name path).mp hpath
        obtain ⟨name', md, rfl, hmd, -⟩ := mem_traverse_emptyStateDict.mp hmem
        exact hdiverge name' md hmd
      obtain ⟨tensor, htensor, -⟩ := hshards.leaves visit hvisit
      obtain ⟨found, hfound, -⟩ := hholds visit.1 tensor (htensor ▸ hvisit)
      obtain ⟨head, rest, hhead⟩ := traverse_head hvisit
      rw [hsame, hconf.original_eq, hhead, Nested.get?_cons, Option.bind_eq_some_iff] at hfound
      obtain ⟨child, hchild, -⟩ := hfound
      have hlookup : (emptyEntries uninitialized bytesMetadata metadata).get? head = some child :=
        hchild
      rw [get?_emptyEntries] at hlookup
      obtain ⟨md, hmd, -⟩ := Option.map_eq_some_iff.mp hlookup
      exact (hdiverge head md hmd).1 (hhead ▸ by simp)
    refine ⟨fun visit hvisit => ?_, hshards.noEmptyRagged hflat hsave hpos hregistered⟩
    obtain ⟨info, hinfo⟩ := hregistered visit hvisit
    exact hshort visit hvisit ⟨_, hinfo⟩
  · rintro ⟨hshort, hragged⟩
    have htop := hshards.topLevel hflat hsave hpos hflatten fun visit hvisit _ => hshort visit hvisit
    -- Each entry by itself is read whole.
    have hread : ∀ visit ∈ traverseStateDict whole.value, ∀ tensor,
        visit.2 = .leaf (.tensor tensor none) → ∃ info written,
          metadata.stateDictMetadata.get? (visitName visit) = some (.tensor info) ∧
          visit.1 = [.name (visitName visit)] ∧
          EntryRead pickle planner reader (ownItemsOf (visitName visit) order)
            (planner.stateDict.get? (visitName visit)) (some (.leaf (.tensor written none))) ∧
          written.dtype = tensor.dtype ∧ HoldsChunk tensor.elem (fullChunk tensor.shape) written := by
      intro visit hvisit tensor htensor
      obtain ⟨tensor', htensor', hsaved, -⟩ := hshards.leaves visit hvisit
      obtain rfl : tensor = tensor' := by
        rw [htensor] at htensor'
        cases htensor'
        rfl
      obtain ⟨info, hinfo⟩ := hsaved.exists_info hsave hpos hragged
      have hpath : visit.1 = [.name (visitName visit)] := by
        obtain ⟨head, rest, hhead⟩ := traverse_head hvisit
        have hlength := hshort visit hvisit
        rw [hhead, length_cons, Nat.add_eq_right, length_eq_zero_iff] at hlength
        rw [visitName, hhead, hlength, dottedName_singleton]
        rfl
      have hfilled : ([.name (visitName visit)], emptyValue uninitialized bytesMetadata
          (.tensor info)) ∈ traverseStateDict
            (emptyStateDict uninitialized bytesMetadata metadata).value :=
        mem_traverse_emptyStateDict.mpr ⟨_, _, rfl, hinfo, rfl⟩
      obtain ⟨items, hitems, hperm⟩ := hload.entries _ _ hfilled
      rw [dottedName_singleton] at hitems hperm
      obtain ⟨items', hitems', htype, hreads⟩ := hshards.exists_read isOnHost hflat hsave hranks
        hstored hwritten hconf.metadata_eq hsaved hinfo
        ⟨info.properties.dtype.getD "", info.size, uninitialized⟩ rfl
      obtain rfl : items = items' := Except.ok.inj (hitems.symm.trans hitems')
      obtain ⟨written, hwrittenLeaf, hdtype, hholds⟩ := hreads _ hperm
      refine ⟨info, written, hinfo, hpath, ?_, ?_, hholds⟩
      · rw [EntryRead, (hconf.entry_iff (visitName visit) _).mpr
          ⟨_, hfilled, dottedName_singleton _⟩]
        have hfold := @readValues_leaf _ _ planner reader pickle _
          (fun item hitem => (htype item (hperm.subset hitem)).1)
          (.tensor ⟨info.properties.dtype.getD "", info.size, uninitialized⟩ none)
        exact hfold.trans (by rw [hwrittenLeaf]; rfl)
      · rw [hdtype, (hsaved.info hsave hpos hinfo).2]
        rfl
    obtain ⟨final, hfinal⟩ := hload.returns fun fqn => by
      cases hget : planner.stateDict.get? fqn with
      | none => exact ⟨none, by rw [hload.others fqn hget]; rfl⟩
      | some value =>
        obtain ⟨path, hmem, rfl⟩ := (hconf.entry_iff fqn value).mp hget
        obtain ⟨name, md, rfl, hmd, rfl⟩ := mem_traverse_emptyStateDict.mp hmem
        obtain ⟨visit, hvisit, rfl, -⟩ := hshards.registered hflat hsave hpos hdata hmd
        obtain ⟨tensor, htensor, -⟩ := hshards.leaves visit hvisit
        obtain ⟨-, written, -, -, hentry, -⟩ := hread visit hvisit tensor htensor
        rw [dottedName_singleton] at hget ⊢
        exact ⟨_, hget ▸ hentry⟩
    obtain ⟨hagrees, hentries⟩ := hload.returned final hfinal
    refine ⟨final.originalStateDict, ?_, ?_⟩
    · rw [dcpToFullStateDict, populate_topLevel htop]
      have hliftPlanner : liftLoad (configureLoadPlanner 0 (.mapping
          (emptyEntries uninitialized bytesMetadata metadata).entries) metadata) = .ok planner := by
        have heq : configureLoadPlanner 0 (.mapping
          (emptyEntries uninitialized bytesMetadata metadata).entries) metadata = .ok planner :=
            hplanner
        rw [heq]
        rfl
      simp only [bind, Except.bind]
      rw [hliftPlanner]
      dsimp only
      rw [hfinal]
      rfl
    · intro path tensor hvisit
      obtain ⟨info, written, hinfo, hpath, hentry, hdtype, hholds⟩ := hread _ hvisit tensor rfl
      have hwrote : some (.leaf (.tensor written none)) =
          final.stateDict.get? (dottedName path) :=
        Except.ok.inj (hentry.symm.trans (hentries _))
      have hfilled : planner.nameMapping.get? (dottedName path) = some path :=
        (hconf.path_iff _ _).mpr ⟨_, mem_traverse_emptyStateDict.mpr ⟨_, _, hpath, hinfo, rfl⟩, rfl⟩
      obtain ⟨found, hfound, hget⟩ := hagrees.at_path _ path hfilled
      obtain rfl := Option.some.inj (hwrote.trans hfound)
      exact ⟨written, hget, hdtype, hholds⟩

end Merge

/-! ## One tensor -/

def oneTensor : Tensor Nat where
  dtype := "torch.float32"
  shape := [1]
  elem := fun _ => 7

def onlyFloat32 (name : String) : Option String :=
  if name = "float32" then some "torch.float32" else none

def flatWhole : StateDict Nat Unit :=
  ⟨[("w", .leaf (.tensor oneTensor none))], by simp [Nested.DistinctKeys, Nested.DistinctEntries]⟩

def nestedWhole : StateDict Nat Unit :=
  ⟨[("a", .mapping [("b", .leaf (.tensor oneTensor none))])],
    by simp [Nested.DistinctKeys, Nested.DistinctEntries]⟩

def oneFlat (name : String) (path : ObjectPath) : FlatStateDict Nat Unit where
  fqnNames := PyDict.empty.set name (.leaf (.tensor oneTensor none))
  mappings := PyDict.empty.set name path

def onePlan (name : String) (path : ObjectPath) (index : Option Nat) : SavePlan where
  items := [⟨{ fqn := name, offset := [0], index := index }, .tensor,
    some ⟨⟨[0], [1]⟩, { dtype := some "torch.float32" }, [1]⟩⟩]
  plannerData := some (PyDict.empty.set name path)

def oneMetadata (name : String) (path : ObjectPath) : Metadata where
  stateDictMetadata := PyDict.empty.set name
    (.tensor ⟨{ dtype := some "torch.float32" }, [1], [⟨[0], [1]⟩]⟩)
  plannerData := some (PyDict.empty.set name path)

def oneTensorFile (name : String) (key : String × List Nat) : Option (Tensor Nat) :=
  if key = (name, [0]) then some oneTensor else none

def noPickle : Pickle Nat Unit where
  dumps _ := none
  loads _ := none
  loads_dumps := by simp

def noSetItem : TensorSetItem Nat Unit := fun _ _ _ => .error .typeError

def oneTensorKey (index : MetadataIndex) : String := index.fqn

theorem one_saved {name : String} {path : ObjectPath}
    (h : buildGlobalPlan { rank := 0 } [onePlan name path none] =
      .ok (onePlan name path (some 0), oneMetadata name path)) :
    Saved { rank := 0 } [oneFlat name path] [onePlan name path (some 0)] (oneMetadata name path) where
  built := by
    refine ⟨[onePlan name path none], rfl, ?_, ?_⟩
    · intro rank stateDict plan hs hp
      match rank with
      | 0 =>
        cases hs
        cases hp
        rfl
      | _ + 1 => simp at hs
    · intro rank hrank
      match rank, hrank with
      | 0, _ => exact ⟨_, rfl, h⟩

theorem one_stored (name : String) (path : ObjectPath) :
    Stored [oneFlat name path] [onePlan name path (some 0)] (oneTensorFile name) := by
  intro rank stateDict final item tensor hs hf hitem hdata
  match rank with
  | 0 =>
    cases hs
    cases hf
    obtain rfl := mem_singleton.mp hitem
    have hget : (oneFlat name path).fqnNames.get? name =
        some (.leaf (.tensor oneTensor none)) := PyDict.get?_set_self _ _ _
    simp only [getData, hget] at hdata
    cases hdata
    exact if_pos rfl
  | _ + 1 => simp at hs

theorem one_savedTensor (name : String) (path : ObjectPath) :
    SavedTensor [oneFlat name path] name oneTensor where
  form := .inr {
    held := by
      intro stateDict hmem value hvalue
      obtain rfl := mem_singleton.mp hmem
      rw [show (oneFlat name path).fqnNames.get? name = _ from PyDict.get?_set_self _ _ _] at hvalue
      cases hvalue
      exact ⟨_, oneTensor, fullChunk [1], rfl, rfl, fullChunk_within [1], rfl, fun _ _ => rfl⟩
    covers := by
      intro x hx
      exact ⟨_, mem_singleton.mpr rfl, _, oneTensor, fullChunk [1],
        PyDict.get?_set_self _ _ _, rfl,
        (inArea_chunkToArea_iff (fullChunk_within [1]).matched).mpr ⟨x, hx, by
          cases hx with
          | cons _ hrest => cases hrest; simp [fullChunk]⟩⟩
    nonempty := ⟨_, mem_singleton.mpr rfl, _, PyDict.get?_set_self _ _ _⟩ }
  dtype := by
    intro stateDict hmem leaf hleaf
    obtain rfl := mem_singleton.mp hmem
    rw [show (oneFlat name path).fqnNames.get? name = _ from PyDict.get?_set_self _ _ _] at hleaf
    cases hleaf
    rfl

theorem one_shardsOf {whole : StateDict Nat Unit} {name : String} {path : ObjectPath}
    (hname : dottedName path = name)
    (hwhole : traverseStateDict whole.value = [(path, .leaf (.tensor oneTensor none))]) :
    ShardsOf onlyFloat32 whole [whole] [oneFlat name path] where
  names := by simp [hwhole]
  leaves := by
    intro visit hvisit
    rw [hwhole] at hvisit
    obtain rfl := mem_singleton.mp hvisit
    refine ⟨oneTensor, rfl, ?_, by decide +kernel⟩
    rw [visitName, hname]
    exact one_savedTensor name path
  within := by
    intro stateDict hmem visit hvisit
    obtain rfl := mem_singleton.mp hmem
    exact ⟨visit.2, hvisit⟩

theorem one_noEmptyRagged (name : String) (path : ObjectPath) :
    NoEmptyRagged [oneFlat name path] := by
  intro stateDict hmem fqn shape layout localTensor hget
  obtain rfl := mem_singleton.mp hmem
  rw [show (oneFlat name path).fqnNames.get? fqn = _ from PyDict.get?_set ..] at hget
  split at hget <;> cases hget

/-- A tensor at the top level is merged back. -/
theorem dcpToFullStateDict_restores_flat :
    ∃ reader, writeCheckpoint noPickle oneTensorKey [oneFlat "w" [.name "w"]]
        [onePlan "w" [.name "w"] (some 0)] (oneTensorFile "w") = .ok reader ∧
      ∃ merged, dcpToFullStateDict onlyFloat32 (fun _ => 0) () noSetItem noPickle (fun _ => true)
        (oneMetadata "w" [.name "w"]) reader = .ok merged ∧ HoldsWhole flatWhole merged :=
  ⟨_, rfl, (dcpToFullStateDict_restores_iff (one_shardsOf (by decide +kernel) rfl) (.cons rfl .nil)
    (one_saved (by decide +kernel)) (by decide) rfl rfl rfl (one_stored "w" [.name "w"])).mpr
    ⟨fun visit hvisit => by
      obtain rfl := List.mem_singleton.mp hvisit
      rfl, one_noEmptyRagged "w" [.name "w"]⟩⟩

/-- A nested tensor is not: what is filled in for it has the name `a.b` twice. -/
theorem dcpToFullStateDict_fails_nested :
    ShardsOf onlyFloat32 nestedWhole [nestedWhole] [oneFlat "a.b" [.name "a", .name "b"]] ∧
    Flattened [nestedWhole] [oneFlat "a.b" [.name "a", .name "b"]] ∧
    Saved { rank := 0 } [oneFlat "a.b" [.name "a", .name "b"]]
      [onePlan "a.b" [.name "a", .name "b"] (some 0)] (oneMetadata "a.b" [.name "a", .name "b"]) ∧
    ∃ reader, writeCheckpoint noPickle oneTensorKey [oneFlat "a.b" [.name "a", .name "b"]]
        [onePlan "a.b" [.name "a", .name "b"] (some 0)] (oneTensorFile "a.b") = .ok reader ∧
      Stored [oneFlat "a.b" [.name "a", .name "b"]]
        [onePlan "a.b" [.name "a", .name "b"] (some 0)] (oneTensorFile "a.b") ∧
      ¬ ∃ merged, dcpToFullStateDict onlyFloat32 (fun _ => 0) () noSetItem noPickle
        (fun _ => true) (oneMetadata "a.b" [.name "a", .name "b"]) reader = .ok merged ∧
          HoldsWhole nestedWhole merged := by
  refine ⟨one_shardsOf (by decide +kernel) rfl, .cons rfl .nil, one_saved (by decide +kernel), _,
    rfl, one_stored _ _, ?_⟩
  rintro ⟨merged, hmerged, -⟩
  cases hmerged

end HyperParallel.Checkpoint
