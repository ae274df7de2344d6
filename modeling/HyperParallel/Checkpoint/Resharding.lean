import HyperParallel.Checkpoint.ShardChunks
import Mathlib.Data.List.ReduceOption

/-!
# Resharding

The chunks of a save cover the global tensor, so every element a rank needs
lies in a saved chunk, and the read item of the two chunks copies it to its
place.
-/

namespace HyperParallel.Checkpoint

open Foundation List
open HyperParallel.DTensor (Layout InArea InShape)

variable {α β : Type}

/-! ## Reads between chunks of one tensor -/

section Items

variable {shape : List Nat} {fqn : String} {md : TensorStorageMetadata}
  {localChunks : List ChunkStorageMetadata} {broadcastable : Bool}

structure ReadsBetween (shape : List Nat) (localChunk savedChunk : ChunkStorageMetadata)
    (item : ReadItem) : Prop where
  destOffset : item.destIndex.offset = localChunk.offsets
  storageOffset : item.storageIndex.offset = savedChunk.offsets
  lengths_length : item.lengths.length = shape.length
  destOffsets_length : item.destOffsets.length = shape.length
  storageOffsets_length : item.storageOffsets.length = shape.length
  in_saved : RegionInside item.storageOffsets item.lengths savedChunk.sizes
  in_local : RegionInside item.destOffsets item.lengths localChunk.sizes
  same_element : ∀ z, InShape item.lengths z →
    List.zipWith (· + ·) savedChunk.offsets (List.zipWith (· + ·) item.storageOffsets z) =
      List.zipWith (· + ·) localChunk.offsets (List.zipWith (· + ·) item.destOffsets z)

theorem overlapItem_readsBetween {localEntry storageEntry : ChunkStorageMetadata × Nat}
    {overlap : Area} (hlocal : localEntry.1.Within shape) (hsaved : storageEntry.1.Within shape)
    (h : intersectAxes (chunkToArea localEntry.1) (chunkToArea storageEntry.1) = some overlap) :
    ReadsBetween shape localEntry.1 storageEntry.1
      (overlapItem fqn broadcastable localEntry storageEntry overlap) := by
  have hlength : (chunkToArea localEntry.1).length = (chunkToArea storageEntry.1).length := by
    rw [length_chunkToArea hlocal.matched, length_chunkToArea hsaved.matched,
      hlocal.offsets_length, hsaved.offsets_length]
  obtain ⟨hinLocal, hinSaved⟩ := intersectAxes_inside hlength h
  have hoverlap : overlap.length = shape.length := by
    rw [hinLocal.length_eq, length_chunkToArea hlocal.matched, hlocal.offsets_length]
  constructor
  · rfl
  · rfl
  · simp [overlapItem, hoverlap]
  · simp [overlapItem, hoverlap, hlocal.offsets_length]
  · simp [overlapItem, hoverlap, hsaved.offsets_length]
  · exact overlapRegion_inside hsaved.matched hinSaved
  · exact overlapRegion_inside hlocal.matched hinLocal
  · intro z hz
    have hz' : z.length = overlap.length := by
      rw [← hz.length_eq]
      simp [overlapItem]
    exact (overlapRegion_element hsaved.matched hinSaved hz').trans
      (overlapRegion_element hlocal.matched hinLocal hz').symm

theorem createReadItemsForChunkList_spec (hlocal : ∀ chunk ∈ localChunks, chunk.Within shape)
    (hsaved : ∀ chunk ∈ md.chunks, chunk.Within shape) :
    ∃ items, createReadItemsForChunkList fqn md localChunks broadcastable = .ok items ∧
      ∀ item, item ∈ items ↔ ∃ localEntry ∈ localChunks.zipIdx, ∃ storageEntry ∈ md.chunks.zipIdx,
        ∃ overlap, intersectAxes (chunkToArea localEntry.1) (chunkToArea storageEntry.1) =
          some overlap ∧ item = overlapItem fqn broadcastable localEntry storageEntry overlap := by
  have hpair : ∀ localEntry ∈ localChunks.zipIdx, ∀ storageEntry ∈ md.chunks.zipIdx,
      readItemFor fqn broadcastable localEntry storageEntry =
        .ok ((intersectAxes (chunkToArea localEntry.1) (chunkToArea storageEntry.1)).map
          (overlapItem fqn broadcastable localEntry storageEntry)) := by
    intro localEntry hl storageEntry hs
    have hl' := hlocal _ (fst_mem_of_mem_zipIdx hl)
    have hs' := hsaved _ (fst_mem_of_mem_zipIdx hs)
    unfold readItemFor inferIntersection
    rw [length_chunkToArea hl'.matched, length_chunkToArea hs'.matched, hl'.offsets_length,
      hs'.offsets_length, if_neg (by simp)]
    rfl
  have hrow : ∀ localEntry ∈ localChunks.zipIdx,
      (md.chunks.zipIdx.mapM fun storageEntry =>
        readItemFor fqn broadcastable localEntry storageEntry) =
      .ok (md.chunks.zipIdx.map fun storageEntry =>
        (intersectAxes (chunkToArea localEntry.1) (chunkToArea storageEntry.1)).map
          (overlapItem fqn broadcastable localEntry storageEntry)) := by
    intro localEntry hl
    exact mapM_eq_ok (hpair localEntry hl)
  refine ⟨_, by rw [createReadItemsForChunkList, mapM_eq_ok hrow]; rfl, ?_⟩
  intro item
  simp only [reduceOption_mem_iff, mem_flatten]
  constructor
  · rintro ⟨_, hrow', hmem⟩
    obtain ⟨localEntry, hl, rfl⟩ := mem_map.mp hrow'
    obtain ⟨storageEntry, hs, hsome⟩ := mem_map.mp hmem
    obtain ⟨overlap, hoverlap, rfl⟩ := Option.map_eq_some_iff.mp hsome
    exact ⟨localEntry, hl, storageEntry, hs, overlap, hoverlap, rfl⟩
  · rintro ⟨localEntry, hl, storageEntry, hs, overlap, hoverlap, rfl⟩
    refine ⟨_, mem_map_of_mem hl, mem_map.mpr ⟨storageEntry, hs, ?_⟩⟩
    rw [hoverlap]
    rfl

/-- The element the chunk has at `y` is the global one. -/
def Written (global : List Nat → α) (chunk : ChunkStorageMetadata) (tensor : Tensor α)
    (y : List Nat) : Prop :=
  tensor.elem y = global (List.zipWith (· + ·) chunk.offsets y)

def ReadItem.Copies (item : ReadItem) (y : List Nat) : Prop :=
  ∃ z, InShape item.lengths z ∧ y = List.zipWith (· + ·) item.destOffsets z

theorem zipWith_add_sub {offsets z : List Nat} (h : z.length = offsets.length) :
    zipWith (· - ·) (zipWith (· + ·) offsets z) offsets = z := by
  induction offsets generalizing z with
  | nil => exact (length_eq_zero_iff.mp h).symm
  | cons offset offsets ih =>
    cases z with
    | nil => simp at h
    | cons pos z => simp [ih (by simpa using h)]

theorem ReadsBetween.narrow_shape {localChunk savedChunk : ChunkStorageMetadata} {item : ReadItem}
    (h : ReadsBetween shape localChunk savedChunk item) {saved target : Tensor α}
    (hsaved : saved.shape = savedChunk.sizes) (htarget : target.shape = localChunk.sizes) :
    (narrowTensorByIndex target item.destOffsets item.lengths).shape =
      (narrowTensorByIndex saved item.storageOffsets item.lengths).shape := by
  cases shape with
  | nil =>
    have hlengths := length_eq_zero_iff.mp h.lengths_length
    have hinSaved := h.in_saved
    have hinLocal := h.in_local
    unfold RegionInside at hinSaved hinLocal
    rw [hlengths, zip_nil_right, forall₂_nil_left_iff] at hinSaved hinLocal
    simp [narrowTensorByIndex, hlengths, hsaved, htarget, hinSaved, hinLocal]
  | cons size shape =>
    have hne : ∀ xs : List Nat, xs.length = (size :: shape).length → xs ≠ [] := by
      rintro xs hxs rfl
      simp at hxs
    simp only [narrowTensorByIndex, hne _ h.lengths_length, hne _ h.destOffsets_length,
      hne _ h.storageOffsets_length, or_self, if_false, hsaved, htarget]
    rw [h.in_local.narrow_shape (h.destOffsets_length.trans h.lengths_length.symm),
      h.in_saved.narrow_shape (h.storageOffsets_length.trans h.lengths_length.symm)]

theorem ReadsBetween.copy {localChunk savedChunk : ChunkStorageMetadata} {item : ReadItem}
    (h : ReadsBetween shape localChunk savedChunk item) {global : List Nat → α}
    {saved : Tensor α} (hsaved : HoldsChunk global savedChunk saved) (target : Tensor α)
    {y : List Nat} (hy : InShape localChunk.sizes y)
    (hwritten : Written global localChunk target y ∨ item.Copies y) :
    Written global localChunk (copyTensorToTarget target item.destOffsets item.lengths
      (narrowTensorByIndex saved item.storageOffsets item.lengths)) y := by
  have hcopy : ∀ z, InShape item.lengths z →
      saved.elem (zipWith (· + ·) item.storageOffsets z) = global
        (zipWith (· + ·) localChunk.offsets (zipWith (· + ·) item.destOffsets z)) := by
    intro z hz
    rw [hsaved.elem _ (h.in_saved.inShape
      (h.storageOffsets_length.trans h.lengths_length.symm) hz), h.same_element z hz]
  unfold Written
  cases shape with
  | nil =>
    have hlengths := length_eq_zero_iff.mp h.lengths_length
    have hinLocal := h.in_local
    unfold RegionInside at hinLocal
    rw [hlengths, zip_nil_right, forall₂_nil_left_iff] at hinLocal
    rw [hinLocal] at hy
    cases hy
    have hempty := hcopy [] (by rw [hlengths]; exact .nil)
    simpa [copyTensorToTarget, narrowTensorByIndex, hlengths] using hempty
  | cons size shape =>
    have hne : ∀ xs : List Nat, xs.length = (size :: shape).length → xs ≠ [] := by
      rintro xs hxs rfl
      simp at hxs
    have hmatched : (⟨item.destOffsets, item.lengths⟩ : ChunkStorageMetadata).Matched :=
      h.destOffsets_length.trans h.lengths_length.symm
    simp only [copyTensorToTarget, narrowTensorByIndex, hne _ h.lengths_length,
      hne _ h.destOffsets_length, hne _ h.storageOffsets_length, or_self, if_false]
    split
    · rename_i hregion
      obtain ⟨z, hz, rfl⟩ := (inArea_chunkToArea_iff hmatched).mp hregion
      have hz' : z.length = item.destOffsets.length := by
        rw [← hz.length_eq]
        exact hmatched.symm
      rw [zipWith_add_sub hz']
      exact hcopy z hz
    · rename_i hregion
      rcases hwritten with hwritten | hcopies
      · exact hwritten
      · exact absurd ((inArea_chunkToArea_iff hmatched).mpr hcopies) hregion

structure Readable (shape : List Nat) (global : List Nat → α)
    (store : String × List Nat → Option (Tensor α)) (localChunks : List ChunkStorageMetadata)
    (item : ReadItem) : Prop where
  between : ∃ localChunk ∈ localChunks, ∃ savedChunk saved,
    ReadsBetween shape localChunk savedChunk item ∧
      store item.storageIndex.key = some saved ∧ HoldsChunk global savedChunk saved

theorem findIdx_offsets (hdistinct : (localChunks.map (·.offsets)).Nodup) {i : Nat}
    {chunk : ChunkStorageMetadata} (hchunk : localChunks[i]? = some chunk) :
    localChunks.findIdx (fun other => decide (other.offsets = chunk.offsets)) = i := by
  obtain ⟨hi, rfl⟩ := List.getElem?_eq_some_iff.mp hchunk
  rw [findIdx_eq hi]
  refine ⟨by simp, fun j hj => ?_⟩
  have hinj := @getElem?_inj _ j i _ (by simpa using hj.trans hi) hdistinct
  have hne : localChunks[j].offsets ≠ localChunks[i].offsets := by
    intro heq
    have := hinj.mp (by simp [hi, hj.trans hi, heq])
    omega
  simpa using hne

theorem executeRead_written {global : List Nat → α} {store : String × List Nat → Option (Tensor α)}
    (hdistinct : (localChunks.map (·.offsets)).Nodup) {items : List ReadItem}
    (hitems : ∀ item ∈ items, Readable shape global store localChunks item)
    {targets : List (Tensor α)}
    (hshapes : Forall₂ (fun chunk target => target.shape = chunk.sizes) localChunks targets) :
    ∃ result, executeRead store localChunks items targets = .ok result ∧
      Forall₂ (fun chunk target => target.shape = chunk.sizes) localChunks result ∧
      ∀ (i : Nat) chunk target target', localChunks[i]? = some chunk → targets[i]? = some target →
        result[i]? = some target' → ∀ y, InShape chunk.sizes y →
          (Written global chunk target y ∨
            ∃ item ∈ items, item.destIndex.offset = chunk.offsets ∧ item.Copies y) →
          Written global chunk target' y := by
  induction items generalizing targets with
  | nil =>
    refine ⟨targets, rfl, hshapes, ?_⟩
    intro i chunk target target' _ htarget htarget' y _ hwritten
    obtain rfl := Option.some.inj (htarget.symm.trans htarget')
    rcases hwritten with hwritten | ⟨item, hitem, -⟩
    · exact hwritten
    · cases hitem
  | cons item items ih =>
    obtain ⟨localChunk, hlocal, savedChunk, saved, hbetween, hstore, hholds⟩ :=
      (hitems item mem_cons_self).between
    obtain ⟨k, hk⟩ := mem_iff_getElem?.mp hlocal
    have hlengths := hshapes.length_eq
    obtain ⟨hkl, hkeq⟩ := List.getElem?_eq_some_iff.mp hk
    have htarget := List.getElem?_eq_getElem (l := targets) (i := k) (by omega)
    have hshape : (targets[k]).shape = localChunk.sizes := by
      rw [← hkeq]
      exact (forall₂_iff_get.mp hshapes).2 k hkl (by omega)
    set copied := copyTensorToTarget targets[k] item.destOffsets item.lengths
      (narrowTensorByIndex saved item.storageOffsets item.lengths) with hcopied
    have hcopiedShape : copied.shape = localChunk.sizes := by
      rw [hcopied, copyTensorToTarget]
      split <;> exact hshape
    have hread : readInto store localChunks targets item = .ok (targets.set k copied) := by
      unfold readInto
      rw [hstore]
      dsimp only
      rw [hbetween.destOffset, findIdx_offsets hdistinct hk, htarget]
      dsimp only
      rw [if_neg (not_not.mpr (hbetween.narrow_shape hholds.shape hshape))]
    have hshapes' : Forall₂ (fun chunk target => target.shape = chunk.sizes) localChunks
        (targets.set k copied) := by
      rw [forall₂_iff_get] at hshapes ⊢
      refine ⟨by simpa using hshapes.1, fun i hi hi' => ?_⟩
      simp only [get_eq_getElem, getElem_set]
      split
      · rename_i heq
        subst heq
        rw [hcopiedShape, hkeq]
      · exact hshapes.2 i hi (by simpa using hi')
    obtain ⟨result, hresult, hshapesResult, hwrites⟩ :=
      ih (fun item hitem => hitems item (mem_cons_of_mem _ hitem)) hshapes'
    refine ⟨result, ?_, hshapesResult, ?_⟩
    · rw [executeRead, foldlM_cons, hread]
      exact hresult
    · intro i chunk target target' hchunk htarget' hresult' y hy hwritten
      by_cases hik : i = k
      · subst hik
        obtain rfl := Option.some.inj (hk.symm.trans hchunk)
        obtain rfl := Option.some.inj (htarget.symm.trans htarget')
        refine hwrites i localChunk copied target' hchunk
          (getElem?_set_self (by omega)) hresult' y hy ?_
        rcases hwritten with hwritten | ⟨found, hfound, hoffset, hcopies⟩
        · exact .inl (hbetween.copy hholds _ hy (.inl hwritten))
        · rcases mem_cons.mp hfound with rfl | hfound
          · exact .inl (hbetween.copy hholds _ hy (.inr hcopies))
          · exact .inr ⟨found, hfound, hoffset, hcopies⟩
      · refine hwrites i chunk target target' hchunk ?_ hresult' y hy ?_
        · rw [getElem?_set_ne (Ne.symm hik)]
          exact htarget'
        · rcases hwritten with hwritten | ⟨found, hfound, hoffset, hcopies⟩
          · exact .inl hwritten
          · rcases mem_cons.mp hfound with rfl | hfound
            · -- The item goes to the chunk of its own offsets, which is another one.
              rw [hbetween.destOffset] at hoffset
              have hi := findIdx_offsets hdistinct hchunk
              rw [← hoffset, findIdx_offsets hdistinct hk] at hi
              exact absurd hi.symm hik
            · exact .inr ⟨found, hfound, hoffset, hcopies⟩

end Items

theorem exists_coveringItems {shape : List Nat} (fqn : String) {md : TensorStorageMetadata}
    {localChunks : List ChunkStorageMetadata} (broadcastable : Bool)
    (hlocal : ∀ chunk ∈ localChunks, chunk.Within shape)
    (hsaved : ∀ chunk ∈ md.chunks, chunk.Within shape)
    (hcovers : ∀ x, InShape shape x → ∃ chunk ∈ md.chunks, InArea (chunkToArea chunk) x) :
    ∃ items, createReadItemsForChunkList fqn md localChunks broadcastable = .ok items ∧
      (∀ item ∈ items, ∃ localChunk ∈ localChunks, ∃ savedChunk ∈ md.chunks,
        ReadsBetween shape localChunk savedChunk item ∧
          item.storageIndex.key = (fqn, savedChunk.offsets)) ∧
      ∀ localChunk ∈ localChunks, ∀ y, InShape localChunk.sizes y →
        ∃ item ∈ items, item.destIndex.offset = localChunk.offsets ∧ item.Copies y := by
  obtain ⟨items, hitems, hmem⟩ := @createReadItemsForChunkList_spec shape fqn md localChunks
    broadcastable hlocal hsaved
  refine ⟨items, hitems, fun item hitem => ?_, fun localChunk hl y hy => ?_⟩
  · obtain ⟨localEntry, hl, storageEntry, hs, overlap, hoverlap, rfl⟩ := (hmem item).mp hitem
    have hl' := fst_mem_of_mem_zipIdx hl
    have hs' := fst_mem_of_mem_zipIdx hs
    exact ⟨_, hl', _, hs', overlapItem_readsBetween (hlocal _ hl') (hsaved _ hs') hoverlap, rfl⟩
  · obtain ⟨savedChunk, hs, harea⟩ := hcovers _ ((hlocal _ hl).element y hy)
    have hlocalArea := (inArea_chunkToArea_iff (hlocal _ hl).matched).mpr ⟨y, hy, rfl⟩
    obtain ⟨overlap, hoverlap, hin⟩ := intersectAxes_of_mem hlocalArea harea
    obtain ⟨i, hi⟩ := mem_iff_getElem?.mp hl
    obtain ⟨j, hj⟩ := mem_iff_getElem?.mp hs
    refine ⟨overlapItem fqn broadcastable (localChunk, i) (savedChunk, j) overlap,
      (hmem _).mpr ⟨_, mk_mem_zipIdx_iff_getElem?.mpr hi, _,
        mk_mem_zipIdx_iff_getElem?.mpr hj, overlap, hoverlap, rfl⟩, rfl, ?_⟩
    have hlength := (length_chunkToArea (hlocal _ hl).matched).trans
      ((hlocal _ hl).offsets_length.trans ((hsaved _ hs).offsets_length.symm.trans
        (length_chunkToArea (hsaved _ hs).matched).symm))
    exact overlapRegion_covers (hlocal _ hl).matched (intersectAxes_inside hlength hoverlap).1 hy
      hin

theorem executeRead_copied (shape : List Nat) {localChunks : List ChunkStorageMetadata}
    {global : List Nat → α} {store : String × List Nat → Option (Tensor α)}
    (hdistinct : (localChunks.map (·.offsets)).Nodup) {items : List ReadItem}
    (hreadable : ∀ item ∈ items, Readable shape global store localChunks item)
    (hcopied : ∀ localChunk ∈ localChunks, ∀ y, InShape localChunk.sizes y →
      ∃ item ∈ items, item.destIndex.offset = localChunk.offsets ∧ item.Copies y)
    {targets : List (Tensor α)}
    (htargets : Forall₂ (fun chunk target => target.shape = chunk.sizes) localChunks targets) :
    ∃ result, executeRead store localChunks items targets = .ok result ∧
      Forall₂ (HoldsChunk global) localChunks result := by
  obtain ⟨result, hresult, hshapes, hwritten⟩ := executeRead_written hdistinct hreadable htargets
  refine ⟨result, hresult, ?_⟩
  have hlengths := htargets.length_eq
  rw [forall₂_iff_get] at hshapes ⊢
  refine ⟨hshapes.1, fun i hi hi' => ⟨hshapes.2 i hi hi', fun y hy => ?_⟩⟩
  have hchunk : localChunks[i] ∈ localChunks := getElem_mem hi
  exact hwritten i _ _ _ (getElem?_eq_getElem hi)
    (getElem?_eq_getElem (hlengths ▸ hi)) (getElem?_eq_getElem hi') y hy
    (.inr (hcopied _ hchunk y hy))

theorem executeRead_holds {shape : List Nat} {fqn : String} {md : TensorStorageMetadata}
    {localChunks : List ChunkStorageMetadata} (broadcastable : Bool) {global : List Nat → α}
    {store : String × List Nat → Option (Tensor α)}
    (hlocal : ∀ chunk ∈ localChunks, chunk.Within shape)
    (hdistinct : (localChunks.map (·.offsets)).Nodup)
    (hsaved : ∀ chunk ∈ md.chunks, chunk.Within shape ∧ ∃ tensor,
      store (fqn, chunk.offsets) = some tensor ∧ HoldsChunk global chunk tensor)
    (hcovers : ∀ x, InShape shape x → ∃ chunk ∈ md.chunks, InArea (chunkToArea chunk) x) :
    ∃ items, createReadItemsForChunkList fqn md localChunks broadcastable = .ok items ∧
      (∀ item ∈ items, ∃ localChunk ∈ localChunks, ∃ savedChunk ∈ md.chunks,
        ReadsBetween shape localChunk savedChunk item) ∧
      (∀ localChunk ∈ localChunks, ∀ y, InShape localChunk.sizes y →
        ∃ item ∈ items, item.destIndex.offset = localChunk.offsets ∧ item.Copies y) ∧
      ∀ targets : List (Tensor α),
        Forall₂ (fun chunk target => target.shape = chunk.sizes) localChunks targets →
        ∃ result, executeRead store localChunks items targets = .ok result ∧
          Forall₂ (HoldsChunk global) localChunks result := by
  obtain ⟨items, hitems, hbetween, hcopied⟩ := exists_coveringItems fqn broadcastable
    hlocal (fun chunk hchunk => (hsaved chunk hchunk).1) hcovers
  refine ⟨items, hitems, fun item hitem => ?_, hcopied, fun targets htargets => ?_⟩
  · obtain ⟨localChunk, hl, savedChunk, hs, hreads, -⟩ := hbetween item hitem
    exact ⟨localChunk, hl, savedChunk, hs, hreads⟩
  · refine executeRead_copied shape hdistinct (fun item hitem => ?_) hcopied htargets
    obtain ⟨localChunk, hl, savedChunk, hs, hreads, hkey⟩ := hbetween item hitem
    obtain ⟨-, saved, hstore, hholds⟩ := hsaved savedChunk hs
    exact ⟨localChunk, hl, savedChunk, saved, hreads, hkey ▸ hstore, hholds⟩

/-! ## Saving and reading back -/

structure Saved (planner : StandardSavePlanner) (stateDicts : List (FlatStateDict α β))
    (finals : List SavePlan) (metadata : Metadata) : Prop where
  built : ∃ plans : List SavePlan, plans.length = stateDicts.length ∧
    (∀ (rank : Nat) stateDict plan, stateDicts[rank]? = some stateDict →
      plans[rank]? = some plan →
        buildLocalPlan { planner with rank := rank } stateDict = .ok plan) ∧
    ∀ rank < plans.length, ∃ final, finals[rank]? = some final ∧
      buildGlobalPlan { planner with rank := rank, removeRedundancy := true } plans =
        .ok (final, metadata)

def Stored (stateDicts : List (FlatStateDict α β)) (finals : List SavePlan)
    (store : String × List Nat → Option (Tensor α)) : Prop :=
  ∀ (rank : Nat) stateDict final item tensor, stateDicts[rank]? = some stateDict →
    finals[rank]? = some final → item ∈ final.items →
      getData rank stateDict.fqnNames item = .ok (.tensor tensor) →
        store item.index.key = some tensor

structure Sharded (stateDicts : List (FlatStateDict α β)) (fqn : String)
    (global : List Nat → α) (shape : List Nat) (layout : Layout) : Prop where
  ranks : ∀ rank ∈ layout.mesh.rankList, rank < stateDicts.length
  held : ∀ (rank : Nat) stateDict, stateDicts[rank]? = some stateDict →
    rank ∈ layout.mesh.rankList → ∃ localTensor,
      stateDict.fqnNames.get? fqn = some (.leaf (.dtensor ⟨shape, some layout, localTensor⟩)) ∧
        HoldsShard global shape layout rank localTensor
  elsewhere : ∀ (rank : Nat) stateDict, stateDicts[rank]? = some stateDict →
    rank ∉ layout.mesh.rankList → stateDict.fqnNames.get? fqn = none

theorem dtypeElementSize_pos (dtype : Option String) : 0 < dtypeElementSize dtype := by
  unfold dtypeElementSize
  cases dtype with
  | none => decide
  | some dtype =>
    dsimp only
    cases hfind : dtypeElementSizes.find? fun entry =>
        decide (entry.1.toList <:+: dtype.toLower.toList) with
    | none => decide
    | some entry =>
      have hmem := mem_of_find?_eq_some hfind
      have hall : ∀ entry ∈ dtypeElementSizes, 0 < entry.2 := by decide
      exact hall entry hmem

theorem leafWriteItems_fqn {rank : Nat} {fqn : String} {value : StateValue α β}
    {items : List WriteItem} (h : leafWriteItems rank fqn value = .ok items) :
    ∀ item ∈ items, item.index.fqn = fqn ∧ (item.type = .byteIo → item.tensorData = none) := by
  have htensor : ∀ chunk dtype size, (tensorWriteItem fqn chunk dtype size).index.fqn = fqn ∧
      ((tensorWriteItem fqn chunk dtype size).type = .byteIo →
        (tensorWriteItem fqn chunk dtype size).tensorData = none) := by
    intro chunk dtype size
    refine ⟨rfl, fun htype => ?_⟩
    cases htype
  unfold leafWriteItems at h
  split at h
  · split at h
    · cases h
      simpa using htensor _ _ _
    · split at h
      · unfold createRaggedWriteItems at h
        obtain ⟨boxes, -, rfl⟩ := map_eq_ok h
        intro item hitem
        obtain ⟨box, -, rfl⟩ := mem_map.mp hitem
        exact htensor _ _ _
      · obtain ⟨offsets, -, rfl⟩ := map_eq_ok h
        simpa using htensor _ _ _
  · cases h
    simpa using htensor _ _ _
  · cases h
    simpa using htensor _ _ _
  · cases h
    simp

section

variable {planner : StandardSavePlanner} {stateDict : FlatStateDict α β} {plan : SavePlan}
  (h : buildLocalPlan planner stateDict = .ok plan)

include h

theorem exists_leafWriteItems {fqn : String} {value : StateValue α β}
    (hget : stateDict.fqnNames.get? fqn = some value) :
    ∃ items, leafWriteItems planner.rank fqn value = .ok items := by
  unfold buildLocalPlan at h
  obtain ⟨perLeaf, hperLeaf, -⟩ := map_eq_ok h
  obtain ⟨items, -, hitems⟩ := exists_of_forall₂_left (mapM_eq_ok_iff.mp hperLeaf)
    (stateDict.fqnNames.mem_entries_iff.mpr hget)
  exact ⟨items, hitems⟩

theorem mem_buildLocalPlan {item : WriteItem} :
    item ∈ plan.items ↔ ∃ value items, stateDict.fqnNames.get? item.index.fqn = some value ∧
      leafWriteItems planner.rank item.index.fqn value = .ok items ∧ item ∈ items := by
  unfold buildLocalPlan at h
  obtain ⟨perLeaf, hperLeaf, rfl⟩ := map_eq_ok h
  have hentries := mapM_eq_ok_iff.mp hperLeaf
  dsimp only
  rw [mem_flatten]
  constructor
  · rintro ⟨items, hitems, hitem⟩
    obtain ⟨entry, hentry, hok⟩ := exists_of_forall₂_right hentries hitems
    have hfqn := (leafWriteItems_fqn hok item hitem).1
    refine ⟨entry.2, items, ?_, ?_, hitem⟩
    · rw [hfqn]
      exact stateDict.fqnNames.mem_entries_iff.mp hentry
    · rw [hfqn]
      exact hok
  · rintro ⟨value, items, hvalue, hok, hitem⟩
    have hentry := stateDict.fqnNames.mem_entries_iff.mpr hvalue
    obtain ⟨items', hitems', hok'⟩ := exists_of_forall₂_left hentries hentry
    obtain rfl : items = items' := Except.ok.inj (hok.symm.trans hok')
    exact ⟨items, hitems', hitem⟩

end

section SavedTensor

variable {planner : StandardSavePlanner} {stateDicts : List (FlatStateDict α β)}
  {finals : List SavePlan} {metadata : Metadata} {fqn : String} {global : List Nat → α}
  {shape : List Nat} {layout : Layout}

theorem Saved.exists_shared (h : Saved planner stateDicts finals metadata)
    (hpos : 0 < stateDicts.length) :
    ∃ (plans : List SavePlan) (masks : Option (List (List Bool))),
      plans.length = stateDicts.length ∧
      (∀ (rank : Nat) stateDict plan, stateDicts[rank]? = some stateDict →
        plans[rank]? = some plan →
          buildLocalPlan { planner with rank := rank } stateDict = .ok plan) ∧
      sharedPlan { planner with removeRedundancy := true } plans = .ok (masks, metadata) ∧
      ∀ rank < plans.length, finals[rank]? = some (finalPlan plans masks rank) := by
  obtain ⟨plans, hlength, hlocal, hglobal⟩ := h.built
  have hrun : ∀ rank < plans.length, ∃ masks,
      sharedPlan { planner with removeRedundancy := true } plans = .ok (masks, metadata) ∧
        finals[rank]? = some (finalPlan plans masks rank) := by
    intro rank hrank
    obtain ⟨final, hfinal, hbuild⟩ := hglobal rank hrank
    have heq := buildGlobalPlan_eq { planner with removeRedundancy := true } hrank
    dsimp only at heq
    rw [heq] at hbuild
    obtain ⟨shared, hshared, hpair⟩ := map_eq_ok hbuild
    obtain ⟨masks, metadata'⟩ := shared
    obtain ⟨rfl, rfl⟩ := Prod.mk.inj hpair
    exact ⟨masks, hshared, hfinal⟩
  obtain ⟨masks, hshared, -⟩ := hrun 0 (by omega)
  refine ⟨plans, masks, hlength, hlocal, hshared, ?_⟩
  intro rank hrank
  obtain ⟨masks', hshared', hfinal⟩ := hrun rank hrank
  rw [hshared] at hshared'
  cases hshared'
  exact hfinal

theorem Sharded.length_pos (hlayout : LayoutOf layout shape)
    (h : Sharded stateDicts fqn global shape layout) : 0 < stateDicts.length := by
  have hprod : layout.mesh.meshShape.prod ≠ 0 := fun hzero =>
    absurd (hlayout.sizes_pos 0 (prod_eq_zero_iff.mp hzero)) (by omega)
  rw [← layout.mesh.ranks_ok] at hprod
  have hrank := h.ranks _ (getElem_mem (Nat.pos_of_ne_zero hprod))
  omega

/-- What the ranks write under a name are parts of one tensor that together cover it. -/
structure SavedParts (stateDicts : List (FlatStateDict α β)) (fqn : String)
    (global : List Nat → α) (shape : List Nat) : Prop where
  items : ∀ (rank : Nat) stateDict value items, stateDicts[rank]? = some stateDict →
    stateDict.fqnNames.get? fqn = some value → leafWriteItems rank fqn value = .ok items →
    ∀ item ∈ items, ∃ chunk dtype, item = tensorWriteItem fqn chunk dtype shape ∧
      chunk.Within shape ∧ ∀ kept : WriteItem, kept.type = .tensor →
        kept.index.key = (fqn, chunk.offsets) →
          ∃ tensor, getData rank stateDict.fqnNames kept = .ok (.tensor tensor) ∧
            HoldsChunk global chunk tensor
  covers : (∀ (rank : Nat) stateDict value, stateDicts[rank]? = some stateDict →
      stateDict.fqnNames.get? fqn = some value → ∃ items, leafWriteItems rank fqn value = .ok items) →
    ∀ x, InShape shape x → ∃ (rank : Nat) (stateDict : _) (value : _) (items : _)
      (chunk : ChunkStorageMetadata) (dtype : String), stateDicts[rank]? = some stateDict ∧
      stateDict.fqnNames.get? fqn = some value ∧ leafWriteItems rank fqn value = .ok items ∧
      tensorWriteItem fqn chunk dtype shape ∈ items ∧ InArea (chunkToArea chunk) x

variable {chunk : ChunkStorageMetadata}

section

variable (hsave : Saved planner stateDicts finals metadata) (hpos : 0 < stateDicts.length)
  (hparts : SavedParts stateDicts fqn global shape)

include hsave hpos hparts

theorem Saved.exists_part (hchunk : chunk ∈ metadata.chunks fqn) :
    chunk.Within shape ∧ ∃ (rank : Nat) (stateDict : _) (final : _) (kept : WriteItem)
      (tensor : Tensor α), stateDicts[rank]? = some stateDict ∧ finals[rank]? = some final ∧
      kept ∈ final.items ∧ kept.tensorData.isSome = true ∧
      kept.index.key = (fqn, chunk.offsets) ∧
      getData rank stateDict.fqnNames kept = .ok (.tensor tensor) ∧
      HoldsChunk global chunk tensor := by
  obtain ⟨plans, masks, hlength, hlocal, hshared, hfinals⟩ := hsave.exists_shared hpos
  obtain ⟨rank, plan, hplan, kept, hkept, hkeptChunk, original, horiginal, htype, hdata, hkey⟩ :=
    exists_kept_of_chunk rfl hshared hchunk
  have hrank := (List.getElem?_eq_some_iff.mp hplan).1
  have hstateDict := List.getElem?_eq_getElem (hlength ▸ hrank)
  have hkeptFqn : kept.index.fqn = fqn := by
    unfold WriteItem.chunkFor at hkeptChunk
    split at hkeptChunk
    · split at hkeptChunk
      · assumption
      · cases hkeptChunk
    · cases hkeptChunk
  have horiginalFqn : original.index.fqn = fqn := (congrArg Prod.fst hkey).symm.trans hkeptFqn
  obtain ⟨value, items, hvalue, hitems, hmem⟩ :=
    (mem_buildLocalPlan (hlocal rank _ plan hstateDict hplan)).mp horiginal
  rw [horiginalFqn] at hvalue hitems
  obtain ⟨found, dtype, rfl, hwithin, hholds⟩ :=
    hparts.items rank _ value items hstateDict hvalue hitems original hmem
  -- The kept item has the data of the original one, so the recorded chunk is its chunk.
  obtain rfl : found = chunk := by
    unfold WriteItem.chunkFor at hkeptChunk
    rw [htype, hdata, hkeptFqn] at hkeptChunk
    simpa [tensorWriteItem] using hkeptChunk
  have hkeptKey : kept.index.key = (fqn, found.offsets) :=
    Prod.ext hkeptFqn (congrArg Prod.snd hkey)
  obtain ⟨tensor, htensorOk, hholdsChunk⟩ := hholds kept htype hkeptKey
  exact ⟨hwithin, rank, _, _, kept, tensor, hstateDict, hfinals rank hrank, hkept,
    by rw [hdata]; rfl, hkeptKey, htensorOk, hholdsChunk⟩

theorem Saved.part_holds {store : String × List Nat → Option (Tensor α)}
    (hstore : Stored stateDicts finals store) (hchunk : chunk ∈ metadata.chunks fqn) :
    chunk.Within shape ∧ ∃ tensor, store (fqn, chunk.offsets) = some tensor ∧
      HoldsChunk global chunk tensor := by
  obtain ⟨hwithin, rank, stateDict, final, kept, tensor, hstateDict, hfinal, hkept, -, hkey, hdata,
    hholds⟩ := hsave.exists_part hpos hparts hchunk
  refine ⟨hwithin, tensor, ?_, hholds⟩
  rw [← hkey]
  exact hstore rank stateDict final kept tensor hstateDict hfinal hkept hdata

theorem Saved.parts_cover {x : List Nat} (hx : InShape shape x) :
    ∃ chunk ∈ metadata.chunks fqn, InArea (chunkToArea chunk) x := by
  obtain ⟨plans, masks, hlength, hlocal, hshared, -⟩ := hsave.exists_shared hpos
  have hplanOf {rank : Nat} {stateDict : FlatStateDict α β}
      (hstateDict : stateDicts[rank]? = some stateDict) :
      ∃ plan ∈ plans, buildLocalPlan { planner with rank := rank } stateDict = .ok plan := by
    have hrank := (List.getElem?_eq_some_iff.mp hstateDict).1
    have hplan := List.getElem?_eq_getElem (hlength ▸ hrank)
    exact ⟨_, mem_of_getElem? hplan, hlocal rank _ _ hstateDict hplan⟩
  have hbytes : ∀ item ∈ allItems plans, item.type = .byteIo → item.tensorData = none := by
    intro item hitem
    obtain ⟨plan, hplan, hmem⟩ := mem_flatMap.mp hitem
    obtain ⟨rank, hget⟩ := mem_iff_getElem?.mp hplan
    have hlt := (List.getElem?_eq_some_iff.mp hget).1
    have hbuild := hlocal rank _ _ (List.getElem?_eq_getElem (hlength ▸ hlt)) hget
    obtain ⟨value, items, -, hitems, hmem'⟩ := (mem_buildLocalPlan hbuild).mp hmem
    exact (leafWriteItems_fqn hitems item hmem').2
  obtain ⟨rank, stateDict, value, items, chunk, dtype, hstateDict, hvalue, hitems, hitem, harea⟩ :=
    hparts.covers (fun rank stateDict value hstateDict hvalue =>
      let ⟨_, _, hbuild⟩ := hplanOf hstateDict
      exists_leafWriteItems hbuild hvalue) x hx
  obtain ⟨plan, hplan, hbuild⟩ := hplanOf hstateDict
  have hall : tensorWriteItem fqn chunk dtype shape ∈ allItems plans :=
    mem_flatMap.mpr ⟨plan, hplan, (mem_buildLocalPlan hbuild).mpr
      ⟨value, items, hvalue, hitems, hitem⟩⟩
  obtain ⟨found, dtype', heq, hwithin, -⟩ :=
    hparts.items rank stateDict value items hstateDict hvalue hitems _ hitem
  obtain rfl : chunk = found := by
    simpa [tensorWriteItem] using congrArg (fun item => item.tensorData.map (·.chunk)) heq
  refine ⟨chunk, ?_, harea⟩
  obtain ⟨y, hy, -⟩ := (inArea_chunkToArea_iff hwithin.matched).mp harea
  have hprod := MixedRadix.value_lt hy.flip
  apply chunk_mem_of_item rfl hshared hbytes hall
  · have hsize := dtypeElementSize_pos (some dtype)
    simp only [WriteItem.tensorStorageSize, tensorWriteItem, ne_eq, Option.some.injEq,
      Nat.mul_eq_zero]
    omega
  · simp [WriteItem.chunkFor, tensorWriteItem]

end

theorem Sharded.parts (hlayout : LayoutOf layout shape)
    (h : Sharded stateDicts fqn global shape layout) :
    SavedParts stateDicts fqn global shape where
  items := by
    intro rank stateDict value items hstateDict hvalue hitems item hitem
    by_cases hrank : rank ∈ layout.mesh.rankList
    · obtain ⟨localTensor, hget, hholds⟩ := h.held rank stateDict hstateDict hrank
      obtain rfl := Option.some.inj (hget.symm.trans hvalue)
      obtain ⟨chunks, hchunks, rfl⟩ := leafWriteItems_chunks hlayout hrank hholds hitems
      obtain ⟨chunk, hchunk, rfl⟩ := mem_map.mp hitem
      refine ⟨chunk, localTensor.dtype, rfl, (layoutChunks_within hlayout hchunks).1 chunk hchunk,
        fun kept htype hkey => ?_⟩
      have hfqn : kept.index.fqn = fqn := congrArg Prod.fst hkey
      rw [← hfqn] at hget
      exact getData_holds hlayout hholds hchunks hchunk hget htype (congrArg Prod.snd hkey)
    · rw [h.elsewhere rank stateDict hstateDict hrank] at hvalue
      cases hvalue
  covers := by
    intro hok x hx
    have hrank : ∀ rank ∈ layout.mesh.rankList, ∃ (stateDict : _) (localTensor : Tensor α)
        (chunks : _), stateDicts[rank]? = some stateDict ∧ stateDict.fqnNames.get? fqn =
          some (.leaf (.dtensor ⟨shape, some layout, localTensor⟩)) ∧
        layoutChunks shape layout rank = .ok chunks ∧
        leafWriteItems rank fqn (.leaf (.dtensor ⟨shape, some layout, localTensor⟩) :
          StateValue α β) = .ok (chunks.map fun chunk =>
            tensorWriteItem fqn chunk localTensor.dtype shape) := by
      intro rank hmem
      have hstateDict := getElem?_eq_getElem (h.ranks rank hmem)
      obtain ⟨localTensor, hget, hholds⟩ := h.held rank _ hstateDict hmem
      obtain ⟨items, hitems⟩ := hok rank _ _ hstateDict hget
      obtain ⟨chunks, hchunks, rfl⟩ := leafWriteItems_chunks hlayout hmem hholds hitems
      exact ⟨_, localTensor, chunks, hstateDict, hget, hchunks, hitems⟩
    obtain ⟨rank, hmem, chunks, hchunks, chunk, hchunk, harea⟩ := layoutChunks_covers hlayout
      (fun rank hmem => let ⟨_, _, chunks, _, _, hchunks, _⟩ := hrank rank hmem
        ⟨chunks, hchunks⟩) hx
    obtain ⟨stateDict, localTensor, chunks', hstateDict, hget, hchunks', hitems⟩ := hrank rank hmem
    obtain rfl : chunks = chunks' := Except.ok.inj (hchunks.symm.trans hchunks')
    exact ⟨rank, stateDict, _, _, chunk, localTensor.dtype, hstateDict, hget, hitems,
      mem_map_of_mem hchunk, harea⟩

theorem Saved.chunk_holds (hsave : Saved planner stateDicts finals metadata)
    (hlayout : LayoutOf layout shape) (htensor : Sharded stateDicts fqn global shape layout)
    {store : String × List Nat → Option (Tensor α)} (hstore : Stored stateDicts finals store)
    (hchunk : chunk ∈ metadata.chunks fqn) :
    chunk.Within shape ∧ ∃ tensor, store (fqn, chunk.offsets) = some tensor ∧
      HoldsChunk global chunk tensor :=
  hsave.part_holds (htensor.length_pos hlayout) (htensor.parts hlayout) hstore hchunk

theorem Saved.covers (hsave : Saved planner stateDicts finals metadata)
    (hlayout : LayoutOf layout shape) (htensor : Sharded stateDicts fqn global shape layout)
    {x : List Nat} (hx : InShape shape x) :
    ∃ chunk ∈ metadata.chunks fqn, InArea (chunkToArea chunk) x :=
  hsave.parts_cover (htensor.length_pos hlayout) (htensor.parts hlayout) hx

end SavedTensor

/--
Whatever the layouts a tensor is saved and loaded under, the read items of a rank stay inside
their chunks, and reading them gives every local chunk its global elements.
-/
theorem resharding_exact {planner : StandardSavePlanner} {stateDicts : List (FlatStateDict α β)}
    {finals : List SavePlan} {metadata : Metadata} {fqn : String} {global : List Nat → α}
    {shape : List Nat} {saveLayout loadLayout : Layout}
    {store : String × List Nat → Option (Tensor α)} {rank : Nat}
    {localChunks : List ChunkStorageMetadata} {localTensor : Tensor α} (broadcastable : Bool)
    (hsave : Saved planner stateDicts finals metadata) (hsaveLayout : LayoutOf saveLayout shape)
    (htensor : Sharded stateDicts fqn global shape saveLayout)
    (hstore : Stored stateDicts finals store) (hloadLayout : LayoutOf loadLayout shape)
    (hchunks : createChunkListForTensor rank
      (.leaf (.dtensor ⟨shape, some loadLayout, localTensor⟩) : StateValue α β) =
        .ok localChunks) :
    (∀ x, InShape shape x → ∃ md, metadata.stateDictMetadata.get? fqn = some (.tensor md)) ∧
    ∀ md, metadata.stateDictMetadata.get? fqn = some (.tensor md) →
      ∃ items, createReadItemsForChunkList fqn md localChunks broadcastable = .ok items ∧
        (∀ item ∈ items, ∃ localChunk ∈ localChunks, ∃ savedChunk ∈ md.chunks,
          ReadsBetween shape localChunk savedChunk item) ∧
        (∀ localChunk ∈ localChunks, ∀ y, InShape localChunk.sizes y →
          ∃ item ∈ items, item.destIndex.offset = localChunk.offsets ∧ item.Copies y) ∧
        ∀ targets : List (Tensor α),
          List.Forall₂ (fun chunk target => target.shape = chunk.sizes) localChunks targets →
          ∃ result, executeRead store localChunks items targets = .ok result ∧
            List.Forall₂ (HoldsChunk global) localChunks result := by
  have hmd : ∀ md, metadata.stateDictMetadata.get? fqn = some (.tensor md) →
      metadata.chunks fqn = md.chunks := by
    intro md hget
    rw [Metadata.chunks, hget]
  constructor
  · intro x hx
    obtain ⟨chunk, hchunk, -⟩ := hsave.covers hsaveLayout htensor hx
    unfold Metadata.chunks at hchunk
    split at hchunk
    · exact ⟨_, by assumption⟩
    · cases hchunk
  · intro md hget
    obtain ⟨hlocal, hdistinct⟩ := layoutChunks_within hloadLayout hchunks
    apply executeRead_holds broadcastable hlocal hdistinct
    · intro chunk hchunk
      rw [← hmd md hget] at hchunk
      exact hsave.chunk_holds hsaveLayout htensor hstore hchunk
    · intro x hx
      rw [← hmd md hget]
      exact hsave.covers hsaveLayout htensor hx

/-- One tensor dimension on a mesh of two ranks. -/
theorem pairRanks_names :
    ∀ names ∈ (none : Option (List String)), names.length = [2].length ∧ names.Nodup := by
  simp

theorem pairRanks_length : [0, 1].length = [2].prod := rfl

def pairLayout (axis : Int) : Layout where
  mesh := {
    meshShape := [2]
    meshDimNames := none
    rankList := [0, 1]
    names_ok := pairRanks_names
    ranks_ok := pairRanks_length }
  tensorMap := some [.axis axis]
  partialOps := [none]
  placements := none
  raggedShard := none
  tensorShape := none
  tensorStride := none
  tensorDtype := "None"
  compactStr := ""

theorem pairLayout_layoutOf (axis : Int) (h : axis = 0 ∨ axis = DTensor.NONE) :
    LayoutOf (pairLayout axis) [3] where
  sizes_pos := by simp [pairLayout]
  ranks_nodup := by simp [pairLayout]
  map_wellFormed := fun _ => by
    refine ⟨_, rfl, ?_, rfl⟩
    rcases h with rfl | rfl <;> exact ⟨by decide, by decide⟩

def pairShard (rank : Nat) : Tensor Nat where
  dtype := "torch.float32"
  shape := [if rank = 0 then 2 else 1]
  elem y := 2 * rank + y.getD 0 0

def pairStateDict (rank : Nat) : FlatStateDict Nat Nat where
  fqnNames := PyDict.empty.set "w" (.leaf (.dtensor ⟨[3], some (pairLayout 0), pairShard rank⟩))
  mappings := PyDict.empty.set "w" [.name "w"]

def pairItem (rank : Nat) (index : Option Nat) : WriteItem :=
  let item := tensorWriteItem "w" ⟨[2 * rank], (pairShard rank).shape⟩ "torch.float32" [3]
  { item with index := { item.index with index := index } }

def pairPlan (rank : Nat) (index : Option Nat) : SavePlan where
  items := [pairItem rank index]
  plannerData := some (PyDict.empty.set "w" [.name "w"])

def pairMetadata : Metadata where
  stateDictMetadata := PyDict.empty.set "w"
    (.tensor ⟨{ dtype := some "torch.float32" }, [3], [⟨[0], [2]⟩, ⟨[2], [1]⟩]⟩)
  plannerData := some (PyDict.empty.set "w" [.name "w"])

theorem pair_saved : Saved { rank := 0 } [pairStateDict 0, pairStateDict 1]
    [pairPlan 0 (some 0), pairPlan 1 (some 1)] pairMetadata where
  built := by
    refine ⟨[pairPlan 0 none, pairPlan 1 none], rfl, ?_, ?_⟩
    · intro rank stateDict plan hs hp
      match rank with
      | 0 => cases hs; cases hp; rfl
      | 1 => cases hs; cases hp; rfl
      | _ + 2 => simp at hs
    · intro rank hrank
      match rank, hrank with
      | 0, _ => exact ⟨_, rfl, by decide +kernel⟩
      | 1, _ => exact ⟨_, rfl, by decide +kernel⟩

theorem pair_sharded :
    Sharded [pairStateDict 0, pairStateDict 1] "w" (fun x => x.getD 0 0) [3] (pairLayout 0) where
  ranks := by simp [pairLayout]
  held := by
    intro rank stateDict hs _
    have hholds : ∀ (rank : Nat) (area : Area), rank < 2 →
        inferSliceAreaByLayout (pairLayout 0) ((pairLayout 0).mesh.rankList.idxOf rank) [3] =
          some area → area = [(2 * rank, 2 * rank + if rank = 0 then 2 else 1)] := by
      intro rank area hrank harea
      obtain rfl | rfl : rank = 0 ∨ rank = 1 := by omega
      · exact (Option.some.inj harea).symm
      · exact (Option.some.inj harea).symm
    have hshard : ∀ rank < 2, HoldsShard (fun x => x.getD 0 0) [3] (pairLayout 0) rank
        (pairShard rank) := by
      intro rank hrank
      refine ⟨fun _ area harea => ?_, fun interval hslice => by cases hslice⟩
      obtain rfl := hholds rank area hrank harea
      refine ⟨by simp [pairShard, areaChunk], ?_⟩
      intro y hy
      cases hy with
      | cons _ hrest =>
        cases hrest
        simp [pairShard, areaChunk]
    rcases rank with _ | _ | rank
    · cases hs
      exact ⟨_, rfl, hshard 0 (by decide)⟩
    · cases hs
      exact ⟨_, rfl, hshard 1 (by decide)⟩
    · simp at hs
  elsewhere := by
    intro rank stateDict hs hnot
    rcases rank with _ | _ | rank
    · simp [pairLayout] at hnot
    · simp [pairLayout] at hnot
    · simp at hs

def pairStore (key : String × List Nat) : Option (Tensor Nat) :=
  if key = ("w", [0]) then some (pairShard 0)
  else if key = ("w", [2]) then some (pairShard 1) else none

theorem pair_stored : Stored [pairStateDict 0, pairStateDict 1]
    [pairPlan 0 (some 0), pairPlan 1 (some 1)] pairStore := by
  intro rank stateDict final item tensor hs hf hitem hdata
  match rank with
  | 0 =>
    cases hs
    cases hf
    obtain rfl := mem_singleton.mp hitem
    cases hdata
    rfl
  | 1 =>
    cases hs
    cases hf
    obtain rfl := mem_singleton.mp hitem
    cases hdata
    rfl
  | _ + 2 => simp at hs

def wholeChunks : List ChunkStorageMetadata := [⟨[0], [3]⟩]

/-- Saved in two shards, loaded whole. -/
theorem resharding_exact_pair :
    (∀ x, InShape [3] x → ∃ md, pairMetadata.stateDictMetadata.get? "w" = some (.tensor md)) ∧
    ∀ md, pairMetadata.stateDictMetadata.get? "w" = some (.tensor md) →
      ∃ items, createReadItemsForChunkList "w" md wholeChunks true = .ok items ∧
        (∀ item ∈ items, ∃ localChunk ∈ wholeChunks, ∃ savedChunk ∈ md.chunks,
          ReadsBetween [3] localChunk savedChunk item) ∧
        (∀ localChunk ∈ wholeChunks, ∀ y, InShape localChunk.sizes y →
          ∃ item ∈ items, item.destIndex.offset = localChunk.offsets ∧ item.Copies y) ∧
        ∀ targets : List (Tensor Nat),
          List.Forall₂ (fun chunk target => target.shape = chunk.sizes) wholeChunks targets →
          ∃ result, executeRead pairStore wholeChunks items targets = .ok result ∧
            List.Forall₂ (HoldsChunk fun x => x.getD 0 0) wholeChunks result :=
  resharding_exact true pair_saved (pairLayout_layoutOf 0 (.inl rfl)) pair_sharded pair_stored
    (pairLayout_layoutOf DTensor.NONE (.inr rfl))
    (show createChunkListForTensor 1 (.leaf (.dtensor ⟨[3], some (pairLayout DTensor.NONE),
      pairShard 0⟩) : StateValue Nat Nat) = .ok wholeChunks from rfl)

end HyperParallel.Checkpoint
