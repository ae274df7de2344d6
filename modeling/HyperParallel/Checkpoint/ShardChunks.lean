import HyperParallel.Checkpoint.ReadItems

/-!
# The chunks of a sharded tensor

The chunks of all ranks of a layout cover the global tensor, and what a rank
writes for a chunk are the global elements of the chunk.
-/

namespace HyperParallel.Checkpoint

open Foundation List
open HyperParallel.DTensor (Layout InArea InShape AreaInBounds WellFormed sliceArea
  sliceArea_inBounds inferSliceAreaByRank_eq)

variable {α β : Type}

structure ChunkStorageMetadata.Within (shape : List Nat) (chunk : ChunkStorageMetadata) :
    Prop where
  offsets_length : chunk.offsets.length = shape.length
  sizes_length : chunk.sizes.length = shape.length
  element : ∀ y, InShape chunk.sizes y → InShape shape (List.zipWith (· + ·) chunk.offsets y)

theorem ChunkStorageMetadata.Within.matched {shape : List Nat} {chunk : ChunkStorageMetadata}
    (h : chunk.Within shape) : chunk.Matched :=
  h.offsets_length.trans h.sizes_length.symm

structure HoldsChunk (global : List Nat → α) (chunk : ChunkStorageMetadata) (tensor : Tensor α) :
    Prop where
  shape : tensor.shape = chunk.sizes
  elem : ∀ y, InShape chunk.sizes y → tensor.elem y = global (List.zipWith (· + ·) chunk.offsets y)

structure LayoutOf (layout : Layout) (shape : List Nat) : Prop where
  sizes_pos : ∀ size ∈ layout.mesh.meshShape, 0 < size
  ranks_nodup : layout.mesh.rankList.Nodup
  map_wellFormed : layout.raggedShard = none → ∃ tensorMap, layout.tensorMap = some tensorMap ∧
    WellFormed layout.mesh.meshShape.length tensorMap ∧ tensorMap.length = shape.length

structure HoldsShard (global : List Nat → α) (shape : List Nat) (layout : Layout) (rank : Nat)
    (localTensor : Tensor α) : Prop where
  plain : layout.raggedShard = none → ∀ area,
    inferSliceAreaByLayout layout (layout.mesh.rankList.idxOf rank) shape = some area →
      HoldsChunk global (areaChunk area) localTensor
  ragged : ∀ interval, computeRaggedSlice shape layout rank = .ok interval →
    localTensor.shape.prod = interval.2 - interval.1 ∧
      ∀ position < interval.2 - interval.1,
        localTensor.flat position = global (MixedRadix.digits shape (interval.1 + position))

section Plain

variable {shape : List Nat} {layout : Layout}

theorem LayoutOf.exists_area (h : LayoutOf layout shape) (hplain : layout.raggedShard = none) :
    ∃ area : Nat → Area,
      (∀ rankId, inferSliceAreaByLayout layout rankId shape = some (area rankId)) ∧
      (∀ rankId, AreaInBounds shape (area rankId)) ∧
      ∀ x, InShape shape x → ∃ rankId < layout.mesh.meshShape.prod, InArea (area rankId) x := by
  obtain ⟨tensorMap, hmap, hwell, hlength⟩ := h.map_wellFormed hplain
  let uneven := (DTensor.unevenShardMeshDims layout.placements).map Int.ofNat
  refine ⟨sliceArea layout.mesh.meshShape uneven tensorMap shape, ?_,
    sliceArea_inBounds h.sizes_pos hwell hlength, ?_⟩
  · intro rankId
    rw [inferSliceAreaByLayout, hmap]
    exact inferSliceAreaByRank_eq h.sizes_pos hwell hlength rankId
  · intro x hx
    have hcard := @DTensor.card_holders layout.mesh.meshShape uneven _ _ x h.sizes_pos hwell
      hlength hx
    have hprod : layout.mesh.meshShape.prod ≠ 0 := fun hzero =>
      absurd (h.sizes_pos 0 (prod_eq_zero_iff.mp hzero)) (by omega)
    have hne : ((Finset.range layout.mesh.meshShape.prod).filter fun rank =>
        InArea (sliceArea layout.mesh.meshShape uneven tensorMap shape rank) x).Nonempty := by
      rw [← Finset.card_pos]
      apply Nat.pos_of_ne_zero
      intro hzero
      rw [hzero, Nat.zero_mul] at hcard
      exact hprod hcard.symm
    obtain ⟨rankId, hrank⟩ := hne
    rw [Finset.mem_filter, Finset.mem_range] at hrank
    exact ⟨rankId, hrank⟩

theorem areaChunk_within {area : Area} (h : AreaInBounds shape area) :
    (areaChunk area).Within shape where
  offsets_length := by simpa [areaChunk] using h.length_eq.symm
  sizes_length := by simpa [areaChunk] using h.length_eq.symm
  element := by
    intro y hy
    unfold areaChunk at hy ⊢
    dsimp only at hy ⊢
    induction h generalizing y with
    | nil =>
      cases hy
      exact .nil
    | cons hbounds _ ih =>
      cases hy with
      | cons hpos hy =>
        refine .cons ?_ (ih _ hy)
        dsimp only at hpos ⊢
        omega

theorem inArea_areaChunk {area : Area} (h : AreaInBounds shape area) {x : List Nat} :
    InArea (chunkToArea (areaChunk area)) x ↔ InArea area x := by
  have heq : chunkToArea (areaChunk area) = area := by
    unfold chunkToArea areaChunk
    induction h with
    | nil => rfl
    | cons hbounds _ ih =>
      simp only [map_cons, zipWith_cons_cons, ih]
      congr 1
      exact Prod.ext rfl (by dsimp only; omega)
  rw [heq]

end Plain

section Chunks

variable {shape : List Nat} {layout : Layout} {rank : Nat} {chunks : List ChunkStorageMetadata}

theorem layoutChunks_cases (hlayout : LayoutOf layout shape)
    (h : layoutChunks shape layout rank = .ok chunks) :
    (layout.raggedShard = none ∧ rank ∉ layout.mesh.rankList ∧ chunks = []) ∨
    (layout.raggedShard = none ∧ rank ∈ layout.mesh.rankList ∧ ∃ area,
      inferSliceAreaByLayout layout (layout.mesh.rankList.idxOf rank) shape = some area ∧
        AreaInBounds shape area ∧ chunks = [areaChunk area]) ∨
    (layout.raggedShard.isSome = true ∧ ∃ interval rawBoxes,
      computeRaggedSlice shape layout rank = .ok interval ∧
        Consecutive shape interval.1 interval.2 rawBoxes ∧
        computeRaggedBoxes shape layout rank = .ok (raggedBoxes 0 rawBoxes) ∧
        chunks = rawBoxes.map fun box => ⟨box.1, box.2⟩) := by
  unfold layoutChunks at h
  cases hragged : layout.raggedShard with
  | some info =>
    rw [hragged, Option.isSome_some, if_pos rfl] at h
    cases hboxes : computeRaggedBoxes shape layout rank with
    | error e =>
      rw [hboxes] at h
      cases h
    | ok boxes =>
      rw [hboxes] at h
      cases h
      obtain ⟨interval, rawBoxes, hslice, hraw, rfl⟩ := computeRaggedBoxes_consecutive hboxes
      refine .inr (.inr ⟨rfl, interval, rawBoxes, hslice, hraw, rfl, ?_⟩)
      have hmap := congrArg (List.map fun box : List Nat × List Nat =>
        (⟨box.1, box.2⟩ : ChunkStorageMetadata)) (map_raggedBoxes 0 rawBoxes)
      rw [map_map] at hmap
      exact hmap
  | none =>
    obtain ⟨area, harea, hbounds, -⟩ := hlayout.exists_area hragged
    obtain ⟨tensorMap, hmap, -, -⟩ := hlayout.map_wellFormed hragged
    rw [hragged, hmap, if_neg (by simp), if_neg (by simp), harea] at h
    split at h
    · rename_i hrank
      cases h
      exact .inr (.inl ⟨rfl, hrank, _, harea _, hbounds _, rfl⟩)
    · rename_i hrank
      cases h
      exact .inl ⟨rfl, hrank, rfl⟩

theorem layoutChunks_within (hlayout : LayoutOf layout shape)
    (h : layoutChunks shape layout rank = .ok chunks) :
    (∀ chunk ∈ chunks, chunk.Within shape) ∧ (chunks.map (·.offsets)).Nodup := by
  rcases layoutChunks_cases hlayout h with ⟨-, -, rfl⟩ | ⟨-, -, area, -, hbounds, rfl⟩ |
    ⟨-, interval, rawBoxes, -, hraw, -, rfl⟩
  · exact ⟨by simp, nodup_nil⟩
  · refine ⟨?_, by simp⟩
    intro chunk hchunk
    obtain rfl := mem_singleton.mp hchunk
    exact areaChunk_within hbounds
  · refine ⟨?_, by simpa [Function.comp_def] using hraw.nodup_offsets⟩
    intro chunk hchunk
    obtain ⟨box, hbox, rfl⟩ := mem_map.mp hchunk
    obtain ⟨front, back, rfl⟩ := append_of_mem hbox
    have hat := hraw.boxAt
    exact ⟨hat.offsets_length, hat.sizes_length, fun y hy => (hat.element y hy).1⟩

theorem layoutChunks_covers (hlayout : LayoutOf layout shape)
    (hok : ∀ rank ∈ layout.mesh.rankList, ∃ chunks, layoutChunks shape layout rank = .ok chunks)
    {x : List Nat} (hx : InShape shape x) :
    ∃ rank ∈ layout.mesh.rankList, ∃ chunks, layoutChunks shape layout rank = .ok chunks ∧
      ∃ chunk ∈ chunks, InArea (chunkToArea chunk) x := by
  have hprod : 0 < layout.mesh.meshShape.prod := Nat.pos_of_ne_zero fun hzero =>
    absurd (hlayout.sizes_pos 0 (prod_eq_zero_iff.mp hzero)) (by omega)
  cases hragged : layout.raggedShard with
  | none =>
    obtain ⟨area, harea, hbounds, hholder⟩ := hlayout.exists_area hragged
    obtain ⟨rankId, hlt, hmem⟩ := hholder x hx
    rw [← layout.mesh.ranks_ok] at hlt
    have hrank := getElem_mem hlt
    obtain ⟨chunks, hchunks⟩ := hok _ hrank
    refine ⟨_, hrank, chunks, hchunks, ?_⟩
    rcases layoutChunks_cases hlayout hchunks with ⟨-, hnot, -⟩ | ⟨-, -, area', harea', -, rfl⟩ |
      ⟨hsome, -⟩
    · exact absurd hrank hnot
    · rw [hlayout.ranks_nodup.idxOf_getElem, harea] at harea'
      obtain rfl := Option.some.inj harea'
      exact ⟨_, by simp, (inArea_areaChunk (hbounds _)).mpr hmem⟩
    · rw [hragged] at hsome
      cases hsome
  | some info =>
    rw [← layout.mesh.ranks_ok] at hprod
    obtain ⟨chunks₀, hchunks₀⟩ := hok _ (getElem_mem hprod)
    have hslice₀ : ∃ interval, computeRaggedSlice shape layout layout.mesh.rankList[0] =
        .ok interval := by
      rcases layoutChunks_cases hlayout hchunks₀ with ⟨hnone, -⟩ | ⟨hnone, -⟩ |
        ⟨-, interval, -, hslice, -⟩
      · rw [hragged] at hnone
        cases hnone
      · rw [hragged] at hnone
        cases hnone
      · exact ⟨interval, hslice⟩
    obtain ⟨interval₀, hslice₀⟩ := hslice₀
    obtain ⟨info', hinfo, hdivides, hunits, hall⟩ := computeRaggedSlice_of_ok hslice₀
    -- The element's place in the flattened tensor lies in one of the intervals.
    obtain ⟨l, hl, hle, hlt⟩ := exists_raggedInterval hdivides (MixedRadix.value_lt hx.flip)
    obtain ⟨rank, hrank, hlocal⟩ := exists_getLocalRank hlayout.sizes_pos hlayout.ranks_nodup
      (hunits ▸ hl)
    obtain ⟨chunks, hchunks⟩ := hok rank hrank
    refine ⟨rank, hrank, chunks, hchunks, ?_⟩
    rcases layoutChunks_cases hlayout hchunks with ⟨hnone, -⟩ | ⟨hnone, -⟩ |
      ⟨-, interval, rawBoxes, hslice, hraw, -, rfl⟩
    · rw [hragged] at hnone
      cases hnone
    · rw [hragged] at hnone
      cases hnone
    · rw [hall, hlocal] at hslice
      cases hslice
      obtain ⟨front, box, back, rfl, y, hy, heq⟩ := hraw.exists_box hle hlt
      have hat := hraw.boxAt
      refine ⟨⟨box.1, box.2⟩, mem_map.mpr ⟨box, by simp, rfl⟩, ?_⟩
      have hmatched : (⟨box.1, box.2⟩ : ChunkStorageMetadata).Matched :=
        hat.offsets_length.trans hat.sizes_length.symm
      rw [inArea_chunkToArea_iff hmatched]
      refine ⟨y, hy, value_inj hx (hat.element y hy).1 ?_⟩
      rw [heq, (hat.element y hy).2]

end Chunks

/-! ## What a rank writes -/

section Writes

variable {global : List Nat → α} {shape : List Nat} {layout : Layout} {rank : Nat}
  {localTensor : Tensor α}

theorem leafWriteItems_chunks (hlayout : LayoutOf layout shape)
    (hrank : rank ∈ layout.mesh.rankList)
    (hholds : HoldsShard global shape layout rank localTensor) {fqn : String}
    {items : List WriteItem}
    (h : leafWriteItems rank fqn (.leaf (.dtensor ⟨shape, some layout, localTensor⟩) :
      StateValue α β) = .ok items) :
    ∃ chunks, layoutChunks shape layout rank = .ok chunks ∧
      items = chunks.map fun chunk => tensorWriteItem fqn chunk localTensor.dtype shape := by
  unfold leafWriteItems at h
  dsimp only at h
  unfold layoutChunks
  split at h
  · rename_i hragged
    rw [if_pos hragged]
    unfold createRaggedWriteItems at h
    dsimp only at h
    cases hboxes : computeRaggedBoxes shape layout rank with
    | error e =>
      rw [hboxes] at h
      cases h
    | ok boxes =>
      rw [hboxes] at h
      cases h
      refine ⟨_, rfl, ?_⟩
      rw [map_map]
      rfl
  · rename_i hragged
    have hplain : layout.raggedShard = none := by simpa using hragged
    obtain ⟨area, harea, -, -⟩ := hlayout.exists_area hplain
    obtain ⟨tensorMap, hmap, -, -⟩ := hlayout.map_wellFormed hplain
    have hsizes := (hholds.plain hplain _ (harea _)).shape
    rw [if_neg hragged, hmap, if_neg (by simp), if_pos hrank, harea]
    rw [computeGlobalOffsets, if_pos hrank, harea] at h
    cases h
    refine ⟨_, rfl, ?_⟩
    rw [hsizes]
    rfl

theorem find?_raggedBoxes {start stop : Nat} {rawBoxes front back : List (List Nat × List Nat)}
    {box : List Nat × List Nat} (hraw : Consecutive shape start stop rawBoxes)
    (hsplit : rawBoxes = front ++ box :: back) :
    ∃ found, (raggedBoxes 0 rawBoxes).find? (fun other => decide (other.offsets = box.1)) =
        some found ∧ found.sizes = box.2 ∧
      found.localFlatStart = (front.map fun box => box.2.prod).sum := by
  have hmem : box ∈ (raggedBoxes 0 rawBoxes).map fun box => (box.offsets, box.sizes) := by
    rw [map_raggedBoxes, hsplit]
    simp
  obtain ⟨ragged, hragged, heq⟩ := mem_map.mp hmem
  have hsome : ((raggedBoxes 0 rawBoxes).find? fun other =>
      decide (other.offsets = box.1)).isSome := by
    rw [find?_isSome]
    exact ⟨ragged, hragged, by simp [← heq]⟩
  obtain ⟨found, hfound⟩ := Option.isSome_iff_exists.mp hsome
  have hoffsets : found.offsets = box.1 := by simpa using find?_some hfound
  obtain ⟨front', back', hsplit', hstart⟩ :=
    exists_split_of_mem_raggedBoxes (mem_of_find?_eq_some hfound)
  -- Boxes with the same offsets are one box, so both splits are the same.
  have hdistinct := hraw.nodup_offsets
  have hlengths : front.length = front'.length := by
    have hl : (rawBoxes.map Prod.fst)[front.length]? = some box.1 := by simp [hsplit]
    have hr : (rawBoxes.map Prod.fst)[front'.length]? = some box.1 := by simp [hsplit', hoffsets]
    exact (List.getElem?_inj (List.getElem?_eq_some_iff.mp hl).1 hdistinct).mp (hl.trans hr.symm)
  rw [hsplit] at hsplit'
  obtain ⟨rfl, hrest⟩ := append_inj hsplit' hlengths
  rw [cons.injEq] at hrest
  refine ⟨found, hfound, ?_, by simpa using hstart⟩
  rw [hrest.1]

theorem getRaggedBoxTensor_holds {interval : Nat × Nat} {rawBoxes : List (List Nat × List Nat)}
    (hslice : computeRaggedSlice shape layout rank = .ok interval)
    (hraw : Consecutive shape interval.1 interval.2 rawBoxes)
    (hboxes : computeRaggedBoxes shape layout rank = .ok (raggedBoxes 0 rawBoxes))
    (hholds : HoldsShard global shape layout rank localTensor) {box : List Nat × List Nat}
    (hbox : box ∈ rawBoxes) {index : MetadataIndex} (hindex : index.offset = box.1) :
    ∃ tensor, getRaggedBoxTensor ⟨shape, some layout, localTensor⟩ layout rank index =
        .ok tensor ∧ HoldsChunk global ⟨box.1, box.2⟩ tensor := by
  obtain ⟨front, back, hsplit⟩ := append_of_mem hbox
  obtain ⟨found, hfound, hsizes, hstart⟩ := find?_raggedBoxes hraw hsplit
  have hat : BoxAt shape (interval.1 + (front.map fun box => box.2.prod).sum) box :=
    (hsplit ▸ hraw).boxAt
  have hsum := hraw.sum
  rw [hsplit, map_append, sum_append, map_cons, sum_cons] at hsum
  obtain ⟨-, hflat⟩ := hholds.ragged interval hslice
  have hget : getRaggedBoxTensor ⟨shape, some layout, localTensor⟩ layout rank index = .ok
      { localTensor with
        shape := found.sizes
        elem := fun y => localTensor.flat
          (found.localFlatStart + MixedRadix.value found.sizes y) } := by
    unfold getRaggedBoxTensor
    rw [hboxes]
    simp only [bind, Except.bind, hindex, hfound]
    rfl
  refine ⟨_, hget, hsizes, ?_⟩
  intro y hy
  have hvalue := MixedRadix.value_lt hy.flip
  obtain ⟨hin, heq⟩ := hat.element y hy
  dsimp only
  rw [hsizes, hstart, hflat _ (by dsimp only at hvalue; omega), ← Nat.add_assoc, ← heq,
    MixedRadix.digits_value hin.flip]

theorem getData_holds (hlayout : LayoutOf layout shape)
    (hholds : HoldsShard global shape layout rank localTensor)
    {chunks : List ChunkStorageMetadata} (hchunks : layoutChunks shape layout rank = .ok chunks)
    {chunk : ChunkStorageMetadata} (hchunk : chunk ∈ chunks)
    {stateDict : PyDict String (StateValue α β)} {item : WriteItem}
    (hget : stateDict.get? item.index.fqn =
      some (.leaf (.dtensor ⟨shape, some layout, localTensor⟩)))
    (htype : item.type = .tensor) (hoffset : item.index.offset = chunk.offsets) :
    ∃ tensor, getData rank stateDict item = .ok (.tensor tensor) ∧
      HoldsChunk global chunk tensor := by
  unfold getData
  rw [hget, htype]
  dsimp only
  rcases layoutChunks_cases hlayout hchunks with ⟨-, -, rfl⟩ | ⟨hplain, -, area, harea, -, rfl⟩ |
    ⟨hragged, interval, rawBoxes, hslice, hraw, hboxes, rfl⟩
  · cases hchunk
  · obtain rfl := mem_singleton.mp hchunk
    rw [hplain, if_neg (by simp)]
    exact ⟨localTensor, rfl, hholds.plain hplain area harea⟩
  · obtain ⟨box, hbox, rfl⟩ := mem_map.mp hchunk
    obtain ⟨tensor, htensor, hholdsChunk⟩ :=
      getRaggedBoxTensor_holds hslice hraw hboxes hholds hbox hoffset
    rw [if_pos hragged, htensor]
    exact ⟨tensor, rfl, hholdsChunk⟩

end Writes

end HyperParallel.Checkpoint
