import HyperParallel.Checkpoint.StateDict
import HyperParallel.DTensor.SliceTiling

/-!
# Boxes of a ragged shard

A ragged shard is a row-major interval of the flattened tensor.  It is saved as
a list of boxes, each a whole number of rows of some dimension, which follow
one another in the interval.
-/

namespace HyperParallel.Checkpoint

open Foundation List
open HyperParallel.DTensor (Layout calculateMeshCoordinateForRank InShape)

def getLocalRank (mesh : DTensor.DeviceMesh) (rank meshDim : Nat) : Except PlanError Nat :=
  if rank ∈ mesh.rankList then
    .ok ((calculateMeshCoordinateForRank mesh.meshShape (mesh.rankList.idxOf rank)).getD meshDim 0)
  else .error (.rankNotInMesh rank)

def raggedConflict (info : DTensor.RaggedShardInfo) (placements : List DTensor.Placement) :
    Option Nat :=
  (placements.zipIdx.find? fun entry =>
    decide (entry.2 ≠ info.meshDim ∧ entry.1 ≠ .replicate)).map Prod.snd

def raggedInterval (globalShape : List Nat) (ragged : DTensor.RaggedShard) (localRank : Nat) :
    Nat × Nat :=
  let prefixCells := (globalShape.take ragged.dims.length).prod
  let cellsPerUnit := prefixCells / ragged.localUnits.sum
  let prefixStart := (ragged.localUnits.take localRank).sum * cellsPerUnit
  let localPrefixCells := ragged.localUnits.getD localRank 0 * cellsPerUnit
  let suffixNumel := (globalShape.drop ragged.dims.length).prod
  (prefixStart * suffixNumel, prefixStart * suffixNumel + localPrefixCells * suffixNumel)

def computeRaggedSlice (globalShape : List Nat) (layout : Layout) (rank : Nat) :
    Except PlanError (Nat × Nat) :=
  match layout.raggedShard with
  | none => .error .raggedMissing
  | some info =>
    let ragged := info.placement
    let prefixCells := (globalShape.take ragged.dims.length).prod
    let meshDimSize := layout.mesh.meshShape.getD info.meshDim 0
    match raggedConflict info (layout.placements.getD []) with
    | some meshDim => .error (.onlyReplicateBesideRagged meshDim)
    | none =>
      if globalShape.length < ragged.dims.length then .error .raggedDimsExceedRank
      else if ragged.localUnits.length ≠ meshDimSize then
        .error (.raggedUnitsMismatch ragged.localUnits.length meshDimSize)
      else if prefixCells % ragged.localUnits.sum ≠ 0 then
        .error (.raggedNotDivisible prefixCells ragged.localUnits.sum)
      else (getLocalRank layout.mesh rank info.meshDim).map (raggedInterval globalShape ragged)

/-- The boxes, as offsets and sizes, of an interval inside one block of the leading dimensions. -/
def decomposeAxis : List Nat → Nat → Nat → List Nat → List (List Nat × List Nat)
  | [], _, _, _ => []
  | [_], start, stop, prefixOffsets =>
    [(prefixOffsets ++ [start], List.replicate prefixOffsets.length 1 ++ [stop - start])]
  | _ :: next :: shape, start, stop, prefixOffsets =>
    let inner := next :: shape
    let stride := inner.prod
    let startBlock := start / stride
    let startRemainder := start % stride
    let endBlock := (stop - 1) / stride
    if startBlock = endBlock then
      decomposeAxis inner startRemainder (startRemainder + stop - start)
        (prefixOffsets ++ [startBlock])
    else
      let front :=
        if startRemainder ≠ 0 then
          decomposeAxis inner startRemainder stride (prefixOffsets ++ [startBlock])
        else []
      let completeStart := if startRemainder ≠ 0 then startBlock + 1 else startBlock
      let completeEnd := stop / stride
      let endRemainder := stop % stride
      let complete :=
        if completeStart < completeEnd then
          [(prefixOffsets ++ [completeStart] ++ List.replicate inner.length 0,
            List.replicate prefixOffsets.length 1 ++ [completeEnd - completeStart] ++ inner)]
        else []
      let back :=
        if endRemainder ≠ 0 then
          decomposeAxis inner 0 endRemainder (prefixOffsets ++ [completeEnd])
        else []
      front ++ complete ++ back

def decomposeFlatInterval (shape : List Nat) (flatStart flatEnd : Nat) :
    Except PlanError (List (List Nat × List Nat)) :=
  let totalNumel := shape.prod
  if shape = [] then .error .raggedScalarShape
  else if flatEnd < flatStart ∨ totalNumel < flatEnd then
    .error (.invalidInterval flatStart flatEnd)
  else if flatStart = flatEnd then .ok []
  else .ok (decomposeAxis shape flatStart flatEnd [])

structure RaggedCheckpointBox where
  offsets : List Nat
  sizes : List Nat
  localFlatStart : Nat
  localFlatEnd : Nat
deriving DecidableEq, Repr

def raggedBoxes : Nat → List (List Nat × List Nat) → List RaggedCheckpointBox
  | _, [] => []
  | localFlatOffset, (offsets, sizes) :: boxes =>
    ⟨offsets, sizes, localFlatOffset, localFlatOffset + sizes.prod⟩ ::
      raggedBoxes (localFlatOffset + sizes.prod) boxes

def computeRaggedBoxes (globalShape : List Nat) (layout : Layout) (rank : Nat) :
    Except PlanError (List RaggedCheckpointBox) := do
  let interval ← computeRaggedSlice globalShape layout rank
  let rawBoxes ← decomposeFlatInterval globalShape interval.1 interval.2
  let covered := (rawBoxes.map fun box => box.2.prod).sum
  if covered = interval.2 - interval.1 then .ok (raggedBoxes 0 rawBoxes)
  else .error (.boxesNotCovering covered (interval.2 - interval.1))

/-! ## The boxes follow one another in the interval -/

/-- The elements of the box are those of the interval that starts at `start`, in order. -/
structure BoxAt (shape : List Nat) (start : Nat) (box : List Nat × List Nat) : Prop where
  offsets_length : box.1.length = shape.length
  sizes_length : box.2.length = shape.length
  nonempty : 0 < box.2.prod
  element : ∀ y, InShape box.2 y → InShape shape (List.zipWith (· + ·) box.1 y) ∧
    MixedRadix.value shape (List.zipWith (· + ·) box.1 y) = start + MixedRadix.value box.2 y

/-- The boxes cut the interval from `start` to `stop` in this order. -/
def Consecutive (shape : List Nat) : Nat → Nat → List (List Nat × List Nat) → Prop
  | start, stop, [] => start = stop
  | start, stop, box :: boxes =>
    BoxAt shape start box ∧ Consecutive shape (start + box.2.prod) stop boxes

variable {boxes : List (List Nat × List Nat)} {shape : List Nat} {box : List Nat × List Nat}
  {start stop : Nat}

theorem Consecutive.append {middle : Nat} {front back : List (List Nat × List Nat)}
    (hfront : Consecutive shape start middle front) (hback : Consecutive shape middle stop back) :
    Consecutive shape start stop (front ++ back) := by
  induction front generalizing start with
  | nil =>
    obtain rfl : start = middle := hfront
    exact hback
  | cons box front ih => exact ⟨hfront.1, ih hfront.2⟩

def insideBlock (block : Nat) (box : List Nat × List Nat) : List Nat × List Nat :=
  (block :: box.1, 1 :: box.2)

variable {size : Nat} {globalShape : List Nat}

theorem BoxAt.insideBlock (h : BoxAt shape start box) {block : Nat}
    (hblock : block < size) :
    BoxAt (size :: shape) (block * shape.prod + start) (insideBlock block box) where
  offsets_length := by simp [Checkpoint.insideBlock, h.offsets_length]
  sizes_length := by simp [Checkpoint.insideBlock, h.sizes_length]
  nonempty := by simpa [Checkpoint.insideBlock] using h.nonempty
  element := by
    intro y hy
    cases hy with
    | @cons _ first _ rest hfirst hrest =>
      obtain rfl : first = 0 := by omega
      obtain ⟨hin, hvalue⟩ := h.element rest hrest
      constructor
      · exact .cons (by simpa using hblock) hin
      · simp only [Checkpoint.insideBlock, zipWith_cons_cons, MixedRadix.value, hvalue,
          Nat.add_zero, Nat.zero_mul, Nat.zero_add, Nat.add_assoc]

theorem Consecutive.insideBlock (h : Consecutive shape start stop boxes) {block : Nat}
    (hblock : block < size) :
    Consecutive (size :: shape) (block * shape.prod + start) (block * shape.prod + stop)
      (boxes.map (insideBlock block)) := by
  induction boxes generalizing start with
  | nil =>
    obtain rfl : start = stop := h
    exact rfl
  | cons box boxes ih =>
    refine ⟨h.1.insideBlock hblock, ?_⟩
    have htail := ih h.2
    have hprod : (Checkpoint.insideBlock block box).2.prod = box.2.prod := by
      simp [Checkpoint.insideBlock]
    rw [hprod, Nat.add_assoc]
    exact htail

theorem decomposeAxis_offsets (shape : List Nat) (start stop : Nat) (offsets : List Nat) :
    decomposeAxis shape start stop offsets = (decomposeAxis shape start stop []).map fun box =>
      (offsets ++ box.1, replicate offsets.length 1 ++ box.2) := by
  induction shape generalizing start stop offsets with
  | nil => rfl
  | cons size shape ih =>
    cases shape with
    | nil => simp [decomposeAxis]
    | cons next shape =>
      have hinner : ∀ block lower upper,
          decomposeAxis (next :: shape) lower upper (offsets ++ [block]) =
            (decomposeAxis (next :: shape) lower upper ([] ++ [block])).map fun box =>
              (offsets ++ box.1, replicate offsets.length 1 ++ box.2) := by
        intro block lower upper
        rw [ih lower upper (offsets ++ [block]), ih lower upper ([] ++ [block]), map_map]
        apply map_congr_left
        intro box _
        simp [replicate_succ', append_assoc]
      simp only [decomposeAxis]
      split
      · exact hinner _ _ _
      · rw [map_append, map_append]
        congr 1
        · congr 1
          · split
            · exact hinner _ _ _
            · rfl
          · generalize (if start % (next :: shape).prod ≠ 0 then
              start / (next :: shape).prod + 1
              else start / (next :: shape).prod) = completeStart
            split <;> simp
        · split
          · exact hinner _ _ _
          · rfl

theorem decomposeAxis_block (shape : List Nat) (start stop block : Nat) :
    decomposeAxis shape start stop ([] ++ [block]) =
      (decomposeAxis shape start stop []).map (insideBlock block) := by
  rw [decomposeAxis_offsets]
  rfl

theorem BoxAt.complete {shape : List Nat} {first last : Nat} (hlast : last ≤ size)
    (hlt : first < last) (hpos : 0 < shape.prod) :
    BoxAt (size :: shape) (first * shape.prod)
      (first :: replicate shape.length 0, (last - first) :: shape) where
  offsets_length := by simp
  sizes_length := by simp
  nonempty := by
    rw [prod_cons]
    exact Nat.mul_pos (by omega) hpos
  element := by
    intro y hy
    cases hy with
    | @cons _ head _ rest hhead hrest =>
      have hzero : zipWith (· + ·) (replicate shape.length 0) rest = rest := by
        have hlength : shape.length = rest.length := List.Forall₂.length_eq hrest
        rw [hlength]
        clear hlength hrest
        induction rest with
        | nil => rfl
        | cons a rest ih => simp [replicate_succ, ih]
      rw [zipWith_cons_cons, hzero]
      constructor
      · exact .cons (by omega) hrest
      · simp only [MixedRadix.value]
        ring

theorem decomposeAxis_consecutive (hne : shape ≠ []) (hlt : start < stop)
    (hstop : stop ≤ shape.prod) :
    Consecutive shape start stop (decomposeAxis shape start stop []) := by
  induction shape generalizing start stop with
  | nil => exact absurd rfl hne
  | cons size shape ih =>
    cases shape with
    | nil =>
      have hbox : BoxAt [size] (start * [].prod) (start :: replicate 0 0, [stop - start]) :=
        BoxAt.complete (by simpa using hstop) hlt (by simp)
      refine ⟨by simpa using hbox, ?_⟩
      simp only [Consecutive, replicate, nil_append, length_nil, prod_singleton]
      omega
    | cons next shape =>
      have hinner : next :: shape ≠ [] := by simp
      have hpos : 0 < (next :: shape).prod := by
        rw [prod_cons] at hstop
        exact Nat.pos_of_ne_zero fun hzero => by simp [hzero] at hstop; omega
      rw [prod_cons] at hstop
      generalize hstride : (next :: shape).prod = stride at hpos hstop
      have hstart := Nat.div_add_mod start stride
      have hrest := Nat.mod_lt start hpos
      have hend := Nat.div_add_mod stop stride
      have hendRest := Nat.mod_lt stop hpos
      have hk : start / stride < size := by
        rw [Nat.div_lt_iff_lt_mul hpos]
        omega
      have hce : stop / stride ≤ size :=
        Nat.le_of_mul_le_mul_right (by rw [Nat.mul_comm]; omega) hpos
      simp only [decomposeAxis, hstride]
      rw [Nat.mul_comm] at hstart hend
      split
      · rename_i hsame
        have hlast : stop - 1 < (start / stride + 1) * stride := by
          rw [← Nat.div_lt_iff_lt_mul hpos]
          omega
        rw [Nat.add_mul, Nat.one_mul] at hlast
        have hinside := (@ih (start % stride) (start % stride + stop - start)
          hinner (by omega) (by omega)).insideBlock hk
        rw [hstride] at hinside
        rw [decomposeAxis_block]
        convert hinside using 1 <;> omega
      · rename_i hdiff
        have hmono : start / stride ≤ (stop - 1) / stride := Nat.div_le_div_right (by omega)
        have hnext : (start / stride + 1) * stride ≤ stop - 1 := by
          rw [← Nat.le_div_iff_mul_le hpos]
          omega
        rw [Nat.add_mul, Nat.one_mul] at hnext
        generalize start / stride = k at *
        generalize start % stride = r at *
        generalize stop / stride = ce at *
        generalize stop % stride = er at *
        have hfront : Consecutive (size :: next :: shape) start
            ((if r ≠ 0 then k + 1 else k) * stride)
            (if r ≠ 0 then decomposeAxis (next :: shape) r stride ([] ++ [k]) else []) := by
          split
          · rename_i hr
            have hinside := (@ih r stride hinner hrest (by omega)).insideBlock hk
            rw [hstride] at hinside
            rw [decomposeAxis_block, Nat.add_mul, Nat.one_mul]
            convert hinside using 1
            omega
          · rename_i hr
            change start = k * stride
            omega
        have hle : (if r ≠ 0 then k + 1 else k) ≤ ce := by
          have hnextBlock : k + 1 < ce + 1 := by
            apply Nat.lt_of_mul_lt_mul_right (a := stride)
            rw [Nat.add_mul, Nat.one_mul, Nat.add_mul, Nat.one_mul]
            omega
          split <;> omega
        generalize (if r ≠ 0 then k + 1 else k) = cs at *
        have hcomplete : Consecutive (size :: next :: shape) (cs * stride) (ce * stride)
            (if cs < ce then [([] ++ [cs] ++ replicate (next :: shape).length 0,
              replicate 0 1 ++ [ce - cs] ++ (next :: shape))] else []) := by
          split
          · rename_i hcs
            have hbox := @BoxAt.complete size (next :: shape) cs ce hce hcs (by omega)
            rw [hstride] at hbox
            refine ⟨hbox, ?_⟩
            change cs * stride + ((ce - cs) :: next :: shape).prod = ce * stride
            rw [prod_cons, hstride, ← Nat.add_mul]
            congr 1
            omega
          · obtain rfl : cs = ce := by omega
            exact rfl
        have hback : Consecutive (size :: next :: shape) (ce * stride) stop
            (if er ≠ 0 then decomposeAxis (next :: shape) 0 er ([] ++ [ce]) else []) := by
          split
          · rename_i her
            have hce' : ce < size := by
              apply Nat.lt_of_mul_lt_mul_right (a := stride)
              omega
            have hinside := (@ih 0 er hinner (by omega) (by omega)).insideBlock hce'
            rw [hstride] at hinside
            rw [decomposeAxis_block]
            convert hinside using 1 <;> omega
          · change ce * stride = stop
            omega
        exact (hfront.append hcomplete).append hback

theorem Consecutive.exists_box (h : Consecutive shape start stop boxes) {f : Nat}
    (hstart : start ≤ f) (hstop : f < stop) :
    ∃ front box back, boxes = front ++ box :: back ∧ ∃ y, InShape box.2 y ∧
      f = start + (front.map fun box => box.2.prod).sum + MixedRadix.value box.2 y := by
  induction boxes generalizing start with
  | nil =>
    obtain rfl : start = stop := h
    omega
  | cons box boxes ih =>
    by_cases hf : f < start + box.2.prod
    · refine ⟨[], box, boxes, rfl, MixedRadix.digits box.2 (f - start), ?_, ?_⟩
      · have hpos : ∀ size ∈ box.2, 0 < size := by
          intro size hsize
          apply Nat.pos_of_ne_zero
          rintro rfl
          rw [prod_eq_zero hsize] at hf
          omega
        exact (MixedRadix.forall₂_digits_lt hpos (f - start)).flip
      · rw [MixedRadix.value_digits (by omega)]
        simp only [map_nil, sum_nil]
        omega
    · obtain ⟨front, found, back, rfl, y, hy, hf⟩ := ih h.2 (by omega)
      refine ⟨box :: front, found, back, rfl, y, hy, ?_⟩
      rw [hf, map_cons, sum_cons]
      omega

theorem Consecutive.boxAt {front back : List (List Nat × List Nat)}
    (h : Consecutive shape start stop (front ++ box :: back)) :
    BoxAt shape (start + (front.map fun box => box.2.prod).sum) box := by
  induction front generalizing start with
  | nil => simpa using h.1
  | cons first front ih =>
    have hrest := ih h.2
    rw [map_cons, sum_cons, ← Nat.add_assoc]
    exact hrest

theorem Consecutive.sum (h : Consecutive shape start stop boxes) :
    start + (boxes.map fun box => box.2.prod).sum = stop := by
  induction boxes generalizing start with
  | nil => exact h
  | cons box boxes ih =>
    have hrest := ih h.2
    rw [map_cons, sum_cons]
    omega

theorem value_inj {x x' : List Nat} (hx : InShape shape x) (hx' : InShape shape x')
    (h : MixedRadix.value shape x = MixedRadix.value shape x') : x = x' := by
  rw [← MixedRadix.digits_value hx.flip, ← MixedRadix.digits_value hx'.flip, h]

theorem decomposeFlatInterval_consecutive {flatStart flatEnd : Nat}
    (h : decomposeFlatInterval shape flatStart flatEnd = .ok boxes) :
    Consecutive shape flatStart flatEnd boxes := by
  unfold decomposeFlatInterval at h
  dsimp only at h
  split at h
  · cases h
  · rename_i hne
    split at h
    · cases h
    · split at h
      · rename_i heq
        cases h
        exact heq
      · cases h
        exact decomposeAxis_consecutive hne (by omega) (by omega)

theorem BoxAt.value_offsets (h : BoxAt shape start box) : MixedRadix.value shape box.1 = start := by
  have hzeros : InShape box.2 (MixedRadix.digits box.2 0) := by
    apply List.Forall₂.flip
    apply MixedRadix.forall₂_digits_lt
    intro size hsize
    apply Nat.pos_of_ne_zero
    rintro rfl
    exact absurd (prod_eq_zero hsize) (Nat.pos_iff_ne_zero.mp h.nonempty)
  have hadd : ∀ offsets sizes : List Nat, offsets.length = sizes.length →
      zipWith (· + ·) offsets (MixedRadix.digits sizes 0) = offsets := by
    intro offsets sizes hlength
    induction offsets generalizing sizes with
    | nil => rfl
    | cons offset offsets ih =>
      cases sizes with
      | nil => simp at hlength
      | cons size sizes => simp [MixedRadix.digits, ih sizes (by simpa using hlength)]
  have hvalue := (h.element _ hzeros).2
  rw [hadd box.1 box.2 (h.offsets_length.trans h.sizes_length.symm),
    MixedRadix.value_digits h.nonempty] at hvalue
  simpa using hvalue

theorem Consecutive.start_le (h : Consecutive shape start stop boxes) (hbox : box ∈ boxes) :
    start ≤ MixedRadix.value shape box.1 := by
  induction boxes generalizing start with
  | nil => cases hbox
  | cons first boxes ih =>
    rcases mem_cons.mp hbox with rfl | hbox
    · exact h.1.value_offsets.ge
    · have hrest := ih h.2 hbox
      omega

theorem Consecutive.nodup_offsets (h : Consecutive shape start stop boxes) :
    (boxes.map Prod.fst).Nodup := by
  induction boxes generalizing start with
  | nil => exact nodup_nil
  | cons first boxes ih =>
    rw [map_cons, nodup_cons]
    refine ⟨?_, ih h.2⟩
    intro hmem
    obtain ⟨box, hbox, heq⟩ := mem_map.mp hmem
    have hlater := h.2.start_le hbox
    rw [heq, h.1.value_offsets] at hlater
    have hpos := h.1.nonempty
    omega

theorem map_raggedBoxes (localFlatOffset : Nat) (boxes : List (List Nat × List Nat)) :
    (raggedBoxes localFlatOffset boxes).map (fun box => (box.offsets, box.sizes)) = boxes := by
  induction boxes generalizing localFlatOffset with
  | nil => rfl
  | cons box boxes ih =>
    obtain ⟨offsets, sizes⟩ := box
    rw [raggedBoxes, map_cons, ih]

theorem exists_split_of_mem_raggedBoxes {localFlatOffset : Nat} {box : RaggedCheckpointBox}
    (h : box ∈ raggedBoxes localFlatOffset boxes) :
    ∃ front back, boxes = front ++ (box.offsets, box.sizes) :: back ∧
      box.localFlatStart = localFlatOffset + (front.map fun box => box.2.prod).sum := by
  induction boxes generalizing localFlatOffset with
  | nil => cases h
  | cons first boxes ih =>
    obtain ⟨offsets, sizes⟩ := first
    rw [raggedBoxes] at h
    rcases mem_cons.mp h with rfl | h
    · exact ⟨[], boxes, rfl, rfl⟩
    · obtain ⟨front, back, rfl, hstart⟩ := ih h
      refine ⟨(offsets, sizes) :: front, back, rfl, ?_⟩
      rw [hstart, map_cons, sum_cons, Nat.add_assoc]

theorem computeRaggedBoxes_consecutive {layout : Layout} {rank : Nat}
    {boxes : List RaggedCheckpointBox}
    (h : computeRaggedBoxes globalShape layout rank = .ok boxes) :
    ∃ interval rawBoxes, computeRaggedSlice globalShape layout rank = .ok interval ∧
      Consecutive globalShape interval.1 interval.2 rawBoxes ∧ boxes = raggedBoxes 0 rawBoxes := by
  unfold computeRaggedBoxes at h
  obtain ⟨interval, hslice, h⟩ := bind_eq_ok h
  obtain ⟨rawBoxes, hraw, h⟩ := bind_eq_ok h
  refine ⟨interval, rawBoxes, hslice, decomposeFlatInterval_consecutive hraw, ?_⟩
  dsimp only at h
  split at h
  · cases h
    rfl
  · cases h

/-! ## The intervals of all ranks -/

/-- Consecutive intervals, a multiple of `c` long each, leave out no position. -/
theorem exists_interval (units : List Nat) (c : Nat) {f : Nat} (h : f < units.sum * c) :
    ∃ l < units.length, (units.take l).sum * c ≤ f ∧
      f < (units.take l).sum * c + units.getD l 0 * c := by
  induction units generalizing f with
  | nil => simp at h
  | cons first units ih =>
    rw [sum_cons, Nat.add_mul] at h
    by_cases hf : f < first * c
    · exact ⟨0, by simp, by simp, by simpa using hf⟩
    · obtain ⟨l, hl, hle, hlt⟩ := @ih (f - first * c) (by omega)
      refine ⟨l + 1, by simpa using hl, ?_, ?_⟩
      · rw [take_succ_cons, sum_cons, Nat.add_mul]
        omega
      · rw [take_succ_cons, sum_cons, Nat.add_mul, getD_cons_succ]
        omega

theorem exists_raggedInterval {ragged : DTensor.RaggedShard}
    (hdivides : (globalShape.take ragged.dims.length).prod % ragged.localUnits.sum = 0) {f : Nat}
    (hf : f < globalShape.prod) :
    ∃ l < ragged.localUnits.length, (raggedInterval globalShape ragged l).1 ≤ f ∧
      f < (raggedInterval globalShape ragged l).2 := by
  have hprod : (globalShape.take ragged.dims.length).prod *
      (globalShape.drop ragged.dims.length).prod = globalShape.prod := by
    rw [← prod_append, take_append_drop]
  have hcells := Nat.div_mul_cancel (Nat.dvd_of_mod_eq_zero hdivides)
  obtain ⟨l, hl, hle, hlt⟩ := exists_interval ragged.localUnits
    ((globalShape.take ragged.dims.length).prod / ragged.localUnits.sum *
      (globalShape.drop ragged.dims.length).prod) (f := f) (by
    rw [← Nat.mul_assoc, Nat.mul_comm ragged.localUnits.sum, hcells, hprod]
    exact hf)
  refine ⟨l, hl, ?_, ?_⟩
  · simpa [raggedInterval, Nat.mul_assoc] using hle
  · simpa [raggedInterval, Nat.mul_assoc] using hlt

theorem computeRaggedSlice_of_ok {layout : Layout} {rank : Nat}
    {interval : Nat × Nat} (h : computeRaggedSlice globalShape layout rank = .ok interval) :
    ∃ info, layout.raggedShard = some info ∧
      (globalShape.take info.placement.dims.length).prod % info.placement.localUnits.sum = 0 ∧
      info.placement.localUnits.length = layout.mesh.meshShape.getD info.meshDim 0 ∧
      ∀ other, computeRaggedSlice globalShape layout other =
        (getLocalRank layout.mesh other info.meshDim).map
          (raggedInterval globalShape info.placement) := by
  unfold computeRaggedSlice at h
  cases hinfo : layout.raggedShard with
  | none =>
    rw [hinfo] at h
    cases h
  | some info =>
    rw [hinfo] at h
    dsimp only at h
    cases hconflict : raggedConflict info (layout.placements.getD []) with
    | some meshDim =>
      rw [hconflict] at h
      cases h
    | none =>
      rw [hconflict] at h
      dsimp only at h
      split at h
      · cases h
      · rename_i hdims
        split at h
        · cases h
        · rename_i hunits
          split at h
          · cases h
          · rename_i hdivides
            refine ⟨info, rfl, not_not.mp hdivides, not_not.mp hunits, fun other => ?_⟩
            simp only [computeRaggedSlice, hinfo, hconflict, if_neg hdims, if_neg hunits,
              if_neg hdivides]

theorem exists_getLocalRank {mesh : DTensor.DeviceMesh} (hpos : ∀ size ∈ mesh.meshShape, 0 < size)
    (hnodup : mesh.rankList.Nodup) {meshDim l : Nat} (hl : l < mesh.meshShape.getD meshDim 0) :
    ∃ rank ∈ mesh.rankList, getLocalRank mesh rank meshDim = .ok l := by
  have hdim : meshDim < mesh.meshShape.length := by
    by_contra hge
    simp [Nat.le_of_not_lt hge] at hl
  have hdigits : Forall₂ (· < ·)
      ((MixedRadix.digits mesh.meshShape 0).set meshDim l) mesh.meshShape := by
    have hzero := MixedRadix.forall₂_digits_lt hpos 0
    rw [forall₂_iff_get] at hzero ⊢
    refine ⟨by simp, ?_⟩
    intro i hi hi'
    simp only [get_eq_getElem, getElem_set]
    split
    · rename_i heq
      subst heq
      simpa [hdim] using hl
    · exact hzero.2 i (by simpa using hi) hi'
  have hlt := MixedRadix.value_lt hdigits
  rw [← mesh.ranks_ok] at hlt
  refine ⟨mesh.rankList[MixedRadix.value mesh.meshShape _], getElem_mem hlt, ?_⟩
  unfold getLocalRank
  rw [if_pos (getElem_mem hlt), hnodup.idxOf_getElem,
    DTensor.calculateMeshCoordinateForRank_eq_digits, MixedRadix.digits_value hdigits]
  simp [hdim]

/-! ## The boxes, element by element -/

def rowMajor : List Nat → List (List Nat)
  | [] => [[]]
  | size :: shape => (List.range size).flatMap fun i => (rowMajor shape).map (i :: ·)

def flatIndices (shape : List Nat) (box : List Nat × List Nat) : List Nat :=
  (rowMajor box.2).map fun y => MixedRadix.value shape (List.zipWith (· + ·) box.1 y)

theorem inShape_of_mem_rowMajor {y : List Nat} (h : y ∈ rowMajor shape) : InShape shape y := by
  induction shape generalizing y with
  | nil =>
    obtain rfl : y = [] := by simpa [rowMajor] using h
    exact .nil
  | cons size shape ih =>
    rw [rowMajor, mem_flatMap] at h
    obtain ⟨i, hi, hy⟩ := h
    obtain ⟨rest, hrest, rfl⟩ := mem_map.mp hy
    exact .cons (mem_range.mp hi) (ih hrest)

theorem flatMap_range_mul (rows width : Nat) :
    ((range rows).flatMap fun i => (range width).map fun j => i * width + j) =
      range (rows * width) := by
  induction rows with
  | zero => simp
  | succ rows ih =>
    rw [range_succ, flatMap_append, ih, flatMap_singleton, Nat.add_mul, Nat.one_mul, range_add]

theorem map_value_rowMajor (shape : List Nat) :
    (rowMajor shape).map (MixedRadix.value shape) = range shape.prod := by
  induction shape with
  | nil => rfl
  | cons size shape ih =>
    rw [rowMajor, map_flatMap, prod_cons, ← flatMap_range_mul]
    refine flatMap_congr fun i _ => ?_
    rw [map_map, ← ih, map_map]
    rfl

theorem BoxAt.flatIndices_eq (h : BoxAt shape start box) :
    flatIndices shape box = List.range' start box.2.prod := by
  have hvalue : ∀ y ∈ rowMajor box.2,
      MixedRadix.value shape (zipWith (· + ·) box.1 y) = start + MixedRadix.value box.2 y :=
    fun y hy => (h.element y (inShape_of_mem_rowMajor hy)).2
  rw [flatIndices, map_congr_left hvalue, List.range'_eq_map_range, ← map_value_rowMajor, map_map]
  rfl

theorem Consecutive.flatMap_flatIndices (h : Consecutive shape start stop boxes) :
    boxes.flatMap (flatIndices shape) = List.range' start (stop - start) := by
  induction boxes generalizing start with
  | nil =>
    obtain rfl : start = stop := h
    simp
  | cons box boxes ih =>
    have hsum := h.2.sum
    have hlen : stop - start = box.2.prod + (stop - (start + box.2.prod)) := by omega
    rw [flatMap_cons, h.1.flatIndices_eq, ih h.2, hlen, List.range'_append_1]

theorem Consecutive.exists_boxAt (h : Consecutive shape start stop boxes) (hbox : box ∈ boxes) :
    ∃ first, BoxAt shape first box := by
  obtain ⟨front, back, rfl⟩ := append_of_mem hbox
  exact ⟨_, h.boxAt⟩

/--
Read one after the other, the boxes enumerate the interval.  Each lies inside the
tensor and is one run of it.
-/
structure ExactCover (shape : List Nat) (start stop : Nat) (boxes : List (List Nat × List Nat)) :
    Prop where
  enumerates : boxes.flatMap (flatIndices shape) = List.range' start (stop - start)
  inside : ∀ box ∈ boxes, ∀ y ∈ rowMajor box.2, InShape shape (List.zipWith (· + ·) box.1 y)
  contiguous : ∀ box ∈ boxes, ∃ first, flatIndices shape box = List.range' first box.2.prod

theorem Consecutive.exactCover (h : Consecutive shape start stop boxes) :
    ExactCover shape start stop boxes where
  enumerates := h.flatMap_flatIndices
  inside := by
    intro box hbox y hy
    obtain ⟨first, hat⟩ := h.exists_boxAt hbox
    exact (hat.element y (inShape_of_mem_rowMajor hy)).1
  contiguous := by
    intro box hbox
    obtain ⟨first, hat⟩ := h.exists_boxAt hbox
    exact ⟨first, hat.flatIndices_eq⟩

/-- The boxes of an interval are exactly its elements; only a scalar shape has none. -/
theorem decomposeFlatInterval_exact {shape : List Nat} {flatStart flatEnd : Nat}
    (hstart : flatStart ≤ flatEnd) (hend : flatEnd ≤ shape.prod) :
    if shape = [] then decomposeFlatInterval shape flatStart flatEnd = .error .raggedScalarShape
    else ∃ boxes, decomposeFlatInterval shape flatStart flatEnd = .ok boxes ∧
      ExactCover shape flatStart flatEnd boxes := by
  split
  · rename_i hscalar
    simp only [decomposeFlatInterval, if_pos hscalar]
  · rename_i hne
    have hvalid : ¬(flatEnd < flatStart ∨ shape.prod < flatEnd) := by omega
    have hok : ∃ boxes, decomposeFlatInterval shape flatStart flatEnd = .ok boxes := by
      simp only [decomposeFlatInterval, if_neg hne, if_neg hvalid]
      split
      · exact ⟨_, rfl⟩
      · exact ⟨_, rfl⟩
    obtain ⟨boxes, hboxes⟩ := hok
    exact ⟨boxes, hboxes, (decomposeFlatInterval_consecutive hboxes).exactCover⟩

/-- Rows 1 to 3 of a matrix, the first and the last cut, are three boxes. -/
theorem decomposeFlatInterval_matrix :
    ∃ boxes, decomposeFlatInterval [5, 4] 6 14 = .ok boxes ∧ ExactCover [5, 4] 6 14 boxes :=
  @decomposeFlatInterval_exact [5, 4] 6 14 (by decide) (by decide)

end HyperParallel.Checkpoint
