import HyperParallel.Foundation.OffsetLists
import HyperParallel.Foundation.PySequence

/-!
# Mesh layouts

A mesh layout is a nested pair of sizes and strides of one structure; here each
leaf carries both.  It stands for the ordered list of offsets its coordinates
address.  Flattening merges what is contiguous, unflattening puts a contiguous
layout on one axis.
-/

namespace HyperParallel.DTensor

open Foundation Foundation.OffsetLists List

inductive MeshLayout where
  | axis (size : Nat) (stride : Int)
  | tuple (dims : List MeshLayout)

inductive MeshLayoutError where
  | dimOutOfRange (dim ndim : Nat)
  | scalarStrideOnly
  | sizeMismatch (meshSizes : List Nat) (dim original : Nat)
  deriving DecidableEq, Repr

namespace MeshLayout

theorem induct {P : MeshLayout → Prop} (axis : ∀ size stride, P (.axis size stride))
    (tuple : ∀ dims, (∀ dim ∈ dims, P dim) → P (.tuple dims)) (layout : MeshLayout) : P layout := by
  refine @MeshLayout.rec P (fun dims => ∀ dim ∈ dims, P dim) axis tuple (by simp) ?_ layout
  intro dim dims hdim hdims
  simpa using ⟨hdim, hdims⟩

/-! ## Offsets -/

mutual

/-- `_enumerate_offsets`. -/
def allRanksFromZero : MeshLayout → List Int
  | .axis size stride => steps size stride
  | .tuple dims => sumsOf (allRanksOfDims dims)

def allRanksOfDims : List MeshLayout → List (List Int)
  | [] => []
  | dim :: dims => allRanksFromZero dim :: allRanksOfDims dims

end

theorem allRanksOfDims_eq_map (dims : List MeshLayout) :
    allRanksOfDims dims = dims.map allRanksFromZero := by
  induction dims with
  | nil => rfl
  | cons dim dims ih => rw [allRanksOfDims, ih, map_cons]

@[simp] theorem allRanksFromZero_axis (size : Nat) (stride : Int) :
    (axis size stride).allRanksFromZero = steps size stride := by
  rw [allRanksFromZero]

theorem allRanksFromZero_tuple (dims : List MeshLayout) :
    (tuple dims).allRanksFromZero = sumsOf (dims.map allRanksFromZero) := by
  rw [allRanksFromZero, allRanksOfDims_eq_map]

mutual

/-- `_flatten_inttuple`, of the sizes and the strides at once. -/
def leaves : MeshLayout → List (Nat × Int)
  | .axis size stride => [(size, stride)]
  | .tuple dims => leavesOfDims dims

def leavesOfDims : List MeshLayout → List (Nat × Int)
  | [] => []
  | dim :: dims => leaves dim ++ leavesOfDims dims

end

theorem leavesOfDims_eq_flatMap (dims : List MeshLayout) :
    leavesOfDims dims = dims.flatMap leaves := by
  induction dims with
  | nil => rfl
  | cons dim dims ih => rw [leavesOfDims, ih, flatMap_cons]

theorem leaves_tuple (dims : List MeshLayout) : (tuple dims).leaves = dims.flatMap leaves := by
  rw [leaves, leavesOfDims_eq_flatMap]

@[simp] theorem leaves_axis (size : Nat) (stride : Int) :
    (axis size stride).leaves = [(size, stride)] := by
  rw [leaves]

def numel (layout : MeshLayout) : Nat := (layout.leaves.map Prod.fst).prod

def len : MeshLayout → Nat
  | .axis _ _ => 1
  | .tuple dims => dims.length

/-- One top-level dimension. -/
def item : MeshLayout → Nat → Except MeshLayoutError MeshLayout
  | .axis size stride, 0 => .ok (.axis size stride)
  | .axis _ _, dim => .error (.dimOutOfRange dim 1)
  | .tuple dims, dim =>
    match dims[dim]? with
    | some layout => .ok layout
    | none => .error (.dimOutOfRange dim dims.length)

/-- `_as_tuple` of the sizes and strides. -/
def asTuple : MeshLayout → List MeshLayout
  | .axis size stride => [.axis size stride]
  | .tuple dims => dims

def topLevelSizes (layout : MeshLayout) : List Nat := layout.asTuple.map numel

theorem allRanksFromZero_asTuple (layout : MeshLayout) :
    layout.allRanksFromZero = sumsOf (layout.asTuple.map allRanksFromZero) := by
  cases layout with
  | axis size stride => simp [asTuple]
  | tuple dims => exact allRanksFromZero_tuple dims

theorem allRanksFromZero_eq_leaves (layout : MeshLayout) :
    layout.allRanksFromZero = sumsOf (layout.leaves.map fun leaf => steps leaf.1 leaf.2) := by
  induction layout using induct with
  | axis size stride => simp
  | tuple dims ih =>
    rw [allRanksFromZero_tuple, leaves_tuple]
    induction dims with
    | nil => rfl
    | cons dim dims ihdims =>
      rw [map_cons, sumsOf_cons, flatMap_cons, map_append, sumsOf_append, ih dim mem_cons_self,
        ihdims fun other hother => ih other (mem_cons_of_mem dim hother)]

theorem length_allRanksFromZero (layout : MeshLayout) :
    layout.allRanksFromZero.length = layout.numel := by
  rw [allRanksFromZero_eq_leaves, length_sumsOf, map_map, numel]
  congr 2
  funext leaf
  simp

/-! ## Coalescing -/

def mergeAxis (merged : List MeshLayout) (dim : MeshLayout) : List MeshLayout :=
  match merged.getLast?, dim with
  | some (.axis lastSize lastStride), .axis size stride =>
    if lastStride = stride * size then merged.dropLast ++ [.axis (lastSize * size) stride]
    else merged ++ [.axis size stride]
  | _, dim => merged ++ [dim]

def unwrapSingle : List MeshLayout → MeshLayout
  | [single] => single
  | dims => .tuple dims

mutual

def coalesce : MeshLayout → MeshLayout
  | .axis size stride => .axis size stride
  | .tuple dims => unwrapSingle ((coalesceDims dims).foldl mergeAxis [])

def coalesceDims : List MeshLayout → List MeshLayout
  | [] => []
  | dim :: dims => coalesce dim :: coalesceDims dims

end

theorem coalesceDims_eq_map (dims : List MeshLayout) : coalesceDims dims = dims.map coalesce := by
  induction dims with
  | nil => rfl
  | cons dim dims ih => rw [coalesceDims, ih, map_cons]

theorem coalesce_tuple (dims : List MeshLayout) :
    (tuple dims).coalesce = unwrapSingle ((dims.map coalesce).foldl mergeAxis []) := by
  rw [coalesce, coalesceDims_eq_map]

@[simp] theorem coalesce_axis (size : Nat) (stride : Int) :
    (axis size stride).coalesce = axis size stride := by
  rw [coalesce]

def ranksOf (dims : List MeshLayout) : List Int := sumsOf (dims.map allRanksFromZero)

theorem allRanksFromZero_unwrapSingle (dims : List MeshLayout) :
    (unwrapSingle dims).allRanksFromZero = ranksOf dims := by
  unfold unwrapSingle
  split
  · simp [ranksOf]
  · exact allRanksFromZero_tuple _

theorem ranksOf_append (front back : List MeshLayout) :
    ranksOf (front ++ back) = sums (ranksOf front) (ranksOf back) := by
  rw [ranksOf, map_append, sumsOf_append, ranksOf, ranksOf]

theorem ranksOf_mergeAxis (merged : List MeshLayout) (dim : MeshLayout) :
    ranksOf (mergeAxis merged dim) = ranksOf (merged ++ [dim]) := by
  unfold mergeAxis
  split
  · rename_i lastSize lastStride size stride hlast
    split
    · rename_i hfills
      have hsplit := dropLast_append_getLast? _ hlast
      conv_rhs => rw [← hsplit]
      rw [ranksOf_append, append_assoc, ranksOf_append]
      congr 1
      have hjoin := sums_steps lastSize size stride
      rw [← hfills] at hjoin
      simp [ranksOf, sumsOf_cons, hjoin]
    · rfl
  · rfl

theorem ranksOf_foldl_mergeAxis (merged dims : List MeshLayout) :
    ranksOf (dims.foldl mergeAxis merged) = ranksOf (merged ++ dims) := by
  induction dims generalizing merged with
  | nil => simp
  | cons dim dims ih =>
    rw [foldl_cons, ih, ranksOf_append, ranksOf_mergeAxis, ← ranksOf_append, append_assoc]
    rfl

theorem allRanksFromZero_coalesce (layout : MeshLayout) :
    layout.coalesce.allRanksFromZero = layout.allRanksFromZero := by
  induction layout using induct with
  | axis size stride => rw [coalesce_axis]
  | tuple dims ih =>
    rw [coalesce_tuple, allRanksFromZero_unwrapSingle, ranksOf_foldl_mergeAxis, nil_append,
      allRanksFromZero_tuple, ranksOf, map_map]
    exact congrArg sumsOf (map_congr_left ih)

/-! ## One axis, canonicalized -/

/-- The sizes and strides of a `_FlatLayout`. -/
abbrev FlatLayout := List (Nat × Int)

def mergeLeaf (coalesced : FlatLayout) (leaf : Nat × Int) : FlatLayout :=
  match coalesced.getLast? with
  | some last =>
    if last.2 = leaf.2 * leaf.1 then coalesced.dropLast ++ [(last.1 * leaf.1, leaf.2)]
    else coalesced ++ [leaf]
  | none => coalesced ++ [leaf]

/-- `_canonicalize_axis`: axes of size one go, contiguous ones merge. -/
def canonicalizeAxis (layout : MeshLayout) : FlatLayout :=
  (layout.leaves.filter fun leaf => leaf.1 ≠ 1).foldl mergeLeaf []

def ndindex : List Nat → List (List Nat)
  | [] => [[]]
  | size :: shape => (List.range size).flatMap fun i => (ndindex shape).map fun coord => i :: coord

def dotStrides (coord : List Nat) (strides : List Int) : Int :=
  (List.zipWith (fun (i : Nat) (stride : Int) => (i : Int) * stride) coord strides).sum

/-- `all_ranks_from_zero` of a `_FlatLayout`. -/
def FlatLayout.allRanksFromZero (flat : FlatLayout) : List Int :=
  (ndindex (flat.map Prod.fst)).map fun coord => dotStrides coord (flat.map Prod.snd)

theorem FlatLayout.allRanksFromZero_eq (flat : FlatLayout) :
    FlatLayout.allRanksFromZero flat = sumsOf (flat.map fun leaf => steps leaf.1 leaf.2) := by
  induction flat with
  | nil => rfl
  | cons leaf flat ih =>
    rw [map_cons, sumsOf_cons, ← ih]
    simp only [FlatLayout.allRanksFromZero, map_cons, ndindex, map_flatMap, sums, steps,
      flatMap_map]
    refine flatMap_congr fun i _ => ?_
    rw [map_map, map_map]
    rfl

theorem mergeLeaf_ranks (coalesced : FlatLayout) (leaf : Nat × Int) :
    sumsOf ((mergeLeaf coalesced leaf).map fun leaf => steps leaf.1 leaf.2) =
      sumsOf ((coalesced ++ [leaf]).map fun leaf => steps leaf.1 leaf.2) := by
  unfold mergeLeaf
  split
  · rename_i last hlast
    split
    · rename_i hfills
      have hsplit := dropLast_append_getLast? _ hlast
      conv_rhs => rw [← hsplit]
      rw [map_append, sumsOf_append, append_assoc, map_append, sumsOf_append]
      congr 1
      have hjoin := sums_steps last.1 leaf.1 leaf.2
      rw [← hfills] at hjoin
      simp [sumsOf_cons, hjoin]
    · rfl
  · rfl

theorem foldl_mergeLeaf_ranks (coalesced leaves : FlatLayout) :
    sumsOf ((leaves.foldl mergeLeaf coalesced).map fun leaf => steps leaf.1 leaf.2) =
      sumsOf ((coalesced ++ leaves).map fun leaf => steps leaf.1 leaf.2) := by
  induction leaves generalizing coalesced with
  | nil => simp
  | cons leaf leaves ih =>
    rw [foldl_cons, ih, map_append, sumsOf_append, mergeLeaf_ranks, ← sumsOf_append,
      ← map_append, append_assoc]
    rfl

theorem sumsOf_filter_sizeOne (leaves : List (Nat × Int)) :
    sumsOf ((leaves.filter fun leaf => leaf.1 ≠ 1).map fun leaf => steps leaf.1 leaf.2) =
      sumsOf (leaves.map fun leaf => steps leaf.1 leaf.2) := by
  induction leaves with
  | nil => rfl
  | cons leaf leaves ih =>
    by_cases hone : leaf.1 = 1
    · rw [filter_cons_of_neg (by simp [hone]), ih, map_cons, sumsOf_cons, hone, steps_one,
        sums_zero_left]
    · rw [filter_cons_of_pos (by simp [hone]), map_cons, sumsOf_cons, ih, map_cons, sumsOf_cons]

theorem allRanksFromZero_canonicalizeAxis (layout : MeshLayout) :
    FlatLayout.allRanksFromZero (canonicalizeAxis layout) = layout.allRanksFromZero := by
  rw [FlatLayout.allRanksFromZero_eq, canonicalizeAxis, foldl_mergeLeaf_ranks, nil_append,
    sumsOf_filter_sizeOne, allRanksFromZero_eq_leaves]

/-! ## Composition -/

mutual

/-- `_scale_inttuple` on the strides. -/
def scale (factor : Int) : MeshLayout → MeshLayout
  | .axis size stride => .axis size (stride * factor)
  | .tuple dims => .tuple (scaleDims factor dims)

def scaleDims (factor : Int) : List MeshLayout → List MeshLayout
  | [] => []
  | dim :: dims => scale factor dim :: scaleDims factor dims

end

theorem scaleDims_eq_map (factor : Int) (dims : List MeshLayout) :
    scaleDims factor dims = dims.map (scale factor) := by
  induction dims with
  | nil => rfl
  | cons dim dims ih => rw [scaleDims, ih, map_cons]

theorem allRanksFromZero_scale (factor : Int) (layout : MeshLayout) :
    (layout.scale factor).allRanksFromZero =
      layout.allRanksFromZero.map fun offset => factor * offset := by
  induction layout using induct with
  | axis size stride =>
    rw [scale, allRanksFromZero_axis, allRanksFromZero_axis, map_mul_steps, Int.mul_comm]
  | tuple dims ih =>
    rw [scale, scaleDims_eq_map, allRanksFromZero_tuple, allRanksFromZero_tuple, map_mul_sumsOf,
      map_map, map_map]
    exact congrArg sumsOf (map_congr_left ih)

def composition (outer layout : MeshLayout) : Except MeshLayoutError MeshLayout :=
  match outer with
  | .axis _ stride => .ok (layout.scale stride)
  | .tuple _ => .error .scalarStrideOnly

/-! ## Flattening and unflattening -/

def nest (layout : MeshLayout) : MeshLayout :=
  if layout.len = 1 then layout else .tuple [layout]

def splice (layout : MeshLayout) (start stop : Nat) (inner : MeshLayout) : MeshLayout :=
  unwrapSingle (layout.asTuple.take start ++ inner.asTuple ++ layout.asTuple.drop stop)

def contiguousStrides : List Nat → List Nat
  | [] => []
  | _ :: rest => rest.prod :: contiguousStrides rest

def ofSizes (sizes : List Nat) : MeshLayout :=
  .tuple (List.zipWith (fun (size stride : Nat) => .axis size stride) sizes (contiguousStrides sizes))

/-- The layout `_create_flatten_mesh` gives the flattened view. -/
def flattened (layout : MeshLayout) : MeshLayout :=
  let flat := layout.coalesce
  if 1 < flat.len then flat.nest else flat

/-- The layout `_create_unflatten_mesh` gives the mesh with one dimension split up. -/
def unflattened (layout : MeshLayout) (dim : Nat) (meshSizes : List Nat) :
    Except MeshLayoutError MeshLayout := do
  let inner := ofSizes meshSizes
  let original ← layout.item dim
  if inner.numel ≠ original.numel then
    .error (.sizeMismatch meshSizes dim original.numel)
  else do
    let partialLayout ← original.composition inner
    .ok (layout.splice dim (dim + 1) partialLayout)

end MeshLayout

end HyperParallel.DTensor
