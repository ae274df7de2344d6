import HyperParallel.DTensor.MeshLayout
import Mathlib.Data.List.Induction

/-!
# Flattening a mesh and unflattening it

Dimensions that coalesce to one axis are contiguous: the stride of each is the
reach of those behind it.  Unflattening the axis with their sizes puts the same
strides back.  What does not coalesce to one axis is nested, and a nested
dimension cannot be unflattened.
-/

namespace HyperParallel.DTensor.MeshLayout

open Foundation Foundation.OffsetLists List

def axes (sizes : List Nat) (step : Int) : List MeshLayout :=
  List.zipWith (fun (size stride : Nat) => .axis size (stride * step)) sizes (contiguousStrides sizes)

variable (sizes : List Nat) (step : Int)

@[simp] theorem length_contiguousStrides : (contiguousStrides sizes).length = sizes.length := by
  induction sizes with
  | nil => rfl
  | cons size sizes ih => simp [contiguousStrides, ih]

@[simp] theorem length_axes : (axes sizes step).length = sizes.length := by
  simp [axes]

theorem axes_cons (size : Nat) (sizes : List Nat) (step : Int) :
    axes (size :: sizes) step = .axis size (sizes.prod * step) :: axes sizes step := rfl

theorem axes_append (front back : List Nat) (step : Int) :
    axes (front ++ back) step = axes front (back.prod * step) ++ axes back step := by
  induction front with
  | nil => rfl
  | cons size front ih =>
    rw [cons_append, axes_cons, ih, axes_cons, cons_append, prod_append]
    congr 2
    push_cast
    ring

theorem map_numel_axes : (axes sizes step).map numel = sizes := by
  induction sizes with
  | nil => rfl
  | cons size sizes ih => rw [axes_cons, map_cons, ih]; simp [numel]

/-! ## What coalesces to one axis -/

theorem mergeAxis_ne_nil (merged : List MeshLayout) (dim : MeshLayout) :
    mergeAxis merged dim ≠ [] := by
  unfold mergeAxis
  split
  · split <;> simp
  · simp

variable {dims merged : List MeshLayout}

theorem foldl_mergeAxis_eq_nil (h : dims.foldl mergeAxis [] = []) : dims = [] := by
  rcases eq_nil_or_concat dims with hnil | ⟨front, dim, rfl⟩
  · exact hnil
  · rw [concat_eq_append, foldl_append] at h
    exact absurd h (mergeAxis_ne_nil _ dim)

theorem mergeAxis_eq_single {dim : MeshLayout} {size : Nat} {step : Int}
    (h : mergeAxis merged dim = [.axis size step]) :
    (merged = [] ∧ dim = .axis size step) ∨
      ∃ front last : Nat, merged = [.axis front (step * last)] ∧ dim = .axis last step ∧
        size = front * last := by
  have happend : merged ++ [dim] = [.axis size step] → merged = [] ∧ dim = .axis size step := by
    intro hsingle
    have hlen := congrArg List.length hsingle
    rw [length_append, length_singleton, length_singleton] at hlen
    obtain rfl := eq_nil_of_length_eq_zero (show merged.length = 0 by omega)
    exact ⟨rfl, (cons.inj hsingle).1⟩
  unfold mergeAxis at h
  split at h
  · rename_i lastSize lastStride last stride hlast
    split at h
    · rename_i hfills
      have hlen := congrArg List.length h
      rw [length_append, length_singleton, length_singleton] at hlen
      have hdrop : merged.dropLast = [] := eq_nil_of_length_eq_zero (by omega)
      rw [hdrop, nil_append] at h
      injection h with haxis _
      injection haxis with hsize hstride
      have hsplit := dropLast_append_getLast? _ hlast
      rw [hdrop, nil_append] at hsplit
      refine .inr ⟨lastSize, last, ?_, ?_, hsize.symm⟩
      · rw [← hsplit, hfills, hstride]
      · rw [hstride]
    · exact .inl (happend h)
  · exact .inl (happend h)

theorem foldl_mergeAxis_eq_single {size : Nat} {step : Int}
    (h : dims.foldl mergeAxis [] = [.axis size step]) :
    ∃ sizes, dims = axes sizes step ∧ size = sizes.prod := by
  induction dims using reverseRecOn generalizing size step with
  | nil => cases h
  | append_singleton dims dim ih =>
    rw [foldl_append, foldl_cons, foldl_nil] at h
    rcases mergeAxis_eq_single h with ⟨hmerged, rfl⟩ | ⟨front, last, hmerged, rfl, hsize⟩
    · rw [foldl_mergeAxis_eq_nil hmerged]
      exact ⟨[size], by simp [axes, contiguousStrides], by simp⟩
    · obtain ⟨sizes, rfl, hfront⟩ := ih hmerged
      refine ⟨sizes ++ [last], ?_, ?_⟩
      · rw [axes_append, prod_singleton, Int.mul_comm step]
        simp [axes, contiguousStrides]
      · rw [prod_append, prod_singleton, hsize, hfront]

theorem foldl_mergeAxis_axes {sizes : List Nat} (hsizes : sizes ≠ []) (step : Int) :
    (axes sizes step).foldl mergeAxis [] = [.axis sizes.prod step] := by
  induction sizes using reverseRecOn generalizing step with
  | nil => exact absurd rfl hsizes
  | append_singleton sizes last ih =>
    rw [axes_append, foldl_append, prod_singleton]
    by_cases hnil : sizes = []
    · subst hnil
      simp [axes, contiguousStrides, mergeAxis]
    · rw [ih hnil, prod_append, prod_singleton]
      simp [axes, contiguousStrides, mergeAxis, Int.mul_comm]

theorem unwrapSingle_eq_axis_iff {size : Nat} {step : Int} :
    unwrapSingle dims = .axis size step ↔ dims = [.axis size step] := by
  unfold unwrapSingle
  split
  · rename_i single
    simp
  · rename_i dims hmany
    constructor
    · intro h
      cases h
    · intro h
      exact absurd h (hmany _)

theorem numel_coalesce (layout : MeshLayout) : layout.coalesce.numel = layout.numel := by
  rw [← length_allRanksFromZero, allRanksFromZero_coalesce, length_allRanksFromZero]

theorem coalesce_eq_axis_iff (layout : MeshLayout) (size : Nat) (step : Int) :
    layout.coalesce = .axis size step ↔
      layout.asTuple.map coalesce = axes layout.topLevelSizes step ∧
        layout.asTuple ≠ [] ∧ size = layout.topLevelSizes.prod := by
  cases layout with
  | axis size' stride =>
    simp [asTuple, topLevelSizes, numel, axes, contiguousStrides, and_comm, eq_comm]
  | tuple dims =>
    rw [coalesce_tuple, unwrapSingle_eq_axis_iff, asTuple, topLevelSizes, asTuple]
    constructor
    · intro hfold
      obtain ⟨sizes, hdims, hsize⟩ := foldl_mergeAxis_eq_single hfold
      have hsizes : sizes = dims.map numel := by
        rw [← map_numel_axes sizes step, ← hdims, map_map]
        exact map_congr_left fun dim _ => numel_coalesce dim
      rw [← hsizes]
      refine ⟨hdims, ?_, hsize⟩
      rintro rfl
      cases hfold
    · rintro ⟨hdims, hne, rfl⟩
      rw [hdims]
      exact foldl_mergeAxis_axes (by simpa using hne) step

/-! ## There and back -/

theorem ofSizes_scale : (ofSizes sizes).scale step = .tuple (axes sizes step) := by
  rw [ofSizes, scale, scaleDims_eq_map, axes]
  congr 1
  rw [map_zipWith]
  rfl

theorem numel_ofSizes : (ofSizes sizes).numel = sizes.prod := by
  have hone : ofSizes sizes = .tuple (axes sizes 1) := by simp [ofSizes, axes]
  rw [hone, numel, leaves_tuple]
  congr 1
  induction sizes with
  | nil => rfl
  | cons size sizes ih =>
    rw [axes_cons, flatMap_cons, map_append, ih (by simp [ofSizes, axes])]
    simp

theorem asTuple_unwrapSingle_axes : (unwrapSingle (axes sizes step)).asTuple = axes sizes step := by
  unfold unwrapSingle
  split
  · rename_i single hsingle
    cases sizes with
    | nil => cases hsingle
    | cons size sizes =>
      rw [axes_cons] at hsingle ⊢
      injection hsingle with hhead htail
      rw [← hhead, htail]
      rfl
  · rfl

theorem unflattened_flattened_of_axis {layout : MeshLayout} {size : Nat} {step : Int}
    (h : layout.coalesce = .axis size step) :
    layout.flattened.unflattened 0 layout.topLevelSizes =
      .ok (unwrapSingle (axes layout.topLevelSizes step)) := by
  obtain ⟨-, -, hsize⟩ := (coalesce_eq_axis_iff layout size step).mp h
  have hnumel : (axis size step).numel = size := by simp [numel]
  rw [flattened, h]
  simp only [len, Nat.lt_irrefl, if_false, unflattened, item, bind, Except.bind]
  rw [numel_ofSizes, hnumel, if_neg (not_not.mpr hsize.symm)]
  simp only [composition, ofSizes_scale, splice, asTuple, take_zero, nil_append,
    drop_succ_cons, drop_zero, append_nil, Nat.zero_add]

theorem tuple_mem_mergeAxis {dim : MeshLayout} (h : .tuple dims ∈ mergeAxis merged dim) :
    .tuple dims ∈ merged ∨ .tuple dims = dim := by
  have happend : .tuple dims ∈ merged ++ [dim] → .tuple dims ∈ merged ∨ .tuple dims = dim := by
    intro hmem
    simpa using hmem
  unfold mergeAxis at h
  split at h
  · split at h
    · rcases mem_append.mp h with hold | hnew
      · exact .inl (dropLast_subset _ hold)
      · cases mem_singleton.mp hnew
    · exact happend h
  · exact happend h

theorem tuple_mem_foldl_mergeAxis {front : List MeshLayout}
    (h : .tuple dims ∈ front.foldl mergeAxis merged) :
    .tuple dims ∈ merged ∨ .tuple dims ∈ front := by
  induction front generalizing merged with
  | nil => exact .inl h
  | cons dim front ih =>
    rcases ih h with hmerged | hfront
    · rcases tuple_mem_mergeAxis hmerged with hold | rfl
      · exact .inl hold
      · exact .inr mem_cons_self
    · exact .inr (mem_cons_of_mem dim hfront)

theorem coalesce_ne_single (layout dim : MeshLayout) : layout.coalesce ≠ .tuple [dim] := by
  induction layout using induct generalizing dim with
  | axis size step =>
    rw [coalesce_axis]
    intro h
    cases h
  | tuple dims ih =>
    rw [coalesce_tuple]
    unfold unwrapSingle
    split
    · rename_i single hsingle
      rintro rfl
      have hmem : .tuple [dim] ∈ (dims.map coalesce).foldl mergeAxis [] := by
        rw [hsingle]
        exact mem_singleton_self _
      rcases tuple_mem_foldl_mergeAxis hmem with hnil | hmap
      · cases hnil
      · obtain ⟨child, hchild, heq⟩ := mem_map.mp hmap
        exact ih child hchild dim heq
    · rename_i hmany
      intro h
      injection h with hdims
      exact hmany dim hdims

/-- What does not coalesce to one axis is flattened to a nested dimension, and that is refused. -/
theorem coalesce_of_unflattened {layout restored : MeshLayout} {sizes : List Nat}
    (h : layout.flattened.unflattened 0 sizes = .ok restored) :
    ∃ size step, layout.coalesce = .axis size step := by
  rw [flattened] at h
  cases hcoalesce : layout.coalesce with
  | axis size step => exact ⟨size, step, rfl⟩
  | tuple dims =>
    rw [hcoalesce] at h
    match dims, hcoalesce, h with
    | [], _, h => cases h
    | [dim], hcoalesce, _ => exact absurd hcoalesce (coalesce_ne_single layout dim)
    | first :: second :: rest, _, h =>
      have hlen : 1 < (tuple (first :: second :: rest)).len := by simp [len]
      have hne : (tuple (first :: second :: rest)).len ≠ 1 := by omega
      simp only [hlen, if_true, nest, if_neg hne, unflattened, item, getElem?_cons_zero,
        bind, Except.bind, composition] at h
      split at h <;> cases h

/-! ## Consecutive dimensions of a mesh -/

def sliceDims (layout : MeshLayout) (start stop : Nat) : MeshLayout :=
  unwrapSingle ((layout.asTuple.drop start).take (stop - start))

theorem asTuple_ofSizes : (ofSizes sizes).asTuple = axes sizes 1 := by simp [ofSizes, asTuple, axes]

theorem sliceDims_ofSizes (front middle back : List Nat) :
    (ofSizes (front ++ middle ++ back)).sliceDims front.length (front.length + middle.length) =
      unwrapSingle (axes middle back.prod) := by
  rw [sliceDims, asTuple_ofSizes, axes_append, axes_append, append_assoc,
    drop_left' (length_axes front _), Nat.add_sub_cancel_left,
    take_left' (length_axes middle _), Int.mul_one]

theorem coalesce_axes {sizes : List Nat} (hsizes : sizes ≠ []) (step : Int) :
    (unwrapSingle (axes sizes step)).coalesce = .axis sizes.prod step := by
  have hsame : (axes sizes step).map coalesce = axes sizes step := by
    clear hsizes
    induction sizes with
    | nil => rfl
    | cons size sizes ih => rw [axes_cons, map_cons, ih, coalesce_axis]
  rw [coalesce_eq_axis_iff, topLevelSizes, asTuple_unwrapSingle_axes, map_numel_axes]
  refine ⟨hsame, ?_, rfl⟩
  intro hnil
  have hlen := congrArg List.length hnil
  rw [length_axes, length_nil] at hlen
  exact hsizes (eq_nil_of_length_eq_zero hlen)

/-! ## The algebra -/

/-- What flattening, unflattening and composing keep. -/
structure AlgebraPreservesRanks : Prop where
  coalesce : ∀ layout : MeshLayout, layout.coalesce.allRanksFromZero = layout.allRanksFromZero
  canonicalize : ∀ layout : MeshLayout,
    FlatLayout.allRanksFromZero (canonicalizeAxis layout) = layout.allRanksFromZero
  flattened : ∀ layout : MeshLayout, layout.flattened.allRanksFromZero = layout.allRanksFromZero
  /-- Consecutive dimensions of a mesh can be flattened and unflattened. -/
  unflattens : ∀ (sizes : List Nat) (start stop : Nat), start < stop → stop ≤ sizes.length →
    ∃ restored, ((ofSizes sizes).sliceDims start stop).flattened.unflattened 0
      ((sizes.drop start).take (stop - start)) = .ok restored
  restores : ∀ layout restored : MeshLayout,
    layout.flattened.unflattened 0 layout.topLevelSizes = .ok restored →
      restored.allRanksFromZero = layout.allRanksFromZero ∧
        restored.asTuple.map allRanksFromZero = layout.asTuple.map allRanksFromZero
  /-- A layout on an axis: the sums of its dimensions, each times the stride, in order. -/
  composition : ∀ (size : Nat) (stride : Int) (layout : MeshLayout),
    ∃ composed, (axis size stride).composition layout = .ok composed ∧
      composed.allRanksFromZero =
        sumsOf (layout.asTuple.map fun dim => dim.allRanksFromZero.map fun offset => stride * offset)
  compositionRefused : ∀ (dims : List MeshLayout) (layout : MeshLayout),
    (tuple dims).composition layout = .error .scalarStrideOnly

theorem algebra_preservesRanks : AlgebraPreservesRanks where
  coalesce := allRanksFromZero_coalesce
  canonicalize := allRanksFromZero_canonicalizeAxis
  flattened := by
    intro layout
    have hnested : (tuple [layout.coalesce]).allRanksFromZero = layout.coalesce.allRanksFromZero := by
      rw [allRanksFromZero_tuple]
      exact sumsOf_singleton _
    rw [MeshLayout.flattened, ← allRanksFromZero_coalesce layout]
    split
    · rw [nest]
      split
      · rfl
      · exact hnested
    · rfl
  unflattens := by
    intro sizes start stop hstart hstop
    obtain ⟨front, middle, back, rfl, rfl, hmiddle⟩ : ∃ front middle back,
        sizes = front ++ middle ++ back ∧ front.length = start ∧ middle.length = stop - start := by
      refine ⟨sizes.take start, (sizes.drop start).take (stop - start),
        (sizes.drop start).drop (stop - start), ?_, by simp; omega, by simp; omega⟩
      rw [append_assoc, take_append_drop, take_append_drop]
    obtain rfl : stop = front.length + middle.length := by omega
    have hne : middle ≠ [] := by
      rintro rfl
      simp at hstart
    have haxis := coalesce_axes hne (back.prod : Int)
    have hslice : ((front ++ middle ++ back).drop front.length).take
        (front.length + middle.length - front.length) = middle := by
      rw [append_assoc, drop_left, Nat.add_sub_cancel_left, take_left]
    have hsizes : (unwrapSingle (axes middle (back.prod : Int))).topLevelSizes = middle := by
      rw [topLevelSizes, asTuple_unwrapSingle_axes, map_numel_axes]
    have hrestored := unflattened_flattened_of_axis haxis
    rw [sliceDims_ofSizes, hslice]
    rw [hsizes] at hrestored
    exact ⟨_, hrestored⟩
  restores := by
    intro layout restored h
    obtain ⟨size, step, haxis⟩ := coalesce_of_unflattened h
    obtain ⟨hdims, -, -⟩ := (coalesce_eq_axis_iff layout size step).mp haxis
    obtain rfl := Except.ok.inj ((unflattened_flattened_of_axis haxis).symm.trans h)
    have hlists : (axes layout.topLevelSizes step).map allRanksFromZero =
        layout.asTuple.map allRanksFromZero := by
      rw [← hdims, map_map]
      exact map_congr_left fun dim _ => allRanksFromZero_coalesce dim
    refine ⟨?_, ?_⟩
    · rw [allRanksFromZero_unwrapSingle, ranksOf, hlists, ← allRanksFromZero_asTuple]
    · rw [asTuple_unwrapSingle_axes, hlists]
  composition := by
    intro size stride layout
    refine ⟨layout.scale stride, rfl, ?_⟩
    rw [allRanksFromZero_scale, allRanksFromZero_asTuple, map_mul_sumsOf, map_map]
    rfl
  compositionRefused := fun _ _ => rfl

theorem composition_not_sums :
    ¬ ∀ outer layout composed : MeshLayout, outer.composition layout = .ok composed →
      composed.allRanksFromZero = sums outer.allRanksFromZero layout.allRanksFromZero := by
  intro h
  have hfour := h (.axis 4 1) (.axis 4 1) (.axis 4 1) rfl
  have hlen := congrArg List.length hfour
  rw [length_sums] at hlen
  simp at hlen

end HyperParallel.DTensor.MeshLayout
