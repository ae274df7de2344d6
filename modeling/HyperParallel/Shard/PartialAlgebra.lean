import HyperParallel.Shard.ElementWise
import HyperParallel.Shard.PartialSum
import HyperParallel.Shard.ScalarProduct

/-!
# Sums, differences and products of partial results

Which operands the operators accept, and whether the reduction of the ranks'
results is the operator applied to what the operands stand for.  Sums and
differences accept pending sums only and are always right; the product accepts
more than it keeps.
-/

namespace HyperParallel.Shard

open Foundation List
open Foundation.AxisReduce
open DTensor

def layoutSignature (layout : Layout) : Signature := fun meshDim =>
  (layout.partialOps.getD meshDim none).map resolveReduceOp

def layoutSignature? : Option Layout → Signature
  | none => fun _ => none
  | some layout => layoutSignature layout

def meshSizes (mesh : DeviceMesh) : Nat → Nat := fun meshDim => mesh.meshShape.getD meshDim 0

def Shards (meshNdim : Nat) (tensorMap : TensorMap) (meshDim : Nat) : Prop :=
  ∃ a ∈ usedAxes tensorMap, (meshNdim : Int) - 1 - a = meshDim

/-! ## What a layout keeps when it is changed -/

variable {py : PyStr}

theorem liftLayout_eq_ok {α : Type} {x : Except LayoutError α} {a : α}
    (h : liftLayout x = .ok a) : x = .ok a := by
  cases x with
  | error e => cases h
  | ok b => cases h; rfl

variable {layout layout' : Layout} {x y : Operand}

theorem tensorMapToPlacement_keeps {placements : List Placement}
    (h : layout.tensorMapToPlacement py = .ok (layout', placements)) :
    layout'.partialOps = layout.partialOps ∧ layout'.mesh = layout.mesh ∧
      layout'.tensorMap = layout.tensorMap := by
  rw [Layout.tensorMapToPlacement] at h
  split at h
  · cases h
  · obtain ⟨sharded, -, h⟩ := bind_eq_ok h
    obtain ⟨placed, -, h⟩ := bind_eq_ok h
    obtain ⟨written, hwritten, h⟩ := bind_eq_ok h
    rw [Layout.setPlacements] at hwritten
    obtain ⟨ragged, -, hwritten⟩ := bind_eq_ok hwritten
    cases hwritten
    cases h
    exact ⟨rfl, rfl, rfl⟩

theorem axisIndex_getElem {mesh : DeviceMesh} {names : List String}
    (hnames : mesh.meshDimNames = some names) {i index : Nat} {name : String}
    (hi : names[i]? = some name) (h : mesh.axisIndex name = .ok index) : index = i := by
  have hnodup := (mesh.names_ok names (by simp [hnames])).2
  rw [DeviceMesh.axisIndex] at h
  obtain ⟨found, hfound, h⟩ := bind_eq_ok h
  rw [DeviceMesh.assertAxis, hnames] at hfound
  cases names with
  | nil => cases hfound
  | cons first rest =>
    simp only at hfound
    split at hfound
    · cases hfound
      cases h
      obtain ⟨hlt, rfl⟩ := List.getElem?_eq_some_iff.mp hi
      exact hnodup.idxOf_getElem i hlt
    · cases hfound

theorem setOutputPartial_keeps {entry : Option String × Nat}
    (h : setOutputPartial py layout entry = .ok layout')
    (hlt : entry.2 < layout.mesh.meshShape.length) :
    layout'.mesh = layout.mesh ∧ layout'.partialOps =
      (match entry.1 with
        | none => layout.partialOps
        | some op => layout.partialOps.set entry.2 (some op)) := by
  obtain ⟨op, i⟩ := entry
  cases op with
  | none =>
    cases h
    exact ⟨rfl, rfl⟩
  | some op =>
    cases hnames : layout.mesh.meshDimNames with
    | none => simp [setOutputPartial, hnames] at h
    | some names =>
      have hlength := (layout.mesh.names_ok names (by simp [hnames])).1
      have hi : i < names.length := by rw [hlength]; exact hlt
      simp only [setOutputPartial, hnames, getElem?_eq_getElem hi] at h
      have h := liftLayout_eq_ok h
      rw [Layout.setPartialByDevAxis] at h
      split at h
      · cases h
      · obtain ⟨applied, -, h⟩ := bind_eq_ok h
        split at h
        · cases h
        · obtain ⟨index, hindex, h⟩ := bind_eq_ok h
          obtain ⟨⟨written, placements⟩, hwritten, h⟩ := bind_eq_ok h
          cases h
          obtain rfl := axisIndex_getElem hnames (getElem?_eq_getElem hi) hindex
          obtain ⟨hops, hmesh, -⟩ := tensorMapToPlacement_keeps hwritten
          exact ⟨hmesh, hops⟩

theorem foldlM_setOutputPartial {ops : List (Option String)} {k : Nat}
    (h : (ops.zipIdx k).foldlM (setOutputPartial py) layout = .ok layout')
    (hlt : k + ops.length ≤ layout.mesh.meshShape.length)
    (hlength : layout.partialOps.length = layout.mesh.meshShape.length) :
    layout'.mesh = layout.mesh ∧ layout'.partialOps.length = layout.partialOps.length ∧
      ∀ j, layout'.partialOps.getD j none =
        (if k ≤ j then ops.getD (j - k) none else none).or (layout.partialOps.getD j none) := by
  induction ops generalizing k layout with
  | nil =>
    cases h
    exact ⟨rfl, rfl, fun j => by split <;> rfl⟩
  | cons op ops ih =>
    rw [zipIdx_cons, foldlM_cons] at h
    obtain ⟨next, hnext, h⟩ := bind_eq_ok h
    rw [length_cons] at hlt
    obtain ⟨hmesh, hops⟩ := setOutputPartial_keeps hnext (by simp only; omega)
    have hnextLength : next.partialOps.length = layout.partialOps.length := by
      rw [hops]
      cases op <;> simp
    obtain ⟨hmesh', hlength', hget⟩ := ih h (by rw [hmesh]; omega)
      (by rw [hmesh, hnextLength, hlength])
    refine ⟨hmesh'.trans hmesh, hlength'.trans hnextLength, fun j => ?_⟩
    rw [hget j, hops]
    rcases lt_trichotomy j k with hj | rfl | hj
    · rw [if_neg (by omega), if_neg (by omega)]
      cases op <;> simp [getD_eq_getElem?_getD, getElem?_set_ne (show k ≠ j by omega)]
    · rw [if_neg (by omega), if_pos le_rfl, Nat.sub_self]
      have hj : j < layout.partialOps.length := by omega
      cases op <;> simp [getD_eq_getElem?_getD, hj]
    · rw [if_pos (by omega), if_pos (by omega), show j - k = (j - (k + 1)) + 1 by omega]
      cases op <;> simp [getD_eq_getElem?_getD, getElem?_set_ne (show k ≠ j by omega)]

theorem createOutputLayout_partialOps {baseLayout out : Layout} {outputTensorMap : TensorMap}
    {partialList : List (Option String)}
    (h : createOutputLayout py baseLayout outputTensorMap partialList = .ok out)
    (hlength : baseLayout.partialOps.length = baseLayout.mesh.meshShape.length)
    (hlist : partialList.length = baseLayout.mesh.meshShape.length) :
    out.mesh = baseLayout.mesh ∧ out.partialOps.length = baseLayout.partialOps.length ∧
      ∀ j, out.partialOps.getD j none =
        (partialList.getD j none).or (baseLayout.partialOps.getD j none) := by
  rw [createOutputLayout] at h
  obtain ⟨names, -, h⟩ := bind_eq_ok h
  obtain ⟨⟨written, placements⟩, hwritten, h⟩ := bind_eq_ok h
  obtain ⟨hops, hmesh, -⟩ := tensorMapToPlacement_keeps (liftLayout_eq_ok hwritten)
  obtain ⟨hmesh', hlength', hget⟩ := foldlM_setOutputPartial h (by rw [hmesh, hlist]; simp)
    (by rw [hops, hmesh, hlength])
  exact ⟨hmesh'.trans hmesh, hlength'.trans (by rw [hops]), fun j => by simpa [hops] using hget j⟩

/-! ## What is accepted -/

theorem mergePartialOp_eq_ok {i : Nat} {op1 op2 op : Option String}
    (h : mergePartialOp i op1 op2 = .ok op) :
    op = op1.or op2 ∧ ∀ a b, op1 = some a → op2 = some b → a = b := by
  cases op1 with
  | none =>
    cases h
    exact ⟨rfl, by simp⟩
  | some a =>
    cases op2 with
    | none =>
      cases h
      exact ⟨rfl, by simp⟩
    | some b =>
      rw [mergePartialOp] at h
      split at h
      · cases h
      · cases h
        exact ⟨rfl, by simp_all⟩

theorem mergePartialOps_eq_ok {partial1 partial2 merged : List (Option String)}
    (h : mergePartialOps partial1 partial2 = .ok merged) :
    merged.length = max partial1.length partial2.length ∧
      ∀ i, merged.getD i none = (partial1.getD i none).or (partial2.getD i none) ∧
        ∀ a b, partial1.getD i none = some a → partial2.getD i none = some b → a = b := by
  have hall := mapM_eq_ok_iff.mp h
  have hlength := hall.length_eq
  rw [length_range] at hlength
  refine ⟨hlength.symm, fun i => ?_⟩
  by_cases hi : i < max partial1.length partial2.length
  · have hget := forall₂_iff_get.mp hall
    have := hget.2 i (by simpa using hi) (by omega)
    obtain ⟨hop, hsame⟩ := mergePartialOp_eq_ok this
    simp only [get_eq_getElem, getElem_range] at hop hsame
    refine ⟨?_, hsame⟩
    rw [← hop, getD_eq_getElem?_getD, getElem?_eq_getElem (by omega), Option.getD_some]
  · have h1 : partial1.getD i none = none := by
      rw [getD_eq_getElem?_getD, getElem?_eq_none (by omega), Option.getD_none]
    have h2 : partial2.getD i none = none := by
      rw [getD_eq_getElem?_getD, getElem?_eq_none (by omega), Option.getD_none]
    have h3 : merged.getD i none = none := by
      rw [getD_eq_getElem?_getD, getElem?_eq_none (by omega), Option.getD_none]
    simp only [h1, h2, h3]
    exact ⟨rfl, by simp⟩

theorem mergePartialStatus_eq_ok {partial1 partial2 merged : List (Option String)}
    {map map1 map2 : TensorMap}
    (h : mergePartialStatus partial1 partial2 map map1 map2 = .ok merged) :
    mergePartialOps partial1 partial2 = .ok merged := by
  rw [mergePartialStatus] at h
  obtain ⟨_, -, h⟩ := bind_eq_ok h
  obtain ⟨_, -, h⟩ := bind_eq_ok h
  obtain ⟨found, hfound, h⟩ := bind_eq_ok h
  obtain ⟨_, -, h⟩ := bind_eq_ok h
  cases h
  exact hfound

theorem inferFromAligned_pair {first second : Layout × List Nat} {out : Layout}
    (h : inferFromAligned py first second [] = .ok out) (hmesh : second.1.mesh = first.1.mesh)
    (hlength1 : first.1.partialOps.length = first.1.mesh.meshShape.length)
    (hlength2 : second.1.partialOps.length = second.1.mesh.meshShape.length) :
    out.mesh = first.1.mesh ∧ out.partialOps.length = first.1.mesh.meshShape.length ∧
      ∀ i, out.partialOps.getD i none =
          (first.1.partialOps.getD i none).or (second.1.partialOps.getD i none) ∧
        ∀ a b, first.1.partialOps.getD i none = some a →
          second.1.partialOps.getD i none = some b → a = b := by
  rw [inferFromAligned] at h
  obtain ⟨outputShape, -, h⟩ := bind_eq_ok h
  obtain ⟨merged, hmerged, h⟩ := bind_eq_ok h
  obtain ⟨merged', hrest, h⟩ := bind_eq_ok h
  cases hrest
  obtain ⟨_, -, h⟩ := bind_eq_ok h
  rw [mergeFirstLayouts] at hmerged
  obtain ⟨map, -, hmerged⟩ := bind_eq_ok hmerged
  obtain ⟨ops, hops, hmerged⟩ := bind_eq_ok hmerged
  cases hmerged
  obtain ⟨hopsLength, hget⟩ := mergePartialOps_eq_ok (mergePartialStatus_eq_ok hops)
  obtain ⟨houtMesh, houtLength, houtGet⟩ := createOutputLayout_partialOps h hlength1
    (by rw [hopsLength, hlength1, hlength2, hmesh, max_self])
  refine ⟨houtMesh, houtLength.trans hlength1, fun i => ⟨?_, (hget i).2⟩⟩
  rw [houtGet i, (hget i).1]
  cases first.1.partialOps.getD i none <;> simp

/-! ## The operators -/

inductive BinaryOp where
  | add (alpha : ℚ)
  | sub (alpha : ℚ)
  | rsub (alpha : ℚ)
  | mul

namespace BinaryOp

def evaluate : BinaryOp → ℚ → ℚ → ℚ
  | .add alpha, x, y => x + alpha * y
  | .sub alpha, x, y => x - alpha * y
  | .rsub alpha, x, y => y - alpha * x
  | .mul, x, y => x * y

/-- The operator as it is registered. -/
def distributedOp : BinaryOp → DistributedOp
  | .add _ => ⟨"add", true⟩
  | .sub _ => ⟨"sub", true⟩
  | .rsub _ => ⟨"__rsub__", true⟩
  | .mul => ⟨"mul", true⟩

end BinaryOp

inductive Operand where
  | tensor (layout : Layout) (shape : List Nat)
  | scalar (value : ℚ)

namespace Operand

def cacheValue : Operand → CacheValue
  | .tensor layout shape => .distributed layout shape
  | .scalar _ => .plain

def layout? : Operand → Option Layout
  | .tensor layout _ => some layout
  | .scalar _ => none

structure TensorOn (mesh : DeviceMesh) (tensorMap : TensorMap) (shape : List Nat)
    (layout : Layout) (layoutShape : List Nat) : Prop where
  mesh_eq : layout.mesh = mesh
  map_eq : layout.tensorMap = some tensorMap
  shape_eq : layoutShape = shape
  partial_length : layout.partialOps.length = mesh.meshShape.length
  partial_free : ∀ d, Shards mesh.meshShape.length tensorMap d →
    layout.partialOps.getD d none = none

def On (mesh : DeviceMesh) (tensorMap : TensorMap) (shape : List Nat) : Operand → Prop
  | .tensor layout layoutShape => TensorOn mesh tensorMap shape layout layoutShape
  | .scalar _ => True

def Held (mesh : DeviceMesh) (tensorMap : TensorMap) (operand : Operand)
    (value : Coordinate → ℚ) : Prop :=
  match operand with
  | .tensor layout _ => Replicates mesh.meshShape.length (Shards mesh.meshShape.length tensorMap)
      (layoutSignature layout) value
  | .scalar c => value = fun _ => c

end Operand

namespace BinaryOp

/-- The option `alpha` of a sum or difference is one more argument without a layout. -/
def arguments (op : BinaryOp) (x y : Operand) : List CacheValue :=
  match op with
  | .mul => [x.cacheValue, y.cacheValue]
  | _ => [x.cacheValue, y.cacheValue, .plain]

def inferLayout (py : PyStr) (op : BinaryOp) (x y : Operand) : Except OpError (Option Layout) :=
  match op with
  | .mul => ElementWiseDistributedOp.inferLayout py op.distributedOp (op.arguments x y)
  | _ => AddDistributedOp.inferLayout py op.distributedOp (op.arguments x y)

def localResult (op : BinaryOp) (x y : Operand) (out : Layout) (localRank : Nat → Nat)
    (a b : ℚ) : Except OpError ℚ :=
  match op with
  | .mul => .ok (op.evaluate a b)
  | _ => AddDistributedOp.expandImpl op.evaluate x.layout? y.layout? out localRank a b

/--
The reduction of the ranks' results, whatever the order of the mesh dimensions,
is the operator applied to what the operands stand for.
-/
def Reconstructs (op : BinaryOp) (mesh : DeviceMesh) (tensorMap : TensorMap)
    (x y : Operand) (out : Layout) : Prop :=
  ∀ valueX valueY : Coordinate → ℚ, x.Held mesh tensorMap valueX → y.Held mesh tensorMap valueY →
    ∃ result : Coordinate → ℚ,
      (∀ ρ, op.localResult x y out ρ (valueX ρ) (valueY ρ) = .ok (result ρ)) ∧
      ∀ order : List Nat, order.Perm (List.range mesh.meshShape.length) →
        reducePartial (meshSizes mesh) (layoutSignature out) order result = fun ρ =>
          op.evaluate
            (reducePartial (meshSizes mesh) (layoutSignature? x.layout?) order valueX ρ)
            (reducePartial (meshSizes mesh) (layoutSignature? y.layout?) order valueY ρ)

def Keeps (op : BinaryOp) (mesh : DeviceMesh) (x y : Operand) : Prop :=
  match op, x, y with
  | .mul, .tensor xLayout _, .tensor yLayout _ =>
    SoundProduct mesh.meshShape.length (meshSizes mesh) (layoutSignature xLayout)
      (layoutSignature yLayout)
  | .mul, .tensor layout _, .scalar c | .mul, .scalar c, .tensor layout _ =>
    SoundScalar mesh.meshShape.length (meshSizes mesh) (layoutSignature layout) c
  | _, _, _ => True

end BinaryOp

variable {mesh : DeviceMesh} {tensorMap : TensorMap} {shape : List Nat}

theorem meshSizes_pos (hpos : ∀ size ∈ mesh.meshShape, 0 < size) {d : Nat}
    (hd : d < mesh.meshShape.length) : 0 < meshSizes mesh d := by
  rw [meshSizes, getD_eq_getElem?_getD, getElem?_eq_getElem hd, Option.getD_some]
  exact hpos _ (getElem_mem hd)

theorem reducePartial_free (sizes : Nat → Nat) (order : List Nat) (values : Coordinate → ℚ) :
    reducePartial sizes (fun _ => none) order values = values := by
  induction order with
  | nil => rfl
  | cons d order ih => rw [reducePartial_cons, reduceDim_none rfl, ih]

theorem layoutSignature_eq_none {layout : Layout} {d : Nat} :
    layoutSignature layout d = none ↔ layout.partialOps.getD d none = none :=
  Option.map_eq_none_iff

theorem Operand.TensorOn.not_shards {layout : Layout} {layoutShape : List Nat}
    (h : TensorOn mesh tensorMap shape layout layoutShape) {d : Nat}
    (hd : layoutSignature layout d ≠ none) : ¬Shards mesh.meshShape.length tensorMap d :=
  fun hshards => hd (layoutSignature_eq_none.mpr (h.partial_free d hshards))

theorem mergedSignature_of_infer {xLayout yLayout out : Layout} {xShape yShape : List Nat}
    (hx : Operand.TensorOn mesh tensorMap shape xLayout xShape)
    (hy : Operand.TensorOn mesh tensorMap shape yLayout yShape)
    (h : inferFromAligned py (xLayout, xShape) (yLayout, yShape) [] = .ok out) :
    layoutSignature out = mergedSignature (layoutSignature xLayout) (layoutSignature yLayout) ∧
      out.partialOps.length = mesh.meshShape.length ∧
      ∀ d, ∀ a b, xLayout.partialOps.getD d none = some a →
        yLayout.partialOps.getD d none = some b → a = b := by
  obtain ⟨-, hlength, hget⟩ := inferFromAligned_pair h (by rw [hx.mesh_eq, hy.mesh_eq])
    (by rw [hx.mesh_eq, hx.partial_length]) (by rw [hy.mesh_eq, hy.partial_length])
  refine ⟨funext fun d => ?_, by rw [hlength, hx.mesh_eq], fun d => (hget d).2⟩
  rw [layoutSignature, (hget d).1, mergedSignature, layoutSignature, layoutSignature]
  cases xLayout.partialOps.getD d none <;> simp

/-! ## Products -/

theorem mul_tensors_iff {xLayout yLayout out : Layout} {xShape yShape : List Nat}
    (hpos : ∀ size ∈ mesh.meshShape, 0 < size)
    (hx : Operand.TensorOn mesh tensorMap shape xLayout xShape)
    (hy : Operand.TensorOn mesh tensorMap shape yLayout yShape)
    (h : inferFromAligned py (xLayout, xShape) (yLayout, yShape) [] = .ok out) :
    BinaryOp.mul.Reconstructs mesh tensorMap (.tensor xLayout xShape) (.tensor yLayout yShape)
      out ↔ SoundProduct mesh.meshShape.length (meshSizes mesh) (layoutSignature xLayout)
        (layoutSignature yLayout) := by
  obtain ⟨hout, -, hsame⟩ := mergedSignature_of_infer hx hy h
  have hlaw : BinaryOp.mul.Reconstructs mesh tensorMap (.tensor xLayout xShape)
      (.tensor yLayout yShape) out ↔
      ProductLaw mesh.meshShape.length (meshSizes mesh)
        (Shards mesh.meshShape.length tensorMap) (layoutSignature xLayout)
        (layoutSignature yLayout) := by
    refine forall₄_congr fun valueX valueY hX hY => ?_
    rw [hout]
    constructor
    · rintro ⟨result, hlocal, hreduced⟩ order horder
      obtain rfl : result = fun ρ => valueX ρ * valueY ρ :=
        funext fun ρ => (Except.ok.inj (hlocal ρ)).symm
      exact hreduced order horder
    · exact fun hreduced => ⟨_, fun ρ => rfl, hreduced⟩
  rw [hlaw]
  refine productLaw_iff (fun d hd => meshSizes_pos hpos hd) (fun d _ hd => ?_)
    fun d _ op op' hop hop' => ?_
  · rcases hd with hd | hd
    · exact hx.not_shards hd
    · exact hy.not_shards hd
  · obtain ⟨a, ha, rfl⟩ := Option.map_eq_some_iff.mp hop
    obtain ⟨b, hb, rfl⟩ := Option.map_eq_some_iff.mp hop'
    rw [hsame d a b ha hb]

theorem mul_scalar_iff {layout : Layout} {layoutShape : List Nat} {c : ℚ}
    (hpos : ∀ size ∈ mesh.meshShape, 0 < size)
    (hsides : (x = .tensor layout layoutShape ∧ y = .scalar c) ∨
      (x = .scalar c ∧ y = .tensor layout layoutShape)) :
    BinaryOp.mul.Reconstructs mesh tensorMap x y layout ↔
      SoundScalar mesh.meshShape.length (meshSizes mesh) (layoutSignature layout) c := by
  have hlawIff : ScalarLaw mesh.meshShape.length (meshSizes mesh)
      (Shards mesh.meshShape.length tensorMap) (layoutSignature layout) c ↔
      SoundScalar mesh.meshShape.length (meshSizes mesh) (layoutSignature layout) c :=
    scalarLaw_iff fun d hd => meshSizes_pos hpos hd
  rw [← hlawIff]
  have hcomm : ∀ value : Coordinate → ℚ, (fun ρ => c * value ρ) = fun ρ => value ρ * c :=
    fun value => funext fun ρ => mul_comm _ _
  rcases hsides with ⟨rfl, rfl⟩ | ⟨rfl, rfl⟩
  · constructor
    · intro hlaw value hvalue order horder
      obtain ⟨result, hlocal, hreduced⟩ := hlaw value (fun _ => c) hvalue rfl
      obtain rfl : result = fun ρ => value ρ * c := funext fun ρ => (Except.ok.inj (hlocal ρ)).symm
      simpa only [Operand.layout?, layoutSignature?, reducePartial_free, BinaryOp.evaluate]
        using hreduced order horder
    · rintro hlaw valueX valueY hX rfl
      refine ⟨fun ρ => valueX ρ * c, fun ρ => rfl, fun order horder => ?_⟩
      simpa only [Operand.layout?, layoutSignature?, reducePartial_free, BinaryOp.evaluate]
        using hlaw valueX hX order horder
  · constructor
    · intro hlaw value hvalue order horder
      obtain ⟨result, hlocal, hreduced⟩ := hlaw (fun _ => c) value rfl hvalue
      obtain rfl : result = fun ρ => c * value ρ := funext fun ρ => (Except.ok.inj (hlocal ρ)).symm
      simpa only [Operand.layout?, layoutSignature?, reducePartial_free, BinaryOp.evaluate, hcomm]
        using hreduced order horder
    · rintro hlaw valueX valueY rfl hY
      refine ⟨fun ρ => c * valueY ρ, fun ρ => rfl, fun order horder => ?_⟩
      simpa only [Operand.layout?, layoutSignature?, reducePartial_free, BinaryOp.evaluate, hcomm]
        using hlaw valueY hY order horder

/-! ## Sums and differences -/

namespace BinaryOp

/-- What a sum or difference takes of its operands. -/
def coefficients : BinaryOp → ℚ × ℚ
  | .add alpha => (1, alpha)
  | .sub alpha => (1, -alpha)
  | .rsub alpha => (-alpha, 1)
  | .mul => (0, 0)

theorem evaluate_eq {op : BinaryOp} (h : op ≠ .mul) (a b : ℚ) :
    op.evaluate a b = op.coefficients.1 * a + op.coefficients.2 * b := by
  cases op with
  | add alpha => simp [evaluate, coefficients]
  | sub alpha => simp [evaluate, coefficients, sub_eq_add_neg]
  | rsub alpha => simp [evaluate, coefficients, sub_eq_add_neg, add_comm]
  | mul => exact absurd rfl h

end BinaryOp

theorem partialSignature_eq {layout : Option Layout} {meshNdim : Nat}
    (h : ∀ found ∈ layout, found.partialOps.length = meshNdim) :
    ∃ ops, partialSignature layout meshNdim = .ok ops ∧ ops.length = meshNdim ∧
      ∀ d, (ops.getD d none).map resolveReduceOp = layoutSignature? layout d := by
  cases layout with
  | none =>
    refine ⟨replicate meshNdim none, rfl, by simp, fun d => ?_⟩
    by_cases hd : d < meshNdim <;>
      simp [layoutSignature?, getD_eq_getElem?_getD, hd]
  | some layout =>
    have hlength := h layout rfl
    exact ⟨layout.partialOps, by rw [partialSignature, if_neg (not_not.mpr hlength)], hlength,
      fun d => rfl⟩

variable {out : Layout}

theorem contributesToPartialOutput_eq {layout : Option Layout}
    (h : ∀ found ∈ layout, found.partialOps.length = out.partialOps.length)
    (localRank : Nat → Nat) :
    contributesToPartialOutput layout out localRank =
      .ok (decide (Contributes (layoutSignature? layout) (layoutSignature out)
        (range out.partialOps.length) localRank)) := by
  obtain ⟨ops, hops, -, hsignature⟩ := partialSignature_eq h
  simp only [contributesToPartialOutput, hops, bind, Except.bind, Except.ok.injEq]
  rw [Bool.eq_iff_iff]
  simp only [Bool.not_eq_true', any_eq_false, Bool.and_eq_true, bne_iff_ne, ne_eq,
    not_and, not_not, decide_eq_true_eq, Contributes, mem_range]
  constructor
  · intro hall d hd hpending hnone
    have hmem : (out.partialOps[d], d) ∈ out.partialOps.zipIdx := by
      rw [mk_mem_zipIdx_iff_getElem?]
      simp [hd]
    refine hall _ hmem ⟨?_, ?_⟩
    · rw [layoutSignature_eq_none, getD_eq_getElem?_getD, getElem?_eq_getElem hd] at hpending
      simpa [Option.isSome_iff_ne_none] using hpending
    · rw [← hsignature] at hnone
      simpa using hnone
  · rintro hall ⟨op, d⟩ hmem ⟨hpending, hnone⟩
    rw [mk_mem_zipIdx_iff_getElem?] at hmem
    obtain ⟨hd, rfl⟩ := List.getElem?_eq_some_iff.mp hmem
    refine hall d hd ?_ ?_
    · rw [layoutSignature_eq_none, getD_eq_getElem?_getD, getElem?_eq_getElem hd]
      simpa [Option.isSome_iff_ne_none] using hpending
    · rw [← hsignature]
      simpa using hnone

structure Inferred (mesh : DeviceMesh) (tensorMap : TensorMap) (x y : Operand) (out : Layout) :
    Prop where
  length : out.partialOps.length = mesh.meshShape.length
  signature : layoutSignature out =
    mergedSignature (layoutSignature? x.layout?) (layoutSignature? y.layout?)
  agree : ∀ d op op', layoutSignature? x.layout? d = some op →
    layoutSignature? y.layout? d = some op' → op = op'
  free : ∀ d, layoutSignature out d ≠ none → ¬Shards mesh.meshShape.length tensorMap d

theorem inferred_of_inferFromLayouts {rest : List CacheValue}
    (hrest : rest.filterMap CacheValue.aligned? = []) (hx : x.On mesh tensorMap shape)
    (hy : y.On mesh tensorMap shape)
    (h : ElementWiseDistributedOp.inferFromLayouts py (x.cacheValue :: y.cacheValue :: rest) =
      .ok (some out)) : Inferred mesh tensorMap x y out := by
  cases x with
  | tensor xLayout xShape =>
    cases y with
    | tensor yLayout yShape =>
      simp only [ElementWiseDistributedOp.inferFromLayouts, Operand.cacheValue,
        filterMap_cons, CacheValue.aligned?, hrest] at h
      obtain ⟨found, hfound, h⟩ := map_eq_ok h
      cases h
      obtain ⟨hsignature, hlength, hsame⟩ := mergedSignature_of_infer hx hy hfound
      refine ⟨hlength, hsignature, fun d op op' hop hop' => ?_, fun d hd => ?_⟩
      · obtain ⟨a, ha, rfl⟩ := Option.map_eq_some_iff.mp hop
        obtain ⟨b, hb, rfl⟩ := Option.map_eq_some_iff.mp hop'
        rw [hsame d a b ha hb]
      · rw [hsignature, mergedSignature, ne_eq, Option.or_eq_none_iff, not_and_or] at hd
        rcases hd with hd | hd
        · exact hx.not_shards hd
        · exact hy.not_shards hd
    | scalar c =>
      simp only [ElementWiseDistributedOp.inferFromLayouts, Operand.cacheValue,
        filterMap_cons, CacheValue.aligned?, hrest] at h
      cases h
      refine ⟨hx.partial_length, funext fun d => ?_, fun d op op' _ hop' => ?_,
        fun d hd => hx.not_shards hd⟩
      · simp [mergedSignature, Operand.layout?, layoutSignature?]
      · simp [Operand.layout?, layoutSignature?] at hop'
  | scalar c =>
    cases y with
    | tensor yLayout yShape =>
      simp only [ElementWiseDistributedOp.inferFromLayouts, Operand.cacheValue,
        filterMap_cons, CacheValue.aligned?, hrest] at h
      cases h
      refine ⟨hy.partial_length, funext fun d => ?_, fun d op op' hop _ => ?_,
        fun d hd => hy.not_shards hd⟩
      · simp [mergedSignature, Operand.layout?, layoutSignature?]
      · simp [Operand.layout?, layoutSignature?] at hop
    | scalar c' =>
      simp only [ElementWiseDistributedOp.inferFromLayouts, Operand.cacheValue,
        filterMap_cons, CacheValue.aligned?, hrest] at h
      cases h

theorem Operand.Held.equalFor {operand : Operand} {value : Coordinate → ℚ}
    (hfree : ∀ d, layoutSignature out d ≠ none → ¬Shards mesh.meshShape.length tensorMap d)
    (h : operand.Held mesh tensorMap value) {order : List Nat}
    (horder : ∀ d ∈ order, d < mesh.meshShape.length) :
    EqualFor (layoutSignature? operand.layout?) (layoutSignature out) order value := by
  intro d hd hown hpending
  cases operand with
  | tensor layout layoutShape => exact h d (horder d hd) hown (hfree d hpending)
  | scalar c =>
    obtain rfl : value = fun _ => c := h
    exact const_replicatedAlong d c

theorem expandImpl_eq (func : ℚ → ℚ → ℚ) {x y : Option Layout}
    (hx : ∀ found ∈ x, found.partialOps.length = out.partialOps.length)
    (hy : ∀ found ∈ y, found.partialOps.length = out.partialOps.length)
    (hsignature : layoutSignature out =
      mergedSignature (layoutSignature? x) (layoutSignature? y)) (valueX valueY : Coordinate → ℚ)
    (ρ : Coordinate) :
    AddDistributedOp.expandImpl func x y out ρ (valueX ρ) (valueY ρ) = .ok (func
      (contribution (layoutSignature? x) (layoutSignature out)
        (range out.partialOps.length) valueX ρ)
      (contribution (layoutSignature? y) (layoutSignature out)
        (range out.partialOps.length) valueY ρ)) := by
  obtain ⟨opsX, hopsX, -, hsigX⟩ := partialSignature_eq hx
  obtain ⟨opsY, hopsY, -, hsigY⟩ := partialSignature_eq hy
  simp only [AddDistributedOp.expandImpl, hopsX, hopsY, bind, Except.bind]
  split
  · rename_i hsame
    have hsig : layoutSignature? x = layoutSignature? y :=
      funext fun d => by rw [← hsigX, ← hsigY, hsame]
    -- operands that are Partial alike are contributed by every rank
    have hall : ∀ own : Option Layout, layoutSignature? own = layoutSignature? x →
        Contributes (layoutSignature? own) (layoutSignature out)
          (range out.partialOps.length) ρ := by
      intro own hown d _ hpending hnone
      rw [hsignature, mergedSignature, ← hsig, ← hown, hnone] at hpending
      exact absurd rfl hpending
    rw [contribution, contribution, if_pos (hall x rfl), if_pos (hall y hsig.symm)]
  · simp only [contributesToPartialOutput_eq hx, contributesToPartialOutput_eq hy,
      decide_eq_true_eq]
    rfl

theorem linear_reconstructs {op : BinaryOp} (hop : op ≠ .mul) (hx : x.On mesh tensorMap shape)
    (hy : y.On mesh tensorMap shape) (hinferred : Inferred mesh tensorMap x y out)
    (hsum : ∀ d, layoutSignature out d = none ∨ layoutSignature out d = some .sum) :
    op.Reconstructs mesh tensorMap x y out := by
  intro valueX valueY hX hY
  have hlength : ∀ operand : Operand, operand.On mesh tensorMap shape →
      ∀ found ∈ operand.layout?, found.partialOps.length = out.partialOps.length := by
    intro operand hon found hfound
    cases operand with
    | tensor layout layoutShape =>
      obtain rfl := Option.some.inj hfound
      exact hon.partial_length.trans hinferred.length.symm
    | scalar c => cases hfound
  refine ⟨fun ρ => op.evaluate
      (contribution (layoutSignature? x.layout?) (layoutSignature out)
        (range out.partialOps.length) valueX ρ)
      (contribution (layoutSignature? y.layout?) (layoutSignature out)
        (range out.partialOps.length) valueY ρ), fun ρ => ?_, fun order horder => ?_⟩
  · have hexpand := expandImpl_eq op.evaluate (hlength x hx) (hlength y hy)
      hinferred.signature valueX valueY ρ
    cases op with
    | mul => exact absurd rfl hop
    | add alpha | sub alpha | rsub alpha => exact hexpand
  · have hmem : ∀ d, d ∈ order ↔ d < mesh.meshShape.length := fun d => by
      rw [horder.mem_iff, mem_range]
    have hrange : ∀ own : Signature, ∀ value : Coordinate → ℚ,
        contribution own (layoutSignature out) (range out.partialOps.length) value =
        contribution own (layoutSignature out) order value := by
      intro own value
      funext ρ
      simp only [contribution, Contributes, mem_range, hmem, hinferred.length]
    have hreduce : ∀ own : Signature, (∀ d, own d ≠ none → own d = layoutSignature out d) →
        ∀ value : Coordinate → ℚ, EqualFor own (layoutSignature out) order value →
        reducePartial (meshSizes mesh) (layoutSignature out) order
          (contribution own (layoutSignature out) (range out.partialOps.length) value) =
          reducePartial (meshSizes mesh) own order value := by
      intro own hown value hequal
      rw [hrange]
      exact reducePartial_contribution (fun d _ => hsum d)
        (horder.nodup_iff.mpr nodup_range) (fun d _ => hown d) hequal
    have hownX : ∀ d, layoutSignature? x.layout? d ≠ none →
        layoutSignature? x.layout? d = layoutSignature out d := by
      intro d hd
      rw [hinferred.signature, mergedSignature]
      cases hxd : layoutSignature? x.layout? d with
      | none => exact absurd hxd hd
      | some _ => rfl
    have hownY : ∀ d, layoutSignature? y.layout? d ≠ none →
        layoutSignature? y.layout? d = layoutSignature out d := by
      intro d hd
      rw [hinferred.signature, mergedSignature]
      cases hyd : layoutSignature? y.layout? d with
      | none => exact absurd hyd hd
      | some b =>
        cases hxd : layoutSignature? x.layout? d with
        | none => rfl
        | some a => rw [hinferred.agree d a b hxd hyd]; rfl
    simp only [BinaryOp.evaluate_eq hop]
    rw [reducePartial_linear fun d _ => hsum d,
      hreduce _ hownX valueX (hX.equalFor hinferred.free fun d => (hmem d).mp),
      hreduce _ hownY valueY (hY.equalFor hinferred.free fun d => (hmem d).mp)]

theorem sum_of_checkOutput {found : Option Layout}
    (h : AddDistributedOp.checkOutput found = .ok (some out)) :
    found = some out ∧ ∀ d, layoutSignature out d = none ∨ layoutSignature out d = some .sum := by
  cases found with
  | none => cases h
  | some layout =>
    rw [AddDistributedOp.checkOutput] at h
    obtain ⟨_, hcheck, h⟩ := bind_eq_ok h
    obtain rfl : layout = out := Option.some.inj (Except.ok.inj h)
    refine ⟨rfl, fun d => ?_⟩
    rw [layoutSignature]
    by_cases hd : d < layout.partialOps.length
    · rw [getD_eq_getElem?_getD, getElem?_eq_getElem hd, Option.getD_some]
      have hmem : (layout.partialOps[d], d) ∈ layout.partialOps.zipIdx := by
        rw [mk_mem_zipIdx_iff_getElem?]
        simp [hd]
      have hcheckd := forM_eq_ok_iff.mp hcheck _ hmem
      cases hop : layout.partialOps[d] with
      | none => exact .inl rfl
      | some op =>
        rw [hop, AddDistributedOp.checkSum] at hcheckd
        simp only at hcheckd
        split at hcheckd
        · cases hcheckd
        · rename_i hsum
          rw [not_not.mp hsum]
          exact .inr rfl
    · rw [getD_eq_getElem?_getD, getElem?_eq_none (by omega)]
      exact .inl rfl

/-! ## The partial algebra -/

theorem inferLayout_mul_eq :
    BinaryOp.mul.inferLayout py x y =
      ElementWiseDistributedOp.inferFromLayouts py [x.cacheValue, y.cacheValue] := rfl

theorem inferLayout_linear {op : BinaryOp} (hop : op ≠ .mul)
    (h : op.inferLayout py x y = .ok (some out)) :
    ElementWiseDistributedOp.inferFromLayouts py [x.cacheValue, y.cacheValue, .plain] =
        .ok (some out) ∧
      ∀ d, layoutSignature out d = none ∨ layoutSignature out d = some .sum := by
  have hadd : AddDistributedOp.inferLayout py op.distributedOp
      [x.cacheValue, y.cacheValue, .plain] = .ok (some out) := by
    cases op with
    | mul => exact absurd rfl hop
    | add alpha | sub alpha | rsub alpha => exact h
  have hallow : op.distributedOp.allowPartialInputs = true := by cases op <;> rfl
  rw [AddDistributedOp.inferLayout] at hadd
  obtain ⟨_, -, hadd⟩ := bind_eq_ok hadd
  obtain ⟨found, hfound, hadd⟩ := bind_eq_ok hadd
  obtain ⟨rfl, hsum⟩ := sum_of_checkOutput hadd
  rw [ElementWiseDistributedOp.inferLayout, hallow] at hfound
  exact ⟨hfound, hsum⟩

/--
Sums and differences that are accepted are right; products are right for the
operands that `Keeps` describes and for no others.
-/
theorem reconstructs_iff_keeps {op : BinaryOp} {x y : Operand} {out : Layout}
    (hpos : ∀ size ∈ mesh.meshShape, 0 < size)
    (hx : x.On mesh tensorMap shape) (hy : y.On mesh tensorMap shape)
    (h : op.inferLayout py x y = .ok (some out)) :
    op.Reconstructs mesh tensorMap x y out ↔ op.Keeps mesh x y := by
  by_cases hop : op = .mul
  · subst hop
    rw [inferLayout_mul_eq] at h
    cases x with
    | tensor xLayout xShape =>
      cases y with
      | tensor yLayout yShape =>
        simp only [ElementWiseDistributedOp.inferFromLayouts, Operand.cacheValue,
          filterMap_cons, filterMap_nil, CacheValue.aligned?] at h
        obtain ⟨found, hfound, h⟩ := map_eq_ok h
        cases h
        exact mul_tensors_iff hpos hx hy hfound
      | scalar c =>
        cases h
        exact mul_scalar_iff hpos (.inl ⟨rfl, rfl⟩)
    | scalar c =>
      cases y with
      | tensor yLayout yShape =>
        cases h
        exact mul_scalar_iff hpos (.inr ⟨rfl, rfl⟩)
      | scalar c' => cases h
  · obtain ⟨hfound, hsum⟩ := inferLayout_linear hop h
    have hright := linear_reconstructs hop hx hy
      (inferred_of_inferFromLayouts rfl hx hy hfound) hsum
    have hkeeps : op.Keeps mesh x y := by
      cases op with
      | mul => exact absurd rfl hop
      | add alpha | sub alpha | rsub alpha => cases x <;> cases y <;> trivial
    exact ⟨fun _ => hkeeps, fun _ => hright⟩

def pairMesh : DeviceMesh where
  meshShape := [2]
  meshDimNames := some ["dp"]
  rankList := [0, 1]
  names_ok := by decide
  ranks_ok := rfl

def pendingSum : Layout where
  mesh := pairMesh
  tensorMap := some []
  partialOps := [some "sum"]
  placements := some [.partialReduce "sum"]
  raggedShard := none
  tensorShape := none
  tensorStride := none
  tensorDtype := "None"
  compactStr := ""

theorem pendingSum_on : (Operand.tensor pendingSum []).On pairMesh [] [] where
  mesh_eq := rfl
  map_eq := rfl
  shape_eq := rfl
  partial_length := rfl
  partial_free := by rintro d ⟨a, ha, -⟩; cases ha

theorem pendingSum_accepted (op : BinaryOp) :
    ∃ out, op.inferLayout asciiStr (.tensor pendingSum []) (.tensor pendingSum []) =
      .ok (some out) := by
  cases op with
  | mul => exact ⟨_, rfl⟩
  | add alpha => exact ⟨_, rfl⟩
  | sub alpha => exact ⟨_, rfl⟩
  | rsub alpha => exact ⟨_, rfl⟩

theorem reconstructs_iff_keeps_pendingSum :
    ∃ out, BinaryOp.mul.inferLayout asciiStr (.tensor pendingSum []) (.tensor pendingSum []) =
        .ok (some out) ∧
      (BinaryOp.mul.Reconstructs pairMesh [] (.tensor pendingSum []) (.tensor pendingSum []) out ↔
        BinaryOp.mul.Keeps pairMesh (.tensor pendingSum []) (.tensor pendingSum [])) := by
  obtain ⟨out, h⟩ := pendingSum_accepted .mul
  exact ⟨out, h, reconstructs_iff_keeps (by decide) pendingSum_on pendingSum_on h⟩

/-- Two pending sums: the ranks' products leave out the mixed terms. -/
theorem reconstructs_fails_pendingSum :
    ¬∀ (py : PyStr) (mesh : DeviceMesh) (tensorMap : TensorMap) (shape : List Nat)
      (op : BinaryOp) (x y : Operand) (out : Layout), (∀ size ∈ mesh.meshShape, 0 < size) →
      x.On mesh tensorMap shape → y.On mesh tensorMap shape →
      op.inferLayout py x y = .ok (some out) → op.Reconstructs mesh tensorMap x y out := by
  intro hclaim
  obtain ⟨out, h⟩ := pendingSum_accepted .mul
  have hlaw := hclaim asciiStr pairMesh [] [] .mul _ _ out (by decide) pendingSum_on pendingSum_on h
  have h' : (inferFromAligned asciiStr (pendingSum, []) (pendingSum, []) []).map some =
      .ok (some out) := h
  obtain ⟨found, hfound, hout⟩ := map_eq_ok h'
  obtain rfl : found = out := Option.some.inj hout
  have hsound := (mul_tensors_iff (by decide) pendingSum_on pendingSum_on hfound).mp hlaw
  have hpair := hsound.pairs 0 (by decide)
  simp [SoundPair, layoutSignature, pendingSum, resolveReduceOp, meshSizes, pairMesh] at hpair

end HyperParallel.Shard
