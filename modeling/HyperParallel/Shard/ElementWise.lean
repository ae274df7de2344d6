import HyperParallel.DTensor.Layout

/-!
# Layouts of element-wise operators

What the dispatcher infers for an element-wise operator from the layouts and
shapes of its arguments, and what each rank then computes.  The layouts of the
operands are merged from left to right, the running result standing for all
operands before it.
-/

namespace HyperParallel.Shard

open Foundation
open DTensor

inductive OpError where
  | partialInput (input : Nat)
  | cannotBroadcast (dim1 dim2 : Nat)
  | broadcastSharded (dim : Nat)
  | conflictingSharding (dim : Nat) (axes1 axes2 : List Int)
  | partialOpsDiffer (meshDim : Nat) (op1 op2 : String)
  | shardPartialConflict
  | partialBroadcasts (input : Nat)
  | partialNotSum (op : String) (meshDim : Nat)
  | inplacePartial (signatures : List (List (Option String)))
  | meshNdim (input output : Nat)
  | indexOutOfRange
  | aliasNameMissing
  | layout (error : LayoutError)
  deriving DecidableEq, Repr

inductive CacheValue where
  | distributed (layout : Layout) (shape : List Nat)
  | plain

def CacheValue.layout? : CacheValue → Option Layout
  | .distributed layout _ => some layout
  | .plain => none

def CacheValue.aligned? : CacheValue → Option (Layout × List Nat)
  | .distributed layout shape => some (layout, shape)
  | .plain => none

/-- A registered operator. -/
structure DistributedOp where
  opName : String
  allowPartialInputs : Bool

def liftLayout {α : Type} : Except LayoutError α → Except OpError α
  | .ok a => .ok a
  | .error e => .error (.layout e)

/-- Some reduction is pending; an empty name counts as none. -/
def isPartial (layout : Layout) : Bool := layout.partialOps.any fun op => op.getD "" ≠ ""

def checkPartialInputs (layouts : List (Option Layout)) : Except OpError Unit :=
  layouts.zipIdx.forM fun (layout, i) =>
    if layout.any isPartial then .error (.partialInput i) else .ok ()

/-! ## Shapes -/

def paddedShape (maxLen : Nat) (shape : List Nat) : List Nat :=
  List.replicate (maxLen - shape.length) 1 ++ shape

def broadcastDim (dim1 dim2 : Nat) : Except OpError Nat :=
  if dim1 = dim2 then .ok dim1
  else if dim1 = 1 then .ok dim2
  else if dim2 = 1 then .ok dim1
  else .error (.cannotBroadcast dim1 dim2)

def broadcastShapes (shape1 shape2 : List Nat) : Except OpError (List Nat) :=
  let maxLen := max shape1.length shape2.length
  ((paddedShape maxLen shape1).zip (paddedShape maxLen shape2)).mapM fun dims =>
    broadcastDim dims.1 dims.2

def computeOutputShape : List (List Nat) → Except OpError (List Nat)
  | [] => .error .indexOutOfRange
  | shape :: shapes => shapes.foldlM broadcastShapes shape

/-! ## Tensor maps -/

def layoutMap (layout : Layout) (len : Nat) : TensorMap :=
  match layout.tensorMap with
  | none | some [] => List.replicate len (.axis NONE)
  | some tensorMap => tensorMap

def alignTensorMap (maxLen : Nat) (layout : Layout) (shape : List Nat) : TensorMap :=
  List.replicate (maxLen - shape.length) (.axis NONE) ++ layoutMap layout shape.length

def normalizeTensorMapElement : DimMapping → List Int
  | .axis axis => if axis = NONE then [] else [axis]
  | .axes axes => axes.filter (· ≠ NONE)

def denormalizeTensorMapElement : List Int → DimMapping
  | [] => .axis NONE
  | [axis] => .axis axis
  | axes => .axes axes

/-- The comparison is one of sets. -/
def sameAxes (axes1 axes2 : List Int) : Prop :=
  (∀ a ∈ axes1, a ∈ axes2) ∧ ∀ a ∈ axes2, a ∈ axes1

instance (axes1 axes2 : List Int) : Decidable (sameAxes axes1 axes2) :=
  inferInstanceAs (Decidable (_ ∧ _))

def mergeTensorMapElement (i : Nat) (m1 m2 : DimMapping) (dim1 dim2 outDim : Nat) :
    Except OpError DimMapping :=
  let m1Axis := normalizeTensorMapElement m1
  let m2Axis := normalizeTensorMapElement m2
  if m1Axis = [] ∧ m2Axis = [] then .ok (.axis NONE)
  else if m1Axis = [] then
    if dim2 = 1 ∧ 1 < outDim then .error (.broadcastSharded i)
    else .ok (denormalizeTensorMapElement m2Axis)
  else if m2Axis = [] then
    if dim1 = 1 ∧ 1 < outDim then .error (.broadcastSharded i)
    else .ok (denormalizeTensorMapElement m1Axis)
  else if ¬sameAxes m1Axis m2Axis then .error (.conflictingSharding i m1Axis m2Axis)
  else if (dim1 = 1 ∨ dim2 = 1) ∧ dim1 ≠ dim2 then .error (.broadcastSharded i)
  else .ok (denormalizeTensorMapElement m1Axis)

/-- One turn of the loop over the output dimensions. -/
def mergeTensorMapDim (map1 map2 : TensorMap) (entry : ((Nat × Nat) × Nat) × Nat) :
    Except OpError DimMapping :=
  match map1[entry.2]?, map2[entry.2]? with
  | some m1, some m2 => mergeTensorMapElement entry.2 m1 m2 entry.1.1.1 entry.1.1.2 entry.1.2
  | _, _ => .error .indexOutOfRange

def mergeTensorMapsForBroadcast (layout1 layout2 : Layout)
    (shape1 shape2 outputShape : List Nat) : Except OpError TensorMap :=
  let mapLen := max shape1.length shape2.length
  let maxLen := outputShape.length
  (((paddedShape maxLen shape1).zip (paddedShape maxLen shape2)).zip outputShape).zipIdx.mapM
    (mergeTensorMapDim (alignTensorMap mapLen layout1 shape1)
      (alignTensorMap mapLen layout2 shape2))

/-! ## Pending reductions -/

def shardPartialConflict (tensorMap : TensorMap) (partialList : List (Option String)) : Prop :=
  ∃ a ∈ usedAxes tensorMap, 0 ≤ (partialList.length : Int) - 1 - a ∧
    (partialList.getD ((partialList.length : Int) - 1 - a).toNat none).isSome

instance (tensorMap : TensorMap) (partialList : List (Option String)) :
    Decidable (shardPartialConflict tensorMap partialList) :=
  inferInstanceAs (Decidable (∃ a ∈ usedAxes tensorMap, _ ∧ _))

def checkShardPartialConflict (tensorMap : TensorMap) (partialList : List (Option String)) :
    Except OpError Unit :=
  if shardPartialConflict tensorMap partialList then .error .shardPartialConflict else .ok ()

def mergePartialOp (i : Nat) : Option String → Option String → Except OpError (Option String)
  | some op1, some op2 =>
    if op1 ≠ op2 then .error (.partialOpsDiffer i op1 op2) else .ok (some op1)
  | some op1, none => .ok (some op1)
  | none, op2 => .ok op2

def mergePartialOps (partial1 partial2 : List (Option String)) :
    Except OpError (List (Option String)) :=
  (List.range (max partial1.length partial2.length)).mapM fun i =>
    mergePartialOp i (partial1.getD i none) (partial2.getD i none)

def mergePartialStatus (partial1 partial2 : List (Option String))
    (mergedTensorMap tensorMap1 tensorMap2 : TensorMap) :
    Except OpError (List (Option String)) := do
  checkShardPartialConflict tensorMap1 partial1
  checkShardPartialConflict tensorMap2 partial2
  let mergedPartial ← mergePartialOps partial1 partial2
  checkShardPartialConflict mergedTensorMap mergedPartial
  .ok mergedPartial

def checkBroadcastAndPartial (outputShape : List Nat) (entry : (Layout × List Nat) × Nat) :
    Except OpError Unit :=
  let aligned := paddedShape outputShape.length entry.1.2
  if (aligned.zip outputShape).any (fun dims => dims.1 = 1 && 1 < dims.2) ∧
      isPartial entry.1.1 then
    .error (.partialBroadcasts (entry.2 + 1))
  else .ok ()

def checkAllInputsBroadcastsAndPartial (aligned : List (Layout × List Nat))
    (outputShape : List Nat) : Except OpError Unit :=
  aligned.zipIdx.forM (checkBroadcastAndPartial outputShape)

/-! ## The output -/

variable (py : PyStr)

def readTensorMapNames (names : Option (List String)) (tensorMap : TensorMap) :
    Except OpError (List String) :=
  (usedAxes tensorMap).mapM fun dim =>
    match names with
    | none => .error .aliasNameMissing
    | some names =>
      match pyGet? names (names.length - 1 - dim) with
      | some name => .ok name
      | none => .error .indexOutOfRange

def setOutputPartial (newLayout : Layout) (entry : Option String × Nat) : Except OpError Layout :=
  match entry.1 with
  | none => .ok newLayout
  | some op =>
    match newLayout.mesh.meshDimNames with
    | none => .error .aliasNameMissing
    | some names =>
      match names[entry.2]? with
      | none => .ok newLayout
      | some name => liftLayout (newLayout.setPartialByDevAxis py name (some op))

def createOutputLayout (baseLayout : Layout) (outputTensorMap : TensorMap)
    (partialList : List (Option String)) : Except OpError Layout := do
  let newLayout := { baseLayout with tensorMap := some outputTensorMap }
  let _ ← readTensorMapNames baseLayout.mesh.meshDimNames outputTensorMap
  let (newLayout, _) ← liftLayout (newLayout.tensorMapToPlacement py)
  partialList.zipIdx.foldlM (setOutputPartial py) newLayout

def mergeLayout (baseLayout : Layout) (outputShape : List Nat)
    (merged : TensorMap × List (Option String)) (operand : Layout × List Nat) :
    Except OpError (TensorMap × List (Option String)) := do
  let tempLayout ← createOutputLayout py baseLayout merged.1 merged.2
  let mergedTensorMap ← mergeTensorMapsForBroadcast tempLayout operand.1 outputShape operand.2
    outputShape
  let mergedPartial ← mergePartialStatus merged.2 operand.1.partialOps mergedTensorMap
    (tempLayout.tensorMap.getD []) (operand.1.tensorMap.getD [])
  .ok (mergedTensorMap, mergedPartial)

def mergeFirstLayouts (outputShape : List Nat) (first second : Layout × List Nat) :
    Except OpError (TensorMap × List (Option String)) := do
  let mergedTensorMap ← mergeTensorMapsForBroadcast first.1 second.1 first.2 second.2 outputShape
  let mergedPartial ← mergePartialStatus first.1.partialOps second.1.partialOps mergedTensorMap
    (first.1.tensorMap.getD []) (second.1.tensorMap.getD [])
  .ok (mergedTensorMap, mergedPartial)

def inferFromAligned (first second : Layout × List Nat) (rest : List (Layout × List Nat)) :
    Except OpError Layout := do
  let outputShape ← computeOutputShape (first.2 :: second.2 :: rest.map Prod.snd)
  let merged ← mergeFirstLayouts outputShape first second
  let merged ← rest.foldlM (mergeLayout py first.1 outputShape) merged
  checkAllInputsBroadcastsAndPartial (first :: second :: rest) outputShape
  createOutputLayout py first.1 merged.1 merged.2

namespace ElementWiseDistributedOp

def inferFromLayouts (args : List CacheValue) : Except OpError (Option Layout) :=
  match args.filterMap CacheValue.aligned? with
  | [] => .ok none
  | [only] => .ok (some only.1)
  | first :: second :: rest => (inferFromAligned py first second rest).map some

/-- `none` where no argument has a layout. -/
def inferLayout (op : DistributedOp) (args : List CacheValue) :
    Except OpError (Option Layout) := do
  if op.allowPartialInputs then inferFromLayouts py args
  else do
    checkPartialInputs (args.map CacheValue.layout?)
    inferFromLayouts py args

end ElementWiseDistributedOp

/-! ## Addition and subtraction -/

def partialSignature (layout : Option Layout) (meshNdim : Nat) :
    Except OpError (List (Option String)) :=
  match layout with
  | none => .ok (List.replicate meshNdim none)
  | some layout =>
    if layout.partialOps.length ≠ meshNdim then
      .error (.meshNdim layout.partialOps.length meshNdim)
    else .ok layout.partialOps

def inplaceElementwiseOps : List String := ["add_", "sub_", "InplaceAddExt", "InplaceSubExt"]

namespace AddDistributedOp

/-- An operand that is written in place cannot take up a reduction of the other one. -/
def checkInplace (op : DistributedOp) (args : List CacheValue) : Except OpError Unit :=
  match args with
  | x1 :: x2 :: _ =>
    if op.opName ∈ inplaceElementwiseOps then do
      let meshNdim := ([x1, x2].filterMap CacheValue.layout?).foldl
        (fun ndim layout => max ndim layout.partialOps.length) 0
      let signature1 ← partialSignature x1.layout? meshNdim
      let signature2 ← partialSignature x2.layout? meshNdim
      if signature1 ≠ signature2 then .error (.inplacePartial [signature1, signature2])
      else .ok ()
    else .ok ()
  | _ => .ok ()

def checkSum (entry : Option String × Nat) : Except OpError Unit :=
  match entry.1 with
  | none => .ok ()
  | some op => if op ≠ "sum" then .error (.partialNotSum op entry.2) else .ok ()

def checkOutput : Option Layout → Except OpError (Option Layout)
  | none => .ok none
  | some outputLayout => do
      outputLayout.partialOps.zipIdx.forM checkSum
      .ok (some outputLayout)

def inferLayout (op : DistributedOp) (args : List CacheValue) :
    Except OpError (Option Layout) := do
  checkInplace op args
  let inferResult ← ElementWiseDistributedOp.inferLayout py op args
  checkOutput inferResult

end AddDistributedOp

/-- `localRank` is the rank's place on every mesh dimension. -/
def contributesToPartialOutput (inputLayout : Option Layout) (outputLayout : Layout)
    (localRank : Nat → Nat) : Except OpError Bool := do
  let inputPartial ← partialSignature inputLayout outputLayout.partialOps.length
  .ok (!(outputLayout.partialOps.zipIdx.any fun entry =>
    entry.1.isSome && (inputPartial.getD entry.2 none).isNone && localRank entry.2 != 0))

def AddDistributedOp.expandImpl (func : ℚ → ℚ → ℚ) (x1Layout x2Layout : Option Layout)
    (outputLayout : Layout) (localRank : Nat → Nat) (x1 x2 : ℚ) : Except OpError ℚ := do
  let x1Partial ← partialSignature x1Layout outputLayout.partialOps.length
  let x2Partial ← partialSignature x2Layout outputLayout.partialOps.length
  if x1Partial = x2Partial then .ok (func x1 x2)
  else do
    let x1Contributes ← contributesToPartialOutput x1Layout outputLayout localRank
    let x2Contributes ← contributesToPartialOutput x2Layout outputLayout localRank
    .ok (func (if x1Contributes then x1 else 0) (if x2Contributes then x2 else 0))

end HyperParallel.Shard
