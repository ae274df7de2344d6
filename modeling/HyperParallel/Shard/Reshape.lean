import HyperParallel.Shard.ElementWise

/-!
# Layouts of a reshape

The axes of the input are merged into groups, each led by a sharded axis.  The
target shape is then read from the right: its dimensions use up one group after
the other, and the dimension that completes a group takes over its sharding.
-/

namespace HyperParallel.Shard

open Foundation
open DTensor

inductive ReshapeError where
  | cannotReshape (inputShape dstShape : List Int) (tensorMap : TensorMap)
  | elementsDiffer (inputShape outputShape : List Int)
  | shapeNotSequence
  | layoutMissing (opName : String)
  | layout (error : LayoutError)
  | namesNotIterable
  | indexOutOfRange
  | zeroDivision
  deriving DecidableEq

/-- The errors a layout raises as `ValueError`. -/
def layoutValueError : LayoutError → Bool
  | .negativeDim _ | .shardDimOutOfBounds .. | .splitFactorMismatch .. => true
  | .multipleRaggedShards | .tensorMapNone | .unsupportedPartialOp _ | .partialDimSharded => true
  | .axisNotFound _ | .axisSetTwice _ | .axisNotInMesh _ => true
  | .placementsNone | .indexOutOfRange | .meshDimNamesMissing => false

/-- The errors raised as `ValueError`. -/
def ReshapeError.isValueError : ReshapeError → Bool
  | .cannotReshape .. | .elementsDiffer .. | .shapeNotSequence | .layoutMissing _ => true
  | .layout error => layoutValueError error
  | .namesNotIterable | .indexOutOfRange | .zeroDivision => false

inductive TargetShape where
  | scalar (size : Int)
  | sequence (dims : List Int)

def liftReshape {α : Type} : Except LayoutError α → Except ReshapeError α
  | .ok a => .ok a
  | .error e => .error (.layout e)

def readAt {α : Type} (xs : List α) (i : Int) : Except ReshapeError α :=
  match pyGet? xs i with
  | some x => .ok x
  | none => .error .indexOutOfRange

/-- `mesh_shape[-1 - axis]`; the mark of an unsharded dimension reads the outermost axis. -/
def sizeOfAxis (meshShape : MeshShape) (axis : Int) : Except ReshapeError Nat :=
  readAt meshShape (-1 - axis)

/-! ## The shard map -/

def filterEntry (meshShape : MeshShape) : DimMapping → Except ReshapeError DimMapping
  | .axes items => do
      let sizes ← items.mapM (sizeOfAxis meshShape)
      let filtered := ((items.zip sizes).filter fun entry => entry.2 ≠ 1).map Prod.fst
      match filtered with
      | [] => .ok (.axis NONE)
      | [single] => .ok (.axis single)
      | filtered => .ok (.axes filtered)
  | .axis item => do
      let size ← sizeOfAxis meshShape item
      .ok (.axis (if size ≠ 1 then item else NONE))

def filterNoneSplitTensorMap (tensorMap : TensorMap) (meshShape : MeshShape) :
    Except ReshapeError TensorMap :=
  tensorMap.mapM (filterEntry meshShape)

/-! ## Shapes with an unknown axis -/

structure DynamicShapeInfo where
  isDynamic : Bool
  dynamicAxis : Int
  totalSize : Int

def getDynamicShapeInfo (shape : List Int) : DynamicShapeInfo :=
  let totalSize := shape.prod
  let dynamicAxis := shape.zipIdx.foldl
    (fun (axis : Int) entry => if entry.1 < 0 then (entry.2 : Int) else axis) (-1)
  ⟨decide (totalSize < 0), dynamicAxis, totalSize⟩

structure ResolvedShapes where
  inputShape : List Int
  outputShape : List Int
  dynamicCanShard : Bool

/-- `//` rounds down; a total size that is negative has a dynamic axis. -/
def handleDynamicShape (inputShape outputShape : List Int) : Except ReshapeError ResolvedShapes :=
  let input := getDynamicShapeInfo inputShape
  let output := getDynamicShapeInfo outputShape
  if ¬ input.isDynamic ∧ ¬ output.isDynamic then
    if input.totalSize ≠ output.totalSize then .error (.elementsDiffer inputShape outputShape)
    else .ok ⟨inputShape, outputShape, false⟩
  else if ¬ input.isDynamic then
    .ok ⟨inputShape,
      outputShape.set output.dynamicAxis.toNat ((-input.totalSize).fdiv output.totalSize), false⟩
  else if ¬ output.isDynamic then
    .ok ⟨inputShape.set input.dynamicAxis.toNat ((-output.totalSize).fdiv input.totalSize),
      outputShape, false⟩
  else if input.totalSize ≤ output.totalSize then
    .ok ⟨inputShape,
      outputShape.set output.dynamicAxis.toNat (-(input.totalSize.fdiv output.totalSize)), true⟩
  else
    .ok ⟨inputShape.set input.dynamicAxis.toNat (-(output.totalSize.fdiv input.totalSize)),
      outputShape, false⟩

/-! ## Groups of axes -/

def mergeAxis (axis : Int × DimMapping) (state : Int × List Int × TensorMap) :
    Int × List Int × TensorMap :=
  let mergedSize := state.1 * axis.1
  if axis.2 ≠ .axis NONE then (1, mergedSize :: state.2.1, axis.2 :: state.2.2)
  else (mergedSize, state.2.1, state.2.2)

def mergeUnsharedAxis (globalShape : List Int) (tensorMap : TensorMap) :
    Except ReshapeError (List Int × TensorMap) :=
  if tensorMap.length < globalShape.length then .error .indexOutOfRange
  else
    let (mergedSize, mergedShape, mergedTensorMap) :=
      (globalShape.zip tensorMap).foldr mergeAxis (1, [], [])
    match tensorMap with
    | [] => .error .indexOutOfRange
    | first :: _ =>
      if first = .axis NONE then .ok (mergedSize :: mergedShape, .axis NONE :: mergedTensorMap)
      else .ok (mergedShape, mergedTensorMap)

/-! ## The walk over the target -/

/-- What an error of the walk names. -/
structure ReshapeRequest where
  meshShape : MeshShape
  dynamicCanShard : Bool
  inputShape : List Int
  xMap : TensorMap
  dstShape : List Int

namespace ReshapeRequest

variable (request : ReshapeRequest)

def cannotReshape : ReshapeError :=
  .cannotReshape request.inputShape request.dstShape request.xMap

def shardSize : DimMapping → Except ReshapeError Nat
  | .axes ids => do
      let sizes ← ids.mapM (sizeOfAxis request.meshShape)
      .ok sizes.prod
  | .axis id => sizeOfAxis request.meshShape id

def validateReshapeShard (mapVal : DimMapping) (shape : Int) : Except ReshapeError Unit := do
  let shardSize ← request.shardSize mapVal
  if shape < 0 then
    if request.dynamicCanShard then .ok () else .error request.cannotReshape
  else if shape < shardSize ∨ shape.fmod shardSize ≠ 0 then .error request.cannotReshape
  else .ok ()

def completeGroup (mergeTensorMap : TensorMap) (curAxis shape : Int) :
    Except ReshapeError DimMapping := do
  let mapVal ← readAt mergeTensorMap curAxis
  if mapVal ≠ .axis NONE then do
    request.validateReshapeShard mapVal shape
    .ok mapVal
  else .ok mapVal

/-- The loop over the target dimensions, from the right; the cursor may run below zero. -/
def walk (mergedShape : List Int) (mergeTensorMap : TensorMap) :
    List Int → Int → Int → TensorMap → Except ReshapeError TensorMap
  | [], _, _, outputTensorMap => .ok outputTensorMap
  | shape :: rest, curAxis, curSize, outputTensorMap =>
    if shape = 0 then .error .zeroDivision
    else if curSize.fmod shape ≠ 0 then .error request.cannotReshape
    else
      if curSize.fdiv shape = 1 then do
        let mapVal ← request.completeGroup mergeTensorMap curAxis shape
        let nextSize ← readAt mergedShape (curAxis - 1)
        walk mergedShape mergeTensorMap rest (curAxis - 1) nextSize (mapVal :: outputTensorMap)
      else
        walk mergedShape mergeTensorMap rest curAxis (curSize.fdiv shape)
          (.axis NONE :: outputTensorMap)

def computeOutputTensorMap (mergedShape : List Int) (mergeTensorMap : TensorMap) :
    Except ReshapeError TensorMap := do
  let curAxis : Int := mergedShape.length - 1
  let curSize ← readAt mergedShape curAxis
  request.walk mergedShape mergeTensorMap request.dstShape.reverse curAxis curSize []

end ReshapeRequest

/-! ## The output layout -/

def outputDim (aliasName : List String) (meshShape : MeshShape) (mapId : DimMapping) (size : Int) :
    Except ReshapeError (Layout.AliasDim × Int) :=
  match mapId with
  | .axes ids => do
      let names ← ids.mapM fun shardId => readAt aliasName (-1 - shardId)
      let sizes ← ids.mapM (sizeOfAxis meshShape)
      .ok (.names names, if 0 < size then size.fdiv sizes.prod else -1)
  | .axis id =>
    if id < 0 then .ok (.name "None", if 0 < size then size else -1)
    else do
      let name ← readAt aliasName (-1 - id)
      let shardSize ← sizeOfAxis meshShape id
      .ok (.name name, if 0 < size then size.fdiv shardSize else -1)

def calOutputLayoutAndDstShape (outputTensorMap : TensorMap) (dstShape : List Int)
    (aliasName : List String) (meshShape : MeshShape) :
    Except ReshapeError (List (Layout.AliasDim × Int)) :=
  (outputTensorMap.zip dstShape).mapM fun entry => outputDim aliasName meshShape entry.1 entry.2

def applyPartialOp (py : PyStr) (aliasName : List String) (outLayout : Layout)
    (entry : Option String × Nat) : Except ReshapeError Layout :=
  match entry.1, aliasName[entry.2]? with
  | some op, some axis => liftReshape (outLayout.setPartialByDevAxis py axis (some op))
  | _, _ => .ok outLayout

def applyPartialStatus (py : PyStr) (xLayout outLayout : Layout) (aliasName : List String) :
    Except ReshapeError Layout :=
  if isPartial xLayout then
    xLayout.partialOps.zipIdx.foldlM (applyPartialOp py aliasName) outLayout
  else .ok outLayout

/-- What `to_dict` says of a layout. -/
structure LayoutDict where
  tensorMap : TensorMap
  aliasName : List String

def toDict (layout : Layout) : Except ReshapeError LayoutDict :=
  match layout.tensorMap, layout.mesh.meshDimNames with
  | none, _ => .error (.layout .tensorMapNone)
  | some _, none => .error .namesNotIterable
  | some tensorMap, some aliasName => .ok ⟨tensorMap, aliasName⟩

def normalizeShape : TargetShape → Except ReshapeError (List Int)
  | .sequence dims => .ok dims
  | .scalar _ => .error .shapeNotSequence

def inferReshapeLayout (py : PyStr) (xLayout : Layout) (target : TargetShape)
    (inputShape : List Int) : Except ReshapeError (Layout × List Int) := do
  let xDict ← toDict xLayout
  let dstShape ← normalizeShape target
  let meshShape := xLayout.mesh.meshShape
  let xMap ← filterNoneSplitTensorMap xDict.tensorMap meshShape
  let resolved ← handleDynamicShape inputShape dstShape
  let (mergedShape, mergeTensorMap) ← mergeUnsharedAxis resolved.inputShape xMap
  let request : ReshapeRequest :=
    { meshShape
      dynamicCanShard := resolved.dynamicCanShard
      inputShape := resolved.inputShape
      xMap
      dstShape := resolved.outputShape }
  let outputTensorMap ← request.computeOutputTensorMap mergedShape mergeTensorMap
  let outputDims ← calOutputLayoutAndDstShape outputTensorMap resolved.outputShape xDict.aliasName
    meshShape
  let outputLayout := Layout.fromDeviceMesh py xLayout.mesh
  let outLayout ← liftReshape (outputLayout.callAlias py (outputDims.map Prod.fst))
  let outLayout ← applyPartialStatus py xLayout outLayout xDict.aliasName
  .ok (outLayout, outputDims.map Prod.snd)

/-- `ReshapeDistributedOp.infer_layout`. -/
def inferReshape (py : PyStr) (opName : String) (xLayout : Option Layout) (target : TargetShape)
    (inputShape : List Int) : Except ReshapeError (Layout × List Int) :=
  match xLayout with
  | none => .error (.layoutMissing opName)
  | some xLayout => inferReshapeLayout py xLayout target inputShape

end HyperParallel.Shard
