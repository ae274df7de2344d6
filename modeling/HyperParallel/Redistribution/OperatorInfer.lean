import HyperParallel.DTensor.SubGroups
import HyperParallel.Foundation.PyDict

/-!
# Inferring the operators of a redistribution

Two tensor maps of one mesh are compared dimension by dimension.  A dimension
is dropped from the state once an operator has brought it to its output value;
rounds of splits, exchanges and concatenations go on until none is left.
-/

namespace HyperParallel.Redistribution

open Foundation
open DTensor

inductive InferError where
  | indexOutOfRange
  | keyNotFound (key : Int)
  | notATuple (key : Int)
  | devices (error : GroupError)
  | outOfFuel
  deriving DecidableEq, Repr

inductive Operator where
  | concatByAxis (dim : Int) (axes : DimMapping) (devNum : Nat)
  | splitByAxis (dim : Int) (axes : DimMapping) (devNum : Nat)
  | permuteByAxis (concatDevNum : Nat) (splitDim concatDim : Int) (axes : DimMapping)
      (splitDevNum : Nat)
  deriving DecidableEq, Repr

/-! ## Reading a tensor map -/

def readAt {α : Type*} (xs : List α) (index : Int) : Except InferError α :=
  match pyGet? xs index with
  | some x => .ok x
  | none => .error .indexOutOfRange

def getDimByIdx (dims : TensorMap) (index : Int) : Except InferError DimMapping :=
  if index < dims.length then readAt dims index else .ok (.axis NONE)

def getIndexByValue (dims : TensorMap) (value : DimMapping) : Int :=
  match dims.findIdx? (· = value) with
  | some index => index
  | none => NONE

def endsIn (value : DimMapping) : DimMapping → Except InferError Bool
  | .axis _ => .ok false
  | .axes dim =>
    match value with
    | .axes suffix => .ok (dim.drop (dim.length - suffix.length) = suffix)
    | .axis axis => do .ok (axis = (← readAt dim (-1)))

def anyEndsIn (value : DimMapping) : List DimMapping → Except InferError Bool
  | [] => .ok false
  | dim :: dims => do if ← endsIn value dim then .ok true else anyEndsIn value dims

def indexContainValue (value : DimMapping) : Int → TensorMap → Except InferError Int
  | _, [] => .ok NONE
  | index, dim :: dims => do
      if ← endsIn value dim then .ok index else indexContainValue value (index + 1) dims

def getIndexContainValue (dims : TensorMap) (value : DimMapping) : Except InferError Int :=
  indexContainValue value 0 dims

def getDimByReverseIdx (devMat : DevMat) (idx : DimMapping) : Except InferError Nat :=
  match idx with
  | .axis axis => readAt devMat.dims (devMat.dims.length - 1 - axis)
  | .axes axes => do
      .ok (← axes.mapM fun axis => readAt devMat.dims (devMat.dims.length - 1 - axis)).prod

def startsWith (value : DimMapping) (dim : List Int) : Except InferError Bool :=
  match value with
  | .axis axis => do .ok (axis = (← readAt dim 0))
  | .axes front => .ok (front = dim.take front.length)

def mappingLength : DimMapping → Nat
  | .axis _ => 1
  | .axes axes => axes.length

def restOf (value : DimMapping) (dim : List Int) : Except InferError DimMapping :=
  match dim.drop (mappingLength value) with
  | [_] => do .ok (.axis (← readAt dim (-1)))
  | rest => .ok (.axes rest)

/-! ## The state -/

structure Inference where
  operatorList : List Operator
  map : PyDict Int DimMapping

structure RedistributionOperatorInfer where
  devMat : DevMat
  inTensorMap : TensorMap
  outTensorMap : TensorMap
  usePermute : Bool

namespace Inference

def insertOperator (state : Inference) (op : Operator) : Inference :=
  { state with operatorList := state.operatorList ++ [op] }

def delete (state : Inference) (index : Int) : Inference :=
  { state with map := state.map.erase index }

def assign (state : Inference) (index : Int) (value : DimMapping) : Inference :=
  { state with map := state.map.set index value }

end Inference

namespace RedistributionOperatorInfer

variable (infer : RedistributionOperatorInfer)

def init : Inference where
  operatorList := []
  map := (infer.inTensorMap.zipIdx.foldl
    (fun map entry => map.set (entry.2 : Int) entry.1) PyDict.empty)

abbrev Handler := Inference → Int → DimMapping → DimMapping → Except InferError (Bool × Inference)

/-! ## Splits -/

def handleSimpleSplitCase : Handler := fun state index inDim outDim => do
  if inDim ≠ .axis NONE then return (false, state)
  let conflict := state.map.values.any (· = outDim)
  let conflictTuple ← anyEndsIn outDim state.map.values
  if !conflict && !conflictTuple then
    let devDim ← getDimByReverseIdx infer.devMat outDim
    return (true, state.insertOperator (.splitByAxis index outDim devDim))
  else return (false, state)

def handleTupleSplitCase : Handler := fun state index inDim outDim => do
  match outDim with
  | .axis _ => return (false, state)
  | .axes out =>
    if ← startsWith inDim out then
      let outDimRest ← restOf inDim out
      if state.map.values.any (· = outDimRest) then return (false, state)
      else
        let devDim ← getDimByReverseIdx infer.devMat outDimRest
        return (true, state.insertOperator (.splitByAxis index outDimRest devDim))
    else return (false, state)

/-- The handlers in turn, for a dimension that is still there. -/
def inferDim (handlers : List Handler) (settled : Bool) (state : Inference) (index : Int) :
    Except InferError Inference :=
  match state.map.get? index with
  | none => .ok state
  | some inDim => do
      let outDim ← getDimByIdx infer.outTensorMap index
      if settled ∧ inDim = outDim then .ok (state.delete index)
      else firstHandled handlers state inDim outDim
where
  firstHandled : List Handler → Inference → DimMapping → DimMapping → Except InferError Inference
    | [], state, _, _ => .ok state
    | handler :: handlers, state, inDim, outDim => do
        let (handled, next) ← handler state index inDim outDim
        if handled then .ok next else firstHandled handlers next inDim outDim

def inferPass (handlers : List Handler) (settled : Bool) (state : Inference) :
    Except InferError Inference :=
  state.map.keys.foldlM (infer.inferDim handlers settled) state

/-- A split ends the dimension. -/
def thenDelete (handler : Handler) : Handler := fun state index inDim outDim => do
  let (handled, next) ← handler state index inDim outDim
  return (handled, if handled then next.delete index else next)

def inferSplitByAxis : Inference → Except InferError Inference :=
  infer.inferPass
    [thenDelete infer.handleSimpleSplitCase, thenDelete infer.handleTupleSplitCase] true

/-! ## Exchanges -/

def insertPermute (state : Inference) (index concatAxis : Int) (concatMap axes : DimMapping)
    (splitDevNum : Nat) : Except InferError Inference := do
  if infer.usePermute then
    let concatDevNum ← getDimByReverseIdx infer.devMat concatMap
    return state.insertOperator (.permuteByAxis concatDevNum index concatAxis concatMap splitDevNum)
  else
    return (state.insertOperator (.concatByAxis concatAxis axes splitDevNum)).insertOperator
      (.splitByAxis index axes splitDevNum)

def handleNoneDimPermuteCase : Handler := fun state index inDim outDim => do
  if inDim ≠ .axis NONE then return (false, state)
  if !state.map.values.any (· = outDim) then return (false, state)
  let concatAxis := getIndexByValue infer.inTensorMap outDim
  let splitDevNum ← getDimByReverseIdx infer.devMat outDim
  let next ←
    if infer.usePermute then do
      let concatMap ← getDimByIdx infer.inTensorMap concatAxis
      infer.insertPermute state index concatAxis concatMap outDim splitDevNum
    else infer.insertPermute state index concatAxis outDim outDim splitDevNum
  return (true, (next.delete index).assign concatAxis (.axis NONE))

def handleNoneDimTuplePermuteCase : Handler := fun state index inDim outDim => do
  if inDim ≠ .axis NONE then return (false, state)
  if !(← anyEndsIn outDim state.map.values) then return (false, state)
  let concatAxis ← getIndexContainValue infer.inTensorMap outDim
  let splitDevNum ← getDimByReverseIdx infer.devMat outDim
  let next ← infer.insertPermute state index concatAxis outDim outDim splitDevNum
  let next := next.delete index
  match next.map.get? concatAxis with
  | none => .error (.keyNotFound concatAxis)
  | some (.axis _) => .error (.notATuple concatAxis)
  | some (.axes axes) =>
    let restSize : Int := axes.length - mappingLength outDim
    let newMapItem ←
      if 1 < restSize then pure (DimMapping.axes (axes.take restSize.toNat))
      else do pure (DimMapping.axis (← readAt axes 0))
    return (true, next.assign concatAxis newMapItem)

def handleTupleDimPermuteCase : Handler := fun state index inDim outDim => do
  match outDim with
  | .axis _ => return (false, state)
  | .axes out =>
    if ← startsWith inDim out then
      let outDimRest ← restOf inDim out
      if !state.map.values.any (· = outDimRest) then return (false, state)
      let concatAxis := getIndexByValue infer.inTensorMap outDimRest
      let splitDevNum ← getDimByReverseIdx infer.devMat outDimRest
      let next ← infer.insertPermute state index concatAxis outDimRest outDimRest splitDevNum
      return (true, (next.delete index).assign concatAxis (.axis NONE))
    else return (false, state)

def inferPermuteByAxis : Inference → Except InferError Inference :=
  infer.inferPass [infer.handleNoneDimPermuteCase, infer.handleNoneDimTuplePermuteCase,
    infer.handleTupleDimPermuteCase] true

/-! ## Concatenations -/

def descending (axes : List Int) : Bool := (axes.zip axes.tail).all fun pair => pair.2 < pair.1

def handleTupleConcatCase : Handler := fun state index inDim outDim => do
  match inDim with
  | .axis _ => return (false, state)
  | .axes axes =>
    if outDim = .axis NONE then
      if axes.length ≤ 1 ∨ descending axes then return (false, state)
      let inDimRest := DimMapping.axis (← readAt axes (-1))
      let concatDevNum ← getDimByReverseIdx infer.devMat inDimRest
      let kept ←
        if 2 < axes.length then pure (DimMapping.axes axes.dropLast)
        else do pure (DimMapping.axis (← readAt axes 0))
      return (true,
        (state.insertOperator (.concatByAxis index inDimRest concatDevNum)).assign index kept)
    else if ← startsWith outDim axes then
      let inDimRest ← restOf outDim axes
      let concatDevNum ← getDimByReverseIdx infer.devMat inDimRest
      return (true,
        (state.insertOperator (.concatByAxis index inDimRest concatDevNum)).delete index)
    else return (false, state)

def handleSimpleConcatCase : Handler := fun state index inDim outDim => do
  if inDim = .axis NONE then return (false, state)
  if getIndexByValue infer.outTensorMap inDim ≠ NONE then return (false, state)
  let concatDevNum ← getDimByReverseIdx infer.devMat inDim
  let next := state.insertOperator (.concatByAxis index inDim concatDevNum)
  if outDim = .axis NONE then return (true, next.delete index)
  else return (true, next.assign index (.axis NONE))

def inferConcatByAxis : Inference → Except InferError Inference :=
  infer.inferPass [infer.handleTupleConcatCase, infer.handleSimpleConcatCase] false

/-! ## The loops -/

/-- Exchanges until a pass adds none. -/
def permuteLoop : Nat → Inference → Except InferError Inference
  | fuel, state =>
    if state.map.keys = [] then .ok state
    else
      match fuel with
      | 0 => .error .outOfFuel
      | fuel + 1 => do
          let next ← infer.inferPermuteByAxis state
          if state.operatorList.length = next.operatorList.length then .ok next
          else permuteLoop fuel next

def splitLoop (fuel : Nat) : Nat → Inference → Except InferError Inference
  | rounds, state =>
    if state.map.keys = [] then .ok state
    else
      match rounds with
      | 0 => .error .outOfFuel
      | rounds + 1 => do
          let next ← infer.permuteLoop fuel (← infer.inferSplitByAxis state)
          if state.operatorList.length = next.operatorList.length then .ok next
          else splitLoop fuel rounds next

def concatFirst (state : Inference) : Except InferError Inference :=
  match state.map.entries with
  | [] => .ok state
  | (index, inDim) :: _ => do
      let devDim ← getDimByReverseIdx infer.devMat inDim
      .ok ((state.assign index (.axis NONE)).insertOperator (.concatByAxis index inDim devDim))

def inferLoop (fuel : Nat) : Nat → Inference → Except InferError Inference
  | rounds, state =>
    if state.map.keys = [] then .ok state
    else
      match rounds with
      | 0 => .error .outOfFuel
      | rounds + 1 => do
          let next ← infer.inferConcatByAxis (← infer.splitLoop fuel fuel state)
          let next ←
            if state.operatorList.length = next.operatorList.length then infer.concatFirst next
            else pure next
          inferLoop fuel rounds next

def inferRedistributionOperator (fuel : Nat) : Except InferError Inference :=
  infer.inferLoop fuel fuel infer.init

/-! ## Executable operations -/

inductive Operation where
  | allConcat (concatDim : Int) (concatSize : Nat) (group : List Nat)
  | allSplit (splitDim : Int) (splitSize : Nat) (group : List Nat)
  | allToAll (splitDim concatDim : Int) (permuteSize : Nat) (group : List Nat)
  deriving DecidableEq, Repr

def devicesOf (rank : Nat) (rankList : List Nat) (axes : DimMapping) :
    Except InferError (List Nat) :=
  let devRanks : Int := infer.devMat.dims.length
  let dims : DimArg :=
    match axes with
    | .axis axis => .dim (devRanks - 1 - axis)
    | .axes axes => .dims (axes.map fun axis => devRanks - 1 - axis)
  match infer.devMat.getDevicesAlongDim rank rankList dims with
  | .ok group => .ok group
  | .error error => .error (.devices error)

def operationOf (rank : Nat) (rankList : List Nat) :
    Operator → Except InferError (Option Operation)
  | .concatByAxis dim axes devNum => do
      let group ← infer.devicesOf rank rankList axes
      .ok (if devNum = 1 then none else some (.allConcat dim devNum group))
  | .splitByAxis dim axes devNum => do
      let group ← infer.devicesOf rank rankList axes
      .ok (if devNum = 1 then none else some (.allSplit dim devNum group))
  | .permuteByAxis concatDevNum splitDim concatDim axes _ => do
      let group ← infer.devicesOf rank rankList axes
      .ok (if concatDevNum = 1 then none
        else some (.allToAll splitDim concatDim concatDevNum group))

def inferOpsList (fuel rank : Nat) (rankList : List Nat) : Except InferError (List Operation) := do
  let state ← infer.inferRedistributionOperator fuel
  let operations ← state.operatorList.mapM (infer.operationOf rank rankList)
  .ok (operations.filterMap id)

end RedistributionOperatorInfer

end HyperParallel.Redistribution
