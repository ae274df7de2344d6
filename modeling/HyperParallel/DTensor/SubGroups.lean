import HyperParallel.DTensor.TensorMap
import HyperParallel.Foundation.PySequence
import HyperParallel.Foundation.StridedBlocks

/-!
# Communication groups of a mesh

A redistribution asks for the ranks that share its place on all mesh axes but
some.  Creating their group creates the groups of all other places with it: the
rank list is a template, read as the first member and one step.
-/

namespace HyperParallel.DTensor

open Foundation

inductive GroupError where
  | dimensionOutOfRange (dim : Int) (dims : Nat)
  | rankListMismatch (length total : Nat)
  | rankNotInList (rank : Nat)
  | indexOutOfRange
  | templateTooShort (template : List Nat)
  | inconsistentStep (diff expected : Nat)
  | zeroRangeStep
  | duplicateRanks
  | emptyGroup
  | keyNotFound (ranks : List Nat)
  deriving DecidableEq, Repr

/-! ## The ranks along some axes -/

structure DevMat where
  dims : MeshShape

/-- One axis, or several of them in an order. -/
inductive DimArg where
  | dim (dim : Int)
  | dims (dims : List Int)

namespace DevMat

variable (mat : DevMat)

def getDevicesAlongOneDim (rank : Nat) (rankList : List Nat) (dim : Int) :
    Except GroupError (List Nat) :=
  if dim < 0 ∨ mat.dims.length ≤ dim then .error (.dimensionOutOfRange dim mat.dims.length)
  else
    let size := mat.dims.getD dim.toNat 0
    if size = 1 then .ok [rank]
    else if rankList.length ≠ mat.dims.prod then
      .error (.rankListMismatch rankList.length mat.dims.prod)
    else if rank ∉ rankList then .error (.rankNotInList rank)
    else
      let stride := (mat.dims.drop (dim.toNat + 1)).prod
      let localIndex := rankList.idxOf rank
      let indexInDim := localIndex / stride % size
      let base := localIndex - indexInDim * stride
      (List.range size).mapM fun k =>
        match rankList[base + k * stride]? with
        | some device => .ok device
        | none => .error .indexOutOfRange

def expandLayer (devices : Nat → Except GroupError (List Nat)) :
    Nat → List Nat → Except GroupError (List Nat)
  | 0, result => .ok result
  | _ + 1, [] => .error .indexOutOfRange
  | remaining + 1, subRank :: result => do
      expandLayer devices remaining (result ++ (← devices subRank))

def expandDims (rankList : List Nat) : List Int → List Nat → Except GroupError (List Nat)
  | [], result => .ok result
  | _ :: _, [] => .error .indexOutOfRange
  | dim :: dims, subRank :: result => do
      expandDims rankList dims
        (← expandLayer (fun subRank => mat.getDevicesAlongOneDim subRank rankList dim)
          (result.length + 1) (subRank :: result))

def getDevicesAlongDim (rank : Nat) (rankList : List Nat) :
    DimArg → Except GroupError (List Nat)
  | .dim dim => mat.getDevicesAlongOneDim rank rankList dim
  | .dims [] => .error .indexOutOfRange
  | .dims (dim :: dims) => do
      mat.expandDims rankList dims (← mat.getDevicesAlongOneDim rank rankList dim)

end DevMat

/-! ## Groups from a template -/

def validateIntraStep (normalizedTemplate : List Nat) : Except GroupError Nat :=
  match normalizedTemplate.zip normalizedTemplate.tail with
  | [] => .error .indexOutOfRange
  | (first, second) :: pairs => do
      pairs.forM fun pair =>
        if pair.2 - pair.1 = second - first then .ok ⟨⟩
        else .error (.inconsistentStep (pair.2 - pair.1) (second - first))
      .ok (second - first)

def rangeFromZero (stop step : Nat) : List Nat :=
  (List.range ((stop + step - 1) / step)).map (· * step)

def computeGroupStarts (worldSize blockSize interStep : Nat) : List Nat :=
  (rangeFromZero worldSize interStep).filter fun start => start + blockSize ≤ worldSize

def buildGroupsForBlocks (groupStarts : List Nat) (blockSize templateSpan : Nat)
    (normalizedTemplate : List Nat) (worldSize : Nat) : List (List Nat) :=
  groupStarts.flatMap fun startBlock =>
    ((List.range (blockSize - templateSpan)).map fun offset =>
      normalizedTemplate.map fun member => startBlock + offset + member).filter fun group =>
        group.all (· < worldSize)

/-- The first two members decide, the second only where the first agree. -/
def groupOrder (a b : List Nat) : Bool :=
  a.headD 0 < b.headD 0 || (a.headD 0 = b.headD 0 && (a[1]?.getD 0) ≤ (b[1]?.getD 0))

def generateGroupsFromTemplate (template : List Nat) (worldSize : Nat) :
    Except GroupError (List (List Nat)) :=
  let template := template.mergeSort
  if template.length = 1 then .ok ((List.range worldSize).map fun rank => [rank])
  else if template.length < 2 then .error (.templateTooShort template)
  else do
    let normalizedTemplate := template.map (· - template.headD 0)
    let intraStep ← validateIntraStep normalizedTemplate
    let blockSize := intraStep * template.length
    let templateSpan := normalizedTemplate.getLastD 0 - normalizedTemplate.headD 0
    if blockSize = 0 then .error .zeroRangeStep
    else
      let groups := buildGroupsForBlocks (computeGroupStarts worldSize blockSize blockSize)
        blockSize templateSpan normalizedTemplate worldSize
      if groups.flatten.Nodup then .ok (groups.mergeSort groupOrder)
      else .error .duplicateRanks

def validateGroups (groups : List (List Nat)) : Except GroupError Unit :=
  groups.forM fun group =>
    if group = [] then .error .emptyGroup
    else if group.Nodup then .ok ()
    else .error .duplicateRanks

def createSubGroups (rankList : List Nat) (worldSize myRank : Nat) :
    Except GroupError (List (List Nat) × List (List Nat)) := do
  let groups ← generateGroupsFromTemplate rankList worldSize
  validateGroups groups
  let created := (groups.mergeSort fun a b => a.headD 0 ≤ b.headD 0).map fun group =>
    group.mergeSort
  .ok (created, created.filter (myRank ∈ ·))

def createGroup (rankList : List Nat) (worldSize myRank : Nat) : Except GroupError (List Nat) :=
  let normalizedRankList := rankList.mergeSort
  if normalizedRankList = List.range worldSize then .ok normalizedRankList
  else do
    let (_, own) ← createSubGroups rankList worldSize myRank
    if normalizedRankList ∈ own then .ok normalizedRankList
    else .error (.keyNotFound normalizedRankList)

end HyperParallel.DTensor
