import HyperParallel.Foundation.PyRepr
import HyperParallel.DTensor.Placement
import HyperParallel.DTensor.Slice

/-!
# Layouts

A layout pairs a device mesh with a tensor map and with the placements the map
stands for, and caches the text that identifies it.  Every method here takes
the state of the object and returns the state it leaves; a method that raises
is an error.
-/

namespace HyperParallel.DTensor

open Foundation
open Foundation.PyRepr

structure PyStr where
  isPrintable : Char → Bool
  lower : String → String

def asciiStr : PyStr where
  isPrintable c := 32 ≤ c.toNat && c.toNat < 127
  lower := String.toLower

structure DeviceMesh where
  meshShape : MeshShape
  meshDimNames : Option (List String)
  rankList : List Nat
  names_ok : ∀ names ∈ meshDimNames, names.length = meshShape.length ∧ names.Nodup
  ranks_ok : rankList.length = meshShape.prod

inductive LayoutError where
  | negativeDim (dim : Int)
  | shardDimOutOfBounds (shardDim : Int) (dim : Nat)
  | splitFactorMismatch (meshIdx expected actual : Nat)
  | multipleRaggedShards
  | tensorMapNone
  | placementsNone
  | indexOutOfRange
  | unsupportedPartialOp (op : Option String)
  | partialDimSharded
  | axisNotFound (item : String)
  | axisSetTwice (item : String)
  | meshDimNamesMissing
  | axisNotInMesh (axis : String)
  deriving DecidableEq, Repr

structure Layout where
  mesh : DeviceMesh
  tensorMap : Option TensorMap
  partialOps : List (Option String)
  placements : Option (List Placement)
  raggedShard : Option RaggedShardInfo
  tensorShape : Option (List Int)
  tensorStride : Option (List Int)
  tensorDtype : String
  compactStr : String

namespace DeviceMesh

variable (mesh : DeviceMesh)

def assertAxis (axis : String) : Except LayoutError (List String) :=
  match mesh.meshDimNames with
  | none | some [] => .error .meshDimNamesMissing
  | some names => if axis ∈ names then .ok names else .error (.axisNotInMesh axis)

def axisId (axis : String) : Except LayoutError Int :=
  if axis = "None" then .ok NONE
  else do
    let names ← mesh.assertAxis axis
    .ok (mesh.meshShape.length - names.idxOf axis - 1)

def axisIndex (axis : String) : Except LayoutError Nat := do
  let names ← mesh.assertAxis axis
  .ok (names.idxOf axis)

end DeviceMesh

/-! ## The compact string -/

def natPrinter : Printer Nat := Printer.int.comap Nat.cast Nat.cast_injective

theorem head?_int_ne_of_not_digit {c : Char} (hminus : c ≠ '-') (hdigit : c.isDigit = false)
    (z : Int) : (Printer.int.print z).head? ≠ some c := by
  obtain ⟨d, hd, hcase⟩ := head?_intText z
  intro heq
  obtain rfl : c = d := by
    have : (intText z).head? = some c := heq
    rw [this] at hd
    exact Option.some.inj hd
  rcases hcase with rfl | h
  · exact hminus rfl
  · rw [h] at hdigit
    exact Bool.noConfusion hdigit

theorem head?_tuple {α : Type*} (p : Printer α) (as : List α) :
    (p.tuple.print as).head? = some '(' := by
  simp only [Printer.tuple]
  split <;> rfl

theorem head?_str (isPrintable : Char → Bool) (s : String) :
    ((Printer.str isPrintable).print s).head? ≠ some 'N' := by
  have hprint : ((Printer.str isPrintable).print s).head? = some (strQuote s.toList) := rfl
  rw [hprint]
  rcases strQuote_cases s.toList with h | h <;> rw [h] <;> decide

def dimMappingPrinter : Printer DimMapping :=
  (Printer.int.sum Printer.int.tuple fun z as => by
    rw [head?_tuple]
    exact head?_int_ne_of_not_digit (by decide) (by decide) z).comap
    (fun | .axis a => .inl a | .axes as => .inr as)
    (by rintro (a | as) (b | bs) heq <;> simp_all)

theorem head?_tuple_ne {α : Type*} (p : Printer α) (as : List α) :
    (p.tuple.print as).head? ≠ some 'N' := by
  rw [head?_tuple]
  decide

abbrev LayoutKey :=
  Option TensorMap × List (Option String) × List Nat × Option (List Int) ×
    Option (List Int) × String × MeshShape × Option (List String) × List Nat

def layoutKeyPrinter (py : PyStr) : Printer LayoutKey :=
  let str := Printer.str py.isPrintable
  Printer.parens <|
    (dimMappingPrinter.tuple.option (head?_tuple_ne _)).fields <|
    (str.option (head?_str _)).list.fields <|
    natPrinter.tuple.fields <|
    (Printer.int.tuple.option (head?_tuple_ne _)).fields <|
    (Printer.int.tuple.option (head?_tuple_ne _)).fields <|
    str.fields <|
    natPrinter.tuple.fields <|
    (str.tuple.option (head?_tuple_ne _)).fields <|
    natPrinter.tuple

def unevenShardMeshDims (placements : Option (List Placement)) : List Nat :=
  ((placements.getD []).zipIdx.filter fun entry => entry.1.isUnevenShard).map Prod.snd

def Layout.key (layout : Layout) : LayoutKey :=
  (layout.tensorMap, layout.partialOps, unevenShardMeshDims layout.placements,
    layout.tensorShape, layout.tensorStride, layout.tensorDtype,
    layout.mesh.meshShape, layout.mesh.meshDimNames, layout.mesh.rankList)

def Layout.toCompactString (py : PyStr) (layout : Layout) : String :=
  String.ofList ((layoutKeyPrinter py).print layout.key)

def Layout.updateCompactStr (py : PyStr) (layout : Layout) : Layout :=
  { layout with compactStr := layout.toCompactString py }

/-! ## Placements into a tensor map -/

def orderPosition (shardOrder : List Nat) (meshIdx : Nat) : Nat :=
  shardOrder.zipIdx.foldl (fun position entry => if entry.1 = meshIdx then entry.2 else position) 0

def expectedSplitFactor (meshShape : MeshShape) (shardAxes shardOrder : List Nat)
    (meshIdx : Nat) : Except LayoutError Nat :=
  shardAxes.foldlM (fun splitFactor rightMeshIdx =>
    if rightMeshIdx ≤ meshIdx then .ok splitFactor
    else if orderPosition shardOrder rightMeshIdx < orderPosition shardOrder meshIdx then
      match meshShape[rightMeshIdx]? with
      | some size => .ok (splitFactor * size)
      | none => .error .indexOutOfRange
    else .ok splitFactor) 1

def computeExpectedSplitFactors (meshShape : MeshShape) (shardAxes shardOrder : List Nat) :
    Except LayoutError (List (Nat × Nat)) :=
  shardAxes.mapM fun meshIdx => do
    .ok (meshIdx, ← expectedSplitFactor meshShape shardAxes shardOrder meshIdx)

def actualSplitFactor (placements : List Placement) (meshIdx : Nat) : Nat :=
  placementSplitFactor (placements.getD meshIdx .replicate)

def getEffectiveShardAxes (placements : List Placement) (shardAxes : List Nat) : List Nat :=
  shardAxes.mergeSort fun a b => actualSplitFactor placements a ≤ actualSplitFactor placements b

def extractReduceOp (py : PyStr) (reduceOp : String) : String := py.lower reduceOp

def recordPartial (py : PyStr) (partialOps : List (Option String)) (entry : Placement × Nat) :
    Except LayoutError (List (Option String)) :=
  match entry.1 with
  | .partialReduce reduceOp =>
    if entry.2 < partialOps.length then
      .ok (partialOps.set entry.2 (some (extractReduceOp py reduceOp)))
    else .error .indexOutOfRange
  | _ => .ok partialOps

def recordShardAxis (dim : Nat) (dimMap : List (List Nat)) (shardDim : Int) (meshIdx : Nat) :
    Except LayoutError (List (List Nat)) :=
  if shardDim < -dim ∨ dim ≤ shardDim then .error (.shardDimOutOfBounds shardDim dim)
  else
    let shardDim := if shardDim < 0 then shardDim + dim else shardDim
    .ok (dimMap.modify shardDim.toNat (· ++ [meshIdx]))

def recordPlacement (py : PyStr) (dim : Nat)
    (state : List (List Nat) × List (Option String)) (entry : Placement × Nat) :
    Except LayoutError (List (List Nat) × List (Option String)) :=
  match entry.1.asShard with
  | some (shardDim, _) => do
      .ok (← recordShardAxis dim state.1 shardDim entry.2, state.2)
  | none => do .ok (state.1, ← recordPartial py state.2 entry)

def validateShardAxes (meshShape : MeshShape) (placements : List Placement)
    (shardAxes : List Nat) : Except LayoutError Unit := do
  let shardOrder := getEffectiveShardAxes placements shardAxes
  let expected ← computeExpectedSplitFactors meshShape shardAxes shardOrder
  expected.forM fun entry =>
    if actualSplitFactor placements entry.1 = entry.2 then .ok ()
    else .error (.splitFactorMismatch entry.1 entry.2 (actualSplitFactor placements entry.1))

def validateStridedShardSplitFactor (meshShape : MeshShape) (placements : List Placement)
    (dimMap : List (List Nat)) : Except LayoutError Unit :=
  dimMap.forM (validateShardAxes meshShape placements)

def reorderShardAxes (placements : List Placement) (shardAxes : List Nat) : List Nat :=
  if shardAxes.length ≤ 1 then shardAxes else getEffectiveShardAxes placements shardAxes

def reorderDimMapForStridedShard (placements : List Placement) (dimMap : List (List Nat)) :
    List (List Nat) :=
  dimMap.map (reorderShardAxes placements)

/--
The mesh axes that shard each tensor dimension, and the reductions on record; the
source marks a dimension with no axis by `-1`, here it is the empty list.
-/
def buildDimMapFromPlacements (py : PyStr) (meshShape : MeshShape) (dim : Nat)
    (placements : List Placement) (partialOps : List (Option String)) :
    Except LayoutError (List (List Nat) × List (Option String)) := do
  let (dimMap, partialOps) ← (replaceRaggedWithReplicate placements).zipIdx.foldlM
    (recordPlacement py dim) (List.replicate dim [], partialOps)
  validateStridedShardSplitFactor meshShape placements dimMap
  .ok (reorderDimMapForStridedShard placements dimMap, partialOps)

def convertMeshAxes (deviceDimCount : Nat) (meshIdx : List Nat) : DimMapping :=
  match meshIdx.map fun axis : Nat => (deviceDimCount : Int) - 1 - axis with
  | [] => .axis NONE
  | [mapped] => .axis mapped
  | mapped => .axes mapped

def convertDimMapToTensorMap (deviceDimCount : Nat) (dimMap : List (List Nat)) : TensorMap :=
  dimMap.map (convertMeshAxes deviceDimCount)

namespace Layout

variable (py : PyStr)

/-- The text is refreshed by the other path only. -/
def handleZeroDimPlacement (layout : Layout) : Except LayoutError (Layout × TensorMap) := do
  match layout.placements with
  | none => .error .placementsNone
  | some placements =>
    let partialOps ← (replaceRaggedWithReplicate placements).zipIdx.foldlM
      (recordPartial py) layout.partialOps
    .ok ({ layout with tensorMap := some [], partialOps := partialOps }, [])

def placementToTensorMap (layout : Layout) (dim : Int) :
    Except LayoutError (Layout × TensorMap) :=
  if dim < 0 then .error (.negativeDim dim)
  else if dim = 0 then layout.handleZeroDimPlacement py
  else
    match layout.placements with
    | none => .error .placementsNone
    | some placements => do
        let (dimMap, partialOps) ← buildDimMapFromPlacements py layout.mesh.meshShape
          dim.toNat placements layout.partialOps
        let tensorMap := convertDimMapToTensorMap layout.mesh.meshShape.length dimMap
        .ok (({ layout with tensorMap := some tensorMap, partialOps := partialOps }).updateCompactStr py,
          tensorMap)

/-! ## A tensor map into placements -/

def recordRaggedShard (found : Option RaggedShardInfo) (entry : Placement × Nat) :
    Except LayoutError (Option RaggedShardInfo) :=
  match entry.1.asRaggedShard, found with
  | none, found => .ok found
  | some _, some _ => .error .multipleRaggedShards
  | some ragged, none => .ok (some ⟨entry.2, ragged⟩)

def extractRaggedShard (placements : List Placement) :
    Except LayoutError (Option RaggedShardInfo) :=
  placements.zipIdx.foldlM recordRaggedShard none

def setPlacements (layout : Layout) (placements : List Placement) :
    Except LayoutError Layout := do
  let raggedShard ← extractRaggedShard placements
  .ok { layout with placements := some placements, raggedShard := raggedShard }

def unevenShardDim (placements : Option (List Placement)) (meshIdx : Nat) : Option Int :=
  match ((placements.getD [])[meshIdx]?).bind Placement.asShard with
  | some (dim, true) => some dim
  | _ => none

def shardPlacement (tensorDim splitFactor : Nat) (unevenShard : Bool) : Placement :=
  if h : 1 < splitFactor then .stridedShard tensorDim splitFactor unevenShard h.le
  else .shard tensorDim unevenShard

def entryPlacements (meshShape : MeshShape) (previous : Option (List Placement))
    (tensorDim : Nat) (mapping : DimMapping) : Except LayoutError (List (Nat × Placement)) := do
  let meshIndices := mapping.usedAxes.map (meshDimOf meshShape.length)
  let shardAxes := meshIndices.mergeSort
  let expected ← computeExpectedSplitFactors meshShape shardAxes meshIndices
  .ok (expected.map fun (meshIdx, splitFactor) =>
    (meshIdx, shardPlacement tensorDim splitFactor
      (unevenShardDim previous meshIdx == some (tensorDim : Int))))

def assignPlacements (placements : List Placement) (assigned : List (Nat × Placement)) :
    List Placement :=
  assigned.foldl (fun placements entry => placements.set entry.1 entry.2) placements

def partialPlacements (partialOps : List (Option String)) : List (Nat × Placement) :=
  partialOps.zipIdx.filterMap fun entry =>
    entry.1.map fun op => (entry.2, .partialReduce op)

def placeRaggedShard (raggedShard : Option RaggedShardInfo) (placements : List Placement) :
    Except LayoutError (List Placement) :=
  match raggedShard with
  | none => .ok placements
  | some info =>
    if info.meshDim < placements.length then
      .ok (placements.set info.meshDim (.raggedShard info.placement))
    else .error .indexOutOfRange

def tensorMapToPlacement (layout : Layout) : Except LayoutError (Layout × List Placement) :=
  match layout.tensorMap with
  | none => .error .tensorMapNone
  | some tensorMap => do
      let meshShape := layout.mesh.meshShape
      let sharded ← tensorMap.zipIdx.mapM fun (mapping, tensorDim) =>
        entryPlacements meshShape layout.placements tensorDim mapping
      let placements := assignPlacements (List.replicate meshShape.length .replicate)
        sharded.flatten
      let placements := assignPlacements placements (partialPlacements layout.partialOps)
      let placements ← placeRaggedShard layout.raggedShard placements
      let layout ← layout.setPlacements placements
      .ok (layout.updateCompactStr py, placements)

/-! ## Construction -/

def fromDeviceMesh (mesh : DeviceMesh) : Layout :=
  ({ mesh := mesh
     tensorMap := none
     partialOps := List.replicate mesh.meshShape.length none
     placements := none
     raggedShard := none
     tensorShape := none
     tensorStride := none
     tensorDtype := "None"
     compactStr := "" } : Layout).updateCompactStr py

def clearPartial (layout : Layout) : Layout :=
  { layout with partialOps := List.replicate layout.mesh.meshShape.length none }

def callPlacements (layout : Layout) (placements : List Placement) : Except LayoutError Layout :=
  layout.clearPartial.setPlacements placements

inductive AliasDim where
  | name (item : String)
  | names (items : List String)

def aliasAxis (names : List String) (writtenMap : List String) (item : String) :
    Except LayoutError (Int × List String) :=
  if item = "None" then .ok (NONE, writtenMap)
  else if item ∉ names then .error (.axisNotFound item)
  else if item ∈ writtenMap then .error (.axisSetTwice item)
  else .ok ((names.length : Int) - 1 - names.idxOf item, writtenMap ++ [item])

def aliasAxes (names : List String) : List String → List String →
    Except LayoutError (List Int × List String)
  | writtenMap, [] => .ok ([], writtenMap)
  | writtenMap, item :: items => do
      let (axis, writtenMap) ← aliasAxis names writtenMap item
      let (axes, writtenMap) ← aliasAxes names writtenMap items
      .ok (axis :: axes, writtenMap)

def aliasTensorMap (names : List String) : List String → List AliasDim →
    Except LayoutError TensorMap
  | _, [] => .ok []
  | writtenMap, .name item :: rest => do
      let (axis, writtenMap) ← aliasAxis names writtenMap item
      .ok (.axis axis :: (← aliasTensorMap names writtenMap rest))
  | writtenMap, .names items :: rest => do
      let (axes, writtenMap) ← aliasAxes names writtenMap items
      .ok (.axes axes :: (← aliasTensorMap names writtenMap rest))

def callAlias (layout : Layout) (aliasDims : List AliasDim) : Except LayoutError Layout :=
  match layout.mesh.meshDimNames with
  | none => .error .meshDimNamesMissing
  | some names => do
      let tensorMap ← aliasTensorMap names [] aliasDims
      let (layout, _) ←
        tensorMapToPlacement py { layout.clearPartial with tensorMap := some tensorMap }
      .ok (layout.updateCompactStr py)

/-! ## Changes -/

def supportPartialOp : List (Option String) :=
  [some "sum", some "max", some "min", some "avg", some "prod", some "all", none]

def isDevAxisApplyShard (layout : Layout) (axis : String) : Except LayoutError Bool := do
  let axisId ← layout.mesh.axisId axis
  match layout.tensorMap with
  | none => .error .tensorMapNone
  | some tensorMap => .ok ((tensorMap.flatMap DimMapping.mappedDims).contains axisId)

def setPartialByDevAxis (layout : Layout) (axis : String) (op : Option String) :
    Except LayoutError Layout :=
  if op ∉ supportPartialOp then .error (.unsupportedPartialOp op)
  else do
    if ← layout.isDevAxisApplyShard axis then .error .partialDimSharded
    else
      let index ← layout.mesh.axisIndex axis
      let (layout, _) ←
        tensorMapToPlacement py { layout with partialOps := layout.partialOps.set index op }
      .ok (layout.updateCompactStr py)

def resetPartial (layout : Layout) : Except LayoutError Layout := do
  let (layout, _) ← tensorMapToPlacement py layout.clearPartial
  .ok (layout.updateCompactStr py)

def setTensorMeta (layout : Layout) (shape stride : List Int) (dtype : String) : Layout :=
  ({ layout with
     tensorShape := some shape
     tensorStride := some stride
     tensorDtype := dtype }).updateCompactStr py

end Layout

end HyperParallel.DTensor
