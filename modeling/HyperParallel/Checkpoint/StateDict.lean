import HyperParallel.DTensor.Layout
import HyperParallel.Checkpoint.Planner

/-!
# State dicts

A state dict nests dictionaries, lists and tuples around tensors and other
values.  Flattening it names every leaf by its dotted path; `setElement` writes
a leaf back at a path.
-/

namespace HyperParallel.Checkpoint

open Foundation

structure Tensor (α : Type) where
  dtype : String
  shape : List Nat
  elem : List Nat → α

structure ChunkInfo where
  chunk : ChunkStorageMetadata
  globalShape : List Nat
deriving DecidableEq, Repr

structure DTensor (α : Type) where
  shape : List Nat
  layout : Option DTensor.Layout
  localTensor : Tensor α

inductive Leaf (α β : Type) where
  | dtensor (tensor : DTensor α)
  | tensor (tensor : Tensor α) (chunkInfo : Option ChunkInfo)
  | bytes (content : List UInt8)
  | none
  | object (value : β)

variable {α β : Type}

def Leaf.isTensor : Leaf α β → Bool
  | .dtensor _ => true
  | .tensor _ _ => true
  | _ => false

abbrev StateValue (α β : Type) := Nested (Leaf α β)

namespace StateValue

mutual

def isTerminal : StateValue α β → Bool
  | .leaf _ => true
  | .mapping _ => false
  | .sequence _ items => terminalItems items

def terminalItems : List (StateValue α β) → Bool
  | [] => true
  | .leaf leaf :: rest => !leaf.isTensor && terminalItems rest
  | .mapping _ :: _ => false
  | .sequence _ items :: rest => terminalItems items && terminalItems rest

end

mutual

def traverseObj (path : ObjectPath) : StateValue α β → List (ObjectPath × StateValue α β)
  | .leaf leaf => [(path, .leaf leaf)]
  | .mapping entries => traverseEntries path entries
  | .sequence type items =>
    if isTerminal (.sequence type items) then [(path, .sequence type items)]
    else traverseItems path 0 items

def traverseEntries (path : ObjectPath) :
    List (String × StateValue α β) → List (ObjectPath × StateValue α β)
  | [] => []
  | (key, value) :: rest => traverseObj (path ++ [.name key]) value ++ traverseEntries path rest

def traverseItems (path : ObjectPath) (i : Nat) :
    List (StateValue α β) → List (ObjectPath × StateValue α β)
  | [] => []
  | value :: rest => traverseObj (path ++ [.position i]) value ++ traverseItems path (i + 1) rest

end

end StateValue

inductive StateDictError where
  | duplicateFqn (fqn : String)
  | emptyPath
  | typeError
  | attributeError
deriving DecidableEq, Repr

def PathKey.text : PathKey → String
  | .name key => key
  | .position i => toString i

/-- `".".join(map(str, path))`. -/
def dottedName (path : ObjectPath) : String := ".".intercalate (path.map PathKey.text)

structure FlatStateDict (α β : Type) where
  fqnNames : PyDict String (StateValue α β)
  mappings : PyDict String ObjectPath

def flatCopy (flat : FlatStateDict α β) (visit : ObjectPath × StateValue α β) :
    Except StateDictError (FlatStateDict α β) :=
  let newFqn := dottedName visit.1
  if newFqn ∈ flat.fqnNames.keys then .error (.duplicateFqn newFqn)
  else .ok { fqnNames := flat.fqnNames.set newFqn visit.2
             mappings := flat.mappings.set newFqn visit.1 }

structure StateDict (α β : Type) where
  entries : List (String × StateValue α β)
  distinct : (Nested.mapping entries).DistinctKeys

def StateDict.value (stateDict : StateDict α β) : StateValue α β := .mapping stateDict.entries

def traverseStateDict (stateDict : StateValue α β) : List (ObjectPath × StateValue α β) :=
  StateValue.traverseObj [] stateDict

def flattenStateDict (stateDict : StateValue α β) : Except StateDictError (FlatStateDict α β) :=
  (traverseStateDict stateDict).foldlM flatCopy ⟨.empty, .empty⟩

/-- `while len(lst) <= idx: lst.append(None)`. -/
def extendList (items : List (StateValue α β)) (idx : Nat) : List (StateValue α β) :=
  items ++ List.replicate (idx + 1 - items.length) (.leaf .none)

abbrev TensorSetItem (α β : Type) :=
  Tensor α → ObjectPath → StateValue α β → Except StateDictError (Tensor α)

/-- `container[last_key] = value`. -/
def assignItem (container : StateValue α β) (lastKey : PathKey) (value : StateValue α β) :
    Except StateDictError (StateValue α β) :=
  match container, lastKey with
  | .mapping entries, .name key => .ok (.mapping (PyDict.setEntry key value entries))
  | .sequence .list items, .position i => .ok (.sequence .list ((extendList items i).set i value))
  | .sequence .tuple items, .position i =>
    if i < items.length then .error .typeError else .error .attributeError
  | _, _ => .error .typeError

/-- The container a path goes on in, made when there is none, and what it is put back into. -/
def enterItem (container : StateValue α β) (prevKey : PathKey) (defVal : StateValue α β) :
    Except StateDictError (StateValue α β × StateValue α β) :=
  match container, prevKey with
  | .mapping entries, .name key => .ok (container, (entries.lookup key).getD defVal)
  | .sequence .list items, .position i =>
    let items := extendList items i
    match items[i]? with
    | some (.leaf .none) => .ok (.sequence .list items, defVal)
    | some child => .ok (.sequence .list items, child)
    | none => .error .typeError
  | .sequence .tuple items, .position i =>
    match items[i]? with
    | some (.leaf .none) => .error .typeError
    | some child => .ok (container, child)
    | none => .error .attributeError
  | _, _ => .error .typeError

def defVal : PathKey → StateValue α β
  | .name _ => .mapping []
  | .position _ => .sequence .list []

def setElement (setItem : TensorSetItem α β) (container : StateValue α β) :
    ObjectPath → StateValue α β → Except StateDictError (StateValue α β)
  | [], _ => .error .emptyPath
  | key :: path, value =>
    match container, path with
    | .leaf (.tensor tensor info), path =>
      (setItem tensor (key :: path) value).map fun tensor => .leaf (.tensor tensor info)
    | container, [] => assignItem container key value
    | container, next :: rest => do
        let (container, child) ← enterItem container key (defVal next)
        let child ← setElement setItem child (next :: rest) value
        match container, key with
        | .mapping entries, .name key => .ok (.mapping (PyDict.setEntry key child entries))
        | container, key => .ok (container.setChild key child)

end HyperParallel.Checkpoint
