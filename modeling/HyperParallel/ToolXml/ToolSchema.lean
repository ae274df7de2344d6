import HyperParallel.Foundation.RaisingCheck
import Mathlib.Data.Rat.Floor

/-!
# Tool schemas

The parameters of a tool are declared by a JSON schema with a reviewed set of
keywords.  A schema outside of it is no error of the model; the check of a value
raises then, so whatever it decides it decides within the reviewed keywords.
-/

namespace HyperParallel.ToolXml

open Foundation

/-! ## JSON values -/

inductive PyFloat where
  | finite (value : ℚ)
  | infinite (negative : Bool)
  | nan
  deriving DecidableEq

namespace PyFloat

def isFinite : PyFloat → Bool
  | finite _ => true
  | _ => false

def le : PyFloat → PyFloat → Bool
  | finite x, finite y => x ≤ y
  | infinite negative, infinite negative' => negative || !negative'
  | infinite negative, finite _ => negative
  | finite _, infinite negative => !negative
  | _, _ => false

def lt (x y : PyFloat) : Bool := x.le y && !y.le x

/-- A NaN equals nothing. -/
def eq (x y : PyFloat) : Bool := x.le y && y.le x

end PyFloat

inductive JsonValue where
  | null
  | bool (value : Bool)
  | int (value : ℤ)
  | float (value : PyFloat)
  | str (value : String)
  | list (values : List JsonValue)
  | object (entries : List (String × JsonValue))

abbrev Dict := List (String × JsonValue)

namespace JsonValue

def get? : JsonValue → String → Option JsonValue
  | object entries, key => entries.lookup key
  | _, _ => none

def isEmpty : JsonValue → Bool
  | object [] => true
  | _ => false

/-- `int` and `float`, without `bool` -/
def number? : JsonValue → Option PyFloat
  | int value => some (.finite value)
  | float value => some value
  | _ => none

mutual

/-- `json.dumps` without NaN and infinities -/
def dumps : JsonValue → Bool
  | float value => value.isFinite
  | list values => dumpsList values
  | object entries => dumpsEntries entries
  | _ => true

def dumpsList : List JsonValue → Bool
  | [] => true
  | value :: rest => dumps value && dumpsList rest

def dumpsEntries : Dict → Bool
  | [] => true
  | (_, value) :: rest => dumps value && dumpsEntries rest

end

mutual

/-- `_same_json_value` -/
def same : JsonValue → JsonValue → Bool
  | bool left, bool right => left == right
  | bool _, _ => false
  | null, null => true
  | str left, str right => left == right
  | list left, list right => sameList left right
  | object left, object right =>
    right.all (fun entry => (left.lookup entry.1).isSome) && sameEntries left right
  | left, right =>
    match left.number?, right.number? with
    | some left, some right => left.eq right
    | _, _ => false

def sameList : List JsonValue → List JsonValue → Bool
  | [], [] => true
  | left :: lefts, right :: rights => same left right && sameList lefts rights
  | _, _ => false

def sameEntries : Dict → Dict → Bool
  | [], _ => true
  | (key, left) :: rest, rights =>
    (match rights.lookup key with
      | some right => same left right
      | none => false) && sameEntries rest rights

end

end JsonValue

inductive Raised where
  | unsupportedSchema (message : String)
  | valueError (message : String)
  | indexError
  deriving DecidableEq

/-! ## Types -/

inductive JsonType where
  | string
  | integer
  | number
  | boolean
  | object
  | array
  | null
  deriving DecidableEq

namespace JsonType

def name : JsonType → String
  | string => "string"
  | integer => "integer"
  | number => "number"
  | boolean => "boolean"
  | object => "object"
  | array => "array"
  | null => "null"

def all : List JsonType := [array, boolean, integer, null, number, object, string]

/-- A member of `_TYPES` -/
def read? : JsonValue → Option JsonType
  | .str value => all.find? (·.name = value)
  | _ => none

/-- The kind of an enum literal -/
def ofLiteral? : JsonValue → Option JsonType
  | .null => some null
  | .bool _ => some boolean
  | .int _ => some integer
  | .float value => if value.isFinite then some number else none
  | .str _ => some string
  | .object _ => some object
  | .list _ => some array

end JsonType

def supportedKeys : List String :=
  ["description", "title", "default", "examples", "$comment", "$schema", "type", "anyOf",
    "properties", "required", "additionalProperties", "items", "enum", "const", "minimum",
    "maximum", "exclusiveMinimum", "exclusiveMaximum", "minLength", "maxLength", "pattern",
    "minItems", "maxItems"]

/-- The kinds in alphabetical order; numbers stand for the integers among them. -/
def enumTypes : JsonValue → Except Raised (List JsonType)
  | .list (value :: values) =>
    match (value :: values).mapM JsonType.ofLiteral? with
    | none => .error (.unsupportedSchema "Invalid enum literal")
    | some kinds => .ok (JsonType.all.filter fun kind =>
      kind ∈ kinds ∧ ¬(kind = .integer ∧ .number ∈ kinds))
  | _ => .error (.unsupportedSchema "Invalid enum schema")

/-- The type keyword, or what stands in for it. -/
def explicitTypes (schema : JsonValue) : Except Raised (List JsonValue) :=
  match schema.get? "type", schema.get? "enum" with
  | none, some values | some .null, some values => (enumTypes values).map (·.map (.str ·.name))
  | some .null, none | none, none =>
    .ok [.str (if (schema.get? "properties").isSome then "object" else "string")]
  | some (.list values), _ => .ok values
  | some value, _ => .ok [value]

def checkTypes (declared : List JsonValue) : Except Raised (List JsonType) :=
  match declared.mapM JsonType.read? with
  | none => .error (.unsupportedSchema "Unsupported or ambiguous tool schema type")
  | some kinds =>
    if kinds = [] ∨ ¬kinds.Nodup ∨ 2 < kinds.length ∨ kinds.length = 2 ∧ .null ∉ kinds then
      .error (.unsupportedSchema "Unsupported or ambiguous tool schema type")
    else .ok kinds

theorem sizeOf_lookup {entries : Dict} {key : String} {value : JsonValue}
    (h : entries.lookup key = some value) : sizeOf value < sizeOf entries := by
  induction entries with
  | nil => cases h
  | cons entry rest ih =>
    obtain ⟨key', value'⟩ := entry
    rw [List.lookup_cons] at h
    split at h
    · cases h
      simp only [List.cons.sizeOf_spec, Prod.mk.sizeOf_spec]
      omega
    · have := ih h
      simp only [List.cons.sizeOf_spec]
      omega

theorem sizeOf_get? {schema value : JsonValue} {key : String}
    (h : schema.get? key = some value) : sizeOf value < sizeOf schema := by
  cases schema with
  | object entries =>
    have := sizeOf_lookup h
    rw [JsonValue.object.sizeOf_spec]
    omega
  | _ => cases h

/-- `candidate[0]` -/
def firstType : List JsonType → Except Raised JsonValue
  | [] => .error .indexError
  | kind :: _ => .ok (.str kind.name)

/-- `_types`, with `_declared_types` at its union -/
def types (schema : JsonValue) : Except Raised (List JsonType) :=
  match schema with
  | .object entries =>
    if entries.any fun entry => entry.1 ∉ supportedKeys then
      .error (.unsupportedSchema "Unsupported tool schema keywords")
    else
      match h : entries.lookup "anyOf" with
      | none => explicitTypes (.object entries) >>= checkTypes
      | some (.list [.object left, .object right]) => do
          let lefts ← types (.object left)
          let rights ← types (.object right)
          if lefts.length ≠ 1 ∨ rights.length ≠ 1 then
            .error (.unsupportedSchema "Ambiguous nested union")
          else do
            let left ← firstType lefts
            let right ← firstType rights
            checkTypes [left, right]
      | some _ => .error (.unsupportedSchema "Only a single nullable union is reviewed")
  | _ => .error (.unsupportedSchema "Unsupported tool schema keywords")
termination_by sizeOf schema
decreasing_by
  all_goals
    have := sizeOf_lookup h
    simp only [JsonValue.list.sizeOf_spec, JsonValue.object.sizeOf_spec, List.cons.sizeOf_spec,
      List.nil.sizeOf_spec] at this ⊢
    omega

/-! ## Constraints -/

/-- What the standard library makes of a text; `none` is its `ValueError`, or the
`re.error` of a pattern. -/
structure Readers where
  lower : List Char → List Char
  int : List Char → Option ℤ
  float : List Char → Option PyFloat
  /-- `json.loads` with its `object_pairs_hook` and `parse_constant` -/
  loads : (Dict → Except String JsonValue) → (String → Except String JsonValue) →
    List Char → Except String JsonValue
  search : String → Option (String → Bool)

def typeMatches : JsonValue → JsonType → Bool
  | .str _, .string | .bool _, .boolean | .object _, .object | .list _, .array | .null, .null
  | .int _, .integer | .int _, .number | .float (.finite _), .number => true
  | .float (.finite value), .integer => value.isInt
  | _, _ => false

def numericChecks : List (String × (PyFloat → PyFloat → Bool)) :=
  [("minimum", fun value bound => bound.le value), ("maximum", PyFloat.le),
    ("exclusiveMinimum", fun value bound => bound.lt value), ("exclusiveMaximum", PyFloat.lt)]

def numericConstraints (value : PyFloat) (schema : JsonValue) : Except Raised Bool :=
  allOf (fun check =>
    match schema.get? check.1 with
    | none => .ok true
    | some bound =>
      match bound.number? with
      | none => .error (.unsupportedSchema "Invalid numeric bound")
      | some number =>
        if number.isFinite then .ok (check.2 value number)
        else .error (.unsupportedSchema "Invalid numeric bound")) numericChecks

def lengthBound (schema : JsonValue) (key : String) (absent : Nat) : Except Raised Nat :=
  match schema.get? key with
  | none => .ok absent
  | some (.int (.ofNat bound)) => .ok bound
  | some _ => .error (.unsupportedSchema "Invalid length bound")

def lengthConstraints (length : Nat) (schema : JsonValue) (minimum maximum : String) :
    Except Raised Bool := do
  let low ← lengthBound schema minimum 0
  let high ← lengthBound schema maximum length
  .ok (low ≤ length && length ≤ high)

def enumConstraint (value schema : JsonValue) : Except Raised Bool :=
  match schema.get? "enum" with
  | none => .ok true
  | some (.list allowed) => .ok (allowed.any value.same)
  | some _ => .error (.unsupportedSchema "Invalid enum schema")

def patternConstraint (readers : Readers) (value : String) (schema : JsonValue) :
    Except Raised Bool :=
  match schema.get? "pattern" with
  | none => .ok true
  | some (.str pattern) =>
    match readers.search pattern with
    | none => .error (.unsupportedSchema "Invalid string pattern")
    | some found => .ok (found value)
  | some _ => .error (.unsupportedSchema "Invalid string pattern")

def kindConstraints (readers : Readers) (value schema : JsonValue) : Except Raised Bool :=
  match value, value.number? with
  | _, some number => numericConstraints number schema
  | .str text, none => andAlso (lengthConstraints text.length schema "minLength" "maxLength")
      (patternConstraint readers text schema)
  | _, none => .ok true

def scalarConstraints (readers : Readers) (value schema : JsonValue) : Except Raised Bool :=
  andAlso (enumConstraint value schema) <|
  andAlso (.ok ((schema.get? "const").all value.same)) <|
  kindConstraints readers value schema

/-- The type keyword of a union is checked as a schema of its own. -/
def unionType (value schema : JsonValue) : Except Raised Bool :=
  match schema.get? "anyOf", schema.get? "type" with
  | some _, some type =>
    (types (.object [("type", type)])).map fun kinds => kinds.any (typeMatches value)
  | _, _ => .ok true

def properties (schema : JsonValue) : Option Dict :=
  match schema.get? "properties" with
  | none => some []
  | some (.object entries) => some entries
  | some _ => none

def required (schema : JsonValue) : Option (List String) :=
  match schema.get? "required" with
  | none => some []
  | some (.list names) => names.mapM fun
      | .str name => some name
      | _ => none
  | some _ => none

/-- What is declared of the properties that are not named. -/
inductive Additional where
  | allowed (allowed : Bool)
  | schema (schema : JsonValue)

def additional (schema : JsonValue) : Option Additional :=
  match schema.get? "additionalProperties" with
  | none => some (.allowed true)
  | some (.bool allowed) => some (.allowed allowed)
  | some (.object entries) => some (.schema (.object entries))
  | some _ => none

theorem sizeOf_property {schema child : JsonValue} {declared : Dict} {name : String}
    (h : properties schema = some declared) (hchild : declared.lookup name = some child) :
    sizeOf child < sizeOf schema := by
  unfold properties at h
  split at h
  · cases h
    cases hchild
  · rename_i hget
    cases h
    have hlt := sizeOf_get? hget
    rw [JsonValue.object.sizeOf_spec] at hlt
    have := sizeOf_lookup hchild
    omega
  · cases h

theorem sizeOf_additional {schema child : JsonValue}
    (h : additional schema = some (.schema child)) : sizeOf child < sizeOf schema := by
  unfold additional at h
  split at h
  · cases h
  · cases h
  · rename_i hget
    cases h
    exact sizeOf_get? hget
  · cases h

/-- `_valid_value`, with `_valid_object` at its objects -/
def validValue (readers : Readers) (value schema : JsonValue) : Except Raised Bool :=
  if schema.isEmpty then .ok value.dumps else do
    let kinds ← types schema
    andAlso (.ok (kinds.any (typeMatches value))) <|
    andAlso (scalarConstraints readers value schema) <|
    andAlso (unionType value schema) <|
    andAlso (match h : schema.get? "anyOf" with
      | some (.list choices) => anyOf (fun choice => validValue readers value choice.1)
          choices.attach
      | _ => .ok true) <|
    match value with
    | .object entries =>
      match hp : properties schema, required schema, ha : additional schema with
      | some declared, some names, some others =>
        andAlso (.ok (names.all fun name => (entries.lookup name).isSome)) <|
        allOf (fun entry =>
          match h : declared.lookup entry.1 with
          | some child => validValue readers entry.2 child
          | none =>
            match ho : others with
            | .allowed allowed => .ok allowed
            | .schema child => validValue readers entry.2 child) entries
      | _, _, _ => .error (.unsupportedSchema "Invalid object schema")
    | .list values =>
      andAlso (lengthConstraints values.length schema "minItems" "maxItems") <|
        match h : schema.get? "items" with
        | none => .ok true
        | some child => allOf (fun item => validValue readers item child) values
    | _ => .ok true
termination_by sizeOf schema
decreasing_by
  · have hlt := sizeOf_get? h
    have := List.sizeOf_lt_of_mem choice.2
    rw [JsonValue.list.sizeOf_spec] at hlt
    omega
  · exact sizeOf_property hp h
  · exact sizeOf_additional (ho ▸ ha)
  · exact sizeOf_get? h

end HyperParallel.ToolXml
