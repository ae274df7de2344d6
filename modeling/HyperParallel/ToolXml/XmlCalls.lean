import HyperParallel.Foundation.TaggedText
import HyperParallel.ToolXml.ToolSchema
import Mathlib.Data.List.TakeWhile

/-!
# Calls in the text of a model

Three patterns take a text apart: the blocks between call tags, the one function
of a block and the parameters of its body.  The schema of the tool then says how
a parameter is read and what the arguments have to satisfy.
-/

namespace HyperParallel.ToolXml

open Foundation List

/-- `str.isspace` of one character, the class of `\s` and of `str.strip` -/
def isSpace (c : Char) : Bool :=
  let n := c.toNat
  9 ≤ n && n ≤ 13 || 28 ≤ n && n ≤ 32 || 0x2000 ≤ n && n ≤ 0x200a ||
    n ∈ [0x85, 0xa0, 0x1680, 0x2028, 0x2029, 0x202f, 0x205f, 0x3000]

/-- `[^<>\s=]` -/
def isName (c : Char) : Bool := c ∉ ['<', '>', '='] && !isSpace c

abbrev XmlTag := Tag '<' '>'

def callOpen : XmlTag := ⟨['t', 'o', 'o', 'l', '_', 'c', 'a', 'l', 'l'], by decide, by decide⟩

def callClose : XmlTag :=
  ⟨['/', 't', 'o', 'o', 'l', '_', 'c', 'a', 'l', 'l'], by decide, by decide⟩

def functionClose : XmlTag :=
  ⟨['/', 'f', 'u', 'n', 'c', 't', 'i', 'o', 'n'], by decide, by decide⟩

def parameterClose : XmlTag :=
  ⟨['/', 'p', 'a', 'r', 'a', 'm', 'e', 't', 'e', 'r'], by decide, by decide⟩

def functionKey : List Char := ['f', 'u', 'n', 'c', 't', 'i', 'o', 'n', '=']

def parameterKey : List Char := ['p', 'a', 'r', 'a', 'm', 'e', 't', 'e', 'r', '=']

/-- `gap`, an opening tag and the rest of a text. -/
def opening (key gap name rest : List Char) : List Char :=
  gap ++ ('<' :: (key ++ (name ++ ('>' :: rest))))

/-- `\s*<KEY([^<>\s=]+)>`.  Both runs are as long as possible: what follows them is
not in their class. -/
def matchOpening (key text : List Char) : Option (List Char × List Char) := do
  let rest ← (text.dropWhile isSpace).dropPrefix? ('<' :: key)
  let name := rest.takeWhile isName
  let rest ← (rest.dropWhile isName).dropPrefix? ['>']
  if name = [] then none else some (name, rest)

/-- `(.*?)</function>\s*` to the end of the text -/
def functionBody : List Char → Option (List Char)
  | [] => none
  | c :: rest =>
    if ((c :: rest).dropPrefix? functionClose.text).any (·.all isSpace) then some []
    else (functionBody rest).map (c :: ·)

def matchFunction (block : List Char) : Option (String × List Char) := do
  let (name, rest) ← matchOpening functionKey block
  let body ← functionBody rest
  some (String.ofList name, body)

def matchParameter (text : List Char) : Option ((String × List Char) × List Char) := do
  let (name, rest) ← matchOpening parameterKey text
  let (raw, rest) ← rest.dropInfix? parameterClose.text
  some ((String.ofList name, raw), rest)

def Spaces (text : List Char) : Prop := ∀ c ∈ text, isSpace c

def Token (name : List Char) : Prop := name ≠ [] ∧ ∀ c ∈ name, isName c

theorem matchOpening_eq_some_iff {key name rest text : List Char} :
    matchOpening key text = some (name, rest) ↔
      ∃ gap, Spaces gap ∧ Token name ∧ text = opening key gap name rest := by
  constructor
  · intro h
    simp only [matchOpening, Option.bind_eq_bind, Option.bind_eq_some_iff,
      dropPrefix?_eq_some_iff, beq_iff_eq] at h
    obtain ⟨inner, ⟨_, hinner, rfl⟩, rest', ⟨_, hrest, rfl⟩, h⟩ := h
    split at h
    · cases h
    · rename_i hname
      cases h
      refine ⟨text.takeWhile isSpace, ?_, ⟨hname, ?_⟩, ?_⟩
      · exact fun c hc => mem_takeWhile_imp hc
      · exact fun c hc => mem_takeWhile_imp hc
      · have hinside : inner = inner.takeWhile isName ++ ('>' :: rest) :=
          takeWhile_append_dropWhile.symm.trans (congrArg _ hrest)
        calc text = text.takeWhile isSpace ++ text.dropWhile isSpace :=
              takeWhile_append_dropWhile.symm
          _ = text.takeWhile isSpace ++ ('<' :: (key ++ inner)) := by rw [hinner]; rfl
          _ = _ := by rw [opening, ← hinside]
  · rintro ⟨gap, hgap, ⟨hne, hname⟩, rfl⟩
    have hopen : ('<' :: (key ++ (name ++ ('>' :: rest)))).dropWhile isSpace =
        '<' :: (key ++ (name ++ ('>' :: rest))) := dropWhile_cons_of_neg (by decide)
    have hclose : ('>' :: rest).dropWhile isName = '>' :: rest := dropWhile_cons_of_neg (by decide)
    have hclose' : ('>' :: rest).takeWhile isName = [] := takeWhile_cons_of_neg (by decide)
    have hkey : ('<' :: (key ++ (name ++ ('>' :: rest)))).dropPrefix? ('<' :: key) =
        some (name ++ ('>' :: rest)) := by
      simp [dropPrefix?_eq_some_iff]
    simp only [matchOpening, opening, dropWhile_append_of_pos hgap, hopen, hkey,
      takeWhile_append_of_pos hname, dropWhile_append_of_pos hname, hclose, hclose',
      Option.bind_eq_bind, Option.bind_some, append_nil, if_neg hne]
    simp [List.dropPrefix?]

theorem matchParameter_eq_some_iff {text raw rest : List Char} {parameter : String} :
    matchParameter text = some ((parameter, raw), rest) ↔ ∃ gap name, Spaces gap ∧ Token name ∧
      parameter = String.ofList name ∧ ¬parameterClose.text <:+: raw ∧
      text = opening parameterKey gap name (raw ++ (parameterClose.text ++ rest)) := by
  simp only [matchParameter, Option.bind_eq_bind, Option.bind_eq_some_iff, Prod.exists]
  constructor
  · rintro ⟨name, inner, hopening, raw', rest', hdrop, h⟩
    obtain ⟨gap, hgap, hname, rfl⟩ := matchOpening_eq_some_iff.mp hopening
    obtain ⟨rfl, hraw⟩ := Tag.dropInfix?_eq_some_iff.mp hdrop
    cases h
    exact ⟨gap, name, hgap, hname, rfl, hraw, rfl⟩
  · rintro ⟨gap, name, hgap, hname, rfl, hraw, rfl⟩
    exact ⟨name, _, matchOpening_eq_some_iff.mpr ⟨gap, hgap, hname, rfl⟩, raw, rest,
      Tag.dropInfix?_eq_some_iff.mpr ⟨rfl, hraw⟩, rfl⟩

theorem length_lt_of_matchParameter {text rest : List Char} {parameter : String × List Char}
    (h : matchParameter text = some (parameter, rest)) : rest.length < text.length := by
  obtain ⟨gap, name, -, -, -, -, rfl⟩ := matchParameter_eq_some_iff.mp h
  simp only [opening, length_append, length_cons]
  omega

/-! ## Values -/

def uniqueObject : Dict → Except String JsonValue := fun pairs =>
  if (pairs.map Prod.fst).Nodup then .ok (.object pairs) else .error "Duplicate JSON argument key"

def rejectConstant (value : String) : Except String JsonValue := .error ("Nonfinite " ++ value)

def jsonValue (readers : Readers) (raw : List Char) : Except Raised JsonValue :=
  match readers.loads uniqueObject rejectConstant raw with
  | .ok value => .ok value
  | .error message => .error (.valueError message)

def strip (text : List Char) : List Char :=
  ((text.dropWhile isSpace).reverse.dropWhile isSpace).reverse

/-- One newline less at each end. -/
def trimNewlines (raw : List Char) : List Char :=
  let value := match raw with
    | '\n' :: rest => rest
    | _ => raw
  if value.getLast? = some '\n' then value.dropLast else value

/-- A finite number, as an integer where it is one. -/
def finiteNumber : PyFloat → Option JsonValue
  | .finite value => some (if value.isInt then .int value.num else .float (.finite value))
  | _ => none

def parameterValue (readers : Readers) (raw : List Char) (schema : JsonValue) :
    Except Raised JsonValue := do
  let value := trimNewlines raw
  let kinds ← types schema
  if .null ∈ kinds ∧ readers.lower value = ['n', 'u', 'l', 'l'] then .ok .null
  else
    match (if .integer ∈ kinds then readers.int value else none) with
    | some number => .ok (.int number)
    | none =>
      match (if .number ∈ kinds then (readers.float value).bind finiteNumber else none) with
      | some number => .ok number
      | none =>
        let word := String.ofList (readers.lower (strip value))
        if .boolean ∈ kinds ∧ word ∈ ["true", "false", "1", "0"] then
          .ok (.bool (word ∈ ["true", "1"]))
        else if .string ∈ kinds then .ok (.str (String.ofList value))
        else jsonValue readers value

/-! ## Calls -/

structure XmlCall where
  name : String
  arguments : Dict

/-- `properties.get(name, {})` -/
def propertySchema (declared : Dict) (name : String) : JsonValue :=
  (declared.lookup name).getD (.object [])

/-- The loop over the parameters of a body. -/
def readArguments (readers : Readers) (declared arguments : Dict) (body : List Char) :
    Except Raised Dict :=
  if body.all isSpace then .ok arguments
  else
    match _h : matchParameter body with
    | none => .error (.valueError "Malformed XML parameter")
    | some ((name, raw), rest) =>
      if (arguments.lookup name).isSome then .error (.valueError "Duplicate XML parameter")
      else do
        let value ← parameterValue readers raw (propertySchema declared name)
        readArguments readers declared (arguments ++ [(name, value)]) rest
termination_by body.length
decreasing_by exact length_lt_of_matchParameter _h

/-- The declaration of a function tool. -/
def declaration? (tool : JsonValue) : Option Dict :=
  match tool.get? "type", tool.get? "function" with
  | some (.str "function"), some (.object declaration) => some declaration
  | _, _ => none

def declaredName? (tool : JsonValue) : Option String :=
  match (declaration? tool).bind (·.lookup "name") with
  | some (.str name) => some name
  | _ => none

def parametersSchema (declaration : Dict) : JsonValue :=
  (declaration.lookup "parameters").getD (.object [("type", .str "object")])

def functionCall (readers : Readers) (tools : List JsonValue) (block : List Char) :
    Except Raised XmlCall :=
  match matchFunction block with
  | none => .error (.valueError "Malformed XML function")
  | some (name, body) =>
    match (tools.filter (declaredName? · = some name)).filterMap declaration? with
    | [] => .error (.valueError "Undeclared XML function")
    | [declaration] => do
        let schema := parametersSchema declaration
        let kinds ← types schema
        if .object ∉ kinds then
          .error (.unsupportedSchema "Tool parameters must describe an object")
        else
          match properties schema with
          | none => .error (.unsupportedSchema "Invalid properties schema")
          | some declared => do
              let arguments ← readArguments readers declared [] body
              let valid ← validValue readers (.object arguments) schema
              if valid then .ok ⟨name, arguments⟩
              else .error (.valueError "Invalid XML arguments")
    | _ => .error (.unsupportedSchema "Duplicate declared tool name")

inductive FailureReason where
  | missingToolSchema
  | unsupportedToolSchema
  | invalidToolSchema
  deriving DecidableEq

inductive FailureOrigin where
  | unknown
  | model
  deriving DecidableEq

structure Failure where
  origin : FailureOrigin
  reason : FailureReason
  trainable : Bool
  deriving DecidableEq

def inspectXmlCalls (readers : Readers) (parserInput : List Char) (requestTools : JsonValue) :
    Except Raised (List XmlCall × Option Failure) :=
  match requestTools with
  | .list (first :: rest) =>
    if (first :: rest).any (declaredName? · = none) then
      .ok ([], some ⟨.unknown, .unsupportedToolSchema, false⟩)
    else
      let blocks := Tag.between callOpen callClose parserInput
      if blocks.length ≠ callOpen.count parserInput ∨
          blocks.length ≠ callClose.count parserInput then
        .ok ([], some ⟨.model, .invalidToolSchema, true⟩)
      else
        match blocks.mapM (functionCall readers (first :: rest)) with
        | .ok calls => .ok (calls, none)
        | .error (.unsupportedSchema _) =>
          .ok ([], some ⟨.unknown, .unsupportedToolSchema, false⟩)
        | .error (.valueError _) => .ok ([], some ⟨.model, .invalidToolSchema, true⟩)
        | .error .indexError => .error .indexError
  | _ => .ok ([], some ⟨.unknown, .missingToolSchema, false⟩)

end HyperParallel.ToolXml
