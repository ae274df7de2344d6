import HyperParallel.ToolXml.SchemaMeaning
import HyperParallel.ToolXml.XmlGrammar

/-!
# What the calls of a text mean

With supported tools of distinct names a text is accepted exactly when it is a
document whose calls the tools give a meaning.
-/

namespace HyperParallel.ToolXml

open Foundation List

variable {readers : Readers}

/-! ## Readings of a raw value -/

/-- What one type makes of a text; objects and arrays are read as JSON. -/
def reading (readers : Readers) (value : List Char) : JsonType → Option JsonValue
  | .null => if readers.lower value = ['n', 'u', 'l', 'l'] then some .null else none
  | .integer => (readers.int value).map .int
  | .number => (readers.float value).bind finiteNumber
  | .boolean =>
    let word := String.ofList (readers.lower (strip value))
    if word ∈ ["true", "false", "1", "0"] then some (.bool (word ∈ ["true", "1"])) else none
  | .string => some (.str (String.ofList value))
  | .object | .array => none

/-- The first of the types that reads a text, and JSON where none does. -/
def schemaReading (readers : Readers) (kinds : List JsonType) (value : List Char) :
    Option JsonValue :=
  (([.null, .integer, .number, .boolean, .string] : List JsonType).findSome? fun kind =>
    if kind ∈ kinds then reading readers value kind else none).or
  (jsonValue readers value).toOption

/-- Whatever is raised is an error of the model. -/
def OnlyValueError {α : Type} (result : Except Raised α) : Prop :=
  ∀ raised, result = .error raised → ∃ message, raised = .valueError message

theorem OnlyValueError.ok {α : Type} (a : α) : OnlyValueError (.ok a) := by rintro _ ⟨⟩

theorem OnlyValueError.valueError {α : Type} (message : String) :
    OnlyValueError (.error (.valueError message) : Except Raised α) := by
  rintro _ ⟨⟩
  exact ⟨message, rfl⟩

theorem OnlyValueError.bind {α β : Type} {result : Except Raised α} {next : α → Except Raised β}
    (h : OnlyValueError result) (hnext : ∀ a, OnlyValueError (next a)) :
    OnlyValueError (result >>= next) := by
  cases result with
  | error raised =>
    obtain ⟨message, rfl⟩ := h raised rfl
    exact .valueError message
  | ok a => exact hnext a

theorem OnlyValueError.mapM {α β : Type} {f : α → Except Raised β} {xs : List α}
    (h : ∀ x, OnlyValueError (f x)) : OnlyValueError (xs.mapM f) := by
  induction xs with
  | nil => exact .ok []
  | cons x xs ih =>
    rw [mapM_cons]
    exact (h x).bind fun y => ih.bind fun ys => .ok _

theorem jsonValue_onlyValueError (value : List Char) : OnlyValueError (jsonValue readers value) := by
  unfold jsonValue
  split
  · exact .ok _
  · exact .valueError _

theorem parameterValue_spec {schema : JsonValue} {kinds : List JsonType} (raw : List Char)
    (hkinds : types schema = .ok kinds) :
    OnlyValueError (parameterValue readers raw schema) ∧
    (parameterValue readers raw schema).toOption =
      schemaReading readers kinds (trimNewlines raw) := by
  simp only [parameterValue, schemaReading, hkinds, findSome?_cons, reading, ← ite_and,
    findSome?_nil, Except.bind, bind]
  generalize trimNewlines raw = value
  have hinteger : (if .integer ∈ kinds then (readers.int value).map JsonValue.int else none) =
      (if .integer ∈ kinds then readers.int value else none).map .int := by
    split <;> rfl
  rw [hinteger]
  split
  · exact ⟨.ok _, rfl⟩
  split
  · rename_i number hnumber
    rw [hnumber]
    exact ⟨.ok _, rfl⟩
  rename_i hnumber
  rw [hnumber, Option.map_none]
  split
  · rename_i number hfinite
    rw [hfinite]
    exact ⟨.ok _, rfl⟩
  rename_i hfinite
  rw [hfinite]
  split
  · exact ⟨.ok _, rfl⟩
  split
  · exact ⟨.ok _, rfl⟩
  · exact ⟨jsonValue_onlyValueError value, rfl⟩

/-! ## Tools -/

/-- A tool whose parameters are an object of a supported schema. -/
structure FunctionTool (readers : Readers) where
  json : JsonValue
  declaration : Dict
  name : String
  declared : declaration? json = some declaration
  named : declaration.lookup "name" = some (.str name)
  supported : Supported readers (parametersSchema declaration)
  object : ∀ kinds, types (parametersSchema declaration) = .ok kinds → .object ∈ kinds

namespace FunctionTool

def parameters (tool : FunctionTool readers) : JsonValue := parametersSchema tool.declaration

def properties (tool : FunctionTool readers) : Dict := (ToolXml.properties tool.parameters).getD []

theorem properties_eq (tool : FunctionTool readers) :
    ToolXml.properties tool.parameters = some tool.properties := by
  obtain ⟨declared, hdeclared⟩ := Option.isSome_iff_exists.mp tool.supported.reviewed.properties
  rw [properties, parameters, hdeclared, Option.getD_some]

theorem declaredName (tool : FunctionTool readers) : declaredName? tool.json = some tool.name := by
  rw [declaredName?, tool.declared, Option.bind_some, tool.named]

theorem exists_types (tool : FunctionTool readers) (name : String) :
    ∃ kinds, types (propertySchema tool.properties name) = .ok kinds := by
  unfold propertySchema
  cases hget : tool.properties.lookup name with
  | none =>
    refine ⟨[.string], ?_⟩
    rw [Option.getD_none, types]
    rfl
  | some child => exact (tool.supported.part (.property tool.properties_eq hget)).reviewed.types

end FunctionTool

/-- A raw parameter is read as the schema of its name says. -/
def Reads (tool : FunctionTool readers) (content : String × List Char)
    (argument : String × JsonValue) : Prop :=
  argument.1 = content.1 ∧ ∃ kinds,
    types (propertySchema tool.properties content.1) = .ok kinds ∧
      schemaReading readers kinds (trimNewlines content.2) = some argument.2

/-- A declared tool of the name reads the parameters, which are distinct, and its
schema holds of their object. -/
def Interprets (tools : List (FunctionTool readers)) (content : CallContent) (call : XmlCall) :
    Prop :=
  ∃ tool ∈ tools, tool.name = content.1 ∧ call.name = content.1 ∧
    (content.2.map Prod.fst).Nodup ∧ List.Forall₂ (Reads tool) content.2 call.arguments ∧
    Satisfies readers (.object call.arguments) tool.parameters

variable {tool : FunctionTool readers} {tools : List (FunctionTool readers)}

theorem reads_iff {content : String × List Char} {argument : String × JsonValue} :
    Reads tool content argument ↔ argument.1 = content.1 ∧
      parameterValue readers content.2 (propertySchema tool.properties content.1) =
        .ok argument.2 := by
  obtain ⟨kinds, hkinds⟩ := tool.exists_types content.1
  simp only [Reads, hkinds, Except.ok.injEq, exists_eq_left', ← (parameterValue_spec _ hkinds).2]
  cases parameterValue readers content.2 (propertySchema tool.properties content.1) with
  | ok value => simp [Except.toOption]
  | error raised => simp [Except.toOption]

theorem readArguments_spec (tool : FunctionTool readers) (body : List Char) {arguments : Dict}
    (hnodup : (arguments.map Prod.fst).Nodup) :
    OnlyValueError (readArguments readers tool.properties arguments body) ∧
    ∀ result, readArguments readers tool.properties arguments body = .ok result ↔
      ∃ contents read, rawParameters body = some contents ∧
        Forall₂ (Reads tool) contents read ∧ ((arguments ++ read).map Prod.fst).Nodup ∧
        arguments ++ read = result := by
  rw [readArguments, rawParameters]
  split
  · refine ⟨.ok _, fun result => ?_⟩
    constructor
    · intro h
      cases h
      exact ⟨[], [], rfl, .nil, by rwa [append_nil], append_nil _⟩
    · rintro ⟨contents, read, h, hread, -, rfl⟩
      cases h
      cases hread
      rw [append_nil]
  cases hmatch : matchParameter body with
  | none =>
    refine ⟨.valueError _, fun result => ?_⟩
    constructor
    · intro h
      cases h
    · rintro ⟨contents, read, h, -⟩
      cases h
  | some content =>
    obtain ⟨⟨name, raw⟩, rest⟩ := content
    have hlt := length_lt_of_matchParameter hmatch
    have hname : (arguments.lookup name).isSome ↔ name ∈ arguments.map Prod.fst := by
      simp only [lookup_isSome_iff, beq_iff_eq, mem_map, @eq_comm _ name]
    dsimp only
    split
    · rename_i hduplicate
      refine ⟨.valueError _, fun result => ?_⟩
      constructor
      · intro h
        cases h
      · rintro ⟨contents, read, h, hread, hdistinct, -⟩
        obtain ⟨contents, -, rfl⟩ := Option.map_eq_some_iff.mp h
        cases hread with
        | cons hargument hread =>
          rw [map_append, map_cons, hargument.1] at hdistinct
          exact absurd rfl ((nodup_append.mp hdistinct).2.2 name
            (hname.mp hduplicate) name mem_cons_self)
    rename_i hnew
    obtain ⟨kinds, hkinds⟩ := tool.exists_types name
    have hnodup' (value : JsonValue) : ((arguments ++ [(name, value)]).map Prod.fst).Nodup := by
      rw [map_append]
      refine nodup_append.mpr ⟨hnodup, pairwise_singleton _ _, ?_⟩
      rintro key hkey _ hsingle rfl
      have hsame : key = name := mem_singleton.mp hsingle
      exact hnew (hname.mpr (hsame ▸ hkey))
    have ih := fun value => readArguments_spec tool rest (hnodup' value)
    refine ⟨(parameterValue_spec raw hkinds).1.bind fun value => (ih value).1, fun result => ?_⟩
    constructor
    · intro h
      obtain ⟨value, hvalue, hrest⟩ := bind_eq_ok h
      obtain ⟨contents, read, hcontents, hread, hdistinct, rfl⟩ := ((ih value).2 result).mp hrest
      rw [← append_cons] at hdistinct ⊢
      exact ⟨(name, raw) :: contents, (name, value) :: read, by rw [hcontents]; rfl,
        .cons (reads_iff.mpr ⟨rfl, hvalue⟩) hread, hdistinct, rfl⟩
    · rintro ⟨contents, read, h, hread, hdistinct, rfl⟩
      obtain ⟨contents, hcontents, rfl⟩ := Option.map_eq_some_iff.mp h
      cases hread with
      | @cons _ argument _ read hargument hread =>
        obtain ⟨name', value⟩ := argument
        obtain ⟨rfl, hvalue⟩ := reads_iff.mp hargument
        rw [hvalue]
        rw [append_cons] at hdistinct ⊢
        exact ((ih value).2 _).mpr ⟨contents, read, hcontents, hread, hdistinct, rfl⟩
termination_by body.length

theorem declarations_eq (tools : List (FunctionTool readers)) (name : String) :
    ((tools.map (·.json)).filter (declaredName? · = some name)).filterMap declaration? =
      (tools.filter (·.name = name)).map (·.declaration) := by
  induction tools with
  | nil => rfl
  | cons tool tools ih =>
    rw [map_cons, filter_cons, filter_cons, tool.declaredName]
    by_cases hname : tool.name = name
    · simp [hname, tool.declared, ih]
    · simp [hname, ih]

theorem filter_name_eq (hnames : (tools.map (·.name)).Nodup) (htool : tool ∈ tools) :
    tools.filter (·.name = tool.name) = [tool] := by
  induction tools with
  | nil => cases htool
  | cons first tools ih =>
    rw [map_cons, nodup_cons, mem_map] at hnames
    obtain rfl | htool := mem_cons.mp htool
    · have hrest : tools.filter (·.name = tool.name) = [] := by
        rw [filter_eq_nil_iff]
        intro other hother hname
        exact hnames.1 ⟨other, hother, of_decide_eq_true hname⟩
      simp [hrest]
    · have hfirst : first.name ≠ tool.name := fun hname => hnames.1 ⟨tool, htool, hname.symm⟩
      rw [filter_cons_of_neg (by simpa using hfirst), ih hnames.2 htool]

theorem functionCall_declared (hnames : (tools.map (·.name)).Nodup) (htool : tool ∈ tools)
    {block body : List Char} (h : matchFunction block = some (tool.name, body)) :
    functionCall readers (tools.map (·.json)) block =
      (do
        let arguments ← readArguments readers tool.properties [] body
        let valid ← validValue readers (.object arguments) tool.parameters
        if valid then .ok ⟨tool.name, arguments⟩
        else .error (.valueError "Invalid XML arguments")) := by
  obtain ⟨kinds, hkinds⟩ := tool.supported.reviewed.types
  have hobject := tool.object kinds hkinds
  have hproperties := tool.properties_eq
  unfold FunctionTool.parameters at hproperties
  simp only [functionCall, h, declarations_eq, filter_name_eq hnames htool, map_cons,
    map_nil, hkinds, hobject, hproperties, not_true_eq_false, if_false, bind, Except.bind,
    FunctionTool.parameters]

theorem functionCall_undeclared {name : String} (hname : ∀ tool ∈ tools, tool.name ≠ name)
    {block body : List Char} (h : matchFunction block = some (name, body)) :
    functionCall readers (tools.map (·.json)) block =
      .error (.valueError "Undeclared XML function") := by
  have hfilter : tools.filter (·.name = name) = [] := by
    rw [filter_eq_nil_iff]
    exact fun tool htool hdecide => hname tool htool (of_decide_eq_true hdecide)
  simp only [functionCall, h, declarations_eq, hfilter, map_nil]

theorem map_fst_eq_of_reads {contents : List (String × List Char)}
    {read : Dict} (h : Forall₂ (Reads tool) contents read) :
    read.map Prod.fst = contents.map Prod.fst := by
  induction h with
  | nil => rfl
  | cons hargument _ ih => rw [map_cons, map_cons, ih, hargument.1]

theorem functionCall_spec (block : List Char) (hnames : (tools.map (·.name)).Nodup) :
    OnlyValueError (functionCall readers (tools.map (·.json)) block) ∧
    ∀ call, functionCall readers (tools.map (·.json)) block = .ok call ↔
      ∃ content, rawCall block = some content ∧ Interprets tools content call := by
  cases hfunction : matchFunction block with
  | none =>
    have hcall : functionCall readers (tools.map (·.json)) block =
        .error (.valueError "Malformed XML function") := by
      rw [functionCall, hfunction]
    rw [hcall]
    refine ⟨.valueError _, fun call => ⟨by rintro ⟨⟩, ?_⟩⟩
    rintro ⟨content, h, -⟩
    rw [rawCall, hfunction] at h
    cases h
  | some function =>
    obtain ⟨name, body⟩ := function
    have hraw : rawCall block = (rawParameters body).map fun contents => (name, contents) := by
      simp only [rawCall, hfunction, Option.bind_eq_bind, Option.bind_some]
      cases rawParameters body <;> rfl
    simp only [hraw, Option.map_eq_some_iff]
    by_cases hname : ∃ tool ∈ tools, tool.name = name
    · obtain ⟨tool, htool, rfl⟩ := hname
      have hread := @readArguments_spec readers tool body [] nodup_nil
      have hvalid := fun arguments => decides_validValue (.object arguments) tool.supported
      rw [functionCall_declared hnames htool hfunction]
      constructor
      · refine hread.1.bind fun arguments => ?_
        obtain ⟨valid, hanswer, -⟩ := hvalid arguments
        rw [FunctionTool.parameters, hanswer]
        cases valid with
        | true => exact .ok _
        | false => exact .valueError _
      intro call
      constructor
      · intro h
        obtain ⟨arguments, harguments, h⟩ := bind_eq_ok h
        obtain ⟨contents, read, hcontents, hreads, hdistinct, rfl⟩ := (hread.2 _).mp harguments
        obtain ⟨valid, hanswer, h⟩ := bind_eq_ok h
        rw [nil_append, map_fst_eq_of_reads hreads] at hdistinct
        cases valid with
        | false => cases h
        | true =>
          cases h
          exact ⟨_, ⟨contents, hcontents, rfl⟩, tool, htool, rfl, rfl, hdistinct, hreads,
            (hvalid _).eq_ok_true_iff.mp hanswer⟩
      · rintro ⟨_, ⟨contents, hcontents, rfl⟩, tool', htool', hsame, hcall, hdistinct, hreads,
          hsatisfies⟩
        obtain rfl : tool' = tool := by
          have hmem : tool' ∈ tools.filter (·.name = tool.name) :=
            mem_filter.mpr ⟨htool', decide_eq_true hsame⟩
          rwa [filter_name_eq hnames htool, mem_singleton] at hmem
        obtain ⟨callName, arguments⟩ := call
        obtain rfl : callName = tool'.name := hcall
        rw [← map_fst_eq_of_reads hreads] at hdistinct
        rw [(hread.2 arguments).mpr ⟨contents, arguments, hcontents, hreads, hdistinct, rfl⟩]
        have hanswer := (hvalid arguments).eq_ok_true_iff.mpr hsatisfies
        rw [FunctionTool.parameters]
        simp only [bind, Except.bind, hanswer, if_true]
    · rw [functionCall_undeclared (fun tool htool h => hname ⟨tool, htool, h⟩) hfunction]
      refine ⟨.valueError _, fun call => ⟨by rintro ⟨⟩, ?_⟩⟩
      rintro ⟨_, ⟨contents, -, rfl⟩, tool, htool, h, -⟩
      exact absurd ⟨tool, htool, h⟩ hname

theorem mapM_functionCall_iff
    (hnames : (tools.map (·.name)).Nodup) {blocks : List (List Char)} {calls : List XmlCall} :
    blocks.mapM (functionCall readers (tools.map (·.json))) = .ok calls ↔
      ∃ contents, blocks.mapM rawCall = some contents ∧
        Forall₂ (Interprets tools) contents calls := by
  simp only [mapM_eq_ok_iff, mapM_eq_some_iff]
  induction blocks generalizing calls with
  | nil => simp
  | cons block blocks ih =>
    simp only [forall₂_cons_left_iff, (functionCall_spec block hnames).2, ih]
    constructor
    · rintro ⟨call, calls, ⟨content, hraw, hcall⟩, ⟨contents, hraws, hcalls⟩, rfl⟩
      exact ⟨content :: contents, ⟨content, contents, hraw, hraws, rfl⟩, .cons hcall hcalls⟩
    · rintro ⟨_, ⟨content, contents, hraw, hraws, rfl⟩, hcalls⟩
      cases hcalls with
      | cons hcall hcalls => exact ⟨_, _, ⟨content, hraw, hcall⟩, ⟨contents, hraws, hcalls⟩, rfl⟩

theorem inspectXmlCalls_iff (hne : tools ≠ [])
    (hnames : (tools.map (·.name)).Nodup) (text : List Char) :
    ∃ result, inspectXmlCalls readers text (.list (tools.map (·.json))) = .ok result ∧
      ∀ calls, result = (calls, none) ↔ ∃ contents, rawCalls text = some contents ∧
        Forall₂ (Interprets tools) contents calls := by
  have hcall := @mapM_functionCall_iff readers tools hnames (Tag.between callOpen callClose text)
  have hraised : OnlyValueError ((Tag.between callOpen callClose text).mapM
      (functionCall readers (tools.map (·.json)))) :=
    OnlyValueError.mapM fun block => (functionCall_spec block hnames).1
  obtain ⟨tool, rest, rfl⟩ := exists_cons_of_ne_nil hne
  have hdeclared : ¬((tool :: rest).map (·.json)).any (declaredName? · = none) := by
    simp [FunctionTool.declaredName]
  rw [map_cons] at hcall hraised hdeclared ⊢
  rw [inspectXmlCalls, if_neg hdeclared, rawCalls]
  dsimp only
  split
  · refine ⟨_, rfl, fun calls => ⟨by rintro ⟨⟩, ?_⟩⟩
    rintro ⟨contents, h, -⟩
    cases h
  simp only [← hcall]
  generalize (Tag.between callOpen callClose text).mapM
    (functionCall readers (tool.json :: rest.map (·.json))) = run at hraised ⊢
  cases run with
  | ok calls => exact ⟨_, rfl, fun calls' => by simp⟩
  | error raised =>
    obtain ⟨message, rfl⟩ := hraised raised rfl
    exact ⟨_, rfl, fun calls => by simp⟩

/-- A text is accepted exactly when it is a document whose calls the tools interpret, and
no error of the interpretation gets out. -/
theorem inspectXmlCalls_spec (readers : Readers) (tools : List (FunctionTool readers))
    (hne : tools ≠ []) (hnames : (tools.map (·.name)).Nodup) (text : List Char) :
    (∃ result, inspectXmlCalls readers text (.list (tools.map (·.json))) = .ok result) ∧
    (∀ calls, inspectXmlCalls readers text (.list (tools.map (·.json))) = .ok (calls, none) ↔
      ∃ document : Document, document.render = text ∧
        List.Forall₂ (Interprets tools) document.contents calls) ∧
    ∀ document : Document, rawCalls document.render = some document.contents := by
  obtain ⟨result, hresult, hcalls⟩ := inspectXmlCalls_iff hne hnames text
  rw [hresult]
  refine ⟨⟨result, rfl⟩, fun calls => ?_,
    fun document => rawCalls_eq_some_iff.mpr ⟨document, rfl, rfl⟩⟩
  rw [Except.ok.injEq, hcalls]
  simp only [rawCalls_eq_some_iff]
  constructor
  · rintro ⟨_, ⟨document, hrender, rfl⟩, hcalls⟩
    exact ⟨document, hrender, hcalls⟩
  · rintro ⟨document, hrender, hcalls⟩
    exact ⟨_, ⟨document, hrender, rfl⟩, hcalls⟩

/-- Readers of texts that are no number and no JSON. -/
def wordReaders : Readers where
  lower := List.map Char.toLower
  int := fun _ => none
  float := fun _ => none
  loads := fun _ _ _ => .error "Expecting value"
  search := fun _ => none

theorem types_object : types (.object [("type", .str "object")]) = .ok [.object] := by
  rw [types]
  rfl

theorem supported_object : Supported wordReaders (.object [("type", .str "object")]) := by
  have hleaf (child : JsonValue) : ¬Part (.object [("type", .str "object")]) child := by
    rintro (h | ⟨h, hchild⟩ | h | h)
    · cases h
    · cases h
      cases hchild
    · cases h
    · cases h
  intro part hpart
  obtain rfl | ⟨child, hchild, -⟩ := Relation.ReflTransGen.cases_head hpart
  · refine ⟨⟨_, types_object⟩, ?_, ?_, ?_, ?_, ?_, rfl, rfl, rfl⟩
    · rintro _ ⟨⟩
    · rintro _ ⟨⟩
    · simp [numericChecks, JsonValue.get?, lookup_cons, lookup_nil]
    · simp [JsonValue.get?, lookup_cons, lookup_nil]
    · rintro _ ⟨⟩
  · exact absurd hchild (hleaf child)

/-- A tool that declares no parameters and takes any. -/
def askTool : FunctionTool wordReaders where
  json := .object [("type", .str "function"), ("function", .object [("name", .str "ask")])]
  declaration := [("name", .str "ask")]
  name := "ask"
  declared := rfl
  named := rfl
  supported := supported_object
  object := fun kinds h => by
    cases types_object.symm.trans h
    exact List.mem_singleton_self _

theorem satisfies_object :
    Satisfies wordReaders (.object []) (.object [("type", .str "object")]) := by
  rw [Satisfies.eq_def, if_neg (by decide)]
  refine ⟨⟨_, types_object, .object, mem_singleton_self _, rfl⟩, ⟨?_, ?_, ?_, ?_, ?_⟩,
    ?_, ?_, ?_, ?_⟩
  all_goals rintro _ ⟨⟩
  constructor
  · rintro _ ⟨⟩ _ ⟨⟩
  · rintro _ ⟨⟩

theorem inspectXmlCalls_askTool :
    inspectXmlCalls wordReaders "<tool_call><function=ask></function></tool_call>".toList
      (.list [askTool.json]) = .ok ([⟨"ask", []⟩], none) := by
  have hspaces : Spaces [] := forall_mem_nil _
  have htoken : Token "ask".toList := by
    constructor
    · decide
    · simp [isName, isSpace]
  let call : RawCall := ⟨[], "ask".toList, [], [], [], ⟨hspaces, hspaces, hspaces⟩, htoken⟩
  let document : Document := ⟨[(⟨[], hspaces.free⟩, call)], ⟨[], hspaces.free⟩⟩
  have hspec := inspectXmlCalls_spec wordReaders [askTool] (cons_ne_nil _ _)
    (pairwise_singleton _ _) document.render
  have htext : document.render = "<tool_call><function=ask></function></tool_call>".toList := rfl
  rw [← htext]
  exact (hspec.2.1 _).mpr ⟨document, rfl, .cons ⟨askTool, mem_singleton_self _, rfl, rfl,
    nodup_nil, .nil, satisfies_object⟩ .nil⟩

end HyperParallel.ToolXml
