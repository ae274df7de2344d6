import HyperParallel.Foundation.PySequence
import HyperParallel.ToolXml.XmlCalls

/-!
# The grammar of calls

A document is free text and blocks of one call each.  It is rendered to a text,
and what the patterns take from a text is that of the one document behind it.
-/

namespace HyperParallel.ToolXml

open Foundation List

/-- Text without call tags -/
abbrev FreeText : List Char → Prop := Tag.Free callOpen callClose

/-- The name and the raw parameters of a call -/
abbrev CallContent := String × List (String × List Char)

/-! ## Documents -/

/-- `ws <parameter=P> RAW </parameter>` -/
structure RawParameter where
  gap : List Char
  name : List Char
  raw : List Char
  spaces : Spaces gap
  token : Token name
  unclosed : ¬parameterClose.text <:+: raw
  free : FreeText raw

def RawParameter.render (parameter : RawParameter) (rest : List Char) : List Char :=
  opening parameterKey parameter.gap parameter.name (parameter.raw ++ (parameterClose.text ++ rest))

def RawParameter.content (parameter : RawParameter) : String × List Char :=
  (String.ofList parameter.name, parameter.raw)

/-- `ws <function=NAME> (ws <parameter=P> RAW </parameter>)* ws </function> ws` -/
structure RawCall where
  before : List Char
  name : List Char
  parameters : List RawParameter
  gap : List Char
  after : List Char
  spaces : Spaces before ∧ Spaces gap ∧ Spaces after
  token : Token name

def RawCall.render (call : RawCall) : List Char :=
  opening functionKey call.before call.name
    (call.parameters.foldr RawParameter.render call.gap ++ (functionClose.text ++ call.after))

def RawCall.content (call : RawCall) : CallContent :=
  (String.ofList call.name, call.parameters.map RawParameter.content)

/-- Free text interleaved with calls -/
structure Document where
  calls : List ({text : List Char // FreeText text} × RawCall)
  last : {text : List Char // FreeText text}

namespace Document

def renderCall (call : {text : List Char // FreeText text} × RawCall) (rest : List Char) :
    List Char :=
  call.1 ++ (callOpen.text ++ (call.2.render ++ (callClose.text ++ rest)))

def render (document : Document) : List Char :=
  document.calls.foldr renderCall document.last

def contents (document : Document) : List CallContent :=
  document.calls.map fun call => call.2.content

end Document

/-! ## What the patterns take from a text -/

def rawParameters (body : List Char) : Option (List (String × List Char)) :=
  if body.all isSpace then some []
  else
    match _h : matchParameter body with
    | none => none
    | some (parameter, rest) => (rawParameters rest).map (parameter :: ·)
termination_by body.length
decreasing_by exact length_lt_of_matchParameter _h

def rawCall (block : List Char) : Option CallContent := do
  let (name, body) ← matchFunction block
  let parameters ← rawParameters body
  some (name, parameters)

/-- The contents of the calls of a text, read with no schema. -/
def rawCalls (text : List Char) : Option (List CallContent) :=
  let blocks := Tag.between callOpen callClose text
  if blocks.length ≠ callOpen.count text ∨ blocks.length ≠ callClose.count text then none
  else blocks.mapM rawCall

/-! ## Free blocks -/

theorem Spaces.notMem {gap : List Char} (h : Spaces gap) : '<' ∉ gap :=
  fun hmem => absurd (h _ hmem) (by decide)

theorem Spaces.free {gap : List Char} (h : Spaces gap) : FreeText gap :=
  ⟨Tag.not_infix_of_first_notMem h.notMem, Tag.not_infix_of_first_notMem h.notMem⟩

theorem free_append_tag_iff {a b : List Char} {tag : XmlTag}
    (hopen : callOpen.middle ≠ tag.middle) (hclose : callClose.middle ≠ tag.middle) :
    FreeText (a ++ (tag.text ++ b)) ↔ FreeText a ∧ FreeText b := by
  simp only [FreeText, Tag.Free, Tag.infix_append_iff, hopen, hclose, false_or, not_or]
  exact and_and_and_comm

theorem free_opening_iff {key gap name rest : List Char} (hkey : key ∈ [functionKey, parameterKey])
    (hgap : Spaces gap) (hname : Token name) :
    FreeText (opening key gap name rest) ↔ FreeText rest := by
  have hmem : ∀ c ∈ key, c ≠ '<' ∧ c ≠ '>' := by
    obtain rfl | rfl := mem_pair.mp hkey <;> simp [functionKey, parameterKey]
  have hequals : '=' ∈ key := by
    obtain rfl | rfl := mem_pair.mp hkey <;> simp [functionKey, parameterKey]
  have hne : ∀ c ∈ key ++ name, c ≠ '<' ∧ c ≠ '>' := by
    intro c hc
    obtain hc | hc := mem_append.mp hc
    · exact hmem c hc
    · constructor
      · rintro rfl
        exact absurd (hname.2 _ hc) (by decide)
      · rintro rfl
        exact absurd (hname.2 _ hc) (by decide)
  let tag : XmlTag := ⟨key ++ name,
    fun h => (mem_append.mp h).elim (fun h => (hne _ h).1 rfl) (by simp),
    fun h => (mem_cons.mp h).elim (by decide) fun h => (hne _ h).2 rfl⟩
  have htext : opening key gap name rest = gap ++ (tag.text ++ rest) := by
    simp [opening, Tag.text, tag]
  -- a call tag has no `=`
  have hmiddle : ∀ middle : List Char, '=' ∉ middle → middle ≠ tag.middle := by
    rintro _ h rfl
    exact h (mem_append_left _ hequals)
  rw [htext, free_append_tag_iff (hmiddle _ (by decide)) (hmiddle _ (by decide)),
    and_iff_right hgap.free]

theorem RawParameter.free_render_iff (parameter : RawParameter) {rest : List Char} :
    FreeText (parameter.render rest) ↔ FreeText rest := by
  rw [RawParameter.render, free_opening_iff (by simp) parameter.spaces parameter.token,
    free_append_tag_iff (by decide) (by decide), and_iff_right parameter.free]

theorem free_parameters_iff (parameters : List RawParameter) {rest : List Char} :
    FreeText (parameters.foldr RawParameter.render rest) ↔ FreeText rest := by
  induction parameters with
  | nil => rfl
  | cons parameter parameters ih =>
    rw [foldr_cons, parameter.free_render_iff, ih]

theorem RawCall.free_render (call : RawCall) : FreeText call.render := by
  obtain ⟨hbefore, hgap, hafter⟩ := call.spaces
  rw [RawCall.render, free_opening_iff (by simp) hbefore call.token,
    free_append_tag_iff (by decide) (by decide), free_parameters_iff]
  exact ⟨hgap.free, hafter.free⟩

/-! ## Functions and parameters -/

theorem functionBody_eq_some_iff {text body : List Char} :
    functionBody text = some body ↔
      ∃ after, Spaces after ∧ text = body ++ (functionClose.text ++ after) := by
  have hclosing : ∀ text : List Char, (text.dropPrefix? functionClose.text).any (·.all isSpace) ↔
      ∃ after, Spaces after ∧ text = functionClose.text ++ after := by
    intro text
    simp only [Option.any_eq_true, dropPrefix?_eq_some_iff, beq_iff_eq, all_eq_true,
      exists_eq_right]
    exact exists_congr fun after => and_comm
  induction text generalizing body with
  | nil => simp [functionBody, Tag.text]
  | cons c rest ih =>
    rw [functionBody]
    split
    · rename_i h
      obtain ⟨after, hafter, htext⟩ := (hclosing _).mp h
      constructor
      · intro hbody
        cases hbody
        exact ⟨after, hafter, htext⟩
      · rintro ⟨after', hafter', htext'⟩
        cases body with
        | nil => rfl
        | cons d body =>
          -- a later closing tag would stand in the spaces after this one
          rw [htext', Tag.text, cons_append, cons_append, cons_append, cons.injEq] at htext
          have hmem : '<' ∈ functionClose.middle ++ ['>'] ++ after := by
            rw [← htext.2]
            simp
          obtain hmem | hmem := mem_append.mp hmem
          · exact absurd hmem functionClose.first_notMem
          · exact absurd hmem hafter.notMem
    · rename_i h
      cases body with
      | nil =>
        constructor
        · intro hmap
          simp at hmap
        · rintro ⟨after, hafter, htext⟩
          exact absurd ((hclosing _).mpr ⟨after, hafter, htext⟩) h
      | cons d body =>
        simp only [Option.map_eq_some_iff, cons.injEq, exists_eq_right_right, cons_append, ih]
        constructor
        · rintro ⟨⟨after, hafter, rfl⟩, rfl⟩
          exact ⟨after, hafter, rfl, rfl⟩
        · rintro ⟨after, hafter, rfl, rfl⟩
          exact ⟨⟨after, hafter, rfl⟩, rfl⟩

theorem matchFunction_eq_some_iff {block body : List Char} {function : String} :
    matchFunction block = some (function, body) ↔
      ∃ before name after, Spaces before ∧ Token name ∧ Spaces after ∧
        function = String.ofList name ∧
        block = opening functionKey before name (body ++ (functionClose.text ++ after)) := by
  simp only [matchFunction, Option.bind_eq_bind, Option.bind_eq_some_iff, Prod.exists]
  constructor
  · rintro ⟨name, inner, hopening, body', hbody, h⟩
    obtain ⟨before, hbefore, hname, rfl⟩ := matchOpening_eq_some_iff.mp hopening
    obtain ⟨after, hafter, rfl⟩ := functionBody_eq_some_iff.mp hbody
    cases h
    exact ⟨before, name, after, hbefore, hname, hafter, rfl, rfl⟩
  · rintro ⟨before, name, after, hbefore, hname, hafter, rfl, rfl⟩
    exact ⟨name, _, matchOpening_eq_some_iff.mpr ⟨before, hbefore, hname, rfl⟩, body,
      functionBody_eq_some_iff.mpr ⟨after, hafter, rfl⟩, rfl⟩

theorem matchParameter_render (parameter : RawParameter) (rest : List Char) :
    matchParameter (parameter.render rest) = some (parameter.content, rest) :=
  matchParameter_eq_some_iff.mpr ⟨parameter.gap, parameter.name, parameter.spaces,
    parameter.token, rfl, parameter.unclosed, rfl⟩

theorem rawParameters_eq_some_iff {body : List Char} {contents : List (String × List Char)}
    (hfree : FreeText body) :
    rawParameters body = some contents ↔ ∃ (parameters : List RawParameter) (gap : List Char),
      Spaces gap ∧ parameters.foldr RawParameter.render gap = body ∧
      parameters.map RawParameter.content = contents := by
  rw [rawParameters]
  by_cases hspaces : body.all isSpace
  · rw [if_pos hspaces, Option.some.injEq]
    constructor
    · rintro rfl
      exact ⟨[], body, all_eq_true.mp hspaces, rfl, rfl⟩
    · rintro ⟨parameters, gap, -, rfl, rfl⟩
      cases parameters with
      | nil => rfl
      | cons parameter parameters =>
        have hspace := all_eq_true.mp hspaces '<' (by simp [RawParameter.render, opening])
        exact absurd hspace (by decide)
  rw [if_neg hspaces]
  split
  · rename_i hmatch
    constructor
    · intro h
      cases h
    · rintro ⟨parameters, gap, hgap, rfl, -⟩
      cases parameters with
      | nil => exact absurd (all_eq_true.mpr hgap) hspaces
      | cons parameter parameters => cases hmatch.symm.trans (matchParameter_render parameter _)
  · rename_i content rest hmatch
    obtain ⟨gap, name, hgap, hname, hcontent, hraw, rfl⟩ := matchParameter_eq_some_iff.mp hmatch
    rw [free_opening_iff (by simp) hgap hname, free_append_tag_iff (by decide) (by decide)] at hfree
    have := length_lt_of_matchParameter hmatch
    rw [Option.map_eq_some_iff]
    constructor
    · rintro ⟨contents, hcontents, rfl⟩
      obtain ⟨parameters, last, hlast, rfl, rfl⟩ := (rawParameters_eq_some_iff hfree.2).mp hcontents
      refine ⟨⟨gap, name, content.2, hgap, hname, hraw, hfree.1⟩ :: parameters, last, hlast,
        rfl, ?_⟩
      rw [map_cons, RawParameter.content, ← hcontent]
    · rintro ⟨parameters, last, hlast, hrender, rfl⟩
      cases parameters with
      | nil =>
        rw [← hrender] at hspaces
        exact absurd (all_eq_true.mpr hlast) hspaces
      | cons parameter parameters =>
        rw [← hrender] at hmatch
        cases hmatch.symm.trans (matchParameter_render parameter _)
        exact ⟨_, (rawParameters_eq_some_iff hfree.2).mpr ⟨parameters, last, hlast, rfl, rfl⟩, rfl⟩
termination_by body.length

theorem rawCall_eq_some_iff {block : List Char} {content : CallContent} (hfree : FreeText block) :
    rawCall block = some content ↔ ∃ call : RawCall, call.render = block ∧
      call.content = content := by
  simp only [rawCall, Option.bind_eq_bind, Option.bind_eq_some_iff, Prod.exists]
  constructor
  · rintro ⟨function, body, hfunction, parameters, hparameters, h⟩
    obtain ⟨before, name, after, hbefore, hname, hafter, rfl, rfl⟩ :=
      matchFunction_eq_some_iff.mp hfunction
    rw [free_opening_iff (by simp) hbefore hname,
      free_append_tag_iff (by decide) (by decide)] at hfree
    obtain ⟨parameters, gap, hgap, rfl, rfl⟩ := (rawParameters_eq_some_iff hfree.1).mp hparameters
    cases h
    exact ⟨⟨before, name, parameters, gap, after, ⟨hbefore, hgap, hafter⟩, hname⟩, rfl, rfl⟩
  · rintro ⟨call, rfl, rfl⟩
    obtain ⟨hbefore, hgap, hafter⟩ := call.spaces
    have hbody : FreeText (call.parameters.foldr RawParameter.render call.gap) :=
      (free_parameters_iff _).mpr hgap.free
    exact ⟨_, _, matchFunction_eq_some_iff.mpr ⟨call.before, call.name, call.after, hbefore,
      call.token, hafter, rfl, rfl⟩, _,
      (rawParameters_eq_some_iff hbody).mpr ⟨call.parameters, call.gap, hgap, rfl, rfl⟩, rfl⟩

/-! ## Documents are read back -/

theorem rawCalls_eq_some_iff_delimited {text : List Char} {contents : List CallContent} :
    rawCalls text = some contents ↔ ∃ blocks, Tag.Delimited callOpen callClose text blocks ∧
      Forall₂ (fun block content => rawCall block = some content) blocks contents := by
  have hne : callOpen.middle ≠ callClose.middle := by decide
  simp only [Tag.delimited_iff hne, rawCalls]
  constructor
  · intro h
    split at h
    · cases h
    · rename_i hcount
      rw [not_or, not_not, not_not] at hcount
      exact ⟨_, ⟨rfl, hcount⟩, mapM_eq_some_iff.mp h⟩
  · rintro ⟨blocks, ⟨rfl, hopen, hclose⟩, hcontents⟩
    rw [if_neg (not_or.mpr ⟨not_not.mpr hopen, not_not.mpr hclose⟩)]
    exact mapM_eq_some_iff.mpr hcontents

/-- The patterns take exactly the contents of the document behind a text from it. -/
theorem rawCalls_eq_some_iff {text : List Char} {contents : List CallContent} :
    rawCalls text = some contents ↔
      ∃ document : Document, document.render = text ∧ document.contents = contents := by
  rw [rawCalls_eq_some_iff_delimited]
  constructor
  · rintro ⟨blocks, hblocks, hcontents⟩
    induction hblocks generalizing contents with
    | @free text hfree =>
      cases hcontents
      exact ⟨⟨[], ⟨text, hfree⟩⟩, rfl, rfl⟩
    | @block text block rest blocks htext hblock _ ih =>
      cases hcontents with
      | cons hcontent hcontents =>
        obtain ⟨call, rfl, rfl⟩ := (rawCall_eq_some_iff hblock).mp hcontent
        obtain ⟨document, rfl, rfl⟩ := ih hcontents
        exact ⟨⟨(⟨text, htext⟩, call) :: document.calls, document.last⟩, rfl, rfl⟩
  · rintro ⟨⟨calls, last⟩, rfl, rfl⟩
    induction calls with
    | nil => exact ⟨[], .free last.2, .nil⟩
    | cons call calls ih =>
      obtain ⟨blocks, hblocks, hcontents⟩ := ih
      exact ⟨call.2.render :: blocks, .block call.1.2 call.2.free_render hblocks,
        .cons ((rawCall_eq_some_iff call.2.free_render).mpr ⟨call.2, rfl, rfl⟩) hcontents⟩

end HyperParallel.ToolXml
