import HyperParallel.ToolXml.ToolSchema

/-!
# What a schema says

On a schema of the reviewed keywords the check of a value raises nothing and
decides what the keywords say of the value.
-/

namespace HyperParallel.ToolXml

open Foundation

/-- The keywords of one schema are among the reviewed ones and have values of their kinds. -/
structure Reviewed (readers : Readers) (schema : JsonValue) : Prop where
  types : ∃ kinds, types schema = .ok kinds
  unionType : ∀ type, (schema.get? "anyOf").isSome → schema.get? "type" = some type →
    ∃ kinds, ToolXml.types (.object [("type", type)]) = .ok kinds
  enum : ∀ values, schema.get? "enum" = some values → ∃ allowed, values = .list allowed
  bounds : ∀ check ∈ numericChecks, ∀ bound, schema.get? check.1 = some bound →
    ∃ number : PyFloat, bound.number? = some number ∧ number.isFinite
  lengths : ∀ key ∈ ["minLength", "maxLength", "minItems", "maxItems"], ∀ bound,
    schema.get? key = some bound → ∃ length : Nat, bound = .int length
  pattern : ∀ value, schema.get? "pattern" = some value →
    ∃ pattern, value = .str pattern ∧ (readers.search pattern).isSome
  properties : (properties schema).isSome
  required : (required schema).isSome
  additional : (additional schema).isSome

/-- The schemas that a schema is made of. -/
inductive Part (schema child : JsonValue) : Prop
  | choice {choices} (h : schema.get? "anyOf" = some (.list choices)) (hmem : child ∈ choices)
  | property {declared name} (h : properties schema = some declared)
      (hchild : declared.lookup name = some child)
  | additional (h : additional schema = some (.schema child))
  | item (h : schema.get? "items" = some child)

theorem Part.sizeOf_lt {schema child : JsonValue} (h : Part schema child) :
    sizeOf child < sizeOf schema := by
  cases h with
  | choice h hmem =>
    have hlt := sizeOf_get? h
    have := List.sizeOf_lt_of_mem hmem
    rw [JsonValue.list.sizeOf_spec] at hlt
    omega
  | property h hchild => exact sizeOf_property h hchild
  | additional h => exact sizeOf_additional h
  | item h => exact sizeOf_get? h

def Supported (readers : Readers) (schema : JsonValue) : Prop :=
  ∀ part, Relation.ReflTransGen Part schema part → Reviewed readers part

/-! ## Satisfaction -/

/-- A length within the bounds of two keywords. -/
def Within (length : Nat) (schema : JsonValue) (minimum maximum : String) : Prop :=
  (∀ bound : Nat, schema.get? minimum = some (.int bound) → bound ≤ length) ∧
    ∀ bound : Nat, schema.get? maximum = some (.int bound) → length ≤ bound

structure Scalar (readers : Readers) (value schema : JsonValue) : Prop where
  enum : ∀ allowed, schema.get? "enum" = some (.list allowed) →
    ∃ literal ∈ allowed, value.same literal
  const : ∀ literal, schema.get? "const" = some literal → value.same literal
  bounds : ∀ number, value.number? = some number → ∀ check ∈ numericChecks, ∀ bound,
    schema.get? check.1 = some bound → ∀ limit, bound.number? = some limit → check.2 number limit
  lengths : ∀ text, value = .str text → Within text.length schema "minLength" "maxLength"
  pattern : ∀ text, value = .str text → ∀ pattern, schema.get? "pattern" = some (.str pattern) →
    ∀ found, readers.search pattern = some found → found text

/-- A value of one of the types of a schema. -/
def OfType (value schema : JsonValue) : Prop :=
  ∃ kinds, types schema = .ok kinds ∧ ∃ kind ∈ kinds, typeMatches value kind

def Satisfies (readers : Readers) (value schema : JsonValue) : Prop :=
  if schema.isEmpty then value.dumps = true
  else
    OfType value schema ∧ Scalar readers value schema ∧
    (∀ type, (schema.get? "anyOf").isSome → schema.get? "type" = some type →
      OfType value (.object [("type", type)])) ∧
    (∀ choices, schema.get? "anyOf" = some (.list choices) →
      ∃ choice, ∃ _ : choice ∈ choices, Satisfies readers value choice) ∧
    (∀ entries, value = .object entries →
      (∀ names, required schema = some names → ∀ name ∈ names, (entries.lookup name).isSome) ∧
      ∀ entry ∈ entries, ∀ declared, properties schema = some declared →
        (∀ child, declared.lookup entry.1 = some child → Satisfies readers entry.2 child) ∧
        (declared.lookup entry.1 = none → additional schema ≠ some (.allowed false) ∧
          ∀ child, additional schema = some (.schema child) → Satisfies readers entry.2 child)) ∧
    ∀ items, value = .list items → Within items.length schema "minItems" "maxItems" ∧
      ∀ child, schema.get? "items" = some child → ∀ item ∈ items, Satisfies readers item child
termination_by sizeOf schema
decreasing_by
  · rename_i h hmem
    exact (Part.choice h hmem).sizeOf_lt
  · rename_i hp h
    exact sizeOf_property hp h
  · rename_i h
    exact sizeOf_additional h
  · rename_i _ h _
    exact sizeOf_get? h

/-! ## The check decides satisfaction -/

section Decided

variable {readers : Readers} {value schema : JsonValue}

theorem Supported.reviewed (h : Supported readers schema) : Reviewed readers schema := h _ .refl

theorem Supported.part {child : JsonValue} (h : Supported readers schema)
    (hchild : Part schema child) : Supported readers child :=
  fun part hpart => h part (.head hchild hpart)

theorem decides_enum (h : Reviewed readers schema) :
    Decides (enumConstraint value schema) (∀ allowed, schema.get? "enum" = some (.list allowed) →
      ∃ literal ∈ allowed, value.same literal) := by
  unfold enumConstraint
  cases hget : schema.get? "enum" with
  | none => exact .ok (by simp)
  | some values =>
    obtain ⟨allowed, rfl⟩ := h.enum values hget
    exact .ok (by simp)

theorem decides_numeric (h : Reviewed readers schema) (number : PyFloat) :
    Decides (numericConstraints number schema) (∀ check ∈ numericChecks, ∀ bound,
      schema.get? check.1 = some bound → ∀ limit, bound.number? = some limit →
        check.2 number limit) := by
  refine Decides.allOf fun check hcheck => ?_
  cases hget : schema.get? check.1 with
  | none => exact .ok (by simp)
  | some bound =>
    obtain ⟨limit, hlimit, hfinite⟩ := h.bounds check hcheck bound hget
    simp only [hlimit, hfinite]
    exact .ok (by simp [hlimit])

theorem lengthBound_eq {key : String} (absent : Nat) (h : ∀ bound, schema.get? key = some bound →
    ∃ length : Nat, bound = .int length) :
    ∃ bound, lengthBound schema key absent = .ok bound ∧
      (schema.get? key = none ∧ bound = absent ∨ schema.get? key = some (.int bound)) := by
  unfold lengthBound
  cases hget : schema.get? key with
  | none => exact ⟨absent, rfl, .inl ⟨rfl, rfl⟩⟩
  | some bound =>
    obtain ⟨length, rfl⟩ := h bound hget
    exact ⟨length, rfl, .inr rfl⟩

theorem decides_length (length : Nat) {minimum maximum : String}
    (hmin : ∀ bound, schema.get? minimum = some bound → ∃ length : Nat, bound = .int length)
    (hmax : ∀ bound, schema.get? maximum = some bound → ∃ length : Nat, bound = .int length) :
    Decides (lengthConstraints length schema minimum maximum)
      (Within length schema minimum maximum) := by
  obtain ⟨low, hlow, hlow'⟩ := lengthBound_eq 0 hmin
  obtain ⟨high, hhigh, hhigh'⟩ := lengthBound_eq length hmax
  unfold lengthConstraints
  rw [hlow, hhigh]
  refine .ok ?_
  rw [Bool.and_eq_true, decide_eq_true_iff, decide_eq_true_iff]
  apply and_congr
  · obtain ⟨hnone, rfl⟩ | hsome := hlow'
    · simp [hnone]
    · simp [hsome]
  · obtain ⟨hnone, rfl⟩ | hsome := hhigh'
    · simp [hnone]
    · simp [hsome]

theorem decides_pattern (h : Reviewed readers schema) (text : String) :
    Decides (patternConstraint readers text schema)
      (∀ pattern, schema.get? "pattern" = some (.str pattern) →
        ∀ found, readers.search pattern = some found → found text) := by
  unfold patternConstraint
  cases hget : schema.get? "pattern" with
  | none => exact .ok (by simp)
  | some value =>
    obtain ⟨pattern, rfl, hsearch⟩ := h.pattern value hget
    obtain ⟨found, hfound⟩ := Option.isSome_iff_exists.mp hsearch
    simp only [hfound]
    exact .ok (by simp [hfound])

theorem decides_scalar (h : Reviewed readers schema) :
    Decides (scalarConstraints readers value schema) (Scalar readers value schema) := by
  have hconst : Decides (.ok ((schema.get? "const").all value.same) : Except Raised Bool)
      (∀ literal, schema.get? "const" = some literal → value.same literal) :=
    .ok (by cases schema.get? "const" <;> simp)
  unfold scalarConstraints
  cases value with
  | int value =>
    refine ((decides_enum h).andAlso fun _ => hconst.andAlso fun _ =>
      decides_numeric h (.finite value)).congr ⟨fun hall => ?_, fun hall => ?_⟩
    · exact ⟨hall.1, hall.2.1, by rintro _ ⟨⟩; exact hall.2.2, by rintro _ ⟨⟩, by rintro _ ⟨⟩⟩
    · exact ⟨hall.enum, hall.const, hall.bounds _ rfl⟩
  | float value =>
    refine ((decides_enum h).andAlso fun _ => hconst.andAlso fun _ =>
      decides_numeric h value).congr ⟨fun hall => ?_, fun hall => ?_⟩
    · exact ⟨hall.1, hall.2.1, by rintro _ ⟨⟩; exact hall.2.2, by rintro _ ⟨⟩, by rintro _ ⟨⟩⟩
    · exact ⟨hall.enum, hall.const, hall.bounds _ rfl⟩
  | str text =>
    refine ((decides_enum h).andAlso fun _ => hconst.andAlso fun _ =>
      (decides_length text.length (h.lengths _ (by simp)) (h.lengths _ (by simp))).andAlso
        fun _ => decides_pattern h text).congr ⟨fun hall => ?_, fun hall => ?_⟩
    · exact ⟨hall.1, hall.2.1, by rintro _ ⟨⟩, by rintro _ ⟨⟩; exact hall.2.2.1,
        by rintro _ ⟨⟩; exact hall.2.2.2⟩
    · exact ⟨hall.enum, hall.const, hall.lengths _ rfl, hall.pattern _ rfl⟩
  | _ =>
    refine ((decides_enum h).andAlso fun _ => hconst.andAlso fun _ =>
      Decides.ok (iff_of_true rfl trivial)).congr ⟨fun hall => ?_, fun hall => ?_⟩
    · exact ⟨hall.1, hall.2.1, by rintro _ ⟨⟩, by rintro _ ⟨⟩, by rintro _ ⟨⟩⟩
    · exact ⟨hall.enum, hall.const, trivial⟩

theorem decides_unionType (h : Reviewed readers schema) :
    Decides (unionType value schema) (∀ type, (schema.get? "anyOf").isSome →
      schema.get? "type" = some type → OfType value (.object [("type", type)])) := by
  unfold unionType
  cases hunion : schema.get? "anyOf" with
  | none => exact .ok (by simp)
  | some choices =>
    cases htype : schema.get? "type" with
    | none => exact .ok (by simp)
    | some type =>
      obtain ⟨kinds, hkinds⟩ := h.unionType type (by rw [hunion]; rfl) htype
      simp only [hkinds]
      exact .ok (by simp [OfType, hkinds])

theorem decides_validValue (value : JsonValue) {schema : JsonValue} (h : Supported readers schema) :
    Decides (validValue readers value schema) (Satisfies readers value schema) := by
  rw [validValue.eq_def, Satisfies.eq_def]
  by_cases hempty : schema.isEmpty
  · rw [if_pos hempty, if_pos hempty]
    exact .ok Iff.rfl
  have ih : ∀ child, Part schema child → ∀ value,
      Decides (validValue readers value child) (Satisfies readers value child) :=
    fun child hpart value => decides_validValue value (h.part hpart)
  have hreviewed := h.reviewed
  obtain ⟨kinds, hkinds⟩ := hreviewed.types
  have htype : Decides (.ok (kinds.any (typeMatches value)) : Except Raised Bool)
      (OfType value schema) := .ok (by simp [OfType, hkinds])
  rw [if_neg hempty, if_neg hempty, hkinds]
  refine htype.andAlso fun _ => (decides_scalar hreviewed).andAlso fun _ =>
    (decides_unionType hreviewed).andAlso fun _ => Decides.andAlso ?_ fun _ => ?_
  · split
    · rename_i choices hget
      refine (Decides.anyOf fun choice _ => ih _ (.choice hget choice.2) value).congr ?_
      simp [hget]
    · rename_i hget
      exact .ok (iff_of_true rfl fun choices hchoices => absurd hchoices (hget choices))
  cases value with
  | object entries =>
    obtain ⟨declared, hdeclared⟩ := Option.isSome_iff_exists.mp hreviewed.properties
    obtain ⟨names, hnames⟩ := Option.isSome_iff_exists.mp hreviewed.required
    obtain ⟨others, hothers⟩ := Option.isSome_iff_exists.mp hreviewed.additional
    have hrequired : Decides (.ok (names.all fun name => (entries.lookup name).isSome) :
        Except Raised Bool) (∀ name ∈ names, (entries.lookup name).isSome) :=
      .ok (by simp)
    dsimp only
    split
    · rename_i declared' names' others' hd hn ho
      obtain rfl := Option.some.inj (hdeclared.symm.trans hd)
      obtain rfl := Option.some.inj (hnames.symm.trans hn)
      obtain rfl := Option.some.inj (hothers.symm.trans ho)
      refine (hrequired.andAlso fun _ => @Decides.allOf _ _ _ (fun entry : String × JsonValue =>
        (∀ child, declared.lookup entry.1 = some child → Satisfies readers entry.2 child) ∧
        (declared.lookup entry.1 = none → additional schema ≠ some (.allowed false) ∧
          ∀ child, additional schema = some (.schema child) →
            Satisfies readers entry.2 child)) _ fun entry _ => ?_).congr ?_
      · split
        · rename_i child hget
          refine (ih _ (.property hdeclared hget) entry.2).congr ?_
          simp [hget]
        · rename_i hget
          rw [hget, hothers]
          split
          · exact .ok (by simp)
          · rename_i child
            refine (ih _ (.additional hothers) entry.2).congr ?_
            simp
      · simp [hdeclared, hnames]
    · rename_i hnone
      exact absurd hothers (hnone _ _ _ hdeclared hnames)
  | list items =>
    refine ((decides_length items.length (hreviewed.lengths _ (by simp))
      (hreviewed.lengths _ (by simp))).andAlso fun _ => @id (Decides _ (∀ child,
        schema.get? "items" = some child → ∀ item ∈ items, Satisfies readers item child))
        ?_).congr (by simp)
    split
    · rename_i hget
      exact .ok (by simp [hget])
    · rename_i child hget
      refine (Decides.allOf fun item _ => ih _ (.item hget) item).congr ?_
      simp [hget]
  | _ => exact .ok (iff_of_true rfl ⟨by rintro _ ⟨⟩, by rintro _ ⟨⟩⟩)
termination_by sizeOf schema
decreasing_by
  exact hpart.sizeOf_lt

end Decided

end HyperParallel.ToolXml
