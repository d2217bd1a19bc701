import ModelPreview.Proofs.Schema.Acceptance
import ModelPreview.Schema.Document

/-!
# The standard meaning of schema documents

A schema document is an object of keywords, each of which asks something of a value by itself. Only
a reference hands the value on to a definition, and then no keyword beside it counts. References
may lead back to where they stand, so schemas are unfolded to a depth; a value is valid if it fits
at every depth that is large enough.

Read in this way the documents of the input format ask for what the program checks. The depth that
this takes grows with the value alone: every way from a definition to another one goes through a
field or an item.
-/

namespace ModelPreview

namespace JsonSchema

/-- Whether a value is of the named type; that integers are numbers too plays no part here. -/
def HasType : String → Json → Prop
  | "null", .null => True
  | "boolean", .bool _ => True
  | "number", .number _ => True
  | "string", .string _ => True
  | "array", .array _ => True
  | "object", .object _ => True
  | _, _ => False

/-- What a keyword asks of a value, where `fits` tells which values fit the schemas inside it.
Annotations ask for nothing, and most keywords for nothing unless the value is of some type. -/
def Asks (fits : Json → Json → Prop) (value : Json) : String × Json → Prop
  | ("type", .string name) => HasType name value
  | ("type", .array names) => ∃ name, .string name ∈ names ∧ HasType name value
  | ("enum", .array values) => value ∈ values
  | ("required", .array names) =>
    ∀ fields : Json.Fields, value = .object fields →
      ∀ name, .string name ∈ names → ∃ held, fields.get? name = some held
  | ("properties", .object properties) =>
    ∀ fields : Json.Fields, value = .object fields →
      ∀ property ∈ properties, ∀ held, fields.get? property.1 = some held → fits property.2 held
  | ("items", schema) => ∀ items, value = .array items → ∀ item ∈ items, fits schema item
  | ("minItems", .number (.integer least)) => ∀ items, value = .array items → least ≤ items.length
  | ("allOf", .array schemas) => ∀ schema ∈ schemas, fits schema value
  | ("anyOf", .array schemas) => ∃ schema ∈ schemas, fits schema value
  | ("oneOf", .array schemas) => ∃! i : Nat, ∃ schema, schemas[i]? = some schema ∧ fits schema value
  | _ => True

/-- The value fits the schema as far as it is unfolded. -/
def Fits (definitions : Json.Fields) : (depth : Nat) → Json → Json → Prop
  | depth + 1, .object keywords, value =>
    match Json.Fields.get? keywords "$ref" with
    | some target => ∃ name schema, target = .string ("#/definitions/" ++ name) ∧
        definitions.get? name = some schema ∧ Fits definitions depth schema value
    | none => ∀ keyword ∈ keywords, Asks (Fits definitions depth) value keyword
  | _, _, _ => False

/-- The definitions that a schema document brings along. -/
def definitions : Json → Json.Fields
  | .object keywords =>
    match Json.Fields.get? keywords "definitions" with
    | some (.object fields) => fields
    | _ => []
  | _ => []

/-- The value is valid under the schema document. -/
def Valid (document value : Json) : Prop :=
  ∃ least, ∀ depth, least ≤ depth → Fits (definitions document) depth document value

section Keywords

variable {fits : Json → Json → Prop} {value : Json}

theorem asks_singleton {keyword : String × Json} :
    (∀ k ∈ [keyword], Asks fits value k) ↔ Asks fits value keyword := by
  simp only [List.mem_singleton, forall_eq]

theorem asks_pair {keyword keyword' : String × Json} :
    (∀ k ∈ [keyword, keyword'], Asks fits value k) ↔
      Asks fits value keyword ∧ Asks fits value keyword' := by
  simp only [List.mem_cons, List.not_mem_nil, or_false, forall_eq_or_imp, forall_eq]

@[simp] theorem asks_type {name : String} :
    Asks fits value ("type", .string name) ↔ HasType name value := Iff.rfl

@[simp] theorem asks_types {names : List String} :
    Asks fits value ("type", .ofTexts names) ↔ ∃ name ∈ names, HasType name value := by
  show (∃ name, .string name ∈ names.map Json.string ∧ HasType name value) ↔ _
  simp

@[simp] theorem asks_enum {words : List String} :
    Asks fits value ("enum", .ofTexts words) ↔ ∃ word ∈ words, value = .string word := by
  show value ∈ words.map Json.string ↔ _
  simp [eq_comm]

@[simp] theorem asks_description {text : Json} : Asks fits value ("description", text) := trivial

@[simp] theorem asks_default {json : Json} : Asks fits value ("default", json) := trivial

/-- A description plays no part, whether there is one or not. -/
@[simp] theorem asks_ofText? {text : Option String} :
    (∀ keyword ∈ Json.Fields.ofText? "description" text, Asks fits value keyword) ↔ True := by
  cases text <;> simp [Json.Fields.ofText?]

theorem asks_required {fields : Json.Fields} {names : List String} :
    Asks fits (.object fields) ("required", .ofTexts names) ↔
      ∀ name ∈ names, ∃ held, fields.get? name = some held := by
  show (∀ fields' : Json.Fields, .object fields = Json.object fields' →
    ∀ name, .string name ∈ names.map Json.string → ∃ held, fields'.get? name = some held) ↔ _
  simp

theorem asks_properties {fields properties : Json.Fields} :
    Asks fits (.object fields) ("properties", .object properties) ↔
      ∀ property ∈ properties, ∀ held, fields.get? property.1 = some held →
        fits property.2 held := by
  constructor
  · intro h
    exact h fields rfl
  · rintro h _ ⟨⟩
    exact h

theorem asks_allOf {schema : Json} :
    Asks fits value ("allOf", .array [schema]) ↔ fits schema value :=
  List.forall_mem_singleton

theorem asks_anyOf {schema schema' : Json} :
    Asks fits value ("anyOf", .array [schema, schema']) ↔
      fits schema value ∨ fits schema' value := by
  show (∃ s ∈ [schema, schema'], fits s value) ↔ _
  simp

theorem asks_items {items : List Json} {schema : Json} :
    Asks fits (.array items) ("items", schema) ↔ ∀ item ∈ items, fits schema item := by
  constructor
  · intro h
    exact h items rfl
  · rintro h _ ⟨⟩
    exact h

theorem asks_minItems {least : Nat} :
    Asks fits value ("minItems", .ofNat least) ↔
      ∀ items, value = .array items → least ≤ items.length := by
  show (∀ items, value = .array items → (least : Int) ≤ items.length) ↔ _
  simp

theorem asks_oneOf {α : Type} {choices : List α} {schema : α → Json} :
    Asks fits value ("oneOf", .array (choices.map schema)) ↔
      ∃! i : Nat, ∃ choice, choices[i]? = some choice ∧ fits (schema choice) value := by
  refine existsUnique_congr fun i => ?_
  simp only [List.getElem?_map, Option.map_eq_some_iff]
  constructor
  · rintro ⟨_, ⟨choice, hchoice, rfl⟩, hfits⟩
    exact ⟨choice, hchoice, hfits⟩
  · rintro ⟨choice, hchoice, hfits⟩
    exact ⟨_, ⟨choice, hchoice, rfl⟩, hfits⟩

theorem hasType_string_iff : HasType "string" value ↔ ∃ s, value = .string s := by
  cases value <;> simp [HasType]

theorem hasType_object_iff : HasType "object" value ↔ ∃ fields, value = .object fields := by
  cases value <;> simp [HasType]

theorem hasType_array_iff : HasType "array" value ↔ ∃ items, value = .array items := by
  cases value <;> simp [HasType]

theorem hasType_boolean_iff : HasType "boolean" value ↔ ∃ b, value = .bool b := by
  cases value <;> simp [HasType]

theorem hasType_null_iff : HasType "null" value ↔ value = .null := by
  cases value <;> simp [HasType]

end Keywords

end JsonSchema

namespace Schema

open JsonSchema

/-- The definition that a slot refers to, if there is one. -/
def Slot.target : Slot → Option Definition
  | .one d => some d
  | .nullable d => some d
  | .list item _ => item.target
  | _ => none

/-- The objects that a definition describes. -/
def Body.forms : Body → List ObjectForm
  | .words _ => []
  | .object form => [form]
  | .oneOf forms => forms

/-- What the slot refers to is among the definitions of the document. -/
def Root.Covers (r : Root) (slot : Slot) : Prop :=
  ∀ d ∈ slot.target, d ∈ r.needs

/-- A document brings along whatever its definitions refer to. -/
theorem Root.covers_of_mem {r : Root} {d : Definition} (hd : d ∈ r.definition :: r.needs)
    {form : ObjectForm} (hform : form ∈ d.body.forms) {p : Property} (hp : p ∈ form.properties) :
    r.Covers p.slot := by
  have hall : ∀ d ∈ r.definition :: r.needs, ∀ form ∈ d.body.forms, ∀ p ∈ form.properties,
      ∀ d' ∈ p.slot.target, d' ∈ r.needs := by
    cases r <;> decide
  exact hall d hd form hform p hp

theorem Root.get?_definitions {r : Root} {d : Definition} (hd : d ∈ r.needs) :
    (definitions r.toJson).get? d.name = some (.object d.keywords) := by
  cases r <;> cases d <;>
    first
    | rfl
    | exact absurd hd (by decide)

variable {r : Root} {depth : Nat} {value : Json}

/-- A reference hands the value on, whatever stands beside it. -/
theorem fits_reference_iff {keywords : Json.Fields} {d : Definition} (hd : d ∈ r.needs)
    (hreference : keywords.get? "$ref" = some (.string ("#/definitions/" ++ d.name))) :
    Fits (definitions r.toJson) (depth + 1) (.object keywords) value ↔
      Fits (definitions r.toJson) depth (.object d.keywords) value := by
  rw [Fits, hreference]
  constructor
  · rintro ⟨name, schema, htarget, hschema, hfits⟩
    obtain rfl : d.name = name := by simpa using htarget
    rw [Root.get?_definitions hd] at hschema
    cases hschema
    exact hfits
  · intro hfits
    exact ⟨d.name, _, rfl, Root.get?_definitions hd, hfits⟩

theorem fits_definition_reference_iff {d : Definition} (hd : d ∈ r.needs) :
    Fits (definitions r.toJson) (depth + 1) d.reference value ↔
      Fits (definitions r.toJson) depth (.object d.keywords) value :=
  fits_reference_iff hd rfl

/-- Without a reference among them, all keywords count. -/
theorem fits_object_iff {definitions keywords : Json.Fields}
    (hreference : keywords.get? "$ref" = none) :
    Fits definitions (depth + 1) (.object keywords) value ↔
      ∀ keyword ∈ keywords, Asks (Fits definitions depth) value keyword := by
  rw [Fits, hreference]

/-- At this depth the properties that the document covers ask of the fields of the value what the
program checks. -/
def FieldsAgree (r : Root) (depth : Nat) (value : Json) : Prop :=
  ∀ fields : Json.Fields, value = .object fields → ∀ p : Property, r.Covers p.slot →
    ∀ held, fields.get? p.name = some held →
      (Fits (definitions r.toJson) depth p.toJson held ↔ p.slot.Accepts held)

theorem asks_form_iff (hfields : FieldsAgree r depth value) {form : ObjectForm}
    (hcovers : ∀ p ∈ form.properties, r.Covers p.slot) :
    (∀ keyword ∈ form.keywords, Asks (Fits (definitions r.toJson) depth) value keyword) ↔
      ∃ fields : Json.Fields, value = .object fields ∧ form.Accepts fields := by
  simp only [ObjectForm.keywords, typeKeyword, List.forall_mem_append, List.forall_mem_cons,
    List.not_mem_nil, false_implies, implies_true, and_true, asks_ofText?, true_and, asks_type,
    hasType_object_iff]
  constructor
  · rintro ⟨⟨fields, rfl⟩, hrequired, hproperties⟩
    rw [asks_required] at hrequired
    rw [asks_properties, List.forall_mem_map] at hproperties
    refine ⟨fields, rfl, List.forall_iff_forall_mem.mpr fun p hp => ⟨?present, ?held⟩⟩
    case present =>
      intro hneeded
      exact hrequired p.name (List.mem_map_of_mem (List.mem_filter.mpr ⟨hp, hneeded⟩))
    case held =>
      intro held hheld
      exact (hfields fields rfl p (hcovers p hp) held hheld).mp (hproperties p hp held hheld)
  · rintro ⟨fields, rfl, haccepts⟩
    rw [ObjectForm.Accepts, List.forall_iff_forall_mem] at haccepts
    rw [asks_required, asks_properties, List.forall_mem_map]
    refine ⟨⟨fields, rfl⟩, ?required, ?properties⟩
    case required =>
      intro name hname
      obtain ⟨p, hp, rfl⟩ := List.mem_map.mp hname
      obtain ⟨hp, hneeded⟩ := List.mem_filter.mp hp
      exact (haccepts p hp).present hneeded
    case properties =>
      intro p hp held hheld
      exact (hfields fields rfl p (hcovers p hp) held hheld).mpr ((haccepts p hp).held held hheld)

theorem ObjectForm.get?_keywords_reference (form : ObjectForm) :
    Json.Fields.get? form.keywords "$ref" = none := by
  simp [keywords, typeKeyword, Json.Fields.get?_append, Json.Fields.get?_ofText?,
    Json.Fields.get?_cons]

theorem Definition.get?_keywords_reference (d : Definition) :
    Json.Fields.get? d.keywords "$ref" = none := by
  cases hbody : d.body with
  | object form =>
      simp [keywords, hbody, Body.keywords, Json.Fields.get?_cons, form.get?_keywords_reference]
  | _ => simp [keywords, hbody, Body.keywords, typeKeyword, Json.Fields.get?_cons]

theorem toldApart_of_body {d : Definition} {forms : List ObjectForm}
    (hbody : d.body = .oneOf forms) : ∃ key, ToldApartBy key forms := by
  cases d with
  | member => cases hbody; exact ⟨"member", memberForms_toldApart⟩
  | pattern => cases hbody; exact ⟨"pattern", patternForms_toldApart⟩
  | typeExpression => cases hbody; exact ⟨"shape", typeForms_toldApart⟩
  | _ => cases hbody

/-- The keywords of a definition ask for what the definition says. -/
theorem asks_body_iff (hfields : FieldsAgree r depth value)
    (hfields' : FieldsAgree r (depth + 1) value) {d : Definition}
    (hd : d ∈ r.definition :: r.needs) :
    (∀ keyword ∈ d.body.keywords, Asks (Fits (definitions r.toJson) (depth + 1)) value keyword) ↔
      (Slot.one d).Accepts value := by
  cases hbody : d.body with
  | words words =>
      rw [Slot.accepts_words_iff hbody]
      refine asks_pair.trans ?_
      rw [asks_type, asks_enum, hasType_string_iff]
      constructor
      · exact fun h => h.2
      · rintro ⟨word, hword, rfl⟩
        exact ⟨⟨word, rfl⟩, word, hword, rfl⟩
  | object form =>
      rw [Slot.accepts_object_iff hbody]
      exact asks_form_iff hfields' fun p hp =>
        r.covers_of_mem hd (by rw [hbody]; exact List.mem_singleton_self form) hp
  | oneOf forms =>
      obtain ⟨key, hforms⟩ := toldApart_of_body hbody
      have hfits : ∀ form ∈ forms,
          Fits (definitions r.toJson) (depth + 1) (.object form.keywords) value ↔
            ∃ fields : Json.Fields, value = .object fields ∧ form.Accepts fields := by
        intro form hform
        rw [fits_object_iff form.get?_keywords_reference]
        exact asks_form_iff hfields fun p hp => r.covers_of_mem hd (by rw [hbody]; exact hform) hp
      rw [Slot.accepts_choice_iff hbody hforms]
      simp only [Body.keywords, List.forall_mem_singleton, asks_oneOf]
      constructor
      · rintro ⟨i, ⟨form, hi, hform⟩, -⟩
        have hmem : form ∈ forms := List.mem_of_getElem? hi
        obtain ⟨fields, rfl, haccepts⟩ := (hfits form hmem).mp hform
        exact ⟨fields, rfl, form, hmem, haccepts⟩
      · rintro ⟨fields, rfl, form, hmem, haccepts⟩
        obtain ⟨i, hi⟩ := List.mem_iff_getElem?.mp hmem
        refine ⟨i, ⟨form, hi, (hfits form hmem).mpr ⟨fields, rfl, haccepts⟩⟩, ?_⟩
        rintro j ⟨form', hj, hform'⟩
        obtain ⟨_, ⟨⟩, haccepts'⟩ := (hfits form' (List.mem_of_getElem? hj)).mp hform'
        exact hforms.index_unique hj haccepts'.describes hi haccepts.describes

theorem sizeOf_pos (json : Json) : 0 < sizeOf json := by
  cases json <;>
    simp only [Json.null.sizeOf_spec, Json.bool.sizeOf_spec, Json.number.sizeOf_spec,
      Json.string.sizeOf_spec, Json.array.sizeOf_spec, Json.object.sizeOf_spec] <;>
    omega

theorem sizeOf_lt_of_get? {fields : Json.Fields} {key : String} {held : Json}
    (h : fields.get? key = some held) : sizeOf held < sizeOf (Json.object fields) := by
  have hlt := List.sizeOf_lt_of_mem (Json.Fields.mem_of_get? h)
  simp only [Prod.mk.sizeOf_spec, Json.object.sizeOf_spec] at hlt ⊢
  omega

theorem sizeOf_lt_of_mem {items : List Json} {item : Json} (h : item ∈ items) :
    sizeOf item < sizeOf (Json.array items) := by
  have hlt := List.sizeOf_lt_of_mem h
  simp only [Json.array.sizeOf_spec]
  omega

/-- What stands beside the keywords of a slot only annotates them. -/
theorem fits_toJson_iff {definitions : Json.Fields} {p : Property}
    (hreference : (p.slot.keywords p.description.isSome).get? "$ref" = none) :
    Fits definitions (depth + 1) p.toJson value ↔
      ∀ keyword ∈ p.slot.keywords p.description.isSome,
        Asks (Fits definitions depth) value keyword := by
  rw [Property.toJson, fits_object_iff]
  · have hdefault : ∀ keyword ∈ (p.absent.map fun json => ("default", json)).toList,
        Asks (Fits definitions depth) value keyword := by
      cases p.absent <;> simp
    simp only [List.forall_mem_append, asks_ofText?, true_and]
    exact ⟨fun h => h.2, fun h => ⟨hdefault, h⟩⟩
  · cases p.absent <;>
      simp [Json.Fields.get?_append, Json.Fields.get?_ofText?, Json.Fields.get?_cons, hreference]

/-- The keywords of a property ask of a value what its slot checks. -/
theorem fits_property_iff {p : Property} (hcovers : r.Covers p.slot)
    (hdepth : 5 * sizeOf value ≤ depth) :
    Fits (definitions r.toJson) depth p.toJson value ↔ p.slot.Accepts value := by
  induction depth using Nat.strongRecOn generalizing value p with
  | ind depth ih =>
    have hpos := sizeOf_pos value
    obtain ⟨n, rfl⟩ : ∃ n, depth = n + 5 := ⟨depth - 5, by omega⟩
    -- At most five steps lead from a property to the properties of a field or an item.
    have hfields : ∀ k < 5, FieldsAgree r (n + k) value := by
      rintro k hk fields rfl q hq held hheld
      have hlt := sizeOf_lt_of_get? hheld
      exact ih (n + k) (by omega) hq (by omega)
    have hdefinition : ∀ d ∈ r.needs, ∀ k < 3,
        (Fits (definitions r.toJson) (n + k + 2) (.object d.keywords) value ↔
          (Slot.one d).Accepts value) := by
      intro d hd k hk
      rw [fits_object_iff d.get?_keywords_reference, ← asks_body_iff (hfields k (by omega))
        (hfields (k + 1) (by omega)) (List.mem_cons_of_mem _ hd)]
      simp [Definition.keywords]
    obtain ⟨name, slot, required, absent, description⟩ := p
    cases slot with
    | text =>
        rw [fits_toJson_iff (by rfl), Slot.accepts_text_iff, ← hasType_string_iff]
        exact asks_singleton.trans asks_type
    | nullableText =>
        rw [fits_toJson_iff (by rfl), Slot.accepts_nullableText_iff, ← hasType_string_iff,
          ← hasType_null_iff]
        refine asks_singleton.trans (asks_types.trans ?_)
        simp [or_comm]
    | flag =>
        rw [fits_toJson_iff (by rfl), Slot.accepts_flag_iff, ← hasType_boolean_iff]
        exact asks_singleton.trans asks_type
    | tag word =>
        rw [fits_toJson_iff (by rfl), Slot.accepts_tag_iff]
        refine asks_pair.trans ?_
        rw [asks_type, asks_enum, hasType_string_iff]
        constructor
        · rintro ⟨-, _, hword, rfl⟩
          rw [List.mem_singleton.mp hword]
        · rintro rfl
          exact ⟨⟨word, rfl⟩, word, List.mem_singleton_self word, rfl⟩
    | one d =>
        have hd : d ∈ r.needs := hcovers d rfl
        cases description with
        | none =>
            rw [Property.toJson, fits_reference_iff hd, hdefinition d hd 2 (by omega)]
            cases absent <;> simp [Json.Fields.ofText?, Slot.keywords, Json.Fields.get?_cons]
        | some text =>
            rw [fits_toJson_iff (by rfl), ← hdefinition d hd 1 (by omega),
              ← fits_definition_reference_iff hd]
            exact asks_singleton.trans asks_allOf
    | nullable d =>
        have hd : d ∈ r.needs := hcovers d rfl
        have hnull : Fits (definitions r.toJson) (n + 4) (.object (typeKeyword "null")) value ↔
            value = .null := by
          rw [fits_object_iff (by rfl), ← hasType_null_iff]
          exact asks_singleton.trans asks_type
        rw [fits_toJson_iff (by rfl), Slot.accepts_nullable_iff, ← hnull,
          ← hdefinition d hd 1 (by omega), ← fits_definition_reference_iff hd, or_comm]
        exact asks_singleton.trans asks_anyOf
    | list item least =>
        rw [fits_toJson_iff (by cases least <;> rfl), Slot.accepts_list_iff]
        have hitems : ∀ items, value = .array items → ∀ held ∈ items,
            (Fits (definitions r.toJson) (n + 4) (.object (item.keywords false)) held ↔
              item.Accepts held) := by
          rintro items rfl held hheld
          have hlt := sizeOf_lt_of_mem hheld
          have hitem : r.Covers (Property.needed "" item).slot := hcovers
          exact ih (n + 4) (by omega) hitem (by omega)
        have hleast : (∀ keyword ∈ if least = 0 then [] else [("minItems", Json.ofNat least)],
            Asks (Fits (definitions r.toJson) (n + 4)) value keyword) ↔
              ∀ items, value = .array items → least ≤ items.length := by
          split
          · next hzero => simp [hzero]
          · exact asks_singleton.trans asks_minItems
        refine (List.forall_mem_append.trans (and_congr asks_pair hleast)).trans ?_
        rw [asks_type, hasType_array_iff]
        constructor
        · rintro ⟨⟨⟨items, rfl⟩, hheld⟩, hlength⟩
          refine ⟨items, rfl, hlength items rfl, fun held hmem => ?_⟩
          exact (hitems items rfl held hmem).mp (asks_items.mp hheld held hmem)
        · rintro ⟨items, rfl, hlength, hheld⟩
          refine ⟨⟨⟨items, rfl⟩, asks_items.mpr fun held hmem => ?_⟩, ?_⟩
          · exact (hitems items rfl held hmem).mpr (hheld held hmem)
          · rintro _ ⟨⟩
            exact hlength

theorem fits_root_iff (hdepth : 5 * sizeOf value + 2 ≤ depth) :
    Fits (definitions r.toJson) depth r.toJson value ↔ r.violations value = [] := by
  obtain ⟨n, rfl⟩ : ∃ n, depth = n + 2 := ⟨depth - 2, by omega⟩
  have hfields : ∀ k, FieldsAgree r (n + k) value := by
    rintro k fields rfl p hp held hheld
    have hlt := sizeOf_lt_of_get? hheld
    exact fits_property_iff hp (by omega)
  have hbody := asks_body_iff (hfields 0) (hfields 1) List.mem_cons_self
  have hreference : Json.Fields.get? r.keywords "$ref" = none := by
    simp [Root.keywords, Json.Fields.get?_append, Json.Fields.get?_cons,
      r.definition.get?_keywords_reference]
  refine (fits_object_iff hreference).trans (Iff.trans ?_ hbody)
  simp only [Root.keywords, Definition.keywords, List.forall_mem_append]
  constructor
  · rintro ⟨⟨-, -, hkeywords⟩, -⟩
    exact hkeywords
  · intro hkeywords
    exact ⟨⟨asks_pair.mpr ⟨trivial, trivial⟩, asks_singleton.mpr asks_description, hkeywords⟩,
      asks_singleton.mpr trivial⟩

/-- The schema document of the input format accepts the values without violations. -/
theorem Root.valid_iff (r : Root) (value : Json) :
    Valid r.toJson value ↔ r.violations value = [] := by
  constructor
  · rintro ⟨least, hfits⟩
    exact (fits_root_iff (Nat.le_max_right least _)).mp (hfits _ (Nat.le_max_left least _))
  · intro hviolations
    exact ⟨5 * sizeOf value + 2, fun depth hdepth => (fits_root_iff hdepth).mpr hviolations⟩

end Schema

end ModelPreview
