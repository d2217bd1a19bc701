import ModelPreview.Declaration.Document
import ModelPreview.Proofs.Induction
import ModelPreview.Proofs.Outcome

/-!
# Values decode from their encodings

Every type, pattern, member and declaration decodes from its own encoding, no matter how leniently.
A record is read field by field, so what has to be known of its encoding is what each key holds.
-/

namespace ModelPreview

open Json

section Values

variable {α : Type} {decode : Json → Decoded α} {encode : α → Json}

theorem Json.decodeItems_map {as : List α} (h : ∀ a ∈ as, decode (encode a) = .ok a) :
    decodeItems decode (as.map encode) = .ok as := by
  induction as with
  | nil => rfl
  | cons a as ih =>
      rw [List.map_cons, decodeItems, h a List.mem_cons_self,
        ih fun b hb => h b (List.mem_cons_of_mem a hb)]
      rfl

theorem Json.decodeList_ofTexts (texts : List String) :
    decodeList decodeText (ofTexts texts) = .ok texts :=
  decodeItems_map fun _ _ => rfl

variable {fields : Fields} {key : String}

/-- A text that was left out where there was none. -/
theorem Json.Fields.textOrNull?_of_get? {text : Option String}
    (hget : fields.get? key = text.map .string) : fields.textOrNull? key = .ok text := by
  rw [Fields.textOrNull?, Fields.decode?, hget]
  cases text <;> rfl

end Values

theorem TypeExpr.ofJson_toJson (t : TypeExpr) (lenient : Bool) :
    TypeExpr.ofJson lenient t.toJson = .ok t := by
  induction t generalizing lenient with
  | named name => rfl
  | optional wrapped ih => simp [toJson, ofJson, ofWord, Shape.table, List.lookup_cons, ih]
  | implicitlyUnwrapped wrapped ih =>
      simp [toJson, ofJson, ofWord, Shape.table, List.lookup_cons, ih]
  | array element ih => simp [toJson, ofJson, ofWord, Shape.table, List.lookup_cons, ih]
  | dictionary key value ihkey ihvalue =>
      simp [toJson, ofJson, ofWord, Shape.table, List.lookup_cons, ihkey, ihvalue]
  | tuple elements ih =>
      have helements := decodeItems_map fun t ht => ih t ht true
      simp [toJson, ofJson, ofWord, Shape.table, List.lookup_cons, helements]
  | function parameters result ih ihresult =>
      have hparameters := decodeItems_map fun t ht => ih t ht true
      simp [toJson, ofJson, ofWord, Shape.table, List.lookup_cons, hparameters, ihresult]
  | generic name arguments ih =>
      have harguments := decodeItems_map fun t ht => ih t ht true
      simp [toJson, ofJson, ofWord, Shape.table, List.lookup_cons, harguments]

theorem Pattern.ofJson_toJson (p : Pattern) (lenient : Bool) :
    Pattern.ofJson lenient p.toJson = .ok p := by
  induction p generalizing lenient with
  | identifier name => rfl
  | wildcard => rfl
  | tuple elements ih =>
      have helements := decodeItems_map fun p hp => ih p hp true
      simp [toJson, ofJson, ofWord, Alternative.table, List.lookup_cons, helements]

/-- A type is no null, so it is found under a nullable field. -/
theorem TypeExpr.decodeNullable_toJson (t : TypeExpr) (lenient : Bool) :
    decodeNullable (TypeExpr.ofJson lenient) t.toJson = .ok (some t) := by
  have hdecode : decodeNullable (TypeExpr.ofJson lenient) t.toJson =
      some <$> TypeExpr.ofJson lenient t.toJson := by
    cases t <;> rfl
  rw [hdecode, t.ofJson_toJson lenient]
  rfl

theorem Attribute.get?_arguments (a : Attribute) :
    a.toFields.get? "arguments" = a.arguments.map .string := by
  simp [toFields, Fields.get?_cons, Fields.get?_ofText?]

theorem Attribute.ofJson_toJson (a : Attribute) : Attribute.ofJson a.toJson = .ok a := by
  have harguments : a.toFields.textOrNull? "arguments" = .ok a.arguments :=
    Fields.textOrNull?_of_get? a.get?_arguments
  have hname : a.toFields.decode? "name" decodeText = .ok (some a.name) := by
    simp [toFields]
  simp [Attribute.ofJson, toJson, decodeFields, harguments, hname]

theorem Binding.get?_initializer (b : Binding) :
    b.toFields.get? "initializer" = b.initializer.map .string := by
  obtain ⟨pattern, type, initializer⟩ := b
  cases type <;> simp [toFields, Fields.get?_cons, Fields.get?_ofText?]

theorem Binding.get?_type (b : Binding) :
    b.toFields.get? "type_annotation" = b.type.map TypeExpr.toJson := by
  obtain ⟨pattern, type, initializer⟩ := b
  cases type <;> simp [toFields, Fields.get?_cons, Fields.get?_ofText?]

theorem Binding.ofJson_toJson (b : Binding) (lenient : Bool) :
    Binding.ofJson lenient b.toJson = .ok b := by
  have hinitializer : b.toFields.textOrNull? "initializer" = .ok b.initializer :=
    Fields.textOrNull?_of_get? b.get?_initializer
  have hpattern : b.toFields.decode? "pattern" (Pattern.ofJson lenient) = .ok (some b.pattern) := by
    simp [toFields, b.pattern.ofJson_toJson]
  obtain ⟨type, htype, hjoin⟩ : ∃ type,
      b.toFields.decode? "type_annotation" (decodeNullable (TypeExpr.ofJson lenient)) = .ok type ∧
        type.join = b.type := by
    rw [Fields.decode?, b.get?_type]
    cases b.type with
    | none => exact ⟨none, rfl, rfl⟩
    | some t => exact ⟨some (some t), by simp [t.decodeNullable_toJson], rfl⟩
  simp [Binding.ofJson, toJson, decodeFields, hinitializer, hpattern, htype, hjoin]

theorem Parameter.get?_secondName (p : Parameter) :
    p.toFields.get? "second_name" = p.secondName.map .string := by
  simp [toFields, Fields.get?_append, Fields.get?_cons, Fields.get?_ofText?]

theorem Parameter.get?_defaultValue (p : Parameter) :
    p.toFields.get? "default_value" = p.defaultValue.map .string := by
  simp [toFields, Fields.get?_append, Fields.get?_cons, Fields.get?_ofText?]

theorem Parameter.get?_trailingComma (p : Parameter) :
    p.toFields.get? "trailing_comma" = some (.bool p.trailingComma) := by
  simp [toFields, Fields.get?_append, Fields.get?_cons, Fields.get?_ofText?]

theorem Parameter.get?_type (p : Parameter) :
    p.toFields.get? "type" = some p.type.toJson := by
  simp [toFields, Fields.get?_append, Fields.get?_cons, Fields.get?_ofText?]

theorem Parameter.ofJson_toJson (p : Parameter) (lenient : Bool) :
    Parameter.ofJson lenient p.toJson = .ok p := by
  have hdefault : p.toFields.textOrNull? "default_value" = .ok p.defaultValue :=
    Fields.textOrNull?_of_get? p.get?_defaultValue
  have hfirst : p.toFields.decode? "first_name" decodeText = .ok (some p.firstName) := by
    simp [toFields]
  have hleading : p.toFields.decode? "leading_trivia" decodeText = .ok (some p.leadingTrivia) := by
    simp [toFields]
  have hsecond : p.toFields.textOrNull? "second_name" = .ok p.secondName :=
    Fields.textOrNull?_of_get? p.get?_secondName
  have hcomma : p.toFields.decode? "trailing_comma" decodeFlag = .ok (some p.trailingComma) :=
    Fields.decode?_of_get? p.get?_trailingComma (decodeFlag_bool _)
  have htype : p.toFields.decode? "type" (TypeExpr.ofJson lenient) = .ok (some p.type) :=
    Fields.decode?_of_get? p.get?_type (p.type.ofJson_toJson lenient)
  simp [Parameter.ofJson, toJson, decodeFields, hdefault, hfirst, hleading, hsecond, hcomma, htype]

theorem Field.ofFields_toFields (f : Field) (lenient : Bool) :
    Field.ofFields lenient f.toFields = .ok f := by
  have hattributes := decodeItems_map fun a (_ : a ∈ f.attributes) => a.ofJson_toJson
  have hbindings := decodeItems_map fun b (_ : b ∈ f.bindings) => b.ofJson_toJson lenient
  have hkeyword : decodeWord lenient BindingKeyword.table (.string f.keyword.text) =
      .ok f.keyword := by
    cases f.keyword <;> rfl
  simp [Field.ofFields, toFields, hattributes, hkeyword, hbindings]

theorem Initializer.get?_effects (i : Initializer) :
    i.toFields.get? "effects" = i.effects.map .string := by
  simp [toFields, Fields.get?_append, Fields.get?_cons, Fields.get?_ofText?]

theorem Initializer.get?_body (i : Initializer) :
    i.toFields.get? "body" = some (.string i.body) := by
  simp [toFields, Fields.get?_append, Fields.get?_cons, Fields.get?_ofText?]

theorem Initializer.ofFields_toFields (i : Initializer) (lenient : Bool) :
    Initializer.ofFields lenient i.toFields = .ok i := by
  have hparameters := decodeItems_map fun p (_ : p ∈ i.parameters) => p.ofJson_toJson lenient
  have hbody : i.toFields.decode? "body" decodeText = .ok (some i.body) :=
    Fields.decode?_of_get? i.get?_body (decodeText_string _)
  have hclosing :
      i.toFields.decode? "closing_trivia" decodeText = .ok (some i.closingTrivia) := by
    simp [toFields]
  have heffects : i.toFields.textOrNull? "effects" = .ok i.effects :=
    Fields.textOrNull?_of_get? i.get?_effects
  have hmodifiers :
      i.toFields.decode? "modifiers" (decodeList decodeText) = .ok (some i.modifiers) := by
    simp [toFields, decodeList_ofTexts]
  have hparameters : i.toFields.decode? "parameters" (decodeList (Parameter.ofJson lenient)) =
      .ok (some i.parameters) := by
    simp [toFields, hparameters]
  simp [Initializer.ofFields, hbody, hclosing, heffects, hmodifiers, hparameters]

theorem Initializer.ofJson_toJson (i : Initializer) : Initializer.ofJson i.toJson = .ok i :=
  i.ofFields_toFields false

/-- The tag of a member plays no part in what it is the tag of. -/
theorem Field.ofFields_cons_member (lenient : Bool) (json : Json) (rest : Fields) :
    Field.ofFields lenient (("member", json) :: rest) = Field.ofFields lenient rest := by
  simp [Field.ofFields]

theorem Initializer.ofFields_cons_member (lenient : Bool) (json : Json) (rest : Fields) :
    Initializer.ofFields lenient (("member", json) :: rest) =
      Initializer.ofFields lenient rest := by
  simp [Initializer.ofFields, Fields.textOrNull?]

theorem Member.ofJson_toJson (m : Member) : Member.ofJson m.toJson = .ok m := by
  cases m with
  | field f =>
      simp [Member.ofJson, toJson, toFields, decodeFields, ofWord, Alternative.table,
        Field.ofFields_cons_member, f.ofFields_toFields]
  | initializer i =>
      simp [Member.ofJson, toJson, toFields, decodeFields, ofWord, Alternative.table,
        List.lookup_cons, Initializer.ofFields_cons_member, i.ofFields_toFields]
  | other kind source => rfl

theorem Declaration.ofJson_toJson (d : Declaration) : Declaration.ofJson d.toJson = .ok d := by
  have hattributes := decodeItems_map fun a (_ : a ∈ d.attributes) => a.ofJson_toJson
  have hmembers := decodeItems_map fun m (_ : m ∈ d.members) => m.ofJson_toJson
  have hkind : decodeWord false NominalKind.table (.string d.kind.text) = .ok d.kind := by
    cases d.kind <;> rfl
  simp [Declaration.ofJson, toJson, toFields, decodeFields, hattributes, hkind, hmembers]

end ModelPreview
