import ModelPreview.Proofs.Encoding
import ModelPreview.Proofs.Schema.Acceptance

/-!
# The schema accepts encodings

The encoding of a type, a pattern or an initializer has no violations. Of properties this holds as
soon as they have bindings: the schema asks for one, the encoding of a property does not.
-/

namespace ModelPreview

open Json Schema Slot

section Slots

variable {α : Type} {encode : α → Json}

theorem Schema.Slot.Accepts.list_map {item : Slot} {as : List α}
    (h : ∀ a ∈ as, item.Accepts (encode a)) {least : Nat} (hlength : least ≤ as.length) :
    (Slot.list item least).Accepts (.array (as.map encode)) := by
  refine accepts_list_iff.mpr ⟨_, rfl, by simpa using hlength, ?_⟩
  intro json hjson
  obtain ⟨a, ha, rfl⟩ := List.mem_map.mp hjson
  exact h a ha

theorem Schema.Slot.accepts_ofTexts (texts : List String) :
    (listOf .text).Accepts (ofTexts texts) := by
  have htexts : ∀ s ∈ texts, Slot.text.Accepts (.string s) := fun s _ => rfl
  exact .list_map htexts (Nat.zero_le _)

/-- A text that was left out where there was none. -/
theorem Schema.Property.Accepts.of_text? {p : Property} {fields : Fields} {text : Option String}
    (hrequired : p.required = false) (hslot : p.slot = .nullableText)
    (hget : fields.get? p.name = text.map .string) : p.Accepts fields := by
  cases text with
  | none => exact .of_get?_eq_none hrequired hget
  | some s => exact .of_get? hget (hslot ▸ rfl)

end Slots

theorem TypeExpr.accepts_toJson (t : TypeExpr) : (one .typeExpression).Accepts t.toJson := by
  have hchoice {i : Nat} {form : ObjectForm} (hi : typeForms[i]? = some form) {fields : Fields}
      (hfits : form.Accepts fields) : (one .typeExpression).Accepts (.object fields) :=
    (accepts_choice_iff rfl typeForms_toldApart).mpr
      ⟨fields, rfl, form, List.mem_of_getElem? hi, hfits⟩
  induction t with
  | named name => exact hchoice (i := 0) rfl ⟨.of_get? rfl rfl, .of_get? rfl rfl⟩
  | optional wrapped ih => exact hchoice (i := 1) rfl ⟨.of_get? rfl rfl, .of_get? rfl ih⟩
  | implicitlyUnwrapped wrapped ih =>
      exact hchoice (i := 2) rfl ⟨.of_get? rfl rfl, .of_get? rfl ih⟩
  | array element ih => exact hchoice (i := 3) rfl ⟨.of_get? rfl ih, .of_get? rfl rfl⟩
  | dictionary key value ihkey ihvalue =>
      exact hchoice (i := 4) rfl ⟨.of_get? rfl ihkey, .of_get? rfl rfl, .of_get? rfl ihvalue⟩
  | tuple elements ih =>
      have helements : (listOf (one .typeExpression)).Accepts (.array (toJsonAll elements)) :=
        toJsonAll_eq_map elements ▸ .list_map ih (Nat.zero_le _)
      exact hchoice (i := 5) rfl ⟨.of_get? rfl helements, .of_get? rfl rfl⟩
  | function parameters result ih ihresult =>
      have hparameters : (listOf (one .typeExpression)).Accepts (.array (toJsonAll parameters)) :=
        toJsonAll_eq_map parameters ▸ .list_map ih (Nat.zero_le _)
      exact hchoice (i := 6) rfl
        ⟨.of_get? rfl hparameters, .of_get? rfl ihresult, .of_get? rfl rfl⟩
  | generic name arguments ih =>
      have harguments : (listOf (one .typeExpression)).Accepts (.array (toJsonAll arguments)) :=
        toJsonAll_eq_map arguments ▸ .list_map ih (Nat.zero_le _)
      exact hchoice (i := 7) rfl ⟨.of_get? rfl harguments, .of_get? rfl rfl, .of_get? rfl rfl⟩

theorem Pattern.accepts_toJson (p : Pattern) : (one .pattern).Accepts p.toJson := by
  have hchoice {i : Nat} {form : ObjectForm} (hi : patternForms[i]? = some form) {fields : Fields}
      (hfits : form.Accepts fields) : (one .pattern).Accepts (.object fields) :=
    (accepts_choice_iff rfl patternForms_toldApart).mpr
      ⟨fields, rfl, form, List.mem_of_getElem? hi, hfits⟩
  induction p with
  | identifier name => exact hchoice (i := 0) rfl ⟨.of_get? rfl rfl, .of_get? rfl rfl⟩
  | wildcard => exact hchoice (i := 1) rfl (.of_get? rfl rfl)
  | tuple elements ih =>
      have helements : (listOf (one .pattern)).Accepts (.array (toJsonAll elements)) :=
        toJsonAll_eq_map elements ▸ .list_map ih (Nat.zero_le _)
      exact hchoice (i := 2) rfl ⟨.of_get? rfl helements, .of_get? rfl rfl⟩

theorem Attribute.accepts_toJson (a : Attribute) : (one .attribute).Accepts a.toJson := by
  have hfits : ObjectForm.Accepts ⟨none, attributeProperties⟩ a.toFields := by
    refine ⟨?arguments, ?name⟩
    case arguments => exact .of_text? rfl rfl a.get?_arguments
    case name => exact .of_get? rfl rfl
  exact (accepts_object_iff rfl).mpr ⟨a.toFields, rfl, hfits⟩

theorem Binding.accepts_toJson (b : Binding) : (one .patternBinding).Accepts b.toJson := by
  have hfits : ObjectForm.Accepts ⟨none, bindingProperties⟩ b.toFields := by
    refine ⟨?initializer, ?pattern, ?type⟩
    case initializer => exact .of_text? rfl rfl b.get?_initializer
    case pattern => exact .of_get? rfl b.pattern.accepts_toJson
    case type =>
      have hget := b.get?_type
      cases htype : b.type with
      | none => exact .of_get?_eq_none rfl (by rw [htype] at hget; exact hget)
      | some t =>
          rw [htype] at hget
          exact .of_get? hget (accepts_nullable_iff.mpr (.inr t.accepts_toJson))
  exact (accepts_object_iff rfl).mpr ⟨b.toFields, rfl, hfits⟩

theorem Parameter.accepts_toJson (p : Parameter) : (one .parameter).Accepts p.toJson := by
  have hfits : ObjectForm.Accepts ⟨none, parameterProperties⟩ p.toFields := by
    refine ⟨?defaultValue, ?firstName, ?leadingTrivia, ?secondName, ?comma, ?type⟩
    case defaultValue => exact .of_text? rfl rfl p.get?_defaultValue
    case firstName => exact .of_get? rfl rfl
    case leadingTrivia => exact .of_get? rfl rfl
    case secondName => exact .of_text? rfl rfl p.get?_secondName
    case comma => exact .of_get? p.get?_trailingComma rfl
    case type => exact .of_get? p.get?_type p.type.accepts_toJson
  exact (accepts_object_iff rfl).mpr ⟨p.toFields, rfl, hfits⟩

/-- A member that is no property without bindings. -/
def Member.HasBindings : Member → Prop
  | .field f => f.bindings ≠ []
  | .initializer _ => True
  | .other _ _ => True

/-- All properties of the declaration have bindings. -/
def Declaration.HasBindings (d : Declaration) : Prop :=
  ∀ m ∈ d.members, m.HasBindings

theorem BindingKeyword.accepts_text (keyword : BindingKeyword) :
    (one .bindingKind).Accepts (.string keyword.text) := by
  cases keyword <;> rfl

theorem NominalKind.accepts_text (kind : NominalKind) :
    (one .declarationKind).Accepts (.string kind.text) := by
  cases kind <;> rfl

theorem Attribute.accepts_toJson_map (as : List Attribute) :
    (listOf (one .attribute)).Accepts (.array (as.map Attribute.toJson)) :=
  .list_map (fun a _ => a.accepts_toJson) (Nat.zero_le _)

theorem Member.accepts_toJson {m : Member} (h : m.HasBindings) :
    (one .member).Accepts m.toJson := by
  have hchoice {i : Nat} {form : ObjectForm} (hi : memberForms[i]? = some form)
      (hfits : form.Accepts m.toFields) : (one .member).Accepts m.toJson :=
    (accepts_choice_iff rfl memberForms_toldApart).mpr
      ⟨m.toFields, rfl, form, List.mem_of_getElem? hi, hfits⟩
  cases m with
  | field f =>
      have hbindings : (Slot.list (one .patternBinding) 1).Accepts
          (.array (f.bindings.map Binding.toJson)) :=
        .list_map (fun b _ => b.accepts_toJson) (List.length_pos_iff.mpr h)
      refine hchoice (i := 0) rfl ⟨?attributes, ?keyword, ?bindings, .of_get? rfl rfl⟩
      case attributes => exact .of_get? rfl (Attribute.accepts_toJson_map _)
      case keyword => exact .of_get? rfl f.keyword.accepts_text
      case bindings => exact .of_get? rfl hbindings
  | initializer i =>
      have hparameters : (listOf (one .parameter)).Accepts
          (.array (i.parameters.map Parameter.toJson)) :=
        .list_map (fun p _ => p.accepts_toJson) (Nat.zero_le _)
      refine hchoice (i := 1) rfl
        ⟨?body, ?closingTrivia, ?effects, .of_get? rfl rfl, ?modifiers, ?parameters⟩
      case body => exact .of_get? i.get?_body rfl
      case closingTrivia => exact .of_get? rfl rfl
      case effects => exact .of_text? rfl rfl i.get?_effects
      case modifiers => exact .of_get? rfl (accepts_ofTexts _)
      case parameters => exact .of_get? rfl hparameters
  | other kind source =>
      exact hchoice (i := 2) rfl ⟨.of_get? rfl rfl, .of_get? rfl rfl, .of_get? rfl rfl⟩

/-- The schema tells exactly the properties without bindings from all other members. -/
theorem Member.accepts_toJson_iff {m : Member} :
    (one .member).Accepts m.toJson ↔ m.HasBindings := by
  refine ⟨fun h => ?_, accepts_toJson⟩
  cases m with
  | field f =>
      obtain ⟨fields, ⟨⟩, form, hform, hfits⟩ :=
        (accepts_choice_iff rfl memberForms_toldApart).mp h
      have hforms : memberForms.Forall fun form => form.Accepts (Member.field f).toFields →
          f.bindings ≠ [] := by
        refine ⟨?fieldForm, ?initializerForm, ?otherForm⟩
        case fieldForm =>
          rintro ⟨-, -, hbindings, -⟩ hnil
          obtain ⟨_, ⟨⟩, hlength, -⟩ := accepts_list_iff.mp (hbindings.held _ rfl)
          simp [hnil] at hlength
        case initializerForm =>
          rintro ⟨-, -, -, hmember, -⟩
          exact absurd (accepts_tag_iff.mp (hmember.held _ rfl)) (by simp)
        case otherForm =>
          rintro ⟨-, hmember, -⟩
          exact absurd (accepts_tag_iff.mp (hmember.held _ rfl)) (by simp)
      exact List.forall_iff_forall_mem.mp hforms form hform hfits
  | initializer i => trivial
  | other kind source => trivial

theorem Declaration.accepts_toJson {d : Declaration} (h : d.HasBindings) :
    (one .declaration).Accepts d.toJson := by
  have hmembers : (listOf (one .member)).Accepts (.array (d.members.map Member.toJson)) :=
    .list_map (fun m hm => Member.accepts_toJson (h m hm)) (Nat.zero_le _)
  have hfits : ObjectForm.Accepts ⟨none, declarationProperties⟩ d.toFields := by
    refine ⟨?attributes, ?kind, ?members, ?name⟩
    case attributes => exact .of_get? rfl (Attribute.accepts_toJson_map _)
    case kind => exact .of_get? rfl d.kind.accepts_text
    case members => exact .of_get? rfl hmembers
    case name => exact .of_get? rfl rfl
  exact (accepts_object_iff rfl).mpr ⟨d.toFields, rfl, hfits⟩

theorem Declaration.accepts_toJson_iff {d : Declaration} :
    (one .declaration).Accepts d.toJson ↔ d.HasBindings := by
  refine ⟨fun h m hm => ?_, accepts_toJson⟩
  obtain ⟨fields, ⟨⟩, -, -, hmembers, -⟩ := (accepts_object_iff rfl).mp h
  obtain ⟨_, ⟨⟩, -, hitems⟩ := accepts_list_iff.mp (hmembers.held _ rfl)
  exact Member.accepts_toJson_iff.mp (hitems m.toJson (List.mem_map_of_mem hm))

end ModelPreview
