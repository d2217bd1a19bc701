import ModelPreview.Proofs.Expansion.Contents

/-!
# Mutable properties

The protocol requires every property to be read and written. A variant conforms to the protocol, by
itself or through the observable protocol, and stores a property for each requirement, at the same
position. It keeps the keyword of the source, so the stored property is mutable exactly where the
source declares a variable.
-/

namespace ModelPreview

namespace Generated

def Member.isRequirement : Member → Bool
  | .propertyRequirement .. => true
  | _ => false

def Member.isStored : Member → Bool
  | .storedProperty .. => true
  | _ => false

/-- A stored property that is declared as a variable. -/
def Member.isMutable : Member → Bool
  | .storedProperty keyword .. => keyword == .var
  | _ => false

/-- The property requirements, in order. -/
def Declaration.requirements (g : Declaration) : List Member :=
  g.members.filter Member.isRequirement

/-- The stored properties, in order. -/
def Declaration.storedProperties (g : Declaration) : List Member :=
  g.members.filter Member.isStored

/-- What stands for a property in the protocol and in a variant: a requirement to read and write
it, and a stored property of the same name with the keyword of the source. -/
def KeepsKeyword (source : Field × Binding) (requirement stored : Member) : Prop :=
  ∃ name required type, source.2.pattern = .identifier name ∧
    requirement = .propertyRequirement name required ∧
    requirement.text = "var " ++ name ++ ": " ++ required ++ " \x7b get set \x7d" ∧
    stored = .storedProperty source.1.keyword name type source.2.initializer ∧
    stored.text = source.1.keyword.text ++ " " ++ name ++ ": " ++ type ++
      optionalPart " = " source.2.initializer

theorem KeepsKeyword.isMutable_iff {source : Field × Binding} {requirement stored : Member}
    (h : KeepsKeyword source requirement stored) : stored.isMutable ↔ source.1.keyword = .var := by
  obtain ⟨name, required, type, -, -, -, rfl, -⟩ := h
  exact beq_iff_eq

end Generated

/-- A declaration of an expansion conforms to a protocol by itself or through the observable
protocol. -/
def Expansion.Conforms (o : Options) (e : Expansion) (g protocol : Generated.Declaration) : Prop :=
  protocol.name ∈ g.inherited ∨
    ∃ observable, e.inRole o .observableProtocol = some observable ∧
      observable.name ∈ g.inherited ∧ protocol.name ∈ observable.inherited

namespace ModelClass

variable {o : Options} {m : ModelClass} {rs : List ResolvedField}

theorem requirements_generated_protocol :
    (m.generated o rs .protocol).requirements = rs.map ResolvedField.requirement := by
  have hassociated : ∀ names : List String,
      (names.map fun name => .associatedType name (o.naming.protocolName name)).filter
        Generated.Member.isRequirement = [] := by
    simp [Generated.Member.isRequirement]
  have hrequired : (rs.map ResolvedField.requirement).filter Generated.Member.isRequirement =
      rs.map ResolvedField.requirement := by
    simp [List.filter_eq_self, Generated.Member.isRequirement, ResolvedField.requirement]
  simp only [Generated.Declaration.requirements, generated, protocol, List.filter_append,
    hassociated, hrequired, List.nil_append]

theorem storedProperties_generated_variant (v : Variant) :
    (m.generated o rs (.variant v)).storedProperties =
      rs.map (ResolvedField.storedProperty (o.naming.variantName v)) := by
  rw [Generated.Declaration.storedProperties, members_generated_variant, List.filter_append]
  simp [List.filter_eq_self, Generated.Member.isStored, ResolvedField.storedProperty]

/-- The preview inherits the protocol, and the observable preview the observable protocol. -/
theorem conforms_generated {v : Variant} (hv : v ∈ o.variants) :
    (m.expansion o rs).Conforms o (m.generated o rs (.variant v)) (m.generated o rs .protocol) := by
  cases v with
  | preview => exact .inl (List.mem_singleton_self _)
  | observablePreview =>
      have hrole : Role.observableProtocol ∈ o.roles :=
        Options.observableProtocol_mem_roles (Options.variant_mem_roles.mpr hv)
      exact .inr ⟨_, inRole_expansion hrole, List.mem_singleton_self _, List.mem_cons_self⟩

theorem keepsKeyword_generated {source : Field × Binding} {r : ResolvedField}
    (hr : r.IsReadFrom o source) (rename : String → String) :
    Generated.KeepsKeyword source r.requirement (r.storedProperty rename) := by
  refine ⟨r.field.name, r.field.type.text, r.typeText rename, hr.field.pattern, rfl, rfl, ?_, ?_⟩
  · rw [ResolvedField.storedProperty, hr.field.keyword, hr.field.defaultValue]
  · rw [ResolvedField.storedProperty, hr.field.keyword, hr.field.defaultValue]
    rfl

end ModelClass

namespace Declaration

/-- For each property, every variant conforms to a protocol that requires to write it, and stores
it at the same position under the keyword of the source: it can be written exactly if the source
declares a variable. -/
theorem storedProperties_keep_keywords {o : Options} {d : Declaration} {e : Expansion}
    (h : (d.expand o).result = .ok e) :
    ∃ protocol, e.inRole o .protocol = some protocol ∧
      protocol.requirements.length = d.properties.length ∧
      ∀ v ∈ o.variants, ∃ variant, e.inRole o (.variant v) = some variant ∧
        e.Conforms o variant protocol ∧
        variant.storedProperties.length = d.properties.length ∧
        ∀ (i : Nat) (source : Field × Binding), d.properties[i]? = some source →
          ∃ requirement stored, protocol.requirements[i]? = some requirement ∧
            variant.storedProperties[i]? = some stored ∧
            Generated.KeepsKeyword source requirement stored ∧
            (stored.isMutable ↔ source.1.keyword = .var) := by
  obtain ⟨m, rs, rfl, -, -, hread⟩ := exists_of_result_expand h
  refine ⟨_, ModelClass.inRole_expansion o.protocol_mem_roles, ?_, fun v hv => ?_⟩
  · rw [ModelClass.requirements_generated_protocol, List.length_map, hread.length_eq]
  refine ⟨_, ModelClass.inRole_expansion (Options.variant_mem_roles.mpr hv),
    ModelClass.conforms_generated hv, ?_, fun i source hi => ?_⟩
  · rw [ModelClass.storedProperties_generated_variant, List.length_map, hread.length_eq]
  · obtain ⟨r, hri, hr⟩ := exists_getElem?_of_forall₂ hread hi
    have hkeeps := ModelClass.keepsKeyword_generated hr (o.naming.variantName v)
    refine ⟨_, _, ?_, ?_, hkeeps, hkeeps.isMutable_iff⟩
    · rw [ModelClass.requirements_generated_protocol, List.getElem?_map, hri, Option.map_some]
    · rw [ModelClass.storedProperties_generated_variant, List.getElem?_map, hri, Option.map_some]

/-- A model with a constant in front of a variable. -/
def receipt : Declaration where
  kind := .class
  name := "Receipt"
  attributes := [⟨"Model", none⟩]
  members :=
    [.field ⟨[], .let, [⟨.identifier "number", some (.named "Int"), none⟩]⟩,
      .field ⟨[], .var, [⟨.identifier "note", some (.optional (.named "String")), none⟩]⟩,
      .initializer ⟨[], [], "", none, "\x7b\x7d"⟩]

/-- The variable of the receipt can be written in its observable preview. -/
theorem receipt_note_isMutable :
    ∃ e, (receipt.expand .default).result = .ok e ∧
      ∃ protocol variant requirement stored, e.inRole .default .protocol = some protocol ∧
        e.inRole .default (.variant .observablePreview) = some variant ∧
        e.Conforms .default variant protocol ∧
        protocol.requirements[1]? = some requirement ∧
        variant.storedProperties[1]? = some stored ∧ stored.isMutable := by
  obtain ⟨e, he⟩ : ∃ e, (receipt.expand .default).result = .ok e := ⟨_, rfl⟩
  obtain ⟨protocol, hprotocol, -, hvariants⟩ := storedProperties_keep_keywords he
  obtain ⟨variant, hvariant, hconforms, -, hall⟩ := hvariants .observablePreview (by decide)
  obtain ⟨requirement, stored, hrequirement, hstored, -, hmutable⟩ := hall 1 _ rfl
  exact ⟨e, he, protocol, variant, requirement, stored, hprotocol, hvariant, hconforms,
    hrequirement, hstored, hmutable.mpr rfl⟩

/-- Not every requirement is met by a mutable property: the number of the receipt is required to be
written, and it stays a constant in the preview. -/
theorem not_all_requirements_mutable :
    ¬ ∀ (o : Options) (d : Declaration) (e : Expansion), (d.expand o).result = .ok e →
      ∀ v ∈ o.variants, ∀ protocol variant, e.inRole o .protocol = some protocol →
        e.inRole o (.variant v) = some variant →
        ∀ (i : Nat) (requirement : Generated.Member),
          protocol.requirements[i]? = some requirement →
            ∃ stored, variant.storedProperties[i]? = some stored ∧ stored.isMutable := by
  intro hall
  obtain ⟨stored, hstored, hmutable⟩ :=
    hall .default receipt _ rfl .preview (by decide) _ _ rfl rfl 0 _ rfl
  cases hstored
  cases hmutable

end Declaration

end ModelPreview
