import ModelPreview.Proofs.Expansion.Contents
import ModelPreview.Proofs.TypeExpr.Renaming

/-!
# Variants against the requirements of the protocol

The protocol declares an associated type for each target and requires each property with its
declared type. A variant meets a requirement if its stored property has the required type once
every associated type stands for the target's variant. Relationships always do. Any other property
keeps its declared type in the variants, so it meets its requirement only as long as its type
mentions no associated type, or the variants of targets are called like the targets themselves.
-/

namespace ModelPreview

/-- The type with each associated type replaced by the type that stands for it. -/
def TypeExpr.instantiated (associated : List String) (witness : String → String) (t : TypeExpr) :
    TypeExpr :=
  t.rename fun name => if name ∈ associated then witness name else name

/-- What the name of a variant has in front of the model's name. -/
def Naming.variantPrefix (n : Naming) : Variant → String
  | .preview => n.previewPrefix
  | .observablePreview => n.observablePreviewPrefix

theorem Naming.variantName_eq (n : Naming) (v : Variant) (model : String) :
    n.variantName v model = n.variantPrefix v ++ model := by
  cases v <;> rfl

namespace TypeExpr

/-- A wrapped target is instantiated by its variant under the same wrappers. -/
theorem text_instantiated_of_unwrap {associated : List String} {witness : String → String}
    {t : TypeExpr} {w : WrappedName} (hunwrap : t.unwrap = .ok w) (hname : w.name ∈ associated) :
    (t.instantiated associated witness).text = w.textWith (witness w.name) := by
  rw [instantiated, ← unwrap_eq_ok_iff.mp hunwrap, rename_typeWith, if_pos hname,
    WrappedName.text_typeWith]

/-- Instantiation keeps the text of a type exactly if there is nothing to replace in it, or a
replacement is called like what it replaces: any other replacement makes the text longer. -/
theorem text_instantiated_eq_text_iff {associated : List String} {naming : Naming} {v : Variant}
    {t : TypeExpr} :
    (t.instantiated associated (naming.variantName v)).text = t.text ↔
      naming.variantPrefix v = "" ∨ ∀ name ∈ associated, ¬ t.mentions name := by
  constructor
  · intro heq
    by_contra! hne
    obtain ⟨hbare, name, hassociated, hmentions⟩ := hne
    have hpositive : 0 < (naming.variantPrefix v).length := by
      rw [Nat.pos_iff_ne_zero, Ne, String.length_eq_zero_iff]
      exact hbare
    have hlonger := length_text_lt_rename
      (f := fun n => if n ∈ associated then naming.variantName v n else n)
      (fun n => by
        split
        · rw [Naming.variantName_eq, String.length_append]
          omega
        · exact Nat.le_refl _)
      (by
        rw [if_pos hassociated, Naming.variantName_eq, String.length_append]
        omega)
      t hmentions
    rw [instantiated] at heq
    rw [heq] at hlonger
    exact Nat.lt_irrefl _ hlonger
  · intro h
    have hsame : t.instantiated associated (naming.variantName v) = t := by
      refine rename_eq_self fun name hmentions => ?_
      rcases h with hbare | hnone
      · rw [Naming.variantName_eq, hbare, String.empty_append, ite_self]
      · rw [if_neg fun hassociated => hnone name hassociated hmentions]
    rw [hsame]

end TypeExpr

/-- The stored property of a field against the requirement for it. -/
theorem ResolvedField.text_instantiated_eq_typeText_iff {o : Options} {source : Field × Binding}
    {r : ResolvedField} (hr : r.IsReadFrom o source) {associated : List String}
    (htarget : ∀ w, r.target = some w → w.name ∈ associated) (v : Variant) :
    (r.field.type.instantiated associated (o.naming.variantName v)).text =
        r.typeText (o.naming.variantName v) ↔
      ModelClass.isRelationship o source.1 ∨ o.naming.variantPrefix v = "" ∨
        ∀ name ∈ associated, ¬ r.field.type.mentions name := by
  by_cases hrelationship : ModelClass.isRelationship o source.1
  · obtain ⟨w, hw, hunwrap⟩ := hr.exists_target hrelationship
    simp [hrelationship, typeText, hw,
      TypeExpr.text_instantiated_of_unwrap hunwrap (htarget w hw)]
  · simp only [hrelationship, typeText, hr.target_eq_none hrelationship,
      TypeExpr.text_instantiated_eq_text_iff, Bool.false_eq_true, false_or]

namespace Declaration

/-- Which stored properties meet their requirements: position by position the protocol requires
the declared types, and in a variant the required type of a position is the type of the stored
property exactly for relationships, for types that mention no associated type, and for variants
without a prefix. A property that is no relationship is stored with its declared type. -/
theorem storedTypes_meet_requirements_iff {o : Options} {d : Declaration} {e : Expansion}
    (h : (d.expand o).result = .ok e) {v : Variant} (hv : v ∈ o.variants) :
    ∃ protocol variant,
      e.inRole o .protocol = some protocol ∧ e.inRole o (.variant v) = some variant ∧
      protocol.requiredTypes.length = d.properties.length ∧
      variant.storedTypes.length = d.properties.length ∧
      ∀ (i : Nat) (f : Field) (b : Binding), d.properties[i]? = some (f, b) →
        ∃ (t : TypeExpr) (stored : String), b.type = some t ∧
          protocol.requiredTypes[i]? = some t.text ∧ variant.storedTypes[i]? = some stored ∧
          (¬ ModelClass.isRelationship o f → stored = t.text) ∧
          ((t.instantiated protocol.associatedNames (o.naming.variantName v)).text = stored ↔
            ModelClass.isRelationship o f ∨ o.naming.variantPrefix v = "" ∨
              ∀ name ∈ protocol.associatedNames, ¬ t.mentions name) := by
  obtain ⟨m, rs, rfl, -, -, hread⟩ := exists_of_result_expand h
  refine ⟨_, _, ModelClass.inRole_expansion o.protocol_mem_roles,
    ModelClass.inRole_expansion (Options.variant_mem_roles.mpr hv), ?_, ?_, ?_⟩
  · rw [ModelClass.requiredTypes_generated_protocol, List.length_map, hread.length_eq]
  · rw [ModelClass.storedTypes_generated_variant, List.length_map, hread.length_eq]
  · intro i f b hi
    obtain ⟨r, hri, hr⟩ := exists_getElem?_of_forall₂ hread hi
    have hmem : r ∈ rs := List.mem_of_getElem? hri
    refine ⟨r.field.type, r.typeText (o.naming.variantName v), hr.field.type,
      ModelClass.getElem?_requiredTypes hri, ModelClass.getElem?_storedTypes hri v, ?_, ?_⟩
    · intro hplain
      rw [ResolvedField.typeText, hr.target_eq_none hplain]
    · rw [ModelClass.associatedNames_generated_protocol]
      refine ResolvedField.text_instantiated_eq_typeText_iff hr (fun w hw => ?_) v
      exact ResolvedField.mem_names_targets.mpr ⟨r, hmem, w, hw, rfl⟩

/-- A model with two properties of one type, the second of which is a relationship. -/
def sharedTarget : Declaration where
  kind := .class
  name := "Post"
  attributes := [⟨"Model", none⟩]
  members :=
    [.field ⟨[], .var, [⟨.identifier "editor", some (.named "User"), none⟩]⟩,
      .field ⟨[⟨"Relationship", none⟩], .var, [⟨.identifier "author", some (.named "User"), none⟩]⟩,
      .initializer ⟨[], [], "", none, "\x7b\x7d"⟩]

/-- The relationship of the model meets its requirement. -/
theorem sharedTarget_author_meets_requirement :
    ∃ e, (sharedTarget.expand .default).result = .ok e ∧
      Variant.preview ∈ Options.default.variants ∧
      ∃ protocol variant, e.inRole .default .protocol = some protocol ∧
        e.inRole .default (.variant .preview) = some variant ∧
        protocol.requiredTypes[1]? = some "User" ∧
        variant.storedTypes[1]? = some ((TypeExpr.named "User").instantiated
          protocol.associatedNames (Naming.default.variantName .preview)).text := by
  obtain ⟨e, he⟩ : ∃ e, (sharedTarget.expand .default).result = .ok e := ⟨_, rfl⟩
  have hv : Variant.preview ∈ Options.default.variants := by decide
  obtain ⟨protocol, variant, hprotocol, hvariant, -, -, hall⟩ :=
    storedTypes_meet_requirements_iff he hv
  obtain ⟨t, stored, ht, hrequired, hstored, -, hiff⟩ := hall 1 _ _ rfl
  cases ht
  refine ⟨e, he, hv, protocol, variant, hprotocol, hvariant, hrequired, ?_⟩
  rw [hstored, ← hiff.mpr (.inl rfl)]
  rfl

/-- Not every stored property meets its requirement: the other property of the model keeps the type
`User`, while the protocol's `User` stands for `PreviewUser`. -/
theorem not_all_storedTypes_meet_requirements :
    ¬ ∀ (o : Options) (d : Declaration) (e : Expansion), (d.expand o).result = .ok e →
      ∀ v ∈ o.variants, ∀ protocol variant, e.inRole o .protocol = some protocol →
        e.inRole o (.variant v) = some variant →
        ∀ (i : Nat) (f : Field) (b : Binding) (t : TypeExpr),
          d.properties[i]? = some (f, b) → b.type = some t →
          variant.storedTypes[i]? = some (t.instantiated protocol.associatedNames
            (o.naming.variantName v)).text := by
  intro hall
  have heditor := hall .default sharedTarget _ rfl .preview (by decide) _ _ rfl rfl 0 _ _ _ rfl rfl
  exact absurd heditor (by decide)

end Declaration

end ModelPreview
