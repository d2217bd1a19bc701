import ModelPreview.Proofs.Expansion.Contents

/-!
# The order of properties

Every generated declaration but the observable protocol, which has no members, lists the properties
of its model in source order: the protocol as requirements behind the associated types, the variants
as stored properties in front of the initializer. Two variants differ in the type of a property only
where it names the target of a relationship.
-/

namespace ModelPreview

namespace Generated.Declaration

/-- The members are associated types, and then a requirement for each property, with its name and
its declared type. -/
def RequiresProperties (g : Declaration) (sources : List (Field × Binding)) : Prop :=
  ∃ associated requirements, g.members = associated ++ requirements ∧
    (∀ m ∈ associated, ∃ name conformance, m = .associatedType name conformance) ∧
    List.Forall₂ (fun source m => ∃ name t, source.2.pattern = .identifier name ∧
      source.2.type = some t ∧ m = .propertyRequirement name t.text) sources requirements

/-- The members are a stored property for each property, with its keyword, its name and its default
value, and then one initializer. -/
def StoresProperties (g : Declaration) (sources : List (Field × Binding)) : Prop :=
  ∃ stored i, g.members = stored ++ [.initializer i] ∧
    List.Forall₂ (fun source m => ∃ name type, source.2.pattern = .identifier name ∧
      m = .storedProperty source.1.keyword name type source.2.initializer) sources stored

/-- Two variants store the property at a position with its declared type or, if it is a
relationship, with types that have the same text around the names of the target's variants. -/
def StoreAlike (o : Options) (preview observablePreview : Declaration) (i : Nat)
    (source : Field × Binding) : Prop :=
  ∃ t, source.2.type = some t ∧
    if ModelClass.isRelationship o source.1 then
      ∃ w, t.unwrap = .ok w ∧ t.text = w.before ++ w.name ++ w.behind ∧
        preview.storedTypes[i]? = some (w.before ++ o.naming.previewName w.name ++ w.behind) ∧
        observablePreview.storedTypes[i]? =
          some (w.before ++ o.naming.observablePreviewName w.name ++ w.behind)
    else preview.storedTypes[i]? = some t.text ∧ observablePreview.storedTypes[i]? = some t.text

/-- A declaration has the kind and the name of the part that it plays for a model. -/
def Plays (o : Options) (model : String) (r : Role) (g : Declaration) : Prop :=
  g.kind = r.kind ∧ g.name = r.name o.naming model

end Generated.Declaration

namespace ModelClass

variable {o : Options} {m : ModelClass} {rs : List ResolvedField}
variable {sources : List (Field × Binding)}

theorem plays_generated (r : Role) : (m.generated o rs r).Plays o m.name r :=
  ⟨kind_generated r, name_generated r⟩

theorem requiresProperties_generated
    (h : List.Forall₂ (ResolvedField.IsReadFrom o) sources rs) :
    (m.generated o rs .protocol).RequiresProperties sources := by
  refine ⟨_, _, rfl, ?_, ?_⟩
  · intro member hmember
    obtain ⟨name, -, rfl⟩ := List.mem_map.mp hmember
    exact ⟨name, _, rfl⟩
  · rw [List.forall₂_map_right_iff]
    exact h.imp fun source r hr => ⟨_, _, hr.field.pattern, hr.field.type, rfl⟩

theorem storesProperties_generated (h : List.Forall₂ (ResolvedField.IsReadFrom o) sources rs)
    (v : Variant) : (m.generated o rs (.variant v)).StoresProperties sources := by
  refine ⟨_, _, members_generated_variant v, ?_⟩
  rw [List.forall₂_map_right_iff]
  refine h.imp fun source r hr => ⟨_, r.typeText (o.naming.variantName v), hr.field.pattern, ?_⟩
  rw [ResolvedField.storedProperty, hr.field.keyword, hr.field.defaultValue]

theorem storeAlike_generated (h : List.Forall₂ (ResolvedField.IsReadFrom o) sources rs) {i : Nat}
    {source : Field × Binding} (hi : sources[i]? = some source) :
    Generated.Declaration.StoreAlike o (m.generated o rs (.variant .preview))
      (m.generated o rs (.variant .observablePreview)) i source := by
  obtain ⟨r, hri, hr⟩ := exists_getElem?_of_forall₂ h hi
  refine ⟨r.field.type, hr.field.type, ?_⟩
  rw [getElem?_storedTypes hri, getElem?_storedTypes hri]
  split
  · next hrelationship =>
      obtain ⟨w, hw, hunwrap⟩ := hr.exists_target hrelationship
      refine ⟨w, hunwrap, ?_, ?_, ?_⟩
      · rw [← TypeExpr.unwrap_eq_ok_iff.mp hunwrap, WrappedName.text_typeWith]
        rfl
      · rw [ResolvedField.typeText, hw]
        rfl
      · rw [ResolvedField.typeText, hw]
        rfl
  · next hplain =>
      rw [ResolvedField.typeText, ResolvedField.typeText, hr.target_eq_none hplain]
      exact ⟨rfl, rfl⟩

end ModelClass

namespace Declaration

/-- What an expansion emits: a protocol and a preview, with the observable protocol and the
observable preview behind each if they are asked for. All of them list the same properties in the
same order. -/
structure EmitsInOrder (o : Options) (d : Declaration) (e : Expansion) : Prop where
  plain : o.emitObservable = false → ∃ protocol preview,
    e.declarations = [protocol, preview] ∧
    protocol.Plays o d.name .protocol ∧ protocol.RequiresProperties d.properties ∧
    preview.Plays o d.name (.variant .preview) ∧ preview.StoresProperties d.properties
  observable : o.emitObservable = true → ∃ protocol observableProtocol preview observablePreview,
    e.declarations = [protocol, observableProtocol, preview, observablePreview] ∧
    protocol.Plays o d.name .protocol ∧ protocol.RequiresProperties d.properties ∧
    observableProtocol.Plays o d.name .observableProtocol ∧ observableProtocol.members = [] ∧
    preview.Plays o d.name (.variant .preview) ∧ preview.StoresProperties d.properties ∧
    observablePreview.Plays o d.name (.variant .observablePreview) ∧
    observablePreview.StoresProperties d.properties ∧
    ∀ i source, d.properties[i]? = some source →
      Generated.Declaration.StoreAlike o preview observablePreview i source

/-- Every declaration of an expansion lists the properties of the source, in their order. -/
theorem emitsInOrder {o : Options} {d : Declaration} {e : Expansion}
    (h : (d.expand o).result = .ok e) : d.EmitsInOrder o e := by
  obtain ⟨m, rs, rfl, hname, -, hread⟩ := exists_of_result_expand h
  have hplays : ∀ r, (m.generated o rs r).Plays o d.name r := by
    intro r
    rw [← hname]
    exact ModelClass.plays_generated r
  have hrequires := ModelClass.requiresProperties_generated (m := m) hread
  have hstores : ∀ v, (m.generated o rs (.variant v)).StoresProperties d.properties :=
    ModelClass.storesProperties_generated hread
  constructor
  case plain =>
    intro hemit
    refine ⟨m.generated o rs .protocol, m.generated o rs (.variant .preview), ?_,
      hplays _, hrequires, hplays _, hstores _⟩
    simp [ModelClass.expansion, Options.roles, Options.variants, hemit]
  case observable =>
    intro hemit
    refine ⟨m.generated o rs .protocol, m.generated o rs .observableProtocol,
      m.generated o rs (.variant .preview), m.generated o rs (.variant .observablePreview), ?_,
      hplays _, hrequires, hplays _, rfl, hplays _, hstores _, hplays _, hstores _,
      fun i source hi => ModelClass.storeAlike_generated hread hi⟩
    simp [ModelClass.expansion, Options.roles, Options.variants, hemit]

/-- A model with two properties in one declaration and a relationship between others. -/
def album : Declaration where
  kind := .class
  name := "Album"
  attributes := [⟨"Model", none⟩]
  members :=
    [.field ⟨[], .let, [⟨.identifier "title", some (.named "String"), none⟩,
        ⟨.identifier "year", some (.named "Int"), some "1999"⟩]⟩,
      .field ⟨[⟨"Relationship", none⟩], .var,
        [⟨.identifier "tracks", some (.optional (.array (.named "Track"))), none⟩]⟩,
      .initializer ⟨[], [], "", none, "\x7b\x7d"⟩]

/-- The relationship is the third property of the two variants, under the same wrappers. -/
theorem album_emitsInOrder :
    ∃ e, (album.expand .default).result = .ok e ∧ album.EmitsInOrder .default e ∧
      ∃ protocol observableProtocol preview observablePreview,
        e.declarations = [protocol, observableProtocol, preview, observablePreview] ∧
        preview.storedTypes[2]? = some "[PreviewTrack]?" ∧
        observablePreview.storedTypes[2]? = some "[ObservablePreviewTrack]?" := by
  obtain ⟨e, he⟩ : ∃ e, (album.expand .default).result = .ok e := ⟨_, rfl⟩
  have horder := emitsInOrder he
  obtain ⟨protocol, observableProtocol, preview, observablePreview, hdeclarations, -, -, -, -, -,
    -, -, -, halike⟩ := horder.observable rfl
  obtain ⟨t, ht, w, hw, -, hpreview, hobservable⟩ := halike 2 _ rfl
  cases ht
  cases hw
  exact ⟨e, he, horder, protocol, observableProtocol, preview, observablePreview, hdeclarations,
    hpreview, hobservable⟩

end Declaration

end ModelPreview
