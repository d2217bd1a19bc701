import ModelPreview.Proofs.Expansion.Contents

/-!
# References between the expansions of a batch

Each declaration of a batch is expanded by itself, and names in its expansion refer to declarations
generated for others. They are found there as soon as every target of a relationship is the name
of some declaration of the batch, since both sides derive the name from the target's by the same
rule. Nothing is assumed about the rule, or about which declarations point to which.
-/

namespace ModelPreview

/-- In the expansions of `ds`, the declaration that plays the part `r` for a model called `model`
is called `name`. -/
def NamesGenerated (o : Options) (ds : List Declaration) (r : Role) (model name : String) : Prop :=
  ∃ d ∈ ds, d.name = model ∧
    ∃ e, (d.expand o).result = .ok e ∧
      ∃ g ∈ e.declarations, e.inRole o r = some g ∧ g.kind = r.kind ∧ g.name = name

/-- Every target of a relationship is the name of a declaration of the batch. -/
def TargetsDeclared (o : Options) (ds : List Declaration) : Prop :=
  ∀ d ∈ ds, ∀ source ∈ d.properties, ModelClass.isRelationship o source.1 →
    ∀ t w, source.2.type = some t → t.unwrap = .ok w → ∃ target ∈ ds, target.name = w.name

/-- The expansion `e` of `d` refers only to declarations generated for the batch `ds`. -/
structure ReferencesResolve (o : Options) (ds : List Declaration) (d : Declaration)
    (e : Expansion) : Prop where
  /-- An associated type conforms to the protocol of its target. -/
  conformance : ∀ g ∈ e.declarations, ∀ target conformance,
    .associatedType target conformance ∈ g.members →
      NamesGenerated o ds .protocol target conformance
  /-- What a declaration inherits, `Observable` aside, is a protocol of its own model. -/
  inherited : ∀ g ∈ e.declarations, ∀ name ∈ g.inherited, name ≠ "Observable" →
    ∃ r, r.kind = .protocol ∧ NamesGenerated o ds r d.name name
  /-- An entry of a where clause asks an associated type for the target's observable protocol. -/
  whereClause : ∀ g ∈ e.declarations, ∀ entry ∈ g.whereClause,
    ∃ protocol target name, e.inRole o .protocol = some protocol ∧
      target ∈ protocol.associatedNames ∧ entry = target ++ ": " ++ name ∧
      NamesGenerated o ds .observableProtocol target name
  /-- A relationship is stored in a variant under its wrappers as the target's same variant. -/
  storedType : ∀ v ∈ o.variants, ∀ g, e.inRole o (.variant v) = some g →
    ∀ (i : Nat) (f : Field) (b : Binding), d.properties[i]? = some (f, b) →
      ModelClass.isRelationship o f →
        ∃ t w name, b.type = some t ∧ t.unwrap = .ok w ∧
          g.storedTypes[i]? = some (w.textWith name) ∧
          NamesGenerated o ds (.variant v) w.name name
  /-- The parameters of a variant's initializer whose innermost name is an associated type point
  to the target's same variant, and all others are those of the source. -/
  parameter : ∀ v ∈ o.variants, ∀ g, e.inRole o (.variant v) = some g →
    ∃ source initializer protocol, .initializer source ∈ d.members ∧
      g.initializers = [initializer] ∧ e.inRole o .protocol = some protocol ∧
      initializer.parameters.length = source.parameters.length ∧
      ∀ (k : Nat) (p p' : Parameter), source.parameters[k]? = some p →
        initializer.parameters[k]? = some p' →
          (∀ w, p.type.unwrap = .ok w → w.name ∈ protocol.associatedNames →
            ∃ name, p' = { p with type := w.typeWith name } ∧
              p'.type.unwrap = .ok { w with name } ∧
              NamesGenerated o ds (.variant v) w.name name) ∧
          ((∀ w, p.type.unwrap = .ok w → w.name ∉ protocol.associatedNames) → p' = p)

namespace ModelClass

variable {o : Options} {m : ModelClass} {rs : List ResolvedField}

theorem associatedType_mem_members {r : Role} {target conformance : String}
    (h : .associatedType target conformance ∈ (m.generated o rs r).members) :
    target ∈ (ResolvedField.targets rs).names ∧ conformance = o.naming.protocolName target := by
  cases r with
  | protocol =>
      simp only [generated, protocol, List.mem_append, List.mem_map] at h
      rcases h with ⟨name, hname, h⟩ | ⟨field, -, h⟩
      · cases h
        exact ⟨hname, rfl⟩
      · cases h
  | observableProtocol => cases h
  | variant v =>
      rw [members_generated_variant, List.mem_append, List.mem_map, List.mem_singleton] at h
      rcases h with ⟨field, -, h⟩ | h <;> cases h

/-- A generated declaration inherits `Observable` and protocols of its own model only. -/
theorem exists_role_of_mem_inherited {r : Role} (hr : r ∈ o.roles) {name : String}
    (h : name ∈ (m.generated o rs r).inherited) (hne : name ≠ "Observable") :
    ∃ r' ∈ o.roles, r'.kind = .protocol ∧ name = r'.name o.naming m.name := by
  cases r with
  | protocol => cases h
  | observableProtocol =>
      obtain rfl | rfl : name = o.naming.protocolName m.name ∨ name = "Observable" := by
        simpa [generated, observableProtocol] using h
      · exact ⟨.protocol, o.protocol_mem_roles, rfl, rfl⟩
      · exact absurd rfl hne
  | variant v =>
      cases v with
      | preview =>
          obtain rfl : name = o.naming.protocolName m.name := by
            simpa [generated, ModelClass.variant] using h
          exact ⟨.protocol, o.protocol_mem_roles, rfl, rfl⟩
      | observablePreview =>
          obtain rfl : name = o.naming.observableProtocolName m.name := by
            simpa [generated, ModelClass.variant] using h
          exact ⟨.observableProtocol, Options.observableProtocol_mem_roles hr, rfl, rfl⟩

theorem exists_target_of_mem_whereClause {r : Role} {entry : String}
    (h : entry ∈ (m.generated o rs r).whereClause) :
    r = .observableProtocol ∧ ∃ target ∈ (ResolvedField.targets rs).names,
      entry = target ++ ": " ++ o.naming.observableProtocolName target := by
  cases r with
  | protocol => cases h
  | observableProtocol =>
      obtain ⟨target, htarget, rfl⟩ := List.mem_map.mp h
      exact ⟨rfl, target, htarget, rfl⟩
  | variant v => cases v <;> cases h

end ModelClass

namespace Declaration

variable {o : Options} {ds : List Declaration}

/-- A declaration of the batch has its generated declarations under their names. -/
theorem namesGenerated_of_mem (hall : ∀ d ∈ ds, ∃ e, (d.expand o).result = .ok e)
    {target : Declaration} (htarget : target ∈ ds) {r : Role} (hr : r ∈ o.roles) :
    NamesGenerated o ds r target.name (r.name o.naming target.name) := by
  obtain ⟨e, he⟩ := hall target htarget
  obtain ⟨m, rs, rfl, hname, -, -⟩ := exists_of_result_expand he
  refine ⟨target, htarget, rfl, _, he, m.generated o rs r, ?_, ModelClass.inRole_expansion hr,
    ModelClass.kind_generated r, ?_⟩
  · exact ModelClass.mem_declarations_expansion.mpr ⟨r, hr, rfl⟩
  · rw [ModelClass.name_generated, hname]

/-- A target of the fields of a declaration is declared in the batch. -/
theorem exists_declared_of_mem_targets (hclosed : TargetsDeclared o ds) {d : Declaration}
    (hd : d ∈ ds) {rs : List ResolvedField}
    (hread : List.Forall₂ (ResolvedField.IsReadFrom o) d.properties rs) {name : String}
    (hname : name ∈ (ResolvedField.targets rs).names) : ∃ target ∈ ds, target.name = name := by
  obtain ⟨source, hsource, hrelationship, t, w, ht, hunwrap, rfl⟩ :=
    ResolvedField.exists_source_of_mem_targets hread hname
  exact hclosed d hd source hsource hrelationship t w ht hunwrap

/-- In a batch of declarations that all expand and that declares the targets of its relationships,
each expansion refers only to declarations generated for the batch. -/
theorem references_resolve (hall : ∀ d ∈ ds, ∃ e, (d.expand o).result = .ok e)
    (hclosed : TargetsDeclared o ds) {d : Declaration} (hd : d ∈ ds) {e : Expansion}
    (he : (d.expand o).result = .ok e) : ReferencesResolve o ds d e := by
  obtain ⟨m, rs, rfl, hname, ⟨declared, hmembers⟩, hread⟩ := exists_of_result_expand he
  -- All references come down to two kinds: to a target, and to a role of the model itself.
  have htarget : ∀ name ∈ (ResolvedField.targets rs).names, ∀ r ∈ o.roles,
      NamesGenerated o ds r name (r.name o.naming name) := by
    intro name hmem r hr
    obtain ⟨target, hdeclared, rfl⟩ := exists_declared_of_mem_targets hclosed hd hread hmem
    exact namesGenerated_of_mem hall hdeclared hr
  have hown : ∀ r ∈ o.roles, NamesGenerated o ds r d.name (r.name o.naming d.name) :=
    fun r hr => namesGenerated_of_mem hall hd hr
  have hprotocol : (m.expansion o rs).inRole o .protocol = some (m.generated o rs .protocol) :=
    ModelClass.inRole_expansion o.protocol_mem_roles
  constructor
  case conformance =>
    intro g hg target conformance hmember
    obtain ⟨r, -, rfl⟩ := ModelClass.mem_declarations_expansion.mp hg
    obtain ⟨hmem, rfl⟩ := ModelClass.associatedType_mem_members hmember
    exact htarget target hmem .protocol o.protocol_mem_roles
  case inherited =>
    intro g hg name hinherited hne
    obtain ⟨r, hr, rfl⟩ := ModelClass.mem_declarations_expansion.mp hg
    obtain ⟨r', hr', hkind, rfl⟩ := ModelClass.exists_role_of_mem_inherited hr hinherited hne
    exact ⟨r', hkind, hname ▸ hown r' hr'⟩
  case whereClause =>
    intro g hg entry hentry
    obtain ⟨r, hr, rfl⟩ := ModelClass.mem_declarations_expansion.mp hg
    obtain ⟨rfl, target, hmem, rfl⟩ := ModelClass.exists_target_of_mem_whereClause hentry
    refine ⟨_, target, _, hprotocol, ?_, rfl, htarget target hmem .observableProtocol hr⟩
    rw [ModelClass.associatedNames_generated_protocol]
    exact hmem
  case storedType =>
    intro v hv g hg i f b hi hrelationship
    have hr := Options.variant_mem_roles.mpr hv
    obtain rfl := Option.some.inj ((ModelClass.inRole_expansion hr).symm.trans hg)
    obtain ⟨r, hri, hfield⟩ := exists_getElem?_of_forall₂ hread hi
    obtain ⟨w, hw, hunwrap⟩ := hfield.exists_target hrelationship
    have hmem : w.name ∈ (ResolvedField.targets rs).names :=
      ResolvedField.mem_names_targets.mpr ⟨r, List.mem_of_getElem? hri, w, hw, rfl⟩
    refine ⟨r.field.type, w, _, hfield.field.type, hunwrap, ?_, htarget w.name hmem _ hr⟩
    rw [ModelClass.getElem?_storedTypes hri, ResolvedField.typeText, hw]
    rfl
  case parameter =>
    intro v hv g hg
    have hr := Options.variant_mem_roles.mpr hv
    obtain rfl := Option.some.inj ((ModelClass.inRole_expansion hr).symm.trans hg)
    refine ⟨m.initializer, _, _, by simp [hmembers], ModelClass.initializers_generated_variant v,
      hprotocol, by simp [Initializer.retargeted], ?_⟩
    intro k p p' hp hp'
    rw [ModelClass.associatedNames_generated_protocol]
    obtain rfl : p.retargeted (ResolvedField.targets rs) (o.naming.variantName v) = p' := by
      simpa [Initializer.retargeted, hp] using hp'
    constructor
    · intro w hunwrap hmem
      have hpoints := Parameter.retargeted_of_mem (o.naming.variantName v) hunwrap hmem
      refine ⟨_, hpoints, ?_, htarget w.name hmem _ hr⟩
      rw [hpoints]
      exact w.unwrap_typeWith _
    · exact Parameter.retargeted_of_not_mem (o.naming.variantName v)

/-- Two models that point to each other, by a list and by an optional. -/
def authorship : List Declaration :=
  [{ kind := .class
     name := "User"
     attributes := [⟨"Model", none⟩]
     members :=
      [.field ⟨[⟨"Relationship", none⟩], .var,
          [⟨.identifier "posts", some (.array (.named "Post")), none⟩]⟩,
        .initializer
          ⟨[], [⟨"", "posts", none, .array (.named "Post"), none, false⟩], "", none,
            "\x7b\x7d"⟩] },
    { kind := .class
      name := "Post"
      attributes := [⟨"Model", none⟩]
      members :=
        [.field ⟨[⟨"InverseRelationship", none⟩], .var,
            [⟨.identifier "author", some (.optional (.named "User")), none⟩]⟩,
          .initializer
            ⟨[], [⟨"", "author", none, .optional (.named "User"), none, false⟩], "", none,
              "\x7b\x7d"⟩] }]

/-- The preview of the first model stores a list of the previews of the second. -/
theorem authorship_references_resolve :
    ∃ d ∈ authorship, ∃ e, (d.expand .default).result = .ok e ∧
      ReferencesResolve .default authorship d e ∧
      ∃ g name, e.inRole .default (.variant .preview) = some g ∧
        g.storedTypes[0]? = some ("[" ++ name ++ "]") ∧
        NamesGenerated .default authorship (.variant .preview) "Post" name := by
  have hall : ∀ d ∈ authorship, ∃ e, (d.expand .default).result = .ok e := by
    intro d hd
    obtain rfl | rfl : d = _ ∨ d = _ := by simpa [authorship] using hd
    · exact ⟨_, rfl⟩
    · exact ⟨_, rfl⟩
  have hclosed : TargetsDeclared .default authorship := by
    intro d hd source hsource _ t w ht hw
    obtain rfl | rfl : d = _ ∨ d = _ := by simpa [authorship] using hd
    · obtain rfl := List.mem_singleton.mp hsource
      cases ht
      cases hw
      exact ⟨_, List.mem_cons_of_mem _ List.mem_cons_self, rfl⟩
    · obtain rfl := List.mem_singleton.mp hsource
      cases ht
      cases hw
      exact ⟨_, List.mem_cons_self, rfl⟩
  obtain ⟨e, he⟩ := hall _ List.mem_cons_self
  have hresolve := references_resolve hall hclosed List.mem_cons_self he
  refine ⟨_, List.mem_cons_self, e, he, hresolve, ?_⟩
  cases he
  obtain ⟨t, w, name, ht, hw, hstored, hgenerated⟩ :=
    hresolve.storedType .preview (by decide) _ rfl 0 _ _ rfl rfl
  cases ht
  cases hw
  exact ⟨_, name, rfl, hstored, hgenerated⟩

end Declaration

end ModelPreview
