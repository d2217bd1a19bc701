import ModelPreview.Proofs.Expansion.AssociatedTypes
import ModelPreview.Proofs.Expansion.Batch
import ModelPreview.Proofs.Text.Identifiers

/-!
# Qualified names of relationships

The name that a relationship points to is written as it stands where only an identifier may stand:
as the name of an associated type and on the left-hand side of the where clause. A dotted path stays
a dotted path there, so all of these places hold identifiers exactly if no relationship points to a
name with a dot. Wherever else a name of the source is written, it is at its place.
-/

namespace ModelPreview

/-- The affixes keep identifiers identifiers. -/
structure Naming.KeepsIdentifiers (σ : IdentifierChars) (n : Naming) : Prop where
  protocolSuffix : σ.isBehind n.protocolSuffix
  previewPrefix : σ.isFront n.previewPrefix
  observableProtocolPrefix : σ.isFront n.observableProtocolPrefix
  observablePreviewPrefix : σ.isFront n.observablePreviewPrefix

/-- A declaration and its properties are called by identifiers, and the names in types are dotted
paths. -/
structure Declaration.IsWellNamed (σ : IdentifierChars) (d : Declaration) : Prop where
  name : σ.isIdentifier d.name
  property : ∀ source ∈ d.properties, ∀ name, source.2.pattern = .identifier name →
    σ.isIdentifier name
  type : ∀ source ∈ d.properties, ∀ t, source.2.type = some t → ∀ name, t.mentions name →
    σ.IsPath name

namespace Generated

/-- The name of a property that is required or stored. -/
def Member.propertyName? : Member → Option String
  | .propertyRequirement name _ | .storedProperty _ name _ _ => some name
  | .associatedType _ _ | .initializer _ => none

/-- The left-hand side of an entry of a where clause: all in front of the first colon. -/
def constrained (entry : String) : String :=
  .ofList (entry.toList.takeWhile (· != ':'))

theorem constrained_append {name : String} (h : ':' ∉ name.toList) (conformance : String) :
    constrained (name ++ ": " ++ conformance) = name := by
  have hname : ∀ c ∈ name.toList, (c != ':') = true := by
    intro c hc
    rw [bne_iff_ne]
    rintro rfl
    exact h hc
  rw [constrained, ← String.toList_inj, String.toList_ofList, String.append_assoc,
    String.toList_append, List.takeWhile_append_of_pos hname]
  simp

theorem Declaration.mem_associatedNames_iff {g : Declaration} {name : String} :
    name ∈ g.associatedNames ↔ ∃ conformance, .associatedType name conformance ∈ g.members := by
  rw [associatedNames, List.mem_filterMap]
  constructor
  · rintro ⟨member, hmember, hname⟩
    cases member with
    | associatedType own conformance =>
        cases hname
        exact ⟨conformance, hmember⟩
    | _ => cases hname
  · rintro ⟨conformance, hmember⟩
    exact ⟨_, hmember, rfl⟩

end Generated

/-- A relationship points to the name, and it is a path like the protocol that it conforms to. -/
structure Declaration.PointsToPath (σ : IdentifierChars) (o : Options) (d : Declaration)
    (name conformance : String) : Prop where
  pointed : name ∈ d.pointedNames o
  path : σ.IsPath name
  conformance : σ.IsPath conformance

/-- Which names of a declaration its expansion has at which places. -/
structure Declaration.PlacesNames (σ : IdentifierChars) (o : Options) (d : Declaration)
    (e : Expansion) : Prop where
  /-- Generated declarations and their properties are called by identifiers. -/
  declared : ∀ g ∈ e.declarations, σ.isIdentifier g.name ∧
    ∀ member ∈ g.members, ∀ name, member.propertyName? = some name → σ.isIdentifier name
  /-- An associated type has the name that a relationship points to. -/
  associated : ∀ g ∈ e.declarations, ∀ name conformance,
    .associatedType name conformance ∈ g.members → d.PointsToPath σ o name conformance
  /-- An entry of a where clause has such a name in front of its colon. -/
  constrained : ∀ g ∈ e.declarations, ∀ entry ∈ g.whereClause, ∃ name conformance,
    entry = name ++ ": " ++ conformance ∧ Generated.constrained entry = name ∧
      d.PointsToPath σ o name conformance
  /-- These places hold identifiers as long as no relationship points to a name with a dot. -/
  identifiers_iff : (∀ g ∈ e.declarations, (∀ name ∈ g.associatedNames, σ.isIdentifier name) ∧
      ∀ entry ∈ g.whereClause, σ.isIdentifier (Generated.constrained entry)) ↔
    ∀ name ∈ d.pointedNames o, '.' ∉ name.toList

variable {σ : IdentifierChars} {o : Options} {d : Declaration}

theorem TypeExpr.Wraps.mentions {name : String} {t : TypeExpr} (h : t.Wraps name) :
    t.mentions name := by
  obtain ⟨w, hunwrap, hname⟩ := wraps_iff.mp h
  exact (mentions_iff_of_unwrap hunwrap).mpr hname

theorem Declaration.IsWellNamed.isPath (hd : d.IsWellNamed σ) {name : String}
    (h : name ∈ d.pointedNames o) : σ.IsPath name := by
  obtain ⟨f, b, t, hf, hb, -, ht, hwraps⟩ := mem_pointedNames_iff.mp h
  exact hd.type (f, b) (mem_properties_iff.mpr ⟨hf, hb⟩) t ht name hwraps.mentions

theorem Naming.KeepsIdentifiers.isIdentifier_name {n : Naming} (hn : n.KeepsIdentifiers σ)
    {model : String} (hmodel : σ.isIdentifier model) (r : Role) :
    σ.isIdentifier (r.name n model) := by
  cases r with
  | protocol => exact IdentifierChars.isIdentifier_append hmodel hn.protocolSuffix
  | observableProtocol =>
      exact IdentifierChars.isIdentifier_front_append hn.observableProtocolPrefix hmodel
  | variant v =>
      cases v with
      | preview => exact IdentifierChars.isIdentifier_front_append hn.previewPrefix hmodel
      | observablePreview =>
          exact IdentifierChars.isIdentifier_front_append hn.observablePreviewPrefix hmodel

namespace ModelClass

variable {m : ModelClass} {rs : List ResolvedField} {r : Role}

theorem mem_names_targets_iff (hread : List.Forall₂ (ResolvedField.IsReadFrom o) d.properties rs)
    {name : String} : name ∈ (ResolvedField.targets rs).names ↔ name ∈ d.pointedNames o := by
  rw [ResolvedField.names_targets_eq hread, List.mem_eraseDups]
  rfl

/-- A generated property has the name of a field. -/
theorem exists_field_of_propertyName? {member : Generated.Member} {name : String}
    (h : member ∈ (m.generated o rs r).members) (hname : member.propertyName? = some name) :
    ∃ field ∈ rs, field.field.name = name := by
  cases r with
  | protocol =>
      obtain hassociated | hrequired := List.mem_append.mp h
      · obtain ⟨target, -, rfl⟩ := List.mem_map.mp hassociated
        cases hname
      · obtain ⟨field, hfield, rfl⟩ := List.mem_map.mp hrequired
        exact ⟨field, hfield, Option.some.inj hname⟩
  | observableProtocol => cases h
  | variant v =>
      rw [members_generated_variant, List.mem_append, List.mem_singleton] at h
      obtain hstored | rfl := h
      · obtain ⟨field, hfield, rfl⟩ := List.mem_map.mp hstored
        exact ⟨field, hfield, Option.some.inj hname⟩
      · cases hname

theorem isIdentifier_propertyName?
    (hread : List.Forall₂ (ResolvedField.IsReadFrom o) d.properties rs) (hd : d.IsWellNamed σ)
    {member : Generated.Member} {name : String} (h : member ∈ (m.generated o rs r).members)
    (hname : member.propertyName? = some name) : σ.isIdentifier name := by
  obtain ⟨field, hfield, rfl⟩ := exists_field_of_propertyName? h hname
  obtain ⟨source, hsource, hfrom⟩ := exists_mem_of_forall₂ hread hfield
  exact hd.property source hsource _ hfrom.field.pattern

theorem pointsToPath_of_associatedType
    (hread : List.Forall₂ (ResolvedField.IsReadFrom o) d.properties rs) (hd : d.IsWellNamed σ)
    (hn : o.naming.KeepsIdentifiers σ) {name conformance : String}
    (h : .associatedType name conformance ∈ (m.generated o rs r).members) :
    d.PointsToPath σ o name conformance := by
  obtain ⟨htarget, rfl⟩ := associatedType_mem_members h
  have hpointed := (mem_names_targets_iff hread).mp htarget
  have hpath := hd.isPath hpointed
  exact ⟨hpointed, hpath, hpath.append hn.protocolSuffix⟩

theorem exists_pointsToPath_of_whereClause
    (hread : List.Forall₂ (ResolvedField.IsReadFrom o) d.properties rs) (hd : d.IsWellNamed σ)
    (hn : o.naming.KeepsIdentifiers σ) {entry : String}
    (h : entry ∈ (m.generated o rs r).whereClause) :
    ∃ name conformance, entry = name ++ ": " ++ conformance ∧
      Generated.constrained entry = name ∧ d.PointsToPath σ o name conformance := by
  obtain ⟨-, name, htarget, rfl⟩ := exists_target_of_mem_whereClause h
  have hpointed := (mem_names_targets_iff hread).mp htarget
  have hpath := hd.isPath hpointed
  exact ⟨name, _, rfl, Generated.constrained_append hpath.not_mem_colon _,
    ⟨hpointed, hpath, hpath.front_append hn.observableProtocolPrefix⟩⟩

end ModelClass

namespace Declaration

/-- All names are at their places, but for names with a dot that relationships point to. -/
theorem placesNames {e : Expansion} (h : (d.expand o).result = .ok e) (hd : d.IsWellNamed σ)
    (hn : o.naming.KeepsIdentifiers σ) : d.PlacesNames σ o e := by
  obtain ⟨m, rs, rfl, hname, -, hread⟩ := exists_of_result_expand h
  constructor
  case declared =>
    intro g hg
    obtain ⟨r, -, rfl⟩ := ModelClass.mem_declarations_expansion.mp hg
    refine ⟨?_, fun member hmember name => ModelClass.isIdentifier_propertyName? hread hd hmember⟩
    rw [ModelClass.name_generated, hname]
    exact hn.isIdentifier_name hd.name r
  case associated =>
    intro g hg name conformance hmember
    obtain ⟨r, -, rfl⟩ := ModelClass.mem_declarations_expansion.mp hg
    exact ModelClass.pointsToPath_of_associatedType hread hd hn hmember
  case constrained =>
    intro g hg entry hentry
    obtain ⟨r, -, rfl⟩ := ModelClass.mem_declarations_expansion.mp hg
    exact ModelClass.exists_pointsToPath_of_whereClause hread hd hn hentry
  case identifiers_iff =>
    constructor
    · intro hall name hpointed
      have hprotocol : m.generated o rs .protocol ∈ (m.expansion o rs).declarations :=
        ModelClass.mem_declarations_expansion.mpr ⟨.protocol, o.protocol_mem_roles, rfl⟩
      have hmem : name ∈ (m.generated o rs .protocol).associatedNames := by
        rw [ModelClass.associatedNames_generated_protocol]
        exact (ModelClass.mem_names_targets_iff hread).mpr hpointed
      exact (hd.isPath hpointed).isIdentifier_iff.mp ((hall _ hprotocol).1 name hmem)
    · intro hdots g hg
      obtain ⟨r, -, rfl⟩ := ModelClass.mem_declarations_expansion.mp hg
      constructor
      · intro name hmem
        obtain ⟨conformance, hmember⟩ := Generated.Declaration.mem_associatedNames_iff.mp hmem
        have hpoints := ModelClass.pointsToPath_of_associatedType hread hd hn hmember
        exact hpoints.path.isIdentifier_iff.mpr (hdots name hpoints.pointed)
      · intro entry hentry
        obtain ⟨name, conformance, -, heq, hpoints⟩ :=
          ModelClass.exists_pointsToPath_of_whereClause hread hd hn hentry
        rw [heq]
        exact hpoints.path.isIdentifier_iff.mpr (hdots name hpoints.pointed)

/-- A model with a date and a relationship of the given type. -/
def membership (account : TypeExpr) : Declaration where
  kind := .class
  name := "Membership"
  attributes := [⟨"Model", none⟩]
  members :=
    [.field ⟨[], .var, [⟨.identifier "since", some (.named "Foundation.Date"), none⟩]⟩,
      .field ⟨[⟨"Relationship", none⟩], .var, [⟨.identifier "account", some account, none⟩]⟩,
      .initializer ⟨[], [], "", none, "\x7b\x7d"⟩]

theorem membership_isWellNamed {account : TypeExpr}
    (h : ∀ name, account.mentions name → IdentifierChars.ascii.IsPath name) :
    (membership account).IsWellNamed .ascii := by
  have hdate : IdentifierChars.ascii.IsPath "Foundation.Date" :=
    @IdentifierChars.IsPath.dotted _ "Foundation" "Date" (by decide) (.identifier (by decide))
  have hproperties : (membership account).properties =
      [(⟨[], .var, [⟨.identifier "since", some (.named "Foundation.Date"), none⟩]⟩,
          ⟨.identifier "since", some (.named "Foundation.Date"), none⟩),
        (⟨[⟨"Relationship", none⟩], .var, [⟨.identifier "account", some account, none⟩]⟩,
          ⟨.identifier "account", some account, none⟩)] := rfl
  have hname : IdentifierChars.ascii.isIdentifier "Membership" := by decide
  constructor
  case name => exact hname
  case property =>
    simp only [hproperties, List.forall_mem_cons, List.not_mem_nil, Pattern.identifier.injEq]
    refine ⟨?_, ?_, nofun⟩
    · rintro _ rfl
      decide
    · rintro _ rfl
      decide
  case type =>
    simp only [hproperties, List.forall_mem_cons, List.not_mem_nil, Option.some.injEq]
    refine ⟨?_, ?_, nofun⟩
    · rintro _ rfl name hmentions
      obtain rfl : "Foundation.Date" = name := by simpa [TypeExpr.mentions] using hmentions
      exact hdate
    · rintro _ rfl
      exact h

theorem keepsIdentifiers_default : Naming.default.KeepsIdentifiers .ascii where
  protocolSuffix := by decide
  previewPrefix := by decide
  observableProtocolPrefix := by decide
  observablePreviewPrefix := by decide

/-- With a plain name in the relationship and a path in the other property, all is well. -/
theorem membership_user_identifiers :
    ∃ e, ((membership (.optional (.named "User"))).expand .default).result = .ok e ∧
      (membership (.optional (.named "User"))).IsWellNamed .ascii ∧
      Naming.default.KeepsIdentifiers .ascii ∧
      ∀ g ∈ e.declarations, (∀ name ∈ g.associatedNames, IdentifierChars.ascii.isIdentifier name) ∧
        ∀ entry ∈ g.whereClause,
          IdentifierChars.ascii.isIdentifier (Generated.constrained entry) := by
  obtain ⟨e, he⟩ :
      ∃ e, ((membership (.optional (.named "User"))).expand .default).result = .ok e := ⟨_, rfl⟩
  have hnamed : (membership (.optional (.named "User"))).IsWellNamed .ascii := by
    apply membership_isWellNamed
    intro name hmentions
    obtain rfl : "User" = name := by simpa [TypeExpr.mentions] using hmentions
    exact .identifier (by decide)
  have hplaces := placesNames he hnamed keepsIdentifiers_default
  exact ⟨e, he, hnamed, keepsIdentifiers_default, hplaces.identifiers_iff.mpr (by decide)⟩

/-- Not every place that needs an identifier holds one: a relationship of the type `Accounts.User`
gives an associated type of this name. -/
theorem not_all_names_identifiers :
    ¬ ∀ (o : Options) (d : Declaration) (e : Expansion), (d.expand o).result = .ok e →
      d.IsWellNamed .ascii → o.naming.KeepsIdentifiers .ascii →
        ∀ g ∈ e.declarations,
          (∀ name ∈ g.associatedNames, IdentifierChars.ascii.isIdentifier name) ∧
            ∀ entry ∈ g.whereClause,
              IdentifierChars.ascii.isIdentifier (Generated.constrained entry) := by
  intro hall
  have hpath : IdentifierChars.ascii.IsPath "Accounts.User" :=
    @IdentifierChars.IsPath.dotted _ "Accounts" "User" (by decide) (.identifier (by decide))
  have hnamed : (membership (.named "Accounts.User")).IsWellNamed .ascii := by
    apply membership_isWellNamed
    intro name hmentions
    obtain rfl : "Accounts.User" = name := by simpa [TypeExpr.mentions] using hmentions
    exact hpath
  have hassociated := (hall .default (membership (.named "Accounts.User")) _ rfl hnamed
    keepsIdentifiers_default _ List.mem_cons_self).1 "Accounts.User" (by decide)
  exact absurd hassociated (by decide)

end Declaration

end ModelPreview
