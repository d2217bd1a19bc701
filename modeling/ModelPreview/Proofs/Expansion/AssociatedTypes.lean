import ModelPreview.Proofs.Expansion.Contents
import ModelPreview.Proofs.TargetNames

/-!
# The associated types of an expansion

Each relationship points to the name that its type is built around, whatever stands around the name.
These names, in source order and each at its first occurrence only, are the associated types of the
protocol and the left-hand sides of the observable protocol's where clause. Nothing else in a
declaration can add to them: neither the types of other properties nor those of the initializer's
parameters.
-/

namespace ModelPreview

/-- The name that a property points to, if it is a relationship. -/
def ModelClass.pointedName? (o : Options) (source : Field × Binding) : Option String :=
  if isRelationship o source.1 then source.2.type.bind TypeExpr.innermost? else none

/-- The names that the relationships of a declaration point to, one for each of them, in source
order. -/
def Declaration.pointedNames (o : Options) (d : Declaration) : List String :=
  d.properties.filterMap (ModelClass.pointedName? o)

theorem Declaration.mem_pointedNames_iff {o : Options} {d : Declaration} {name : String} :
    name ∈ d.pointedNames o ↔ ∃ f b t, .field f ∈ d.members ∧ b ∈ f.bindings ∧
      ModelClass.isRelationship o f ∧ b.type = some t ∧ t.Wraps name := by
  simp only [pointedNames, ModelClass.pointedName?, List.mem_filterMap, Prod.exists,
    mem_properties_iff, Option.ite_none_right_eq_some, Option.bind_eq_some_iff,
    TypeExpr.innermost?_eq_some_iff]
  constructor
  · rintro ⟨f, b, ⟨hf, hb⟩, hrelationship, t, ht, hwraps⟩
    exact ⟨f, b, t, hf, hb, hrelationship, ht, hwraps⟩
  · rintro ⟨f, b, t, hf, hb, hrelationship, ht, hwraps⟩
    exact ⟨f, b, ⟨hf, hb⟩, hrelationship, t, ht, hwraps⟩

namespace ResolvedField

variable {o : Options}

/-- The target of a field has the name that its property points to. -/
theorem IsReadFrom.targetName_eq {source : Field × Binding} {r : ResolvedField}
    (h : r.IsReadFrom o source) :
    r.target.map WrappedName.name = ModelClass.pointedName? o source := by
  unfold ModelClass.pointedName?
  split
  · next hrelationship =>
      obtain ⟨w, hw, hunwrap⟩ := h.exists_target hrelationship
      have hinnermost : r.field.type.innermost? = some w.name :=
        TypeExpr.innermost?_eq_some_iff.mpr (TypeExpr.wraps_iff.mpr ⟨w, hunwrap, rfl⟩)
      rw [hw, h.field.type, Option.map_some, Option.bind_some, hinnermost]
  · next hplain => rw [h.target_eq_none hplain, Option.map_none]

/-- The targets of fields are the names that their properties point to, each at its first
occurrence. -/
theorem names_targets_eq {sources : List (Field × Binding)} {rs : List ResolvedField}
    (h : List.Forall₂ (IsReadFrom o) sources rs) :
    (targets rs).names = (sources.filterMap (ModelClass.pointedName? o)).eraseDups := by
  have hnames : rs.filterMap (fun r => r.target.map WrappedName.name) =
      sources.filterMap (ModelClass.pointedName? o) := by
    induction h with
    | nil => rfl
    | cons hfirst _ ih => rw [List.filterMap_cons, List.filterMap_cons, hfirst.targetName_eq, ih]
  rw [targets, TargetNames.names_ofList, hnames]

end ResolvedField

namespace Declaration

/-- The protocol of an expansion has the associated types `names`, which are the names that
relationships point to, each once, and the observable protocol asks for the observable protocol of
each of them in the same order. -/
structure AssociatesTargets (o : Options) (d : Declaration) (e : Expansion)
    (names : List String) : Prop where
  nodup : names.Nodup
  /-- A name is associated exactly if some relationship's type is built around it. -/
  mem_iff : ∀ name, name ∈ names ↔ ∃ f b t, .field f ∈ d.members ∧ b ∈ f.bindings ∧
    ModelClass.isRelationship o f ∧ b.type = some t ∧ t.Wraps name
  /-- Associated types come first, each conforms to the protocol of its name, and nothing but
  requirements follows. -/
  protocol : ∃ g requirements, e.inRole o .protocol = some g ∧
    g.members =
      names.map (fun name => .associatedType name (o.naming.protocolName name)) ++ requirements ∧
    ∀ member ∈ requirements, ∃ name type, member = .propertyRequirement name type
  whereClause : o.emitObservable → ∃ g, e.inRole o .observableProtocol = some g ∧
    g.whereClause = names.map fun name => name ++ ": " ++ o.naming.observableProtocolName name

/-- The associated types of an expansion are the names that its relationships point to, in the order
in which they come up first. -/
theorem associatesTargets {o : Options} {d : Declaration} {e : Expansion}
    (h : (d.expand o).result = .ok e) : d.AssociatesTargets o e (d.pointedNames o).eraseDups := by
  obtain ⟨m, rs, rfl, -, -, hread⟩ := exists_of_result_expand h
  have hnames : (ResolvedField.targets rs).names = (d.pointedNames o).eraseDups :=
    ResolvedField.names_targets_eq hread
  constructor
  case nodup =>
    rw [← hnames]
    exact (ResolvedField.targets rs).nodup
  case mem_iff =>
    intro name
    rw [List.mem_eraseDups, mem_pointedNames_iff]
  case protocol =>
    refine ⟨_, rs.map ResolvedField.requirement,
      ModelClass.inRole_expansion o.protocol_mem_roles, ?_, fun member hmember => ?_⟩
    · rw [← hnames]
      rfl
    · obtain ⟨r, -, rfl⟩ := List.mem_map.mp hmember
      exact ⟨_, _, rfl⟩
  case whereClause =>
    intro hemit
    have hrole : .observableProtocol ∈ o.roles := by simp [Options.roles, hemit]
    refine ⟨_, ModelClass.inRole_expansion hrole, ?_⟩
    rw [← hnames]
    rfl

/-- A model whose relationships point to two names under different wrappers, and one of them more
than once, with other names in a plain property and in the initializer. -/
def anthology : Declaration where
  kind := .class
  name := "Anthology"
  attributes := [⟨"Model", none⟩]
  members :=
    [.field ⟨[⟨"Relationship", none⟩], .var,
        [⟨.identifier "stories", some (.array (.named "Story")), none⟩,
          ⟨.identifier "editor", some (.optional (.named "Author")), none⟩]⟩,
      .field ⟨[], .var, [⟨.identifier "publisher", some (.named "Publisher"), none⟩]⟩,
      .field ⟨[⟨"InverseRelationship", none⟩], .var,
        [⟨.identifier "opening", some (.named "Story"), none⟩]⟩,
      .initializer ⟨[], [⟨"", "series", none, .named "Series", none, false⟩], "", none, "\x7b\x7d"⟩]

/-- The two names are associated in the order in which they come up. -/
theorem anthology_associatesTargets :
    ∃ e, (anthology.expand .default).result = .ok e ∧
      anthology.AssociatesTargets .default e ["Story", "Author"] ∧
      ∃ g, e.inRole .default .observableProtocol = some g ∧
        g.whereClause = ["Story: ObservableStory", "Author: ObservableAuthor"] := by
  obtain ⟨e, he⟩ : ∃ e, (anthology.expand .default).result = .ok e := ⟨_, rfl⟩
  have hnames : (anthology.pointedNames .default).eraseDups = ["Story", "Author"] := by decide
  have hassociates := associatesTargets he
  rw [hnames] at hassociates
  exact ⟨e, he, hassociates, hassociates.whereClause rfl⟩

end Declaration

end ModelPreview
