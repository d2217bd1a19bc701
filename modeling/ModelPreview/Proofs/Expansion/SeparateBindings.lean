import ModelPreview.Proofs.Expansion.Failure
import ModelPreview.Proofs.Expansion.Warnings

/-!
# Properties declared together and one by one

A property declaration may have several bindings. Writing each of them as a declaration of its own,
with the same attributes and keyword, changes neither the properties nor their order, and the first
fault of a declaration with bindings is that of its first faulty binding. So an expansion does not
change but in one respect: the initializer moves behind more members, and warnings lead to it by its
place.
-/

namespace ModelPreview

/-- One property declaration for each binding. -/
def Field.separated (f : Field) : List Field :=
  f.bindings.map fun b => { f with bindings := [b] }

/-- A member with its bindings, if it has any, declared one by one. -/
def Member.separated : Member → List Member
  | .field f => f.separated.map .field
  | .initializer i => [.initializer i]
  | .other kind source => [.other kind source]

/-- The declaration with all bindings of its properties declared one by one, each in place. -/
def Declaration.separated (d : Declaration) : Declaration :=
  { d with members := d.members.flatMap Member.separated }

namespace Member

theorem any_isInitializer_separated (member : Member) :
    member.separated.any isInitializer = member.isInitializer := by
  cases member with
  | field f => simp [separated, isInitializer]
  | initializer i => rfl
  | other kind source => rfl

theorem firstFault?_separated_field (f : Field) :
    firstFault? false (Member.field f).separated = f.bindings.findSome? Binding.fault? := by
  have hsingle : ∀ bindings : List Binding,
      firstFault? false (bindings.map fun b => .field { f with bindings := [b] }) =
        bindings.findSome? Binding.fault? := by
    intro bindings
    induction bindings with
    | nil => rfl
    | cons b rest ih =>
        rw [List.map_cons, firstFault?, List.findSome?_cons]
        change (Field.fault? { f with bindings := [b] }).or (firstFault? false _) = _
        rw [ih, Field.fault?, if_neg (by simp), List.findSome?_singleton]
        cases b.fault? <;> rfl
  rw [separated, Field.separated, List.map_map]
  exact hsingle f.bindings

/-- A member with bindings and its separated form have the same first fault. -/
theorem firstFault?_separated {member : Member}
    (hbound : ∀ f, member = .field f → f.bindings ≠ []) (closed : Bool) :
    firstFault? closed member.separated = member.fault? closed := by
  cases member with
  | initializer i => exact Option.or_none
  | other kind source => exact Option.or_none
  | field f =>
      have hne : f.bindings ≠ [] := hbound f rfl
      cases closed with
      | false =>
          rw [firstFault?_separated_field, fault?, if_neg (by simp), Field.fault?, if_neg hne]
      | true =>
          obtain ⟨b, rest, hbindings⟩ := List.exists_cons_of_ne_nil hne
          simp [separated, Field.separated, hbindings, firstFault?, fault?]

theorem firstFault?_flatMap_separated {members : List Member}
    (hbound : ∀ f, .field f ∈ members → f.bindings ≠ []) (closed : Bool) :
    firstFault? closed (members.flatMap separated) = firstFault? closed members := by
  induction members generalizing closed with
  | nil => rfl
  | cons member rest ih =>
      have hfirst : ∀ f, member = .field f → f.bindings ≠ [] := by
        rintro f rfl
        exact hbound f List.mem_cons_self
      have hrest : ∀ f, .field f ∈ rest → f.bindings ≠ [] :=
        fun f hf => hbound f (List.mem_cons_of_mem _ hf)
      rw [List.flatMap_cons, firstFault?_append, firstFault?_separated hfirst,
        any_isInitializer_separated, ih hrest, firstFault?]

theorem missing?_flatMap_separated (members : List Member) :
    missing? (members.flatMap separated) = missing? members := by
  rw [missing?, missing?, List.any_flatMap]
  simp only [any_isInitializer_separated]

end Member

namespace Declaration

variable {o : Options} {d : Declaration}

theorem fault?_separated (hbound : ∀ f, .field f ∈ d.members → f.bindings ≠ []) :
    d.separated.fault? o = d.fault? o := by
  have hmarked : ModelClass.isMarked o d.separated = ModelClass.isMarked o d := rfl
  unfold fault?
  rw [hmarked, separated, Member.firstFault?_flatMap_separated hbound,
    Member.missing?_flatMap_separated]

/-- The properties stay, each with a declaration that has no other bindings. -/
theorem properties_separated (d : Declaration) :
    d.separated.properties =
      d.properties.map fun source => ({ source.1 with bindings := [source.2] }, source.2) := by
  rw [properties, properties, separated, List.flatMap_assoc, List.map_flatMap]
  refine List.flatMap_congr fun member _ => ?_
  cases member with
  | field f =>
      simp only [Member.separated, Field.separated, Member.properties, List.map_map,
        List.flatMap_map, List.map_cons, List.map_nil, Function.comp_def]
      exact List.map_eq_flatMap.symm
  | initializer i => rfl
  | other kind source => rfl

/-- A property has the same field whatever other bindings its declaration has. -/
theorem forall₂_properties_separated {fields : List ModelField}
    (h : List.Forall₂ (ModelField.IsReadFrom o) d.properties fields) :
    List.Forall₂ (ModelField.IsReadFrom o) d.separated.properties fields := by
  rw [properties_separated, List.forall₂_map_left_iff]
  refine h.imp fun source field hread => ?_
  exact ⟨hread.pattern, hread.type, hread.isRelationship, hread.defaultValue, hread.keyword⟩

theorem error?_expand_separated (hbound : ∀ f, .field f ∈ d.members → f.bindings ≠ []) :
    (d.separated.expand o).error? = (d.expand o).error? := by
  rw [error?_expand, error?_expand, fault?_separated hbound, properties_separated,
    List.findSome?_map]
  rfl

/-- Where the initializer stands among the members of a declaration. -/
def initializerIndex (d : Declaration) : Nat :=
  d.members.findIdx Member.isInitializer

theorem initializerIndex_of_members {declared : List Field} {i : Initializer}
    (h : d.members = declared.map .field ++ [.initializer i]) :
    d.initializerIndex = declared.length := by
  have hfields : ¬ ∃ member ∈ declared.map Member.field, member.isInitializer = true := by
    simp [Member.isInitializer]
  rw [initializerIndex, h, List.findIdx_append, if_neg (mt List.findIdx_lt_length.mp hfields),
    List.length_map]
  exact Nat.zero_add _

theorem members_separated {declared : List Field} {i : Initializer}
    (h : d.members = declared.map .field ++ [.initializer i]) :
    d.separated.members = (declared.flatMap Field.separated).map .field ++ [.initializer i] := by
  rw [separated, h, List.flatMap_append, List.flatMap_map, List.map_flatMap]
  rfl

/-- The separated form of a model class is the same model class, but for the place of the
initializer. -/
theorem result_ofDeclaration_separated {m : ModelClass}
    (h : (ModelClass.ofDeclaration o d).result = .ok m) :
    m.initializerIndex = d.initializerIndex ∧
      (ModelClass.ofDeclaration o d.separated).result =
        .ok { m with initializerIndex := d.separated.initializerIndex } := by
  obtain ⟨hmarked, hname, declared, hmembers, hindex, hbound, hread⟩ :=
    ModelClass.result_ofDeclaration_eq_ok_iff.mp h
  have hseparated := members_separated hmembers
  refine ⟨hindex.trans (initializerIndex_of_members hmembers).symm,
    ModelClass.result_ofDeclaration_eq_ok_iff.mpr ⟨hmarked, hname, _, hseparated,
      initializerIndex_of_members hseparated, ?_, forall₂_properties_separated hread⟩⟩
  intro f hf
  obtain ⟨g, -, hg⟩ := List.mem_flatMap.mp hf
  obtain ⟨b, -, rfl⟩ := List.mem_map.mp hg
  exact List.cons_ne_nil b []

end Declaration

/-- A warning about a parameter of the initializer at `position`, and the same warning with the
initializer at `position'`. -/
def Diagnostic.Moves (position position' : Nat) (warning warning' : Diagnostic) : Prop :=
  ∃ index : Nat,
    warning.path = "/members/" ++ toString position ++ "/parameters/" ++ toString index ∧
    warning' = { warning with
      path := "/members/" ++ toString position' ++ "/parameters/" ++ toString index }

/-- Moving the initializer moves the warnings of an expansion and leaves its declarations alone. -/
theorem ModelClass.expansion_moved (o : Options) (m : ModelClass) (rs : List ResolvedField)
    (position : Nat) :
    (expansion o { m with initializerIndex := position } rs).declarations =
        (m.expansion o rs).declarations ∧
      List.Forall₂ (Diagnostic.Moves m.initializerIndex position) (m.expansion o rs).warnings
        (expansion o { m with initializerIndex := position } rs).warnings := by
  constructor
  · refine List.map_congr_left fun r _ => ?_
    cases r with
    | protocol => rfl
    | observableProtocol => rfl
    | variant v => cases v <;> rfl
  · rw [expansion, expansion, List.forall₂_map_left_iff, List.forall₂_map_right_iff,
      List.forall₂_same]
    intro s _
    refine ⟨s.index, Pointer.text_parameter _ _, ?_⟩
    rw [← Pointer.text_parameter]
    rfl

namespace Declaration

variable {o : Options} {d : Declaration}

/-- Declaring the bindings of all properties one by one keeps the error of an expansion, or else its
declarations, and its warnings lead to where the initializer has moved. -/
theorem expand_separated (hbound : ∀ f, .field f ∈ d.members → f.bindings ≠ []) :
    (∃ error, (d.expand o).result = .error error ∧
        (d.separated.expand o).result = .error error) ∨
      ∃ e e', (d.expand o).result = .ok e ∧ (d.separated.expand o).result = .ok e' ∧
        e'.declarations = e.declarations ∧
        List.Forall₂ (Diagnostic.Moves d.initializerIndex d.separated.initializerIndex)
          e.warnings e'.warnings := by
  cases hexpand : (d.expand o).result with
  | error error =>
      refine .inl ⟨error, rfl, ?_⟩
      rw [← Traced.error?_eq_some_iff, error?_expand_separated hbound,
        Traced.error?_eq_some_iff, hexpand]
  | ok e =>
      obtain ⟨m, rs, hm, hrs, rfl⟩ := result_expand_eq_ok_iff.mp hexpand
      obtain ⟨hindex, hm'⟩ := result_ofDeclaration_separated hm
      obtain ⟨hdeclarations, hwarnings⟩ :=
        m.expansion_moved o rs d.separated.initializerIndex
      rw [hindex] at hwarnings
      exact .inr ⟨_, _, rfl, result_expand_eq_ok_iff.mpr ⟨_, rs, hm', hrs, rfl⟩, hdeclarations,
        hwarnings⟩

/-- A model with two relationships in one declaration and a parameter whose type is no name. -/
def itinerary : Declaration where
  kind := .class
  name := "Itinerary"
  attributes := [⟨"Model", none⟩]
  members :=
    [.field ⟨[⟨"Relationship", none⟩], .var,
        [⟨.identifier "stops", some (.array (.named "Stop")), some "[]"⟩,
          ⟨.identifier "home", some (.optional (.named "Place")), none⟩]⟩,
      .initializer
        ⟨[], [⟨"", "byDay", none, .dictionary (.named "Int") (.named "Stop"), none, false⟩], "",
          none, "\x7b\x7d"⟩]

/-- Declared one by one, its relationships move the initializer by one, and the warning follows. -/
theorem itinerary_expand_separated :
    (∀ f, .field f ∈ itinerary.members → f.bindings ≠ []) ∧
    ∃ e e', (itinerary.expand .default).result = .ok e ∧
      (itinerary.separated.expand .default).result = .ok e' ∧
      e'.declarations = e.declarations ∧
      e.warnings.map Diagnostic.path = ["/members/1/parameters/0"] ∧
      e'.warnings.map Diagnostic.path = ["/members/2/parameters/0"] := by
  have hbound : ∀ f, .field f ∈ itinerary.members → f.bindings ≠ [] := by simp [itinerary]
  refine ⟨hbound, ?_⟩
  rcases expand_separated (o := .default) hbound with
    ⟨error, herror, -⟩ | ⟨e, e', he, he', hdeclarations, -⟩
  · cases herror
  · refine ⟨e, e', he, he', hdeclarations, ?_, ?_⟩
    · cases he
      decide
    · cases he'
      decide

end Declaration

end ModelPreview
