import Mathlib.Data.List.Forall2
import ModelPreview.ModelClass
import ModelPreview.Proofs.Outcome

/-!
# The properties of a declaration

A stored property comes from one binding of a property declaration. The properties of a declaration
are listed here in source order, before anything is known about its form. Reading a model class
succeeds exactly on the supported form, and then it reads one field from each of these properties.
-/

namespace ModelPreview

/-- The bindings of a member, each with its property declaration. -/
def Member.properties : Member → List (Field × Binding)
  | .field f => f.bindings.map (f, ·)
  | .initializer _ => []
  | .other _ _ => []

/-- The bindings of all property declarations, in source order. -/
def Declaration.properties (d : Declaration) : List (Field × Binding) :=
  d.members.flatMap Member.properties

theorem Declaration.mem_properties_iff {d : Declaration} {source : Field × Binding} :
    source ∈ d.properties ↔ .field source.1 ∈ d.members ∧ source.2 ∈ source.1.bindings := by
  simp only [properties, List.mem_flatMap]
  constructor
  · rintro ⟨member, hmember, hsource⟩
    cases member with
    | field f =>
        obtain ⟨b, hb, rfl⟩ := List.mem_map.mp hsource
        exact ⟨hmember, hb⟩
    | initializer i | other kind text => cases hsource
  · rintro ⟨hmember, hb⟩
    exact ⟨_, hmember, List.mem_map_of_mem hb⟩

/-- A model field takes everything from its binding and the declaration that holds the binding. -/
structure ModelField.IsReadFrom (options : Options) (source : Field × Binding)
    (field : ModelField) : Prop where
  pattern : source.2.pattern = .identifier field.name
  type : source.2.type = some field.type
  isRelationship : field.isRelationship = ModelClass.isRelationship options source.1
  defaultValue : field.defaultValue = source.2.initializer
  keyword : field.keyword = source.1.keyword

theorem ModelField.ofBinding_eq_ok_iff {options : Options} {f : Field} {b : Binding}
    {field : ModelField} :
    ModelField.ofBinding f.keyword (ModelClass.isRelationship options f) b = .ok field ↔
      field.IsReadFrom options (f, b) := by
  constructor
  · intro h
    unfold ModelField.ofBinding at h
    split at h
    · next name type hpattern htype =>
        cases h
        exact ⟨hpattern, htype, rfl, rfl, rfl⟩
    · cases h
    · cases h
  · rintro ⟨hpattern, htype, hrelationship, hdefault, hkeyword⟩
    obtain ⟨name, type, isRelationship, defaultValue, keyword⟩ := field
    simp_all [ModelField.ofBinding]

/-- What is related to two lists in a row is two lists in a row. -/
theorem forall₂_append_left_iff {α β : Type} {R : α → β → Prop} {xs ys : List α}
    {zs : List β} :
    List.Forall₂ R (xs ++ ys) zs ↔
      ∃ us vs, List.Forall₂ R xs us ∧ List.Forall₂ R ys vs ∧ zs = us ++ vs := by
  constructor
  · intro h
    refine ⟨zs.take xs.length, zs.drop xs.length, ?_, ?_, by simp⟩
    · simpa using List.forall₂_take xs.length h
    · simpa using List.forall₂_drop xs.length h
  · rintro ⟨us, vs, hus, hvs, rfl⟩
    exact List.rel_append hus hvs

namespace ModelClass

variable {options : Options} {model : String}

theorem result_readBindings_eq_ok_iff {f : Field} {bindings : List Binding}
    {fields : List ModelField} :
    (readBindings model f.keyword (isRelationship options f) bindings).result = .ok fields ↔
      List.Forall₂ (ModelField.IsReadFrom options) (bindings.map (f, ·)) fields := by
  induction bindings generalizing fields with
  | nil => simp [readBindings, eq_comm]
  | cons b rest ih =>
      simp only [readBindings, Traced.result_bind, Traced.result_lift, Traced.result_emit,
        Except.bind_eq_ok_iff, ModelField.ofBinding_eq_ok_iff, ih, Traced.result_pure,
        List.map_cons, List.forall₂_cons_left_iff]
      constructor
      · rintro ⟨first, hfirst, _, -, others, hothers, ⟨⟩⟩
        exact ⟨first, others, hfirst, hothers, rfl⟩
      · rintro ⟨first, others, hfirst, hothers, rfl⟩
        exact ⟨first, hfirst, (), trivial, others, hothers, rfl⟩

theorem result_readField_eq_ok_iff {f : Field} {fields : List ModelField} :
    (readField options model f).result = .ok fields ↔
      f.bindings ≠ [] ∧
        List.Forall₂ (ModelField.IsReadFrom options) (Member.properties (.field f)) fields := by
  rw [readField, Traced.result_bind, Traced.result_lift, Field.boundNames, Member.properties]
  split
  · next hempty =>
      rw [List.isEmpty_iff] at hempty
      exact ⟨nofun, fun h => absurd hempty h.1⟩
  · next hne =>
      rw [List.isEmpty_iff] at hne
      change (readBindings model f.keyword _ f.bindings).result = .ok fields ↔ _
      rw [result_readBindings_eq_ok_iff]
      exact ⟨fun h => ⟨hne, h⟩, And.right⟩

theorem checkEnd_eq_ok_iff {members : List Member} {u : Unit} :
    checkEnd members = .ok u ↔ members = [] := by
  cases members with
  | nil => simp [checkEnd]
  | cons member rest => cases member <;> simp [checkEnd]

/-- Members are read successfully exactly if they are property declarations, each with a binding
and all bindings of the form that a model needs, followed by one initializer and nothing else. -/
theorem result_readMembers_eq_ok_iff {index : Nat} {members : List Member}
    {fields : List ModelField} {i : Initializer} {position : Nat} :
    (readMembers options model index members).result = .ok (fields, i, position) ↔
      ∃ declared : List Field,
        members = declared.map .field ++ [.initializer i] ∧
        position = index + declared.length ∧
        (∀ f ∈ declared, f.bindings ≠ []) ∧
        List.Forall₂ (ModelField.IsReadFrom options) (members.flatMap Member.properties)
          fields := by
  -- A property declaration comes in front of what the rest declares, the initializer ends it.
  induction members generalizing index fields i position with
  | nil => simp [readMembers]
  | cons member rest ih =>
      cases member with
      | field f =>
          simp only [readMembers, Traced.result_bind, Except.bind_eq_ok_iff,
            result_readField_eq_ok_iff, Prod.exists, ih, Traced.result_pure, Except.ok.injEq,
            Prod.mk.injEq]
          constructor
          · rintro ⟨own, ⟨hne, hown⟩, others, _, _, ⟨declared, rfl, rfl, hall, hothers⟩,
              rfl, rfl, rfl⟩
            refine ⟨f :: declared, rfl, by simp; omega, ?_, List.rel_append hown hothers⟩
            simpa using ⟨hne, hall⟩
          · rintro ⟨declared, hmembers, rfl, hall, hread⟩
            cases declared with
            | nil => simp at hmembers
            | cons first declared =>
                obtain ⟨rfl, rfl⟩ : f = first ∧ rest = declared.map .field ++ [.initializer i] := by
                  simpa using hmembers
                obtain ⟨own, others, hown, hothers, rfl⟩ := forall₂_append_left_iff.mp hread
                have hne := hall f (by simp)
                have hrest : ∀ g ∈ declared, g.bindings ≠ [] := fun g hg => hall g (by simp [hg])
                refine ⟨own, ⟨hne, hown⟩, others, i, _, ⟨declared, rfl, rfl, hrest, hothers⟩,
                  rfl, rfl, ?_⟩
                simp
                omega
      | initializer j =>
          simp only [readMembers, Traced.result_bind, Traced.result_lift, Except.bind_eq_ok_iff,
            checkEnd_eq_ok_iff, Traced.result_pure, Except.ok.injEq, Prod.mk.injEq]
          constructor
          · rintro ⟨_, rfl, rfl, rfl, rfl⟩
            exact ⟨[], rfl, rfl, by simp, .nil⟩
          · rintro ⟨declared, hmembers, rfl, -, hread⟩
            cases declared with
            | nil =>
                obtain ⟨rfl, rfl⟩ : j = i ∧ rest = [] := by simpa using hmembers
                cases hread
                exact ⟨(), rfl, rfl, rfl, rfl⟩
            | cons first declared => simp at hmembers
      | other kind source =>
          simp only [readMembers, Traced.result_fail]
          constructor
          · exact nofun
          · rintro ⟨declared, hmembers, -⟩
            cases declared <;> simp at hmembers

/-- The declarations that are model classes, and what the model class of each of them is. -/
theorem result_ofDeclaration_eq_ok_iff {d : Declaration} {m : ModelClass} :
    (ofDeclaration options d).result = .ok m ↔
      isMarked options d ∧ m.name = d.name ∧
        ∃ declared : List Field,
          d.members = declared.map .field ++ [.initializer m.initializer] ∧
          m.initializerIndex = declared.length ∧
          (∀ f ∈ declared, f.bindings ≠ []) ∧
          List.Forall₂ (ModelField.IsReadFrom options) d.properties m.fields := by
  unfold ofDeclaration
  split
  · next hmarked =>
      simp only [Traced.result_bind, Except.bind_eq_ok_iff, Prod.exists,
        result_readMembers_eq_ok_iff, Traced.result_pure, Except.ok.injEq, Nat.zero_add]
      constructor
      · rintro ⟨fields, i, position, hread, rfl⟩
        exact ⟨hmarked, rfl, hread⟩
      · rintro ⟨-, hname, hread⟩
        exact ⟨m.fields, m.initializer, m.initializerIndex, hread, by rw [← hname]⟩
  · next hmarked => simp [hmarked]

end ModelClass

end ModelPreview
