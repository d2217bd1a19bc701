import ModelPreview.Proofs.ModelClass.Faults
import ModelPreview.Proofs.ModelClass.Properties

/-!
# What is logged while a model class is read

Reading goes through the members up to the first fault. Each binding that it passes is logged with
its name and whether it belongs to a relationship, and nothing else is logged, so the log tells
where reading stopped, whether it failed there or came to the end.
-/

namespace ModelPreview

/-- Reading stops at the first of some members, or at the end if there are none; `closed` says
whether an initializer stands before them. At a property declaration it may have read `properties`
before it came to a binding with a fault. -/
inductive Member.StopsAt (closed : Bool) :
    (members : List Member) → (properties : List (Field × Binding)) → Prop where
  | atEnd : StopsAt closed [] []
  /-- The member as a whole is a fault, whatever it binds. -/
  | atMember {m : Member} {rest : List Member} (hfault : m.fault? closed ≠ none)
      (hwhole : closed ∨ m.properties = []) : StopsAt closed (m :: rest) []
  | atBinding {f : Field} {before : List Binding} {b : Binding} {behind : List Binding}
      {rest : List Member} (hopen : closed = false) (hbindings : f.bindings = before ++ b :: behind)
      (hbefore : ∀ b ∈ before, b.IsPlain) (hfault : ¬ b.IsPlain) :
      StopsAt closed (.field f :: rest) (before.map (f, ·))

/-- Where no member is a fault, reading stops at the end. -/
theorem Member.StopsAt.eq_nil {closed : Bool} {members : List Member}
    {properties : List (Field × Binding)} (h : StopsAt closed members properties)
    (hnone : firstFault? closed members = none) : members = [] ∧ properties = [] := by
  cases h with
  | atEnd => exact ⟨rfl, rfl⟩
  | atMember hfault => exact absurd (Option.or_eq_none_iff.mp hnone).1 hfault
  | atBinding hopen hbindings _ hfault =>
      subst hopen
      have hplain := Field.fault?_eq_none_iff.mp (Option.or_eq_none_iff.mp hnone).1
      exact absurd (hplain.bindings _ (by simp [hbindings])) hfault

theorem Member.fault?_true_ne_none (m : Member) : m.fault? true ≠ none := by
  cases m <;> simp [fault?]

/-- An event tells that a binding was read as a property of a model. -/
def Event.Classifies (options : Options) (model : String) (source : Field × Binding)
    (event : Event) : Prop :=
  ∃ name, source.2.pattern = .identifier name ∧
    event = .fieldClassified model name (ModelClass.isRelationship options source.1)

namespace ModelClass

variable (options : Options) (model : String)

/-- The bindings in front of the first one with a fault are logged. -/
theorem exists_classifies_readBindings (f : Field) (bindings : List Binding) :
    ∃ before behind, bindings = before ++ behind ∧ (∀ b ∈ before, b.IsPlain) ∧
      (∀ b ∈ behind.head?, ¬ b.IsPlain) ∧
      List.Forall₂ (Event.Classifies options model) (before.map (f, ·))
        (readBindings model f.keyword (isRelationship options f) bindings).events := by
  induction bindings with
  | nil => exact ⟨[], [], rfl, nofun, nofun, .nil⟩
  | cons b rest ih =>
      have herror := ModelField.error?_ofBinding f.keyword (isRelationship options f) b
      cases hread : ModelField.ofBinding f.keyword (isRelationship options f) b with
      | error e =>
          rw [hread] at herror
          have hfault : ¬ b.IsPlain := by
            rw [← Binding.fault?_eq_none_iff, ← herror]
            exact nofun
          refine ⟨[], b :: rest, rfl, nofun, by simpa using hfault, ?_⟩
          rw [readBindings, hread, Traced.events_lift_error_bind]
          exact .nil
      | ok field =>
          rw [hread] at herror
          have hplain : b.IsPlain := Binding.fault?_eq_none_iff.mp herror.symm
          have hfield := ModelField.ofBinding_eq_ok_iff.mp hread
          obtain ⟨before, behind, rfl, hbefore, hbehind, hlog⟩ := ih
          refine ⟨b :: before, behind, rfl, List.forall_mem_cons.mpr ⟨hplain, hbefore⟩, hbehind, ?_⟩
          rw [readBindings, hread, Traced.events_lift_ok_bind, Traced.events_emit_bind,
            Traced.events_bind_pure, hfield.isRelationship]
          exact .cons ⟨field.name, hfield.pattern, rfl⟩ hlog

theorem events_readField (f : Field) :
    (readField options model f).events =
      (readBindings model f.keyword (isRelationship options f) f.bindings).events := by
  by_cases hempty : f.bindings = []
  · rw [readField, Field.boundNames_of_eq_nil hempty, hempty]
    rfl
  · rw [readField, Field.boundNames_of_ne_nil hempty, Traced.events_lift_ok_bind]

/-- A property declaration of the plain form is logged as a whole. -/
theorem classifies_readField {f : Field} (h : f.IsPlain) :
    List.Forall₂ (Event.Classifies options model) (Member.field f).properties
      (readField options model f).events := by
  obtain ⟨before, behind, hbindings, -, hbehind, hlog⟩ :=
    exists_classifies_readBindings options model f f.bindings
  cases behind with
  | nil =>
      rw [List.append_nil] at hbindings
      subst hbindings
      rwa [events_readField]
  | cons b behind => exact absurd (h.bindings b (by simp [hbindings])) (hbehind b rfl)

/-- Of any other property declaration the bindings in front of the fault are logged. -/
theorem exists_stopsAt_readField {f : Field} (h : ¬ f.IsPlain) (rest : List Member) :
    ∃ properties, Member.StopsAt false (.field f :: rest) properties ∧
      List.Forall₂ (Event.Classifies options model) properties
        (readField options model f).events := by
  obtain ⟨before, behind, hbindings, hbefore, hbehind, hlog⟩ :=
    exists_classifies_readBindings options model f f.bindings
  refine ⟨before.map (f, ·), ?_, by rwa [events_readField]⟩
  cases behind with
  | nil =>
      rw [List.append_nil] at hbindings
      have hempty : before = [] := by
        by_contra hne
        exact h ⟨hbindings ▸ hne, hbindings ▸ hbefore⟩
      subst hempty
      have hunbound : (Member.field f).properties = [] := by simp [Member.properties, hbindings]
      exact .atMember (mt Field.fault?_eq_none_iff.mp h) (.inr hunbound)
  | cons b behind => exact .atBinding rfl hbindings hbefore (hbehind b rfl)

/-- Reading goes through some members without a fault, logs all of their bindings, and stops. -/
theorem exists_stopsAt_readMembers (index : Nat) (members : List Member) :
    ∃ front rest properties, members = front ++ rest ∧ Member.firstFault? false front = none ∧
      Member.StopsAt (front.any Member.isInitializer) rest properties ∧
      List.Forall₂ (Event.Classifies options model)
        (front.flatMap Member.properties ++ properties)
        (readMembers options model index members).events := by
  -- A property declaration without a fault comes in front of what the rest is read to.
  induction members generalizing index with
  | nil => exact ⟨[], [], [], rfl, rfl, .atEnd, .nil⟩
  | cons member rest ih =>
      cases member with
      | field f =>
          have herror : (readField options model f).error? = f.fault? := error?_readField f
          by_cases hplain : f.IsPlain
          · have hnofault := Field.fault?_eq_none_iff.mpr hplain
            obtain ⟨own, hresult⟩ := Traced.error?_eq_none_iff.mp (herror.trans hnofault)
            obtain ⟨front, behind, properties, rfl, hnone, hstops, hlog⟩ := ih (index + 1)
            refine ⟨.field f :: front, behind, properties, rfl,
              Option.or_eq_none_iff.mpr ⟨hnofault, hnone⟩, hstops, ?_⟩
            rw [readMembers, Traced.events_bind_of_ok hresult, Traced.events_bind_pure,
              List.flatMap_cons, List.append_assoc]
            exact List.rel_append (classifies_readField options model hplain) hlog
          · obtain ⟨e, hfault⟩ :=
              Option.ne_none_iff_exists'.mp (mt Field.fault?_eq_none_iff.mp hplain)
            have hresult := Traced.error?_eq_some_iff.mp (herror.trans hfault)
            obtain ⟨properties, hstops, hlog⟩ :=
              exists_stopsAt_readField options model hplain rest
            refine ⟨[], _, properties, rfl, rfl, hstops, ?_⟩
            rw [readMembers, Traced.events_bind_of_error hresult]
            exact hlog
      | initializer i =>
          have hnone : (readMembers options model index (.initializer i :: rest)).events = [] := by
            rw [readMembers, Traced.events_bind_pure, Traced.events_lift]
          refine ⟨[.initializer i], rest, [], rfl, rfl, ?_, hnone ▸ .nil⟩
          cases rest with
          | nil => exact .atEnd
          | cons m rest => exact .atMember m.fault?_true_ne_none (.inl rfl)
      | other kind source =>
          exact ⟨[], _, [], rfl, rfl, .atMember (Option.some_ne_none _) (.inr rfl), .nil⟩

variable {options}

/-- What is logged while a marked declaration is read, and where reading stops. -/
theorem exists_stopsAt_ofDeclaration {d : Declaration} (h : isMarked options d) :
    ∃ front rest properties, d.members = front ++ rest ∧ Member.firstFault? false front = none ∧
      Member.StopsAt (front.any Member.isInitializer) rest properties ∧
      List.Forall₂ (Event.Classifies options d.name)
        (front.flatMap Member.properties ++ properties) (ofDeclaration options d).events := by
  rw [ofDeclaration, if_pos h, Traced.events_bind_pure]
  exact exists_stopsAt_readMembers options d.name 0 d.members

theorem ofDeclaration_of_not_isMarked {d : Declaration} (h : ¬ isMarked options d) :
    ofDeclaration options d = Traced.fail .notAModelDeclaration :=
  if_neg h

/-- A model class has one field for each binding that was logged. -/
theorem length_events_ofDeclaration {d : Declaration} {m : ModelClass}
    (h : (ofDeclaration options d).result = .ok m) :
    (ofDeclaration options d).events.length = m.fields.length := by
  obtain ⟨hmarked, -, -, -, -, -, hread⟩ := result_ofDeclaration_eq_ok_iff.mp h
  obtain ⟨front, rest, properties, hmembers, hfront, hstops, hlog⟩ :=
    exists_stopsAt_ofDeclaration hmarked
  have hnone : (Member.firstFault? false d.members).or (Member.missing? d.members) = none := by
    have herror : (ofDeclaration options d).error? = d.fault? options := error?_ofDeclaration d
    rw [Traced.error?_eq_none_iff.mpr ⟨m, h⟩, Declaration.fault?, if_pos hmarked] at herror
    exact herror.symm
  rw [Option.or_eq_none_iff, hmembers, Member.firstFault?_append, hfront, Option.none_or] at hnone
  obtain ⟨rfl, rfl⟩ := hstops.eq_nil hnone.1
  rw [List.append_nil] at hmembers hlog
  rw [← hlog.length_eq, ← hread.length_eq, Declaration.properties, hmembers]

end ModelClass

end ModelPreview
