import ModelPreview.InverseRelationship
import ModelPreview.Proofs.ModelClass.Faults
import ModelPreview.Proofs.ModelClass.Properties

/-!
# Inverse relationships against model classes

The check of an inverse relationship looks at one property on its own, while a model class is read
with everything around that property. Both go through the bindings of the property in source order,
and what can be wrong with it is the same for both: its first fault. So a relationship passes the
check exactly if it can stand in a model class, and it is refused for the same reason. A property
without a relationship attribute may stand in a model class as well, but it never passes the check.
-/

namespace ModelPreview

/-- A model class that declares the property `f` behind plain ones and right in front of its
initializer. -/
structure Declaration.HasLastProperty (o : Options) (f : Field) (d : Declaration) : Prop where
  marked : ModelClass.isMarked o d
  members : ∃ (declared : List Field) (i : Initializer),
    d.members = declared.map .field ++ [.field f, .initializer i] ∧ ∀ g ∈ declared, g.IsPlain

/-- The last fields of a model class are the bindings of `f`, read as relationships. -/
def ModelClass.EndsInRelationships (o : Options) (f : Field) (m : ModelClass) : Prop :=
  ∃ before own, m.fields = before ++ own ∧
    List.Forall₂ (fun b field => field.IsReadFrom o (f, b) ∧ field.isRelationship = true)
      f.bindings own

namespace Declaration.HasLastProperty

variable {o : Options} {f : Field} {d : Declaration}

/-- What is wrong with a model class is what is wrong with the one property that may not be
plain. -/
theorem fault?_eq (h : d.HasLastProperty o f) : d.fault? o = f.fault? := by
  obtain ⟨hmarked, declared, i, hmembers, hplain⟩ := h
  have hbefore : Member.firstFault? false (declared.map .field) = none :=
    Member.firstFault?_eq_none_iff.mpr ⟨declared, [], by simp, hplain, .inl rfl⟩
  have hopen : (declared.map Member.field).any Member.isInitializer = false := by
    simp [Member.isInitializer]
  have hmissing : Member.missing? d.members = none := by
    simp [Member.missing?, hmembers, Member.isInitializer]
  -- The members are still open where the property comes, and the initializer behind it is fine.
  rw [fault?, if_pos hmarked, hmissing, Option.or_none, hmembers, Member.firstFault?_append,
    hbefore, hopen]
  exact Option.or_none

theorem error?_ofDeclaration (h : d.HasLastProperty o f) :
    (ModelClass.ofDeclaration o d).error? = f.fault? := by
  rw [ModelClass.error?_ofDeclaration, h.fault?_eq]

theorem endsInRelationships (h : d.HasLastProperty o f)
    (hrelationship : ModelClass.isRelationship o f) {m : ModelClass}
    (hm : (ModelClass.ofDeclaration o d).result = .ok m) :
    m.EndsInRelationships o f := by
  obtain ⟨-, declared, i, hmembers, -⟩ := h
  obtain ⟨-, -, -, -, -, -, hread⟩ := ModelClass.result_ofDeclaration_eq_ok_iff.mp hm
  have hproperties : d.properties =
      (declared.map Member.field).flatMap Member.properties ++ f.bindings.map (f, ·) := by
    simp [properties, hmembers, Member.properties]
  rw [hproperties, forall₂_append_left_iff] at hread
  obtain ⟨before, own, -, hown, hfields⟩ := hread
  refine ⟨before, own, hfields, (List.forall₂_map_left_iff.mp hown).imp fun b field hfield => ?_⟩
  exact ⟨hfield, hfield.isRelationship.trans hrelationship⟩

end Declaration.HasLastProperty

namespace InverseRelationship

variable {o : Options}

theorem error?_checkBindings (keyword : BindingKeyword) (bindings : List Binding) :
    (checkBindings keyword bindings).error? = bindings.findSome? Binding.fault? := by
  induction bindings with
  | nil => rfl
  | cons b rest ih =>
      rw [checkBindings, Traced.error?_lift_emit_bind fun _ => ih, ModelField.error?_ofBinding,
        List.findSome?_cons]
      cases b.fault? <;> rfl

/-- A property without bindings is refused before its attributes are looked at. -/
theorem result_check_of_eq_nil {f : Field} (h : f.bindings = []) :
    (check o (.field f)).result = .error (.fieldTooComplex f.head) := by
  rw [check, Field.boundNames_of_eq_nil h]
  rfl

theorem check_of_ne_nil {f : Field} (h : f.bindings ≠ []) :
    check o (.field f) =
      if ModelClass.isRelationship o f then do
        checkBindings f.keyword f.bindings
        return .empty
      else
        Traced.fail
          (.missingRelationshipAttribute (", ".intercalate (f.bindings.map Binding.text))) := by
  rw [check, Field.boundNames_of_ne_nil h]
  rfl

/-- The check of a relationship fails with the first fault of the property. -/
theorem error?_check {f : Field} (h : ModelClass.isRelationship o f) :
    (check o (.field f)).error? = f.fault? := by
  by_cases hempty : f.bindings = []
  · rw [Field.fault?, if_pos hempty, Traced.error?_eq_some_iff, result_check_of_eq_nil hempty]
  · rw [check_of_ne_nil hempty, if_pos h, Traced.error?_bind_pure, error?_checkBindings,
      Field.fault?, if_neg hempty]

/-- Nothing is generated for a member that passes. -/
theorem eq_empty_of_result_check {member : Member} {e : Expansion}
    (h : (check o member).result = .ok e) : e = .empty := by
  cases member with
  | field f =>
      simp only [check, Traced.result_bind, Except.bind_eq_ok_iff] at h
      obtain ⟨bindings, -, h⟩ := h
      split at h
      · rw [Traced.result_bind, Except.bind_eq_ok_iff] at h
        obtain ⟨-, -, h⟩ := h
        exact (Except.ok.inj h).symm
      · cases h
  | initializer i | other kind source => cases h

/-- The check of a property and the reading of the model classes that declare it come to the same
result, as far as the property is a relationship. -/
structure JudgesAlike (o : Options) : Prop where
  /-- A relationship passes the check and is read as such, or both fail with one error. -/
  relationship : ∀ f, ModelClass.isRelationship o f → ∀ d, d.HasLastProperty o f →
    (∃ m, (check o (.field f)).result = .ok .empty ∧
      (ModelClass.ofDeclaration o d).result = .ok m ∧ m.EndsInRelationships o f) ∨
    ∃ error, (check o (.field f)).result = .error error ∧
      (ModelClass.ofDeclaration o d).result = .error error
  /-- A property without bindings is refused by both, whatever its attributes are. -/
  unbound : ∀ f, f.bindings = [] → (check o (.field f)).result = .error (.fieldTooComplex f.head) ∧
    ∀ d, d.HasLastProperty o f →
      (ModelClass.ofDeclaration o d).result = .error (.fieldTooComplex f.head)
  /-- Any other property without a relationship attribute fails the check for that reason. -/
  unrelated : ∀ f, ¬ ModelClass.isRelationship o f → f.bindings ≠ [] →
    (check o (.field f)).result =
      .error (.missingRelationshipAttribute (", ".intercalate (f.bindings.map Binding.text)))
  /-- What passes the check generates neither declarations nor warnings. -/
  generatesNothing : ∀ member e, (check o member).result = .ok e →
    e.declarations = [] ∧ e.warnings = []

/-- The check of inverse relationships judges properties as model classes are read. -/
theorem judgesAlike (o : Options) : JudgesAlike o := by
  constructor
  case relationship =>
    intro f hrelationship d hd
    have hcheck : (check o (.field f)).error? = f.fault? := error?_check hrelationship
    have hread : (ModelClass.ofDeclaration o d).error? = f.fault? := hd.error?_ofDeclaration
    cases hfault : f.fault? with
    | none =>
        obtain ⟨e, he⟩ := Traced.error?_eq_none_iff.mp (hcheck.trans hfault)
        obtain ⟨m, hm⟩ := Traced.error?_eq_none_iff.mp (hread.trans hfault)
        rw [eq_empty_of_result_check he] at he
        exact .inl ⟨m, he, hm, hd.endsInRelationships hrelationship hm⟩
    | some error =>
        exact .inr ⟨error, Traced.error?_eq_some_iff.mp (hcheck.trans hfault),
          Traced.error?_eq_some_iff.mp (hread.trans hfault)⟩
  case unbound =>
    intro f hempty
    refine ⟨result_check_of_eq_nil hempty, fun d hd => ?_⟩
    rw [← Traced.error?_eq_some_iff, hd.error?_ofDeclaration, Field.fault?, if_pos hempty]
  case unrelated =>
    intro f hplain hbound
    rw [check_of_ne_nil hbound, if_neg hplain]
    rfl
  case generatesNothing =>
    intro member e he
    rw [eq_empty_of_result_check he]
    exact ⟨rfl, rfl⟩

/-- A property with the marker, the second binding of which states no type. -/
def wishes : Field where
  attributes := [⟨"InverseRelationship", none⟩]
  keyword := .var
  bindings :=
    [⟨.identifier "item", some (.named "Item"), none⟩, ⟨.identifier "owner", none, some "nil"⟩]

/-- A model class with that property behind a plain one. -/
def wishlist : Declaration where
  kind := .class
  name := "Wishlist"
  attributes := [⟨"Model", none⟩]
  members :=
    [.field ⟨[], .let, [⟨.identifier "title", some (.named "String"), none⟩]⟩, .field wishes,
      .initializer ⟨[], [], "", none, "\x7b\x7d"⟩]

/-- The check and the reading of the model class both stop at that binding. -/
theorem wishlist_judged_alike :
    wishlist.HasLastProperty .default wishes ∧ ModelClass.isRelationship .default wishes ∧
      (check .default (.field wishes)).result = .error (.fieldMissingType "owner = nil") ∧
      (ModelClass.ofDeclaration .default wishlist).result =
        .error (.fieldMissingType "owner = nil") := by
  have hplain : (⟨[], .let, [⟨.identifier "title", some (.named "String"), none⟩]⟩ :
      Field).IsPlain := Field.fault?_eq_none_iff.mp rfl
  have hlast : wishlist.HasLastProperty .default wishes :=
    ⟨by decide, [_], _, rfl, by simpa using hplain⟩
  have hrelationship : ModelClass.isRelationship .default wishes := by decide
  have hcheck : (check .default (.field wishes)).result =
      .error (.fieldMissingType "owner = nil") := rfl
  rcases (judgesAlike .default).relationship wishes hrelationship wishlist hlast with
    ⟨-, hpassed, -⟩ | ⟨error, hrefused, hread⟩
  · rw [hcheck] at hpassed
    cases hpassed
  · rw [hcheck] at hrefused
    cases hrefused
    exact ⟨hlast, hrelationship, hcheck, hread⟩

end InverseRelationship

end ModelPreview
