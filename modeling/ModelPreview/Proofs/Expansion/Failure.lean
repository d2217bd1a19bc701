import ModelPreview.Proofs.Expansion.Contents
import ModelPreview.Proofs.ModelClass.Faults
import ModelPreview.Proofs.TypeExpr.Core

/-!
# Why an expansion fails

The form of a declaration is read to its end before the type of any relationship is looked at. An
expansion therefore fails with the first fault of the declaration or, where there is none, with the
refusal of the first relationship whose type has no target.
-/

namespace ModelPreview

theorem TypeExpr.exists_text_of_unwrap_eq_error {t : TypeExpr} {e : ExpansionError}
    (h : t.unwrap = .error e) : ∃ text, e = .unsupportedTypeShape text :=
  ⟨_, (unwrap_eq_error_iff.mp h).2⟩

/-- The refusal of a property's type, if the property is a relationship. -/
def ModelClass.refusal? (options : Options) (source : Field × Binding) : Option ExpansionError :=
  if isRelationship options source.1 then
    source.2.type.bind fun t => Except.error? t.unwrap
  else none

namespace ModelClass

variable {options : Options} {source : Field × Binding}

theorem refusal?_eq_some_iff {e : ExpansionError} :
    refusal? options source = some e ↔
      isRelationship options source.1 ∧ ∃ t, source.2.type = some t ∧ t.unwrap = .error e := by
  unfold refusal?
  split
  · next h => simp [h, Option.bind_eq_some_iff, Except.error?_eq_some_iff]
  · next h => simp [h]

theorem refusal?_eq_none_iff :
    refusal? options source = none ↔
      (isRelationship options source.1 → ∀ t, source.2.type = some t → ∃ w, t.unwrap = .ok w) := by
  unfold refusal?
  split
  · next h => simp [h, Option.bind_eq_none_iff, Except.error?_eq_none_iff]
  · next h => simp [h]

end ModelClass

namespace ResolvedField

variable {options : Options}

theorem error?_ofField {source : Field × Binding} {field : ModelField}
    (h : field.IsReadFrom options source) :
    Except.error? (ofField field) = ModelClass.refusal? options source := by
  rw [ofField, ModelClass.refusal?, h.isRelationship, h.type]
  split
  · exact Except.error?_bind_pure _ _
  · rfl

theorem error?_ofFields {sources : List (Field × Binding)} {fields : List ModelField}
    (h : List.Forall₂ (ModelField.IsReadFrom options) sources fields) :
    Except.error? (ofFields fields) = sources.findSome? (ModelClass.refusal? options) := by
  induction h with
  | nil => rfl
  | @cons source field sources fields hfirst hrest ih =>
      have hothers : ∀ first, Except.error? (do
          let others ← ofFields fields
          return first :: others : Except ExpansionError (List ResolvedField)) =
            sources.findSome? (ModelClass.refusal? options) := by
        intro first
        rw [Except.error?_bind_pure, ih]
      rw [ofFields, Except.error?_bind fun first _ => hothers first, error?_ofField hfirst,
        List.findSome?_cons]
      cases ModelClass.refusal? options source <;> rfl

end ResolvedField

theorem ModelClass.result_ofDeclaration_eq_error_iff {o : Options} {d : Declaration}
    {e : ExpansionError} : (ofDeclaration o d).result = .error e ↔ d.fault? o = some e := by
  rw [← error?_ofDeclaration, Traced.error?_eq_some_iff]

theorem ModelClass.exists_result_ofDeclaration_iff {o : Options} {d : Declaration} :
    (∃ m, (ofDeclaration o d).result = .ok m) ↔ d.fault? o = none := by
  rw [← error?_ofDeclaration, Traced.error?_eq_none_iff]

namespace Declaration

variable {o : Options} {d : Declaration}

/-- An expansion fails with the first fault, or else with the first refusal. -/
theorem error?_expand (o : Options) (d : Declaration) :
    (d.expand o).error? =
      (d.fault? o).or (d.properties.findSome? (ModelClass.refusal? o)) := by
  rw [expand, Traced.error?_bind, ModelClass.error?_ofDeclaration]
  intro m hm
  obtain ⟨-, -, declared, -, -, -, hread⟩ := ModelClass.result_ofDeclaration_eq_ok_iff.mp hm
  rw [Traced.error?, ModelClass.result_expand, ← ResolvedField.error?_ofFields hread]
  exact Except.error?_bind_pure _ _

theorem fault?_of_isMarked (hmarked : ModelClass.isMarked o d) (members : List Member) :
    fault? o { d with members } =
      (Member.firstFault? false members).or (Member.missing? members) :=
  if_pos hmarked

theorem fault?_ne_unsupportedTypeShape (type : String) :
    d.fault? o ≠ some (.unsupportedTypeShape type) := by
  unfold fault?
  split
  · intro h
    rcases Option.or_eq_some_iff.mp h with h | ⟨-, h⟩
    · exact absurd (Member.isMemberFault_of_firstFault? h) nofun
    · unfold Member.missing? at h
      split at h <;> cases h
  · nofun

/-- The first relationship whose type has no target is refused with `e`. -/
def RefusesFirst (o : Options) (d : Declaration) (e : ExpansionError) : Prop :=
  ∃ before source after t, d.properties = before ++ source :: after ∧
    ModelClass.isRelationship o source.1 ∧ source.2.type = some t ∧ t.unwrap = .error e ∧
    ∀ earlier ∈ before, ModelClass.isRelationship o earlier.1 →
      ∀ t, earlier.2.type = some t → ∃ w, t.unwrap = .ok w

theorem findSome?_refusal?_eq_some_iff {e : ExpansionError} :
    d.properties.findSome? (ModelClass.refusal? o) = some e ↔ d.RefusesFirst o e := by
  simp only [List.findSome?_eq_some_iff, ModelClass.refusal?_eq_some_iff,
    ModelClass.refusal?_eq_none_iff, RefusesFirst]
  constructor
  · rintro ⟨before, source, after, hsplit, ⟨hrelationship, t, ht, he⟩, hearlier⟩
    exact ⟨before, source, after, t, hsplit, hrelationship, ht, he, hearlier⟩
  · rintro ⟨before, source, after, t, hsplit, hrelationship, ht, he, hearlier⟩
    exact ⟨before, source, after, hsplit, ⟨hrelationship, t, ht, he⟩, hearlier⟩

theorem RefusesFirst.exists_type {e : ExpansionError} (h : d.RefusesFirst o e) :
    ∃ type, e = .unsupportedTypeShape type := by
  obtain ⟨-, -, -, t, -, -, -, hunwrap, -⟩ := h
  exact t.exists_text_of_unwrap_eq_error hunwrap

/-- Some relationship has no target exactly if there is a first one to be refused. -/
theorem exists_refusesFirst_iff :
    (∃ type, d.RefusesFirst o (.unsupportedTypeShape type)) ↔
      ∃ source ∈ d.properties, ModelClass.isRelationship o source.1 ∧
        ∃ t, source.2.type = some t ∧ ∀ w, t.unwrap ≠ .ok w := by
  constructor
  · rintro ⟨type, before, source, after, t, hsplit, hrelationship, ht, hunwrap, -⟩
    refine ⟨source, by simp [hsplit], hrelationship, t, ht, fun w hw => ?_⟩
    rw [hunwrap] at hw
    cases hw
  · rintro ⟨source, hsource, hrelationship, t, ht, hno⟩
    cases hunwrap : t.unwrap with
    | ok w => exact absurd hunwrap (hno w)
    | error e =>
        -- This refusal need not be the first, but it shows that there is one.
        have hown : ModelClass.refusal? o source = some e :=
          ModelClass.refusal?_eq_some_iff.mpr ⟨hrelationship, t, ht, hunwrap⟩
        have hsome : (d.properties.findSome? (ModelClass.refusal? o)).isSome :=
          List.findSome?_isSome_iff.mpr ⟨source, hsource, by rw [hown]; rfl⟩
        obtain ⟨first, hfirst⟩ := Option.isSome_iff_exists.mp hsome
        have hrefuses := findSome?_refusal?_eq_some_iff.mp hfirst
        obtain ⟨type, rfl⟩ := hrefuses.exists_type
        exact ⟨type, hrefuses⟩

/-- The errors of a declaration come in source order, those of its form before those of its
types. -/
structure FailsInOrder (o : Options) (d : Declaration) : Prop where
  /-- A fault of the members stays the error, whatever members follow. -/
  stable : ∀ e, (ModelClass.ofDeclaration o d).result = .error e → e ≠ .missingInitializer →
    ∀ more, (ModelClass.ofDeclaration o { d with members := d.members ++ more }).result = .error e
  /-- A fault of the members has a first member with which it comes up. Fewer members are at most
  short of an initializer. -/
  earliest : ∀ e, (ModelClass.ofDeclaration o d).result = .error e → e ≠ .missingInitializer →
    ∃ n ≤ d.members.length,
      (ModelClass.ofDeclaration o { d with members := d.members.take n }).result = .error e ∧
      ∀ k < n,
        (∃ m, (ModelClass.ofDeclaration o { d with members := d.members.take k }).result = .ok m) ∨
        (ModelClass.ofDeclaration o { d with members := d.members.take k }).result =
          .error .missingInitializer
  /-- Only the initializer is missing exactly if all members are plain property declarations. -/
  missing : (ModelClass.ofDeclaration o d).result = .error .missingInitializer ↔
    ∀ member ∈ d.members, ∃ f, member = .field f ∧ f.IsPlain
  /-- A type is refused exactly if the form is right and some relationship has no target. -/
  refused : (∃ type, (d.expand o).result = .error (.unsupportedTypeShape type)) ↔
    (∃ m, (ModelClass.ofDeclaration o d).result = .ok m) ∧
      ∃ source ∈ d.properties, ModelClass.isRelationship o source.1 ∧
        ∃ t, source.2.type = some t ∧ ∀ w, t.unwrap ≠ .ok w
  /-- The refusal is that of the first relationship without a target. -/
  firstRefused : ∀ type, (d.expand o).result = .error (.unsupportedTypeShape type) →
    d.RefusesFirst o (.unsupportedTypeShape type)
  /-- An error of the form is the error of the expansion, whatever types stand before it. -/
  form : ∀ e, (ModelClass.ofDeclaration o d).result = .error e → (d.expand o).result = .error e

/-- A fault other than the missing initializer is the fault of a member. -/
theorem firstFault?_of_result_eq_error (hmarked : ModelClass.isMarked o d) {e : ExpansionError}
    (he : (ModelClass.ofDeclaration o d).result = .error e) (hne : e ≠ .missingInitializer) :
    Member.firstFault? false d.members = some e := by
  rw [ModelClass.result_ofDeclaration_eq_error_iff, fault?_of_isMarked hmarked] at he
  rcases Option.or_eq_some_iff.mp he with he | ⟨-, he⟩
  · exact he
  · unfold Member.missing? at he
    split at he
    · cases he
    · exact absurd (Option.some.inj he).symm hne

/-- Members that are short of nothing but an initializer are all property declarations. -/
theorem fault?_eq_missingInitializer_iff (hmarked : ModelClass.isMarked o d) :
    d.fault? o = some .missingInitializer ↔
      ∀ member ∈ d.members, ∃ f, member = .field f ∧ f.IsPlain := by
  rw [fault?_of_isMarked hmarked, Option.or_eq_some_iff, Member.forall_field_iff]
  constructor
  · rintro (h | ⟨hnone, hmissing⟩)
    · exact absurd (Member.isMemberFault_of_firstFault? h) nofun
    · obtain ⟨declared, rest, hmembers, hall, rfl | ⟨i, rfl⟩⟩ :=
        Member.firstFault?_eq_none_iff.mp hnone
      · exact ⟨declared, by simpa using hmembers, hall⟩
      · simp [Member.missing?, Member.isInitializer, hmembers] at hmissing
  · rintro ⟨declared, hmembers, hall⟩
    refine .inr ⟨Member.firstFault?_eq_none_iff.mpr ⟨declared, [], by simp [hmembers], hall,
      .inl rfl⟩, ?_⟩
    simp [Member.missing?, Member.isInitializer, hmembers]

/-- A type is refused after the form has been found right, and it is the first without a target. -/
theorem result_expand_eq_unsupportedTypeShape_iff {type : String} :
    (d.expand o).result = .error (.unsupportedTypeShape type) ↔
      d.fault? o = none ∧ d.RefusesFirst o (.unsupportedTypeShape type) := by
  rw [← Traced.error?_eq_some_iff, error?_expand, Option.or_eq_some_iff,
    findSome?_refusal?_eq_some_iff]
  exact or_iff_right (fault?_ne_unsupportedTypeShape type)

/-- The errors of a marked declaration come in source order. -/
theorem failsInOrder_of_isMarked (hmarked : ModelClass.isMarked o d) : d.FailsInOrder o := by
  constructor
  case stable =>
    intro e he hne more
    have hfirst := firstFault?_of_result_eq_error hmarked he hne
    rw [ModelClass.result_ofDeclaration_eq_error_iff, fault?_of_isMarked hmarked,
      Member.firstFault?_append, hfirst]
    rfl
  case earliest =>
    intro e he hne
    have hfirst := firstFault?_of_result_eq_error hmarked he hne
    obtain ⟨n, hn, htake, hshorter⟩ := Member.exists_take_of_firstFault? hfirst
    refine ⟨n, hn, ?_, fun k hk => ?_⟩
    · rw [ModelClass.result_ofDeclaration_eq_error_iff, fault?_of_isMarked hmarked, htake]
      rfl
    · rw [ModelClass.exists_result_ofDeclaration_iff, ModelClass.result_ofDeclaration_eq_error_iff,
        fault?_of_isMarked hmarked, hshorter k hk, Option.none_or, Member.missing?]
      split
      · exact .inl rfl
      · exact .inr rfl
  case missing =>
    rw [ModelClass.result_ofDeclaration_eq_error_iff, fault?_eq_missingInitializer_iff hmarked]
  case refused =>
    simp only [result_expand_eq_unsupportedTypeShape_iff, exists_and_left,
      ModelClass.exists_result_ofDeclaration_iff, exists_refusesFirst_iff]
  case firstRefused =>
    intro type h
    exact (result_expand_eq_unsupportedTypeShape_iff.mp h).2
  case form =>
    intro e he
    rw [ModelClass.result_ofDeclaration_eq_error_iff] at he
    rw [← Traced.error?_eq_some_iff, error?_expand, he]
    rfl

/-- A model whose first relationship has no target, with a pattern behind it that is no name and a
function behind that. -/
def competingFaults : Declaration where
  kind := .class
  name := "Post"
  attributes := [⟨"Model", none⟩]
  members :=
    [.field ⟨[⟨"Relationship", none⟩], .var,
        [⟨.identifier "byName", some (.dictionary (.named "String") (.named "User")), none⟩]⟩,
      .field ⟨[], .let, [⟨.tuple [.identifier "a", .identifier "b"], none, some "(1, 2)"⟩]⟩,
      .other "function" "func touch() \x7b\x7d"]

/-- The pattern is the error, and it is the error of the first two members as well. -/
theorem competingFaults_fail_in_order :
    ModelClass.isMarked .default competingFaults ∧ competingFaults.FailsInOrder .default ∧
      (competingFaults.expand .default).result = .error (.fieldTooComplex "(a, b) = (1, 2)") ∧
      ∃ n ≤ 3, (ModelClass.ofDeclaration .default
        { competingFaults with members := competingFaults.members.take n }).result =
          .error (.fieldTooComplex "(a, b) = (1, 2)") := by
  have hmarked : ModelClass.isMarked .default competingFaults := by decide
  have horder := failsInOrder_of_isMarked hmarked
  have herror : (ModelClass.ofDeclaration .default competingFaults).result =
      .error (.fieldTooComplex "(a, b) = (1, 2)") := by rfl
  obtain ⟨n, hn, htake, -⟩ := horder.earliest _ herror nofun
  exact ⟨hmarked, horder, horder.form _ herror, n, hn, htake⟩

end Declaration

end ModelPreview
