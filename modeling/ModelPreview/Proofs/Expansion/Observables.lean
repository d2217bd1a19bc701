import ModelPreview.Proofs.Expansion.Contents

/-!
# Expansions with and without observable variants

Whether observable variants are generated decides which parts are played, and nothing else. Reading
a model class looks at the attributes that the options name, resolving its fields looks at no
option, and the declaration that plays a part is the same whatever other parts are played. So the
expansion without observable variants fails as the one with them does, warns as it does, and
consists of the parts of it that are still played.
-/

namespace ModelPreview

namespace ModelClass

variable {o o' : Options}

theorem isRelationship_congr (h : o.relationshipAttributes = o'.relationshipAttributes) :
    isRelationship o = isRelationship o' := by
  funext f
  rw [isRelationship, isRelationship, h]

/-- Members are read alike under options with the same relationship attributes. -/
theorem readMembers_congr (h : o.relationshipAttributes = o'.relationshipAttributes)
    (model : String) (index : Nat) (members : List Member) :
    readMembers o model index members = readMembers o' model index members := by
  induction members generalizing index with
  | nil => rfl
  | cons member rest ih =>
      cases member with
      | field f => simp only [readMembers, readField, isRelationship_congr h, ih]
      | initializer i => rfl
      | other kind source => rfl

/-- Declarations are read alike under options that name the same attributes. -/
theorem ofDeclaration_congr (hmodel : o.modelAttribute = o'.modelAttribute)
    (hrelationship : o.relationshipAttributes = o'.relationshipAttributes) (d : Declaration) :
    ofDeclaration o d = ofDeclaration o' d := by
  unfold ofDeclaration isMarked
  rw [hmodel, readMembers_congr hrelationship]

/-- A part is played alike under options with the same naming. -/
theorem generated_congr (h : o.naming = o'.naming) (m : ModelClass) (rs : List ResolvedField)
    (r : Role) : m.generated o rs r = m.generated o' rs r := by
  cases r <;> simp only [generated, h]

/-- The warnings of an expansion do not depend on the options. -/
theorem warnings_expansion_congr (m : ModelClass) (rs : List ResolvedField) :
    (m.expansion o rs).warnings = (m.expansion o' rs).warnings := rfl

/-- The parts that are played without observable variants. -/
theorem declarations_expansion_of_plain (h : o.emitObservable = false) (m : ModelClass)
    (rs : List ResolvedField) :
    (m.expansion o rs).declarations =
      [m.generated o rs .protocol, m.generated o rs (.variant .preview)] := by
  simp [expansion, Options.roles, Options.variants, h]

/-- The parts that are played with observable variants. -/
theorem declarations_expansion_of_observable (h : o.emitObservable = true) (m : ModelClass)
    (rs : List ResolvedField) :
    (m.expansion o rs).declarations =
      [m.generated o rs .protocol, m.generated o rs .observableProtocol,
        m.generated o rs (.variant .preview), m.generated o rs (.variant .observablePreview)] := by
  simp [expansion, Options.roles, Options.variants, h]

end ModelClass

namespace Declaration

/-- Without observable variants a declaration fails exactly as it does with them, or else it has
the first and the third of the four declarations that it has with them, and the same warnings. -/
theorem expand_without_observables (o : Options) (d : Declaration) :
    (∃ error, (d.expand { o with emitObservable := false }).result = .error error ∧
        (d.expand { o with emitObservable := true }).result = .error error) ∨
      ∃ plain full, (d.expand { o with emitObservable := false }).result = .ok plain ∧
        (d.expand { o with emitObservable := true }).result = .ok full ∧
        (∃ protocol observableProtocol preview observablePreview,
          full.declarations = [protocol, observableProtocol, preview, observablePreview] ∧
          plain.declarations = [protocol, preview]) ∧
        plain.warnings = full.warnings := by
  have hread : ModelClass.ofDeclaration { o with emitObservable := false } d =
      ModelClass.ofDeclaration { o with emitObservable := true } d := by
    apply ModelClass.ofDeclaration_congr
    · rfl
    · rfl
  rw [result_expand, result_expand, hread]
  cases (ModelClass.ofDeclaration { o with emitObservable := true } d).result with
  | error error => exact .inl ⟨error, rfl, rfl⟩
  | ok m =>
      rw [Except.ok_bind, Except.ok_bind]
      cases ResolvedField.ofFields m.fields with
      | error error => exact .inl ⟨error, rfl, rfl⟩
      | ok rs =>
          have hsame (r : Role) : m.generated { o with emitObservable := false } rs r =
              m.generated { o with emitObservable := true } rs r :=
            ModelClass.generated_congr rfl m rs r
          refine .inr ⟨_, _, rfl, rfl, ⟨_, _, _, _,
            ModelClass.declarations_expansion_of_observable rfl m rs, ?_⟩,
            ModelClass.warnings_expansion_congr m rs⟩
          rw [ModelClass.declarations_expansion_of_plain rfl, hsame, hsame]

end Declaration

end ModelPreview
