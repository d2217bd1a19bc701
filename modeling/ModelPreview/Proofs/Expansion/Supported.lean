import ModelPreview.Proofs.Expansion.Failure

/-!
# The declarations that expand

The supported form of a declaration, said without reading it member by member: a class with the
model attribute, plain property declarations, one initializer behind them, and relationships whose
types are names under optionals and arrays. A declaration expands exactly if it has this form.
-/

namespace ModelPreview

theorem ModelClass.isMarked_iff {o : Options} {d : Declaration} :
    isMarked o d ↔ d.kind = .class ∧ ∃ a ∈ d.attributes, a.name = o.modelAttribute := by
  simp [isMarked, Declaration.carries]

theorem ModelClass.isRelationship_iff {o : Options} {f : Field} :
    isRelationship o f ↔ ∃ a ∈ f.attributes, a.name ∈ o.relationshipAttributes := by
  simp [isRelationship, Field.carriesAny]

namespace Declaration

/-- A declaration of the one form that can be expanded. -/
structure IsSupported (o : Options) (d : Declaration) : Prop where
  kind : d.kind = .class
  marked : ∃ a ∈ d.attributes, a.name = o.modelAttribute
  /-- Property declarations come first, then one initializer, and nothing else. -/
  members : ∃ (declared : List Field) (i : Initializer),
    d.members = declared.map .field ++ [.initializer i]
  properties : ∀ f, .field f ∈ d.members → f.IsPlain
  /-- A relationship is a name under optionals and arrays. -/
  targets : ∀ f, .field f ∈ d.members → (∃ a ∈ f.attributes, a.name ∈ o.relationshipAttributes) →
    ∀ b ∈ f.bindings, ∃ t name, b.type = some t ∧ t.Wraps name

variable {o : Options} {d : Declaration}

theorem fault?_eq_none_iff :
    d.fault? o = none ↔ ModelClass.isMarked o d ∧ ∃ (declared : List Field) (i : Initializer),
      d.members = declared.map .field ++ [.initializer i] ∧ ∀ f ∈ declared, f.IsPlain := by
  unfold fault?
  split
  · next hmarked => simp only [hmarked, true_and, Member.firstFault?_or_missing?_eq_none_iff]
  · next hmarked => simp [hmarked]

/-- A declaration expands exactly if it has the supported form. -/
theorem expands_iff_isSupported : (∃ e, (d.expand o).result = .ok e) ↔ d.IsSupported o := by
  rw [← Traced.error?_eq_none_iff, error?_expand, Option.or_eq_none_iff, fault?_eq_none_iff,
    List.findSome?_eq_none_iff]
  constructor
  · rintro ⟨⟨hmarked, declared, i, hmembers, hall⟩, hnone⟩
    obtain ⟨hkind, hattribute⟩ := ModelClass.isMarked_iff.mp hmarked
    have hplain : ∀ f, .field f ∈ d.members → f.IsPlain := by
      intro f hf
      exact hall f (by simpa [hmembers] using hf)
    refine ⟨hkind, hattribute, ⟨declared, i, hmembers⟩, hplain, fun f hf hattribute b hb => ?_⟩
    obtain ⟨t, ht⟩ := ((hplain f hf).bindings b hb).type
    have hrefusal := hnone (f, b) (mem_properties_iff.mpr ⟨hf, hb⟩)
    obtain ⟨w, hw⟩ := ModelClass.refusal?_eq_none_iff.mp hrefusal
      (ModelClass.isRelationship_iff.mpr hattribute) t ht
    exact ⟨t, w.name, ht, TypeExpr.wraps_iff.mpr ⟨w, hw, rfl⟩⟩
  · rintro ⟨hkind, hattribute, ⟨declared, i, hmembers⟩, hplain, htargets⟩
    refine ⟨⟨ModelClass.isMarked_iff.mpr ⟨hkind, hattribute⟩, declared, i, hmembers, ?_⟩, ?_⟩
    · intro f hf
      exact hplain f (by simp [hmembers, hf])
    · intro source hsource
      obtain ⟨hf, hb⟩ := mem_properties_iff.mp hsource
      rw [ModelClass.refusal?_eq_none_iff]
      intro hrelationship t ht
      obtain ⟨t', name, ht', hwraps⟩ :=
        htargets source.1 hf (ModelClass.isRelationship_iff.mp hrelationship) source.2 hb
      obtain rfl : t' = t := Option.some.inj (ht'.symm.trans ht)
      obtain ⟨w, hw, -⟩ := TypeExpr.wraps_iff.mp hwraps
      exact ⟨w, hw⟩

end Declaration

end ModelPreview
