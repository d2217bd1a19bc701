import ModelPreview.Proofs.Retargeting

/-!
# Skipped parameters

Retargeting an initializer follows the wrappers of a parameter's type, while the search for targets
that it leaves behind looks at every name of the type. The two fit together: where the wrappers lead
to a name, that name is the only one in the type, so renaming it leaves no target behind, and where
they do not, the type is kept and the parameter is skipped if a target stands in it. Which
parameters are skipped is therefore known from the source alone, whatever the new names are.
-/

namespace ModelPreview

namespace Parameter

variable {targets : TargetNames} {p : Parameter} {s : SkippedParameter}

/-- A parameter is skipped if its type is refused and mentions a target all the same. -/
theorem skipped?_eq_some_iff {index : Nat} :
    p.skipped? targets index = some s ↔
      s.index = index ∧ s.name = p.firstName ∧ p.type.unwrap = .error s.reason ∧
        ∃ name ∈ targets.names, p.type.mentions name := by
  obtain ⟨index', name, reason⟩ := s
  unfold skipped?
  cases p.type.unwrap with
  | ok w => simp
  | error e =>
      have hmentions : p.type.mentionsAny targets ↔
          ∃ name ∈ targets.names, p.type.mentions name := by
        simp [TypeExpr.mentionsAny]
      by_cases h : p.type.mentionsAny targets
      · have htarget := hmentions.mp h
        simp only [h, if_true, Option.some.injEq, SkippedParameter.mk.injEq, Except.error.injEq,
          htarget, and_true]
        grind
      · have htarget := mt hmentions.mpr h
        simp [h, htarget]

end Parameter

namespace Initializer

variable {targets : TargetNames}

theorem mem_skippedFrom_iff {start : Nat} {ps : List Parameter} {s : SkippedParameter} :
    s ∈ skippedFrom targets start ps ↔
      ∃ (n : Nat) (p : Parameter), ps[n]? = some p ∧ p.skipped? targets (start + n) = some s := by
  induction ps generalizing start with
  | nil => simp [skippedFrom]
  | cons p rest ih =>
      rw [skippedFrom, List.mem_append, Option.mem_toList, ih]
      constructor
      · rintro (hfirst | ⟨n, q, hq, hs⟩)
        · exact ⟨0, p, rfl, hfirst⟩
        · exact ⟨n + 1, q, hq, by rwa [Nat.add_right_comm, Nat.add_assoc] at hs⟩
      · rintro ⟨n, q, hq, hs⟩
        cases n with
        | zero =>
            obtain rfl : p = q := Option.some.inj hq
            exact .inl hs
        | succ n => exact .inr ⟨n, q, hq, by rwa [Nat.add_right_comm, Nat.add_assoc]⟩

/-- Skipped parameters are listed in the order of the parameters, each once. -/
theorem pairwise_skippedFrom (start : Nat) (ps : List Parameter) :
    (skippedFrom targets start ps).Pairwise fun s t => s.index < t.index := by
  induction ps generalizing start with
  | nil => exact .nil
  | cons p rest ih =>
      rw [skippedFrom, List.pairwise_append]
      refine ⟨?_, ih (start + 1), ?_⟩
      · cases p.skipped? targets start with
        | none => exact .nil
        | some s => exact List.pairwise_singleton _ _
      · intro s hs t ht
        obtain ⟨n, q, -, ht⟩ := mem_skippedFrom_iff.mp ht
        have hs := (Parameter.skipped?_eq_some_iff.mp (Option.mem_toList.mp hs)).1
        have ht := (Parameter.skipped?_eq_some_iff.mp ht).1
        omega

/-- A skipped parameter is the parameter at its index. -/
theorem mem_skipped_iff {i : Initializer} {s : SkippedParameter} :
    s ∈ i.skipped targets ↔ ∃ p, i.parameters[s.index]? = some p ∧ s.name = p.firstName ∧
      p.type.unwrap = .error s.reason ∧ ∃ name ∈ targets.names, p.type.mentions name := by
  simp only [skipped, mem_skippedFrom_iff, Nat.zero_add, Parameter.skipped?_eq_some_iff]
  constructor
  · rintro ⟨n, p, hp, rfl, hs⟩
    exact ⟨p, hp, hs⟩
  · rintro ⟨p, hp, hs⟩
    exact ⟨_, p, hp, rfl, hs⟩

end Initializer

section Remaining

variable {targets : TargetNames} {rename : String → String}

/-- If no new name is a target, a parameter refers to a target after retargeting exactly if its type
was refused and refers to one before. -/
theorem Parameter.exists_mentions_retargeted_iff
    (hfresh : ∀ name ∈ targets.names, rename name ∉ targets.names) {p : Parameter} :
    (∃ name ∈ targets.names, (p.retargeted targets rename).type.mentions name) ↔
      (∃ reason, p.type.unwrap = .error reason) ∧ ∃ name ∈ targets.names, p.type.mentions name := by
  cases hunwrap : p.type.unwrap with
  | error reason =>
      rw [Parameter.retargeted_of_refused rename hunwrap]
      exact ⟨fun h => ⟨⟨reason, rfl⟩, h⟩, And.right⟩
  | ok w =>
      refine ⟨?_, fun ⟨⟨_, hrefused⟩, _⟩ => nomatch hrefused⟩
      rintro ⟨name, hname, hmentions⟩
      by_cases hmem : w.name ∈ targets.names
      · -- The only name in the new type is a new one.
        rw [Parameter.retargeted_of_mem rename hunwrap hmem, WrappedName.mentions_typeWith]
          at hmentions
        exact absurd (hmentions ▸ hname) (hfresh w.name hmem)
      · -- The only name in the old type is no target.
        rw [Parameter.retargeted_of_not_mem rename (by simpa [hunwrap] using hmem),
          TypeExpr.mentions_iff_of_unwrap hunwrap] at hmentions
        exact absurd (hmentions ▸ hname) hmem

/-- What an initializer looks like after retargeting: it has all of its parameters, and the skipped
ones are those that still refer to a target. -/
structure Retargeted.ReportsRemaining (targets : TargetNames) (rename : String → String)
    (i : Initializer) (r : Retargeted) : Prop where
  length : r.initializer.parameters.length = i.parameters.length
  /-- If no new name is a target, then a target remains in exactly the skipped parameters. -/
  remaining : (∀ name ∈ targets.names, rename name ∉ targets.names) → ∀ index,
    (∃ p, r.initializer.parameters[index]? = some p ∧
      ∃ name ∈ targets.names, p.type.mentions name) ↔
        index ∈ r.skipped.map SkippedParameter.index
  /-- Skipped parameters are listed in the order of the parameters, each once. -/
  increasing : (r.skipped.map SkippedParameter.index).Pairwise (· < ·)
  /-- A skipped parameter is as it was, and it is reported with its name and the refusal of its
  type. -/
  reported : ∀ s ∈ r.skipped, ∃ p, i.parameters[s.index]? = some p ∧
    r.initializer.parameters[s.index]? = some p ∧
    s.name = p.firstName ∧ p.type.unwrap = .error s.reason

namespace Initializer

/-- A target remains in the parameters that are skipped and in no others. -/
theorem exists_mentions_getElem?_retargeted_iff
    (hfresh : ∀ name ∈ targets.names, rename name ∉ targets.names) {i : Initializer}
    {index : Nat} :
    (∃ p, (i.retargeted targets rename).parameters[index]? = some p ∧
      ∃ name ∈ targets.names, p.type.mentions name) ↔
        index ∈ (i.skipped targets).map SkippedParameter.index := by
  simp only [retargeted, List.getElem?_map, Option.map_eq_some_iff, List.mem_map, mem_skipped_iff]
  constructor
  · rintro ⟨_, ⟨p, hp, rfl⟩, hmentions⟩
    obtain ⟨⟨reason, hrefused⟩, hmentions⟩ :=
      (Parameter.exists_mentions_retargeted_iff hfresh).mp hmentions
    exact ⟨⟨index, p.firstName, reason⟩, ⟨p, hp, rfl, hrefused, hmentions⟩, rfl⟩
  · rintro ⟨s, ⟨p, hp, -, hrefused, hmentions⟩, rfl⟩
    exact ⟨_, ⟨p, hp, rfl⟩,
      (Parameter.exists_mentions_retargeted_iff hfresh).mpr ⟨⟨_, hrefused⟩, hmentions⟩⟩

/-- Retargeting succeeds and reports what it leaves behind, and the report is the same whatever the
new names are. -/
theorem retarget_reportsRemaining {ε : Type} (targets : TargetNames) (i : Initializer) :
    ∃ skipped : List SkippedParameter, ∀ rename : String → String, ∃ initializer,
      (i.retarget targets rename : Traced ε Retargeted).result = .ok ⟨initializer, skipped⟩ ∧
      Retargeted.ReportsRemaining targets rename i ⟨initializer, skipped⟩ := by
  refine ⟨i.skipped targets, fun rename => ⟨i.retargeted targets rename, i.result_retarget, ?_⟩⟩
  constructor
  case length => exact List.length_map _
  case remaining =>
    intro hfresh index
    exact exists_mentions_getElem?_retargeted_iff hfresh
  case increasing => exact List.pairwise_map.mpr (pairwise_skippedFrom 0 _)
  case reported =>
    intro s hs
    obtain ⟨p, hp, hname, hrefused, -⟩ := mem_skipped_iff.mp hs
    refine ⟨p, hp, ?_, hname, hrefused⟩
    rw [retargeted, List.getElem?_map, hp, Option.map_some,
      Parameter.retargeted_of_refused rename hrefused]

/-- An initializer with a list of a target, a dictionary of it, and a type without a target that is
refused as well. -/
def tagging : Initializer where
  modifiers := []
  parameters :=
    [⟨"", "tags", none, .array (.named "Tag"), none, true⟩,
      ⟨" ", "byName", none, .dictionary (.named "String") (.named "Tag"), none, true⟩,
      ⟨" ", "size", none, .optional (.tuple [.named "Int", .named "Int"]), none, false⟩]
  closingTrivia := ""
  effects := none
  body := "\x7b\x7d"

/-- The target remains in the dictionary, which is reported, and in no other parameter. -/
theorem tagging_reportsRemaining :
    ∃ r, (tagging.retarget (.ofList ["Tag"]) ("Preview" ++ ·) :
        Traced ExpansionError Retargeted).result = .ok r ∧
      r.skipped = [⟨1, "byName", .unsupportedTypeShape "[String: Tag]"⟩] ∧
      ∀ index, (∃ p, r.initializer.parameters[index]? = some p ∧ p.type.mentions "Tag") ↔
        index = 1 := by
  obtain ⟨skipped, hreports⟩ :=
    @retarget_reportsRemaining ExpansionError (.ofList ["Tag"]) tagging
  obtain ⟨initializer, hresult, hreports⟩ := hreports ("Preview" ++ ·)
  have hfresh : ∀ name ∈ (TargetNames.ofList ["Tag"]).names,
      "Preview" ++ name ∉ (TargetNames.ofList ["Tag"]).names := by decide
  have hremaining := hreports.remaining hfresh
  have hskipped : skipped = [⟨1, "byName", .unsupportedTypeShape "[String: Tag]"⟩] := by
    cases hresult
    rfl
  refine ⟨_, hresult, hskipped, fun index => ?_⟩
  simpa [hskipped] using hremaining index

end Initializer

end Remaining

end ModelPreview
