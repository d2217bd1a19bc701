import ModelPreview.Proofs.TypeExpr.Wrapping
import ModelPreview.Retarget

/-!
# What retargeting an initializer gives

Retargeting never fails and treats each parameter by itself. A parameter keeps everything but its
type, and the parameters that are skipped do not depend on the new names.
-/

namespace ModelPreview

variable (targets : TargetNames) (rename : String → String)

/-- The type with its target renamed, or the type itself where its name is no target. -/
def TypeExpr.retargeted (t : TypeExpr) : TypeExpr :=
  match t.unwrap with
  | .ok w => if w.name ∈ targets.names then w.typeWith (rename w.name) else t
  | .error _ => t

/-- The parameter with its type retargeted. -/
def Parameter.retargeted (p : Parameter) : Parameter :=
  { p with type := p.type.retargeted targets rename }

/-- The initializer with all parameters retargeted. -/
def Initializer.retargeted (i : Initializer) : Initializer :=
  { i with parameters := i.parameters.map (Parameter.retargeted targets rename) }

/-- What is reported about the parameter at `index`, if it is skipped. -/
def Parameter.skipped? (index : Nat) (p : Parameter) : Option SkippedParameter :=
  match p.type.unwrap with
  | .ok _ => none
  | .error reason =>
    if p.type.mentionsAny targets then some { index, name := p.firstName, reason } else none

/-- The skipped ones among parameters counted from `start`. -/
def Initializer.skippedFrom : (start : Nat) → List Parameter → List SkippedParameter
  | _, [] => []
  | start, p :: rest => (p.skipped? targets start).toList ++ skippedFrom (start + 1) rest

/-- The skipped parameters of an initializer. -/
def Initializer.skipped (i : Initializer) : List SkippedParameter :=
  Initializer.skippedFrom targets 0 i.parameters

variable {targets rename}

theorem TypeExpr.retarget_eq_ok {t : TypeExpr} {w : WrappedName} (h : t.unwrap = .ok w) :
    t.retarget targets rename =
      .ok (if w.name ∈ targets.names then some (w.typeWith (rename w.name)) else none) := by
  simp only [retarget, h, TargetNames.contains_iff]
  rfl

theorem TypeExpr.retarget_eq_error {t : TypeExpr} {reason : ExpansionError}
    (h : t.unwrap = .error reason) : t.retarget targets rename = .error reason := by
  rw [retarget, h]
  rfl

theorem Initializer.result_retargetFrom {ε : Type} (start : Nat) (ps : List Parameter) :
    (retargetFrom targets rename start ps : Traced ε _).result =
      .ok (ps.map (Parameter.retargeted targets rename), skippedFrom targets start ps) := by
  induction ps generalizing start with
  | nil => rfl
  | cons p rest ih =>
      rw [retargetFrom, skippedFrom, List.map_cons, Parameter.skipped?, Parameter.retargeted,
        TypeExpr.retargeted]
      cases hunwrap : p.type.unwrap with
      | ok w =>
          rw [TypeExpr.retarget_eq_ok hunwrap]
          by_cases hw : w.name ∈ targets.names
          · simp only [hw, if_true, Traced.result_bind, Traced.result_emit, Except.ok_bind, ih,
              Traced.result_pure, Option.toList_none, List.nil_append]
          · simp only [hw, if_false, Traced.result_bind, Except.ok_bind, ih, Traced.result_pure,
              Option.toList_none, List.nil_append]
      | error reason =>
          rw [TypeExpr.retarget_eq_error hunwrap]
          by_cases hm : p.type.mentionsAny targets
          · simp only [hm, if_true, Traced.result_bind, Except.ok_bind, ih, Traced.result_pure,
              Option.toList_some, List.singleton_append]
          · simp only [hm, Bool.false_eq_true, if_false, Traced.result_bind, Traced.result_emit,
              Except.ok_bind, ih, Traced.result_pure, Option.toList_none, List.nil_append]

/-- A parameter whose innermost name is a target points to the new name, under its wrappers. -/
theorem Parameter.retargeted_of_mem (rename : String → String) {p : Parameter} {w : WrappedName}
    (hunwrap : p.type.unwrap = .ok w) (hmem : w.name ∈ targets.names) :
    p.retargeted targets rename = { p with type := w.typeWith (rename w.name) } := by
  rw [retargeted, TypeExpr.retargeted, hunwrap]
  simp only [if_pos hmem]

/-- Every other parameter stays as it is. -/
theorem Parameter.retargeted_of_not_mem (rename : String → String) {p : Parameter}
    (h : ∀ w, p.type.unwrap = .ok w → w.name ∉ targets.names) :
    p.retargeted targets rename = p := by
  unfold retargeted TypeExpr.retargeted
  split
  · next w hunwrap => rw [if_neg (h w hunwrap)]
  · rfl

theorem Parameter.retargeted_of_refused (rename : String → String) {p : Parameter}
    {reason : ExpansionError} (h : p.type.unwrap = .error reason) :
    p.retargeted targets rename = p := by
  refine retargeted_of_not_mem rename fun w hunwrap => ?_
  rw [h] at hunwrap
  cases hunwrap

/-- Without targets nothing changes and nothing is skipped. -/
theorem Initializer.retargeted_of_isEmpty (rename : String → String) (i : Initializer)
    (h : targets.isEmpty) :
    i.retargeted targets rename = i ∧ i.skipped targets = [] := by
  have hnames : targets.names = [] := List.isEmpty_iff.mp h
  constructor
  · have hall : ∀ p ∈ i.parameters, Parameter.retargeted targets rename p = p := by
      intro p _
      exact Parameter.retargeted_of_not_mem rename (by simp [hnames])
    rw [retargeted, List.map_congr_left hall, List.map_id']
  · have hall : ∀ start ps, skippedFrom targets start ps = [] := by
      intro start ps
      induction ps generalizing start with
      | nil => rfl
      | cons p rest ih =>
          rw [skippedFrom, ih, Parameter.skipped?]
          split <;> simp [TypeExpr.mentionsAny, hnames]
    exact hall 0 i.parameters

theorem Initializer.result_retarget {ε : Type} (i : Initializer) :
    (i.retarget targets rename : Traced ε Retargeted).result =
      .ok ⟨i.retargeted targets rename, i.skipped targets⟩ := by
  unfold retarget
  split
  · next h =>
      obtain ⟨hsame, hnone⟩ := i.retargeted_of_isEmpty rename h
      rw [hsame, hnone]
      rfl
  · simp only [Traced.result_bind, result_retargetFrom, Except.ok_bind, Traced.result_pure,
      retargeted, skipped]

end ModelPreview
