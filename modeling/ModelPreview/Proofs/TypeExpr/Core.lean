import ModelPreview.Proofs.TypeExpr.Wrapping

/-!
# The core of a type

Below the optionals and arrays of a type stands its core, which is neither of them. Putting a
wrapper around a type changes neither its core nor the names in it, and it is refused as before: the
answer to whether a type has a target, the part that is named if it has none, and the names that a
search can find are all those of the core. So each of them is proved for a core, where a case split
shows it, and carried over wrapper by wrapper.
-/

namespace ModelPreview

namespace TypeExpr

/-- What is left of a type without the optionals and arrays around it. -/
def core : TypeExpr → TypeExpr
  | .optional wrapped => wrapped.core
  | .array element => element.core
  | t => t

/-- Whether a type is of a form that no relationship can have at its core. -/
def isUnsupported : TypeExpr → Bool
  | .implicitlyUnwrapped _ | .dictionary _ _ | .tuple _ | .function _ _ | .generic _ _ => true
  | .named _ | .optional _ | .array _ => false

/-- No wrapper stands around the type. -/
def IsBare (t : TypeExpr) : Prop :=
  ∀ (wrapper : Wrapper) (inner : TypeExpr), t ≠ wrapper.wrap inner

/-- Wrappers are put around a bare type one by one, from the innermost outwards. -/
theorem wrapping_induction {motive : TypeExpr → Prop} (bare : ∀ t, t.IsBare → motive t)
    (wrap : ∀ (wrapper : Wrapper) t, motive t → motive (wrapper.wrap t)) (t : TypeExpr) :
    motive t := by
  fun_induction core t with
  | case1 wrapped ih => exact wrap .optional wrapped ih
  | case2 element ih => exact wrap .array element ih
  | case3 t hoptional harray =>
      apply bare
      intro wrapper inner h
      cases wrapper with
      | optional => exact hoptional inner h
      | array => exact harray inner h

@[simp] theorem core_wrap (wrapper : Wrapper) (t : TypeExpr) : (wrapper.wrap t).core = t.core := by
  cases wrapper <;> rfl

theorem IsBare.core_eq {t : TypeExpr} (h : t.IsBare) : t.core = t := by
  cases t with
  | optional wrapped => exact absurd rfl (h .optional wrapped)
  | array element => exact absurd rfl (h .array element)
  | named | implicitlyUnwrapped | dictionary | tuple | function | generic => rfl

theorem isBare_core (t : TypeExpr) : t.core.IsBare := by
  induction t using wrapping_induction with
  | bare t h => rwa [h.core_eq]
  | wrap wrapper t ih => rwa [core_wrap]

/-- A type is its core under wrappers. -/
theorem exists_wrappers (t : TypeExpr) :
    ∃ wrappers : List Wrapper, t = wrappers.foldr Wrapper.wrap t.core := by
  induction t using wrapping_induction with
  | bare t h => exact ⟨[], h.core_eq.symm⟩
  | wrap wrapper t ih =>
      obtain ⟨wrappers, hwrappers⟩ := ih
      refine ⟨wrapper :: wrappers, ?_⟩
      rw [core_wrap, List.foldr_cons, ← hwrappers]

/-- The text of a type stands unbroken in that of the type with a wrapper around it; a function is
put in parentheses below an optional. -/
theorem exists_text_wrap (wrapper : Wrapper) (t : TypeExpr) :
    ∃ before behind, (wrapper.wrap t).text = before ++ t.text ++ behind := by
  cases wrapper with
  | array => exact ⟨"[", "]", by rw [Wrapper.wrap, text]⟩
  | optional =>
      by_cases hfunction : t.needsParentheses
      · refine ⟨"(", ")?", ?_⟩
        rw [Wrapper.wrap, text, marked, if_pos hfunction, String.append_assoc]
        rfl
      · refine ⟨"", "?", ?_⟩
        rw [Wrapper.wrap, text, marked, if_neg hfunction, String.empty_append]

/-- The text of the core stands unbroken in that of the type. -/
theorem exists_text_core (t : TypeExpr) :
    ∃ before behind, t.text = before ++ t.core.text ++ behind := by
  induction t using wrapping_induction with
  | bare t h =>
      refine ⟨"", "", ?_⟩
      rw [h.core_eq, String.empty_append, String.append_empty]
  | wrap wrapper t ih =>
      obtain ⟨before, behind, htext⟩ := ih
      obtain ⟨opening, closing, hwrap⟩ := t.exists_text_wrap wrapper
      refine ⟨opening ++ before, behind ++ closing, ?_⟩
      rw [core_wrap, hwrap, htext]
      simp only [String.append_assoc]

theorem mentions_wrap (wrapper : Wrapper) (t : TypeExpr) (name : String) :
    (wrapper.wrap t).mentions name = t.mentions name := by
  cases wrapper <;> rfl

/-- A type mentions the names that its core mentions. -/
theorem mentions_core (t : TypeExpr) (name : String) : t.core.mentions name = t.mentions name := by
  induction t using wrapping_induction with
  | bare t h => rw [h.core_eq]
  | wrap wrapper t ih => rw [core_wrap, mentions_wrap, ih]

theorem error?_unwrap_wrap (wrapper : Wrapper) (t : TypeExpr) :
    Except.error? (wrapper.wrap t).unwrap = Except.error? t.unwrap := by
  cases wrapper with
  | optional => exact Except.error?_map t.unwrap (WrappedName.wrap .optional)
  | array => exact Except.error?_map t.unwrap (WrappedName.wrap .array)

/-- A bare type is refused unless it is a name, and the refusal names it. -/
theorem IsBare.error?_unwrap {t : TypeExpr} (h : t.IsBare) :
    Except.error? t.unwrap =
      if t.isUnsupported then some (.unsupportedTypeShape t.text) else none := by
  cases t with
  | optional wrapped => exact absurd rfl (h .optional wrapped)
  | array element => exact absurd rfl (h .array element)
  | named | implicitlyUnwrapped | dictionary | tuple | function | generic => rfl

theorem error?_unwrap (t : TypeExpr) :
    Except.error? t.unwrap =
      if t.core.isUnsupported then some (.unsupportedTypeShape t.core.text) else none := by
  induction t using wrapping_induction with
  | bare t h => rw [h.core_eq, h.error?_unwrap]
  | wrap wrapper t ih => rw [core_wrap, error?_unwrap_wrap, ih]

/-- A type is refused exactly if its core is unsupported, and the refusal names the core. -/
theorem unwrap_eq_error_iff {t : TypeExpr} {e : ExpansionError} :
    t.unwrap = .error e ↔ t.core.isUnsupported ∧ e = .unsupportedTypeShape t.core.text := by
  rw [← Except.error?_eq_some_iff, error?_unwrap, Option.ite_none_right_eq_some, Option.some.injEq,
    eq_comm (a := e)]

/-- What a type unwraps to is decided by its core. -/
structure UnwrapsByCore (t : TypeExpr) : Prop where
  /-- The core stands under optionals and arrays, as many as there are. -/
  wrapped : ∃ wrappers : List Wrapper, t = wrappers.foldr Wrapper.wrap t.core
  bare : t.core.IsBare
  /-- A type is refused exactly if its core is neither wrapped nor a name. -/
  refused_iff : (∃ e, t.unwrap = .error e) ↔ t.core.isUnsupported
  /-- The refusal is about the core, whatever stands around it. -/
  reason : ∀ e, t.unwrap = .error e → e = .unsupportedTypeShape t.core.text
  /-- What the refusal quotes is found in the text of the type. -/
  quoted : ∃ before behind, t.text = before ++ t.core.text ++ behind
  /-- No name stands outside the core. -/
  names : ∀ name, t.mentions name ↔ t.core.mentions name
  /-- A type that is not refused mentions the name that it unwraps to and no other. -/
  resolved : ∀ w, t.unwrap = .ok w → ∀ name, t.mentions name ↔ name = w.name

/-- Unwrapping refuses exactly the types with an unsupported core, and it names the core. -/
theorem unwrapsByCore (t : TypeExpr) : t.UnwrapsByCore := by
  constructor
  case wrapped => exact t.exists_wrappers
  case bare => exact t.isBare_core
  case refused_iff => simp only [unwrap_eq_error_iff, exists_and_left, exists_eq, and_true]
  case reason =>
    intro e he
    exact (unwrap_eq_error_iff.mp he).2
  case quoted => exact t.exists_text_core
  case names =>
    intro name
    rw [mentions_core]
  case resolved =>
    intro w hw name
    rw [mentions_iff_of_unwrap hw, eq_comm]

/-- A function below an optional and an array: the refusal quotes it without the parentheses. -/
example :
    (optional (array (optional (function [named "Item"] (named "Void"))))).text =
        "[((Item) -> Void)?]?" ∧
      (optional (array (optional (function [named "Item"] (named "Void"))))).unwrap =
        .error (.unsupportedTypeShape "(Item) -> Void") := by
  constructor
  · decide
  · rfl

end TypeExpr

end ModelPreview
