import ModelPreview.Proofs.Outcome
import ModelPreview.TypeExpr.Nesting

/-!
# Taking wrappers off and putting them back

Unwrapping a type and wrapping a name are inverse to each other, and swapping the name on the
type gives the same text as swapping it in the text. So it does not matter on which side a name is
swapped: a field is swapped in its text, a parameter in its type.
-/

namespace ModelPreview

namespace WrappedName

@[simp] theorem before_wrap (wrapper : Wrapper) (w : WrappedName) :
    (w.wrap wrapper).before = wrapper.opening ++ w.before := by
  simp [before, wrap]

@[simp] theorem behind_wrap (wrapper : Wrapper) (w : WrappedName) :
    (w.wrap wrapper).behind = w.behind ++ wrapper.closing := by
  simp [behind, wrap]

theorem textWith_wrap (wrapper : Wrapper) (w : WrappedName) (name : String) :
    (w.wrap wrapper).textWith name = wrapper.opening ++ w.textWith name ++ wrapper.closing := by
  simp [textWith, String.append_assoc]

/-- Wrappers are put around a name one by one, from the innermost outwards. -/
theorem induction {motive : WrappedName → Prop} (plain : ∀ name, motive ⟨[], name⟩)
    (wrap : ∀ wrapper w, motive w → motive (w.wrap wrapper)) (w : WrappedName) : motive w := by
  obtain ⟨wrappers, name⟩ := w
  induction wrappers with
  | nil => exact plain name
  | cons wrapper rest ih => exact wrap wrapper ⟨rest, name⟩ ih

/-- Parentheses are never needed around a wrapped name. -/
theorem needsParentheses_typeWith (w : WrappedName) (name : String) :
    (w.typeWith name).needsParentheses = false := by
  induction w using WrappedName.induction with
  | plain => rfl
  | wrap wrapper w _ => cases wrapper <;> rfl

theorem text_typeWith (w : WrappedName) (name : String) :
    (w.typeWith name).text = w.textWith name := by
  induction w using WrappedName.induction with
  | plain own => simp [typeWith, textWith, before, behind, TypeExpr.text]
  | wrap wrapper w ih =>
      rw [typeWith_wrap, textWith_wrap, ← ih]
      cases wrapper with
      | optional =>
          simp [Wrapper.wrap, Wrapper.opening, Wrapper.closing, TypeExpr.text, TypeExpr.marked,
            needsParentheses_typeWith]
      | array => simp [Wrapper.wrap, Wrapper.opening, Wrapper.closing, TypeExpr.text]

theorem unwrap_typeWith (w : WrappedName) (name : String) :
    (w.typeWith name).unwrap = .ok { w with name } := by
  induction w using WrappedName.induction with
  | plain => rfl
  | wrap wrapper w ih =>
      cases wrapper with
      | optional =>
          change WrappedName.wrap .optional <$> (w.typeWith name).unwrap = _
          rw [ih]
          rfl
      | array =>
          change WrappedName.wrap .array <$> (w.typeWith name).unwrap = _
          rw [ih]
          rfl

/-- A wrapped name mentions that name and no other. -/
theorem mentions_typeWith (w : WrappedName) (own name : String) :
    (w.typeWith own).mentions name ↔ own = name := by
  induction w using WrappedName.induction with
  | plain => simp [typeWith, TypeExpr.mentions]
  | wrap wrapper w ih =>
      cases wrapper with
      | optional => exact ih
      | array => exact ih

end WrappedName

namespace TypeExpr

/-- A type unwraps to exactly those wrappers and that name from which it is built. -/
theorem unwrap_eq_ok_iff {t : TypeExpr} {w : WrappedName} :
    t.unwrap = .ok w ↔ w.typeWith w.name = t := by
  constructor
  · intro h
    -- The induction follows `unwrap`: it only recurs under optionals and arrays.
    fun_induction unwrap t generalizing w with
    | case1 name =>
        cases h
        rfl
    | case2 wrapped ih =>
        obtain ⟨inner, hinner, rfl⟩ := Except.map_eq_ok_iff.mp h
        exact congrArg TypeExpr.optional (ih hinner)
    | case3 element ih =>
        obtain ⟨inner, hinner, rfl⟩ := Except.map_eq_ok_iff.mp h
        exact congrArg TypeExpr.array (ih hinner)
    | case4 | case5 | case6 | case7 | case8 => cases h
  · rintro rfl
    exact w.unwrap_typeWith w.name

theorem mentions_iff_of_unwrap {t : TypeExpr} {w : WrappedName} (h : t.unwrap = .ok w)
    {name : String} : t.mentions name ↔ w.name = name := by
  rw [← unwrap_eq_ok_iff.mp h, WrappedName.mentions_typeWith]

/-- Taking a type apart, putting a name back into the type and putting it back into the text agree
under every nesting of optionals and arrays, and nothing is lost on the way in either direction. -/
theorem unwrap_typeWith_textWith_agree :
    (∀ (t : TypeExpr) (w : WrappedName), t.unwrap = .ok w →
      w.typeWith w.name = t ∧ w.textWith w.name = t.text ∧
      ∀ name, (w.typeWith name).text = w.textWith name ∧
        w.textWith name = w.before ++ name ++ w.behind ∧
        (w.typeWith name).unwrap = .ok { w with name }) ∧
    ∀ (wrappers : List Wrapper) (name : String),
      (WrappedName.typeWith ⟨wrappers, name⟩ name).unwrap = .ok ⟨wrappers, name⟩ := by
  constructor
  · intro t w h
    have hself : w.typeWith w.name = t := unwrap_eq_ok_iff.mp h
    refine ⟨hself, ?_, ?_⟩
    · rw [← WrappedName.text_typeWith, hself]
    · intro name
      exact ⟨w.text_typeWith name, rfl, w.unwrap_typeWith name⟩
  · intro wrappers name
    exact WrappedName.unwrap_typeWith ⟨wrappers, name⟩ name

/-- An optional array of optionals is taken apart, gets another name and is taken apart again. -/
theorem optional_array_of_optionals_agrees :
    (optional (array (optional (named "Item")))).unwrap =
      .ok ⟨[.optional, .array, .optional], "Item"⟩ ∧
    (optional (array (optional (named "PreviewItem")))).text = "[" ++ "PreviewItem" ++ "?]?" ∧
    (optional (array (optional (named "PreviewItem")))).unwrap =
      .ok ⟨[.optional, .array, .optional], "PreviewItem"⟩ := by
  have h : (optional (array (optional (named "Item")))).unwrap =
      .ok ⟨[.optional, .array, .optional], "Item"⟩ := rfl
  obtain ⟨-, -, hname⟩ := unwrap_typeWith_textWith_agree.1 _ _ h
  obtain ⟨htext, hparts, hunwrap⟩ := hname "PreviewItem"
  exact ⟨h, htext.trans hparts, hunwrap⟩

/-- The type is built around a name by optionals and arrays only. -/
inductive Wraps (name : String) : TypeExpr → Prop
  | named : Wraps name (.named name)
  | optional {wrapped : TypeExpr} : Wraps name wrapped → Wraps name (.optional wrapped)
  | array {element : TypeExpr} : Wraps name element → Wraps name (.array element)

theorem wraps_typeWith (w : WrappedName) (name : String) : (w.typeWith name).Wraps name := by
  induction w using WrappedName.induction with
  | plain => exact .named
  | wrap wrapper w ih =>
      cases wrapper with
      | optional => exact .optional ih
      | array => exact .array ih

/-- The types that unwrap to a name are those built around it. -/
theorem wraps_iff {t : TypeExpr} {name : String} :
    t.Wraps name ↔ ∃ w, t.unwrap = .ok w ∧ w.name = name := by
  constructor
  · intro h
    induction h with
    | named => exact ⟨⟨[], name⟩, rfl, rfl⟩
    | optional _ ih =>
        obtain ⟨w, hw, hname⟩ := ih
        exact ⟨w.wrap .optional, Except.map_eq_ok_iff.mpr ⟨w, hw, rfl⟩, hname⟩
    | array _ ih =>
        obtain ⟨w, hw, hname⟩ := ih
        exact ⟨w.wrap .array, Except.map_eq_ok_iff.mpr ⟨w, hw, rfl⟩, hname⟩
  · rintro ⟨w, hw, rfl⟩
    rw [← unwrap_eq_ok_iff.mp hw]
    exact wraps_typeWith w w.name

/-- The name under a type's optionals and arrays, if there is nothing else above it. -/
def innermost? : TypeExpr → Option String
  | .named name => some name
  | .optional wrapped => wrapped.innermost?
  | .array element => element.innermost?
  | _ => none

theorem innermost?_eq_some_iff {t : TypeExpr} {name : String} :
    t.innermost? = some name ↔ t.Wraps name := by
  constructor
  · intro h
    fun_induction innermost? t with
    | case1 own =>
        cases h
        exact .named
    | case2 wrapped ih => exact .optional (ih h)
    | case3 element ih => exact .array (ih h)
    | case4 => cases h
  · intro h
    induction h with
    | named => rfl
    | optional _ ih | array _ ih => exact ih

end TypeExpr

end ModelPreview
