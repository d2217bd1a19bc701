import ModelPreview.ExpansionError
import ModelPreview.TypeExpr.Basic

/-!
# Names under optionals and arrays

A relationship points to a type by name, possibly under optionals and arrays. Such a type is a
list of wrappers around a name, and so is its text: the name between the brackets that the
wrappers open and close. Swapping the name and keeping the wrappers can therefore be done on the
type or on its text.
-/

namespace ModelPreview

/-- What may stand around the name of a relationship's target. -/
inductive Wrapper where
  | optional
  | array
  deriving DecidableEq

namespace Wrapper

/-- The word for a wrapper. -/
def word : Wrapper → String
  | .optional => "optional"
  | .array => "array"

/-- What a wrapper puts in front. -/
def opening : Wrapper → String
  | .optional => ""
  | .array => "["

/-- What a wrapper puts behind. -/
def closing : Wrapper → String
  | .optional => "?"
  | .array => "]"

/-- A type with a wrapper around it. -/
def wrap : Wrapper → TypeExpr → TypeExpr
  | .optional, t => .optional t
  | .array, t => .array t

end Wrapper

/-- A name under wrappers, listed from the outermost inwards. -/
structure WrappedName where
  wrappers : List Wrapper
  name : String
  deriving DecidableEq

namespace WrappedName

/-- The text in front of the name. -/
def before (w : WrappedName) : String :=
  String.join (w.wrappers.map Wrapper.opening)

/-- The text behind the name. -/
def behind (w : WrappedName) : String :=
  String.join (w.wrappers.reverse.map Wrapper.closing)

/-- The text with `name` in place of the own name. -/
def textWith (w : WrappedName) (name : String) : String :=
  w.before ++ name ++ w.behind

/-- The type with `name` in place of the own name. -/
def typeWith (w : WrappedName) (name : String) : TypeExpr :=
  w.wrappers.foldr Wrapper.wrap (.named name)

/-- One more wrapper on the outside. -/
def wrap (wrapper : Wrapper) (w : WrappedName) : WrappedName :=
  { w with wrappers := wrapper :: w.wrappers }

@[simp] theorem typeWith_wrap (wrapper : Wrapper) (w : WrappedName) (name : String) :
    (w.wrap wrapper).typeWith name = wrapper.wrap (w.typeWith name) := rfl

end WrappedName

namespace TypeExpr

/-- The name under a type's optionals and arrays. A type with anything else at its core is
refused, and the core is what the refusal names. -/
def unwrap : TypeExpr → Except ExpansionError WrappedName
  | .named name => .ok ⟨[], name⟩
  | .optional wrapped => WrappedName.wrap .optional <$> wrapped.unwrap
  | .array element => WrappedName.wrap .array <$> element.unwrap
  | core@(.implicitlyUnwrapped _) => .error (.unsupportedTypeShape core.text)
  | core@(.dictionary _ _) => .error (.unsupportedTypeShape core.text)
  | core@(.tuple _) => .error (.unsupportedTypeShape core.text)
  | core@(.function _ _) => .error (.unsupportedTypeShape core.text)
  | core@(.generic _ _) => .error (.unsupportedTypeShape core.text)

end TypeExpr

end ModelPreview
