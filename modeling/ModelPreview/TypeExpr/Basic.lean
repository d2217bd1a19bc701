/-!
# Type expressions

The types that a Swift declaration annotates its properties and parameters with, their text, and
the names that they mention.

Only a function type needs parentheses below a `?` or a `!`: the marks of every other type stand
behind a closing bracket, a name or another mark.
-/

namespace ModelPreview

/-- A Swift type. -/
inductive TypeExpr where
  /-- `Item`, `Foundation.Date` -/
  | named (name : String)
  /-- `Item?` -/
  | optional (wrapped : TypeExpr)
  /-- `Item!` -/
  | implicitlyUnwrapped (wrapped : TypeExpr)
  /-- `[Item]` -/
  | array (element : TypeExpr)
  /-- `[Key: Item]` -/
  | dictionary (key value : TypeExpr)
  /-- `(A, B)` -/
  | tuple (elements : List TypeExpr)
  /-- `(A, B) -> C` -/
  | function (parameters : List TypeExpr) (result : TypeExpr)
  /-- `Set<A, B>` -/
  | generic (name : String) (arguments : List TypeExpr)
  deriving Inhabited

namespace TypeExpr

mutual

/-- Whether two types are the same. -/
def decEq (s t : TypeExpr) : Decidable (s = t) :=
  if h : s.ctorIdx = t.ctorIdx then
    match s, t, h with
    | .named m, .named n, _ => decidable_of_iff (m = n) (by simp)
    | .optional s, .optional t, _ =>
      match decEq s t with
      | isTrue h => isTrue (by rw [h])
      | isFalse h => isFalse (by simpa using h)
    | .implicitlyUnwrapped s, .implicitlyUnwrapped t, _ =>
      match decEq s t with
      | isTrue h => isTrue (by rw [h])
      | isFalse h => isFalse (by simpa using h)
    | .array s, .array t, _ =>
      match decEq s t with
      | isTrue h => isTrue (by rw [h])
      | isFalse h => isFalse (by simpa using h)
    | .dictionary k s, .dictionary l t, _ =>
      match decEq k l, decEq s t with
      | isTrue h, isTrue h' => isTrue (by rw [h, h'])
      | isFalse h, _ => isFalse (by simp [h])
      | _, isFalse h => isFalse (by simp [h])
    | .tuple ss, .tuple ts, _ =>
      match decEqAll ss ts with
      | isTrue h => isTrue (by rw [h])
      | isFalse h => isFalse (by simpa using h)
    | .function ss s, .function ts t, _ =>
      match decEqAll ss ts, decEq s t with
      | isTrue h, isTrue h' => isTrue (by rw [h, h'])
      | isFalse h, _ => isFalse (by simp [h])
      | _, isFalse h => isFalse (by simp [h])
    | .generic m ss, .generic n ts, _ =>
      match decEqAll ss ts with
      | isTrue h => decidable_of_iff (m = n) (by simp [h])
      | isFalse h => isFalse (by simp [h])
  else isFalse fun e => h (congrArg TypeExpr.ctorIdx e)

/-- Whether two lists of types are the same. -/
def decEqAll : (ss ts : List TypeExpr) → Decidable (ss = ts)
  | [], [] => isTrue rfl
  | [], _ :: _ => isFalse nofun
  | _ :: _, [] => isFalse nofun
  | s :: ss, t :: ts =>
    match decEq s t, decEqAll ss ts with
    | isTrue h, isTrue h' => isTrue (by rw [h, h'])
    | isFalse h, _ => isFalse (by simp [h])
    | _, isFalse h => isFalse (by simp [h])

end

instance : DecidableEq TypeExpr := decEq

/-- A type needs parentheses when a mark follows it. -/
def needsParentheses : TypeExpr → Bool
  | .function _ _ => true
  | _ => false

/-- Put `mark` behind the text of the type `wrapped`. -/
def marked (wrapped : TypeExpr) (text mark : String) : String :=
  if wrapped.needsParentheses then "(" ++ text ++ ")" ++ mark else text ++ mark

mutual

/-- How a type is written. -/
def text : TypeExpr → String
  | .named name => name
  | .optional wrapped => wrapped.marked wrapped.text "?"
  | .implicitlyUnwrapped wrapped => wrapped.marked wrapped.text "!"
  | .array element => "[" ++ element.text ++ "]"
  | .dictionary key value => "[" ++ key.text ++ ": " ++ value.text ++ "]"
  | .tuple elements => "(" ++ ", ".intercalate (texts elements) ++ ")"
  | .function parameters result =>
    "(" ++ ", ".intercalate (texts parameters) ++ ") -> " ++ result.text
  | .generic name arguments => name ++ "<" ++ ", ".intercalate (texts arguments) ++ ">"

/-- How each of several types is written. -/
def texts : List TypeExpr → List String
  | [] => []
  | t :: ts => t.text :: texts ts

end

@[simp] theorem texts_eq_map (ts : List TypeExpr) : texts ts = ts.map text := by
  induction ts with
  | nil => rfl
  | cons t ts ih => simp [texts, ih]

mutual

/-- Whether `name` stands anywhere in a type, be it as a plain name or as that of a generic. -/
def mentions (name : String) : TypeExpr → Bool
  | .named own => own == name
  | .optional wrapped => wrapped.mentions name
  | .implicitlyUnwrapped wrapped => wrapped.mentions name
  | .array element => element.mentions name
  | .dictionary key value => key.mentions name || value.mentions name
  | .tuple elements => anyMentions name elements
  | .function parameters result => anyMentions name parameters || result.mentions name
  | .generic own arguments => own == name || anyMentions name arguments

/-- Whether `name` stands in one of several types. -/
def anyMentions (name : String) : List TypeExpr → Bool
  | [] => false
  | t :: ts => t.mentions name || anyMentions name ts

end

@[simp] theorem anyMentions_eq_any (name : String) (ts : List TypeExpr) :
    anyMentions name ts = ts.any (mentions name) := by
  induction ts with
  | nil => rfl
  | cons t ts ih => simp [anyMentions, ih]

end TypeExpr

end ModelPreview
