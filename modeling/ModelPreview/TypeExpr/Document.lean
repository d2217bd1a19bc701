import ModelPreview.Json.Decode
import ModelPreview.TypeExpr.Basic

/-!
# Types in JSON documents

A type is an object tagged by `shape`; a type inside another one is read leniently, since its
surroundings are a tagged object.
-/

namespace ModelPreview.TypeExpr

/-- The alternatives of a type expression. -/
inductive Shape where
  | named
  | optional
  | implicitlyUnwrapped
  | array
  | dictionary
  | tuple
  | function
  | generic
  deriving DecidableEq

/-- The words for the alternatives, in the order that numbers them. -/
def Shape.table : List (String × Shape) :=
  [("named", .named), ("optional", .optional), ("implicitly_unwrapped", .implicitlyUnwrapped),
    ("array", .array), ("dictionary", .dictionary), ("tuple", .tuple), ("function", .function),
    ("generic", .generic)]

mutual

def toJson : TypeExpr → Json
  | .named name => .object [("shape", .string "named"), ("name", .string name)]
  | .optional wrapped => .object [("shape", .string "optional"), ("wrapped", wrapped.toJson)]
  | .implicitlyUnwrapped wrapped =>
    .object [("shape", .string "implicitly_unwrapped"), ("wrapped", wrapped.toJson)]
  | .array element => .object [("shape", .string "array"), ("element", element.toJson)]
  | .dictionary key value =>
    .object [("shape", .string "dictionary"), ("key", key.toJson), ("value", value.toJson)]
  | .tuple elements =>
    .object [("shape", .string "tuple"), ("elements", .array (toJsonAll elements))]
  | .function parameters result =>
    .object [("shape", .string "function"), ("parameters", .array (toJsonAll parameters)),
      ("result", result.toJson)]
  | .generic name arguments =>
    .object [("shape", .string "generic"), ("name", .string name),
      ("arguments", .array (toJsonAll arguments))]

def toJsonAll : List TypeExpr → List Json
  | [] => []
  | t :: ts => t.toJson :: toJsonAll ts

end

mutual

/-- The type that a document describes. -/
def ofJson (lenient : Bool) : Json → Decoded TypeExpr
  | .object fields => do
    match ← Json.decodeTag lenient Shape.table "shape" fields with
    | .named =>
      let name ← Json.Fields.decode? fields "name" Json.decodeText
      return .named (← Json.require "name" name)
    | .optional =>
      let wrapped ← ofField fields "wrapped"
      return .optional (← Json.require "wrapped" wrapped)
    | .implicitlyUnwrapped =>
      let wrapped ← ofField fields "wrapped"
      return .implicitlyUnwrapped (← Json.require "wrapped" wrapped)
    | .array =>
      let element ← ofField fields "element"
      return .array (← Json.require "element" element)
    | .dictionary =>
      let key ← ofField fields "key"
      let value ← ofField fields "value"
      return .dictionary (← Json.require "key" key) (← Json.require "value" value)
    | .tuple =>
      let elements ← ofListField fields "elements"
      return .tuple (← Json.require "elements" elements)
    | .function =>
      let parameters ← ofListField fields "parameters"
      let result ← ofField fields "result"
      return .function (← Json.require "parameters" parameters) (← Json.require "result" result)
    | .generic =>
      let arguments ← ofListField fields "arguments"
      let name ← Json.Fields.decode? fields "name" Json.decodeText
      return .generic (← Json.require "name" name) (← Json.require "arguments" arguments)
  | found => .error (.wrongType found "internally tagged enum TypeExpression")

/-- The type in a field of a tagged object. -/
def ofField : List (String × Json) → String → Decoded (Option TypeExpr)
  | [], _ => .ok none
  | (k, held) :: rest, key => if key = k then some <$> ofJson true held else ofField rest key

/-- The list of types in a field of a tagged object. -/
def ofListField : List (String × Json) → String → Decoded (Option (List TypeExpr))
  | [], _ => .ok none
  | (k, held) :: rest, key => if key = k then some <$> ofList held else ofListField rest key

def ofList : Json → Decoded (List TypeExpr)
  | .array items => ofItems items
  | found => .error (.wrongType found "a sequence")

def ofItems : List Json → Decoded (List TypeExpr)
  | [] => .ok []
  | item :: rest => do
    let first ← ofJson true item
    let others ← ofItems rest
    return first :: others

end

@[simp] theorem toJsonAll_eq_map (ts : List TypeExpr) : toJsonAll ts = ts.map toJson := by
  induction ts with
  | nil => rfl
  | cons t ts ih => simp [toJsonAll, ih]

@[simp] theorem ofItems_eq (items : List Json) :
    ofItems items = Json.decodeItems (ofJson true) items := by
  induction items with
  | nil => rfl
  | cons item rest ih => simp [ofItems, Json.decodeItems, ih]

@[simp] theorem ofList_eq (json : Json) : ofList json = Json.decodeList (ofJson true) json := by
  cases json <;> simp [ofList, Json.decodeList]

/-- A nested type is looked up like any other field. -/
@[simp] theorem ofField_eq (fields : Json.Fields) (key : String) :
    ofField fields key = fields.decode? key (ofJson true) := by
  induction fields with
  | nil => rfl
  | cons field rest ih =>
    obtain ⟨k, held⟩ := field
    simp only [ofField, Json.Fields.decode?, Json.Fields.get?_cons] at ih ⊢
    split
    · rfl
    · exact ih

@[simp] theorem ofListField_eq (fields : Json.Fields) (key : String) :
    ofListField fields key = fields.decode? key (Json.decodeList (ofJson true)) := by
  induction fields with
  | nil => rfl
  | cons field rest ih =>
    obtain ⟨k, held⟩ := field
    simp only [ofListField, Json.Fields.decode?, Json.Fields.get?_cons, ofList_eq] at ih ⊢
    split
    · rfl
    · exact ih

end ModelPreview.TypeExpr
