import ModelPreview.Declaration.Basic
import ModelPreview.TypeExpr.Document

/-!
# Declarations in JSON documents

Optional texts are left out where there is none; fields with a default are always written and may
be missing when read. Members and patterns are tagged objects, so what stands inside them is read
leniently.
-/

namespace ModelPreview

open Json

/-- The words for the kinds of nominal types. -/
def NominalKind.table : List (String × NominalKind) :=
  [("class", .class), ("struct", .struct), ("enum", .enum), ("actor", .actor),
    ("protocol", .protocol)]

def NominalKind.text : NominalKind → String
  | .class => "class"
  | .struct => "struct"
  | .enum => "enum"
  | .actor => "actor"
  | .protocol => "protocol"

def BindingKeyword.table : List (String × BindingKeyword) :=
  [("var", .var), ("let", .let)]

/-- The alternatives of a pattern. -/
inductive Pattern.Alternative where
  | identifier
  | wildcard
  | tuple

def Pattern.Alternative.table : List (String × Pattern.Alternative) :=
  [("identifier", .identifier), ("wildcard", .wildcard), ("tuple", .tuple)]

/-- The alternatives of a member. -/
inductive Member.Alternative where
  | field
  | initializer
  | other

def Member.Alternative.table : List (String × Member.Alternative) :=
  [("field", .field), ("initializer", .initializer), ("other", .other)]

/-- The fields that describe an attribute. -/
def Attribute.toFields (a : Attribute) : Fields :=
  [("name", .string a.name)] ++ Fields.ofText? "arguments" a.arguments

def Attribute.toJson (a : Attribute) : Json :=
  .object a.toFields

mutual

def Pattern.toJson : Pattern → Json
  | .identifier name => .object [("pattern", .string "identifier"), ("name", .string name)]
  | .wildcard => .object [("pattern", .string "wildcard")]
  | .tuple elements =>
    .object [("pattern", .string "tuple"), ("elements", .array (Pattern.toJsonAll elements))]

def Pattern.toJsonAll : List Pattern → List Json
  | [] => []
  | p :: ps => p.toJson :: Pattern.toJsonAll ps

end

/-- The fields that describe a binding. -/
def Binding.toFields (b : Binding) : Fields :=
  [("pattern", b.pattern.toJson)] ++
    (b.type.map fun t => ("type_annotation", t.toJson)).toList ++
    Fields.ofText? "initializer" b.initializer

def Binding.toJson (b : Binding) : Json :=
  .object b.toFields

/-- The fields that describe a property. -/
def Field.toFields (f : Field) : Fields :=
  [("attributes", .array (f.attributes.map Attribute.toJson)),
    ("binding", .string f.keyword.text),
    ("bindings", .array (f.bindings.map Binding.toJson))]

def Field.toJson (f : Field) : Json :=
  .object f.toFields

/-- The fields that describe a parameter. -/
def Parameter.toFields (p : Parameter) : Fields :=
  [("leading_trivia", .string p.leadingTrivia), ("first_name", .string p.firstName)] ++
    Fields.ofText? "second_name" p.secondName ++ [("type", p.type.toJson)] ++
    Fields.ofText? "default_value" p.defaultValue ++ [("trailing_comma", .bool p.trailingComma)]

def Parameter.toJson (p : Parameter) : Json :=
  .object p.toFields

/-- The fields that describe an initializer. -/
def Initializer.toFields (i : Initializer) : Fields :=
  [("modifiers", ofTexts i.modifiers),
    ("parameters", .array (i.parameters.map Parameter.toJson)),
    ("closing_trivia", .string i.closingTrivia)] ++ Fields.ofText? "effects" i.effects ++
    [("body", .string i.body)]

def Initializer.toJson (i : Initializer) : Json :=
  .object i.toFields

/-- The fields that describe a member, its tag in front. -/
def Member.toFields : Member → Fields
  | .field f => ("member", .string "field") :: f.toFields
  | .initializer i => ("member", .string "initializer") :: i.toFields
  | .other kind source =>
    [("member", .string "other"), ("kind", .string kind), ("source", .string source)]

def Member.toJson (m : Member) : Json :=
  .object m.toFields

/-- The fields that describe a declaration. -/
def Declaration.toFields (d : Declaration) : Fields :=
  [("kind", .string d.kind.text), ("name", .string d.name),
    ("attributes", .array (d.attributes.map Attribute.toJson)),
    ("members", .array (d.members.map Member.toJson))]

def Declaration.toJson (d : Declaration) : Json :=
  .object d.toFields

def Attribute.ofJson (json : Json) : Decoded Attribute := do
  let fields ← decodeFields "struct Attribute" json
  let arguments ← fields.textOrNull? "arguments"
  let name ← fields.decode? "name" decodeText
  return { name := ← require "name" name, arguments }

mutual

/-- The pattern that a document describes. -/
def Pattern.ofJson (lenient : Bool) : Json → Decoded Pattern
  | .object fields => do
    match ← decodeTag lenient Pattern.Alternative.table "pattern" fields with
    | .identifier =>
      let name ← Fields.decode? fields "name" decodeText
      return .identifier (← require "name" name)
    | .wildcard => return .wildcard
    | .tuple =>
      let elements ← Pattern.ofListField fields "elements"
      return .tuple (← require "elements" elements)
  | found => .error (.wrongType found "internally tagged enum Pattern")

/-- The list of patterns in a field of a tagged object. -/
def Pattern.ofListField : List (String × Json) → String → Decoded (Option (List Pattern))
  | [], _ => .ok none
  | (k, held) :: rest, key =>
    if key = k then some <$> Pattern.ofList held else Pattern.ofListField rest key

def Pattern.ofList : Json → Decoded (List Pattern)
  | .array items => Pattern.ofItems items
  | found => .error (.wrongType found "a sequence")

def Pattern.ofItems : List Json → Decoded (List Pattern)
  | [] => .ok []
  | item :: rest => do
    let first ← Pattern.ofJson true item
    let others ← Pattern.ofItems rest
    return first :: others

end

def Binding.ofJson (lenient : Bool) (json : Json) : Decoded Binding := do
  let fields ← decodeFields "struct PatternBinding" json
  let initializer ← fields.textOrNull? "initializer"
  let pattern ← fields.decode? "pattern" (Pattern.ofJson lenient)
  let type ← fields.decode? "type_annotation" (decodeNullable (TypeExpr.ofJson lenient))
  return { pattern := ← require "pattern" pattern, type := type.join, initializer }

def Field.ofFields (lenient : Bool) (fields : Fields) : Decoded Field := do
  let attributes ← fields.decode? "attributes" (decodeList Attribute.ofJson)
  let keyword ← fields.decode? "binding" (decodeWord lenient BindingKeyword.table)
  let bindings ← fields.decode? "bindings" (decodeList (Binding.ofJson lenient))
  return {
    attributes := attributes.getD []
    keyword := ← require "binding" keyword
    bindings := ← require "bindings" bindings }

def Field.ofJson (json : Json) : Decoded Field := do
  Field.ofFields false (← decodeFields "struct FieldDecl" json)

def Parameter.ofJson (lenient : Bool) (json : Json) : Decoded Parameter := do
  let fields ← decodeFields "struct Parameter" json
  let defaultValue ← fields.textOrNull? "default_value"
  let firstName ← fields.decode? "first_name" decodeText
  let leadingTrivia ← fields.decode? "leading_trivia" decodeText
  let secondName ← fields.textOrNull? "second_name"
  let trailingComma ← fields.decode? "trailing_comma" decodeFlag
  let type ← fields.decode? "type" (TypeExpr.ofJson lenient)
  return {
    leadingTrivia := leadingTrivia.getD ""
    firstName := ← require "first_name" firstName
    secondName
    type := ← require "type" type
    defaultValue
    trailingComma := trailingComma.getD false }

def Initializer.ofFields (lenient : Bool) (fields : Fields) : Decoded Initializer := do
  let body ← fields.decode? "body" decodeText
  let closingTrivia ← fields.decode? "closing_trivia" decodeText
  let effects ← fields.textOrNull? "effects"
  let modifiers ← fields.decode? "modifiers" (decodeList decodeText)
  let parameters ← fields.decode? "parameters" (decodeList (Parameter.ofJson lenient))
  return {
    modifiers := modifiers.getD []
    parameters := parameters.getD []
    closingTrivia := closingTrivia.getD ""
    effects
    body := ← require "body" body }

def Initializer.ofJson (json : Json) : Decoded Initializer := do
  Initializer.ofFields false (← decodeFields "struct InitializerDecl" json)

/-- The member that a document describes. -/
def Member.ofJson (json : Json) : Decoded Member := do
  let fields ← decodeFields "internally tagged enum Member" json
  match ← decodeTag false Member.Alternative.table "member" fields with
  | .field => return .field (← Field.ofFields true fields)
  | .initializer => return .initializer (← Initializer.ofFields true fields)
  | .other =>
    let kind ← fields.decode? "kind" decodeText
    let source ← fields.decode? "source" decodeText
    return .other (← require "kind" kind) (source.getD "")

/-- The declaration that a document describes. -/
def Declaration.ofJson (json : Json) : Decoded Declaration := do
  let fields ← decodeFields "struct Declaration" json
  let attributes ← fields.decode? "attributes" (decodeList Attribute.ofJson)
  let kind ← fields.decode? "kind" (decodeWord false NominalKind.table)
  let members ← fields.decode? "members" (decodeList Member.ofJson)
  let name ← fields.decode? "name" decodeText
  return {
    kind := ← require "kind" kind
    name := ← require "name" name
    attributes := attributes.getD []
    members := members.getD [] }

@[simp] theorem Pattern.toJsonAll_eq_map (ps : List Pattern) :
    Pattern.toJsonAll ps = ps.map Pattern.toJson := by
  induction ps with
  | nil => rfl
  | cons p ps ih => simp [Pattern.toJsonAll, ih]

@[simp] theorem Pattern.ofItems_eq (items : List Json) :
    Pattern.ofItems items = decodeItems (Pattern.ofJson true) items := by
  induction items with
  | nil => rfl
  | cons item rest ih => simp [Pattern.ofItems, decodeItems, ih]

@[simp] theorem Pattern.ofList_eq (json : Json) :
    Pattern.ofList json = decodeList (Pattern.ofJson true) json := by
  cases json <;> simp [Pattern.ofList, decodeList]

/-- A list of nested patterns is looked up like any other field. -/
@[simp] theorem Pattern.ofListField_eq (fields : Fields) (key : String) :
    Pattern.ofListField fields key = fields.decode? key (decodeList (Pattern.ofJson true)) := by
  induction fields with
  | nil => rfl
  | cons field rest ih =>
    obtain ⟨k, held⟩ := field
    simp only [Pattern.ofListField, Fields.decode?, Fields.get?_cons, Pattern.ofList_eq] at ih ⊢
    split
    · rfl
    · exact ih

end ModelPreview
