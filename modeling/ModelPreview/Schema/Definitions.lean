import ModelPreview.Schema.Basic

/-!
# The definitions of the input format

Declarations and everything inside them. The objects of one choice differ in the word of their tag.
-/

namespace ModelPreview.Schema

open Property

/-- The name of a definition in schema text. -/
def Definition.name : Definition → String
  | .attribute => "Attribute"
  | .bindingKind => "BindingKind"
  | .declaration => "Declaration"
  | .declarationKind => "DeclarationKind"
  | .member => "Member"
  | .parameter => "Parameter"
  | .pattern => "Pattern"
  | .patternBinding => "PatternBinding"
  | .typeExpression => "TypeExpression"

def Definition.description : Definition → String
  | .attribute => "Attribute such as `@Model` or `@Relationship(deleteRule: .cascade)`."
  | .bindingKind => "`var` or `let`."
  | .declaration => "Top-level declaration handed over by the host for expansion."
  | .declarationKind => "Kind of nominal type declaration."
  | .member => "Member of a declaration body."
  | .parameter => "Initializer parameter."
  | .pattern => "Binding pattern of a variable declaration."
  | .patternBinding => "A single `pattern: Type = initializer` binding."
  | .typeExpression =>
    "Structured type annotation as supplied by the host syntax tree.\n\nOnly `Named`, " ++
      "`Optional` and `Array` participate in relationship resolution; the remaining shapes " ++
      "exist so that the engine can reject them with a rendered description instead of " ++
      "mis-rendering them."

/-- A list without a least length. -/
def listOf (item : Slot) : Slot :=
  .list item 0

def attributeProperties : List Property :=
  [(optional "arguments" .nullableText).described
      "Raw argument list without the surrounding parentheses.",
    needed "name" .text]

def declarationProperties : List Property :=
  [(defaulted "attributes" (listOf (.one .attribute)) (.array [])).described
      "Attributes attached to the declaration, in source order.",
    (needed "kind" (.one .declarationKind)).described "Kind of nominal type being declared.",
    (defaulted "members" (listOf (.one .member)) (.array [])).described
      "Members of the declaration body, in source order.",
    (needed "name" .text).described "Declared type name (e.g. `Item`)."]

def memberForms : List ObjectForm :=
  [{ description := some "Stored property declaration (`var` / `let`)."
     properties :=
      [defaulted "attributes" (listOf (.one .attribute)) (.array []),
        needed "binding" (.one .bindingKind),
        needed "bindings" (.list (.one .patternBinding) 1),
        needed "member" (.tag "field")] },
    { description := some "Initializer declaration."
      properties :=
      [(needed "body" .text).described "Body text including the braces.",
        (defaulted "closing_trivia" .text (.string "")).described
          "Trivia between the last parameter and the closing parenthesis.",
        (optional "effects" .nullableText).described
          "Effect specifiers such as `throws` or `async throws`.",
        needed "member" (.tag "initializer"),
        (defaulted "modifiers" (listOf .text) (.array [])).described
          "Modifiers such as `public` or `convenience`.",
        defaulted "parameters" (listOf (.one .parameter)) (.array [])] },
    { description := some "Anything else (functions, computed properties, nested types, ...)."
      properties :=
      [(needed "kind" .text).described "Host-supplied kind label (e.g. `function`, `subscript`).",
        needed "member" (.tag "other"),
        (defaulted "source" .text (.string "")).described "Source text of the member."] }]

def parameterProperties : List Property :=
  [(optional "default_value" .nullableText).described
      "Default argument expression text, without the leading `=`.",
    (needed "first_name" .text).described
      "Argument label, or the name when no separate label is given.",
    (defaulted "leading_trivia" .text (.string "")).described
      "Trivia before the parameter (newlines and indentation).",
    (optional "second_name" .nullableText).described
      "Parameter name when it differs from the argument label.",
    defaulted "trailing_comma" .flag (.bool false),
    needed "type" (.one .typeExpression)]

def patternForms : List ObjectForm :=
  [{ description := none
     properties := [needed "name" .text, needed "pattern" (.tag "identifier")] },
    { description := none, properties := [needed "pattern" (.tag "wildcard")] },
    { description := none
      properties :=
      [needed "elements" (listOf (.one .pattern)), needed "pattern" (.tag "tuple")] }]

def bindingProperties : List Property :=
  [(optional "initializer" .nullableText).described
      "Default-value expression text, without the leading `=`.",
    needed "pattern" (.one .pattern),
    optional "type_annotation" (.nullable .typeExpression)]

def typeForms : List ObjectForm :=
  [{ description := some "Plain identifier type (e.g. `UUID`, `Foundation.Date`)."
     properties := [needed "name" .text, needed "shape" (.tag "named")] },
    { description := some "`Wrapped?`"
      properties := [needed "shape" (.tag "optional"), needed "wrapped" (.one .typeExpression)] },
    { description := some "`Wrapped!`"
      properties :=
      [needed "shape" (.tag "implicitly_unwrapped"), needed "wrapped" (.one .typeExpression)] },
    { description := some "`[Element]`"
      properties := [needed "element" (.one .typeExpression), needed "shape" (.tag "array")] },
    { description := some "`[Key: Value]`"
      properties :=
      [needed "key" (.one .typeExpression), needed "shape" (.tag "dictionary"),
        needed "value" (.one .typeExpression)] },
    { description := some "`(A, B)`"
      properties :=
      [needed "elements" (listOf (.one .typeExpression)), needed "shape" (.tag "tuple")] },
    { description := some "`(A, B) -> R`"
      properties :=
      [needed "parameters" (listOf (.one .typeExpression)),
        needed "result" (.one .typeExpression), needed "shape" (.tag "function")] },
    { description := some "`Name<A, B>`"
      properties :=
      [needed "arguments" (listOf (.one .typeExpression)), needed "name" .text,
        needed "shape" (.tag "generic")] }]

/-- What each definition says. -/
def Definition.body : Definition → Body
  | .attribute => .object ⟨none, attributeProperties⟩
  | .bindingKind => .words ["var", "let"]
  | .declaration => .object ⟨none, declarationProperties⟩
  | .declarationKind => .words ["class", "struct", "enum", "actor", "protocol"]
  | .member => .oneOf memberForms
  | .parameter => .object ⟨none, parameterProperties⟩
  | .pattern => .oneOf patternForms
  | .patternBinding => .object ⟨none, bindingProperties⟩
  | .typeExpression => .oneOf typeForms

/-- The documents that the program reads. -/
inductive Root where
  | declaration
  | member
  deriving DecidableEq

def Root.definition : Root → Definition
  | .declaration => .declaration
  | .member => .member

/-- The definitions that a document of each kind may need, by name. -/
def Root.needs : Root → List Definition
  | .declaration =>
    [.attribute, .bindingKind, .declarationKind, .member, .parameter, .pattern, .patternBinding,
      .typeExpression]
  | .member => [.attribute, .bindingKind, .parameter, .pattern, .patternBinding, .typeExpression]

end ModelPreview.Schema
