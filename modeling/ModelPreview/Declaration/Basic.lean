import ModelPreview.TypeExpr.Basic

/-!
# Declarations

A declaration as the host's syntax tree hands it over: attributes, and members in source order.
Everything about an initializer but the types of its parameters is kept as written, so the text of
an initializer whose types stay the same is the text that it was read from.
-/

namespace ModelPreview

/-- The kind of a nominal type. -/
inductive NominalKind where
  | «class»
  | struct
  | enum
  | actor
  | protocol
  deriving DecidableEq

/-- `@Name` or `@Name(arguments)`. -/
structure Attribute where
  name : String
  arguments : Option String
  deriving DecidableEq

/-- What a binding binds. -/
inductive Pattern where
  | identifier (name : String)
  | wildcard
  | tuple (elements : List Pattern)
  deriving Inhabited

/-- The keyword of a property. -/
inductive BindingKeyword where
  | var
  | let
  deriving DecidableEq

/-- `pattern: Type = initializer`, where the type and the initializer may be missing. -/
structure Binding where
  pattern : Pattern
  type : Option TypeExpr
  initializer : Option String

/-- A property declaration with its bindings. -/
structure Field where
  attributes : List Attribute
  keyword : BindingKeyword
  bindings : List Binding

/-- A parameter of an initializer, with what stands around it. -/
structure Parameter where
  leadingTrivia : String
  firstName : String
  secondName : Option String
  type : TypeExpr
  defaultValue : Option String
  trailingComma : Bool
  deriving DecidableEq

/-- An initializer declaration. -/
structure Initializer where
  modifiers : List String
  parameters : List Parameter
  /-- What stands between the last parameter and the closing parenthesis. -/
  closingTrivia : String
  /-- Effect specifiers such as `throws`. -/
  effects : Option String
  /-- The body, with its braces. -/
  body : String
  deriving DecidableEq

/-- A member of a declaration's body. -/
inductive Member where
  | field (field : Field)
  | initializer (initializer : Initializer)
  /-- Anything else, with the host's word for its kind. -/
  | other (kind source : String)

/-- A nominal type declaration. -/
structure Declaration where
  kind : NominalKind
  name : String
  attributes : List Attribute
  members : List Member

/-- How an attribute is written. -/
def Attribute.text (a : Attribute) : String :=
  match a.arguments with
  | some arguments => "@" ++ a.name ++ "(" ++ arguments ++ ")"
  | none => "@" ++ a.name

mutual

/-- How a pattern is written. -/
def Pattern.text : Pattern → String
  | .identifier name => name
  | .wildcard => "_"
  | .tuple elements => "(" ++ ", ".intercalate (Pattern.texts elements) ++ ")"

def Pattern.texts : List Pattern → List String
  | [] => []
  | p :: ps => p.text :: Pattern.texts ps

end

@[simp] theorem Pattern.texts_eq_map (ps : List Pattern) :
    Pattern.texts ps = ps.map Pattern.text := by
  induction ps with
  | nil => rfl
  | cons p ps ih => simp [Pattern.texts, ih]

/-- The keyword as written. -/
def BindingKeyword.text : BindingKeyword → String
  | .var => "var"
  | .let => "let"

/-- `mark` and a text, or nothing if there is no text. -/
def optionalPart (mark : String) : Option String → String
  | some text => mark ++ text
  | none => ""

/-- How a binding is written. -/
def Binding.text (b : Binding) : String :=
  b.pattern.text ++ optionalPart ": " (b.type.map TypeExpr.text) ++ optionalPart " = " b.initializer

/-- The attributes and the keyword of a property. -/
def Field.head (f : Field) : String :=
  " ".intercalate (f.attributes.map Attribute.text ++ [f.keyword.text])

/-- How a parameter is written, with its trivia and its comma. -/
def Parameter.text (p : Parameter) : String :=
  p.leadingTrivia ++ p.firstName ++ optionalPart " " p.secondName ++ ": " ++ p.type.text ++
    optionalPart " = " p.defaultValue ++ (if p.trailingComma then "," else "")

/-- How an initializer is written. -/
def Initializer.text (i : Initializer) : String :=
  String.join (i.modifiers.map (· ++ " ")) ++ "init(" ++
    String.join (i.parameters.map Parameter.text) ++ i.closingTrivia ++ ")" ++
    optionalPart " " i.effects ++ " " ++ i.body

/-- A short word for what a member is. -/
def Member.kindWord : Member → String
  | .field _ => "variable"
  | .initializer _ => "initializer"
  | .other kind _ => kind

/-- Whether an attribute of the given name is attached. -/
def Declaration.carries (d : Declaration) (name : String) : Bool :=
  d.attributes.any (·.name == name)

/-- Whether an attribute with one of the given names is attached. -/
def Field.carriesAny (f : Field) (names : List String) : Bool :=
  f.attributes.any fun a => names.any (· == a.name)

end ModelPreview
