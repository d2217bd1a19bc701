import ModelPreview.Json.Basic

/-!
# Schemas of input documents

A schema consists of named definitions. A definition is a word out of several, an object, or one of
several objects. What an object says about its fields may refer to other definitions, and nothing
else may: each step from a definition to another one goes into a field or an item of the document,
so a document can be checked by recursion on itself.
-/

namespace ModelPreview.Schema

/-- The named parts of the input format. -/
inductive Definition where
  | attribute
  | bindingKind
  | declaration
  | declarationKind
  | member
  | parameter
  | pattern
  | patternBinding
  | typeExpression
  deriving DecidableEq

/-- What a field or an item may hold. -/
inductive Slot where
  | text
  | nullableText
  | flag
  /-- Exactly this word. -/
  | tag (word : String)
  | one (definition : Definition)
  /-- Null, or what the definition describes. -/
  | nullable (definition : Definition)
  | list (item : Slot) (minItems : Nat)

/-- A field of an object. -/
structure Property where
  name : String
  slot : Slot
  required : Bool
  /-- What is taken where the field is missing. -/
  absent : Option Json
  description : Option String

/-- An object with the given properties, which are listed by name. Other fields are free. -/
structure ObjectForm where
  description : Option String
  properties : List Property

/-- What a definition says. -/
inductive Body where
  | words (words : List String)
  | object (form : ObjectForm)
  | oneOf (forms : List ObjectForm)

namespace Property

/-- A field that has to be present. -/
def needed (name : String) (slot : Slot) : Property :=
  ⟨name, slot, true, none, none⟩

/-- A field that may be missing. -/
def optional (name : String) (slot : Slot) : Property :=
  ⟨name, slot, false, none, none⟩

/-- A field with a default. -/
def defaulted (name : String) (slot : Slot) (absent : Json) : Property :=
  ⟨name, slot, false, some absent, none⟩

/-- The same field with a description. -/
def described (p : Property) (description : String) : Property :=
  { p with description := some description }

end Property

/-- The names of the properties that have to be present. -/
def ObjectForm.required (form : ObjectForm) : List String :=
  (form.properties.filter Property.required).map Property.name

end ModelPreview.Schema
