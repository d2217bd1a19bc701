import ModelPreview.Schema.Definitions

/-!
# Schemas as JSON Schema documents

The schema of a document kind as a JSON Schema of draft 7. Next to a reference other keywords do
not count, so a reference that carries a description is the only element of an `allOf`.
-/

namespace ModelPreview.Schema

def Definition.reference (d : Definition) : Json :=
  .object [("$ref", .string ("#/definitions/" ++ d.name))]

/-- The keywords for a type. -/
def typeKeyword (name : String) : Json.Fields :=
  [("type", .string name)]

/-- The keywords for a slot; `described` tells whether a description stands beside them. -/
def Slot.keywords (described : Bool) : Slot → Json.Fields
  | .text => typeKeyword "string"
  | .nullableText => [("type", .ofTexts ["string", "null"])]
  | .flag => typeKeyword "boolean"
  | .tag word => typeKeyword "string" ++ [("enum", .ofTexts [word])]
  | .one d =>
    if described then [("allOf", .array [d.reference])]
    else [("$ref", .string ("#/definitions/" ++ d.name))]
  | .nullable d => [("anyOf", .array [d.reference, .object (typeKeyword "null")])]
  | .list item minItems =>
    typeKeyword "array" ++ [("items", .object (item.keywords false))] ++
      (if minItems = 0 then [] else [("minItems", .ofNat minItems)])

def Property.toJson (p : Property) : Json :=
  .object (Json.Fields.ofText? "description" p.description ++
    (p.absent.map fun json => ("default", json)).toList ++ p.slot.keywords p.description.isSome)

/-- The keywords for an object. -/
def ObjectForm.keywords (form : ObjectForm) : Json.Fields :=
  Json.Fields.ofText? "description" form.description ++ typeKeyword "object" ++
    [("required", .ofTexts form.required),
      ("properties", .object (form.properties.map fun p => (p.name, p.toJson)))]

/-- The keywords for a definition. -/
def Body.keywords : Body → Json.Fields
  | .words known => typeKeyword "string" ++ [("enum", .ofTexts known)]
  | .object form => form.keywords
  | .oneOf forms => [("oneOf", .array (forms.map fun form => .object form.keywords))]

def Definition.keywords (d : Definition) : Json.Fields :=
  [("description", .string d.description)] ++ d.body.keywords

/-- The keywords of a whole document. -/
def Root.keywords (r : Root) : Json.Fields :=
  [("$schema", .string "http://json-schema.org/draft-07/schema#"),
    ("title", .string r.definition.name)] ++ r.definition.keywords ++
  [("definitions", .object (r.needs.map fun d => (d.name, .object d.keywords)))]

/-- The JSON Schema of a kind of document. -/
def Root.toJson (r : Root) : Json :=
  .object r.keywords

end ModelPreview.Schema
