import ModelPreview.Json.Pointer
import ModelPreview.Json.Printer
import ModelPreview.Schema.Definitions

/-!
# Validation of documents

The violations of a document in a fixed order: for an object those of its fields by name, then its
missing fields, then its own type; for an array those of its items, then its length, then its type;
for a word its value, then its type. A choice has one violation of its own and none of its
alternatives, unless exactly one alternative fits.
-/

namespace ModelPreview.Schema

/-- What is wrong with a value. -/
inductive Fault where
  | notOfType (found : Json) (expected : List String)
  | notOneOf (found : Json) (words : List String)
  | missing (name : String)
  | tooFew (found : Json) (least : Nat)
  | noAlternative (found : Json) (keyword : String)

/-- A fault and where it is. -/
structure Violation where
  path : Pointer
  fault : Fault

/-- Names between quotes, with a comma between them. -/
def quotedList (separator : String) (names : List String) : String :=
  separator.intercalate (names.map Json.Printer.quoted)

def Fault.message : Fault → String
  | .notOfType found expected =>
    found.compact ++ (if expected.length = 1 then " is not of type " else " is not of types ") ++
      quotedList ", " expected
  | .notOneOf found words => found.compact ++ " is not one of [" ++ quotedList "," words ++ "]"
  | .missing name => Json.Printer.quoted name ++ " is a required property"
  | .tooFew found least =>
    found.compact ++ s!" has less than {least} item" ++ (if least = 1 then "" else "s")
  | .noAlternative found keyword =>
    found.compact ++ " is not valid under any of the schemas listed in the '" ++ keyword ++
      "' keyword"

namespace Violation

/-- A violation at the value itself. -/
def here (fault : Fault) : Violation :=
  ⟨[], fault⟩

/-- A violation of a part, seen from the whole. -/
def under (token : String) (v : Violation) : Violation :=
  { v with path := token :: v.path }

end Violation

/-- The violation of a value that is not of a type. -/
def wrongType (expected : String) (found : Json) : List Violation :=
  [.here (.notOfType found [expected])]

/-- The violations of a value that has to be one of several words. -/
def checkWord (words : List String) : Json → List Violation
  | .string s => if words.contains s then [] else [.here (.notOneOf (.string s) words)]
  | found => .here (.notOneOf found words) :: wrongType "string" found

/-- The violations of required fields that are missing. -/
def checkRequired (form : ObjectForm) (fields : Json.Fields) : List Violation :=
  (form.required.filter fun name => (fields.get? name).isNone).map fun name =>
    .here (.missing name)

/-- The violations of an object, given those of each of its fields. -/
def ObjectForm.check (form : ObjectForm) (fields : Json.Fields)
    (ofField : Property → List Violation) : List Violation :=
  form.properties.flatMap ofField ++ checkRequired form fields

/-- The violations of an object that a definition describes, given those of each of its fields. -/
def Body.checkObject (fields : Json.Fields) (ofField : Property → List Violation) :
    Body → List Violation
  | .words known => checkWord known (.object fields)
  | .object form => form.check fields ofField
  | .oneOf forms =>
    if (forms.filter fun form => (form.check fields ofField).isEmpty).length = 1 then []
    else [.here (.noAlternative (.object fields) "oneOf")]

/-- The violations of a value that is no object. -/
def Body.checkOther (found : Json) : Body → List Violation
  | .words known => checkWord known found
  | .object _ => wrongType "object" found
  | .oneOf _ => [.here (.noAlternative found "oneOf")]

/-- Null, or a value with the given violations. -/
def checkNullable (found : Json) (violations : List Violation) : List Violation :=
  if violations.isEmpty then [] else [.here (.noAlternative found "anyOf")]

/-- The violations of a value that is neither an object nor an array. -/
def Slot.checkScalar : Slot → Json → List Violation
  | .text, .string _ => []
  | .text, found => wrongType "string" found
  | .nullableText, .null => []
  | .nullableText, .string _ => []
  | .nullableText, found => [.here (.notOfType found ["null", "string"])]
  | .flag, .bool _ => []
  | .flag, found => wrongType "boolean" found
  | .tag word, found => checkWord [word] found
  | .one d, found => d.body.checkOther found
  | .nullable _, .null => []
  | .nullable d, found => checkNullable found (d.body.checkOther found)
  | .list _ _, found => wrongType "array" found

/-- The violations of an object in a slot, given those of each of its fields. -/
def Slot.checkObject (fields : Json.Fields) (ofField : Property → List Violation) :
    Slot → List Violation
  | .one d => d.body.checkObject fields ofField
  | .nullable d => checkNullable (.object fields) (d.body.checkObject fields ofField)
  | slot => slot.checkScalar (.object fields)

/-- The violations of an array in a slot, given those of its items for each slot. -/
def Slot.checkArray (items : List Json) (ofItems : Slot → List Violation) : Slot → List Violation
  | .list item least =>
    ofItems item ++
      if items.length < least then [.here (.tooFew (.array items) least)] else []
  | slot => slot.checkScalar (.array items)

mutual

/-- The violations of a value in a slot. -/
def Slot.violations : Json → Slot → List Violation
  | .object fields, slot => slot.checkObject fields (fieldViolations fields)
  | .array items, slot => slot.checkArray items (itemViolations items 0)
  | found, slot => slot.checkScalar found

/-- The violations of the field that a property names, if the field is present. -/
def fieldViolations : List (String × Json) → Property → List Violation
  | [], _ => []
  | (key, held) :: rest, p =>
    if p.name = key then (Slot.violations held p.slot).map (Violation.under key)
    else fieldViolations rest p

/-- The violations of items, counted from `start`. -/
def itemViolations : List Json → (start : Nat) → Slot → List Violation
  | [], _, _ => []
  | item :: rest, start, slot =>
    (Slot.violations item slot).map (Violation.under (Pointer.index start)) ++
      itemViolations rest (start + 1) slot

end

/-- The field of a property is checked by looking it up. -/
theorem fieldViolations_eq (fields : Json.Fields) (p : Property) :
    fieldViolations fields p =
      match fields.get? p.name with
      | none => []
      | some held => (Slot.violations held p.slot).map (Violation.under p.name) := by
  induction fields with
  | nil => rfl
  | cons field rest ih =>
    obtain ⟨key, held⟩ := field
    simp only [fieldViolations, Json.Fields.get?_cons]
    split
    · next h => rw [h]
    · exact ih

/-- The violations of a document. -/
def Root.violations (r : Root) (document : Json) : List Violation :=
  Slot.violations document (.one r.definition)

end ModelPreview.Schema
