import ModelPreview.Declaration.Document
import ModelPreview.Diagnostic.Document
import ModelPreview.Json.Reader
import ModelPreview.Schema.Validation
import ModelPreview.Traced

/-!
# Input documents

A document is validated against the schema of its kind and then decoded. An array of documents is
validated as a whole first: if one document has a violation, none is decoded, and the violations of
all of them are reported, each with its way from the array.
-/

namespace ModelPreview

/-- Why an input is not accepted. -/
inductive InputError where
  /-- The text is no JSON text. -/
  | notJson
  | invalid (report : DiagnosticReport)
  | undecodable (error : DecodeError)

/-- A kind of document that decodes to values of one type. -/
structure DocumentKind (α : Type) where
  root : Schema.Root
  ofJson : Json → Decoded α

namespace DocumentKind

def declaration : DocumentKind Declaration :=
  ⟨.declaration, Declaration.ofJson⟩

def member : DocumentKind Member :=
  ⟨.member, Member.ofJson⟩

end DocumentKind

/-- A violation as a diagnostic; the way to the whole document is written as a slash. -/
def Schema.Violation.toDiagnostic (v : Schema.Violation) : Diagnostic where
  severity := .error
  code := "schema_violation"
  path := if v.path.isEmpty then "/" else Pointer.text v.path
  message := v.fault.message
  hint := none

namespace DocumentKind

variable {α : Type}

/-- The report of validating one document, reached by `base` from what is read as a whole. -/
def validate (kind : DocumentKind α) (base : Pointer) (document : Json) : DiagnosticReport :=
  .ofList <| (kind.root.violations document).map fun v =>
    Schema.Violation.toDiagnostic { v with path := base ++ v.path }

/-- The report of validating several documents, counted from `start`. -/
def validateAll (kind : DocumentKind α) : (start : Nat) → List Json → DiagnosticReport
  | _, [] => .empty
  | start, document :: rest =>
    (kind.validate [Pointer.index start] document).merge (kind.validateAll (start + 1) rest)

/-- Stop at a report with errors, after logging each of them. -/
def ensureValid (report : DiagnosticReport) : Traced InputError Unit :=
  if report.isOk then pure ()
  else do
    Traced.emitAll (report.errors.map .schemaViolation)
    Traced.fail (.invalid report)

/-- Validate and decode one document. -/
def parse (kind : DocumentKind α) (document : Json) : Traced InputError α := do
  ensureValid (kind.validate [] document)
  Traced.lift ((kind.ofJson document).mapError .undecodable)

/-- Validate and decode a document, or each document of an array. -/
def parseAll (kind : DocumentKind α) : Json → Traced InputError (List α)
  | .array documents => do
    ensureValid (kind.validateAll 0 documents)
    Traced.lift ((Json.decodeItems kind.ofJson documents).mapError .undecodable)
  | document => do
    let value ← kind.parse document
    return [value]

end DocumentKind

/-- The JSON document that a text holds. -/
def readJson (text : String) : Traced InputError Json :=
  match Json.read? text with
  | some json => pure json
  | none => Traced.fail .notJson

/-- The declarations that a text describes. -/
def readDeclarations (text : String) : Traced InputError (List Declaration) := do
  let json ← readJson text
  DocumentKind.declaration.parseAll json

/-- The member that a text describes. -/
def readMember (text : String) : Traced InputError Member := do
  let json ← readJson text
  DocumentKind.member.parse json

/-- What is told about an invalid input. -/
def DiagnosticReport.summary (r : DiagnosticReport) : String :=
  s!"input failed validation with {r.errors.length} error(s)"

end ModelPreview
