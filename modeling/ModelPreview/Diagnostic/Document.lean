import ModelPreview.Diagnostic.Basic
import ModelPreview.Json.Decode

/-!
# Diagnostics in JSON documents

Fields are written in the order severity, code, path, message, hint, and the hint only where there
is one.
-/

namespace ModelPreview

open Json

def Severity.text : Severity → String
  | .error => "error"
  | .warning => "warning"

def Severity.table : List (String × Severity) :=
  [("error", .error), ("warning", .warning)]

namespace Diagnostic

def toJson (d : Diagnostic) : Json :=
  .object ([("severity", .string d.severity.text), ("code", .string d.code),
    ("path", .string d.path), ("message", .string d.message)] ++ Fields.ofText? "hint" d.hint)

def ofJson (json : Json) : Decoded Diagnostic := do
  let fields ← decodeFields "struct Diagnostic" json
  let code ← fields.decode? "code" decodeText
  let hint ← fields.textOrNull? "hint"
  let message ← fields.decode? "message" decodeText
  let path ← fields.decode? "path" decodeText
  let severity ← fields.decode? "severity" (decodeWord false Severity.table)
  return {
    severity := ← require "severity" severity
    code := ← require "code" code
    path := ← require "path" path
    message := ← require "message" message
    hint }

end Diagnostic

namespace DiagnosticReport

def toJson (r : DiagnosticReport) : Json :=
  .object [("errors", .array (r.errors.map Diagnostic.toJson)),
    ("warnings", .array (r.warnings.map Diagnostic.toJson))]

def ofJson (json : Json) : Decoded DiagnosticReport := do
  let fields ← decodeFields "struct DiagnosticReport" json
  let errors ← fields.decode? "errors" (decodeList Diagnostic.ofJson)
  let warnings ← fields.decode? "warnings" (decodeList Diagnostic.ofJson)
  return { errors := ← require "errors" errors, warnings := ← require "warnings" warnings }

end DiagnosticReport

end ModelPreview
