import ModelPreview.Diagnostic.Document
import ModelPreview.Expansion
import ModelPreview.Json.Printer

/-!
# Reports

One report for each declaration of a batch: what it expanded to, or why it did not. A batch is
written as source text, where failed declarations leave no trace, or as a JSON document.
-/

namespace ModelPreview

/-- The printed declarations of an expansion and its warnings. -/
structure Rendered where
  declarations : List String
  warnings : List Diagnostic

/-- What became of one declaration. -/
structure Report where
  name : String
  outcome : Except ExpansionError Rendered

namespace Report

/-- The report of a declaration's expansion. -/
def ofResult (indent name : String) (result : Except ExpansionError Expansion) : Report where
  name
  outcome := result.map fun e => ⟨e.texts indent, e.warnings⟩

/-- The report of expanding a declaration on its own. -/
def ofDeclaration (options : Options) (d : Declaration) : Report :=
  ofResult options.indent d.name (d.expand options).result

/-- The printed declarations, none after a failure. -/
def declarations (r : Report) : List String :=
  match r.outcome with
  | .ok rendered => rendered.declarations
  | .error _ => []

def warnings (r : Report) : List Diagnostic :=
  match r.outcome with
  | .ok rendered => rendered.warnings
  | .error _ => []

def error? (r : Report) : Option ExpansionError :=
  match r.outcome with
  | .ok _ => none
  | .error e => some e

/-- Whether the declaration did not expand. -/
def failed (r : Report) : Bool :=
  r.error?.isSome

/-- How many declarations of a batch did not expand. -/
def failures (rs : List Report) : Nat :=
  rs.countP failed

/-- All printed declarations with a blank line between them, and a newline at the end. -/
def renderText (rs : List Report) : String :=
  let texts := rs.flatMap declarations
  if texts.isEmpty then "" else "\n\n".intercalate texts ++ "\n"

def errorFields (r : Report) : Json.Fields :=
  match r.error? with
  | some e => [("error", .object [("code", .string e.code), ("message", .string e.message)])]
  | none => []

def toJson (r : Report) : Json :=
  .object ([("name", .string r.name), ("declarations", Json.ofTexts r.declarations),
    ("warnings", .array (r.warnings.map Diagnostic.toJson))] ++ r.errorFields)

/-- The batch as an indented JSON document with a newline at the end. -/
def renderJson (rs : List Report) : String :=
  (Json.array (rs.map toJson)).pretty ++ "\n"

end Report

end ModelPreview
