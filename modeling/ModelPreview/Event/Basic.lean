import ModelPreview.Diagnostic.Basic
import ModelPreview.ExpansionError
import ModelPreview.Json.Basic

/-!
# Log events

What the program tells about its work, one constructor for each kind of event. The level, the
message and the named fields of an event are functions of it.
-/

namespace ModelPreview

/-- How urgent an event is. -/
inductive LogLevel where
  | error
  | warn
  | info
  | debug
  deriving DecidableEq

/-- The part of the program that an event comes from. -/
inductive LogArea where
  /-- Expansion and the checks that belong to it. -/
  | synthesis
  /-- Commands, files and options. -/
  | commands
  deriving DecidableEq

inductive Event where
  /-- A binding was read as a property of a model. -/
  | fieldClassified (model field : String) (relationship : Bool)
  /-- A parameter's type now points to a variant. -/
  | parameterRewritten (parameter before after : String)
  /-- A parameter's type has no name at its core and mentions no target. -/
  | parameterLeft (parameter type : String)
  /-- A parameter's type mentions a target, but has no name at its core. -/
  | parameterSkipped (model parameter : String) (error : ExpansionError)
  | declarationExpanded (model : String) (fields targets declarations warnings : Nat)
  | inverseValidated (field type : String)
  | schemaViolation (diagnostic : Diagnostic)
  | declarationsLoaded (path : String) (count : Nat)
  | configLoaded (path : String)
  | configMissing (path : String)
  | declarationFailed (model : String) (error : ExpansionError)
  | inverseFailed (error : ExpansionError)
  | outputWritten (path : String)
  | expandFinished (declarations failed : Nat)
  | inverseValid (path : String) (declarations : Nat)
  | schemaWritten (path : String)
  | configExists (path : String)
  | configWritten (path : String)
  deriving DecidableEq

namespace Event

def level : Event → LogLevel
  | .fieldClassified .. | .parameterRewritten .. | .parameterLeft .. | .inverseValidated ..
  | .declarationsLoaded .. => .debug
  | .parameterSkipped .. | .configMissing .. | .configExists .. => .warn
  | .schemaViolation .. | .declarationFailed .. | .inverseFailed .. => .error
  | .declarationExpanded .. | .configLoaded .. | .outputWritten .. | .expandFinished ..
  | .inverseValid .. | .schemaWritten .. | .configWritten .. => .info

def area : Event → LogArea
  | .fieldClassified .. | .parameterRewritten .. | .parameterLeft .. | .parameterSkipped ..
  | .declarationExpanded .. | .inverseValidated .. => .synthesis
  | .schemaViolation .. | .declarationsLoaded .. | .configLoaded .. | .configMissing ..
  | .declarationFailed .. | .inverseFailed .. | .outputWritten .. | .expandFinished ..
  | .inverseValid .. | .schemaWritten .. | .configExists .. | .configWritten .. => .commands

def message : Event → String
  | .fieldClassified .. => "field classified"
  | .parameterRewritten .. => "parameter type rewritten"
  | .parameterLeft .. => "parameter type left as is"
  | .parameterSkipped .. => "relationship parameter not rewritten"
  | .declarationExpanded .. => "declaration expanded"
  | .inverseValidated .. => "inverse relationship validated"
  | .schemaViolation diagnostic => diagnostic.message
  | .declarationsLoaded .. => "declarations loaded"
  | .configLoaded .. => "config loaded"
  | .configMissing .. => "config file not found, using defaults"
  | .declarationFailed _ error => error.message
  | .inverseFailed error => error.message
  | .outputWritten .. => "output written"
  | .expandFinished .. => "expand finished"
  | .inverseValid .. => "inverse relationship is valid"
  | .schemaWritten .. => "schema written"
  | .configExists .. => "config file already exists"
  | .configWritten .. => "config written"

/-- The named fields of an event, its message aside. -/
def details : Event → Json.Fields
  | .fieldClassified model field relationship =>
    [("model", .string model), ("field", .string field), ("relationship", .bool relationship)]
  | .parameterRewritten parameter before after =>
    [("parameter", .string parameter), ("from", .string before), ("to", .string after)]
  | .parameterLeft parameter type => [("parameter", .string parameter), ("ty", .string type)]
  | .parameterSkipped model parameter error =>
    [("model", .string model), ("parameter", .string parameter), ("error", .string error.message)]
  | .declarationExpanded model fields targets declarations warnings =>
    [("model", .string model), ("fields", .ofNat fields), ("relationship_types", .ofNat targets),
      ("declarations", .ofNat declarations), ("warnings", .ofNat warnings)]
  | .inverseValidated field type => [("field", .string field), ("ty", .string type)]
  | .schemaViolation diagnostic =>
    [("code", .string diagnostic.code), ("path", .string diagnostic.path)]
  | .declarationsLoaded path count => [("path", .string path), ("declarations", .ofNat count)]
  | .configLoaded path | .configMissing path | .outputWritten path | .schemaWritten path
  | .configExists path | .configWritten path => [("path", .string path)]
  | .declarationFailed model error => [("model", .string model), ("code", .string error.code)]
  | .inverseFailed error => [("code", .string error.code)]
  | .expandFinished declarations failed =>
    [("declarations", .ofNat declarations), ("failed", .ofNat failed)]
  | .inverseValid path declarations =>
    [("path", .string path), ("declarations", .ofNat declarations)]

end Event

def LogLevel.text : LogLevel → String
  | .error => "ERROR"
  | .warn => "WARN"
  | .info => "INFO"
  | .debug => "DEBUG"

/-- An event as a JSON document. -/
def Event.toJson (e : Event) : Json :=
  .object [("level", .string e.level.text),
    ("fields", .object (("message", .string e.message) :: e.details))]

end ModelPreview
