import ModelPreview.Input

/-!
# Failures of commands
-/

namespace ModelPreview

/-- Why a command does not succeed. -/
inductive CommandError where
  /-- A member does not pass its check. -/
  | refused (error : ExpansionError)
  /-- A file cannot be read or written, or standard output takes no text. -/
  | files
  /-- A document cannot be printed. -/
  | document
  | input (error : InputError)
  /-- A config file is no TOML text, or has a value of the wrong type. -/
  | config
  | expansionFailed (count : Nat)
  | invalid (reason : String)

namespace CommandError

def message : CommandError → String
  | .refused error => "synthesis error: " ++ error.message
  | .files => "io error"
  | .document => "json error"
  | .input .notJson => "json error"
  | .input (.undecodable error) => "json error: " ++ error.message
  | .input (.invalid report) => report.summary
  | .config => "config decode error"
  | .expansionFailed count => s!"{count} declaration(s) failed to expand"
  | .invalid reason => "invalid argument: " ++ reason

end CommandError

end ModelPreview
