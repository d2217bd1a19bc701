import ModelPreview.Json.Printer
import ModelPreview.Options.Document
import ModelPreview.Toml.Reader

/-!
# Config files

Options as a TOML document: scalars first, a list with one item a line, and the names in a table of
their own.
-/

namespace ModelPreview

namespace Config

/-- A text between quotes. TOML has the escapes of JSON, and asks for one more character to be
escaped. -/
def quoted (text : String) : String :=
  String.ofList <| (Json.Printer.quoted text).toList.flatMap fun c =>
    if c.toNat = 0x7f then ['\\', 'u', '0', '0', '7', 'f'] else [c]

def textLine (key text : String) : String :=
  key ++ " = " ++ quoted text ++ "\n"

def flagLine (key : String) (flag : Bool) : String :=
  key ++ " = " ++ (if flag then "true" else "false") ++ "\n"

/-- A list with one item a line, each with a comma behind it. -/
def listLines (key : String) (texts : List String) : String :=
  if texts.isEmpty then key ++ " = []\n"
  else key ++ " = [\n" ++ String.join (texts.map fun t => "    " ++ quoted t ++ ",\n") ++ "]\n"

end Config

open Config

/-- The lines of a table of names. -/
def Naming.toToml (n : Naming) : String :=
  textLine "protocol_suffix" n.protocolSuffix ++
    textLine "preview_prefix" n.previewPrefix ++
    textLine "observable_protocol_prefix" n.observableProtocolPrefix ++
    textLine "observable_preview_prefix" n.observablePreviewPrefix

/-- The text of a config file with the given options. -/
def Options.toToml (o : Options) : String :=
  textLine "model_attribute" o.modelAttribute ++
    listLines "relationship_attributes" o.relationshipAttributes ++
    flagLine "emit_observable" o.emitObservable ++
    textLine "indent" o.indent ++
    "\n[naming]\n" ++ o.naming.toToml

/-- The options that a config file gives, if it is a TOML text with values of the right types. -/
def Options.ofToml? (text : String) : Option Options := do
  let document ← Toml.read? text
  (Options.ofJson document).toOption

end ModelPreview
