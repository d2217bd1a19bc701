import ModelPreview.Json.Decode
import ModelPreview.Options.Basic

/-!
# Options in documents

Every key may be missing, at the top and in the table of names; what is missing keeps its default.
The names may also be listed without their keys, in the order in which they are written. Then those
at the end may be missing, and what is listed behind the last of them plays no part.
-/

namespace ModelPreview

open Json

namespace Naming

def toJson (n : Naming) : Json :=
  .object [("protocol_suffix", .string n.protocolSuffix),
    ("preview_prefix", .string n.previewPrefix),
    ("observable_protocol_prefix", .string n.observableProtocolPrefix),
    ("observable_preview_prefix", .string n.observablePreviewPrefix)]

/-- The given names, and the defaults in the place of those that are missing. -/
def ofGiven (protocol preview observableProtocol observablePreview : Option String) : Naming where
  protocolSuffix := protocol.getD default.protocolSuffix
  previewPrefix := preview.getD default.previewPrefix
  observableProtocolPrefix := observableProtocol.getD default.observableProtocolPrefix
  observablePreviewPrefix := observablePreview.getD default.observablePreviewPrefix

/-- Names by their keys. -/
def ofFields (fields : Fields) : Decoded Naming := do
  let observablePreview ← fields.decode? "observable_preview_prefix" decodeText
  let observableProtocol ← fields.decode? "observable_protocol_prefix" decodeText
  let preview ← fields.decode? "preview_prefix" decodeText
  let protocol ← fields.decode? "protocol_suffix" decodeText
  return ofGiven protocol preview observableProtocol observablePreview

/-- Names by their places. -/
def ofItems (items : List Json) : Decoded Naming := do
  let protocol ← items[0]?.mapM decodeText
  let preview ← items[1]?.mapM decodeText
  let observableProtocol ← items[2]?.mapM decodeText
  let observablePreview ← items[3]?.mapM decodeText
  return ofGiven protocol preview observableProtocol observablePreview

def ofJson : Json → Decoded Naming
  | .object fields => ofFields fields
  | .array items => ofItems items
  | found => .error (.wrongType found "struct NamingConvention")

end Naming

namespace Options

def toJson (o : Options) : Json :=
  .object [("model_attribute", .string o.modelAttribute),
    ("relationship_attributes", ofTexts o.relationshipAttributes),
    ("naming", o.naming.toJson),
    ("emit_observable", .bool o.emitObservable),
    ("indent", .string o.indent)]

def ofJson (json : Json) : Decoded Options := do
  let fields ← decodeFields "struct SynthesisOptions" json
  let emitObservable ← fields.decode? "emit_observable" decodeFlag
  let indent ← fields.decode? "indent" decodeText
  let modelAttribute ← fields.decode? "model_attribute" decodeText
  let naming ← fields.decode? "naming" Naming.ofJson
  let relationshipAttributes ← fields.decode? "relationship_attributes" (decodeList decodeText)
  return {
    modelAttribute := modelAttribute.getD default.modelAttribute
    relationshipAttributes := relationshipAttributes.getD default.relationshipAttributes
    naming := naming.getD default.naming
    emitObservable := emitObservable.getD default.emitObservable
    indent := indent.getD default.indent }

end Options

end ModelPreview
