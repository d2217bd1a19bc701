import ModelPreview.Generated.Printer
import ModelPreview.Json.Pointer
import ModelPreview.ModelClass
import ModelPreview.Retarget

/-!
# Expansions

A model class expands to a protocol with its properties, a preview struct, and, unless observable
variants are turned off, a protocol and a class for observation. Each target of a relationship is
an associated type of the protocol, and each variant replaces the targets by their variants of the
same kind, in its stored properties and in its initializer alike.
-/

namespace ModelPreview

/-- The generated declarations of one model, and what could not be done about it. -/
structure Expansion where
  declarations : List Generated.Declaration
  warnings : List Diagnostic
  deriving DecidableEq

namespace Expansion

def empty : Expansion :=
  ⟨[], []⟩

def isEmpty (e : Expansion) : Bool :=
  e.declarations.isEmpty

/-- The text of each declaration. -/
def texts (indent : String) (e : Expansion) : List String :=
  e.declarations.map (·.text indent)

end Expansion

/-- How deep default texts are indented. -/
def defaultIndent : String := "  "

/-- A property of a model, with the target that it points to if it is a relationship. -/
structure ResolvedField where
  field : ModelField
  target : Option WrappedName

namespace ResolvedField

/-- Find the target of a property. -/
def ofField (f : ModelField) : Except ExpansionError ResolvedField :=
  if f.isRelationship then do
    let w ← f.type.unwrap
    return ⟨f, some w⟩
  else .ok ⟨f, none⟩

/-- Find the targets of all properties; the first one without a target is the error. -/
def ofFields : List ModelField → Except ExpansionError (List ResolvedField)
  | [] => .ok []
  | f :: rest => do
    let first ← ofField f
    let others ← ofFields rest
    return first :: others

/-- What the protocol asks for. -/
def requirement (r : ResolvedField) : Generated.Member :=
  .propertyRequirement r.field.name r.field.type.text

/-- The type of the property in a variant, where `rename` gives the target's variant. -/
def typeText (rename : String → String) (r : ResolvedField) : String :=
  match r.target with
  | some w => w.textWith (rename w.name)
  | none => r.field.type.text

/-- The property in a variant. -/
def storedProperty (rename : String → String) (r : ResolvedField) : Generated.Member :=
  .storedProperty r.field.keyword r.field.name (r.typeText rename) r.field.defaultValue

/-- The targets of properties, in order of first occurrence. -/
def targets (rs : List ResolvedField) : TargetNames :=
  .ofList (rs.filterMap fun r => r.target.map WrappedName.name)

end ResolvedField

namespace ModelClass

/-- The warning about a parameter that was skipped. -/
def warning (m : ModelClass) (s : SkippedParameter) : Diagnostic where
  severity := .warning
  code := "relationship_parameter_not_rewritten"
  path := Pointer.text
    ["members", Pointer.index m.initializerIndex, "parameters", Pointer.index s.index]
  message :=
    s!"parameter `{s.name}` of `{m.name}` refers to a relationship type but was left unchanged: " ++
      s.reason.message
  hint := some
    "use a named type wrapped only in optionals or arrays for relationship parameters"

/-- The event about a parameter that was skipped. -/
def skippedEvent (m : ModelClass) (s : SkippedParameter) : Event :=
  .parameterSkipped m.name s.name s.reason

/-- The protocol with the properties of a model. -/
def protocol (naming : Naming) (m : ModelClass) (rs : List ResolvedField) (targets : TargetNames) :
    Generated.Declaration where
  attributes := []
  modifiers := []
  kind := .protocol
  name := naming.protocolName m.name
  inherited := []
  whereClause := []
  members :=
    targets.names.map (fun name => .associatedType name (naming.protocolName name)) ++
      rs.map ResolvedField.requirement

/-- The protocol of the observable variant, which asks the same of the targets. -/
def observableProtocol (naming : Naming) (m : ModelClass) (targets : TargetNames) :
    Generated.Declaration where
  attributes := []
  modifiers := []
  kind := .protocol
  name := naming.observableProtocolName m.name
  inherited := [naming.protocolName m.name, "Observable"]
  whereClause :=
    targets.names.map fun name => name ++ ": " ++ naming.observableProtocolName name
  members := []

/-- A variant of a model with the given members. -/
def variant (naming : Naming) (m : ModelClass) (members : List Generated.Member) :
    Variant → Generated.Declaration
  | .preview =>
    { attributes := []
      modifiers := []
      kind := .struct
      name := naming.previewName m.name
      inherited := [naming.protocolName m.name]
      whereClause := []
      members }
  | .observablePreview =>
    { attributes := ["@Observable"]
      modifiers := ["final"]
      kind := .class
      name := naming.observablePreviewName m.name
      inherited := [naming.observableProtocolName m.name]
      whereClause := []
      members }

/-- The properties of a variant, followed by its initializer. -/
def variantMembers (naming : Naming) (rs : List ResolvedField) (v : Variant)
    (initializer : Initializer) : List Generated.Member :=
  rs.map (ResolvedField.storedProperty (naming.variantName v)) ++ [.initializer initializer]

/-- The initializers of several variants, in order. -/
def variantInitializers (naming : Naming) (m : ModelClass) (targets : TargetNames) :
    List Variant → Traced ExpansionError (List (Variant × Retargeted))
  | [] => pure []
  | v :: rest => do
    let first ← m.initializer.retarget targets (naming.variantName v)
    let others ← variantInitializers naming m targets rest
    return (v, first) :: others

/-- The initializers of all variants and the parameters that they skip. Which parameters are
skipped does not depend on the variant, so they are reported once, after the first. -/
def initializers (naming : Naming) (m : ModelClass) (targets : TargetNames) :
    List Variant → Traced ExpansionError (List (Variant × Retargeted) × List SkippedParameter)
  | [] => pure ([], [])
  | v :: rest => do
    let first ← m.initializer.retarget targets (naming.variantName v)
    Traced.emitAll (first.skipped.map m.skippedEvent)
    let others ← m.variantInitializers naming targets rest
    return ((v, first) :: others, first.skipped)

/-- The expansion of a model class. -/
def expand (options : Options) (m : ModelClass) : Traced ExpansionError Expansion := do
  let naming := options.naming
  let rs ← Traced.lift (ResolvedField.ofFields m.fields)
  let targets := ResolvedField.targets rs
  let (variants, skipped) ← m.initializers naming targets options.variants
  let declarations :=
    [m.protocol naming rs targets] ++
      (if options.emitObservable then [m.observableProtocol naming targets] else []) ++
      variants.map fun (v, r) => m.variant naming (variantMembers naming rs v r.initializer) v
  let warnings := skipped.map m.warning
  Traced.emit (.declarationExpanded m.name m.fields.length targets.size declarations.length
    warnings.length)
  return { declarations, warnings }

end ModelClass

namespace Declaration

/-- The expansion of a declaration. -/
def expand (options : Options) (d : Declaration) : Traced ExpansionError Expansion := do
  let m ← ModelClass.ofDeclaration options d
  m.expand options

/-- The texts of a declaration's expansion, indented as the options say. -/
def expandToTexts (options : Options) (d : Declaration) : Traced ExpansionError (List String) := do
  let e ← d.expand options
  return e.texts options.indent

end Declaration

end ModelPreview
