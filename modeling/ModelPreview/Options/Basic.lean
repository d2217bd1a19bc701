/-!
# Options

What marks a model and its relationships, how generated types are named, which variants are
generated and how they are indented.
-/

namespace ModelPreview

/-- The types generated to stand in for a model. -/
inductive Variant where
  /-- A plain struct. -/
  | preview
  /-- An observable class. -/
  | observablePreview
  deriving DecidableEq

/-- The affixes that turn a model's name into those of its generated types. -/
structure Naming where
  protocolSuffix : String
  previewPrefix : String
  observableProtocolPrefix : String
  observablePreviewPrefix : String
  deriving DecidableEq

namespace Naming

def default : Naming where
  protocolSuffix := "Protocol"
  previewPrefix := "Preview"
  observableProtocolPrefix := "Observable"
  observablePreviewPrefix := "ObservablePreview"

/-- The protocol that a model and its variants have in common. -/
def protocolName (n : Naming) (model : String) : String :=
  model ++ n.protocolSuffix

def previewName (n : Naming) (model : String) : String :=
  n.previewPrefix ++ model

/-- The protocol of the observable variants. -/
def observableProtocolName (n : Naming) (model : String) : String :=
  n.observableProtocolPrefix ++ model

def observablePreviewName (n : Naming) (model : String) : String :=
  n.observablePreviewPrefix ++ model

/-- The name of one of a model's variants. -/
def variantName (n : Naming) : Variant → String → String
  | .preview => n.previewName
  | .observablePreview => n.observablePreviewName

end Naming

structure Options where
  modelAttribute : String
  relationshipAttributes : List String
  naming : Naming
  /-- Whether observable variants are generated beside the plain ones. -/
  emitObservable : Bool
  indent : String
  deriving DecidableEq

namespace Options

def default : Options where
  modelAttribute := "Model"
  relationshipAttributes := ["Relationship", "InverseRelationship"]
  naming := Naming.default
  emitObservable := true
  indent := "  "

/-- The variants to generate, in order. -/
def variants (o : Options) : List Variant :=
  if o.emitObservable then [.preview, .observablePreview] else [.preview]

end Options

end ModelPreview
