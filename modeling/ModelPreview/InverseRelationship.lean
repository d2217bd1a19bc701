import ModelPreview.Expansion

/-!
# Inverse relationships

The marker of an inverse relationship only claims something about the property it stands on, so
the check of a member either fails or generates nothing.
-/

namespace ModelPreview.InverseRelationship

/-- The properties of several bindings, each logged as it is found to be well-formed. -/
def checkBindings (keyword : BindingKeyword) : List Binding → Traced ExpansionError Unit
  | [] => pure ()
  | b :: rest => do
    let field ← Traced.lift (ModelField.ofBinding keyword true b)
    Traced.emit (.inverseValidated field.name field.type.text)
    checkBindings keyword rest

/-- Check that a member is a property that may carry the marker. -/
def check (options : Options) : Member → Traced ExpansionError Expansion
  | .field f => do
    let bindings ← Traced.lift f.boundNames
    if ModelClass.isRelationship options f then
      checkBindings f.keyword bindings
      return .empty
    else
      Traced.fail (.missingRelationshipAttribute (", ".intercalate (bindings.map Binding.text)))
  | m => Traced.fail (.unsupportedMemberKind m.kindWord)

end ModelPreview.InverseRelationship
