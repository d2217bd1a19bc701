/-!
# Reasons against an expansion

Each error is a cause; its code and its message are functions of the cause. Every one of them
stops the expansion of the declaration that it was raised for.
-/

namespace ModelPreview

/-- Why a declaration or a member is refused. -/
inductive ExpansionError where
  /-- The declaration is no class that carries the model attribute. -/
  | notAModelDeclaration
  /-- A member is neither a property nor an initializer. -/
  | unsupportedMemberKind (kind : String)
  /-- A property follows the initializer. -/
  | initializerOutOfOrder
  | missingInitializer
  | duplicateInitializer
  /-- A binding is no plain name, or a property has no binding at all. -/
  | fieldTooComplex (context : String)
  | fieldMissingType (context : String)
  | missingRelationshipAttribute (context : String)
  /-- The core of a relationship's type is no plain name. -/
  | unsupportedTypeShape (type : String)
  deriving DecidableEq

namespace ExpansionError

/-- The stable identifier of an error's kind. -/
def code : ExpansionError → String
  | .notAModelDeclaration => "not_a_model_declaration"
  | .unsupportedMemberKind _ => "unsupported_member_kind"
  | .initializerOutOfOrder => "initializer_out_of_order"
  | .missingInitializer => "missing_initializer"
  | .duplicateInitializer => "duplicate_initializer"
  | .fieldTooComplex _ => "field_too_complex"
  | .fieldMissingType _ => "field_missing_type"
  | .missingRelationshipAttribute _ => "missing_relationship_attribute"
  | .unsupportedTypeShape _ => "unsupported_type_shape"

/-- What is told to the user. -/
def message : ExpansionError → String
  | .notAModelDeclaration => "the decorated type is not an @Model class"
  | .unsupportedMemberKind kind =>
    s!"the decorated type can't contain `{kind}` members, only variable declarations and an " ++
      "initializer; consider moving them into an extension"
  | .initializerOutOfOrder =>
    "the initializer must be defined after any variable declarations"
  | .missingInitializer =>
    "the decorated type must define an initializer after its variable declarations"
  | .duplicateInitializer => "the decorated type must define exactly one initializer"
  | .fieldTooComplex context =>
    s!"the variable declaration of `{context}` is too complex; it must be in a shape of " ++
      "`var fieldName: SomeType`"
  | .fieldMissingType context =>
    s!"the variable declaration of `{context}` must explicitly declare a type"
  | .missingRelationshipAttribute context =>
    s!"the variable declaration of `{context}` must carry a relationship attribute"
  | .unsupportedTypeShape type =>
    s!"the type `{type}` is not supported; relationship types must be a named type wrapped in " ++
      "optionals or arrays"

end ExpansionError

end ModelPreview
