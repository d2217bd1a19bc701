import ModelPreview.Declaration.Basic

/-!
# Generated declarations

What an expansion consists of: protocols, structs and classes with the members that are generated
for them. Types of generated properties are texts, since they are only printed.
-/

namespace ModelPreview.Generated

inductive Kind where
  | protocol
  | struct
  | «class»
  deriving DecidableEq

inductive Member where
  /-- `associatedtype name: conformance` -/
  | associatedType (name conformance : String)
  /-- `var name: type { get set }` -/
  | propertyRequirement (name type : String)
  | storedProperty (keyword : BindingKeyword) (name type : String) (defaultValue : Option String)
  | initializer (initializer : Initializer)
  deriving DecidableEq

structure Declaration where
  attributes : List String
  modifiers : List String
  kind : Kind
  name : String
  inherited : List String
  whereClause : List String
  members : List Member
  deriving DecidableEq

/-- The members that stand together without a blank line between them. -/
inductive Group where
  | associatedTypes
  | properties
  | initializers
  deriving DecidableEq

namespace Group

/-- Where a group stands among the others. -/
def rank : Group → Nat
  | .associatedTypes => 0
  | .properties => 1
  | .initializers => 2

end Group

def Member.group : Member → Group
  | .associatedType .. => .associatedTypes
  | .propertyRequirement .. | .storedProperty .. => .properties
  | .initializer .. => .initializers

end ModelPreview.Generated
