import ModelPreview.Declaration.Basic
import ModelPreview.Options.Basic
import ModelPreview.Traced

/-!
# Model classes

A model class is a declaration of the one supported form: a class with the model attribute whose
members are properties followed by exactly one initializer. Members are read in source order and
the first one that does not fit is the error, so nothing behind it plays a part.
-/

namespace ModelPreview

/-- A stored property of a model, from one binding. -/
structure ModelField where
  name : String
  type : TypeExpr
  isRelationship : Bool
  defaultValue : Option String
  keyword : BindingKeyword
  deriving DecidableEq

/-- The properties and the initializer of a model, in source order. -/
structure ModelClass where
  name : String
  fields : List ModelField
  initializer : Initializer
  /-- Where the initializer stands among the members of the declaration. -/
  initializerIndex : Nat
  deriving DecidableEq

/-- The bindings of a property; without any it has no name. -/
def Field.boundNames (f : Field) : Except ExpansionError (List Binding) :=
  if f.bindings.isEmpty then .error (.fieldTooComplex f.head) else .ok f.bindings

/-- The property that a binding of the form `name: Type` or `name: Type = default` declares. -/
def ModelField.ofBinding (keyword : BindingKeyword) (isRelationship : Bool) (b : Binding) :
    Except ExpansionError ModelField :=
  match b.pattern, b.type with
  | .identifier name, some type =>
    .ok { name, type, isRelationship, defaultValue := b.initializer, keyword }
  | .identifier _, none => .error (.fieldMissingType b.text)
  | _, _ => .error (.fieldTooComplex b.text)

namespace ModelClass

/-- Whether a declaration is a class that carries the model attribute. -/
def isMarked (options : Options) (d : Declaration) : Bool :=
  d.kind == .class && d.carries options.modelAttribute

/-- Whether a property carries one of the relationship attributes. -/
def isRelationship (options : Options) (f : Field) : Bool :=
  f.carriesAny options.relationshipAttributes

/-- The properties of several bindings, each logged as it is read. -/
def readBindings (model : String) (keyword : BindingKeyword) (relationship : Bool) :
    List Binding → Traced ExpansionError (List ModelField)
  | [] => pure []
  | b :: rest => do
    let field ← Traced.lift (ModelField.ofBinding keyword relationship b)
    Traced.emit (.fieldClassified model field.name field.isRelationship)
    let fields ← readBindings model keyword relationship rest
    return field :: fields

/-- The properties that a property declaration stands for. -/
def readField (options : Options) (model : String) (f : Field) :
    Traced ExpansionError (List ModelField) := do
  let bindings ← Traced.lift f.boundNames
  readBindings model f.keyword (isRelationship options f) bindings

/-- What follows the initializer: nothing, or the error of the member that does. -/
def checkEnd : List Member → Except ExpansionError Unit
  | [] => .ok ()
  | .field _ :: _ => .error .initializerOutOfOrder
  | .initializer _ :: _ => .error .duplicateInitializer
  | .other kind _ :: _ => .error (.unsupportedMemberKind kind)

/-- Read members from the one at `index` on: properties up to the initializer. -/
def readMembers (options : Options) (model : String) :
    (index : Nat) → List Member → Traced ExpansionError (List ModelField × Initializer × Nat)
  | _, [] => Traced.fail .missingInitializer
  | index, .initializer i :: rest => do
    Traced.lift (checkEnd rest)
    return ([], i, index)
  | _, .other kind _ :: _ => Traced.fail (.unsupportedMemberKind kind)
  | index, .field f :: rest => do
    let own ← readField options model f
    let (others, i, position) ← readMembers options model (index + 1) rest
    return (own ++ others, i, position)

/-- The model class that a declaration is. -/
def ofDeclaration (options : Options) (d : Declaration) : Traced ExpansionError ModelClass := do
  if isMarked options d then
    let (fields, initializer, initializerIndex) ← readMembers options d.name 0 d.members
    return { name := d.name, fields, initializer, initializerIndex }
  else Traced.fail .notAModelDeclaration

end ModelClass

end ModelPreview
