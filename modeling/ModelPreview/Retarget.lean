import ModelPreview.Declaration.Basic
import ModelPreview.TargetNames
import ModelPreview.Traced
import ModelPreview.TypeExpr.Nesting

/-!
# Retargeting initializers

The types of an initializer's parameters that point to relationship targets are pointed to the
variants of these targets instead. A type is retargeted where its name under optionals and arrays
is a target. A type with another core is left as it is; if it mentions a target all the same, the
parameter is reported as skipped.
-/

namespace ModelPreview

/-- A parameter left as it is although its type mentions a target. -/
structure SkippedParameter where
  index : Nat
  name : String
  reason : ExpansionError
  deriving DecidableEq

/-- An initializer after retargeting, and the parameters that were skipped. -/
structure Retargeted where
  initializer : Initializer
  skipped : List SkippedParameter
  deriving DecidableEq

namespace TypeExpr

/-- The type with its target renamed, or nothing if its name is no target. -/
def retarget (targets : TargetNames) (rename : String → String) (t : TypeExpr) :
    Except ExpansionError (Option TypeExpr) := do
  let w ← t.unwrap
  return if targets.contains w.name then some (w.typeWith (rename w.name)) else none

/-- Whether one of the targets stands anywhere in a type. -/
def mentionsAny (targets : TargetNames) (t : TypeExpr) : Bool :=
  targets.names.any t.mentions

end TypeExpr

namespace Initializer

/-- Retarget parameters from the one at `index` on. -/
def retargetFrom {ε : Type} (targets : TargetNames) (rename : String → String) :
    (index : Nat) → List Parameter → Traced ε (List Parameter × List SkippedParameter)
  | _, [] => pure ([], [])
  | index, p :: rest => do
    match p.type.retarget targets rename with
    | .ok (some type) =>
      Traced.emit (.parameterRewritten p.firstName p.type.text type.text)
      let (others, skipped) ← retargetFrom targets rename (index + 1) rest
      return ({ p with type } :: others, skipped)
    | .ok none =>
      let (others, skipped) ← retargetFrom targets rename (index + 1) rest
      return (p :: others, skipped)
    | .error reason =>
      if p.type.mentionsAny targets then
        let (others, skipped) ← retargetFrom targets rename (index + 1) rest
        return (p :: others, { index, name := p.firstName, reason } :: skipped)
      else
        Traced.emit (.parameterLeft p.firstName p.type.text)
        let (others, skipped) ← retargetFrom targets rename (index + 1) rest
        return (p :: others, skipped)

/-- Retarget every parameter. Without targets there is nothing to do and nothing to log. -/
def retarget {ε : Type} (targets : TargetNames) (rename : String → String) (i : Initializer) :
    Traced ε Retargeted :=
  if targets.isEmpty then pure ⟨i, []⟩
  else do
    let (parameters, skipped) ← retargetFrom targets rename 0 i.parameters
    return ⟨{ i with parameters }, skipped⟩

end Initializer

end ModelPreview
