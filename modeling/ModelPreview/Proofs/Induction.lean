import ModelPreview.Declaration.Basic
import ModelPreview.Json.Basic

/-!
# Induction over nested data

Types, patterns and documents hold lists of their own kind. In each of the principles below such a
list comes with the claim for all of its elements, so that a proof has one case for each
constructor and none for lists.
-/

namespace ModelPreview

@[elab_as_elim, induction_eliminator]
theorem TypeExpr.induction {motive : TypeExpr → Prop}
    (named : ∀ name, motive (.named name))
    (optional : ∀ wrapped, motive wrapped → motive (.optional wrapped))
    (implicitlyUnwrapped : ∀ wrapped, motive wrapped → motive (.implicitlyUnwrapped wrapped))
    (array : ∀ element, motive element → motive (.array element))
    (dictionary : ∀ key value, motive key → motive value → motive (.dictionary key value))
    (tuple : ∀ elements, (∀ t ∈ elements, motive t) → motive (.tuple elements))
    (function : ∀ parameters result, (∀ t ∈ parameters, motive t) → motive result →
      motive (.function parameters result))
    (generic : ∀ name arguments, (∀ t ∈ arguments, motive t) → motive (.generic name arguments))
    (t : TypeExpr) : motive t :=
  @TypeExpr.rec motive (fun ts => ∀ t ∈ ts, motive t) named optional implicitlyUnwrapped array
    dictionary tuple function generic (by simp) (fun _ _ => by simp +contextual) t

@[elab_as_elim, induction_eliminator]
theorem Pattern.induction {motive : Pattern → Prop}
    (identifier : ∀ name, motive (.identifier name))
    (wildcard : motive .wildcard)
    (tuple : ∀ elements, (∀ p ∈ elements, motive p) → motive (.tuple elements))
    (p : Pattern) : motive p :=
  @Pattern.rec motive (fun ps => ∀ p ∈ ps, motive p) identifier wildcard tuple (by simp)
    (fun _ _ => by simp +contextual) p

@[elab_as_elim, induction_eliminator]
theorem Json.induction {motive : Json → Prop}
    (null : motive .null)
    (bool : ∀ value, motive (.bool value))
    (number : ∀ value, motive (.number value))
    (string : ∀ text, motive (.string text))
    (array : ∀ items, (∀ item ∈ items, motive item) → motive (.array items))
    (object : ∀ fields : List (String × Json), (∀ field ∈ fields, motive field.2) →
      motive (.object fields))
    (json : Json) : motive json :=
  @Json.rec motive (fun items => ∀ item ∈ items, motive item)
    (fun fields => ∀ field ∈ fields, motive field.2) (fun field => motive field.2)
    null bool number string array object (by simp) (fun _ _ => by simp +contextual) (by simp)
    (fun _ _ => by simp +contextual) (fun _ _ => id) json

end ModelPreview
