import Mathlib.Algebra.Order.BigOperators.Group.List
import Mathlib.Algebra.Order.Ring.Nat
import ModelPreview.Proofs.Induction
import ModelPreview.Proofs.TypeExpr.Wrapping

/-!
# Replacing names inside types

All names of a type are replaced at once, be they plain names or those of generics. A name under
wrappers is replaced where it stands. A replacement that never shortens a name never shortens the
text, and it lengthens the text as soon as it lengthens one of the names in it: the text of a type
contains each of its names, and only what stands between them is fixed.
-/

namespace ModelPreview.TypeExpr

mutual

/-- A type with each name `n` in it replaced by `f n`. -/
def rename (f : String → String) : TypeExpr → TypeExpr
  | .named name => .named (f name)
  | .optional wrapped => .optional (wrapped.rename f)
  | .implicitlyUnwrapped wrapped => .implicitlyUnwrapped (wrapped.rename f)
  | .array element => .array (element.rename f)
  | .dictionary key value => .dictionary (key.rename f) (value.rename f)
  | .tuple elements => .tuple (renameAll f elements)
  | .function parameters result => .function (renameAll f parameters) (result.rename f)
  | .generic name arguments => .generic (f name) (renameAll f arguments)

/-- Several types with each name replaced. -/
def renameAll (f : String → String) : List TypeExpr → List TypeExpr
  | [] => []
  | t :: ts => t.rename f :: renameAll f ts

end

@[simp] theorem renameAll_eq_map (f : String → String) (ts : List TypeExpr) :
    renameAll f ts = ts.map (rename f) := by
  induction ts with
  | nil => rfl
  | cons t ts ih => simp [renameAll, ih]

/-- A replacement that keeps the names of a type keeps the type. -/
theorem rename_eq_self {f : String → String} {t : TypeExpr}
    (h : ∀ name, t.mentions name → f name = name) : t.rename f = t := by
  induction t with
  | named name => simp [rename, h name (by simp [mentions])]
  | optional wrapped ih | implicitlyUnwrapped wrapped ih | array wrapped ih =>
      simp only [rename, ih h]
  | dictionary key value ihKey ihValue =>
      simp only [rename, ihKey fun n hn => h n (by simp [mentions, hn]),
        ihValue fun n hn => h n (by simp [mentions, hn])]
  | tuple elements ih =>
      have hall : ∀ t ∈ elements, t.rename f = t :=
        fun t ht => ih t ht fun n hn => h n (by simpa [mentions] using ⟨t, ht, hn⟩)
      simp only [rename, renameAll_eq_map, List.map_congr_left hall, List.map_id']
  | function parameters result ih ihResult =>
      have hall : ∀ t ∈ parameters, t.rename f = t :=
        fun t ht => ih t ht fun n hn => h n (by simpa [mentions] using .inl ⟨t, ht, hn⟩)
      simp only [rename, renameAll_eq_map, List.map_congr_left hall, List.map_id',
        ihResult fun n hn => h n (by simp [mentions, hn])]
  | generic name arguments ih =>
      have hall : ∀ t ∈ arguments, t.rename f = t :=
        fun t ht => ih t ht fun n hn => h n (by simpa [mentions] using .inr ⟨t, ht, hn⟩)
      simp only [rename, renameAll_eq_map, List.map_congr_left hall, List.map_id',
        h name (by simp [mentions])]

theorem rename_typeWith (f : String → String) (w : WrappedName) (name : String) :
    (w.typeWith name).rename f = w.typeWith (f name) := by
  induction w using WrappedName.induction with
  | plain => rfl
  | wrap wrapper w ih => cases wrapper <;> simp [Wrapper.wrap, rename, ih]

theorem needsParentheses_rename (f : String → String) (t : TypeExpr) :
    (t.rename f).needsParentheses = t.needsParentheses := by
  cases t <;> rfl

private theorem length_marked (t : TypeExpr) (text mark : String) :
    (t.marked text mark).length =
      text.length + mark.length + if t.needsParentheses then 2 else 0 := by
  have hopen : "(".length = 1 := rfl
  have hclose : ")".length = 1 := rfl
  unfold marked
  split
  · simp only [String.length_append]
    omega
  · simp only [String.length_append]
    omega

private theorem length_intercalate (separator : String) (texts : List String) :
    (separator.intercalate texts).length =
      (texts.map String.length).sum + (texts.length - 1) * separator.length := by
  induction texts with
  | nil => simp
  | cons text rest ih =>
      cases rest with
      | nil => simp
      | cons next rest =>
          rw [String.intercalate_cons_cons, String.length_append, String.length_append, ih]
          simp only [List.map_cons, List.sum_cons, List.length_cons]
          rw [Nat.add_sub_cancel, Nat.add_sub_cancel, Nat.succ_mul]
          omega

section Length

variable {f : String → String} (hf : ∀ name, name.length ≤ (f name).length)

include hf

/-- Replacing names by names that are no shorter does not shorten the text. -/
theorem length_text_le_rename (t : TypeExpr) : t.text.length ≤ (t.rename f).text.length := by
  induction t with
  | named name => exact hf name
  | optional wrapped ih | implicitlyUnwrapped wrapped ih =>
      simp only [rename, text, length_marked, needsParentheses_rename]
      omega
  | array element ih =>
      simp only [rename, text, String.length_append]
      omega
  | dictionary key value ihKey ihValue =>
      simp only [rename, text, String.length_append]
      omega
  | tuple elements ih =>
      have hsum := List.sum_le_sum ih
      simp only [rename, renameAll_eq_map, text, texts_eq_map, String.length_append,
        length_intercalate, List.map_map, List.length_map, Function.comp_def]
      omega
  | function parameters result ih ihResult =>
      have hsum := List.sum_le_sum ih
      simp only [rename, renameAll_eq_map, text, texts_eq_map, String.length_append,
        length_intercalate, List.map_map, List.length_map, Function.comp_def]
      omega
  | generic name arguments ih =>
      have hsum := List.sum_le_sum ih
      have hname := hf name
      simp only [rename, renameAll_eq_map, text, texts_eq_map, String.length_append,
        length_intercalate, List.map_map, List.length_map, Function.comp_def]
      omega

/-- One name that gets longer makes the text longer. -/
theorem length_text_lt_rename {name : String} (hname : name.length < (f name).length)
    (t : TypeExpr) (hm : t.mentions name) : t.text.length < (t.rename f).text.length := by
  have hle := length_text_le_rename hf
  induction t with
  | named own =>
      obtain rfl : own = name := by simpa [mentions] using hm
      exact hname
  | optional wrapped ih | implicitlyUnwrapped wrapped ih =>
      have := ih hm
      simp only [rename, text, length_marked, needsParentheses_rename]
      omega
  | array element ih =>
      have := ih hm
      simp only [rename, text, String.length_append]
      omega
  | dictionary key value ihKey ihValue =>
      have hkey := hle key
      have hvalue := hle value
      simp only [rename, text, String.length_append]
      rcases Bool.or_eq_true_iff.mp hm with hm | hm
      · have := ihKey hm
        omega
      · have := ihValue hm
        omega
  | tuple elements ih =>
      obtain ⟨t, ht, hm⟩ : ∃ t ∈ elements, t.mentions name := by simpa [mentions] using hm
      have hsum := List.sum_lt_sum _ _ (fun t _ => hle t) ⟨t, ht, ih t ht hm⟩
      simp only [rename, renameAll_eq_map, text, texts_eq_map, String.length_append,
        length_intercalate, List.map_map, List.length_map, Function.comp_def]
      omega
  | function parameters result ih ihResult =>
      have hresult := hle result
      have hsum := List.sum_le_sum fun t (_ : t ∈ parameters) => hle t
      simp only [rename, renameAll_eq_map, text, texts_eq_map, String.length_append,
        length_intercalate, List.map_map, List.length_map, Function.comp_def]
      rcases Bool.or_eq_true_iff.mp hm with hm | hm
      · obtain ⟨t, ht, hm⟩ : ∃ t ∈ parameters, t.mentions name := by simpa using hm
        have := List.sum_lt_sum _ _ (fun t _ => hle t) ⟨t, ht, ih t ht hm⟩
        omega
      · have := ihResult hm
        omega
  | generic own arguments ih =>
      have hown := hf own
      have hsum := List.sum_le_sum fun t (_ : t ∈ arguments) => hle t
      simp only [rename, renameAll_eq_map, text, texts_eq_map, String.length_append,
        length_intercalate, List.map_map, List.length_map, Function.comp_def]
      rcases Bool.or_eq_true_iff.mp hm with hm | hm
      · obtain rfl : own = name := by simpa using hm
        omega
      · obtain ⟨t, ht, hm⟩ : ∃ t ∈ arguments, t.mentions name := by simpa using hm
        have := List.sum_lt_sum _ _ (fun t _ => hle t) ⟨t, ht, ih t ht hm⟩
        omega

end Length

end ModelPreview.TypeExpr
