import ModelPreview.Options.Basic
import ModelPreview.Proofs.Induction
import ModelPreview.Proofs.Text.Brackets
import ModelPreview.Proofs.TypeExpr.Wrapping

/-!
# Verbatim fragments

A declaration holds texts that are written out as they are: names, default values, and the trivia,
modifiers, effects and body of its initializer. These are its fragments; attributes are not among
them, nor is what the host calls other members, since neither is ever generated. Everything else
that is written is fixed, and its brackets match, so the texts of types, parameters and initializers
are balanced if their fragments are.
-/

namespace ModelPreview

namespace TypeExpr

mutual

/-- The names in a type, in the order in which they are written. -/
def names : TypeExpr → List String
  | .named name => [name]
  | .optional wrapped => wrapped.names
  | .implicitlyUnwrapped wrapped => wrapped.names
  | .array element => element.names
  | .dictionary key value => key.names ++ value.names
  | .tuple elements => namesAll elements
  | .function parameters result => namesAll parameters ++ result.names
  | .generic name arguments => name :: namesAll arguments

/-- The names in several types. -/
def namesAll : List TypeExpr → List String
  | [] => []
  | t :: ts => t.names ++ namesAll ts

end

@[simp] theorem namesAll_eq_flatMap (ts : List TypeExpr) : namesAll ts = ts.flatMap names := by
  induction ts with
  | nil => rfl
  | cons t ts ih => simp [namesAll, ih]

/-- The names in a type are those that it mentions. -/
theorem mem_names_iff {name : String} {t : TypeExpr} : name ∈ t.names ↔ t.mentions name := by
  induction t with
  | named own =>
      simp only [names, mentions, List.mem_singleton, beq_iff_eq]
      exact eq_comm
  | optional wrapped ih | implicitlyUnwrapped wrapped ih | array wrapped ih => exact ih
  | dictionary key value ihkey ihvalue => simp [names, mentions, ihkey, ihvalue]
  | tuple elements ih =>
      simp only [names, mentions, namesAll_eq_flatMap, anyMentions_eq_any, List.mem_flatMap,
        List.any_eq_true]
      exact exists_congr fun t => and_congr_right fun ht => ih t ht
  | function parameters result ih ihresult =>
      simp only [names, mentions, namesAll_eq_flatMap, anyMentions_eq_any, List.mem_append,
        List.mem_flatMap, Bool.or_eq_true, List.any_eq_true, ihresult]
      exact or_congr_left (exists_congr fun t => and_congr_right fun ht => ih t ht)
  | generic own arguments ih =>
      simp only [names, mentions, namesAll_eq_flatMap, anyMentions_eq_any, List.mem_cons,
        List.mem_flatMap, Bool.or_eq_true, List.any_eq_true, beq_iff_eq]
      exact or_congr eq_comm (exists_congr fun t => and_congr_right fun ht => ih t ht)

end TypeExpr

/-- The name of an identifier. -/
def Pattern.boundName? : Pattern → Option String
  | .identifier name => some name
  | _ => none

/-- The name, the type's names and the default value of a binding. -/
def Binding.fragments (b : Binding) : List String :=
  b.pattern.boundName?.toList ++ b.type.toList.flatMap TypeExpr.names ++ b.initializer.toList

def Parameter.fragments (p : Parameter) : List String :=
  [p.leadingTrivia, p.firstName] ++ p.secondName.toList ++ p.type.names ++ p.defaultValue.toList

def Initializer.fragments (i : Initializer) : List String :=
  i.modifiers ++ i.parameters.flatMap Parameter.fragments ++ [i.closingTrivia] ++
    i.effects.toList ++ [i.body]

def Member.fragments : Member → List String
  | .field f => f.bindings.flatMap Binding.fragments
  | .initializer i => i.fragments
  | .other _ _ => []

def Declaration.fragments (d : Declaration) : List String :=
  d.name :: d.members.flatMap Member.fragments

/-- The affixes of generated names, and the indentation. -/
def Options.fragments (o : Options) : List String :=
  [o.naming.protocolSuffix, o.naming.previewPrefix, o.naming.observableProtocolPrefix,
    o.naming.observablePreviewPrefix, o.indent]

theorem forall_mem_pair {p : String → Prop} {s t : String} : (∀ r ∈ [s, t], p r) ↔ p s ∧ p t := by
  simp

theorem balanced_optionalPart {mark : String} (hmark : Balanced mark) {text : Option String}
    (h : ∀ t ∈ text.toList, Balanced t) : Balanced (optionalPart mark text) := by
  cases text with
  | none => exact .nil
  | some t => exact hmark.append (h t (by simp))

namespace TypeExpr

theorem balanced_marked (t : TypeExpr) {text mark : String} (htext : Balanced text)
    (hmark : Balanced mark) : Balanced (t.marked text mark) := by
  unfold marked
  split
  · exact (Balanced.insert (by decide) htext).append hmark
  · exact htext.append hmark

/-- Types with commas between them are balanced if the text of each is. -/
theorem balanced_intercalate_texts {ts : List TypeExpr}
    (htexts : ∀ t ∈ ts, (∀ name ∈ t.names, Balanced name) → Balanced t.text)
    (h : ∀ name ∈ namesAll ts, Balanced name) : Balanced (", ".intercalate (texts ts)) := by
  rw [namesAll_eq_flatMap, List.forall_mem_flatMap] at h
  rw [texts_eq_map]
  apply Balanced.intercalate
  · decide
  · exact List.forall_mem_map.mpr fun t ht => htexts t ht (h t ht)

/-- The brackets of a type match if those in its names do. -/
theorem balanced_text {t : TypeExpr} (h : ∀ name ∈ t.names, Balanced name) : Balanced t.text := by
  induction t with
  | named name => exact h name List.mem_cons_self
  | optional wrapped ih | implicitlyUnwrapped wrapped ih =>
      exact wrapped.balanced_marked (ih h) (by decide)
  | array element ih => exact Balanced.insert (by decide) (ih h)
  | dictionary key value ihkey ihvalue =>
      obtain ⟨hkey, hvalue⟩ := List.forall_mem_append.mp h
      have htemplate : Balanced ("[" ++ key.text ++ ": " ++ "]") := by
        rw [String.append_assoc]
        exact Balanced.insert (by decide) (ihkey hkey)
      exact htemplate.insert (ihvalue hvalue)
  | tuple elements ih => exact Balanced.insert (by decide) (balanced_intercalate_texts ih h)
  | function parameters result ih ihresult =>
      obtain ⟨hparameters, hresult⟩ := List.forall_mem_append.mp h
      have hlist := balanced_intercalate_texts ih hparameters
      exact (Balanced.insert (by decide) hlist).append (ihresult hresult)
  | generic name arguments ih =>
      obtain ⟨hname, harguments⟩ := List.forall_mem_cons.mp h
      have hlist := balanced_intercalate_texts ih harguments
      exact ((hname.append (by decide)).append hlist).append (by decide)

/-- A wrapped name is the only name in its type. -/
theorem names_typeWith (w : WrappedName) (name : String) : (w.typeWith name).names = [name] := by
  induction w using WrappedName.induction with
  | plain => rfl
  | wrap wrapper w ih => cases wrapper <;> exact ih

theorem names_of_unwrap {t : TypeExpr} {w : WrappedName} (h : t.unwrap = .ok w) :
    t.names = [w.name] := by
  rw [← unwrap_eq_ok_iff.mp h, names_typeWith]

end TypeExpr

/-- Wrappers around a balanced name match. -/
theorem WrappedName.balanced_textWith (w : WrappedName) {name : String} (h : Balanced name) :
    Balanced (w.textWith name) := by
  rw [← text_typeWith]
  apply TypeExpr.balanced_text
  rw [TypeExpr.names_typeWith]
  exact List.forall_mem_singleton.mpr h

theorem Parameter.balanced_text {p : Parameter} (h : ∀ s ∈ p.fragments, Balanced s) :
    Balanced p.text := by
  simp only [fragments, List.forall_mem_append, forall_mem_pair] at h
  obtain ⟨⟨⟨⟨hleading, hfirst⟩, hsecond⟩, hnames⟩, hdefault⟩ := h
  have hcomma : Balanced (if p.trailingComma then "," else "") := by
    split <;> decide
  exact (((((hleading.append hfirst).append (balanced_optionalPart (by decide) hsecond)).append
    (by decide)).append (TypeExpr.balanced_text hnames)).append
    (balanced_optionalPart (by decide) hdefault)).append hcomma

theorem Initializer.balanced_text {i : Initializer} (h : ∀ s ∈ i.fragments, Balanced s) :
    Balanced i.text := by
  simp only [fragments, List.forall_mem_append, List.forall_mem_singleton,
    List.forall_mem_flatMap] at h
  obtain ⟨⟨⟨⟨hmodifiers, hparameters⟩, hclosing⟩, heffects⟩, hbody⟩ := h
  have hfront : Balanced (String.join (i.modifiers.map (· ++ " "))) :=
    .join (List.forall_mem_map.mpr fun m hm => (hmodifiers m hm).append (by decide))
  have hlist : Balanced (String.join (i.parameters.map Parameter.text)) :=
    .join (List.forall_mem_map.mpr fun p hp => Parameter.balanced_text (hparameters p hp))
  have htemplate : Balanced (String.join (i.modifiers.map (· ++ " ")) ++ "init(" ++ ")") := by
    rw [String.append_assoc]
    exact hfront.append (by decide)
  exact (((htemplate.insert hlist).insert hclosing).append
    (balanced_optionalPart (by decide) heffects)).append (by decide) |>.append hbody

end ModelPreview
