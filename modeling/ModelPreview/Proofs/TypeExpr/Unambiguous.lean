import ModelPreview.Proofs.Induction

/-!
# Types are told apart by their text

The text of a type can be read back, so no two types are written alike. The reader goes from the
left: an opening bracket or a name says how the type begins, an arrow behind a list in parentheses
says that it is a function, and marks are put around what stands in front of them, which never is a
bare function. Only a tuple of one element is lost, as its parentheses could be those of a marked
function, and names that contain the characters that everything else is written with.
-/

namespace ModelPreview

namespace TypeExpr

/-- The characters that types are written with around their names. -/
def reserved : List Char :=
  ['?', '!', '[', ']', '(', ')', '<', '>', ':', ',', '-', ' ']

/-- A name of at least one character, none of them reserved. -/
def IsName (name : String) : Prop :=
  name ≠ "" ∧ ∀ c ∈ name.toList, c ∉ reserved

instance (name : String) : Decidable (IsName name) :=
  @instDecidableAnd _ _ inferInstance (List.decidableBAll (· ∉ reserved) name.toList)

/-- Every name in the type is proper and no tuple in it has exactly one element. -/
inductive IsPlain : TypeExpr → Prop
  | named {name : String} : IsName name → IsPlain (.named name)
  | optional {wrapped : TypeExpr} : IsPlain wrapped → IsPlain (.optional wrapped)
  | implicitlyUnwrapped {wrapped : TypeExpr} :
    IsPlain wrapped → IsPlain (.implicitlyUnwrapped wrapped)
  | array {element : TypeExpr} : IsPlain element → IsPlain (.array element)
  | dictionary {key value : TypeExpr} : IsPlain key → IsPlain value →
    IsPlain (.dictionary key value)
  | tuple {elements : List TypeExpr} : elements.length ≠ 1 → (∀ t ∈ elements, IsPlain t) →
    IsPlain (.tuple elements)
  | function {parameters : List TypeExpr} {result : TypeExpr} : (∀ t ∈ parameters, IsPlain t) →
    IsPlain result → IsPlain (.function parameters result)
  | generic {name : String} {arguments : List TypeExpr} : IsName name →
    (∀ t ∈ arguments, IsPlain t) → IsPlain (.generic name arguments)

/-- Put the marks at the front of a text around a type. -/
def readMarks (t : TypeExpr) : List Char → TypeExpr × List Char
  | '?' :: rest => readMarks (.optional t) rest
  | '!' :: rest => readMarks (.implicitlyUnwrapped t) rest
  | rest => (t, rest)

/-- The text behind an arrow. -/
def afterArrow? : List Char → Option (List Char)
  | ' ' :: '-' :: '>' :: ' ' :: rest => some rest
  | _ => none

/-- The name at the front of a text and what follows it. -/
def readName (text : List Char) : String × List Char :=
  (String.ofList (text.takeWhile (· ∉ reserved)), text.dropWhile (· ∉ reserved))

/-- What a list in parentheses stands for if no arrow follows. -/
def enclosed : List TypeExpr → TypeExpr
  | [t] => t
  | ts => .tuple ts

mutual

/-- The type at the front of a text and what follows it; `fuel` bounds the nesting. -/
def read : (fuel : Nat) → List Char → Option (TypeExpr × List Char)
  | 0, _ => none
  | fuel + 1, '[' :: text => do
    let (first, text) ← read fuel text
    match text with
    | ']' :: text => return readMarks (.array first) text
    | ':' :: ' ' :: text =>
      let (value, text) ← read fuel text
      match text with
      | ']' :: text => return readMarks (.dictionary first value) text
      | _ => none
    | _ => none
  | fuel + 1, '(' :: text => do
    let (items, text) ← readList ')' fuel text
    match afterArrow? text with
    | some text =>
      let (result, text) ← read fuel text
      return (.function items result, text)
    | none => return readMarks (enclosed items) text
  | fuel + 1, text =>
    match readName text with
    | (name, '<' :: text) => do
      let (arguments, text) ← readList '>' fuel text
      return readMarks (.generic name arguments) text
    | (name, text) => some (readMarks (.named name) text)

/-- The types up to a closing bracket, with commas between them. -/
def readList (closing : Char) : (fuel : Nat) → List Char → Option (List TypeExpr × List Char)
  | 0, _ => none
  | fuel + 1, text =>
    if text.head? = some closing then some ([], text.tail)
    else do
      let (first, text) ← read fuel text
      match text with
      | ',' :: ' ' :: text =>
        let (others, text) ← readList closing fuel text
        return (first :: others, text)
      | _ => if text.head? = some closing then some ([first], text.tail) else none

end

/-- Nothing follows, or something that neither continues a type nor marks it. -/
def Ends (text : List Char) : Prop :=
  ∀ c ∈ text.head?, c ∈ [']', ')', '>', ':', ',']

/-- Nothing follows, or something that does not continue an unmarked type: it may be a mark. -/
def EndsOrMarks (text : List Char) : Prop :=
  ∀ c ∈ text.head?, c ∈ ['?', '!', ']', ')', '>', ':', ',']

theorem Ends.endsOrMarks {text : List Char} (h : Ends text) : EndsOrMarks text := by
  intro c hc
  exact List.mem_cons_of_mem _ (List.mem_cons_of_mem _ (h c hc))

theorem ends_nil : Ends [] := by
  simp [Ends]

theorem ends_cons {c : Char} {text : List Char} (h : c ∈ [']', ')', '>', ':', ',']) :
    Ends (c :: text) := by
  simpa [Ends] using h

theorem readMarks_of_ends {text : List Char} (h : Ends text) (t : TypeExpr) :
    readMarks t text = (t, text) := by
  cases text with
  | nil => rfl
  | cons c rest =>
      have hc : c ∈ [']', ')', '>', ':', ','] := h c rfl
      have hquestion : c ≠ '?' := by rintro rfl; revert hc; decide
      have hexclamation : c ≠ '!' := by rintro rfl; revert hc; decide
      simp [readMarks, hquestion, hexclamation]

theorem afterArrow?_of_endsOrMarks {text : List Char} (h : EndsOrMarks text) :
    afterArrow? text = none := by
  cases text with
  | nil => rfl
  | cons c rest =>
      have hspace : c ≠ ' ' := by rintro rfl; exact absurd (h ' ' rfl) (by decide)
      simp [afterArrow?, hspace]

section Names

variable {name : String} (hname : IsName name)

include hname

theorem IsName.exists_cons : ∃ c rest, name.toList = c :: rest ∧ c ∉ reserved := by
  obtain ⟨hne, hall⟩ := hname
  cases h : name.toList with
  | nil => exact absurd (String.toList_eq_nil_iff.mp h) hne
  | cons c rest => exact ⟨c, rest, rfl, hall c (h ▸ List.mem_cons_self)⟩

/-- A name ends where a reserved character follows. -/
theorem IsName.readName_append {text : List Char} (htext : ∀ c ∈ text.head?, c ∈ reserved) :
    readName (name.toList ++ text) = (name, text) := by
  have hall : ∀ c ∈ name.toList, decide (c ∉ reserved) = true := by
    intro c hc
    exact decide_eq_true (hname.2 c hc)
  unfold readName
  rw [List.takeWhile_append_of_pos hall, List.dropWhile_append_of_pos hall]
  cases text with
  | nil => simp
  | cons c rest =>
      have hc : c ∈ reserved := htext c rfl
      simp [hc]

theorem IsName.read_generic {arguments : List TypeExpr} {text rest : List Char} {fuel : Nat}
    (h : readList '>' fuel text = some (arguments, rest)) :
    read (fuel + 1) (name.toList ++ '<' :: text) =
      some (readMarks (.generic name arguments) rest) := by
  have hspan : readName (name.toList ++ '<' :: text) = (name, '<' :: text) :=
    hname.readName_append (by simp [reserved])
  obtain ⟨c, rest, hcons, hc⟩ := hname.exists_cons
  have hsquare : c ≠ '[' := by rintro rfl; exact hc (by decide)
  have hround : c ≠ '(' := by rintro rfl; exact hc (by decide)
  rw [hcons, List.cons_append] at hspan ⊢
  simp [read, hsquare, hround, hspan, h]

theorem IsName.read_named {text : List Char} (htext : EndsOrMarks text) (fuel : Nat) :
    read (fuel + 1) (name.toList ++ text) = some (readMarks (.named name) text) := by
  have hsubset : ['?', '!', ']', ')', '>', ':', ','] ⊆ reserved := by decide
  have hreserved : ∀ c ∈ text.head?, c ∈ reserved := fun c hc => hsubset (htext c hc)
  have hspan := hname.readName_append hreserved
  obtain ⟨c, rest, hcons, hc⟩ := hname.exists_cons
  have hsquare : c ≠ '[' := by rintro rfl; exact hc (by decide)
  have hround : c ≠ '(' := by rintro rfl; exact hc (by decide)
  -- Side condition of the reader's last alternative.
  have hangle : ∀ rest, text ≠ '<' :: rest := by
    rintro rest rfl
    exact absurd (htext '<' rfl) (by decide)
  rw [hcons, List.cons_append] at hspan ⊢
  simp [read, hsquare, hround, hspan]

end Names

/-- What may follow a type so that it is read as a whole. Marks would belong to the result of a bare
function. -/
def MayFollow (t : TypeExpr) (text : List Char) : Prop :=
  if t.needsParentheses then Ends text else EndsOrMarks text

theorem MayFollow.endsOrMarks {t : TypeExpr} {text : List Char} (h : t.MayFollow text) :
    EndsOrMarks text := by
  unfold MayFollow at h
  split at h
  · exact h.endsOrMarks
  · exact h

theorem Ends.mayFollow {text : List Char} (h : Ends text) (t : TypeExpr) : t.MayFollow text := by
  unfold MayFollow
  split
  · exact h
  · exact h.endsOrMarks

/-- With enough fuel the type is read back from its text, with the marks that follow. -/
def ReadsBack (t : TypeExpr) : Prop :=
  ∀ fuel, 2 * sizeOf t ≤ fuel → ∀ text, t.MayFollow text →
    read fuel (t.text.toList ++ text) = some (readMarks t text)

namespace ReadsBack

variable {t : TypeExpr} {fuel : Nat} {text : List Char}

theorem read_of_ends (h : ReadsBack t) (hfuel : 2 * sizeOf t ≤ fuel) (htext : Ends text) :
    read fuel (t.text.toList ++ text) = some (t, text) := by
  rw [h fuel hfuel text (htext.mayFollow t), readMarks_of_ends htext]

end ReadsBack

/-- The text of a type starts with something other than a bracket that closes a list. -/
def Begins (t : TypeExpr) : Prop :=
  ∃ c, t.text.toList.head? = some c ∧ c ∉ [')', '>']

theorem Begins.head?_ne {t : TypeExpr} (h : Begins t) {closing : Char}
    (hclosing : closing ∈ [')', '>']) (text : List Char) :
    (t.text.toList ++ text).head? ≠ some closing := by
  obtain ⟨c, hhead, hc⟩ := h
  rw [List.head?_append, hhead]
  rintro ⟨⟩
  exact hc hclosing

theorem IsName.begins {name : String} (h : IsName name) (text : String) :
    ∃ c, (name ++ text).toList.head? = some c ∧ c ∉ [')', '>'] := by
  obtain ⟨c, rest, hcons, hc⟩ := h.exists_cons
  have hsubset : [')', '>'] ⊆ reserved := by decide
  exact ⟨c, by simp [hcons], fun hmem => hc (hsubset hmem)⟩

theorem Begins.marked {t : TypeExpr} (h : Begins t) (mark : String) :
    ∃ c, (t.marked t.text mark).toList.head? = some c ∧ c ∉ [')', '>'] := by
  obtain ⟨c, hhead, hc⟩ := h
  unfold TypeExpr.marked
  split
  · exact ⟨'(', by simp, by decide⟩
  · exact ⟨c, by simp [hhead], hc⟩

theorem IsPlain.begins {t : TypeExpr} (h : IsPlain t) : Begins t := by
  induction h with
  | named hname => simpa [Begins, text] using hname.begins ""
  | optional _ ih => exact ih.marked "?"
  | implicitlyUnwrapped _ ih => exact ih.marked "!"
  | array | dictionary => exact ⟨'[', by simp [text], by decide⟩
  | tuple | function => exact ⟨'(', by simp [text], by decide⟩
  | generic hname =>
      obtain ⟨c, hhead, hc⟩ := hname.begins "<"
      exact ⟨c, by simp [text] at hhead ⊢; exact hhead, hc⟩

section Lists

variable {closing : Char} (hclosing : closing ∈ [')', '>']) {fuel : Nat} (text : List Char)

include hclosing

/-- The last type of a list is read up to the closing bracket. -/
theorem readList_singleton {t : TypeExpr} (hread : ReadsBack t) (hbegins : Begins t)
    (hfuel : 2 * sizeOf t + 1 ≤ fuel) :
    readList closing fuel (t.text.toList ++ closing :: text) = some ([t], text) := by
  have hsubset : [')', '>'] ⊆ [']', ')', '>', ':', ','] := by decide
  have hcomma : closing ≠ ',' := by rintro rfl; exact absurd hclosing (by decide)
  obtain ⟨fuel, rfl⟩ : ∃ n, fuel = n + 1 := ⟨fuel - 1, by omega⟩
  rw [readList, if_neg (hbegins.head?_ne hclosing _),
    hread.read_of_ends (by omega) (ends_cons (hsubset hclosing))]
  simp [hcomma]

/-- Types with commas between them are read up to the closing bracket. -/
theorem readList_texts {ts : List TypeExpr} (hread : ∀ t ∈ ts, ReadsBack t)
    (hbegins : ∀ t ∈ ts, Begins t) (hfuel : 2 * sizeOf ts ≤ fuel) :
    readList closing fuel ((", ".intercalate (texts ts)).toList ++ closing :: text) =
      some (ts, text) := by
  induction ts generalizing fuel with
  | nil =>
      obtain ⟨fuel, rfl⟩ : ∃ n, fuel = n + 1 := ⟨fuel - 1, by simp at hfuel; omega⟩
      simp [readList]
  | cons t rest ih =>
      simp only [List.cons.sizeOf_spec] at hfuel
      obtain ⟨hfirst, hrest⟩ := List.forall_mem_cons.mp hread
      obtain ⟨hbegin, hbegins⟩ := List.forall_mem_cons.mp hbegins
      cases rest with
      | nil =>
          have hsingle : (", ".intercalate (texts [t])).toList = t.text.toList := by simp
          rw [hsingle]
          exact readList_singleton hclosing text hfirst hbegin (by simp at hfuel; omega)
      | cons next rest =>
          obtain ⟨fuel, rfl⟩ : ∃ n, fuel = n + 1 := ⟨fuel - 1, by omega⟩
          have hsplit : (", ".intercalate (texts (t :: next :: rest))).toList ++ closing :: text =
              t.text.toList ++ ',' :: ' ' ::
                ((", ".intercalate (texts (next :: rest))).toList ++ closing :: text) := by
            simp [texts_eq_map, String.intercalate_cons_cons]
          have hothers : readList closing fuel
              ((", ".intercalate (texts (next :: rest))).toList ++ closing :: text) =
                some (next :: rest, text) :=
            ih hrest hbegins (by omega)
          rw [hsplit, readList, if_neg (hbegin.head?_ne hclosing _),
            hfirst.read_of_ends (by omega) (ends_cons (by decide))]
          simp only [Option.bind_eq_bind, Option.bind_some, hothers]
          rfl

end Lists

namespace ReadsBack

theorem named {name : String} (hname : IsName name) : ReadsBack (.named name) := by
  intro fuel hfuel text htext
  simp only [named.sizeOf_spec] at hfuel
  obtain ⟨fuel, rfl⟩ := Nat.exists_eq_add_of_le' (show 1 ≤ fuel by omega)
  simp only [TypeExpr.text]
  exact hname.read_named htext.endsOrMarks fuel

/-- A marked type is read with the mark put around it, be it in parentheses or not. -/
theorem read_marked {t : TypeExpr} (h : ReadsBack t) (hbegins : Begins t) {fuel : Nat}
    (hfuel : 2 * sizeOf t + 2 ≤ fuel) (mark : Char) {sign : String} (hsign : sign.toList = [mark])
    (hmark : mark ∈ ['?', '!']) (text : List Char) :
    read fuel ((t.marked t.text sign).toList ++ text) = some (readMarks t (mark :: text)) := by
  have hsubset : ['?', '!'] ⊆ ['?', '!', ']', ')', '>', ':', ','] := by decide
  have hfollows : EndsOrMarks (mark :: text) := by
    intro c hc
    obtain rfl : mark = c := by simpa using hc
    exact hsubset hmark
  by_cases hparens : t.needsParentheses = true
  · have hsplit : (t.marked t.text sign).toList ++ text =
        '(' :: (t.text.toList ++ ')' :: mark :: text) := by
      simp [marked, hparens, hsign]
    obtain ⟨fuel, rfl⟩ := Nat.exists_eq_add_of_le' (show 1 ≤ fuel by omega)
    rw [hsplit, read, readList_singleton (by decide) (mark :: text) h hbegins (by omega)]
    simp [afterArrow?_of_endsOrMarks hfollows, enclosed]
  · have hsplit : (t.marked t.text sign).toList ++ text = t.text.toList ++ mark :: text := by
      simp [marked, hparens, hsign]
    rw [hsplit]
    apply h fuel (by omega)
    unfold MayFollow
    rw [if_neg hparens]
    exact hfollows

theorem optional {t : TypeExpr} (h : ReadsBack t) (hbegins : Begins t) :
    ReadsBack (.optional t) := by
  intro fuel hfuel text _
  simp only [optional.sizeOf_spec] at hfuel
  simp only [TypeExpr.text]
  rw [h.read_marked hbegins (by omega) '?' (by simp) (by decide) text, readMarks]

theorem implicitlyUnwrapped {t : TypeExpr} (h : ReadsBack t) (hbegins : Begins t) :
    ReadsBack (.implicitlyUnwrapped t) := by
  intro fuel hfuel text _
  simp only [implicitlyUnwrapped.sizeOf_spec] at hfuel
  simp only [TypeExpr.text]
  rw [h.read_marked hbegins (by omega) '!' (by simp) (by decide) text, readMarks]

theorem array {element : TypeExpr} (h : ReadsBack element) : ReadsBack (.array element) := by
  intro fuel hfuel text _
  simp only [array.sizeOf_spec] at hfuel
  obtain ⟨fuel, rfl⟩ := Nat.exists_eq_add_of_le' (show 1 ≤ fuel by omega)
  have helement : read fuel (element.text.toList ++ ']' :: text) = some (element, ']' :: text) :=
    h.read_of_ends (by omega) (ends_cons (by decide))
  simp [TypeExpr.text, read, helement]

theorem dictionary {key value : TypeExpr} (hkey : ReadsBack key) (hvalue : ReadsBack value) :
    ReadsBack (.dictionary key value) := by
  intro fuel hfuel text _
  simp only [dictionary.sizeOf_spec] at hfuel
  obtain ⟨fuel, rfl⟩ := Nat.exists_eq_add_of_le' (show 1 ≤ fuel by omega)
  have hread : read fuel (value.text.toList ++ ']' :: text) = some (value, ']' :: text) :=
    hvalue.read_of_ends (by omega) (ends_cons (by decide))
  have hfirst {behind : List Char} : read fuel (key.text.toList ++ ':' :: behind) =
      some (key, ':' :: behind) :=
    hkey.read_of_ends (by omega) (ends_cons (by decide))
  simp [TypeExpr.text, read, hfirst, hread]

theorem tuple {elements : List TypeExpr} (hlength : elements.length ≠ 1)
    (h : ∀ t ∈ elements, ReadsBack t) (hbegins : ∀ t ∈ elements, Begins t) :
    ReadsBack (.tuple elements) := by
  intro fuel hfuel text htext
  simp only [tuple.sizeOf_spec] at hfuel
  obtain ⟨fuel, rfl⟩ := Nat.exists_eq_add_of_le' (show 1 ≤ fuel by omega)
  have hlist : readList ')' fuel
      ((", ".intercalate (texts elements)).toList ++ ')' :: text) = some (elements, text) :=
    readList_texts (by decide) text h hbegins (by omega)
  have henclosed : enclosed elements = .tuple elements := by
    unfold enclosed
    split
    · exact absurd rfl hlength
    · rfl
  have hsplit : (TypeExpr.tuple elements).text.toList ++ text =
      '(' :: ((", ".intercalate (texts elements)).toList ++ ')' :: text) := by
    simp [TypeExpr.text]
  rw [hsplit, read, hlist]
  simp [afterArrow?_of_endsOrMarks htext.endsOrMarks, henclosed]

theorem function {parameters : List TypeExpr} {result : TypeExpr}
    (h : ∀ t ∈ parameters, ReadsBack t) (hbegins : ∀ t ∈ parameters, Begins t)
    (hresult : ReadsBack result) : ReadsBack (.function parameters result) := by
  intro fuel hfuel text htext
  simp only [function.sizeOf_spec] at hfuel
  obtain ⟨fuel, rfl⟩ := Nat.exists_eq_add_of_le' (show 1 ≤ fuel by omega)
  -- Marks behind a bare function would go to its result, so none may follow.
  have hends : Ends text := htext
  have hlast : read fuel (result.text.toList ++ text) = some (result, text) :=
    hresult.read_of_ends (by omega) hends
  have hlist (behind : List Char) : readList ')' fuel
      ((", ".intercalate (texts parameters)).toList ++ ')' :: behind) =
        some (parameters, behind) :=
    readList_texts (by decide) behind h hbegins (by omega)
  have hsplit : (TypeExpr.function parameters result).text.toList ++ text =
      '(' :: ((", ".intercalate (texts parameters)).toList ++
        ')' :: ' ' :: '-' :: '>' :: ' ' :: (result.text.toList ++ text)) := by
    simp [TypeExpr.text]
  rw [hsplit, read, hlist, readMarks_of_ends hends]
  simp [afterArrow?, hlast]

theorem generic {name : String} (hname : IsName name) {arguments : List TypeExpr}
    (h : ∀ t ∈ arguments, ReadsBack t) (hbegins : ∀ t ∈ arguments, Begins t) :
    ReadsBack (.generic name arguments) := by
  intro fuel hfuel text _
  simp only [generic.sizeOf_spec] at hfuel
  obtain ⟨fuel, rfl⟩ := Nat.exists_eq_add_of_le' (show 1 ≤ fuel by omega)
  have hlist : readList '>' fuel
      ((", ".intercalate (texts arguments)).toList ++ '>' :: text) = some (arguments, text) :=
    readList_texts (by decide) text h hbegins (by omega)
  have hsplit : (TypeExpr.generic name arguments).text.toList ++ text =
      name.toList ++ '<' :: ((", ".intercalate (texts arguments)).toList ++ '>' :: text) := by
    simp [TypeExpr.text]
  rw [hsplit]
  exact hname.read_generic hlist

end ReadsBack

theorem IsPlain.readsBack {t : TypeExpr} (h : IsPlain t) : ReadsBack t := by
  induction h with
  | named hname => exact .named hname
  | optional hwrapped ih => exact ih.optional hwrapped.begins
  | implicitlyUnwrapped hwrapped ih => exact ih.implicitlyUnwrapped hwrapped.begins
  | array _ ih => exact ih.array
  | dictionary _ _ ihkey ihvalue => exact ihkey.dictionary ihvalue
  | tuple hlength helements ih => exact .tuple hlength ih fun t ht => (helements t ht).begins
  | function hparameters _ ih ihresult =>
      exact .function ih (fun t ht => (hparameters t ht).begins) ihresult
  | generic hname harguments ih =>
      exact .generic hname ih fun t ht => (harguments t ht).begins

/-- A type is read back from its text. -/
theorem IsPlain.read_text {t : TypeExpr} (h : IsPlain t) {fuel : Nat}
    (hfuel : 2 * sizeOf t ≤ fuel) : read fuel t.text.toList = some (t, []) := by
  have hread := h.readsBack.read_of_ends hfuel ends_nil
  rwa [List.append_nil] at hread

/-- Types with proper names and without tuples of one element are written alike only if they are the
same type. -/
theorem text_eq_text_iff {s t : TypeExpr} (hs : IsPlain s) (ht : IsPlain t) :
    s.text = t.text ↔ s = t := by
  constructor
  · intro h
    have hreads : read (2 * sizeOf s + 2 * sizeOf t) s.text.toList = some (s, []) :=
      hs.read_text (by omega)
    have hreadt : read (2 * sizeOf s + 2 * sizeOf t) t.text.toList = some (t, []) :=
      ht.read_text (by omega)
    rw [h, hreadt] at hreads
    exact (Prod.mk.inj (Option.some.inj hreads)).1.symm
  · rintro rfl
    rfl

/-- A tuple of one function is written like the parentheses that a mark puts around the function. -/
example : (optional (.tuple [.function [] (.named "Void")])).text =
    (optional (.function [] (.named "Void"))).text := by
  decide

/-- An optional function is not written like a function with an optional result. -/
theorem optional_function_text_ne :
    IsPlain (.optional (.function [.named "Int"] (.named "Foundation.Date"))) ∧
    IsPlain (.function [.named "Int"] (.optional (.named "Foundation.Date"))) ∧
    (optional (.function [.named "Int"] (.named "Foundation.Date"))).text ≠
      (function [.named "Int"] (.optional (.named "Foundation.Date"))).text := by
  have hparameters : ∀ t ∈ [named "Int"], IsPlain t :=
    List.forall_mem_singleton.mpr (.named (by decide))
  have hresult : IsPlain (.named "Foundation.Date") := .named (by decide)
  have houter := IsPlain.optional (.function hparameters hresult)
  have hinner := IsPlain.function hparameters hresult.optional
  refine ⟨houter, hinner, fun h => ?_⟩
  cases (text_eq_text_iff houter hinner).mp h

end TypeExpr

end ModelPreview
