import Mathlib.Data.List.Basic
import ModelPreview.Json.Pointer

/-!
# Pointers and their texts

The text of a pointer reads back as the pointer: a token is written without slashes, so the slashes
of a text are where its tokens begin, and writing out tildes and slashes loses nothing. A pointer is
followed token by token. The token of an index leads to the item at that index, since different
indices have different numerals.
-/

namespace ModelPreview

namespace Pointer

/-- What stands for one character in the text of a token. -/
private def escapeChar (c : Char) : List Char :=
  if c = '~' then ['~', '0'] else if c = '/' then ['~', '1'] else [c]

private theorem toList_escape (token : String) :
    (escape token).toList = token.toList.flatMap escapeChar :=
  String.toList_ofList

private theorem unescape?_cons {c : Char} (h : c ≠ '~') (rest : List Char) :
    unescape? (c :: rest) = (unescape? rest).map (c :: ·) := by
  conv_lhs => unfold unescape?
  split <;> simp_all

private theorem unescape?_flatMap (cs : List Char) :
    unescape? (cs.flatMap escapeChar) = some cs := by
  induction cs with
  | nil => rfl
  | cons c rest ih =>
      rw [List.flatMap_cons]
      by_cases htilde : c = '~'
      · subst htilde
        simp [escapeChar, unescape?, ih]
      by_cases hslash : c = '/'
      · subst hslash
        simp [escapeChar, unescape?, ih]
      · rw [escapeChar, if_neg htilde, if_neg hslash, List.singleton_append,
          unescape?_cons htilde, ih]
        rfl

theorem unescape?_escape (token : String) :
    (unescape? (escape token).toList).map String.ofList = some token := by
  rw [toList_escape, unescape?_flatMap, Option.map_some, String.ofList_toList]

theorem slash_not_mem_escape (token : String) : '/' ∉ (escape token).toList := by
  rw [toList_escape, List.mem_flatMap]
  rintro ⟨c, -, hc⟩
  unfold escapeChar at hc
  split at hc
  · simp at hc
  · split at hc
    · simp at hc
    · next hslash => exact hslash (List.mem_singleton.mp hc).symm

@[simp] theorem text_nil : text [] = "" := rfl

theorem text_cons (token : String) (rest : Pointer) :
    text (token :: rest) = "/" ++ escape token ++ text rest := by
  simp [text]

private theorem tokens_of_not_mem {cs : List Char} (h : '/' ∉ cs) : tokens cs = [cs] := by
  induction cs with
  | nil => rfl
  | cons c rest ih =>
      obtain ⟨hc, hrest⟩ := List.ne_and_not_mem_of_not_mem_cons h
      rw [tokens, if_neg (Ne.symm hc), ih hrest]

/-- The first token ends where the next slash stands. -/
private theorem tokens_append_slash {cs : List Char} (h : '/' ∉ cs) (rest : List Char) :
    tokens (cs ++ '/' :: rest) = cs :: tokens rest := by
  induction cs with
  | nil => rw [List.nil_append, tokens, if_pos rfl]
  | cons c cs ih =>
      obtain ⟨hc, hcs⟩ := List.ne_and_not_mem_of_not_mem_cons h
      rw [List.cons_append, tokens, if_neg (Ne.symm hc), ih hcs]

private theorem toList_text_cons (token : String) (rest : Pointer) :
    (text (token :: rest)).toList = '/' :: ((escape token).toList ++ (text rest).toList) := by
  rw [text_cons, String.toList_append, String.toList_append]
  rfl

private theorem mapM_tokens (token : String) (rest : Pointer) :
    (tokens ((escape token).toList ++ (text rest).toList)).mapM
      (fun cs => (unescape? cs).map String.ofList) = some (token :: rest) := by
  induction rest generalizing token with
  | nil =>
      rw [text_nil, String.toList_empty, List.append_nil,
        tokens_of_not_mem (slash_not_mem_escape token), List.mapM_cons, unescape?_escape]
      rfl
  | cons next rest ih =>
      rw [toList_text_cons, tokens_append_slash (slash_not_mem_escape token), List.mapM_cons,
        unescape?_escape, ih]
      rfl

/-- The text of a pointer reads back as the pointer. -/
theorem ofText?_text (p : Pointer) : ofText? (text p) = some p := by
  cases p with
  | nil => rfl
  | cons token rest =>
      simp only [ofText?, toList_text_cons, if_true]
      exact mapM_tokens token rest

/-- Different pointers have different texts. -/
theorem text_inj {p q : Pointer} : text p = text q ↔ p = q := by
  constructor
  · intro h
    have hread := congrArg ofText? h
    rwa [ofText?_text, ofText?_text, Option.some.injEq] at hread
  · rintro rfl
    rfl

/-- Different numbers have different numerals. -/
theorem index_inj {m n : Nat} : index m = index n ↔ m = n := by
  constructor
  · intro h
    have hdigits : Nat.toDigits 10 m = Nat.toDigits 10 n := by
      rw [← Nat.toList_repr, ← Nat.toList_repr]
      exact congrArg String.toList h
    calc
      m = Nat.ofDigitChars 10 (Nat.toDigits 10 m) 0 := Nat.ofDigitChars_ten_toDigits.symm
      _ = Nat.ofDigitChars 10 (Nat.toDigits 10 n) 0 := by rw [hdigits]
      _ = n := Nat.ofDigitChars_ten_toDigits
  · rintro rfl
    rfl

theorem index_ne_empty (n : Nat) : index n ≠ "" :=
  Nat.repr_ne_empty

/-- A numeral is written as it is. -/
theorem escape_index (n : Nat) : escape (index n) = toString n := by
  have hdigit : ∀ c ∈ (toString n).toList, escapeChar c = [c] := by
    intro c hc
    rw [Nat.toString_eq_repr, Nat.toList_repr] at hc
    have hc := Nat.isDigit_of_mem_toDigits (by decide) (by decide) hc
    have htilde : c ≠ '~' := by
      rintro rfl
      cases hc
    have hslash : c ≠ '/' := by
      rintro rfl
      cases hc
    rw [escapeChar, if_neg htilde, if_neg hslash]
  rw [← String.toList_inj, toList_escape, index, List.flatMap_congr hdigit, List.flatMap_singleton']

end Pointer

namespace Json

@[simp] theorem at?_nil (json : Json) : json.at? [] = some json := by
  cases json <;> rfl

theorem at?_cons (json : Json) (token : String) (rest : Pointer) :
    json.at? (token :: rest) = (json.child? token).bind (·.at? rest) := by
  cases json <;> rfl

theorem itemAt?_index (start n : Nat) (items : List Json) :
    itemAt? (Pointer.index (start + n)) start items = items[n]? := by
  induction items generalizing start n with
  | nil => rfl
  | cons item rest ih =>
      cases n with
      | zero => simp [itemAt?]
      | succ n =>
          have hne : Pointer.index (start + (n + 1)) ≠ Pointer.index start := by
            rw [Ne, Pointer.index_inj]
            omega
          have hnext := ih (start + 1) n
          rw [Nat.add_right_comm, Nat.add_assoc] at hnext
          rw [itemAt?, if_neg hne, hnext, List.getElem?_cons_succ]

/-- The token of an index leads to the item at that index. -/
@[simp] theorem child?_array_index (items : List Json) (n : Nat) :
    (Json.array items).child? (Pointer.index n) = items[n]? := by
  have hitem := itemAt?_index 0 n items
  rwa [Nat.zero_add] at hitem

@[simp] theorem child?_object (fields : Fields) (token : String) :
    (Json.object fields).child? token = fields.get? token := rfl

end Json

end ModelPreview
