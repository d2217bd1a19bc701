import ModelPreview.Options.Config

/-!
# Reading lines of keys and values

A line of a config file is a key, an equals sign and a value, which is a text, a flag or a list of
texts. Such a line is read back as the statement that it was written for, whatever follows it.
-/

namespace ModelPreview

open Json

/-- A list does not get shorter if at least one thing is put in the place of each item. -/
theorem length_le_length_flatMap {α β : Type} {f : α → List β} (as : List α)
    (h : ∀ a, f a ≠ []) : as.length ≤ (as.flatMap f).length := by
  induction as with
  | nil => exact Nat.le_refl 0
  | cons a as ih =>
      have hpos := List.length_pos_iff.mpr (h a)
      rw [List.flatMap_cons, List.length_append, List.length_cons]
      omega

namespace Config

/-- How one character stands between quotes. -/
def escaped (c : Char) : List Char :=
  (Json.Printer.escaped c).flatMap fun d =>
    if d.toNat = 0x7f then ['\\', 'u', '0', '0', '7', 'f'] else [d]

theorem toList_quoted (text : String) :
    (quoted text).toList = '"' :: (text.toList.flatMap escaped ++ ['"']) := by
  simp only [quoted, Json.Printer.quoted, String.toList_ofList, String.toList_append,
    List.flatMap_append, List.flatMap_assoc]
  simp
  rfl

end Config

namespace Toml

open Config

/-- The characters that are written as a backslash and a mark, each with its mark. -/
def shortEscapes : List (Char × Char) :=
  [('"', '"'), ('\\', '\\'), ('\x08', 'b'), ('\x0c', 'f'), ('\n', 'n'), ('\r', 'r'), ('\t', 't')]

theorem escaped_of_mem_shortEscapes : ∀ p ∈ shortEscapes,
    escaped p.1 = ['\\', p.2] ∧ ∀ rest, escape? (p.2 :: rest) = some (p.1, rest) := by
  simp only [shortEscapes, List.forall_mem_cons, List.not_mem_nil, false_imp_iff, implies_true,
    and_true]
  refine ⟨?_, ?_, ?_, ?_, ?_, ?_, ?_⟩ <;> exact ⟨rfl, fun _ => rfl⟩

theorem escaped_of_forall_not_mem {c : Char} (h : ∀ mark, (c, mark) ∉ shortEscapes) :
    Printer.escaped c =
      if c.toNat < 0x20 then
        ['\\', 'u', '0', '0', Printer.hexDigit (c.toNat / 16), Printer.hexDigit (c.toNat % 16)]
      else [c] := by
  have hother : c ≠ '"' ∧ c ≠ '\\' ∧ c ≠ '\x08' ∧ c ≠ '\x0c' ∧ c ≠ '\n' ∧ c ≠ '\r' ∧ c ≠ '\t' := by
    simpa [shortEscapes, forall_and] using h
  simp [Printer.escaped, hother]

/-- A control character is written with four hexadecimal digits, none of which is escaped again, and
they give its code. -/
theorem codePoint?_control : ∀ n < 0x20,
    (Printer.hexDigit (n / 16)).toNat ≠ 0x7f ∧ (Printer.hexDigit (n % 16)).toNat ≠ 0x7f ∧
      codePoint? ['0', '0', Printer.hexDigit (n / 16), Printer.hexDigit (n % 16)] =
        some (Char.ofNat n) := by
  decide

/-- A character is escaped, or it may stand between quotes as it is. -/
theorem escaped_cases (c : Char) :
    (∃ cs, escaped c = '\\' :: cs ∧ ∀ rest, escape? (cs ++ rest) = some (c, rest)) ∨
      (escaped c = [c] ∧ c ≠ '"' ∧ c ≠ '\\' ∧ isPlain c) := by
  by_cases hshort : ∃ mark, (c, mark) ∈ shortEscapes
  · obtain ⟨mark, hmark⟩ := hshort
    obtain ⟨hescaped, hescape⟩ := escaped_of_mem_shortEscapes _ hmark
    exact .inl ⟨[mark], hescaped, hescape⟩
  · have hnone := not_exists.mp hshort
    have hescaped := escaped_of_forall_not_mem hnone
    by_cases hcontrol : c.toNat < 0x20
    · obtain ⟨hhigh, hlow, hcode⟩ := codePoint?_control c.toNat hcontrol
      refine .inl ⟨['u', '0', '0', Printer.hexDigit (c.toNat / 16),
        Printer.hexDigit (c.toNat % 16)], ?_, fun rest => ?_⟩
      · simp [escaped, hescaped, hcontrol, hhigh, hlow]
      · simp [escape?, hcode]
    · by_cases hdelete : c.toNat = 0x7f
      · refine .inl ⟨['u', '0', '0', '7', 'f'], ?_, fun rest => ?_⟩
        · simp [escaped, hescaped, hdelete]
        · have hc : c = Char.ofNat 0x7f := by rw [← hdelete, Char.ofNat_toNat]
          subst hc
          rfl
      · refine .inr ⟨?_, ?_, ?_, ?_⟩
        · simp [escaped, hescaped, hcontrol, hdelete]
        · rintro rfl
          exact hnone '"' (by decide)
        · rintro rfl
          exact hnone '\\' (by decide)
        · simp [isPlain, hdelete]
          omega

theorem escaped_ne_nil (c : Char) : escaped c ≠ [] := by
  obtain ⟨cs, hescaped, -⟩ | ⟨hescaped, -⟩ := escaped_cases c <;> simp [hescaped]

/-- One character of a text is read, however it is written. -/
theorem lineString_escaped (c : Char) (fuel : Nat) (read rest : List Char) :
    lineString '"' true (fuel + 1) read (escaped c ++ rest) =
      lineString '"' true fuel (c :: read) rest := by
  obtain ⟨cs, hescaped, hescape⟩ | ⟨hescaped, hquote, hbackslash, hplain⟩ := escaped_cases c
  · simp [hescaped, lineString, hescape]
  · simp [hescaped, lineString, hquote, hbackslash, hplain]

theorem lineString_flatMap_escaped (text : List Char) (fuel : Nat) (hfuel : text.length < fuel)
    (read rest : List Char) :
    lineString '"' true fuel read (text.flatMap escaped ++ '"' :: rest) =
      some (String.ofList (read.reverse ++ text), rest) := by
  induction text generalizing fuel read with
  | nil =>
      obtain ⟨fuel, rfl⟩ := Nat.exists_eq_add_one_of_ne_zero (Nat.ne_of_gt hfuel)
      simp [lineString]
  | cons c text ih =>
      have hpos : 0 < fuel := Nat.zero_lt_of_lt hfuel
      obtain ⟨fuel, rfl⟩ := Nat.exists_eq_add_one_of_ne_zero (Nat.ne_of_gt hpos)
      rw [List.flatMap_cons, List.append_assoc, lineString_escaped,
        ih fuel (by simpa using hfuel)]
      simp

/-- What starts with one or two quotes is a text on one line. -/
theorem string_eq_shortString {text : List Char} (h : ∀ more, text ≠ '"' :: '"' :: more) :
    Toml.string ('"' :: text) = shortString ('"' :: text) := by
  unfold Toml.string
  split
  · next heq => exact absurd (List.cons.inj heq).2 (h _)
  · next heq => exact absurd (List.cons.inj heq).1 (by decide)
  · rfl

/-- A text between quotes is read back. No quote may follow, or else an empty text would look like
the start of a text over several lines. -/
theorem string_quoted (text : String) {rest : List Char} (hrest : rest.head? ≠ some '"') :
    Toml.string ((quoted text).toList ++ rest) = some (text, rest) := by
  have hopen : ∀ more, text.toList.flatMap escaped ++ '"' :: rest ≠ '"' :: '"' :: more := by
    intro more heq
    cases hchars : text.toList with
    | nil =>
        rw [hchars] at heq
        exact hrest (by rw [(List.cons.inj heq).2]; rfl)
    | cons c cs =>
        rw [hchars, List.flatMap_cons] at heq
        obtain ⟨_, hescaped, -⟩ | ⟨hescaped, hquote, -⟩ := escaped_cases c
        · rw [hescaped] at heq
          exact absurd (List.cons.inj heq).1 (by decide)
        · rw [hescaped] at heq
          exact hquote (List.cons.inj heq).1
  have hlength := length_le_length_flatMap text.toList escaped_ne_nil
  rw [toList_quoted, List.cons_append, List.append_assoc, List.singleton_append,
    string_eq_shortString hopen, shortString, lineString_flatMap_escaped]
  · simp
  · rw [List.length_append, List.length_cons]
    omega

/-- A key that is written without quotes. -/
structure IsBareKey (name : String) : Prop where
  ne_nil : name.toList ≠ []
  bare : ∀ c ∈ name.toList, isBare c

theorem isBareKey_iff {name : String} :
    IsBareKey name ↔ (!name.toList.isEmpty && name.toList.all isBare) = true := by
  rw [Bool.and_eq_true, Bool.not_eq_true', List.isEmpty_eq_false_iff, List.all_eq_true]
  exact ⟨fun h => ⟨h.ne_nil, h.bare⟩, fun h => ⟨h.1, h.2⟩⟩

instance (name : String) : Decidable (IsBareKey name) :=
  decidable_of_iff' _ isBareKey_iff

theorem ne_of_isBare {c d : Char} (hc : isBare c) (hd : ¬ isBare d) : c ≠ d := by
  rintro rfl
  exact hd hc

theorem not_isBlank_of_isBare {c : Char} (h : isBare c) : ¬ isBlank c := by
  intro hblank
  obtain rfl | rfl : c = ' ' ∨ c = '\t' := by simpa [isBlank] using hblank
  · exact absurd h (by decide)
  · exact absurd h (by decide)

/-- A bare key ends in front of the first character that is not bare. -/
theorem key_of_bare {name : String} (h : IsBareKey name) {behind rest : List Char} {c : Char}
    (hbehind : ∀ c ∈ behind.head?, ¬ isBare c) (hskip : skipBlanks behind = c :: rest)
    (hc : c ≠ '.') : Toml.key (name.toList ++ behind) = some (([], name), c :: rest) := by
  have hblanks : skipBlanks (name.toList ++ behind) = name.toList ++ behind := by
    cases hchars : name.toList with
    | nil => exact absurd hchars h.ne_nil
    | cons d ds =>
        have hd : ¬ isBlank d := not_isBlank_of_isBare (h.bare d (by simp [hchars]))
        exact List.dropWhile_cons_of_neg hd
  have hpart : keyPart (name.toList ++ behind) = some (name, behind) := by
    have hstop : behind.takeWhile isBare = [] ∧ behind.dropWhile isBare = behind := by
      cases behind with
      | nil => exact ⟨rfl, rfl⟩
      | cons d ds => simp [hbehind d rfl]
    have htake : (name.toList ++ behind).takeWhile isBare = name.toList := by
      rw [List.takeWhile_append_of_pos h.bare, hstop.1, List.append_nil]
    have hdrop : (name.toList ++ behind).dropWhile isBare = behind := by
      rw [List.dropWhile_append_of_pos h.bare, hstop.2]
    simp [keyPart, htake, hdrop, h.ne_nil]
  have hparts (fuel : Nat) :
      keyParts (fuel + 1) (name.toList ++ behind) = some ([name], c :: rest) := by
    rw [keyParts, hblanks, hpart, Option.bind_eq_bind, Option.bind_some]
    simp only [hskip]
    split
    · next heq => exact absurd (List.cons.inj heq).1 hc
    · rfl
  have hlimit : depthLimit = 78 + 1 := rfl
  rw [Toml.key, hlimit, hparts]
  rfl

/-- Nothing is skipped in front of what is neither blank nor the start of a comment. -/
theorem skipLines_cons {c : Char} (hblank : ¬ isBlank c) (hcomment : c ≠ '#')
    (hline : c ≠ '\n' ∧ c ≠ '\r') (fuel : Nat) (rest : List Char) :
    skipLines fuel (c :: rest) = c :: rest := by
  cases fuel with
  | zero => rfl
  | succ fuel =>
    have hblanks : skipBlanks (c :: rest) = c :: rest := List.dropWhile_cons_of_neg hblank
    simp [skipLines, hblanks, skipComment, newline?, hcomment, hline]

end Toml

namespace Config

/-- What is written behind a key. -/
inductive Value where
  | text (text : String)
  | texts (texts : List String)
  | flag (flag : Bool)

namespace Value

def toJson : Value → Json
  | .text t => .string t
  | .texts ts => ofTexts ts
  | .flag b => .bool b

/-- The lines of a key and its value. -/
def lines (key : String) : Value → String
  | .text t => textLine key t
  | .texts ts => listLines key ts
  | .flag b => flagLine key b

/-- One item of a list, on a line of its own. -/
def itemLine (t : String) : List Char :=
  '\n' :: ' ' :: ' ' :: ' ' :: ' ' :: ((quoted t).toList ++ [','])

/-- What stands behind the equals sign, up to the end of the last line. -/
def written : Value → List Char
  | .text t => (quoted t).toList
  | .texts [] => ['[', ']']
  | .texts (t :: ts) => '[' :: ((t :: ts).flatMap itemLine ++ ['\n', ']'])
  | .flag b => if b then ['t', 'r', 'u', 'e'] else ['f', 'a', 'l', 's', 'e']

theorem itemLines_eq (ts : List String) :
    '\n' :: (String.join (ts.map fun t => "    " ++ quoted t ++ ",\n")).toList =
      ts.flatMap itemLine ++ ['\n'] := by
  induction ts with
  | nil => rfl
  | cons t ts ih =>
      rw [List.map_cons, String.join_cons, List.flatMap_cons, List.append_assoc, ← ih]
      simp [itemLine]

theorem toList_lines (key : String) (v : Value) :
    (v.lines key).toList = key.toList ++ ' ' :: '=' :: ' ' :: (v.written ++ ['\n']) := by
  cases v with
  | text t => simp [lines, textLine, written]
  | texts ts =>
      cases ts with
      | nil => simp [lines, listLines, written]
      | cons t ts =>
          have hlines : (listLines key (t :: ts)).toList = key.toList ++ ' ' :: '=' :: ' ' :: '[' ::
              ('\n' :: (String.join ((t :: ts).map fun t => "    " ++ quoted t ++ ",\n")).toList ++
                [']', '\n']) := by
            simp [listLines]
          rw [lines, hlines, itemLines_eq]
          simp [written]
  | flag b => cases b <;> simp [lines, flagLine, written]

end Value

end Config

namespace Toml

open Config

/-- What opens neither a list nor a table is a scalar. -/
theorem value_eq_scalar {c : Char} (hlist : c ≠ '[') (htable : c ≠ '\x7b') (fuel room : Nat)
    (rest : List Char) : Toml.value (fuel + 1) room (c :: rest) = scalar (c :: rest) := by
  rw [Toml.value]
  · exact fun _ heq => hlist (List.cons.inj heq).1
  · exact fun _ heq => htable (List.cons.inj heq).1

theorem value_quoted (text : String) (fuel room : Nat) {rest : List Char}
    (hrest : rest.head? ≠ some '"') :
    Toml.value (fuel + 1) room ((quoted text).toList ++ rest) = some (.string text, rest) := by
  have hstring := string_quoted text hrest
  rw [toList_quoted, List.cons_append] at hstring ⊢
  rw [value_eq_scalar (by decide) (by decide), scalar, if_pos (.inl rfl), hstring, Option.map_some]

/-- Reading an item starts behind the line break and the blanks in front of it. -/
theorem skipLines_itemLine (t : String) (fuel : Nat) (rest : List Char) :
    skipLines (fuel + 2) (Value.itemLine t ++ rest) = (quoted t).toList ++ ',' :: rest := by
  rw [Value.itemLine, toList_quoted]
  simp only [List.cons_append, List.append_assoc, List.nil_append]
  rfl

theorem items_flatMap_itemLine (ts : List String) (fuel room : Nat) (hfuel : ts.length < fuel)
    (rest : List Char) :
    Toml.items fuel room (ts.flatMap Value.itemLine ++ '\n' :: ']' :: rest) =
      some (ts.map .string, rest) := by
  induction ts generalizing fuel with
  | nil =>
      obtain ⟨fuel, rfl⟩ := Nat.exists_eq_add_one_of_ne_zero (Nat.ne_of_gt hfuel)
      have hskip : skipLines ('\n' :: ']' :: rest).length ('\n' :: ']' :: rest) = ']' :: rest := rfl
      rw [List.flatMap_nil, List.nil_append, Toml.items]
      simp only [hskip, List.map_nil]
  | cons t ts ih =>
      obtain ⟨fuel, rfl⟩ : ∃ n, fuel = n + 2 := ⟨fuel - 2, by simp at hfuel; omega⟩
      have hothers := ih (fuel + 1) (by simpa using hfuel)
      rw [List.flatMap_cons, List.append_assoc]
      generalize ts.flatMap Value.itemLine ++ '\n' :: ']' :: rest = behind at hothers ⊢
      have hskip : skipLines (Value.itemLine t ++ behind).length (Value.itemLine t ++ behind) =
          (quoted t).toList ++ ',' :: behind := by
        have hlength : (Value.itemLine t ++ behind).length =
            ((quoted t).toList.length + behind.length + 4) + 2 := by
          simp [Value.itemLine]
          omega
        rw [hlength, skipLines_itemLine]
      have hvalue := value_quoted t fuel room (show (',' :: behind).head? ≠ some '"' by simp)
      have hcomma := skipLines_cons (show ¬ isBlank ',' by decide) (by decide) (by decide)
        (',' :: behind).length behind
      rw [toList_quoted, List.cons_append] at hskip hvalue
      rw [Toml.items, hskip]
      split
      · next heq => exact absurd (List.cons.inj heq).1 (by decide)
      · simp only [hvalue, Option.bind_eq_bind, Option.bind_some, hcomma, hothers]
        rfl

theorem value_list {fuel room : Nat} {text rest : List Char} {items : List Json}
    (h : Toml.items fuel room text = some (items, rest)) :
    Toml.value (fuel + 1) (room + 1) ('[' :: text) = some (.array items, rest) := by
  rw [Toml.value, h, Option.map_some]

/-- A value is read back. The reader's fuel lasts, as it goes by the length of the text. -/
theorem value_written (v : Value) (fuel room : Nat) (hfuel : v.written.length ≤ fuel)
    {rest : List Char} (hrest : rest.head? ≠ some '"') :
    Toml.value (fuel + 1) (room + 1) (v.written ++ rest) = some (v.toJson, rest) := by
  cases v with
  | text t => exact value_quoted t fuel (room + 1) hrest
  | texts ts =>
      cases ts with
      | nil =>
          obtain ⟨fuel, rfl⟩ : ∃ n, fuel = n + 1 :=
            ⟨fuel - 1, by simp [Value.written] at hfuel; omega⟩
          have hskip : skipLines (']' :: rest).length (']' :: rest) = ']' :: rest := rfl
          have hitems : Toml.items (fuel + 1) room (']' :: rest) = some ([], rest) := by
            rw [Toml.items]
            simp only [hskip]
          exact value_list hitems
      | cons t ts =>
          have hitem (t : String) : Value.itemLine t ≠ [] := List.cons_ne_nil _ _
          have hlength := length_le_length_flatMap (t :: ts) hitem
          have hitems := items_flatMap_itemLine (t :: ts) fuel room
            (by simp [Value.written] at hfuel hlength ⊢; omega) rest
          rw [Value.written, List.cons_append, List.append_assoc]
          exact value_list hitems
  | flag b =>
      cases b with
      | true => exact value_eq_scalar (by decide) (by decide) fuel (room + 1) _
      | false => exact value_eq_scalar (by decide) (by decide) fuel (room + 1) _

theorem skipBlanks_written (v : Value) (rest : List Char) :
    skipBlanks (' ' :: (v.written ++ rest)) = v.written ++ rest := by
  cases v with
  | text t =>
      rw [Value.written, toList_quoted]
      rfl
  | texts ts => cases ts <;> rfl
  | flag b => cases b <;> rfl

theorem assignment_written {key : String} (hkey : IsBareKey key) (v : Value) (fuel room : Nat)
    (hfuel : v.written.length ≤ fuel) {rest : List Char} (hrest : rest.head? ≠ some '"') :
    assignment (fuel + 2) (room + 1)
        (key.toList ++ ' ' :: '=' :: ' ' :: (v.written ++ rest)) =
      some (.assign [] key v.toJson, rest) := by
  have hequals : Toml.key (key.toList ++ ' ' :: '=' :: ' ' :: (v.written ++ rest)) =
      some (([], key), '=' :: ' ' :: (v.written ++ rest)) :=
    key_of_bare hkey (by simp; decide) rfl (by decide)
  rw [assignment, hequals]
  simp [char?, skipBlanks_written, value_written v fuel room hfuel hrest]

/-- What starts with anything but a bracket is an assignment. -/
theorem statement_eq_assignment {c : Char} (h : c ≠ '[') (rest : List Char) :
    statement (c :: rest) =
      assignment (3 * (c :: rest).length + 3) depthLimit (c :: rest) := by
  unfold statement
  split
  · next heq => exact absurd (List.cons.inj heq).1 h
  · next heq => exact absurd (List.cons.inj heq).1 h
  · rfl

/-- A statement that ends its line comes in front of those of the lines behind it. -/
theorem statements_cons {text start rest : List Char} {first : Statement} (hne : start ≠ [])
    (hskip : skipLines text.length text = start)
    (hfirst : statement start = some (first, '\n' :: rest)) (fuel : Nat) :
    statements (fuel + 1) text = (statements fuel rest).map (first :: ·) := by
  have hcomment : skipComment (skipBlanks ('\n' :: rest)) = '\n' :: rest := rfl
  have hline : newline? ('\n' :: rest) = some rest := rfl
  rw [statements, hskip]
  split
  · exact absurd rfl hne
  · simp only [hfirst, Option.bind_eq_bind, Option.bind_some, hcomment, hline]
    cases statements fuel rest <;> rfl

/-- The lines of a key and its value are read as an assignment. -/
theorem statements_lines {key : String} (hkey : IsBareKey key) (v : Value) (fuel : Nat)
    (rest : List Char) :
    statements (fuel + 1) ((v.lines key).toList ++ rest) =
      (statements fuel rest).map (.assign [] key v.toJson :: ·) := by
  obtain ⟨c, cs, hchars⟩ := List.exists_cons_of_ne_nil hkey.ne_nil
  have hc : isBare c := hkey.bare c (by simp [hchars])
  have htext : (v.lines key).toList ++ rest =
      key.toList ++ ' ' :: '=' :: ' ' :: (v.written ++ '\n' :: rest) := by
    simp [Value.toList_lines]
  rw [htext]
  have hline : ('\n' :: rest).head? ≠ some '"' := by simp
  have hassign (n : Nat) (hn : v.written.length ≤ n) := assignment_written hkey v n 78 hn hline
  rw [hchars, List.cons_append] at hassign ⊢
  have hskip (n : Nat) (behind : List Char) : skipLines n (c :: behind) = c :: behind :=
    skipLines_cons (not_isBlank_of_isBare hc) (ne_of_isBare hc (by decide))
      ⟨ne_of_isBare hc (by decide), ne_of_isBare hc (by decide)⟩ n behind
  refine statements_cons (List.cons_ne_nil _ _) (hskip _ _) ?_ fuel
  rw [statement_eq_assignment (ne_of_isBare hc (by decide))]
  refine hassign _ ?_
  simp only [List.length_cons, List.length_append]
  omega

theorem statement_header {key : String} (hkey : IsBareKey key) (rest : List Char) :
    statement ('[' :: (key.toList ++ ']' :: rest)) = some (.header [] key, rest) := by
  obtain ⟨c, cs, hchars⟩ := List.exists_cons_of_ne_nil hkey.ne_nil
  have hc : c ≠ '[' := ne_of_isBare (hkey.bare c (by simp [hchars])) (by decide)
  have hheader : Toml.key (key.toList ++ ']' :: rest) = some (([], key), ']' :: rest) :=
    key_of_bare hkey (by simp; decide) rfl (by decide)
  rw [hchars, List.cons_append] at hheader ⊢
  unfold statement
  split
  · next heq => exact absurd (List.cons.inj (List.cons.inj heq).2).1 hc
  · next heq =>
      obtain rfl := (List.cons.inj heq).2
      simp [hheader, char?]
  · next hother => exact absurd rfl (hother _)

/-- The header of a table, behind an empty line. -/
theorem statements_header {key : String} (hkey : IsBareKey key) (fuel : Nat) (rest : List Char) :
    statements (fuel + 1) ('\n' :: '[' :: (key.toList ++ ']' :: '\n' :: rest)) =
      (statements fuel rest).map (.header [] key :: ·) :=
  statements_cons (List.cons_ne_nil _ _) rfl (statement_header hkey _) fuel

end Toml

end ModelPreview
