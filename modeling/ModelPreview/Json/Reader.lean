import ModelPreview.Json.Numeral

/-!
# Reading JSON text

The grammar is that of RFC 8259 and nothing more: no comments, no trailing commas, no raw control
characters in strings, no half of a surrogate pair, nothing but blanks after the document. Arrays
and objects nest at most 127 deep. The fields of an object are sorted by key, and the last of
several fields with one key counts.

Each step of the reader takes at least one character, so the length of the text bounds its run.
-/

namespace ModelPreview.Json.Reader

/-- The space characters between tokens. -/
def isBlank (c : Char) : Bool :=
  c == ' ' || c == '\t' || c == '\n' || c == '\r'

def skipBlanks (text : List Char) : List Char :=
  text.dropWhile isBlank

/-- How many arrays and objects may be open at once. -/
def depthLimit : Nat := 127

def hexValue? (c : Char) : Option Nat :=
  if '0' ≤ c ∧ c ≤ '9' then some (c.toNat - '0'.toNat)
  else if 'a' ≤ c ∧ c ≤ 'f' then some (c.toNat - 'a'.toNat + 10)
  else if 'A' ≤ c ∧ c ≤ 'F' then some (c.toNat - 'A'.toNat + 10)
  else none

/-- The 16-bit unit written by four hexadecimal digits. -/
def unit? (a b c d : Char) : Option Nat := do
  let a ← hexValue? a
  let b ← hexValue? b
  let c ← hexValue? c
  let d ← hexValue? d
  return 4096 * a + 256 * b + 16 * c + d

/-- The character of a unit that is no surrogate. -/
def scalar? (unit : Nat) : Option Char :=
  if 0xD800 ≤ unit ∧ unit < 0xE000 then none else some (Char.ofNat unit)

/-- The character of a leading and a trailing surrogate. -/
def pair? (high low : Nat) : Option Char :=
  if 0xD800 ≤ high ∧ high < 0xDC00 ∧ 0xDC00 ≤ low ∧ low < 0xE000 then
    some (Char.ofNat (0x10000 + 0x400 * (high - 0xD800) + (low - 0xDC00)))
  else none

/-- The character that a one-letter escape stands for. -/
def escape? : Char → Option Char
  | '"' => some '"'
  | '\\' => some '\\'
  | '/' => some '/'
  | 'b' => some '\x08'
  | 'f' => some '\x0c'
  | 'n' => some '\n'
  | 'r' => some '\r'
  | 't' => some '\t'
  | _ => none

/-- The rest of a string after its opening quote, and what follows the closing one. The characters
read so far are held last first. -/
def stringRest (read : List Char) : List Char → Option (String × List Char)
  | '"' :: rest => some (String.ofList read.reverse, rest)
  | '\\' :: 'u' :: a :: b :: c :: d :: rest => do
    let unit ← unit? a b c d
    match scalar? unit with
    | some ch => stringRest (ch :: read) rest
    | none =>
      match rest with
      | '\\' :: 'u' :: a :: b :: c :: d :: rest => do
        let ch ← pair? unit (← unit? a b c d)
        stringRest (ch :: read) rest
      | _ => none
  | '\\' :: c :: rest => do
    let ch ← escape? c
    stringRest (ch :: read) rest
  | c :: rest => if c.toNat < 0x20 || c == '\\' then none else stringRest (c :: read) rest
  | [] => none

/-- A run of at least one digit. -/
def digits? (text : List Char) : Option (List Char × List Char) :=
  let digits := text.takeWhile Char.isDigit
  if digits.isEmpty then none else some (digits, text.dropWhile Char.isDigit)

/-- Whole digits: a lone zero, or a run that does not start with zero. -/
def whole? (text : List Char) : Option (List Char × List Char) := do
  let (digits, rest) ← digits? text
  if digits.head? = some '0' ∧ 1 < digits.length then none
  return (digits, rest)

/-- A fraction, if a point says that there is one. -/
def fraction? : List Char → Option (List Char × List Char)
  | '.' :: rest => digits? rest
  | rest => some ([], rest)

/-- A power of ten, if an `e` says that there is one. -/
def power? : List Char → Option (Option (Bool × List Char) × List Char)
  | c :: rest =>
    if c == 'e' || c == 'E' then do
      let (negative, rest) := match rest with
        | '-' :: rest => (true, rest)
        | '+' :: rest => (false, rest)
        | rest => (false, rest)
      let (digits, rest) ← digits? rest
      return (some (negative, digits), rest)
    else some (none, c :: rest)
  | [] => some (none, [])

/-- A numeral and what follows it. -/
def numeral? (text : List Char) : Option (Numeral × List Char) := do
  let (negative, rest) := match text with
    | '-' :: rest => (true, rest)
    | rest => (false, rest)
  let (whole, rest) ← whole? rest
  let (fraction, rest) ← fraction? rest
  let (power, rest) ← power? rest
  return ({ negative, whole, fraction, power }, rest)

/-- The text after a given word. -/
def afterWord? : List Char → List Char → Option (List Char)
  | [], rest => some rest
  | c :: word, d :: rest => if c = d then afterWord? word rest else none
  | _ :: _, [] => none

mutual

/-- A value and what follows it; `room` more arrays and objects may be opened. -/
def value : (fuel room : Nat) → List Char → Option (Json × List Char)
  | 0, _, _ => none
  | fuel + 1, room, text =>
    match skipBlanks text with
    | '"' :: rest => (stringRest [] rest).map fun (s, rest) => (.string s, rest)
    | '[' :: rest =>
      match room with
      | 0 => none
      | room + 1 =>
        match skipBlanks rest with
        | ']' :: rest => some (.array [], rest)
        | rest => (items fuel room rest).map fun (xs, rest) => (.array xs, rest)
    | '\x7b' :: rest =>
      match room with
      | 0 => none
      | room + 1 =>
        match skipBlanks rest with
        | '\x7d' :: rest => some (.object [], rest)
        | rest => (fields fuel room [] rest).map fun (fs, rest) => (.object fs, rest)
    | 't' :: rest => (afterWord? ['r', 'u', 'e'] rest).map fun rest => (.bool true, rest)
    | 'f' :: rest => (afterWord? ['a', 'l', 's', 'e'] rest).map fun rest => (.bool false, rest)
    | 'n' :: rest => (afterWord? ['u', 'l', 'l'] rest).map fun rest => (.null, rest)
    | rest => do
      let (numeral, rest) ← numeral? rest
      let number ← numeral.value?
      return (.number number, rest)

/-- The items of an array up to its closing bracket. -/
def items : (fuel room : Nat) → List Char → Option (List Json × List Char)
  | 0, _, _ => none
  | fuel + 1, room, text => do
    let (item, rest) ← value fuel room text
    match skipBlanks rest with
    | ',' :: rest =>
      let (others, rest) ← items fuel room rest
      return (item :: others, rest)
    | ']' :: rest => return ([item], rest)
    | _ => none

/-- The fields of an object up to its closing brace, put one by one into those read before. -/
def fields : (fuel room : Nat) → Fields → List Char → Option (Fields × List Char)
  | 0, _, _, _ => none
  | fuel + 1, room, read, text =>
    match skipBlanks text with
    | '"' :: rest => do
      let (key, rest) ← stringRest [] rest
      match skipBlanks rest with
      | ':' :: rest =>
        let (item, rest) ← value fuel room rest
        let read := Fields.put key item read
        match skipBlanks rest with
        | ',' :: rest => fields fuel room read rest
        | '\x7d' :: rest => return (read, rest)
        | _ => none
      | _ => none
    | _ => none

end

end Reader

/-- The document that a text holds, if it is a JSON text. -/
def read? (text : String) : Option Json := do
  let chars := text.toList
  let (json, rest) ← Reader.value (2 * chars.length + 1) Reader.depthLimit chars
  if (Reader.skipBlanks rest).isEmpty then some json else none

end ModelPreview.Json
