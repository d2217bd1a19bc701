import ModelPreview.Json.Reader

/-!
# Scalars of TOML text

Strings of four kinds, integers of 64 bits in four bases, binary64 reals, booleans, and dates and
times. A date or a time becomes an object, as no option is one.
-/

namespace ModelPreview.Toml

def isBlank (c : Char) : Bool :=
  c == ' ' || c == '\t'

def skipBlanks (text : List Char) : List Char :=
  text.dropWhile isBlank

/-- Control characters, the tab aside, stand nowhere. -/
def isPlain (c : Char) : Bool :=
  c == '\t' || (0x20 ≤ c.toNat && c.toNat != 0x7f)

/-- The text after a line break. -/
def newline? : List Char → Option (List Char)
  | '\n' :: rest => some rest
  | '\r' :: '\n' :: rest => some rest
  | _ => none

/-- The text after a comment, if one starts here. -/
def skipComment : List Char → List Char
  | '#' :: rest => rest.dropWhile isPlain
  | rest => rest

/-- The text after blanks, comments and line breaks. -/
def skipLines : (fuel : Nat) → List Char → List Char
  | 0, text => text
  | fuel + 1, text =>
    let rest := skipComment (skipBlanks text)
    match newline? rest with
    | some rest => skipLines fuel rest
    | none => rest

/-- The character with the code written by hexadecimal digits. -/
def codePoint? (digits : List Char) : Option Char := do
  let values ← digits.mapM Json.Reader.hexValue?
  let code := values.foldl (fun n d => 16 * n + d) 0
  if code < 0xD800 ∨ (0xE000 ≤ code ∧ code < 0x110000) then some (Char.ofNat code) else none

/-- The character of an escape, after the backslash. -/
def escape? : List Char → Option (Char × List Char)
  | 'b' :: rest => some ('\x08', rest)
  | 't' :: rest => some ('\t', rest)
  | 'n' :: rest => some ('\n', rest)
  | 'f' :: rest => some ('\x0c', rest)
  | 'r' :: rest => some ('\r', rest)
  | '"' :: rest => some ('"', rest)
  | '\\' :: rest => some ('\\', rest)
  | 'u' :: rest =>
    if 4 ≤ rest.length then (codePoint? (rest.take 4)).map (·, rest.drop 4) else none
  | 'U' :: rest =>
    if 8 ≤ rest.length then (codePoint? (rest.take 8)).map (·, rest.drop 8) else none
  | _ => none

/-- The rest of a one-line string: up to `quote`, with escapes or without. The characters read so
far are held last first. -/
def lineString (quote : Char) (escapes : Bool) :
    (fuel : Nat) → List Char → List Char → Option (String × List Char)
  | 0, _, _ => none
  | _ + 1, _, [] => none
  | fuel + 1, read, c :: rest =>
    if c = quote then some (String.ofList read.reverse, rest)
    else if escapes ∧ c = '\\' then do
      let (ch, rest) ← escape? rest
      lineString quote escapes fuel (ch :: read) rest
    else if isPlain c then lineString quote escapes fuel (c :: read) rest
    else none

/-- The text after a backslash at the end of a line, and after the blank that follows. -/
def continuedLine? (text : List Char) : Option (List Char) := do
  let rest ← newline? (skipBlanks text)
  return rest.dropWhile fun c => isBlank c || c == '\n' || c == '\r'

/-- The rest of a string over several lines, up to three quotes. Up to two quotes may stand in
front of these. -/
def blockString (quote : Char) (escapes : Bool) :
    (fuel : Nat) → List Char → List Char → Option (String × List Char)
  | 0, _, _ => none
  | _ + 1, _, [] => none
  | fuel + 1, read, c :: rest =>
    if c = quote then
      let more := (rest.takeWhile (· == quote)).length
      if more < 2 then blockString quote escapes fuel (c :: read) rest
      else
        let extra := min (more - 2) 2
        some (String.ofList (List.replicate extra quote ++ read).reverse, rest.drop (2 + extra))
    else if escapes ∧ c = '\\' then
      match continuedLine? rest with
      | some rest => blockString quote escapes fuel read rest
      | none => do
        let (ch, rest) ← escape? rest
        blockString quote escapes fuel (ch :: read) rest
    else
      match newline? (c :: rest) with
      | some rest => blockString quote escapes fuel ('\n' :: read) rest
      | none => if isPlain c then blockString quote escapes fuel (c :: read) rest else none

/-- A one-line string. -/
def shortString : List Char → Option (String × List Char)
  | '"' :: rest => lineString '"' true (rest.length + 1) [] rest
  | '\x27' :: rest => lineString '\x27' false (rest.length + 1) [] rest
  | _ => none

/-- A string of any kind. A line break right after three opening quotes does not count. -/
def string : List Char → Option (String × List Char)
  | '"' :: '"' :: '"' :: rest =>
    blockString '"' true (rest.length + 1) [] ((newline? rest).getD rest)
  | '\x27' :: '\x27' :: '\x27' :: rest =>
    blockString '\x27' false (rest.length + 1) [] ((newline? rest).getD rest)
  | text => shortString text

/-- Digits of a class, where single underscores may stand between two of them. -/
def digitRun (isDigit : Char → Bool) : List Char → List Char × List Char
  | '_' :: d :: rest =>
    if isDigit d then
      let (digits, rest) := digitRun isDigit rest
      (d :: digits, rest)
    else ([], '_' :: d :: rest)
  | d :: rest =>
    if isDigit d then
      let (digits, rest) := digitRun isDigit rest
      (d :: digits, rest)
    else ([], d :: rest)
  | [] => ([], [])

/-- A digit and those that follow it. -/
def digits? (isDigit : Char → Bool) : List Char → Option (List Char × List Char)
  | d :: rest =>
    if isDigit d then
      let (digits, rest) := digitRun isDigit rest
      some (d :: digits, rest)
    else none
  | [] => none

/-- The value of digits in a base. -/
def digitsValue (base : Nat) (digits : List Char) : Nat :=
  digits.foldl (fun n c => base * n + (Json.Reader.hexValue? c).getD 0) 0

/-- An integer, if it is one of 64 bits. -/
def integer64? (n : Int) : Option Json :=
  if -(Nat.pow 2 63 : Int) ≤ n ∧ n < Nat.pow 2 63 then some (.number (.integer n)) else none

def isOctal (c : Char) : Bool :=
  '0' ≤ c && c ≤ '7'

def isBinary (c : Char) : Bool :=
  c == '0' || c == '1'

def isHexadecimal (c : Char) : Bool :=
  (Json.Reader.hexValue? c).isSome

/-- A sign, and whether it is a minus. -/
def sign : List Char → Bool × List Char
  | '+' :: rest => (false, rest)
  | '-' :: rest => (true, rest)
  | rest => (false, rest)

/-- Whole decimal digits: a lone zero, or digits that do not start with zero. -/
def whole? : List Char → Option (List Char × List Char)
  | '0' :: rest => some (['0'], rest)
  | text => digits? Char.isDigit text

/-- An integer in a base other than ten. -/
def basedInteger (base : Nat) (isDigit : Char → Bool) (text : List Char) :
    Option (Json × List Char) := do
  let (digits, rest) ← digits? isDigit text
  return (← integer64? (digitsValue base digits), rest)

def integer : List Char → Option (Json × List Char)
  | '0' :: 'x' :: rest => basedInteger 16 isHexadecimal rest
  | '0' :: 'o' :: rest => basedInteger 8 isOctal rest
  | '0' :: 'b' :: rest => basedInteger 2 isBinary rest
  | text => do
    let (negative, rest) := sign text
    let (digits, rest) ← whole? rest
    let n : Int := digitsValue 10 digits
    return (← integer64? (if negative then -n else n), rest)

/-- The text after a given word. -/
def word? (word : String) (text : List Char) : Option (List Char) :=
  Json.Reader.afterWord? word.toList text

/-- The real with the given digits in front of the point, behind it, and as its exponent. -/
def realOf (negative : Bool) (whole fraction : List Char) (exponent : Int) : Float :=
  let significand := digitsValue 10 (whole ++ fraction)
  let exponent := exponent - fraction.length
  let lead : Int := (Nat.toDigits 10 significand).length + exponent
  let magnitude : Float :=
    if significand = 0 ∨ lead < -400 then 0
    else if 400 < lead then 1 / 0
    else Float.ofScientific significand (exponent < 0) exponent.natAbs
  if negative then -magnitude else magnitude

/-- A real with a fraction, an exponent or both, or one of the special values. -/
def real (text : List Char) : Option (Json × List Char) := do
  let (negative, rest) := sign text
  let number (f : Float) (rest : List Char) : Option (Json × List Char) :=
    some (.number (.real f.toBits), rest)
  match word? "inf" rest, word? "nan" rest with
  | some rest, _ => number (if negative then -(1 / 0) else 1 / 0) rest
  | _, some rest => number (0 / 0) rest
  | none, none =>
    let (whole, rest) ← whole? rest
    let (fraction, rest) ← match rest with
      | '.' :: rest => digits? Char.isDigit rest
      | rest => some ([], rest)
    let (exponent, rest) ←
      match rest with
      | c :: rest =>
        if c = 'e' ∨ c = 'E' then
          let (down, rest) := sign rest
          (digits? Char.isDigit rest).map fun (digits, rest) =>
            let e : Int := digitsValue 10 digits
            (some (if down then -e else e), rest)
        else some (none, c :: rest)
      | [] => some (none, [])
    if fraction.isEmpty ∧ exponent.isNone then none
    else
      let f := realOf negative whole fraction (exponent.getD 0)
      if f.isInf ∧ ¬negative then none else number f rest

/-- A number of exactly `count` digits. -/
def fixedDigits (count : Nat) (text : List Char) : Option (Nat × List Char) :=
  let digits := text.take count
  if digits.length = count ∧ digits.all Char.isDigit then
    some (digitsValue 10 digits, text.drop count)
  else none

def char? (c : Char) : List Char → Option (List Char)
  | d :: rest => if c = d then some rest else none
  | [] => none

def daysOf (year month : Nat) : Nat :=
  if month = 2 then
    if year % 4 = 0 ∧ (year % 100 ≠ 0 ∨ year % 400 = 0) then 29 else 28
  else if month = 4 ∨ month = 6 ∨ month = 9 ∨ month = 11 then 30
  else 31

def date (text : List Char) : Option (List Char) := do
  let (year, rest) ← fixedDigits 4 text
  let (month, rest) ← fixedDigits 2 (← char? '-' rest)
  let (day, rest) ← fixedDigits 2 (← char? '-' rest)
  if 1 ≤ month ∧ month ≤ 12 ∧ 1 ≤ day ∧ day ≤ daysOf year month then some rest else none

def time (text : List Char) : Option (List Char) := do
  let (hour, rest) ← fixedDigits 2 text
  let (minute, rest) ← fixedDigits 2 (← char? ':' rest)
  let (second, rest) ← fixedDigits 2 (← char? ':' rest)
  let rest ← match rest with
    | '.' :: d :: rest => if d.isDigit then some (rest.dropWhile Char.isDigit) else none
    | rest => some rest
  if hour ≤ 23 ∧ minute ≤ 59 ∧ second ≤ 60 then some rest else none

/-- The offset of a time, if one is written. -/
def offset : List Char → Option (List Char)
  | c :: rest =>
    if c = 'Z' ∨ c = 'z' then some rest
    else if c = '+' ∨ c = '-' then do
      let (hours, rest) ← fixedDigits 2 rest
      let (minutes, rest) ← fixedDigits 2 (← char? ':' rest)
      if hours ≤ 23 ∧ minutes ≤ 59 then some rest else none
    else some (c :: rest)
  | [] => some []

/-- A date, a time, or both; with both there may be an offset. -/
def moment (text : List Char) : Option (Json × List Char) := do
  let rest ←
    match date text with
    | none => time text
    | some rest =>
      match rest with
      | c :: d :: more =>
        if (c = 'T' ∨ c = 't' ∨ c = ' ') ∧ d.isDigit then (time (d :: more)).bind offset
        else some rest
      | rest => some rest
  let written := text.take (text.length - rest.length)
  return (.object [("moment", .string (String.ofList written))], rest)

/-- A value that is no array and no table. -/
def scalar (text : List Char) : Option (Json × List Char) :=
  match text with
  | [] => none
  | c :: _ =>
    if c = '"' ∨ c = '\x27' then (string text).map fun (s, rest) => (.string s, rest)
    else if c = 't' then (word? "true" text).map (.bool true, ·)
    else if c = 'f' then (word? "false" text).map (.bool false, ·)
    else (moment text).or ((real text).or (integer text))

end ModelPreview.Toml
