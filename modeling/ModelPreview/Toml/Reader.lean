import ModelPreview.Toml.Scalar
import ModelPreview.Toml.Table

/-!
# Reading TOML text

A document is read into statements, one a line, and these into an object. Arrays may run over
several lines and end in a comma; inline tables may not. Arrays and inline tables nest at most 79
deep, and a dotted key has at most 79 parts.
-/

namespace ModelPreview.Toml

/-- How many arrays and inline tables may be open at once, and how many parts a key may have. -/
def depthLimit : Nat := 79

def isBare (c : Char) : Bool :=
  c.isAlphanum || c == '_' || c == '-'

/-- One part of a key. -/
def keyPart (text : List Char) : Option (String × List Char) :=
  let bare := text.takeWhile isBare
  if bare.isEmpty then shortString text else some (String.ofList bare, text.dropWhile isBare)

/-- The parts of a key with points between them. -/
def keyParts : (fuel : Nat) → List Char → Option (List String × List Char)
  | 0, _ => none
  | fuel + 1, text => do
    let (part, rest) ← keyPart (skipBlanks text)
    match skipBlanks rest with
    | '.' :: rest =>
      let (others, rest) ← keyParts fuel rest
      return (part :: others, rest)
    | rest => return ([part], rest)

/-- A key as the path to a table and the name in it. -/
def key (text : List Char) : Option ((List String × String) × List Char) := do
  let (parts, rest) ← keyParts depthLimit text
  let name ← parts.getLast?
  return ((parts.dropLast, name), rest)

mutual

/-- A value; `room` more arrays and inline tables may be opened. -/
def value : (fuel room : Nat) → List Char → Option (Json × List Char)
  | 0, _, _ => none
  | fuel + 1, room, text =>
    match text with
    | '[' :: rest =>
      match room with
      | 0 => none
      | room + 1 => (items fuel room rest).map fun (items, rest) => (.array items, rest)
    | '\x7b' :: rest =>
      match room with
      | 0 => none
      | room + 1 => do
        let (statements, rest) ←
          match skipBlanks rest with
          | '\x7d' :: rest => some ([], rest)
          | rest => pairs fuel room rest
        return (← objectOf? statements, rest)
    | text => scalar text

/-- The items of an array up to its closing bracket. -/
def items : (fuel room : Nat) → List Char → Option (List Json × List Char)
  | 0, _, _ => none
  | fuel + 1, room, text =>
    match skipLines text.length text with
    | ']' :: rest => some ([], rest)
    | text => do
      let (item, rest) ← value fuel room text
      match skipLines rest.length rest with
      | ',' :: rest =>
        let (others, rest) ← items fuel room rest
        return (item :: others, rest)
      | ']' :: rest => return ([item], rest)
      | _ => none

/-- The assignments of an inline table up to its closing brace. -/
def pairs : (fuel room : Nat) → List Char → Option (List Statement × List Char)
  | 0, _, _ => none
  | fuel + 1, room, text => do
    let (statement, rest) ← assignment fuel room text
    match skipBlanks rest with
    | ',' :: rest =>
      let (others, rest) ← pairs fuel room rest
      return (statement :: others, rest)
    | '\x7d' :: rest => return ([statement], rest)
    | _ => none

/-- A key, an equals sign and a value. -/
def assignment : (fuel room : Nat) → List Char → Option (Statement × List Char)
  | 0, _, _ => none
  | fuel + 1, room, text => do
    let ((path, name), rest) ← key text
    let rest ← char? '=' rest
    let (json, rest) ← value fuel room (skipBlanks rest)
    return (.assign path name json, rest)

end

/-- A statement at the start of a line. -/
def statement : List Char → Option (Statement × List Char)
  | '[' :: '[' :: rest => do
    let ((path, name), rest) ← key rest
    return (.arrayHeader path name, ← word? "]]" rest)
  | '[' :: rest => do
    let ((path, name), rest) ← key rest
    return (.header path name, ← char? ']' rest)
  | text => assignment (3 * text.length + 3) depthLimit text

/-- The statements of a document. Blanks and a comment may follow each, and then the line ends. -/
def statements : (fuel : Nat) → List Char → Option (List Statement)
  | 0, _ => none
  | fuel + 1, text =>
    match skipLines text.length text with
    | [] => some []
    | text => do
      let (first, rest) ← statement text
      match skipComment (skipBlanks rest) with
      | [] => return [first]
      | rest =>
        let rest ← newline? rest
        return first :: (← statements fuel rest)

/-- A text without the mark of byte order that may stand at its start. -/
def withoutMark : List Char → List Char
  | '\ufeff' :: rest => rest
  | text => text

/-- The object that a TOML text describes. -/
def read? (text : String) : Option Json := do
  let chars := withoutMark text.toList
  objectOf? (← statements (chars.length + 1) chars)

end ModelPreview.Toml
