import ModelPreview.Json.Basic

/-!
# JSON pointers

A pointer is a list of tokens. Each token names a field of an object, or by its decimal numeral
an item of an array. In the text of a pointer every token follows a slash; `~0` stands for a tilde
and `~1` for a slash inside a token.
-/

namespace ModelPreview

/-- The way from a document to one of the values inside it. -/
abbrev Pointer := List String

namespace Pointer

/-- The token of an array item. -/
def index (n : Nat) : String :=
  toString n

/-- A token with its tildes and slashes written out. -/
def escape (token : String) : String :=
  String.ofList <| token.toList.flatMap fun c =>
    if c = '~' then ['~', '0'] else if c = '/' then ['~', '1'] else [c]

/-- The text of a pointer; the whole document is the empty text. -/
def text (pointer : Pointer) : String :=
  String.join (pointer.map fun token => "/" ++ escape token)

/-- A token read back from its characters. -/
def unescape? : List Char → Option (List Char)
  | [] => some []
  | '~' :: '0' :: rest => (unescape? rest).map ('~' :: ·)
  | '~' :: '1' :: rest => (unescape? rest).map ('/' :: ·)
  | c :: rest => if c = '~' then none else (unescape? rest).map (c :: ·)

/-- The characters of each token, given what follows a slash. -/
def tokens : List Char → List (List Char)
  | [] => [[]]
  | c :: rest =>
    if c = '/' then [] :: tokens rest
    else match tokens rest with
      | [] => [[c]]
      | token :: others => (c :: token) :: others

/-- The pointer that a text holds. -/
def ofText? (text : String) : Option Pointer :=
  match text.toList with
  | [] => some []
  | c :: rest =>
    if c = '/' then (tokens rest).mapM fun token => (unescape? token).map String.ofList else none

end Pointer

namespace Json

/-- The item that a token names, counting from `start`. -/
def itemAt? (token : String) : (start : Nat) → List Json → Option Json
  | _, [] => none
  | start, item :: rest =>
    if token = Pointer.index start then some item else itemAt? token (start + 1) rest

/-- The value that one token leads to. -/
def child? (token : String) : Json → Option Json
  | .object fields => Fields.get? fields token
  | .array items => itemAt? token 0 items
  | _ => none

/-- The value that a pointer leads to. -/
def at? : Json → Pointer → Option Json
  | json, [] => some json
  | json, token :: rest => (json.child? token).bind (·.at? rest)

end Json

end ModelPreview
