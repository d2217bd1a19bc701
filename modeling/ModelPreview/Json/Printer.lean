import ModelPreview.Json.Numeral

/-!
# Writing JSON text

Two layouts of the same value: on one line without blanks, and indented by two spaces with one
item or field a line, where an empty array or object stays on its line. Fields are written in held
order. Only quotes, backslashes and control characters are escaped in strings.
-/

namespace ModelPreview.Json

namespace Printer

/-- A hexadecimal digit, in lower case. -/
def hexDigit (n : Nat) : Char :=
  (Nat.digitChar n)

/-- How one character stands in a string. -/
def escaped (c : Char) : List Char :=
  if c = '"' then ['\\', '"']
  else if c = '\\' then ['\\', '\\']
  else if c = '\x08' then ['\\', 'b']
  else if c = '\x0c' then ['\\', 'f']
  else if c = '\n' then ['\\', 'n']
  else if c = '\r' then ['\\', 'r']
  else if c = '\t' then ['\\', 't']
  else if c.toNat < 0x20 then
    ['\\', 'u', '0', '0', hexDigit (c.toNat / 16), hexDigit (c.toNat % 16)]
  else [c]

/-- A text between quotes. -/
def quoted (text : String) : String :=
  "\"" ++ String.ofList (text.toList.flatMap escaped) ++ "\""

end Printer

open Printer

mutual

/-- The text of a value on one line. -/
def compact : Json → String
  | .null => "null"
  | .bool true => "true"
  | .bool false => "false"
  | .number n => n.text .json
  | .string s => quoted s
  | .array items => "[" ++ ",".intercalate (compactItems items) ++ "]"
  | .object fields => "\x7b" ++ ",".intercalate (compactFields fields) ++ "\x7d"

def compactItems : List Json → List String
  | [] => []
  | item :: rest => compact item :: compactItems rest

def compactFields : List (String × Json) → List String
  | [] => []
  | (key, item) :: rest => (quoted key ++ ":" ++ compact item) :: compactFields rest

end

/-- Lines between an opening and a closing bracket; the closing line starts with the margin. -/
def Printer.block (margin opening closing : String) (lines : List String) : String :=
  if lines.isEmpty then opening ++ closing
  else
    opening ++ "\n" ++ ",\n".intercalate (lines.map (margin ++ "  " ++ ·)) ++ "\n" ++
      margin ++ closing

mutual

/-- The indented text of a value whose line starts with `margin`. -/
def indented (margin : String) : Json → String
  | .array items => block margin "[" "]" (indentedItems (margin ++ "  ") items)
  | .object fields => block margin "\x7b" "\x7d" (indentedFields (margin ++ "  ") fields)
  | .null => "null"
  | .bool true => "true"
  | .bool false => "false"
  | .number n => n.text .json
  | .string s => quoted s

def indentedItems (margin : String) : List Json → List String
  | [] => []
  | item :: rest => indented margin item :: indentedItems margin rest

def indentedFields (margin : String) : List (String × Json) → List String
  | [] => []
  | (key, item) :: rest =>
    (quoted key ++ ": " ++ indented margin item) :: indentedFields margin rest

end

/-- The indented text of a document. -/
def pretty (json : Json) : String :=
  json.indented ""

end ModelPreview.Json
