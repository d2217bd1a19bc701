import ModelPreview.Json.Numeral

/-!
# Decoding values from JSON

A record is decoded by looking its fields up: fields that are present are decoded in the order of
their names, and the first value that does not decode is the error; after that the first required
field that is absent is the error. Fields that the record does not name play no part.

A tagged object names its alternative in one of its own fields, which is decoded before the others.
Inside a tagged object decoding is *lenient* in two points: a tag may be the number of the
alternative, and the null beside a word that is written as a key may be an empty object.
-/

namespace ModelPreview

/-- Why a value does not decode. -/
inductive DecodeError where
  | wrongType (found : Json) (expected : String)
  | wrongValue (found : Json) (expected : String)
  | unknownWord (found : String) (known : List String)
  | missingField (name : String)
  deriving Inhabited

/-- A computation that may fail to decode. -/
abbrev Decoded := Except DecodeError

namespace DecodeError

/-- A string between quotes, with escapes for quotes, backslashes and control characters. -/
def quoted (text : String) : String :=
  let escaped (c : Char) : String :=
    if c = '"' then "\\\""
    else if c = '\\' then "\\\\"
    else if c = '\n' then "\\n"
    else if c = '\r' then "\\r"
    else if c = '\t' then "\\t"
    else if c.toNat = 0 then "\\0"
    else if c.toNat < 0x20 || c.toNat = 0x7f then
      "\\u\x7b" ++ String.ofList (Nat.toDigits 16 c.toNat) ++ "\x7d"
    else c.toString
  "\"" ++ String.join (text.toList.map escaped) ++ "\""

/-- What kind of value was found. -/
def describe : Json → String
  | .null => "null"
  | .bool b => s!"boolean `{b}`"
  | .number (.integer n) => s!"integer `{n}`"
  | .number (.real bits) => "floating point `" ++ (Binary64.ofBits bits).text .plain ++ "`"
  | .string s => "string " ++ quoted s
  | .array _ => "sequence"
  | .object _ => "map"

/-- The words that were expected, as an enumeration. -/
def listing : List String → String
  | [] => "there are no variants"
  | [a] => s!"expected `{a}`"
  | [a, b] => s!"expected `{a}` or `{b}`"
  | words => "expected one of " ++ ", ".intercalate (words.map fun w => s!"`{w}`")

def message : DecodeError → String
  | .wrongType found expected => s!"invalid type: {describe found}, expected {expected}"
  | .wrongValue found expected => s!"invalid value: {describe found}, expected {expected}"
  | .unknownWord found known => s!"unknown variant `{found}`, {listing known}"
  | .missingField name => s!"missing field `{name}`"

end DecodeError

namespace Json

def decodeText : Json → Decoded String
  | .string s => .ok s
  | found => .error (.wrongType found "a string")

def decodeFlag : Json → Decoded Bool
  | .bool b => .ok b
  | found => .error (.wrongType found "a boolean")

/-- Null, or a value. -/
def decodeNullable (decode : Json → Decoded α) : Json → Decoded (Option α)
  | .null => .ok none
  | json => some <$> decode json

/-- Decode every item, in order. -/
def decodeItems (decode : Json → Decoded α) : List Json → Decoded (List α)
  | [] => .ok []
  | item :: rest => do
    let first ← decode item
    let others ← decodeItems decode rest
    return first :: others

def decodeList (decode : Json → Decoded α) : Json → Decoded (List α)
  | .array items => decodeItems decode items
  | found => .error (.wrongType found "a sequence")

/-- The fields of an object; `expected` says what an object would have been. -/
def decodeFields (expected : String) : Json → Decoded Fields
  | .object fields => .ok fields
  | found => .error (.wrongType found expected)

/-- The decoded value of a field, if the field is present. -/
def Fields.decode? (fields : Fields) (key : String) (decode : Json → Decoded α) :
    Decoded (Option α) :=
  match fields.get? key with
  | none => .ok none
  | some json => some <$> decode json

/-- An optional text, which may also be null. -/
def Fields.textOrNull? (fields : Fields) (key : String) : Decoded (Option String) :=
  Option.join <$> fields.decode? key (decodeNullable decodeText)

/-- A field that has to be present. -/
def require (key : String) : Option α → Decoded α
  | some a => .ok a
  | none => .error (.missingField key)

@[simp] theorem decodeText_string (s : String) : decodeText (.string s) = .ok s := rfl

@[simp] theorem decodeFlag_bool (b : Bool) : decodeFlag (.bool b) = .ok b := rfl

@[simp] theorem decodeList_array (decode : Json → Decoded α) (items : List Json) :
    decodeList decode (.array items) = decodeItems decode items := rfl

@[simp] theorem Fields.decode?_cons (k : String) (json : Json) (rest : Fields) (key : String)
    (decode : Json → Decoded α) :
    Fields.decode? ((k, json) :: rest) key decode =
      if key = k then some <$> decode json else rest.decode? key decode := by
  rw [Fields.decode?, Fields.get?_cons]
  by_cases h : key = k
  · rw [if_pos h, if_pos h]
  · rw [if_neg h, if_neg h, Fields.decode?]

theorem Fields.decode?_of_get? {fields : Fields} {key : String} {json : Json}
    (hget : fields.get? key = some json) {decode : Json → Decoded α} {a : α}
    (hdecode : decode json = .ok a) : fields.decode? key decode = .ok (some a) := by
  rw [Fields.decode?, hget]
  exact congrArg (some <$> ·) hdecode

@[simp] theorem require_some (key : String) (a : α) : require key (some a) = .ok a := rfl

/-- The value of a word, from a table of all words. -/
def ofWord (table : List (String × α)) (word : String) : Decoded α :=
  match table.lookup word with
  | some a => .ok a
  | none => .error (.unknownWord word (table.map Prod.fst))

theorem ofWord_of_lookup {table : List (String × α)} {word : String} {a : α}
    (hword : table.lookup word = some a) : ofWord table word = .ok a := by
  rw [ofWord, hword]

/-- A word is written as a string, or as the only key of an object that holds null. -/
def decodeWord (lenient : Bool) (table : List (String × α)) : Json → Decoded α
  | .string word => ofWord table word
  | .object [(word, held)] => do
    let a ← ofWord table word
    match held with
    | .null => return a
    | .object [] => if lenient then return a else throw (.wrongType held "unit")
    | held => throw (.wrongType held "unit")
  | .object fields => .error (.wrongValue (.object fields) "map with a single key")
  | found => .error (.wrongType found "string or map")

/-- The alternative that the tag of an object names. -/
def decodeTag (lenient : Bool) (table : List (String × α)) (key : String) (fields : Fields) :
    Decoded α :=
  match fields.get? key with
  | none => .error (.missingField key)
  | some (.string word) => ofWord table word
  | some (.number (.integer n)) =>
    if lenient ∧ 0 ≤ n then
      match table[n.toNat]? with
      | some (_, a) => .ok a
      | none =>
        .error (.wrongValue (.number (.integer n)) s!"variant index 0 <= i < {table.length}")
    else .error (.wrongType (.number (.integer n)) "variant identifier")
  | some found => .error (.wrongType found "variant identifier")

theorem decodeTag_of_get? {fields : Fields} {key word : String}
    (hget : fields.get? key = some (.string word)) (lenient : Bool) (table : List (String × α)) :
    decodeTag lenient table key fields = ofWord table word := by
  rw [decodeTag, hget]

/-- A tag that stands in front. -/
@[simp] theorem decodeTag_cons (lenient : Bool) (table : List (String × α)) (key word : String)
    (rest : Fields) :
    decodeTag lenient table key ((key, .string word) :: rest) = ofWord table word :=
  decodeTag_of_get? (by rw [Fields.get?_cons, if_pos rfl]) lenient table

end Json

end ModelPreview
