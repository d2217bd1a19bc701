/-!
# JSON values

An object is the list of its fields in the order in which they are held. A reader hands over
fields sorted by key and each key once; a writer keeps the order it is given. Looking a key up
takes the first field of that name.

Numbers are integers of the 64-bit ranges, or binary64 reals kept by their bits, so that two
numbers can be told apart by `=`.
-/

namespace ModelPreview

/-- A number of a JSON document. -/
inductive JsonNumber where
  | integer (value : Int)
  | real (bits : UInt64)
  deriving DecidableEq

/-- A JSON document. -/
inductive Json where
  | null
  | bool (value : Bool)
  | number (value : JsonNumber)
  | string (text : String)
  | array (items : List Json)
  | object (fields : List (String × Json))
  deriving Inhabited

namespace Json

/-- The fields of an object, in held order. -/
abbrev Fields := List (String × Json)

/-- The number that counts something. -/
def ofNat (n : Nat) : Json :=
  .number (.integer n)

/-- The array of the given texts. -/
def ofTexts (texts : List String) : Json :=
  .array (texts.map .string)

/-- A field for an optional text: nothing where there is no text. -/
def Fields.ofText? (key : String) : Option String → Fields
  | some text => [(key, .string text)]
  | none => []

/-- The value of the first field named `key`. -/
def Fields.get? (fields : Fields) (key : String) : Option Json :=
  List.lookup key fields

@[simp] theorem Fields.get?_nil (key : String) : Fields.get? [] key = none := rfl

theorem Fields.get?_cons (key : String) (k : String) (v : Json) (rest : Fields) :
    Fields.get? ((k, v) :: rest) key = if key = k then some v else Fields.get? rest key := by
  by_cases h : key = k
  · subst h; simp [Fields.get?]
  · have : (key == k) = false := by simpa using h
    simp [Fields.get?, List.lookup_cons, this, h]

/-- Fields in front come first. -/
theorem Fields.get?_append (front back : Fields) (key : String) :
    Fields.get? (front ++ back) key = (front.get? key).or (back.get? key) :=
  List.lookup_append

theorem Fields.get?_ofText? (key : String) (text : Option String) (other : String) :
    (Fields.ofText? key text).get? other = if other = key then text.map .string else none := by
  cases text <;> simp [Fields.ofText?, Fields.get?_cons]

theorem Fields.mem_of_get? {fields : Fields} {key : String} {held : Json}
    (h : fields.get? key = some held) : (key, held) ∈ fields := by
  obtain ⟨before, behind, rfl, -⟩ := List.lookup_eq_some_iff.mp h
  simp

/-- Put a value under a key: fields stay sorted by key, and a later value replaces an earlier. -/
def Fields.put (key : String) (value : Json) : Fields → Fields
  | [] => [(key, value)]
  | (k, v) :: rest =>
    if key = k then (key, value) :: rest
    else if key < k then (key, value) :: (k, v) :: rest
    else (k, v) :: Fields.put key value rest

/-- Putting a value makes it the value of its key and leaves every other key as it was. -/
theorem Fields.get?_put (key : String) (value : Json) (fields : Fields) (other : String) :
    (Fields.put key value fields).get? other =
      if other = key then some value else fields.get? other := by
  induction fields with
  | nil => simp [Fields.put, Fields.get?_cons]
  | cons field rest ih =>
    obtain ⟨k, v⟩ := field
    simp only [Fields.put]
    split
    · next h => subst h; simp [Fields.get?_cons]; split <;> rfl
    · next h =>
      split
      · simp [Fields.get?_cons]
      · simp only [Fields.get?_cons, ih]
        split
        · next hk => subst hk; simp [Ne.symm h]
        · rfl

end Json

end ModelPreview
