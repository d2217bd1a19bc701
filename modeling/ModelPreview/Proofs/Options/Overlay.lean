import ModelPreview.Options.Config
import ModelPreview.Proofs.Encoding

/-!
# Options laid over the defaults

A document may give any of the keys of options, and of the names in them. What it decodes to has
the given values under those keys and the defaults under all others; keys that options do not have
play no part.

Each key is read by itself, so one law on a single field that may be missing does for all nine.
-/

namespace ModelPreview

open Json

namespace Json.Fields

variable {α : Type}

/-- The fields with the keys that `keep` asks for. -/
def only (keep : String → Bool) (fields : Fields) : Fields :=
  fields.filter (keep ·.1)

theorem get?_only {fields : Fields} {keep : String → Bool} {key : String} (h : keep key) :
    (fields.only keep).get? key = fields.get? key := by
  induction fields with
  | nil => rfl
  | cons field rest ih =>
      obtain ⟨k, v⟩ := field
      rw [only] at ih ⊢
      rw [List.filter_cons]
      split
      · rw [get?_cons, get?_cons, ih]
      · next hk =>
        have hne : key ≠ k := by
          rintro rfl
          exact hk h
        rw [ih, get?_cons, if_neg hne]

/-- Every value changed in a way that may depend on its key. -/
def mapValues (f : String → Json → Json) (fields : Fields) : Fields :=
  fields.map fun field => (field.1, f field.1 field.2)

theorem get?_mapValues (f : String → Json → Json) (fields : Fields) (key : String) :
    (fields.mapValues f).get? key = (fields.get? key).map (f key) := by
  induction fields with
  | nil => rfl
  | cons field rest ih =>
      obtain ⟨k, v⟩ := field
      rw [mapValues] at ih ⊢
      rw [List.map_cons, get?_cons, get?_cons, ih]
      split
      · next hk => rw [hk, Option.map_some]
      · rfl

variable {fields : Fields} {key : String} {decode : Json → Decoded α} {json : Json} {a : α}

theorem decode?_congr {fields' : Fields} (hget : fields'.get? key = fields.get? key) :
    fields'.decode? key decode = fields.decode? key decode := by
  rw [decode?, hget, decode?]

/-- A value that is given or not is decoded or not. -/
theorem decode?_of_given {given : Bool} (hget : fields.get? key = if given then some json else none)
    (hdecode : decode json = .ok a) :
    fields.decode? key decode = .ok (if given then some a else none) := by
  rw [decode?, hget]
  cases given with
  | true => exact congrArg (some <$> ·) hdecode
  | false => rfl

end Json.Fields

/-- The value under a key that is given, or else the default. -/
theorem Option.getD_given {α : Type} (given : Bool) (a b : α) :
    (if given then some a else none).getD b = if given then a else b := by
  cases given <;> rfl

namespace Naming

/-- The keys of a table of names. -/
inductive Key where
  | protocolSuffix
  | previewPrefix
  | observableProtocolPrefix
  | observablePreviewPrefix

namespace Key

def text : Key → String
  | protocolSuffix => "protocol_suffix"
  | previewPrefix => "preview_prefix"
  | observableProtocolPrefix => "observable_protocol_prefix"
  | observablePreviewPrefix => "observable_preview_prefix"

/-- All keys, in the order in which they are written. -/
def all : List Key :=
  [protocolSuffix, previewPrefix, observableProtocolPrefix, observablePreviewPrefix]

/-- Where a name stands in a list of names without keys. -/
def place : Key → Nat
  | protocolSuffix => 0
  | previewPrefix => 1
  | observableProtocolPrefix => 2
  | observablePreviewPrefix => 3

end Key

/-- The affix under a key. -/
def get (n : Naming) : Key → String
  | .protocolSuffix => n.protocolSuffix
  | .previewPrefix => n.previewPrefix
  | .observableProtocolPrefix => n.observableProtocolPrefix
  | .observablePreviewPrefix => n.observablePreviewPrefix

/-- Names that agree with `n` on the selected keys and with the defaults on all others. -/
def overlay (n : Naming) (selected : Key → Bool) : Naming :=
  let name (key : Key) := if selected key then n.get key else default.get key
  { protocolSuffix := name .protocolSuffix
    previewPrefix := name .previewPrefix
    observableProtocolPrefix := name .observableProtocolPrefix
    observablePreviewPrefix := name .observablePreviewPrefix }

/-- The affix under a key, if the key is selected. -/
def get? (n : Naming) (selected : Key → Bool) (key : Key) : Option String :=
  if selected key then some (n.get key) else none

theorem ofGiven_get? (n : Naming) (selected : Key → Bool) :
    ofGiven (n.get? selected .protocolSuffix) (n.get? selected .previewPrefix)
      (n.get? selected .observableProtocolPrefix) (n.get? selected .observablePreviewPrefix) =
        n.overlay selected := by
  simp only [ofGiven, get?, Option.getD_given]
  rfl

/-- A table gives the selected names, as `n` has them, and no others. Other keys are free. -/
def Gives (n : Naming) (selected : Key → Bool) (table : Fields) : Prop :=
  ∀ key : Key, table.get? key.text = if selected key then some (.string (n.get key)) else none

theorem ofJson_of_gives {n : Naming} {selected : Key → Bool} {table : Fields}
    (h : n.Gives selected table) : Naming.ofJson (.object table) = .ok (n.overlay selected) := by
  have hkey (key : Key) : table.decode? key.text decodeText = .ok (n.get? selected key) :=
    Fields.decode?_of_given (h key) (decodeText_string _)
  have hprotocol := hkey .protocolSuffix
  have hpreview := hkey .previewPrefix
  have hobservableProtocol := hkey .observableProtocolPrefix
  have hobservablePreview := hkey .observablePreviewPrefix
  simp only [Key.text] at hprotocol hpreview hobservableProtocol hobservablePreview
  rw [← ofGiven_get?]
  simp only [Naming.ofJson, ofFields, hprotocol, hpreview, hobservableProtocol, hobservablePreview,
    Except.ok_bind]
  rfl

/-- A list gives the selected names, as `n` has them, at the places of their keys. What is listed
behind the last place is free. -/
def Lists (n : Naming) (selected : Key → Bool) (items : List Json) : Prop :=
  ∀ key : Key, items[key.place]? = if selected key then some (.string (n.get key)) else none

/-- Names that are listed are read like those in a table. -/
theorem ofJson_of_lists {n : Naming} {selected : Key → Bool} {items : List Json}
    (h : n.Lists selected items) : Naming.ofJson (.array items) = .ok (n.overlay selected) := by
  have hplace (key : Key) : items[key.place]?.mapM decodeText = .ok (n.get? selected key) := by
    rw [h key, get?]
    cases selected key <;> rfl
  have hprotocol := hplace .protocolSuffix
  have hpreview := hplace .previewPrefix
  have hobservableProtocol := hplace .observableProtocolPrefix
  have hobservablePreview := hplace .observablePreviewPrefix
  simp only [Key.place] at hprotocol hpreview hobservableProtocol hobservablePreview
  rw [← ofGiven_get?]
  simp only [Naming.ofJson, ofItems, hprotocol, hpreview, hobservableProtocol, hobservablePreview,
    Except.ok_bind]
  rfl

/-- One name of four, and one value too many. -/
example :
    Naming.ofJson (.array [.string "Shape"]) = .ok { default with protocolSuffix := "Shape" } ∧
      Naming.ofJson (.array (Key.all.map (.string ∘ default.get) ++ [.null])) = .ok default :=
  ⟨rfl, rfl⟩

def isKnown (key : String) : Bool :=
  (Key.all.map Key.text).contains key

/-- A value that is a table loses its unknown keys. -/
def withoutUnknown : Json → Json
  | .object table => .object (Fields.only isKnown table)
  | json => json

/-- Unknown keys of a table play no part. -/
theorem ofJson_withoutUnknown (json : Json) :
    Naming.ofJson (withoutUnknown json) = Naming.ofJson json := by
  obtain ⟨table, rfl⟩ | hother : (∃ table, json = .object table) ∨ withoutUnknown json = json := by
    cases json with
    | object table => exact .inl ⟨table, rfl⟩
    | _ => exact .inr rfl
  · have hkey (key : Key) : (Fields.only isKnown table).decode? key.text decodeText =
        Fields.decode? table key.text decodeText :=
      Fields.decode?_congr (Fields.get?_only (by cases key <;> rfl))
    have hprotocol := hkey .protocolSuffix
    have hpreview := hkey .previewPrefix
    have hobservableProtocol := hkey .observableProtocolPrefix
    have hobservablePreview := hkey .observablePreviewPrefix
    simp only [Key.text] at hprotocol hpreview hobservableProtocol hobservablePreview
    simp only [withoutUnknown, Naming.ofJson, ofFields, hprotocol, hpreview, hobservableProtocol,
      hobservablePreview]
  · rw [hother]

end Naming

namespace Options

/-- A choice of keys. With the table of names goes a choice of names. -/
structure Selection where
  modelAttribute : Bool
  relationshipAttributes : Bool
  naming : Option (Naming.Key → Bool)
  emitObservable : Bool
  indent : Bool

/-- Every key, and every name. -/
def Selection.all : Selection where
  modelAttribute := true
  relationshipAttributes := true
  naming := some fun _ => true
  emitObservable := true
  indent := true

/-- Options that agree with `o` on the selected keys and with the defaults on all others. -/
def overlay (o : Options) (s : Selection) : Options where
  modelAttribute := if s.modelAttribute then o.modelAttribute else default.modelAttribute
  relationshipAttributes :=
    if s.relationshipAttributes then o.relationshipAttributes else default.relationshipAttributes
  naming := (s.naming.map o.naming.overlay).getD default.naming
  emitObservable := if s.emitObservable then o.emitObservable else default.emitObservable
  indent := if s.indent then o.indent else default.indent

theorem overlay_all (o : Options) : o.overlay .all = o := rfl

/-- A document gives the selected keys, as `o` has them, and no other keys of options. Unknown keys
are free, in the document and in its table of names, and so is the order of all keys. -/
structure Gives (o : Options) (s : Selection) (document : Fields) : Prop where
  modelAttribute : document.get? "model_attribute" =
    if s.modelAttribute then some (.string o.modelAttribute) else none
  relationshipAttributes : document.get? "relationship_attributes" =
    if s.relationshipAttributes then some (ofTexts o.relationshipAttributes) else none
  naming : ∃ table : Option Fields, document.get? "naming" = table.map .object ∧
    Option.Rel o.naming.Gives s.naming table
  emitObservable : document.get? "emit_observable" =
    if s.emitObservable then some (.bool o.emitObservable) else none
  indent : document.get? "indent" = if s.indent then some (.string o.indent) else none

theorem ofJson_of_gives {o : Options} {s : Selection} {document : Fields}
    (h : o.Gives s document) : Options.ofJson (.object document) = .ok (o.overlay s) := by
  have hmodel := Fields.decode?_of_given h.modelAttribute (decodeText_string _)
  have hrelationship := Fields.decode?_of_given h.relationshipAttributes (decodeList_ofTexts _)
  have hemit := Fields.decode?_of_given h.emitObservable (decodeFlag_bool _)
  have hindent := Fields.decode?_of_given h.indent (decodeText_string _)
  have hnaming : document.decode? "naming" Naming.ofJson =
      .ok (s.naming.map o.naming.overlay) := by
    obtain ⟨table, hget, hgives⟩ := h.naming
    rw [Fields.decode?, hget]
    generalize s.naming = names at hgives
    cases hgives with
    | none => rfl
    | some htable => exact congrArg (some <$> ·) (Naming.ofJson_of_gives htable)
  simp [Options.ofJson, decodeFields, hmodel, hrelationship, hemit, hindent, hnaming,
    Option.getD_given, overlay]

def isKnown (key : String) : Bool :=
  ["model_attribute", "relationship_attributes", "naming", "emit_observable", "indent"].contains key

/-- A document without its unknown keys, and without those of its table of names. -/
def withoutUnknown (document : Fields) : Fields :=
  (document.only isKnown).mapValues fun key held =>
    if key = "naming" then Naming.withoutUnknown held else held

/-- Unknown keys play no part, whether the document decodes or not. -/
theorem ofJson_withoutUnknown (document : Fields) :
    Options.ofJson (.object (withoutUnknown document)) = Options.ofJson (.object document) := by
  have hkey {α : Type} (key : String) (decode : Json → Decoded α) (hknown : isKnown key)
      (hne : key ≠ "naming") :
      (withoutUnknown document).decode? key decode = document.decode? key decode := by
    refine Fields.decode?_congr ?_
    rw [withoutUnknown, Fields.get?_mapValues, Fields.get?_only hknown]
    simp [hne]
  have hnaming : (withoutUnknown document).decode? "naming" Naming.ofJson =
      document.decode? "naming" Naming.ofJson := by
    rw [Fields.decode?, withoutUnknown, Fields.get?_mapValues, Fields.get?_only rfl, Fields.decode?]
    cases document.get? "naming" with
    | none => rfl
    | some held => exact congrArg (some <$> ·) (Naming.ofJson_withoutUnknown held)
  have hmodel := hkey "model_attribute" decodeText rfl (by decide)
  have hrelationship :=
    hkey "relationship_attributes" (decodeList decodeText) rfl (by decide)
  have hemit := hkey "emit_observable" decodeFlag rfl (by decide)
  have hindent := hkey "indent" decodeText rfl (by decide)
  simp only [Options.ofJson, decodeFields, Except.ok_bind, hmodel, hrelationship, hemit, hindent,
    hnaming]

end Options

end ModelPreview
