import ModelPreview.Proofs.Options.Overlay
import ModelPreview.Proofs.Toml.Lines
import ModelPreview.Proofs.Toml.Tables

/-!
# Partial config files

A config file gives some of the keys of options, each on lines of its own, and some of the names in
a table at its end. It is read as a document of just these keys, so it stands for the options that
have the given values under these keys and the defaults under all others.
-/

namespace ModelPreview

open Json

namespace Config

/-- The fields that keys and values are. -/
def toFields (entries : List (String × Value)) : Fields :=
  entries.map fun entry => (entry.1, entry.2.toJson)

/-- The lines of keys and values. -/
def linesOf (entries : List (String × Value)) : String :=
  String.join (entries.map fun entry => entry.2.lines entry.1)

/-- Keys and values, and a table with its header behind an empty line. -/
def fileText (entries : List (String × Value)) : Option (String × List (String × Value)) → String
  | none => linesOf entries
  | some (key, table) => linesOf entries ++ "\n[" ++ key ++ "]\n" ++ linesOf table

theorem toList_linesOf (entries : List (String × Value)) :
    (linesOf entries).toList = entries.flatMap fun entry => (entry.2.lines entry.1).toList := by
  simp [linesOf, List.flatMap_map]

theorem Value.toList_lines_ne_nil (key : String) (v : Value) : (v.lines key).toList ≠ [] := by
  simp [Value.toList_lines]

end Config

namespace Toml

open Config

variable {entries : List (String × Value)}

/-- Lines are read one after the other. -/
theorem statements_linesOf (hbare : ∀ entry ∈ entries, IsBareKey entry.1) (fuel : Nat)
    (rest : List Char) :
    statements (fuel + entries.length) ((linesOf entries).toList ++ rest) =
      (statements fuel rest).map (assignments (toFields entries) ++ ·) := by
  rw [toList_linesOf]
  induction entries with
  | nil => simp [toFields, assignments]
  | cons entry entries ih =>
      obtain ⟨hentry, hothers⟩ := List.forall_mem_cons.mp hbare
      rw [List.flatMap_cons, List.append_assoc, List.length_cons, ← Nat.add_assoc,
        statements_lines hentry, ih hothers, Option.map_map]
      rfl

theorem length_le_length_linesOf (entries : List (String × Value)) :
    entries.length ≤ (linesOf entries).toList.length := by
  rw [toList_linesOf]
  exact length_le_length_flatMap entries fun entry => entry.2.toList_lines_ne_nil entry.1

/-- A text that does not start with a mark of byte order is read as the object of its statements. -/
theorem read?_of_statements {text : String} {read : List Statement}
    (hmark : text.toList.head? ≠ some '\ufeff')
    (hread : statements (text.toList.length + 1) text.toList = some read) :
    read? text = objectOf? read := by
  have hwhole : withoutMark text.toList = text.toList := by
    unfold withoutMark
    split
    · next heq => exact absurd (by rw [heq]; rfl) hmark
    · rfl
  simp only [read?, hwhole, hread, Option.bind_eq_bind, Option.bind_some]

/-- Lines of keys and values start with no such mark. -/
theorem head?_linesOf_ne (hbare : ∀ entry ∈ entries, IsBareKey entry.1) {rest : List Char}
    (hrest : rest.head? ≠ some '\ufeff') :
    ((linesOf entries).toList ++ rest).head? ≠ some '\ufeff' := by
  rw [toList_linesOf]
  cases entries with
  | nil => exact hrest
  | cons entry entries =>
      have hentry := hbare entry List.mem_cons_self
      obtain ⟨c, cs, hchars⟩ := List.exists_cons_of_ne_nil hentry.ne_nil
      have hc : c ≠ '\ufeff' := ne_of_isBare (hentry.bare c (by simp [hchars])) (by decide)
      simpa [Value.toList_lines, hchars] using hc

/-- All lines of a text are read, and then it is at its end. -/
theorem statements_linesOf_end (hbare : ∀ entry ∈ entries, IsBareKey entry.1) (fuel : Nat) :
    statements (fuel + 1 + entries.length) (linesOf entries).toList =
      some (assignments (toFields entries)) := by
  have hend : statements (fuel + 1) [] = some [] := rfl
  have hread := statements_linesOf hbare (fuel + 1) []
  rwa [List.append_nil, hend, Option.map_some, List.append_nil] at hread

theorem map_fst_toFields (entries : List (String × Value)) :
    (toFields entries).map Prod.fst = entries.map Prod.fst := by
  simp [toFields]

/-- Lines of different keys are read as the object of the keys. -/
theorem read?_linesOf (hbare : ∀ entry ∈ entries, IsBareKey entry.1)
    (hkeys : (entries.map Prod.fst).Nodup) :
    read? (linesOf entries) = some (.object (toFields entries)) := by
  have hmark : ((linesOf entries).toList ++ []).head? ≠ some '\ufeff' :=
    head?_linesOf_ne hbare nofun
  rw [List.append_nil] at hmark
  have hlength := length_le_length_linesOf entries
  obtain ⟨fuel, hfuel⟩ : ∃ fuel,
      (linesOf entries).toList.length + 1 = fuel + 1 + entries.length :=
    ⟨(linesOf entries).toList.length - entries.length, by omega⟩
  rw [read?_of_statements hmark (hfuel ▸ statements_linesOf_end hbare fuel),
    objectOf?_assignments (by rwa [map_fst_toFields])]

/-- A table behind the lines is read as one more field. -/
theorem read?_fileText {key : String} {table : List (String × Value)}
    (hbare : ∀ entry ∈ entries, IsBareKey entry.1) (hkey : IsBareKey key)
    (htable : ∀ entry ∈ table, IsBareKey entry.1)
    (hkeys : (entries.map Prod.fst ++ [key]).Nodup) (hnames : (table.map Prod.fst).Nodup) :
    read? (fileText entries (some (key, table))) =
      some (.object (toFields entries ++ [(key, .object (toFields table))])) := by
  have htext : (fileText entries (some (key, table))).toList = (linesOf entries).toList ++
      '\n' :: '[' :: (key.toList ++ ']' :: '\n' :: (linesOf table).toList) := by
    simp [fileText]
  have hmark : (fileText entries (some (key, table))).toList.head? ≠ some '\ufeff' := by
    rw [htext]
    exact head?_linesOf_ne hbare (by simp)
  have hentries := length_le_length_linesOf entries
  have hlength := length_le_length_linesOf table
  obtain ⟨fuel, hfuel⟩ : ∃ fuel, (fileText entries (some (key, table))).toList.length + 1 =
      fuel + 1 + table.length + 1 + entries.length := by
    refine ⟨(fileText entries (some (key, table))).toList.length - table.length - 1 -
      entries.length, ?_⟩
    have hwhole := congrArg List.length htext
    simp only [List.length_append, List.length_cons] at hwhole
    omega
  have hread : statements ((fileText entries (some (key, table))).toList.length + 1)
      (fileText entries (some (key, table))).toList =
        some (assignments (toFields entries) ++ .header [] key :: assignments (toFields table)) := by
    rw [hfuel, htext, statements_linesOf hbare, statements_header hkey,
      statements_linesOf_end htable]
    rfl
  rw [read?_of_statements hmark hread, objectOf?_header]
  · rwa [map_fst_toFields]
  · rwa [map_fst_toFields]

end Toml

namespace Config

/-- A key and its value if the key is selected, and nothing otherwise. -/
def given (key : String) (selected : Bool) (v : Value) : List (String × Value) :=
  if selected then [(key, v)] else []

theorem get?_toFields_given (key : String) (selected : Bool) (v : Value) (other : String) :
    Fields.get? (toFields (given key selected v)) other =
      if other = key then if selected then some v.toJson else none else none := by
  cases selected <;> simp [given, toFields, Fields.get?_cons]

theorem toFields_append (front back : List (String × Value)) :
    toFields (front ++ back) = toFields front ++ toFields back :=
  List.map_append

/-- The keys are among those that may be selected. -/
theorem map_fst_given_sublist (key : String) (selected : Bool) (v : Value) :
    ((given key selected v).map Prod.fst).Sublist [key] := by
  cases selected <;> simp [given]

end Config

open Config

namespace Naming

/-- The selected keys of a table of names. -/
def entries (n : Naming) (selected : Key → Bool) : List (String × Value) :=
  Key.all.flatMap fun key => given key.text (selected key) (.text (n.get key))

theorem gives_toFields (n : Naming) (selected : Key → Bool) :
    n.Gives selected (toFields (n.entries selected)) := by
  intro key
  cases key <;>
    simp [entries, Key.all, Key.text, toFields_append, Fields.get?_append, get?_toFields_given,
      Value.toJson]

theorem map_fst_entries_sublist (n : Naming) (selected : Key → Bool) :
    ((n.entries selected).map Prod.fst).Sublist (Key.all.map Key.text) := by
  unfold entries
  induction Key.all with
  | nil => exact .slnil
  | cons key keys ih =>
      rw [List.flatMap_cons, List.map_append, List.map_cons]
      exact (map_fst_given_sublist key.text (selected key) _).append ih

end Naming

namespace Options

/-- The selected keys of options, those of the table of names aside. -/
def entries (o : Options) (s : Selection) : List (String × Value) :=
  given "model_attribute" s.modelAttribute (.text o.modelAttribute) ++
    given "relationship_attributes" s.relationshipAttributes (.texts o.relationshipAttributes) ++
    given "emit_observable" s.emitObservable (.flag o.emitObservable) ++
    given "indent" s.indent (.text o.indent)

/-- The config file with just the selected keys. -/
def selectedText (o : Options) (s : Selection) : String :=
  fileText (o.entries s) (s.naming.map fun names => ("naming", o.naming.entries names))

theorem map_fst_entries_sublist (o : Options) (s : Selection) :
    ((o.entries s).map Prod.fst).Sublist
      ["model_attribute", "relationship_attributes", "emit_observable", "indent"] := by
  simp only [entries, List.map_append]
  exact (((map_fst_given_sublist _ _ _).append (map_fst_given_sublist _ _ _)).append
    (map_fst_given_sublist _ _ _)).append (map_fst_given_sublist _ _ _)

/-- With all keys selected this is the config file of the options. -/
theorem selectedText_all (o : Options) : o.selectedText .all = o.toToml := by
  rw [← String.toList_inj]
  simp [selectedText, fileText, linesOf, entries, Naming.entries, Naming.Key.all, given,
    Selection.all, Value.lines, toToml, Naming.toToml, Naming.Key.text, Naming.get]

/-- The document that the config file with just the selected keys is. -/
def selectedFields (o : Options) (s : Selection) : Fields :=
  toFields (o.entries s) ++
    (s.naming.map fun names => ("naming", .object (toFields (o.naming.entries names)))).toList

theorem gives_selectedFields (o : Options) (s : Selection) : o.Gives s (o.selectedFields s) := by
  have hnaming (key : String) :
      Fields.get? (s.naming.map fun names =>
          ("naming", Json.object (toFields (o.naming.entries names)))).toList key =
        if key = "naming" then
          (s.naming.map fun names => toFields (o.naming.entries names)).map .object
        else none := by
    cases s.naming <;> simp [Fields.get?_cons]
  have hget (key : String) : (o.selectedFields s).get? key =
      (Fields.get? (toFields (o.entries s)) key).or _ :=
    (Fields.get?_append _ _ key).trans (congrArg _ (hnaming key))
  simp only [entries, toFields_append, Fields.get?_append, get?_toFields_given] at hget
  constructor
  case naming =>
    refine ⟨s.naming.map fun names => toFields (o.naming.entries names), by simp [hget], ?_⟩
    cases s.naming with
    | none => exact .none
    | some names => exact .some (o.naming.gives_toFields names)
  all_goals simp [hget, Value.toJson]

theorem read?_selectedText (o : Options) (s : Selection) :
    Toml.read? (o.selectedText s) = some (.object (o.selectedFields s)) := by
  have hkeys := o.map_fst_entries_sublist s
  have hbare : ∀ entry ∈ o.entries s, Toml.IsBareKey entry.1 := by
    have hall : ∀ key ∈ ["model_attribute", "relationship_attributes", "emit_observable",
        "indent"], Toml.IsBareKey key := by decide
    exact fun entry hentry => hall _ (hkeys.subset (List.mem_map_of_mem hentry))
  rw [selectedText, selectedFields]
  cases s.naming with
  | none =>
      rw [Option.map_none, Option.map_none, Option.toList_none, List.append_nil]
      exact Toml.read?_linesOf hbare (hkeys.nodup (by decide))
  | some names =>
      have hnames := o.naming.map_fst_entries_sublist names
      have htable : ∀ entry ∈ o.naming.entries names, Toml.IsBareKey entry.1 := by
        have hall : ∀ key ∈ Naming.Key.all.map Naming.Key.text, Toml.IsBareKey key := by decide
        exact fun entry hentry => hall _ (hnames.subset (List.mem_map_of_mem hentry))
      exact Toml.read?_fileText hbare (by decide) htable
        ((hkeys.append (.refl ["naming"])).nodup (by decide)) (hnames.nodup (by decide))

theorem ofToml?_of_gives {o : Options} {s : Selection} {text : String} {document : Fields}
    (hread : Toml.read? text = some (.object document)) (h : o.Gives s document) :
    ofToml? text = some (o.overlay s) := by
  rw [ofToml?, hread, Option.bind_eq_bind, Option.bind_some, ofJson_of_gives h]
  rfl

/-- The document that options are written as gives all keys. -/
theorem ofJson_toJson (o : Options) : Options.ofJson o.toJson = .ok o := by
  have hnaming : o.naming.Gives (fun _ => true)
      [("protocol_suffix", .string o.naming.protocolSuffix),
        ("preview_prefix", .string o.naming.previewPrefix),
        ("observable_protocol_prefix", .string o.naming.observableProtocolPrefix),
        ("observable_preview_prefix", .string o.naming.observablePreviewPrefix)] := by
    intro key
    cases key <;> rfl
  exact ofJson_of_gives (s := .all) ⟨rfl, rfl, ⟨some _, rfl, .some hnaming⟩, rfl, rfl⟩

/-- Partial options are laid over the defaults. What a document decodes to, or a config file stands
for, has the values of the options under the selected keys and the defaults under all others, and
there is such a file for every selection; with all keys selected these are the options themselves.
Unknown keys never change the result. -/
theorem selected_keys_overlay_defaults (o : Options) (s : Selection) :
    (∀ document, o.Gives s document → Options.ofJson (.object document) = .ok (o.overlay s) ∧
      ∀ text, Toml.read? text = some (.object document) → ofToml? text = some (o.overlay s)) ∧
    (o.Gives s (o.selectedFields s) ∧
      Toml.read? (o.selectedText s) = some (.object (o.selectedFields s))) ∧
    (o.overlay .all = o ∧ Options.ofJson o.toJson = .ok o ∧ ofToml? o.toToml = some o) ∧
    ∀ document, Options.ofJson (.object (withoutUnknown document)) =
      Options.ofJson (.object document) := by
  have hread := o.read?_selectedText s
  have hgives := o.gives_selectedFields s
  refine ⟨fun document h => ⟨ofJson_of_gives h, fun text htext => ofToml?_of_gives htext h⟩,
    ⟨hgives, hread⟩, ⟨o.overlay_all, o.ofJson_toJson, ?_⟩, ofJson_withoutUnknown⟩
  rw [← o.selectedText_all]
  exact ofToml?_of_gives (o.read?_selectedText .all) (o.gives_selectedFields .all)

/-- Options with one flag and one name of their own. -/
def mocked : Options :=
  { default with emitObservable := false, naming := { Naming.default with previewPrefix := "Mock" } }

/-- Just the two keys. -/
def mockedKeys : Selection where
  modelAttribute := false
  relationshipAttributes := false
  naming := some (· matches .previewPrefix)
  emitObservable := true
  indent := false

/-- A config file with the two keys, each followed by one that options do not have. -/
def mockedText : String :=
  "emit_observable = false\ntheme = \"dark\"\n\n[naming]\npreview_prefix = \"Mock\"\n" ++
    "casing = \"camel\"\n"

/-- What the config file is read as. -/
def mockedDocument : Fields :=
  [("emit_observable", .bool false), ("theme", .string "dark"),
    ("naming", .object [("preview_prefix", .string "Mock"), ("casing", .string "camel")])]

theorem read?_mockedText : Toml.read? mockedText = some (.object mockedDocument) := by
  let entries : List (String × Value) := [("emit_observable", .flag false), ("theme", .text "dark")]
  let table : List (String × Value) := [("preview_prefix", .text "Mock"), ("casing", .text "camel")]
  have htext : mockedText = fileText entries (some ("naming", table)) := by decide
  rw [htext]
  exact Toml.read?_fileText (by decide) (by decide) (by decide) (by decide) (by decide)

/-- It stands for the defaults but for the two keys. -/
theorem mockedText_overlays_defaults :
    mocked.Gives mockedKeys mockedDocument ∧
      Toml.read? mockedText = some (.object mockedDocument) ∧
      Options.ofJson (.object mockedDocument) = .ok mocked ∧ ofToml? mockedText = some mocked := by
  have hnaming : mocked.naming.Gives (· matches .previewPrefix)
      [("preview_prefix", .string "Mock"), ("casing", .string "camel")] := by
    intro key
    cases key <;> rfl
  have hgives : mocked.Gives mockedKeys mockedDocument :=
    ⟨rfl, rfl, ⟨some _, rfl, .some hnaming⟩, rfl, rfl⟩
  obtain ⟨hdocument, htext⟩ := (selected_keys_overlay_defaults mocked mockedKeys).1 _ hgives
  exact ⟨hgives, read?_mockedText, hdocument, htext mockedText read?_mockedText⟩

end Options

end ModelPreview
