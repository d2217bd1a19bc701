import ModelPreview.Proofs.Reading
import ModelPreview.Proofs.Schema.UnknownKeys

/-!
# Reading past unknown keys

A decoder ignores unknown keys if putting one in never changes what it comes to, be it a value or an
error. A record is decoded from its named fields alone, so its decoder ignores them as soon as the
decoders of its fields do; the decoders of types and patterns, which nest, do by induction over the
addition. As the schema accepts a document with such keys exactly if it accepts the document
without, both are read alike.
-/

namespace ModelPreview

open Json Schema

variable {α : Type}

section Fields

variable {R : Slot → Json → Json → Prop} {before after : Fields} {decode : Json → Decoded α}

theorem Schema.Property.Agrees.decode?_eq {p : Property} (h : p.Agrees R before after)
    (hvalue : ∀ held held', R p.slot held held' → decode held' = decode held) :
    after.decode? p.name decode = before.decode? p.name decode := by
  unfold Fields.decode?
  obtain hsame | ⟨held, held', hbefore, hafter, hrelated⟩ := h
  · rw [hsame]
  · rw [hbefore, hafter]
    exact congrArg (some <$> ·) (hvalue held held' hrelated)

/-- The tag of an object names the alternative that the object is described by. -/
theorem Schema.ObjectForm.Describes.decodeTag_eq {form : ObjectForm} (h : form.Describes before)
    {key word : String} (htag : form.tagAt key = some word) {table : List (String × α)} {a : α}
    (hword : table.lookup word = some a) (lenient : Bool) :
    decodeTag lenient table key before = .ok a :=
  (decodeTag_of_get? (h key word htag) lenient table).trans (ofWord_of_lookup hword)

theorem Json.decodeItems_append_cons {front back : List Json} {held held' : Json}
    (h : decode held' = decode held) :
    decodeItems decode (front ++ held' :: back) = decodeItems decode (front ++ held :: back) := by
  induction front with
  | nil => simp only [List.nil_append, decodeItems, h]
  | cons item rest ih => simp only [List.cons_append, decodeItems, ih]

end Fields

namespace Schema

/-- What is decoded from a value in the slot stays the same when a key is put in. -/
def Slot.Ignores (slot : Slot) (decode : Json → Decoded α) : Prop :=
  ∀ json json' : Json, AddsKey slot json json' → decode json' = decode json

namespace Slot

variable {decode : Json → Decoded α}

/-- A text, a flag or a word is no object that a key could be put into. -/
theorem text_ignores : text.Ignores decode := fun _ _ => nofun

theorem nullableText_ignores : nullableText.Ignores decode := fun _ _ => nofun

theorem flag_ignores : flag.Ignores decode := fun _ _ => nofun

theorem words_ignores {d : Definition} {words : List String} (hbody : d.body = .words words) :
    (one d).Ignores decode := by
  intro json json' h
  obtain ⟨form, hform, -⟩ := h.exists_form
  rw [hbody] at hform
  cases hform

theorem Ignores.nullable {d : Definition} (h : (one d).Ignores decode) :
    (nullable d).Ignores (decodeNullable decode) := by
  intro json json' hadds
  cases hadds with
  | nullable hadds =>
      have hsame := h _ _ hadds
      obtain ⟨form, -, before, after, rfl, rfl, -⟩ := hadds.exists_form
      exact congrArg (some <$> ·) hsame

theorem Ignores.list {item : Slot} (h : item.Ignores decode) (least : Nat) :
    (list item least).Ignores (decodeList decode) := by
  intro json json' hadds
  cases hadds with
  | item hadds => exact decodeItems_append_cons (h _ _ hadds)

end Slot

namespace Property.Agrees

variable {before after : Fields} {p : Property} {decode : Json → Decoded α}

/-- A field decodes to the same if its decoder ignores unknown keys. -/
theorem decode?_eq_of_ignores (h : p.Agrees AddsKey before after)
    (hignores : p.slot.Ignores decode) :
    after.decode? p.name decode = before.decode? p.name decode :=
  h.decode?_eq hignores

theorem textOrNull?_eq (h : p.Agrees AddsKey before after) (hslot : p.slot = .nullableText) :
    after.textOrNull? p.name = before.textOrNull? p.name :=
  congrArg (Option.join <$> ·) (h.decode?_eq_of_ignores (hslot ▸ Slot.nullableText_ignores))

end Property.Agrees

namespace Slot

/-- A decoder of the definition comes to the same for both values, if they are values of the
definition or lists of them. -/
structure DecodedAlike (d : Definition) (decode : Bool → Json → Decoded α) (slot : Slot)
    (json json' : Json) : Prop where
  one : slot = .one d → ∀ lenient, decode lenient json' = decode lenient json
  list : slot = listOf (.one d) → decodeList (decode true) json' = decodeList (decode true) json

/-- A decoder of a choice that nests ignores unknown keys if it does for each form of the choice,
given that it does for what the fields of an object hold. -/
theorem choice_ignores {d : Definition} {decode : Bool → Json → Decoded α}
    (hstep : ∀ (R : Slot → Json → Json → Prop) (before after : Fields),
      (∀ {key : String}, (Property.needed key .text).Agrees R before after →
        after.decode? key decodeText = before.decode? key decodeText) →
      (∀ {key : String}, (Property.needed key (one d)).Agrees R before after →
        after.decode? key (decode true) = before.decode? key (decode true)) →
      (∀ {key : String}, (Property.needed key (listOf (one d))).Agrees R before after →
        after.decode? key (decodeList (decode true)) =
          before.decode? key (decodeList (decode true))) →
      d.body.forms.Forall fun form => form.Describes before → form.Describes after →
        form.Agrees R before after →
          ∀ lenient, decode lenient (.object after) = decode lenient (.object before))
    (lenient : Bool) : (one d).Ignores (decode lenient) := by
  have hall {slot : Slot} {json json' : Json} (h : AddsKey slot json json') :
      DecodedAlike d decode slot json json' := by
    refine AddsKey.induction ?object ?item ?nullable h
    case object =>
      intro d' form hform before after hbefore hafter hagrees
      refine ⟨fun hd => ?_, nofun⟩
      cases hd
      have hforms := hstep
        (fun slot held held' => AddsKey slot held held' ∧ DecodedAlike d decode slot held held')
        before after
        (fun h => h.decode?_eq fun _ _ hvalue => nomatch hvalue.1)
        (fun h => h.decode?_eq fun _ _ hvalue => hvalue.2.one rfl true)
        (fun h => h.decode?_eq fun _ _ hvalue => hvalue.2.list rfl)
      exact List.forall_iff_forall_mem.mp hforms form hform hbefore hafter hagrees
    case item =>
      intro slot least front back held held' _ ih
      refine ⟨nofun, fun hslot => ?_⟩
      cases hslot
      exact decodeItems_append_cons (ih.one rfl true)
    case nullable => exact fun _ _ _ _ _ => ⟨nofun, nofun⟩
  exact fun _ _ h => (hall h).one rfl lenient

theorem typeExpression_ignores (lenient : Bool) :
    (one .typeExpression).Ignores (TypeExpr.ofJson lenient) := by
  refine choice_ignores (fun R before after htext hone hmany => ?_) lenient
  have htag {form : ObjectForm} {fields : Fields} (h : form.Describes fields) {word shape}
      (hword : form.tagAt "shape" = some word)
      (hshape : TypeExpr.Shape.table.lookup word = some shape) (lenient : Bool) :=
    h.decodeTag_eq hword hshape lenient
  refine ⟨?named, ?optional, ?implicitlyUnwrapped, ?array, ?dictionary, ?tuple, ?function, ?generic⟩
  case named =>
    rintro hbefore hafter ⟨hname, -⟩ lenient
    simp [TypeExpr.ofJson, htag hbefore rfl rfl, htag hafter rfl rfl, htext hname]
  case optional | implicitlyUnwrapped =>
    rintro hbefore hafter ⟨-, hwrapped⟩ lenient
    simp [TypeExpr.ofJson, htag hbefore rfl rfl, htag hafter rfl rfl, hone hwrapped]
  case array =>
    rintro hbefore hafter ⟨helement, -⟩ lenient
    simp [TypeExpr.ofJson, htag hbefore rfl rfl, htag hafter rfl rfl, hone helement]
  case dictionary =>
    rintro hbefore hafter ⟨hkey, -, hvalue⟩ lenient
    simp [TypeExpr.ofJson, htag hbefore rfl rfl, htag hafter rfl rfl, hone hkey, hone hvalue]
  case tuple =>
    rintro hbefore hafter ⟨helements, -⟩ lenient
    simp [TypeExpr.ofJson, htag hbefore rfl rfl, htag hafter rfl rfl, hmany helements]
  case function =>
    rintro hbefore hafter ⟨hparameters, hresult, -⟩ lenient
    simp [TypeExpr.ofJson, htag hbefore rfl rfl, htag hafter rfl rfl, hmany hparameters,
      hone hresult]
  case generic =>
    rintro hbefore hafter ⟨harguments, hname, -⟩ lenient
    simp [TypeExpr.ofJson, htag hbefore rfl rfl, htag hafter rfl rfl, hmany harguments, htext hname]

theorem pattern_ignores (lenient : Bool) : (one .pattern).Ignores (Pattern.ofJson lenient) := by
  refine choice_ignores (fun R before after htext _ hmany => ?_) lenient
  have htag {form : ObjectForm} {fields : Fields} (h : form.Describes fields) {word alternative}
      (hword : form.tagAt "pattern" = some word)
      (halternative : Pattern.Alternative.table.lookup word = some alternative) (lenient : Bool) :=
    h.decodeTag_eq hword halternative lenient
  refine ⟨?identifier, ?wildcard, ?tuple⟩
  case identifier =>
    rintro hbefore hafter ⟨hname, -⟩ lenient
    simp [Pattern.ofJson, htag hbefore rfl rfl, htag hafter rfl rfl, htext hname]
  case wildcard =>
    intro hbefore hafter _ lenient
    simp [Pattern.ofJson, htag hbefore rfl rfl, htag hafter rfl rfl]
  case tuple =>
    rintro hbefore hafter ⟨helements, -⟩ lenient
    simp [Pattern.ofJson, htag hbefore rfl rfl, htag hafter rfl rfl, hmany helements]

/-- A definition that is one form is decoded from an object as the form's fields are. -/
theorem record_ignores {d : Definition} {form : ObjectForm} (hbody : d.body = .object form)
    {decode : Json → Decoded α}
    (h : ∀ before after : Fields, form.Agrees AddsKey before after →
      decode (.object after) = decode (.object before)) : (one d).Ignores decode := by
  intro json json' hadds
  obtain ⟨form', hform, before, after, rfl, rfl, -, -, hagrees⟩ := hadds.exists_form
  rw [hbody] at hform
  obtain rfl := List.mem_singleton.mp hform
  exact h before after hagrees

theorem attribute_ignores : (one .attribute).Ignores Attribute.ofJson := by
  refine record_ignores rfl ?_
  rintro before after ⟨harguments, hname⟩
  have harguments : after.textOrNull? "arguments" = before.textOrNull? "arguments" :=
    harguments.textOrNull?_eq rfl
  have hname : after.decode? "name" decodeText = before.decode? "name" decodeText :=
    hname.decode?_eq_of_ignores text_ignores
  simp [Attribute.ofJson, decodeFields, harguments, hname]

theorem patternBinding_ignores (lenient : Bool) :
    (one .patternBinding).Ignores (Binding.ofJson lenient) := by
  refine record_ignores rfl ?_
  rintro before after ⟨hinitializer, hpattern, htype⟩
  have hinitializer : after.textOrNull? "initializer" = before.textOrNull? "initializer" :=
    hinitializer.textOrNull?_eq rfl
  have hpattern : after.decode? "pattern" (Pattern.ofJson lenient) =
      before.decode? "pattern" (Pattern.ofJson lenient) :=
    hpattern.decode?_eq_of_ignores (pattern_ignores lenient)
  have htype : after.decode? "type_annotation" (decodeNullable (TypeExpr.ofJson lenient)) =
      before.decode? "type_annotation" (decodeNullable (TypeExpr.ofJson lenient)) :=
    htype.decode?_eq_of_ignores (typeExpression_ignores lenient).nullable
  simp [Binding.ofJson, decodeFields, hinitializer, hpattern, htype]

theorem parameter_ignores (lenient : Bool) :
    (one .parameter).Ignores (Parameter.ofJson lenient) := by
  refine record_ignores rfl ?_
  rintro before after ⟨hdefault, hfirst, hleading, hsecond, hcomma, htype⟩
  have hdefault : after.textOrNull? "default_value" = before.textOrNull? "default_value" :=
    hdefault.textOrNull?_eq rfl
  have hfirst : after.decode? "first_name" decodeText = before.decode? "first_name" decodeText :=
    hfirst.decode?_eq_of_ignores text_ignores
  have hleading : after.decode? "leading_trivia" decodeText =
      before.decode? "leading_trivia" decodeText :=
    hleading.decode?_eq_of_ignores text_ignores
  have hsecond : after.textOrNull? "second_name" = before.textOrNull? "second_name" :=
    hsecond.textOrNull?_eq rfl
  have hcomma : after.decode? "trailing_comma" decodeFlag =
      before.decode? "trailing_comma" decodeFlag :=
    hcomma.decode?_eq_of_ignores flag_ignores
  have htype : after.decode? "type" (TypeExpr.ofJson lenient) =
      before.decode? "type" (TypeExpr.ofJson lenient) :=
    htype.decode?_eq_of_ignores (typeExpression_ignores lenient)
  simp [Parameter.ofJson, decodeFields, hdefault, hfirst, hleading, hsecond, hcomma, htype]

theorem ofFields_field_eq {before after : Fields} (h : memberForms[0].Agrees AddsKey before after) :
    Field.ofFields true after = Field.ofFields true before := by
  obtain ⟨hattributes, hkeyword, hbindings, -⟩ := h
  have hattributes : after.decode? "attributes" (decodeList Attribute.ofJson) =
      before.decode? "attributes" (decodeList Attribute.ofJson) :=
    hattributes.decode?_eq_of_ignores (attribute_ignores.list 0)
  have hkeyword : after.decode? "binding" (decodeWord true BindingKeyword.table) =
      before.decode? "binding" (decodeWord true BindingKeyword.table) :=
    hkeyword.decode?_eq_of_ignores (words_ignores rfl)
  have hbindings : after.decode? "bindings" (decodeList (Binding.ofJson true)) =
      before.decode? "bindings" (decodeList (Binding.ofJson true)) :=
    hbindings.decode?_eq_of_ignores ((patternBinding_ignores true).list 1)
  simp [Field.ofFields, hattributes, hkeyword, hbindings]

theorem ofFields_initializer_eq {before after : Fields}
    (h : memberForms[1].Agrees AddsKey before after) :
    Initializer.ofFields true after = Initializer.ofFields true before := by
  obtain ⟨hbody, hclosing, heffects, -, hmodifiers, hparameters⟩ := h
  have hbody : after.decode? "body" decodeText = before.decode? "body" decodeText :=
    hbody.decode?_eq_of_ignores text_ignores
  have hclosing : after.decode? "closing_trivia" decodeText =
      before.decode? "closing_trivia" decodeText :=
    hclosing.decode?_eq_of_ignores text_ignores
  have heffects : after.textOrNull? "effects" = before.textOrNull? "effects" :=
    heffects.textOrNull?_eq rfl
  have hmodifiers : after.decode? "modifiers" (decodeList decodeText) =
      before.decode? "modifiers" (decodeList decodeText) :=
    hmodifiers.decode?_eq_of_ignores (text_ignores.list 0)
  have hparameters : after.decode? "parameters" (decodeList (Parameter.ofJson true)) =
      before.decode? "parameters" (decodeList (Parameter.ofJson true)) :=
    hparameters.decode?_eq_of_ignores ((parameter_ignores true).list 0)
  simp [Initializer.ofFields, hbody, hclosing, heffects, hmodifiers, hparameters]

theorem member_ignores : (one .member).Ignores Member.ofJson := by
  intro json json' hadds
  obtain ⟨form, hform, before, after, rfl, rfl, hbefore, hafter, hagrees⟩ := hadds.exists_form
  have htag {form : ObjectForm} {fields : Fields} (h : form.Describes fields) {word alternative}
      (hword : form.tagAt "member" = some word)
      (halternative : Member.Alternative.table.lookup word = some alternative) :=
    h.decodeTag_eq hword halternative false
  have hforms : memberForms.Forall fun form => form.Describes before → form.Describes after →
      form.Agrees AddsKey before after →
        Member.ofJson (.object after) = Member.ofJson (.object before) := by
    refine ⟨?field, ?initializer, ?other⟩
    case field =>
      intro hbefore hafter hagrees
      simp [Member.ofJson, decodeFields, htag hbefore rfl rfl, htag hafter rfl rfl,
        ofFields_field_eq hagrees]
    case initializer =>
      intro hbefore hafter hagrees
      simp [Member.ofJson, decodeFields, htag hbefore rfl rfl, htag hafter rfl rfl,
        ofFields_initializer_eq hagrees]
    case other =>
      rintro hbefore hafter ⟨hkind, -, hsource⟩
      have hkind : after.decode? "kind" decodeText = before.decode? "kind" decodeText :=
        hkind.decode?_eq_of_ignores text_ignores
      have hsource : after.decode? "source" decodeText = before.decode? "source" decodeText :=
        hsource.decode?_eq_of_ignores text_ignores
      simp [Member.ofJson, decodeFields, htag hbefore rfl rfl, htag hafter rfl rfl, hkind, hsource]
  exact List.forall_iff_forall_mem.mp hforms form hform hbefore hafter hagrees

theorem declaration_ignores : (one .declaration).Ignores Declaration.ofJson := by
  refine record_ignores rfl ?_
  rintro before after ⟨hattributes, hkind, hmembers, hname⟩
  have hattributes : after.decode? "attributes" (decodeList Attribute.ofJson) =
      before.decode? "attributes" (decodeList Attribute.ofJson) :=
    hattributes.decode?_eq_of_ignores (attribute_ignores.list 0)
  have hkind : after.decode? "kind" (decodeWord false NominalKind.table) =
      before.decode? "kind" (decodeWord false NominalKind.table) :=
    hkind.decode?_eq_of_ignores (words_ignores rfl)
  have hmembers : after.decode? "members" (decodeList Member.ofJson) =
      before.decode? "members" (decodeList Member.ofJson) :=
    hmembers.decode?_eq_of_ignores (member_ignores.list 0)
  have hname : after.decode? "name" decodeText = before.decode? "name" decodeText :=
    hname.decode?_eq_of_ignores text_ignores
  simp [Declaration.ofJson, decodeFields, hattributes, hkind, hmembers, hname]

end Slot

end Schema

namespace DocumentKind

variable {kind : DocumentKind α}

/-- A document is read as what it decodes to, if nothing is wrong with it. -/
theorem result_parse_eq_ok_iff {document : Json} {a : α} :
    (kind.parse document).result = .ok a ↔
      (Slot.one kind.root.definition).Accepts document ∧ kind.ofJson document = .ok a := by
  by_cases h : (Slot.one kind.root.definition).Accepts document
  · rw [parse_of_violations_eq_nil h]
    cases kind.ofJson document <;> simp [Except.mapError, h]
  · simp [result_parse_of_violations h, h]

theorem result_parseAll_array_eq_ok_iff {documents : List Json} {as : List α} :
    (kind.parseAll (.array documents)).result = .ok as ↔
      (listOf (.one kind.root.definition)).Accepts (.array documents) ∧
        decodeList kind.ofJson (.array documents) = .ok as := by
  have haccepts : (listOf (.one kind.root.definition)).Accepts (.array documents) ↔
      ∀ document ∈ documents, kind.root.violations document = [] := by
    simp only [listOf, Slot.accepts_list_iff, Json.array.injEq, exists_eq_left', Nat.zero_le,
      true_and]
    exact Iff.rfl
  rw [haccepts]
  by_cases h : ∀ document ∈ documents, kind.root.violations document = []
  · rw [parseAll_of_violations_eq_nil h, and_iff_right h, decodeList]
    cases Json.decodeItems kind.ofJson documents <;> simp [Except.mapError]
  · simp [result_parseAll_of_violations h, h]

/-- A document and the same document with one more key are read alike. -/
theorem result_parseAll_addsKey (kind : DocumentKind α) {json json' : Json}
    (hignores : (Slot.one kind.root.definition).Ignores kind.ofJson)
    (h : kind.root.AddsKey json json') (as : List α) :
    (kind.parseAll json').result = .ok as ↔ (kind.parseAll json).result = .ok as := by
  obtain h | h := h
  · obtain ⟨form, -, before, after, rfl, rfl, -⟩ := h.exists_form
    have hparse : ∀ a, (kind.parse (.object after)).result = .ok a ↔
        (kind.parse (.object before)).result = .ok a := by
      intro a
      rw [result_parse_eq_ok_iff, result_parse_eq_ok_iff, h.accepts_iff, hignores _ _ h]
    have hobject (fields : Fields) : ∀ items, Json.object fields ≠ .array items := fun _ => nofun
    rw [parseAll_of_not_array (hobject after), parseAll_of_not_array (hobject before),
      Traced.result_map, Traced.result_map, Except.map_eq_ok_iff, Except.map_eq_ok_iff]
    exact exists_congr fun a => and_congr_left fun _ => hparse a
  · have haccepts := h.accepts_iff
    have hdecodes := hignores.list 0 _ _ h
    cases h with
    | item =>
        rw [result_parseAll_array_eq_ok_iff, result_parseAll_array_eq_ok_iff, haccepts, hdecodes]

theorem result_parseAll_addsKeys (kind : DocumentKind α) {json json' : Json}
    (hignores : (Slot.one kind.root.definition).Ignores kind.ofJson)
    (h : kind.root.AddsKeys json json') (as : List α) :
    (kind.parseAll json').result = .ok as ↔ (kind.parseAll json).result = .ok as := by
  induction h with
  | refl => exact Iff.rfl
  | tail _ hlast ih => exact (kind.result_parseAll_addsKey hignores hlast as).trans ih

/-- Keys that are not named never change which declarations are read, nor whether any are. -/
theorem declarations_read_past_unknown_keys {json json' : Json}
    (h : Root.declaration.AddsKeys json json') (ds : List Declaration) :
    (declaration.parseAll json').result = .ok ds ↔ (declaration.parseAll json).result = .ok ds :=
  declaration.result_parseAll_addsKeys Slot.declaration_ignores h ds

end DocumentKind

namespace Padding

/-- The pattern of a stored property without a name, the one member of a model. -/
def pattern : Fields :=
  [("pattern", .string "wildcard")]

def member (pattern : Fields) : Fields :=
  [("binding", .string "var"), ("bindings", .array [.object [("pattern", .object pattern)]]),
    ("member", .string "field")]

def document (member : Fields) : Json :=
  .object [("kind", .string "class"), ("members", .array [.object member]),
    ("name", .string "Padding")]

theorem addsKey_pattern {pattern pattern' : Fields}
    (h : AddsKey (.one .pattern) (.object pattern) (.object pattern')) :
    AddsKey (.one .member) (.object (member pattern)) (.object (member pattern')) := by
  have hbinding : AddsKey (.one .patternBinding) (.object [("pattern", .object pattern)])
      (.object [("pattern", .object pattern')]) :=
    .field (.head _) (ObjectForm.describes_of_forall ⟨nofun, nofun, nofun⟩) (.tail _ (.head _)) rfl
      h (Fields.sets_put "pattern" _ _)
  have hitem : AddsKey (.list (.one .patternBinding) 1)
      (.array [.object [("pattern", .object pattern)]])
      (.array [.object [("pattern", .object pattern')]]) :=
    @AddsKey.item _ _ [] [] _ _ hbinding
  have hdescribes : ObjectForm.Describes memberForms[0] (member pattern) :=
    ObjectForm.describes_of_forall ⟨nofun, nofun, nofun, by rintro _ ⟨⟩; rfl⟩
  exact .field (.head _) hdescribes (.tail _ (.tail _ (.head _))) rfl hitem
    (Fields.sets_put "bindings" _ _)

theorem addsKey_member {member member' : Fields}
    (h : AddsKey (.one .member) (.object member) (.object member')) :
    AddsKey (.one .declaration) (document member) (document member') := by
  have hitem : AddsKey (listOf (.one .member)) (.array [.object member])
      (.array [.object member']) :=
    @AddsKey.item _ _ [] [] _ _ h
  exact .field (.head _) (ObjectForm.describes_of_forall ⟨nofun, nofun, nofun, nofun⟩)
    (.tail _ (.tail _ (.head _))) rfl hitem (Fields.sets_put "members" _ _)

/-- A wildcard has no elements. -/
def oddPattern : Fields :=
  .put "elements" .null pattern

/-- A stored property has no body, and text would be asked for under this key elsewhere. -/
def oddMember : Fields :=
  .put "body" (.bool true) (member oddPattern)

theorem document_read_past_unknown_keys :
    Root.declaration.AddsKeys (document (member pattern)) (document oddMember) ∧
      (DocumentKind.declaration.parseAll (document oddMember)).result =
        .ok [{ kind := .class, name := "Padding", attributes := [],
               members := [.field ⟨[], .var, [⟨.wildcard, none, none⟩]⟩] }] := by
  have helements : AddsKey (.one .pattern) (.object pattern) (.object oddPattern) :=
    .here (.tail _ (.head _)) (ObjectForm.describes_of_forall (by rintro _ ⟨⟩; rfl)) (by decide)
      (Fields.sets_put "elements" .null pattern)
  have hbody : AddsKey (.one .member) (.object (member oddPattern)) (.object oddMember) :=
    .here (.head _) (ObjectForm.describes_of_forall ⟨nofun, nofun, nofun, by rintro _ ⟨⟩; rfl⟩)
      (by decide) (Fields.sets_put "body" (.bool true) (member oddPattern))
  have hadds : Root.declaration.AddsKeys (document (member pattern)) (document oddMember) :=
    (Relation.ReflTransGen.single (.inl (addsKey_member (addsKey_pattern helements)))).tail
      (.inl (addsKey_member hbody))
  exact ⟨hadds, (DocumentKind.declarations_read_past_unknown_keys hadds _).mpr rfl⟩

end Padding

end ModelPreview
