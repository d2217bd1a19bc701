import ModelPreview.Input
import ModelPreview.Proofs.Induction
import ModelPreview.Proofs.Outcome
import ModelPreview.Proofs.Schema.Acceptance

/-!
# What is accepted decodes

A decoder is sound for a slot if it succeeds on whatever the slot accepts. Decoders of texts, flags
and words are, and those of nullable values, lists and fields are as soon as their parts are. Types
and patterns nest, so theirs is an induction on the document: what holds for the fields of an
object, and for the items of a list in one of them, holds for the object.
-/

namespace ModelPreview

open Schema Json

section Values

variable {α : Type} {decode : Json → Decoded α}

theorem Json.exists_ofWord {table : List (String × α)} {word : String}
    (hword : word ∈ table.map Prod.fst) : ∃ a, ofWord table word = .ok a := by
  have hfound : (table.lookup word).isSome := by
    obtain ⟨entry, hentry, rfl⟩ := List.mem_map.mp hword
    exact List.lookup_isSome_iff.mpr ⟨entry, hentry, beq_self_eq_true _⟩
  obtain ⟨a, ha⟩ := Option.isSome_iff_exists.mp hfound
  exact ⟨a, ofWord_of_lookup ha⟩

theorem Json.exists_decodeItems {items : List Json} (h : ∀ item ∈ items, ∃ a, decode item = .ok a) :
    ∃ as, decodeItems decode items = .ok as := by
  induction items with
  | nil => exact ⟨[], rfl⟩
  | cons item rest ih =>
      obtain ⟨a, ha⟩ := h item List.mem_cons_self
      obtain ⟨as, has⟩ := ih fun held hheld => h held (List.mem_cons_of_mem item hheld)
      exact ⟨a :: as, by rw [decodeItems, ha, has]; rfl⟩

namespace Schema.Slot

/-- The decoder succeeds on whatever the slot accepts. -/
def Decodes (slot : Slot) (decode : Json → Decoded α) : Prop :=
  ∀ json, slot.Accepts json → ∃ a, decode json = .ok a

theorem text_decodes : text.Decodes decodeText := by
  intro json h
  obtain ⟨s, rfl⟩ := accepts_text_iff.mp h
  exact ⟨s, rfl⟩

theorem nullableText_decodes : nullableText.Decodes (decodeNullable decodeText) := by
  intro json h
  obtain rfl | ⟨s, rfl⟩ := accepts_nullableText_iff.mp h
  · exact ⟨none, rfl⟩
  · exact ⟨some s, rfl⟩

theorem flag_decodes : flag.Decodes decodeFlag := by
  intro json h
  obtain ⟨b, rfl⟩ := accepts_flag_iff.mp h
  exact ⟨b, rfl⟩

theorem words_decodes {d : Definition} {table : List (String × α)}
    (hbody : d.body = .words (table.map Prod.fst)) (lenient : Bool) :
    (one d).Decodes (decodeWord lenient table) := by
  intro json h
  obtain ⟨word, hword, rfl⟩ := (accepts_words_iff hbody).mp h
  exact exists_ofWord hword

theorem Decodes.nullable {d : Definition} (h : (one d).Decodes decode) :
    (nullable d).Decodes (decodeNullable decode) := by
  intro json haccepts
  obtain rfl | haccepts := accepts_nullable_iff.mp haccepts
  · exact ⟨none, rfl⟩
  · obtain ⟨a, ha⟩ := h json haccepts
    cases json with
    | null => exact ⟨none, rfl⟩
    | _ => exact ⟨some a, by simp only [decodeNullable, ha, Except.map_ok]⟩

theorem Decodes.list {item : Slot} (h : item.Decodes decode) (least : Nat) :
    (list item least).Decodes (decodeList decode) := by
  intro json haccepts
  obtain ⟨items, rfl, -, hitems⟩ := accepts_list_iff.mp haccepts
  exact exists_decodeItems fun held hheld => h held (hitems held hheld)

end Schema.Slot

end Values

section Fields

variable {α : Type} {decode : Json → Decoded α} {fields : Fields}

namespace Schema.Property.Accepts

variable {p : Property}

/-- A field decodes if what it may hold does. -/
theorem exists_decode? (h : p.Accepts fields)
    (hdecodes : ∀ held, fields.get? p.name = some held → p.slot.Accepts held →
      ∃ a, decode held = .ok a) :
    ∃ a, fields.decode? p.name decode = .ok a := by
  cases hheld : fields.get? p.name with
  | none => exact ⟨none, by rw [Fields.decode?, hheld]⟩
  | some held =>
      obtain ⟨a, ha⟩ := hdecodes held hheld (h.held held hheld)
      exact ⟨some a, Fields.decode?_of_get? hheld ha⟩

/-- A required field decodes to a value. -/
theorem exists_decode?_some (h : p.Accepts fields) (hrequired : p.required)
    (hdecodes : ∀ held, fields.get? p.name = some held → p.slot.Accepts held →
      ∃ a, decode held = .ok a) :
    ∃ a, fields.decode? p.name decode = .ok (some a) := by
  obtain ⟨held, hheld, haccepts⟩ := h.exists_held hrequired
  obtain ⟨a, ha⟩ := hdecodes held hheld haccepts
  exact ⟨a, Fields.decode?_of_get? hheld ha⟩

/-- A description plays no part. -/
theorem of_described {description : String} (h : (p.described description).Accepts fields) :
    p.Accepts fields where
  present := h.present
  held := h.held

/-- A required text. -/
theorem exists_text {key : String} (h : (Property.needed key .text).Accepts fields) :
    ∃ text, fields.decode? key decodeText = .ok (some text) :=
  h.exists_decode?_some rfl fun held _ => Slot.text_decodes held

theorem exists_textOrNull? (h : p.Accepts fields) (hslot : p.slot = .nullableText) :
    ∃ text?, fields.textOrNull? p.name = .ok text? := by
  obtain ⟨text??, htext⟩ : ∃ a, fields.decode? p.name (decodeNullable decodeText) = .ok a :=
    h.exists_decode? fun held _ => hslot ▸ Slot.nullableText_decodes held
  exact ⟨text??.join, by rw [Fields.textOrNull?, htext]; rfl⟩

end Schema.Property.Accepts

theorem Json.decodeTag_eq_ok {key word : String}
    (h : (Property.needed key (.tag word)).Accepts fields) {table : List (String × α)} {a : α}
    (hword : table.lookup word = some a) (lenient : Bool) :
    decodeTag lenient table key fields = .ok a := by
  obtain ⟨held, hheld, haccepts⟩ := h.exists_held rfl
  obtain rfl := Slot.accepts_tag_iff.mp haccepts
  exact (decodeTag_of_get? hheld lenient table).trans (ofWord_of_lookup hword)

end Fields

namespace Schema.Slot

/-- A decoder of a choice that nests is sound if it is on each object that fits the choice, given
that it is for what the fields of the object hold. -/
theorem choice_decodes {α : Type} {d : Definition} {forms : List ObjectForm}
    (hbody : d.body = .oneOf forms) {tag : String} (hforms : ToldApartBy tag forms)
    {decode : Bool → Json → Decoded α}
    (hstep : ∀ fields : Fields,
      (∀ {key : String}, (Property.needed key (one d)).Accepts fields →
        ∃ a, fields.decode? key (decode true) = .ok (some a)) →
      (∀ {key : String}, (Property.needed key (listOf (one d))).Accepts fields →
        ∃ as, fields.decode? key (decodeList (decode true)) = .ok (some as)) →
      forms.Forall fun form => form.Accepts fields →
        ∀ lenient, ∃ a, decode lenient (.object fields) = .ok a)
    (lenient : Bool) : (one d).Decodes (decode lenient) := by
  have hall : ∀ json : Json,
      (∀ lenient, (one d).Accepts json → ∃ a, decode lenient json = .ok a) ∧
      ((listOf (one d)).Accepts json → ∃ as, decodeList (decode true) json = .ok as) := by
    intro json
    induction json with
    | array items ih =>
        refine ⟨fun lenient h => ?_, fun h => ?_⟩
        · obtain ⟨fields, ⟨⟩, -⟩ := (accepts_choice_iff hbody hforms).mp h
        · obtain ⟨items', ⟨⟩, -, hitems⟩ := accepts_list_iff.mp h
          exact exists_decodeItems fun item hitem => (ih item hitem).1 true (hitems item hitem)
    | object fields ih =>
        refine ⟨fun lenient h => ?_, fun h => ?_⟩
        · obtain ⟨fields', ⟨⟩, form, hform, hfits⟩ := (accepts_choice_iff hbody hforms).mp h
          have hone {key} (h : (Property.needed key (one d)).Accepts fields) :
              ∃ a, Fields.decode? fields key (decode true) = .ok (some a) :=
            h.exists_decode?_some rfl fun held hheld => (ih _ (Fields.mem_of_get? hheld)).1 true
          have hmany {key} (h : (Property.needed key (listOf (one d))).Accepts fields) :
              ∃ as, Fields.decode? fields key (decodeList (decode true)) = .ok (some as) :=
            h.exists_decode?_some rfl fun held hheld => (ih _ (Fields.mem_of_get? hheld)).2
          exact List.forall_iff_forall_mem.mp (hstep fields hone hmany) form hform hfits lenient
        · obtain ⟨items, ⟨⟩, -⟩ := accepts_list_iff.mp h
    | _ =>
        refine ⟨fun lenient h => ?_, fun h => ?_⟩
        · obtain ⟨fields, ⟨⟩, -⟩ := (accepts_choice_iff hbody hforms).mp h
        · obtain ⟨items, ⟨⟩, -⟩ := accepts_list_iff.mp h
  exact fun json => (hall json).1 lenient

theorem typeExpression_decodes (lenient : Bool) :
    (one .typeExpression).Decodes (TypeExpr.ofJson lenient) := by
  refine choice_decodes rfl typeForms_toldApart (fun fields hone hmany => ?_) lenient
  have htag {word shape lenient} (h : (Property.needed "shape" (.tag word)).Accepts fields)
      (hword : TypeExpr.Shape.table.lookup word = some shape) :=
    decodeTag_eq_ok h hword lenient
  refine ⟨?named, ?optional, ?implicitlyUnwrapped, ?array, ?dictionary, ?tuple, ?function, ?generic⟩
  case named =>
    rintro ⟨hname, hshape⟩ lenient
    obtain ⟨name, hname⟩ := hname.exists_text
    exact ⟨.named name, by simp [TypeExpr.ofJson, htag hshape rfl, hname, require]⟩
  case optional =>
    rintro ⟨hshape, hwrapped⟩ lenient
    obtain ⟨wrapped, hwrapped⟩ := hone hwrapped
    exact ⟨.optional wrapped, by simp [TypeExpr.ofJson, htag hshape rfl, hwrapped, require]⟩
  case implicitlyUnwrapped =>
    rintro ⟨hshape, hwrapped⟩ lenient
    obtain ⟨wrapped, hwrapped⟩ := hone hwrapped
    exact ⟨.implicitlyUnwrapped wrapped,
      by simp [TypeExpr.ofJson, htag hshape rfl, hwrapped, require]⟩
  case array =>
    rintro ⟨helement, hshape⟩ lenient
    obtain ⟨element, helement⟩ := hone helement
    exact ⟨.array element, by simp [TypeExpr.ofJson, htag hshape rfl, helement, require]⟩
  case dictionary =>
    rintro ⟨hkey, hshape, hvalue⟩ lenient
    obtain ⟨key, hkey⟩ := hone hkey
    obtain ⟨value, hvalue⟩ := hone hvalue
    exact ⟨.dictionary key value,
      by simp [TypeExpr.ofJson, htag hshape rfl, hkey, hvalue, require]⟩
  case tuple =>
    rintro ⟨helements, hshape⟩ lenient
    obtain ⟨elements, helements⟩ := hmany helements
    exact ⟨.tuple elements, by simp [TypeExpr.ofJson, htag hshape rfl, helements, require]⟩
  case function =>
    rintro ⟨hparameters, hresult, hshape⟩ lenient
    obtain ⟨parameters, hparameters⟩ := hmany hparameters
    obtain ⟨result, hresult⟩ := hone hresult
    exact ⟨.function parameters result,
      by simp [TypeExpr.ofJson, htag hshape rfl, hparameters, hresult, require]⟩
  case generic =>
    rintro ⟨harguments, hname, hshape⟩ lenient
    obtain ⟨arguments, harguments⟩ := hmany harguments
    obtain ⟨name, hname⟩ := hname.exists_text
    exact ⟨.generic name arguments,
      by simp [TypeExpr.ofJson, htag hshape rfl, harguments, hname, require]⟩

theorem pattern_decodes (lenient : Bool) : (one .pattern).Decodes (Pattern.ofJson lenient) := by
  refine choice_decodes rfl patternForms_toldApart (fun fields _ hmany => ?_) lenient
  have htag {word alternative lenient} (h : (Property.needed "pattern" (.tag word)).Accepts fields)
      (hword : Pattern.Alternative.table.lookup word = some alternative) :=
    decodeTag_eq_ok h hword lenient
  refine ⟨?identifier, ?wildcard, ?tuple⟩
  case identifier =>
    rintro ⟨hname, hpattern⟩ lenient
    obtain ⟨name, hname⟩ := hname.exists_text
    exact ⟨.identifier name, by simp [Pattern.ofJson, htag hpattern rfl, hname, require]⟩
  case wildcard =>
    intro hpattern lenient
    exact ⟨.wildcard, by simp [Pattern.ofJson, htag hpattern rfl, pure, Except.pure]⟩
  case tuple =>
    rintro ⟨helements, hpattern⟩ lenient
    obtain ⟨elements, helements⟩ := hmany helements
    exact ⟨.tuple elements, by simp [Pattern.ofJson, htag hpattern rfl, helements, require]⟩

theorem attribute_decodes : (one .attribute).Decodes Attribute.ofJson := by
  intro json h
  obtain ⟨fields, rfl, harguments, hname⟩ := (accepts_object_iff rfl).mp h
  obtain ⟨arguments, harguments⟩ : ∃ arguments, fields.textOrNull? "arguments" = .ok arguments :=
    harguments.exists_textOrNull? rfl
  obtain ⟨name, hname⟩ := hname.exists_text
  exact ⟨⟨name, arguments⟩, by simp [Attribute.ofJson, decodeFields, harguments, hname, require]⟩

theorem patternBinding_decodes (lenient : Bool) :
    (one .patternBinding).Decodes (Binding.ofJson lenient) := by
  intro json h
  obtain ⟨fields, rfl, hinitializer, hpattern, htype⟩ := (accepts_object_iff rfl).mp h
  obtain ⟨initializer, hinitializer⟩ :
      ∃ initializer, fields.textOrNull? "initializer" = .ok initializer :=
    hinitializer.exists_textOrNull? rfl
  obtain ⟨pattern, hpattern⟩ :
      ∃ pattern, fields.decode? "pattern" (Pattern.ofJson lenient) = .ok (some pattern) :=
    hpattern.exists_decode?_some rfl fun held _ => pattern_decodes lenient held
  obtain ⟨type, htype⟩ : ∃ type,
      fields.decode? "type_annotation" (decodeNullable (TypeExpr.ofJson lenient)) = .ok type :=
    htype.exists_decode? fun held _ => (typeExpression_decodes lenient).nullable held
  exact ⟨⟨pattern, type.join, initializer⟩,
    by simp [Binding.ofJson, decodeFields, hinitializer, hpattern, htype, require]⟩

theorem parameter_decodes (lenient : Bool) :
    (one .parameter).Decodes (Parameter.ofJson lenient) := by
  intro json h
  obtain ⟨fields, rfl, hdefault, hfirst, hleading, hsecond, hcomma, htype⟩ :=
    (accepts_object_iff rfl).mp h
  obtain ⟨defaultValue, hdefault⟩ : ∃ value, fields.textOrNull? "default_value" = .ok value :=
    hdefault.exists_textOrNull? rfl
  obtain ⟨firstName, hfirst⟩ :
      ∃ name, fields.decode? "first_name" decodeText = .ok (some name) :=
    hfirst.of_described.exists_text
  obtain ⟨leadingTrivia, hleading⟩ :
      ∃ trivia, fields.decode? "leading_trivia" decodeText = .ok trivia :=
    hleading.exists_decode? fun held _ => text_decodes held
  obtain ⟨secondName, hsecond⟩ : ∃ name, fields.textOrNull? "second_name" = .ok name :=
    hsecond.exists_textOrNull? rfl
  obtain ⟨trailingComma, hcomma⟩ :
      ∃ comma, fields.decode? "trailing_comma" decodeFlag = .ok comma :=
    hcomma.exists_decode? fun held _ => flag_decodes held
  obtain ⟨type, htype⟩ :
      ∃ type, fields.decode? "type" (TypeExpr.ofJson lenient) = .ok (some type) :=
    htype.exists_decode?_some rfl fun held _ => typeExpression_decodes lenient held
  exact ⟨⟨leadingTrivia.getD "", firstName, secondName, type, defaultValue,
      trailingComma.getD false⟩,
    by simp [Parameter.ofJson, decodeFields, hdefault, hfirst, hleading, hsecond, hcomma, htype,
      require]⟩

theorem exists_field {fields : Fields} (h : memberForms[0].Accepts fields) :
    ∃ f, Field.ofFields true fields = .ok f := by
  obtain ⟨hattributes, hkeyword, hbindings, -⟩ := h
  obtain ⟨attributes, hattributes⟩ :
      ∃ as, fields.decode? "attributes" (decodeList Attribute.ofJson) = .ok as :=
    hattributes.exists_decode? fun held _ => attribute_decodes.list 0 held
  obtain ⟨keyword, hkeyword⟩ : ∃ keyword,
      fields.decode? "binding" (decodeWord true BindingKeyword.table) = .ok (some keyword) :=
    hkeyword.exists_decode?_some rfl fun held _ => words_decodes rfl true held
  obtain ⟨bindings, hbindings⟩ :
      ∃ bs, fields.decode? "bindings" (decodeList (Binding.ofJson true)) = .ok (some bs) :=
    hbindings.exists_decode?_some rfl fun held _ => (patternBinding_decodes true).list 1 held
  exact ⟨⟨attributes.getD [], keyword, bindings⟩,
    by simp [Field.ofFields, hattributes, hkeyword, hbindings, require]⟩

theorem exists_initializer {fields : Fields} (h : memberForms[1].Accepts fields) :
    ∃ i, Initializer.ofFields true fields = .ok i := by
  obtain ⟨hbody, hclosing, heffects, -, hmodifiers, hparameters⟩ := h
  obtain ⟨body, hbody⟩ : ∃ body, fields.decode? "body" decodeText = .ok (some body) :=
    hbody.of_described.exists_text
  obtain ⟨closingTrivia, hclosing⟩ :
      ∃ trivia, fields.decode? "closing_trivia" decodeText = .ok trivia :=
    hclosing.exists_decode? fun held _ => text_decodes held
  obtain ⟨effects, heffects⟩ : ∃ effects, fields.textOrNull? "effects" = .ok effects :=
    heffects.exists_textOrNull? rfl
  obtain ⟨modifiers, hmodifiers⟩ :
      ∃ ms, fields.decode? "modifiers" (decodeList decodeText) = .ok ms :=
    hmodifiers.exists_decode? fun held _ => text_decodes.list 0 held
  obtain ⟨parameters, hparameters⟩ :
      ∃ ps, fields.decode? "parameters" (decodeList (Parameter.ofJson true)) = .ok ps :=
    hparameters.exists_decode? fun held _ => (parameter_decodes true).list 0 held
  exact ⟨⟨modifiers.getD [], parameters.getD [], closingTrivia.getD "", effects, body⟩,
    by simp [Initializer.ofFields, hbody, hclosing, heffects, hmodifiers, hparameters, require]⟩

theorem member_decodes : (one .member).Decodes Member.ofJson := by
  intro json h
  obtain ⟨fields, rfl, form, hform, hfits⟩ :=
    (accepts_choice_iff rfl memberForms_toldApart).mp h
  have htag {word alternative} (h : (Property.needed "member" (.tag word)).Accepts fields)
      (hword : Member.Alternative.table.lookup word = some alternative) :=
    decodeTag_eq_ok h hword false
  have hforms : memberForms.Forall fun form => form.Accepts fields →
      ∃ m, Member.ofJson (.object fields) = .ok m := by
    refine ⟨?field, ?initializer, ?other⟩
    case field =>
      intro h
      obtain ⟨f, hf⟩ := exists_field h
      obtain ⟨-, -, -, hmember⟩ := h
      exact ⟨.field f, by simp [Member.ofJson, decodeFields, htag hmember rfl, hf]⟩
    case initializer =>
      intro h
      obtain ⟨i, hi⟩ := exists_initializer h
      obtain ⟨-, -, -, hmember, -⟩ := h
      exact ⟨.initializer i, by simp [Member.ofJson, decodeFields, htag hmember rfl, hi]⟩
    case other =>
      rintro ⟨hkind, hmember, hsource⟩
      obtain ⟨kind, hkind⟩ : ∃ kind, fields.decode? "kind" decodeText = .ok (some kind) :=
        hkind.of_described.exists_text
      obtain ⟨source, hsource⟩ : ∃ source, fields.decode? "source" decodeText = .ok source :=
        hsource.exists_decode? fun held _ => text_decodes held
      exact ⟨.other kind (source.getD ""),
        by simp [Member.ofJson, decodeFields, htag hmember rfl, hkind, hsource, require]⟩
  exact List.forall_iff_forall_mem.mp hforms form hform hfits

theorem declaration_decodes : (one .declaration).Decodes Declaration.ofJson := by
  intro json h
  obtain ⟨fields, rfl, hattributes, hkind, hmembers, hname⟩ := (accepts_object_iff rfl).mp h
  obtain ⟨attributes, hattributes⟩ :
      ∃ as, fields.decode? "attributes" (decodeList Attribute.ofJson) = .ok as :=
    hattributes.exists_decode? fun held _ => attribute_decodes.list 0 held
  obtain ⟨kind, hkind⟩ :
      ∃ kind, fields.decode? "kind" (decodeWord false NominalKind.table) = .ok (some kind) :=
    hkind.exists_decode?_some rfl fun held _ => words_decodes rfl false held
  obtain ⟨members, hmembers⟩ :
      ∃ ms, fields.decode? "members" (decodeList Member.ofJson) = .ok ms :=
    hmembers.exists_decode? fun held _ => member_decodes.list 0 held
  obtain ⟨name, hname⟩ : ∃ name, fields.decode? "name" decodeText = .ok (some name) :=
    hname.of_described.exists_text
  exact ⟨⟨kind, name, attributes.getD [], members.getD []⟩,
    by simp [Declaration.ofJson, decodeFields, hattributes, hkind, hmembers, hname, require]⟩

end Schema.Slot

end ModelPreview
