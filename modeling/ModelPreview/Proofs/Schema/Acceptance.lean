import Mathlib.Data.List.Basic
import Mathlib.Data.List.Nodup
import ModelPreview.Schema.Validation

/-!
# What a schema accepts

A value is accepted where it has no violations. For each kind of slot this is a condition on the
value and its parts, free of the order in which violations are listed. The objects of a choice are
told apart by the word that one of their fields has to hold. At most one of them fits a document,
so that "exactly one" means "one of them".
-/

namespace ModelPreview.Schema

/-- A value without violations. -/
def Slot.Accepts (slot : Slot) (json : Json) : Prop :=
  Slot.violations json slot = []

/-- The field of the property is what the property asks for, or is missing and may be. -/
structure Property.Accepts (p : Property) (fields : Json.Fields) : Prop where
  present : p.required → ∃ held, fields.get? p.name = some held
  held : ∀ held, fields.get? p.name = some held → p.slot.Accepts held

/-- Each property accepts its field. -/
def ObjectForm.Accepts (form : ObjectForm) (fields : Json.Fields) : Prop :=
  form.properties.Forall (Property.Accepts · fields)

namespace Property.Accepts

variable {p : Property} {fields : Json.Fields}

theorem of_get? {held : Json} (hheld : fields.get? p.name = some held)
    (haccepts : p.slot.Accepts held) : p.Accepts fields where
  present _ := ⟨held, hheld⟩
  held held' hheld' := by
    obtain rfl : held = held' := Option.some.inj (hheld.symm.trans hheld')
    exact haccepts

/-- A field that is not required may be left out. -/
theorem of_get?_eq_none (hrequired : p.required = false) (hheld : fields.get? p.name = none) :
    p.Accepts fields where
  present h := absurd h (by simp [hrequired])
  held held' hheld' := absurd (hheld.symm.trans hheld') nofun

/-- What a required field holds. -/
theorem exists_held (h : p.Accepts fields) (hrequired : p.required) :
    ∃ held, fields.get? p.name = some held ∧ p.slot.Accepts held := by
  obtain ⟨held, hheld⟩ := h.present hrequired
  exact ⟨held, hheld, h.held held hheld⟩

end Property.Accepts

theorem fieldViolations_eq_nil_iff {fields : Json.Fields} {p : Property} :
    fieldViolations fields p = [] ↔
      ∀ held, fields.get? p.name = some held → p.slot.Accepts held := by
  rw [fieldViolations_eq]
  cases fields.get? p.name with
  | none => simp
  | some held => simp [Slot.Accepts]

theorem checkRequired_eq_nil_iff {form : ObjectForm} {fields : Json.Fields} :
    checkRequired form fields = [] ↔
      ∀ p ∈ form.properties, p.required → ∃ held, fields.get? p.name = some held := by
  simp only [checkRequired, ObjectForm.required, List.map_eq_nil_iff, List.filter_eq_nil_iff,
    List.forall_mem_map, List.mem_filter, and_imp, Option.isNone_iff_eq_none,
    ← Option.ne_none_iff_exists', ne_eq]

theorem ObjectForm.check_eq_nil_iff {form : ObjectForm} {fields : Json.Fields} :
    form.check fields (fieldViolations fields) = [] ↔ form.Accepts fields := by
  rw [check, List.append_eq_nil_iff, List.flatMap_eq_nil_iff, checkRequired_eq_nil_iff, Accepts,
    List.forall_iff_forall_mem]
  constructor
  · rintro ⟨hheld, hpresent⟩ p hp
    exact ⟨hpresent p hp, fieldViolations_eq_nil_iff.mp (hheld p hp)⟩
  · intro h
    exact ⟨fun p hp => fieldViolations_eq_nil_iff.mpr (h p hp).held,
      fun p hp => (h p hp).present⟩

namespace Slot

variable {json : Json}

theorem accepts_text_iff : text.Accepts json ↔ ∃ s, json = .string s := by
  cases json with
  | string s => exact iff_of_true rfl ⟨s, rfl⟩
  | _ => exact iff_of_false (List.cons_ne_nil _ _) nofun

theorem accepts_nullableText_iff :
    nullableText.Accepts json ↔ json = .null ∨ ∃ s, json = .string s := by
  cases json with
  | null => exact iff_of_true rfl (.inl rfl)
  | string s => exact iff_of_true rfl (.inr ⟨s, rfl⟩)
  | _ => exact iff_of_false (List.cons_ne_nil _ _) nofun

theorem accepts_flag_iff : flag.Accepts json ↔ ∃ b, json = .bool b := by
  cases json with
  | bool b => exact iff_of_true rfl ⟨b, rfl⟩
  | _ => exact iff_of_false (List.cons_ne_nil _ _) nofun

theorem checkWord_eq_nil_iff {words : List String} :
    checkWord words json = [] ↔ ∃ word ∈ words, json = .string word := by
  cases json with
  | string text => simp [checkWord]
  | _ => exact iff_of_false (List.cons_ne_nil _ _) nofun

theorem accepts_tag_iff {word : String} : (tag word).Accepts json ↔ json = .string word := by
  have hword : (tag word).Accepts json ↔ checkWord [word] json = [] := by
    cases json <;> exact Iff.rfl
  rw [hword, checkWord_eq_nil_iff]
  simp

theorem itemViolations_eq_nil_iff {items : List Json} {start : Nat} {slot : Slot} :
    itemViolations items start slot = [] ↔ ∀ item ∈ items, slot.Accepts item := by
  induction items generalizing start with
  | nil => exact iff_of_true rfl nofun
  | cons item rest ih =>
      show (Slot.violations item slot).map _ ++ itemViolations rest (start + 1) slot = [] ↔ _
      rw [List.append_eq_nil_iff, List.map_eq_nil_iff, ih, List.forall_mem_cons]
      exact Iff.rfl

theorem accepts_list_iff {item : Slot} {least : Nat} :
    (list item least).Accepts json ↔
      ∃ items, json = .array items ∧ least ≤ items.length ∧ ∀ held ∈ items, item.Accepts held := by
  cases json with
  | array items =>
      show itemViolations items 0 item ++ (if items.length < least then _ else _) = [] ↔ _
      simp [itemViolations_eq_nil_iff, and_comm]
  | _ => exact iff_of_false (List.cons_ne_nil _ _) nofun

theorem checkNullable_eq_nil_iff {violations : List Violation} :
    checkNullable json violations = [] ↔ violations = [] := by
  simp [checkNullable]

theorem accepts_nullable_iff {d : Definition} :
    (nullable d).Accepts json ↔ json = .null ∨ (one d).Accepts json := by
  cases json with
  | null => exact iff_of_true rfl (.inl rfl)
  | _ => exact checkNullable_eq_nil_iff.trans (or_iff_right nofun).symm

theorem accepts_words_iff {d : Definition} {words : List String} (hbody : d.body = .words words) :
    (one d).Accepts json ↔ ∃ word ∈ words, json = .string word := by
  have hword : (one d).Accepts json ↔ checkWord words json = [] := by
    cases json with
    | object fields =>
        show d.body.checkObject fields _ = [] ↔ _
        rw [hbody]
        exact Iff.rfl
    | _ =>
        show d.body.checkOther _ = [] ↔ _
        rw [hbody]
        exact Iff.rfl
  rw [hword, checkWord_eq_nil_iff]

theorem accepts_object_iff {d : Definition} {form : ObjectForm} (hbody : d.body = .object form) :
    (one d).Accepts json ↔ ∃ fields : Json.Fields, json = .object fields ∧ form.Accepts fields := by
  cases json with
  | object fields =>
      show d.body.checkObject fields (fieldViolations fields) = [] ↔ _
      rw [hbody]
      show form.check fields (fieldViolations fields) = [] ↔ _
      simp [ObjectForm.check_eq_nil_iff]
  | _ =>
      refine iff_of_false ?_ nofun
      show d.body.checkOther _ ≠ []
      rw [hbody]
      exact List.cons_ne_nil _ _

end Slot

/-- The word that the field `key` of an object of this form has to hold, if it has to hold one. -/
def ObjectForm.tagAt (key : String) (form : ObjectForm) : Option String :=
  form.properties.findSome? fun p =>
    match p.slot with
    | .tag word => if p.required ∧ p.name = key then some word else none
    | _ => none

/-- Each of the forms asks for a word in the field `key`, and no two for the same. -/
def ToldApartBy (key : String) (forms : List ObjectForm) : Prop :=
  (∀ form ∈ forms, (form.tagAt key).isSome) ∧ (forms.map (ObjectForm.tagAt key)).Nodup

instance (key : String) (forms : List ObjectForm) : Decidable (ToldApartBy key forms) :=
  inferInstanceAs (Decidable (_ ∧ _))

/-- The object holds the words that its form asks for. -/
def ObjectForm.Describes (form : ObjectForm) (fields : Json.Fields) : Prop :=
  ∀ key word, form.tagAt key = some word → fields.get? key = some (.string word)

theorem ObjectForm.exists_property_of_tagAt {form : ObjectForm} {key word : String}
    (h : form.tagAt key = some word) :
    ∃ p ∈ form.properties, p.slot = .tag word ∧ p.required ∧ p.name = key := by
  obtain ⟨p, hp, hword⟩ := List.exists_of_findSome?_eq_some h
  split at hword
  · next hslot =>
      split at hword
      · next hkey =>
          cases hword
          exact ⟨p, hp, hslot, hkey⟩
      · cases hword
  · cases hword

theorem ObjectForm.Accepts.describes {form : ObjectForm} {fields : Json.Fields}
    (h : form.Accepts fields) : form.Describes fields := by
  intro key word htag
  obtain ⟨p, hp, hslot, hrequired, rfl⟩ := exists_property_of_tagAt htag
  obtain ⟨held, hheld, haccepts⟩ := (List.forall_iff_forall_mem.mp h p hp).exists_held hrequired
  rw [hslot, Slot.accepts_tag_iff] at haccepts
  rw [hheld, haccepts]

namespace ToldApartBy

variable {key : String} {forms : List ObjectForm} {fields : Json.Fields} {form form' : ObjectForm}

/-- Only one of the forms describes an object, and it stands in the list once. -/
theorem index_unique (hforms : ToldApartBy key forms) {i j : Nat}
    (hi : forms[i]? = some form) (hdescribes : form.Describes fields)
    (hj : forms[j]? = some form') (hdescribes' : form'.Describes fields) : i = j := by
  obtain ⟨htagged, hnodup⟩ := hforms
  obtain ⟨word, hword⟩ := Option.isSome_iff_exists.mp (htagged form (List.mem_of_getElem? hi))
  obtain ⟨word', hword'⟩ := Option.isSome_iff_exists.mp (htagged form' (List.mem_of_getElem? hj))
  have hsame : word = word' := by
    have hheld := (hdescribes key word hword).symm.trans (hdescribes' key word' hword')
    simpa using hheld
  have hlt : i < (forms.map (ObjectForm.tagAt key)).length := by
    simpa using (List.getElem?_eq_some_iff.mp hi).1
  apply (List.getElem?_inj hlt hnodup).mp
  rw [List.getElem?_map, List.getElem?_map, hi, hj, Option.map_some, Option.map_some, hword,
    hword', hsame]

theorem eq_of_describes (hforms : ToldApartBy key forms) (hform : form ∈ forms)
    (hdescribes : form.Describes fields) (hform' : form' ∈ forms)
    (hdescribes' : form'.Describes fields) : form = form' := by
  obtain ⟨i, hi⟩ := List.mem_iff_getElem?.mp hform
  obtain ⟨j, hj⟩ := List.mem_iff_getElem?.mp hform'
  obtain rfl := hforms.index_unique hi hdescribes hj hdescribes'
  exact Option.some.inj (hi.symm.trans hj)

/-- If the forms ask for different words in a field, one of them fits exactly if some does. -/
theorem length_filter_check_eq_one_iff (hforms : ToldApartBy key forms) :
    (forms.filter fun form => (form.check fields (fieldViolations fields)).isEmpty).length = 1 ↔
      ∃ form ∈ forms, form.Accepts fields := by
  set fitting := forms.filter fun form => (form.check fields (fieldViolations fields)).isEmpty
    with hfitting
  have hmem : ∀ form, form ∈ fitting ↔ form ∈ forms ∧ form.Accepts fields := by
    intro form
    rw [hfitting, List.mem_filter, List.isEmpty_iff, ObjectForm.check_eq_nil_iff]
  have hnodup : fitting.Nodup := (hforms.2.of_map _).filter _
  constructor
  · intro hlength
    obtain ⟨form, hform⟩ := List.length_eq_one_iff.mp hlength
    exact ⟨form, (hmem form).mp (by simp [hform])⟩
  · rintro ⟨form, hform⟩
    have hfits : form ∈ fitting := (hmem form).mpr hform
    match fitting with
    | [] => simp at hfits
    | [_] => rfl
    | first :: second :: rest =>
        obtain ⟨hfirst, haccepts⟩ := (hmem first).mp (by simp)
        obtain ⟨hsecond, haccepts'⟩ := (hmem second).mp (by simp)
        have hequal : first = second :=
          hforms.eq_of_describes hfirst haccepts.describes hsecond haccepts'.describes
        simp [hequal] at hnodup

end ToldApartBy

theorem Slot.accepts_choice_iff {d : Definition} {forms : List ObjectForm}
    (hbody : d.body = .oneOf forms) {key : String} (hforms : ToldApartBy key forms) {json : Json} :
    (one d).Accepts json ↔
      ∃ fields : Json.Fields, json = .object fields ∧ ∃ form ∈ forms, form.Accepts fields := by
  cases json with
  | object fields =>
      show d.body.checkObject fields (fieldViolations fields) = [] ↔ _
      rw [hbody]
      show (if _ = 1 then [] else _) = [] ↔ _
      simp [hforms.length_filter_check_eq_one_iff]
  | _ =>
      refine iff_of_false ?_ nofun
      show d.body.checkOther _ ≠ []
      rw [hbody]
      exact List.cons_ne_nil _ _

theorem memberForms_toldApart : ToldApartBy "member" memberForms := by decide

theorem patternForms_toldApart : ToldApartBy "pattern" patternForms := by decide

theorem typeForms_toldApart : ToldApartBy "shape" typeForms := by decide

end ModelPreview.Schema
