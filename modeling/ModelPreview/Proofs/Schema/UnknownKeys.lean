import Mathlib.Logic.Relation
import ModelPreview.Proofs.Schema.Standard

/-!
# Keys that are not named

An object of a document is described by one form: the only one of its definition, or the one whose
word it holds. Keys that this form does not name are free. Putting one of them into one object,
however deep it lies, is the step from which all additions are made, and it neither adds a violation
nor takes one away: under every name of the form the object holds what it held, or a value into
which the key was put.
-/

namespace ModelPreview

/-- Under the key the fields `after` hold the value, and under any other key what `before` hold. -/
def Json.Fields.Sets (key : String) (value : Json) (before after : Fields) : Prop :=
  ∀ other, after.get? other = if other = key then some value else before.get? other

theorem Json.Fields.sets_put (key : String) (value : Json) (fields : Fields) :
    fields.Sets key value (put key value fields) :=
  get?_put key value fields

namespace Schema

/-- A key is put into one of the objects that a value in a slot consists of, and the form that
describes this object does not name the key. -/
inductive AddsKey : Slot → Json → Json → Prop
  /-- The object is the value itself. -/
  | here {d : Definition} {form : ObjectForm} {before after : Json.Fields} {key : String}
      {value : Json} : form ∈ d.body.forms → form.Describes before →
    key ∉ form.properties.map Property.name → before.Sets key value after →
    AddsKey (.one d) (.object before) (.object after)
  /-- The object lies in a field that the form names. -/
  | field {d : Definition} {form : ObjectForm} {before after : Json.Fields} {p : Property}
      {held held' : Json} : form ∈ d.body.forms → form.Describes before → p ∈ form.properties →
    before.get? p.name = some held → AddsKey p.slot held held' → before.Sets p.name held' after →
    AddsKey (.one d) (.object before) (.object after)
  /-- The object lies in an item of a list. -/
  | item {slot : Slot} {least : Nat} {front back : List Json} {held held' : Json} :
    AddsKey slot held held' →
    AddsKey (.list slot least) (.array (front ++ held :: back)) (.array (front ++ held' :: back))
  | nullable {d : Definition} {json json' : Json} :
    AddsKey (.one d) json json' → AddsKey (.nullable d) json json'

/-- A key is put into the document, or into one of the documents of an array. -/
def Root.AddsKey (r : Root) (json json' : Json) : Prop :=
  Schema.AddsKey (.one r.definition) json json' ∨
    Schema.AddsKey (listOf (.one r.definition)) json json'

/-- Any number of keys are put in, one after another. -/
def Root.AddsKeys (r : Root) : Json → Json → Prop :=
  Relation.ReflTransGen r.AddsKey

/-- Under the name of the property both objects hold the same, or related values. -/
def Property.Agrees (R : Slot → Json → Json → Prop) (before after : Json.Fields) (p : Property) :
    Prop :=
  after.get? p.name = before.get? p.name ∨
    ∃ held held', before.get? p.name = some held ∧ after.get? p.name = some held' ∧
      R p.slot held held'

/-- An object is described by a form if it holds each word that the form asks for. -/
theorem ObjectForm.describes_of_forall {form : ObjectForm} {fields : Json.Fields}
    (h : form.properties.Forall fun p => ∀ word, p.slot = .tag word →
      fields.get? p.name = some (.string word)) : form.Describes fields := by
  intro key word htag
  obtain ⟨p, hp, hslot, -, rfl⟩ := exists_property_of_tagAt htag
  exact List.forall_iff_forall_mem.mp h p hp word hslot

/-- The objects agree on each property of the form. -/
def ObjectForm.Agrees (R : Slot → Json → Json → Prop) (before after : Json.Fields)
    (form : ObjectForm) : Prop :=
  form.properties.Forall (Property.Agrees R before after)

section Agreement

variable {R : Slot → Json → Json → Prop} {before after : Json.Fields} {form : ObjectForm}

theorem Definition.nodup_names {d : Definition} (hform : form ∈ d.body.forms) :
    (form.properties.map Property.name).Nodup := by
  have hall : ∀ form ∈ d.body.forms, (form.properties.map Property.name).Nodup := by
    cases d <;> decide
  exact hall form hform

theorem ObjectForm.agrees_of_sets {key : String} {value : Json}
    (hkey : key ∉ form.properties.map Property.name) (h : before.Sets key value after) :
    form.Agrees R before after := by
  refine List.forall_iff_forall_mem.mpr fun p hp => .inl ?_
  have hne : p.name ≠ key := by
    rintro rfl
    exact hkey (List.mem_map_of_mem hp)
  rw [h, if_neg hne]

/-- A named key holds a related value, and the names of a form are told apart. -/
theorem ObjectForm.agrees_of_sets_name {d : Definition} (hform : form ∈ d.body.forms)
    {p : Property} (hp : p ∈ form.properties) {held held' : Json}
    (hheld : before.get? p.name = some held) (h : before.Sets p.name held' after)
    (hrelated : R p.slot held held') : form.Agrees R before after := by
  refine List.forall_iff_forall_mem.mpr fun q hq => ?_
  by_cases hname : q.name = p.name
  · obtain rfl : q = p := List.inj_on_of_nodup_map (Definition.nodup_names hform) hq hp hname
    exact .inr ⟨held, held', hheld, by rw [h, if_pos rfl], hrelated⟩
  · exact .inl (by rw [h, if_neg hname])

/-- What agrees with an object that a form describes is described by the form too. -/
theorem ObjectForm.Agrees.describes (h : form.Agrees R before after)
    (htag : ∀ word held held', ¬ R (.tag word) held held') (hdescribes : form.Describes before) :
    form.Describes after := by
  intro key word hword
  obtain ⟨p, hp, hslot, -, rfl⟩ := exists_property_of_tagAt hword
  obtain hsame | ⟨held, held', -, -, hrelated⟩ := List.forall_iff_forall_mem.mp h p hp
  · rw [hsame, hdescribes p.name word hword]
  · rw [hslot] at hrelated
    exact absurd hrelated (htag word held held')

theorem Property.Agrees.accepts_iff {p : Property} (h : p.Agrees R before after)
    (hrelated : ∀ held held', R p.slot held held' → (p.slot.Accepts held' ↔ p.slot.Accepts held)) :
    p.Accepts after ↔ p.Accepts before := by
  obtain hsame | ⟨held, held', hbefore, hafter, hvalues⟩ := h
  · constructor
    · rintro ⟨hpresent, hheld⟩
      exact ⟨hsame ▸ hpresent, hsame ▸ hheld⟩
    · rintro ⟨hpresent, hheld⟩
      exact ⟨hsame ▸ hpresent, hsame ▸ hheld⟩
  · have hiff := hrelated held held' hvalues
    constructor
    · intro haccepts
      exact .of_get? hbefore (hiff.mp (haccepts.held held' hafter))
    · intro haccepts
      exact .of_get? hafter (hiff.mpr (haccepts.held held hbefore))

theorem ObjectForm.Agrees.accepts_iff (h : form.Agrees R before after)
    (hrelated : ∀ slot held held', R slot held held' → (slot.Accepts held' ↔ slot.Accepts held)) :
    form.Accepts after ↔ form.Accepts before := by
  unfold ObjectForm.Accepts
  rw [List.forall_iff_forall_mem, List.forall_iff_forall_mem]
  refine forall₂_congr fun p hp => ?_
  exact (List.forall_iff_forall_mem.mp h p hp).accepts_iff (hrelated p.slot)

end Agreement

namespace AddsKey

variable {slot : Slot} {json json' : Json}

theorem not_tag {word : String} : ¬ AddsKey (.tag word) json json' := nofun

/-- Induction over an addition: an object is met together with the one form that describes it before
and after, and both agree on the form up to smaller additions. -/
@[elab_as_elim]
theorem induction {motive : Slot → Json → Json → Prop}
    (object : ∀ (d : Definition), ∀ form ∈ d.body.forms, ∀ before after : Json.Fields,
      form.Describes before → form.Describes after →
      form.Agrees (fun slot held held' => AddsKey slot held held' ∧ motive slot held held')
        before after →
      motive (.one d) (.object before) (.object after))
    (item : ∀ (slot : Slot) (least : Nat) (front back : List Json) (held held' : Json),
      AddsKey slot held held' → motive slot held held' →
      motive (.list slot least) (.array (front ++ held :: back)) (.array (front ++ held' :: back)))
    (nullable : ∀ (d : Definition) (json json' : Json), AddsKey (.one d) json json' →
      motive (.one d) json json' → motive (.nullable d) json json')
    (h : AddsKey slot json json') : motive slot json json' := by
  have hobject {d : Definition} {form : ObjectForm} {before after : Json.Fields}
      (hform : form ∈ d.body.forms) (hdescribes : form.Describes before)
      (hagrees : form.Agrees (fun slot held held' => AddsKey slot held held' ∧
        motive slot held held') before after) : motive (.one d) (.object before) (.object after) :=
    object d form hform before after hdescribes
      (hagrees.describes (fun _ _ _ h => not_tag h.1) hdescribes) hagrees
  induction h with
  | here hform hdescribes hkey hsets =>
      exact hobject hform hdescribes (ObjectForm.agrees_of_sets hkey hsets)
  | field hform hdescribes hp hheld hadds hsets ih =>
      exact hobject hform hdescribes
        (ObjectForm.agrees_of_sets_name hform hp hheld hsets ⟨hadds, ih⟩)
  | item hadds ih => exact item _ _ _ _ _ _ hadds ih
  | nullable hadds ih => exact nullable _ _ _ hadds ih

/-- Both values of a definition are objects, described by one form on which they agree. -/
theorem exists_form {d : Definition} (h : AddsKey (.one d) json json') :
    ∃ form ∈ d.body.forms, ∃ before after : Json.Fields, json = .object before ∧
      json' = .object after ∧ form.Describes before ∧ form.Describes after ∧
      form.Agrees AddsKey before after := by
  cases h with
  | here hform hdescribes hkey hsets =>
      have hagrees := ObjectForm.agrees_of_sets (R := AddsKey) hkey hsets
      exact ⟨_, hform, _, _, rfl, rfl, hdescribes,
        hagrees.describes (fun _ _ _ => not_tag) hdescribes, hagrees⟩
  | field hform hdescribes hp hheld hadds hsets =>
      have hagrees := ObjectForm.agrees_of_sets_name (R := AddsKey) hform hp hheld hsets hadds
      exact ⟨_, hform, _, _, rfl, rfl, hdescribes,
        hagrees.describes (fun _ _ _ => not_tag) hdescribes, hagrees⟩

/-- An object with one more key is accepted exactly if it is accepted without. -/
theorem accepts_object_iff {d : Definition} {form : ObjectForm} (hform : form ∈ d.body.forms)
    {before after : Json.Fields} (hbefore : form.Describes before) (hafter : form.Describes after)
    (hsame : form.Accepts after ↔ form.Accepts before) :
    (Slot.one d).Accepts (.object after) ↔ (Slot.one d).Accepts (.object before) := by
  cases hbody : d.body with
  | words words =>
      rw [hbody] at hform
      cases hform
  | object own =>
      rw [hbody] at hform
      obtain rfl := List.mem_singleton.mp hform
      simpa [Slot.accepts_object_iff hbody] using hsame
  | oneOf forms =>
      rw [hbody] at hform
      obtain ⟨key, hforms⟩ := toldApart_of_body hbody
      -- Only the form that describes an object can accept it.
      have honly {fields : Json.Fields} (hdescribes : form.Describes fields) :
          (Slot.one d).Accepts (.object fields) ↔ form.Accepts fields := by
        rw [Slot.accepts_choice_iff hbody hforms]
        constructor
        · rintro ⟨_, ⟨⟩, form', hform', haccepts⟩
          rwa [hforms.eq_of_describes hform hdescribes hform' haccepts.describes]
        · intro haccepts
          exact ⟨fields, rfl, form, hform, haccepts⟩
      rw [honly hafter, honly hbefore, hsame]

/-- Putting in a key that is not named neither breaks nor repairs anything. -/
theorem accepts_iff (h : AddsKey slot json json') : slot.Accepts json' ↔ slot.Accepts json := by
  refine AddsKey.induction ?object ?item ?nullable h
  case object =>
    intro d form hform before after hbefore hafter hagrees
    exact accepts_object_iff hform hbefore hafter
      (hagrees.accepts_iff fun _ _ _ hrelated => hrelated.2)
  case item =>
    intro slot least front back held held' _ ih
    simp only [Slot.accepts_list_iff, Json.array.injEq, exists_eq_left', List.length_append,
      List.length_cons, List.forall_mem_append, List.forall_mem_cons, ih]
  case nullable =>
    intro d json json' hadds ih
    obtain ⟨form, -, before, after, rfl, rfl, -⟩ := hadds.exists_form
    simp [Slot.accepts_nullable_iff, ih]

end AddsKey

end Schema

end ModelPreview
