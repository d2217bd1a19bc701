import ModelPreview.Proofs.Json.Pointer
import ModelPreview.Schema.Validation

/-!
# Where violations are

A violation of a value is about the value itself, or it is one of a field or an item, seen from the
value. By induction on the path it is always about a value that the document holds. Only fields that
a schema names and items are entered, so the tokens of a path are never empty.
-/

namespace ModelPreview.Schema

variable {found : Json} {v : Violation}

theorem path_of_mem_here {fault : Fault} (h : v ∈ [Violation.here fault]) : v.path = [] := by
  rw [List.mem_singleton.mp h]
  rfl

theorem path_of_mem_wrongType {expected : String} (h : v ∈ wrongType expected found) :
    v.path = [] :=
  path_of_mem_here h

theorem path_of_mem_checkWord {words : List String} (h : v ∈ checkWord words found) :
    v.path = [] := by
  unfold checkWord at h
  split at h
  · split at h
    · cases h
    · exact path_of_mem_here h
  · obtain rfl | h := List.mem_cons.mp h
    · rfl
    · exact path_of_mem_wrongType h

theorem path_of_mem_checkRequired {form : ObjectForm} {fields : Json.Fields}
    (h : v ∈ checkRequired form fields) : v.path = [] := by
  obtain ⟨name, -, rfl⟩ := List.mem_map.mp h
  rfl

theorem path_of_mem_checkNullable {violations : List Violation}
    (h : v ∈ checkNullable found violations) : v.path = [] := by
  unfold checkNullable at h
  split at h
  · cases h
  · exact path_of_mem_here h

theorem Body.path_of_mem_checkOther {b : Body} (h : v ∈ b.checkOther found) : v.path = [] := by
  cases b with
  | words known => exact path_of_mem_checkWord h
  | object form => exact path_of_mem_wrongType h
  | oneOf forms => exact path_of_mem_here h

theorem Slot.path_of_mem_checkScalar {slot : Slot} (h : v ∈ slot.checkScalar found) :
    v.path = [] := by
  -- The first group are the values that fit, the others are grouped by what is found wrong.
  unfold checkScalar at h
  split at h
  case h_1 | h_3 | h_4 | h_6 | h_10 => cases h
  case h_2 | h_7 | h_12 => exact path_of_mem_wrongType h
  case h_5 => exact path_of_mem_here h
  case h_8 => exact path_of_mem_checkWord h
  case h_9 => exact Body.path_of_mem_checkOther h
  case h_11 => exact path_of_mem_checkNullable h

theorem Body.mem_checkObject {b : Body} {fields : Json.Fields}
    {ofField : Property → List Violation} (h : v ∈ b.checkObject fields ofField) :
    v.path = [] ∨ ∃ form, b = .object form ∧ ∃ p ∈ form.properties, v ∈ ofField p := by
  unfold checkObject at h
  split at h
  · exact .inl (path_of_mem_checkWord h)
  · next form =>
      obtain h | h := List.mem_append.mp h
      · exact .inr ⟨form, rfl, List.mem_flatMap.mp h⟩
      · exact .inl (path_of_mem_checkRequired h)
  · split at h
    · cases h
    · exact .inl (path_of_mem_here h)

theorem Slot.mem_checkObject {slot : Slot} {fields : Json.Fields}
    {ofField : Property → List Violation} (h : v ∈ slot.checkObject fields ofField) :
    v.path = [] ∨ ∃ (d : Definition) (form : ObjectForm), d.body = .object form ∧
      ∃ p ∈ form.properties, v ∈ ofField p := by
  unfold checkObject at h
  split at h
  · next d => exact (Body.mem_checkObject h).imp_right fun ⟨form, hform⟩ => ⟨d, form, hform⟩
  · exact .inl (path_of_mem_checkNullable h)
  · exact .inl (path_of_mem_checkScalar h)

theorem Slot.mem_checkArray {slot : Slot} {items : List Json} {ofItems : Slot → List Violation}
    (h : v ∈ slot.checkArray items ofItems) : v.path = [] ∨ ∃ item, v ∈ ofItems item := by
  unfold checkArray at h
  split at h
  · next item least =>
      obtain h | h := List.mem_append.mp h
      · exact .inr ⟨item, h⟩
      · split at h
        · exact .inl (path_of_mem_here h)
        · cases h
  · exact .inl (path_of_mem_checkScalar h)

theorem mem_fieldViolations {fields : Json.Fields} {p : Property}
    (h : v ∈ fieldViolations fields p) :
    ∃ held, fields.get? p.name = some held ∧
      ∃ w ∈ Slot.violations held p.slot, v = w.under p.name := by
  rw [fieldViolations_eq] at h
  split at h
  · cases h
  · next held hheld =>
      obtain ⟨w, hw, rfl⟩ := List.mem_map.mp h
      exact ⟨held, hheld, w, hw, rfl⟩

theorem mem_itemViolations {items : List Json} {start : Nat} {slot : Slot}
    (h : v ∈ itemViolations items start slot) :
    ∃ n item, items[n]? = some item ∧
      ∃ w ∈ Slot.violations item slot, v = w.under (Pointer.index (start + n)) := by
  induction items generalizing start with
  | nil => cases h
  | cons item rest ih =>
      obtain h | h := List.mem_append.mp h
      · obtain ⟨w, hw, rfl⟩ := List.mem_map.mp h
        exact ⟨0, item, rfl, w, hw, rfl⟩
      · obtain ⟨n, held, hheld, w, hw, rfl⟩ := ih h
        exact ⟨n + 1, held, hheld, w, hw, by rw [Nat.add_right_comm, Nat.add_assoc]⟩

/-- Every field that a definition describes has a name. -/
theorem Definition.name_ne_empty {d : Definition} {form : ObjectForm} (h : d.body = .object form) :
    ∀ p ∈ form.properties, p.name ≠ "" := by
  cases d <;> cases h <;> decide

/-- A violation is about the value itself, or it is one of a field or an item of the value. -/
theorem Slot.mem_violations {json : Json} {slot : Slot} (h : v ∈ Slot.violations json slot) :
    v.path = [] ∨ ∃ token held part w, token ≠ "" ∧ json.child? token = some held ∧
      w ∈ Slot.violations held part ∧ v = w.under token := by
  cases json with
  | object fields =>
      refine (mem_checkObject h).imp_right ?_
      rintro ⟨d, form, hbody, p, hp, hv⟩
      obtain ⟨held, hheld, w, hw, rfl⟩ := mem_fieldViolations hv
      exact ⟨p.name, held, p.slot, w, Definition.name_ne_empty hbody p hp, hheld, hw, rfl⟩
  | array items =>
      refine (mem_checkArray h).imp_right ?_
      rintro ⟨part, hv⟩
      obtain ⟨n, held, hheld, w, hw, rfl⟩ := mem_itemViolations hv
      rw [Nat.zero_add]
      exact ⟨Pointer.index n, held, part, w, Pointer.index_ne_empty n,
        (Json.child?_array_index items n).trans hheld, hw, rfl⟩
  | null | bool value | number value | string text => exact .inl (path_of_mem_checkScalar h)

/-- The path of a violation leads to a value of the document, and no token of it is empty. -/
theorem Slot.path_of_mem_violations {json : Json} {slot : Slot}
    (h : v ∈ Slot.violations json slot) :
    (∃ held, json.at? v.path = some held) ∧ "" ∉ v.path := by
  obtain ⟨path, fault⟩ := v
  induction path generalizing json slot with
  | nil => exact ⟨⟨json, Json.at?_nil json⟩, List.not_mem_nil⟩
  | cons token rest ih =>
      obtain hnil | ⟨_, held, part, w, hne, hheld, hw, hv⟩ := mem_violations h
      · cases hnil
      · cases hv
        obtain ⟨⟨value, hvalue⟩, hrest⟩ := ih hw
        refine ⟨⟨value, ?_⟩, List.not_mem_cons_of_ne_of_not_mem hne.symm hrest⟩
        rw [Json.at?_cons, hheld]
        exact hvalue

end ModelPreview.Schema
