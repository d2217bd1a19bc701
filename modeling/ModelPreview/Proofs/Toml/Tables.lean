import ModelPreview.Toml.Table

/-!
# Assignments to free keys

Statements that assign to different keys make a table with just these keys, in the order of the
assignments, and a header in front of them puts the table under its key.
-/

namespace ModelPreview.Toml

/-- The assignments of fields to their keys. -/
def assignments (fields : List (String × Json)) : List Statement :=
  fields.map fun field => .assign [] field.1 field.2

/-- A table that holds the values of fields. -/
def valueEntries (fields : List (String × Json)) : Entries :=
  fields.map fun field => (field.1, .value field.2)

namespace Entries

/-- No entry has the key. -/
def IsFree (key : String) (entries : Entries) : Prop :=
  key ∉ entries.map Prod.fst

variable {key : String} {entries : Entries}

theorem IsFree.lookup_append (h : IsFree key entries) (rest : Entries) :
    List.lookup key (entries ++ rest) = List.lookup key rest := by
  have hnone : List.lookup key entries = none := by
    refine List.lookup_eq_none_iff.mpr fun entry hentry => ?_
    have hne : key ≠ entry.1 := fun heq => h (heq ▸ List.mem_map_of_mem hentry)
    simpa using hne
  rw [List.lookup_append, hnone, Option.none_or]

theorem IsFree.set_append (h : IsFree key entries) (node : Node) (rest : Entries) :
    set key node (entries ++ rest) = entries ++ set key node rest := by
  induction entries with
  | nil => rfl
  | cons entry entries ih =>
      obtain ⟨hne, hfree⟩ : key ≠ entry.1 ∧ IsFree key entries := by simpa [IsFree] using h
      rw [List.cons_append, set, if_neg (Ne.symm hne), ih hfree, List.cons_append]

/-- An assignment to a free key puts the key at the end. -/
theorem IsFree.assign (h : IsFree key entries) (json : Json) :
    Entries.assign [] key json rootOrigin entries = some (entries ++ [(key, .value json)]) := by
  have hlookup := h.lookup_append []
  have hset := h.set_append (.value json) []
  rw [List.append_nil] at hlookup hset
  simp [Entries.assign, change, rootOrigin, hlookup, hset, set]

/-- A path leads to a table inside of others, where `place` says what the others look like around
it. -/
def Leads (path : List String) (place : Entries → Entries) : Prop :=
  ∀ (f : Origin → Entries → Option Entries) (table : Entries),
    change false f path rootOrigin (place table) = (f rootOrigin table).map place

theorem leads_nil : Leads [] id := by
  intro f table
  simp [change]

/-- The header of a table leads to it. -/
theorem IsFree.leads (h : IsFree key entries) :
    Leads [key] fun table => entries ++ [(key, .table false false table)] := by
  intro f table
  have hset (node : Node) : set key node [(key, .table false false table)] = [(key, node)] :=
    if_pos rfl
  simp only [change, h.lookup_append, h.set_append, List.lookup_cons, BEq.rfl, hset]
  exact Option.map_eq_bind.symm

/-- A header with a free key starts a table. -/
theorem IsFree.define (h : IsFree key entries) :
    Entries.define key entries = some (entries ++ [(key, .table false false [])]) := by
  have hlookup := h.lookup_append []
  have hset := h.set_append (.table false false []) []
  rw [List.append_nil] at hlookup hset
  simp [Entries.define, hlookup, hset, set]

end Entries

open Entries

/-- Assignments to keys that are free and all different put them all at the end. -/
theorem run_assignments {current : List String} {place : Entries → Entries}
    (hleads : Leads current place) (table : Entries) {fields : List (String × Json)}
    (hkeys : (table.map Prod.fst ++ fields.map Prod.fst).Nodup) (more : List Statement) :
    run current (place table) (assignments fields ++ more) =
      run current (place (table ++ valueEntries fields)) more := by
  induction fields generalizing table with
  | nil => simp [assignments, valueEntries]
  | cons field fields ih =>
      obtain ⟨key, json⟩ := field
      have hfree : IsFree key table := by
        intro hmem
        exact (List.nodup_append.mp hkeys).2.2 key hmem key List.mem_cons_self rfl
      have hothers : ((table ++ [(key, Node.value json)]).map Prod.fst ++
          fields.map Prod.fst).Nodup := by
        simpa using hkeys
      have hrest := ih _ hothers
      rw [assignments, List.map_cons, List.cons_append, run, hleads, hfree.assign]
      rw [List.append_assoc] at hrest
      exact hrest

theorem fieldsOf_append (front back : Entries) :
    fieldsOf (front ++ back) = fieldsOf front ++ fieldsOf back := by
  induction front with
  | nil => rfl
  | cons entry front ih =>
      obtain ⟨key, node⟩ := entry
      rw [List.cons_append, fieldsOf, fieldsOf, ih, List.cons_append]

theorem fieldsOf_valueEntries (fields : List (String × Json)) :
    fieldsOf (valueEntries fields) = fields := by
  induction fields with
  | nil => rfl
  | cons field fields ih =>
      rw [valueEntries, List.map_cons, fieldsOf, Node.toJson, ← valueEntries, ih]

theorem map_fst_valueEntries (fields : List (String × Json)) :
    (valueEntries fields).map Prod.fst = fields.map Prod.fst := by
  simp [valueEntries]

/-- Assignments to different keys make the object with just these fields. -/
theorem objectOf?_assignments {fields : List (String × Json)}
    (hkeys : (fields.map Prod.fst).Nodup) :
    objectOf? (assignments fields) = some (.object fields) := by
  have hrun : run [] [] (assignments fields) = some (valueEntries fields) := by
    simpa [run] using run_assignments leads_nil [] hkeys []
  rw [objectOf?, hrun, Option.map_some, fieldsOf_valueEntries]

/-- A table behind the assignments is a field behind the others. -/
theorem objectOf?_header {fields table : List (String × Json)} {key : String}
    (hkeys : (fields.map Prod.fst ++ [key]).Nodup) (htable : (table.map Prod.fst).Nodup) :
    objectOf? (assignments fields ++ .header [] key :: assignments table) =
      some (.object (fields ++ [(key, .object table)])) := by
  obtain ⟨hfields, -, hdisjoint⟩ := List.nodup_append.mp hkeys
  have hfree : IsFree key (valueEntries fields) := by
    rw [IsFree, map_fst_valueEntries]
    exact fun hmem => hdisjoint key hmem key (List.mem_singleton.mpr rfl) rfl
  have hrun : run [] [] (assignments fields ++ .header [] key :: assignments table) =
      some (valueEntries fields ++ [(key, .table false false (valueEntries table))]) := by
    calc run [] [] (assignments fields ++ .header [] key :: assignments table)
        = run [] (valueEntries fields) (.header [] key :: assignments table) :=
          run_assignments leads_nil [] hfields _
      _ = run [key] (valueEntries fields ++ [(key, .table false false [])])
            (assignments table) := by
          rw [run, change, hfree.define]
          rfl
      _ = some (valueEntries fields ++ [(key, .table false false (valueEntries table))]) := by
          simpa [run] using run_assignments hfree.leads [] htable []
  rw [objectOf?, hrun, Option.map_some, fieldsOf_append, fieldsOf_valueEntries, fieldsOf,
    Node.toJson, fieldsOf_valueEntries, fieldsOf]

end ModelPreview.Toml
