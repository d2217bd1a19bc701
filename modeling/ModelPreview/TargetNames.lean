import Std.Data.TreeSet.Lemmas

/-!
# Names of relationship targets

The targets of a model's relationships, in the order in which they are first seen and each of them
once. The names are kept twice, as a list for their order and as a set to look them up in, and both
change with each new name.
-/

namespace ModelPreview

/-- Names in a list, and names in a set. -/
structure NameRegister where
  names : List String
  seen : Std.TreeSet String

namespace NameRegister

def empty : NameRegister :=
  ⟨[], ∅⟩

/-- Whether a name has been seen. -/
def contains (r : NameRegister) (name : String) : Bool :=
  r.seen.contains name

/-- Whether `name` is new, and the register with it: a new name is put behind those seen before. -/
def insert (r : NameRegister) (name : String) : Bool × NameRegister :=
  let (found, seen) := r.seen.containsThenInsert name
  if found then (false, { r with seen })
  else (true, { names := r.names ++ [name], seen })

/-- How many names have been seen. -/
def size (r : NameRegister) : Nat :=
  r.names.length

def isEmpty (r : NameRegister) : Bool :=
  r.names.isEmpty

/-- The list and the set are in step: they hold the same names, and the list holds none twice. -/
structure InStep (r : NameRegister) : Prop where
  nodup : r.names.Nodup
  mem_seen_iff : ∀ name, name ∈ r.seen ↔ name ∈ r.names

@[simp] theorem names_empty : empty.names = [] := rfl

theorem inStep_empty : empty.InStep where
  nodup := .nil
  mem_seen_iff := fun name => by simp [empty]

/-- A name that is in the set already changes nothing. -/
theorem insert_of_contains {r : NameRegister} {name : String} (h : r.contains name) :
    r.insert name = (false, r) := by
  have hfound : r.seen.inner.inner.inner.contains name := h
  simp [insert, Std.TreeSet.containsThenInsert, Std.TreeMap.containsThenInsertIfNew,
    Std.DTreeMap.containsThenInsertIfNew, Std.DTreeMap.Internal.Impl.containsThenInsertIfNew,
    hfound]

/-- Any other name goes to the end of the list and into the set. -/
theorem insert_of_not_contains {r : NameRegister} {name : String} (h : ¬ r.contains name) :
    r.insert name = (true, ⟨r.names ++ [name], r.seen.insert name⟩) := by
  have hnew : r.seen.contains name = false := Bool.eq_false_iff.mpr h
  simp [insert, Std.TreeSet.containsThenInsert_fst, Std.TreeSet.containsThenInsert_snd, hnew]

theorem InStep.contains_iff {r : NameRegister} (h : r.InStep) (name : String) :
    r.contains name ↔ name ∈ r.names := by
  rw [contains, Std.TreeSet.contains_iff_mem, h.mem_seen_iff]

/-- A call keeps the list and the set in step. -/
theorem InStep.insert {r : NameRegister} (h : r.InStep) (name : String) :
    (r.insert name).2.InStep := by
  by_cases hseen : r.contains name
  · rw [insert_of_contains hseen]
    exact h
  · have hnew : name ∉ r.names := mt (h.contains_iff name).mpr hseen
    rw [insert_of_not_contains hseen]
    refine ⟨?_, fun other => ?_⟩
    · rw [List.nodup_append]
      refine ⟨h.nodup, by simp, ?_⟩
      intro a ha b hb
      rw [List.mem_singleton] at hb
      rintro rfl
      exact hnew (hb ▸ ha)
    · rw [Std.TreeSet.mem_insert, Std.LawfulEqCmp.compare_eq_iff_eq, h.mem_seen_iff,
        List.mem_append, List.mem_singleton, or_comm, eq_comm (a := name)]

end NameRegister

/-- A list of names without repetition, and the set of the same names. -/
structure TargetNames extends NameRegister where
  inStep : toNameRegister.InStep

namespace TargetNames

def empty : TargetNames :=
  ⟨.empty, NameRegister.inStep_empty⟩

/-- The names with `name` seen too, behind those seen before if it is new. -/
def insert (t : TargetNames) (name : String) : TargetNames :=
  ⟨(t.toNameRegister.insert name).2, t.inStep.insert name⟩

/-- The names seen in a list, in order of first occurrence. -/
def ofList (names : List String) : TargetNames :=
  names.foldl insert empty

theorem nodup (t : TargetNames) : t.names.Nodup :=
  t.inStep.nodup

@[simp] theorem contains_iff (t : TargetNames) (name : String) :
    t.contains name ↔ name ∈ t.names :=
  t.inStep.contains_iff name

theorem names_insert (t : TargetNames) (name : String) :
    (t.insert name).names = if name ∈ t.names then t.names else t.names ++ [name] := by
  by_cases hseen : t.contains name
  · have hsame := NameRegister.insert_of_contains hseen
    rw [if_pos ((t.contains_iff name).mp hseen)]
    exact congrArg (fun answer => answer.2.names) hsame
  · have hnew := NameRegister.insert_of_not_contains hseen
    rw [if_neg (mt (t.contains_iff name).mpr hseen)]
    exact congrArg (fun answer => answer.2.names) hnew

@[simp] theorem mem_names_insert (t : TargetNames) (name other : String) :
    other ∈ (t.insert name).names ↔ other ∈ t.names ∨ other = name := by
  rw [names_insert]
  split
  · next h => exact ⟨.inl, fun h' => h'.elim id fun e => e ▸ h⟩
  · simp

/-- The targets are exactly the listed names. -/
@[simp] theorem mem_names_ofList (names : List String) (name : String) :
    name ∈ (ofList names).names ↔ name ∈ names := by
  have hfold : ∀ t : TargetNames,
      name ∈ (names.foldl insert t).names ↔ name ∈ t.names ∨ name ∈ names := by
    induction names with
    | nil => simp
    | cons first rest ih =>
        intro t
        rw [List.foldl_cons, ih, mem_names_insert, List.mem_cons, or_assoc]
  simpa [ofList, empty] using hfold empty

end TargetNames

end ModelPreview
