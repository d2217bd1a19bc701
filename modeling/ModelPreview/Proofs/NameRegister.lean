import Mathlib.Data.Finset.Card
import ModelPreview.Proofs.TargetNames

/-!
# Histories of a register

A register starts out empty. Names are put into it and it is asked about names, one call after
another and in any order. Each call keeps its list and its set in step, so after any calls it holds
the names that have been put in, in the order of their first occurrence, and each answer is about
the names that have been put in before.
-/

namespace ModelPreview.NameRegister

/-- A call to a register. -/
inductive Call where
  | insert (name : String)
  | contains (name : String)

namespace Call

/-- The name that a call puts in, if it puts one in. -/
def inserted? : Call → Option String
  | .insert name => some name
  | .contains _ => none

/-- What a call is to be answered after certain names have been put in: whether its name is new, or
whether it is one of them. -/
def answer (names : List String) : Call → Bool
  | .insert name => name ∉ names
  | .contains name => name ∈ names

theorem answer_congr {names others : List String} (h : ∀ name, name ∈ names ↔ name ∈ others)
    (c : Call) : c.answer names = c.answer others := by
  cases c <;> simp [answer, h]

end Call

/-- The names that calls put in, one for each call that does. -/
def inserted (calls : List Call) : List String :=
  calls.filterMap Call.inserted?

theorem inserted_cons (c : Call) (rest : List Call) :
    inserted (c :: rest) = c.inserted?.toList ++ inserted rest := by
  cases c <;> rfl

/-- The answer to a call, and the register after it. -/
def call (r : NameRegister) : Call → Bool × NameRegister
  | .insert name => r.insert name
  | .contains name => (r.contains name, r)

/-- The answers to calls in a row, and the register after the last. -/
def run (r : NameRegister) : List Call → List Bool × NameRegister
  | [] => ([], r)
  | c :: rest =>
    let (answer, next) := r.call c
    let (answers, last) := run next rest
    (answer :: answers, last)

variable (t : TargetNames)

theorem insert_fst_iff (name : String) :
    (t.toNameRegister.insert name).1 ↔ name ∉ t.names := by
  by_cases hseen : t.contains name
  · simp [insert_of_contains hseen, (t.contains_iff name).mp hseen]
  · simp [insert_of_not_contains hseen, mt (t.contains_iff name).mpr hseen]

theorem call_fst (c : Call) : (t.toNameRegister.call c).1 = c.answer t.names := by
  rw [Bool.eq_iff_iff]
  cases c with
  | insert name => simp [call, Call.answer, insert_fst_iff]
  | contains name => simp [call, Call.answer]

/-- A call leaves the names behind that were there and the one that it puts in. -/
theorem call_snd (c : Call) :
    (t.toNameRegister.call c).2 =
      (c.inserted?.toList.foldl TargetNames.insert t).toNameRegister := by
  cases c <;> rfl

/-- After calls, the names are there that they put in, in order. -/
theorem run_snd (calls : List Call) :
    (run t.toNameRegister calls).2 =
      ((inserted calls).foldl TargetNames.insert t).toNameRegister := by
  induction calls generalizing t with
  | nil => rfl
  | cons c rest ih =>
      change (run (t.toNameRegister.call c).2 rest).2 = _
      rw [call_snd, ih, inserted_cons, List.foldl_append]

/-- Each call is answered by the names at the start and those put in before it. -/
theorem run_fst (calls : List Call) :
    (run t.toNameRegister calls).1 =
      calls.mapIdx fun k c => c.answer (t.names ++ inserted (calls.take k)) := by
  induction calls generalizing t with
  | nil => rfl
  | cons c rest ih =>
      change (t.toNameRegister.call c).1 :: (run (t.toNameRegister.call c).2 rest).1 = _
      have hmem (name : String) :
          name ∈ (c.inserted?.toList.foldl TargetNames.insert t).names ↔
            name ∈ t.names ∨ name ∈ c.inserted?.toList := by
        cases c <;> simp [Call.inserted?]
      rw [call_fst, call_snd, ih, List.mapIdx_cons]
      have hfirst : c.answer t.names = c.answer (t.names ++ inserted []) :=
        Call.answer_congr (by simp [inserted]) c
      refine congrArg₂ List.cons hfirst (congrArg (rest.mapIdx ·) (funext₂ fun k c' => ?_))
      refine Call.answer_congr (fun name => ?_) c'
      rw [List.take_succ_cons, inserted_cons, List.mem_append, hmem, List.mem_append,
        List.mem_append, or_assoc]

/-- What a register is into which certain names have been put: their set, in the order of their
first occurrence. -/
structure IsSetOf (names : List String) (r : NameRegister) : Prop where
  nodup : r.names.Nodup
  mem_seen_iff : ∀ name, name ∈ r.seen ↔ name ∈ r.names
  names_eq : r.names = names.eraseDups
  size_eq : r.size = names.toFinset.card
  isEmpty_iff : r.isEmpty ↔ names = []
  contains_iff : ∀ name, r.contains name ↔ name ∈ names
  /-- Putting a name in tells whether it is new, -/
  insert_fst_iff : ∀ name, (r.insert name).1 ↔ name ∉ names
  /-- and if it is not, then nothing happens. -/
  insert_snd_of_mem : ∀ name ∈ names, (r.insert name).2 = r

theorem isSetOf_ofList (names : List String) :
    (TargetNames.ofList names).toNameRegister.IsSetOf names := by
  have hmem := TargetNames.mem_names_ofList names
  have hcontains (name : String) : (TargetNames.ofList names).contains name ↔ name ∈ names := by
    rw [TargetNames.contains_iff, hmem]
  constructor
  case nodup => exact (TargetNames.ofList names).nodup
  case mem_seen_iff => exact (TargetNames.ofList names).inStep.mem_seen_iff
  case names_eq => exact TargetNames.names_ofList names
  case size_eq =>
    have hset : (TargetNames.ofList names).names.toFinset = names.toFinset := by
      ext name
      rw [List.mem_toFinset, List.mem_toFinset, hmem]
    rw [size, ← hset, List.toFinset_card_of_nodup (TargetNames.ofList names).nodup]
  case isEmpty_iff =>
    rw [isEmpty, List.isEmpty_iff, List.eq_nil_iff_forall_not_mem, List.eq_nil_iff_forall_not_mem]
    exact forall_congr' fun name => not_congr (hmem name)
  case contains_iff => exact hcontains
  case insert_fst_iff =>
    intro name
    rw [NameRegister.insert_fst_iff, hmem]
  case insert_snd_of_mem =>
    intro name hname
    rw [insert_of_contains ((hcontains name).mpr hname)]

/-- After any calls to an empty register it is the set of the names that they put in, in the order
of their first occurrence, and each call has been answered by the names put in before it. -/
theorem run_keeps_set (calls : List Call) :
    (run empty calls).2.IsSetOf (inserted calls) ∧
      (run empty calls).1 = calls.mapIdx fun k c => c.answer (inserted (calls.take k)) := by
  refine ⟨?_, run_fst TargetNames.empty calls⟩
  have hlast : (run empty calls).2 = (TargetNames.ofList (inserted calls)).toNameRegister :=
    run_snd TargetNames.empty calls
  rw [hlast]
  exact isSetOf_ofList (inserted calls)

end ModelPreview.NameRegister
