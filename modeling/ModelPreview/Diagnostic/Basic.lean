/-!
# Diagnostics

A report keeps errors and warnings apart, each in the order in which they came. Pushing one
diagnostic and merging a whole report are the only ways to build one, and merging keeps the lists
as they are. A push is the merge of a report of one, so merging reports comes to pushing what is in
them.
-/

namespace ModelPreview

inductive Severity where
  | error
  | warning
  deriving DecidableEq

/-- A finding about a place of the input. -/
structure Diagnostic where
  severity : Severity
  code : String
  /-- A JSON pointer into the input. -/
  path : String
  message : String
  hint : Option String
  deriving DecidableEq

/-- The findings of one pass over the input. -/
structure DiagnosticReport where
  errors : List Diagnostic
  warnings : List Diagnostic
  deriving DecidableEq

namespace DiagnosticReport

def empty : DiagnosticReport :=
  ⟨[], []⟩

/-- A report without errors lets its input pass. -/
def isOk (r : DiagnosticReport) : Bool :=
  r.errors.isEmpty

/-- Add a diagnostic to the list of its severity. -/
def push (r : DiagnosticReport) (d : Diagnostic) : DiagnosticReport :=
  match d.severity with
  | .error => { r with errors := r.errors ++ [d] }
  | .warning => { r with warnings := r.warnings ++ [d] }

/-- Append the lists of another report. -/
def merge (r s : DiagnosticReport) : DiagnosticReport :=
  ⟨r.errors ++ s.errors, r.warnings ++ s.warnings⟩

/-- The report of diagnostics pushed one after another. -/
def ofList (ds : List Diagnostic) : DiagnosticReport :=
  ds.foldl push empty

@[simp] theorem merge_empty (r : DiagnosticReport) : r.merge empty = r := by
  simp [merge, empty]

@[simp] theorem empty_merge (r : DiagnosticReport) : empty.merge r = r := by
  simp [merge, empty]

theorem merge_assoc (r s t : DiagnosticReport) : (r.merge s).merge t = r.merge (s.merge t) := by
  simp [merge]

/-- Pushing is merging a report of one. -/
theorem push_eq_merge (r : DiagnosticReport) (d : Diagnostic) :
    r.push d = r.merge (empty.push d) := by
  cases h : d.severity <;> simp [push, merge, empty, h]

/-- What is pushed onto a report could as well be collected apart and merged into it. -/
theorem foldl_push (r : DiagnosticReport) (ds : List Diagnostic) :
    ds.foldl push r = r.merge (ofList ds) := by
  induction ds generalizing r with
  | nil => exact (merge_empty r).symm
  | cons d ds ih =>
      -- The same step for a report that is still empty; it is where `ds` is collected behind `d`.
      have hfirst : ofList (d :: ds) = (empty.push d).merge (ofList ds) := ih (empty.push d)
      rw [List.foldl_cons, ih, push_eq_merge, merge_assoc, hfirst]

theorem ofList_append (xs ys : List Diagnostic) :
    ofList (xs ++ ys) = (ofList xs).merge (ofList ys) := by
  rw [ofList, List.foldl_append, foldl_push]
  rfl

theorem ofList_concat (ds : List Diagnostic) (d : Diagnostic) :
    ofList (ds ++ [d]) = (ofList ds).push d :=
  (ofList_append ds [d]).trans (push_eq_merge _ d).symm

/-- Each diagnostic goes to the list of its severity. -/
theorem ofList_eq (ds : List Diagnostic) :
    ofList ds = ⟨ds.filter (·.severity = .error), ds.filter (·.severity = .warning)⟩ := by
  induction ds with
  | nil => rfl
  | cons d ds ih =>
      rw [← List.singleton_append, ofList_append, ih]
      cases h : d.severity <;> simp [ofList, push, merge, empty, h]

theorem isOk_merge {r s : DiagnosticReport} : (r.merge s).isOk ↔ r.isOk ∧ s.isOk := by
  simp [merge, isOk]

theorem isOk_ofList {ds : List Diagnostic} :
    (ofList ds).isOk ↔ ∀ d ∈ ds, d.severity ≠ .error := by
  simp [ofList_eq, isOk, List.filter_eq_nil_iff]

end DiagnosticReport

end ModelPreview
