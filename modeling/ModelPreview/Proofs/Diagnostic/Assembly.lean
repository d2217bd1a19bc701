import ModelPreview.Input

/-!
# Reports built in pieces

A report is built by pushing diagnostics and by merging reports that are built in the same way, so
the way it is built is a tree. Only the order of the pushes from left to right matters: pushed one
after another onto an empty report they give the same report. It lists each of them under its
severity, and it lets its input pass exactly if no error is among them. The report about an array of
documents is built like that, with a piece for each document.
-/

namespace ModelPreview

namespace DiagnosticReport

/-- A way to build a report. -/
inductive Assembly where
  | empty
  | push (before : Assembly) (d : Diagnostic)
  | merge (before piece : Assembly)

namespace Assembly

/-- The report that is built. -/
def report : Assembly → DiagnosticReport
  | .empty => .empty
  | .push before d => before.report.push d
  | .merge before piece => before.report.merge piece.report

/-- The diagnostics that are pushed anywhere, from left to right. -/
def pushed : Assembly → List Diagnostic
  | .empty => []
  | .push before d => before.pushed ++ [d]
  | .merge before piece => before.pushed ++ piece.pushed

/-- The pieces leave no trace: all that counts is what is pushed. -/
theorem report_eq_ofList (a : Assembly) : a.report = ofList a.pushed := by
  induction a with
  | empty => rfl
  | push before d ih => rw [report, pushed, ofList_concat, ih]
  | merge before piece ihbefore ihpiece => rw [report, pushed, ofList_append, ihbefore, ihpiece]

end Assembly

/-- What a report is onto which certain diagnostics have been pushed in a row. -/
structure Collects (ds : List Diagnostic) (r : DiagnosticReport) : Prop where
  eq_foldl_push : r = ds.foldl push empty
  errors_eq : r.errors = ds.filter (·.severity = .error)
  warnings_eq : r.warnings = ds.filter (·.severity = .warning)
  /-- None is lost and none is listed twice. -/
  perm : (r.errors ++ r.warnings).Perm ds
  isOk_iff : r.isOk ↔ ∀ d ∈ ds, d.severity ≠ .error

theorem collects_ofList (ds : List Diagnostic) : (ofList ds).Collects ds := by
  have hwarnings : ds.filter (·.severity = .warning) =
      ds.filter fun d => !decide (d.severity = .error) :=
    List.filter_congr fun d _ => by cases d.severity <;> rfl
  constructor
  case eq_foldl_push => rfl
  case errors_eq => rw [ofList_eq]
  case warnings_eq => rw [ofList_eq]
  case perm =>
    rw [ofList_eq, hwarnings]
    exact List.filter_append_perm _ ds
  case isOk_iff => exact isOk_ofList

/-- However a report is built, it collects what is pushed. -/
theorem Assembly.report_collects (a : Assembly) : a.report.Collects a.pushed := by
  rw [a.report_eq_ofList]
  exact collects_ofList a.pushed

/-- A piece within a piece, with both severities on either side of it. -/
example :
    let finding (severity : Severity) (code : String) : Diagnostic := ⟨severity, code, "/", "", none⟩
    let inner : Assembly := .push (.push .empty (finding .warning "b")) (finding .error "c")
    let outer : Assembly := .merge (.push .empty (finding .error "a")) (.merge .empty inner)
    let report := (outer.push (finding .warning "d")).report
    report.errors.map (·.code) = ["a", "c"] ∧ report.warnings.map (·.code) = ["b", "d"] := by
  decide

end DiagnosticReport

namespace DocumentKind

open DiagnosticReport

variable {α : Type} (kind : DocumentKind α)

/-- How the report about one document is built. -/
def assembly (base : Pointer) (document : Json) : Assembly :=
  (kind.root.violations document).foldl
    (fun before v => before.push (Schema.Violation.toDiagnostic { v with path := base ++ v.path }))
    .empty

/-- How the report about documents counted from `start` is built behind what there is before: a
report about each document is built apart and merged as soon as it is complete. -/
def assemblyBehind (before : Assembly) (start : Nat) (documents : List Json) : Assembly :=
  (documents.zipIdx start).foldl
    (fun before (document, i) => before.merge (kind.assembly [Pointer.index i] document)) before

theorem report_assembly (base : Pointer) (document : Json) :
    (kind.assembly base document).report = kind.validate base document := by
  rw [validate, ofList, List.foldl_map]
  exact (List.foldl_hom Assembly.report fun _ _ => rfl).symm

/-- Merging from the first document on comes to merging from the last one back. -/
theorem report_assemblyBehind (before : Assembly) (start : Nat) (documents : List Json) :
    (kind.assemblyBehind before start documents).report =
      before.report.merge (kind.validateAll start documents) := by
  induction documents generalizing before start with
  | nil => exact (merge_empty _).symm
  | cons document rest ih =>
      have hfirst : kind.assemblyBehind before start (document :: rest) =
          kind.assemblyBehind (before.merge (kind.assembly [Pointer.index start] document))
            (start + 1) rest := rfl
      rw [hfirst, ih, Assembly.report, report_assembly, validateAll, merge_assoc]

/-- The report about an array is built in pieces. -/
theorem validateAll_eq_report (documents : List Json) :
    kind.validateAll 0 documents = (kind.assemblyBehind .empty 0 documents).report := by
  rw [report_assemblyBehind, Assembly.report, empty_merge]

end DocumentKind

end ModelPreview
