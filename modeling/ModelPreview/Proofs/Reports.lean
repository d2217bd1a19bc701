import ModelPreview.Proofs.Expansion.Contents
import ModelPreview.Report

/-!
# Reports of batches

An expansion is never empty, so a report without declarations is the report of a failure, and the
text of a batch is empty exactly if nothing in it expands. Everything else about the text is about
the list of all printed declarations: texts of two batches are put together with one more newline
between them, and a batch without printed declarations leaves no trace.
-/

namespace ModelPreview

/-- The declaration expands. -/
def Declaration.Expands (o : Options) (d : Declaration) : Prop :=
  ∃ e, (d.expand o).result = .ok e

namespace Report

variable {o : Options} {d : Declaration}

theorem error?_ofDeclaration : (ofDeclaration o d).error? = (d.expand o).error? := by
  simp only [ofDeclaration, ofResult, error?, Traced.error?]
  cases (d.expand o).result <;> rfl

theorem declarations_ofDeclaration {e : Expansion} (h : (d.expand o).result = .ok e) :
    (ofDeclaration o d).declarations = e.texts o.indent := by
  simp only [ofDeclaration, ofResult, declarations, h]
  rfl

theorem error?_ofDeclaration_eq_none_iff :
    (ofDeclaration o d).error? = none ↔ d.Expands o := by
  rw [error?_ofDeclaration]
  exact Traced.error?_eq_none_iff

theorem declarations_eq_nil_of_error? {r : Report} (h : r.error? ≠ none) :
    r.declarations = [] ∧ r.warnings = [] := by
  obtain ⟨name, outcome⟩ := r
  cases outcome with
  | error e => exact ⟨rfl, rfl⟩
  | ok rendered => exact absurd rfl h

/-- Every expansion has a protocol. -/
theorem texts_ne_nil {e : Expansion} (h : (d.expand o).result = .ok e) (indent : String) :
    e.texts indent ≠ [] := by
  obtain ⟨m, rs, rfl, -⟩ := Declaration.exists_of_result_expand h
  have hprotocol : m.generated o rs .protocol ∈ (m.expansion o rs).declarations :=
    ModelClass.mem_declarations_expansion.mpr ⟨.protocol, o.protocol_mem_roles, rfl⟩
  exact List.ne_nil_of_mem (List.mem_map_of_mem hprotocol)

/-- A report shows declarations exactly if its declaration expands. -/
theorem declarations_ofDeclaration_eq_nil_iff :
    (ofDeclaration o d).declarations = [] ↔ ¬ d.Expands o := by
  constructor
  · rintro hnil ⟨e, he⟩
    rw [declarations_ofDeclaration he] at hnil
    exact texts_ne_nil he o.indent hnil
  · intro h
    rw [← error?_ofDeclaration_eq_none_iff] at h
    exact (declarations_eq_nil_of_error? h).1

/-- The text shows the printed declarations and nothing else. -/
theorem renderText_congr {rs ss : List Report}
    (h : rs.flatMap declarations = ss.flatMap declarations) : renderText rs = renderText ss := by
  unfold renderText
  rw [h]

theorem renderText_of_eq_nil {rs : List Report} (h : rs.flatMap declarations = []) :
    renderText rs = "" := by
  unfold renderText
  rw [h]
  rfl

theorem renderText_of_ne_nil {rs : List Report} (h : rs.flatMap declarations ≠ []) :
    renderText rs = "\n\n".intercalate (rs.flatMap declarations) ++ "\n" := by
  unfold renderText
  exact if_neg (by simpa using h)

/-- The newline that ends the first text and one more make the blank line between the two. -/
theorem renderText_append {rs ss : List Report} (hrs : rs.flatMap declarations ≠ [])
    (hss : ss.flatMap declarations ≠ []) :
    renderText (rs ++ ss) = renderText rs ++ "\n" ++ renderText ss := by
  have hblank : "\n\n" = "\n" ++ "\n" := rfl
  have happend : (rs ++ ss).flatMap declarations =
      rs.flatMap declarations ++ ss.flatMap declarations := List.flatMap_append
  have hne : (rs ++ ss).flatMap declarations ≠ [] := by
    rw [happend]
    exact List.append_ne_nil_of_left_ne_nil hrs _
  rw [renderText_of_ne_nil hrs, renderText_of_ne_nil hss, renderText_of_ne_nil hne, happend,
    String.intercalate_append_of_ne_nil hrs hss]
  simp only [hblank, String.append_assoc]

/-- The reports of a batch. -/
def ofBatch (o : Options) (ds : List Declaration) : List Report :=
  ds.map (ofDeclaration o)

/-- The text of a batch. -/
def batchText (o : Options) (ds : List Declaration) : String :=
  renderText (ofBatch o ds)

theorem ofBatch_append (xs ys : List Declaration) :
    ofBatch o (xs ++ ys) = ofBatch o xs ++ ofBatch o ys :=
  List.map_append

/-- Nothing is shown of a batch exactly if nothing in it expands. -/
theorem flatMap_declarations_ofBatch_eq_nil_iff {ds : List Declaration} :
    (ofBatch o ds).flatMap declarations = [] ↔ ∀ d ∈ ds, ¬ d.Expands o := by
  simp [ofBatch, List.flatMap_map, List.flatMap_eq_nil_iff, declarations_ofDeclaration_eq_nil_iff]

theorem flatMap_declarations_ofBatch_ne_nil {ds : List Declaration} (h : ∃ d ∈ ds, d.Expands o) :
    (ofBatch o ds).flatMap declarations ≠ [] := by
  obtain ⟨d, hd, hexpands⟩ := h
  intro hnil
  exact flatMap_declarations_ofBatch_eq_nil_iff.mp hnil d hd hexpands

/-- How the text, the reports and the failures of two batches together come from those of each. -/
structure BatchesCompose (o : Options) (xs ys : List Declaration) : Prop where
  /-- Texts that show something are put together with one newline between them. -/
  both : (∃ d ∈ xs, d.Expands o) → (∃ d ∈ ys, d.Expands o) →
    batchText o (xs ++ ys) = batchText o xs ++ "\n" ++ batchText o ys
  /-- A batch in which nothing expands leaves no trace in front of another. -/
  left : (∀ d ∈ xs, ¬ d.Expands o) → batchText o (xs ++ ys) = batchText o ys
  /-- Nor does it leave one behind another. -/
  right : (∀ d ∈ ys, ¬ d.Expands o) → batchText o (xs ++ ys) = batchText o xs
  neither : (∀ d ∈ xs ++ ys, ¬ d.Expands o) → batchText o (xs ++ ys) = ""
  /-- A declaration that fails leaves no trace wherever it stands. -/
  between : ∀ d, ¬ d.Expands o → batchText o (xs ++ d :: ys) = batchText o (xs ++ ys)
  /-- A report either shows declarations or an error, and with an error there are no warnings. -/
  reports : ∀ r ∈ ofBatch o (xs ++ ys),
    (r.error? ≠ none ↔ r.declarations = []) ∧ (r.error? ≠ none → r.warnings = [])
  failures : failures (ofBatch o (xs ++ ys)) = failures (ofBatch o xs) + failures (ofBatch o ys)

/-- Batches compose, whatever declarations fail in them. -/
theorem batches_compose (o : Options) (xs ys : List Declaration) : BatchesCompose o xs ys := by
  constructor
  case both =>
    intro hxs hys
    unfold batchText
    rw [ofBatch_append]
    exact renderText_append (flatMap_declarations_ofBatch_ne_nil hxs)
      (flatMap_declarations_ofBatch_ne_nil hys)
  case left =>
    intro hxs
    apply renderText_congr
    rw [ofBatch_append, List.flatMap_append, flatMap_declarations_ofBatch_eq_nil_iff.mpr hxs,
      List.nil_append]
  case right =>
    intro hys
    apply renderText_congr
    rw [ofBatch_append, List.flatMap_append, flatMap_declarations_ofBatch_eq_nil_iff.mpr hys,
      List.append_nil]
  case neither =>
    intro hall
    exact renderText_of_eq_nil (flatMap_declarations_ofBatch_eq_nil_iff.mpr hall)
  case between =>
    intro d hd
    have hnil : (ofDeclaration o d).declarations = [] :=
      declarations_ofDeclaration_eq_nil_iff.mpr hd
    apply renderText_congr
    simp [ofBatch, hnil]
  case reports =>
    intro r hr
    obtain ⟨d, -, rfl⟩ := List.mem_map.mp hr
    refine ⟨?_, fun herror => (declarations_eq_nil_of_error? herror).2⟩
    rw [declarations_ofDeclaration_eq_nil_iff, ← error?_ofDeclaration_eq_none_iff]
  case failures =>
    rw [ofBatch_append]
    exact List.countP_append

/-- A model without properties. -/
def label (name : String) : Declaration where
  kind := .class
  name
  attributes := [⟨"Model", none⟩]
  members := [.initializer ⟨[], [], "", none, "\x7b\x7d"⟩]

/-- No model. -/
def box : Declaration :=
  ⟨.struct, "Box", [], []⟩

theorem expands_label (name : String) : (label name).Expands .default :=
  ⟨_, rfl⟩

theorem not_expands_box : ¬ box.Expands .default := by
  rintro ⟨e, ⟨⟩⟩

/-- Failures stand in front of, between and behind models, and one of the batches may be nothing but
a failure. -/
theorem labels_among_boxes_compose :
    (∃ d ∈ [box, label "Tag"], d.Expands .default) ∧
    (∃ d ∈ [box, label "User", box], d.Expands .default) ∧
    batchText .default ([box, label "Tag"] ++ [box, label "User", box]) =
      batchText .default [box, label "Tag"] ++ "\n" ++
        batchText .default [box, label "User", box] ∧
    (∀ d ∈ [box], ¬ d.Expands .default) ∧
    batchText .default ([box] ++ [label "Tag"]) = batchText .default [label "Tag"] := by
  have hleft : ∃ d ∈ [box, label "Tag"], d.Expands .default :=
    ⟨label "Tag", by simp, expands_label "Tag"⟩
  have hright : ∃ d ∈ [box, label "User", box], d.Expands .default :=
    ⟨label "User", by simp, expands_label "User"⟩
  have hnone : ∀ d ∈ [box], ¬ d.Expands .default :=
    List.forall_mem_singleton.mpr not_expands_box
  exact ⟨hleft, hright, (batches_compose _ _ _).both hleft hright, hnone,
    (batches_compose _ _ _).left hnone⟩

end Report

end ModelPreview
