import ModelPreview.Proofs.Schema.Decoding
import ModelPreview.Proofs.Schema.Standard

/-!
# Reading documents

A document is decoded only if nothing is wrong with it, and then it decodes. So reading ends with a
value or with a report of violations, and never with an error of the decoder.
-/

namespace ModelPreview

/-- The report of errors lists them and nothing else. -/
theorem DiagnosticReport.ofList_of_errors {ds : List Diagnostic}
    (h : ∀ d ∈ ds, d.severity = .error) : ofList ds = ⟨ds, []⟩ := by
  have herrors : ds.filter (·.severity = .error) = ds :=
    List.filter_eq_self.mpr fun d hd => decide_eq_true (h d hd)
  have hwarnings : ds.filter (·.severity = .warning) = [] :=
    List.filter_eq_nil_iff.mpr fun d hd => by simp [h d hd]
  rw [ofList_eq, herrors, hwarnings]

namespace DocumentKind

variable {α : Type} {kind : DocumentKind α}

/-- Validating a document reports each of its violations as an error, and nothing else. -/
theorem validate_eq (base : Pointer) (document : Json) :
    kind.validate base document =
      ⟨(kind.root.violations document).map fun v =>
        Schema.Violation.toDiagnostic { v with path := base ++ v.path }, []⟩ :=
  DiagnosticReport.ofList_of_errors (List.forall_mem_map.mpr fun _ _ => rfl)

theorem isOk_validate_iff {base : Pointer} {document : Json} :
    (kind.validate base document).isOk ↔ kind.root.violations document = [] := by
  simp [validate_eq, DiagnosticReport.isOk]

/-- A report is empty exactly for the documents that the schema accepts. -/
theorem isOk_validate_iff_valid {base : Pointer} {document : Json} :
    (kind.validate base document).isOk ↔ JsonSchema.Valid kind.root.toJson document :=
  isOk_validate_iff.trans (kind.root.valid_iff document).symm

theorem isOk_validateAll_iff {start : Nat} {documents : List Json} :
    (kind.validateAll start documents).isOk ↔
      ∀ document ∈ documents, kind.root.violations document = [] := by
  induction documents generalizing start with
  | nil => simp [validateAll, DiagnosticReport.isOk, DiagnosticReport.empty]
  | cons document documents ih =>
      rw [validateAll, DiagnosticReport.isOk_merge, isOk_validate_iff, ih, List.forall_mem_cons]

theorem ensureValid_of_isOk {report : DiagnosticReport} (h : report.isOk) :
    ensureValid report = pure () := by
  rw [ensureValid, if_pos h]

theorem result_ensureValid_of_not_isOk {report : DiagnosticReport} (h : ¬ report.isOk) :
    (ensureValid report).result = .error (.invalid report) := by
  rw [ensureValid, if_neg h]
  rfl

theorem parse_of_violations_eq_nil {document : Json}
    (h : kind.root.violations document = []) :
    kind.parse document = Traced.lift ((kind.ofJson document).mapError .undecodable) := by
  rw [parse, ensureValid_of_isOk (isOk_validate_iff.mpr h), pure_bind]

theorem parseAll_of_violations_eq_nil {documents : List Json}
    (h : ∀ document ∈ documents, kind.root.violations document = []) :
    kind.parseAll (.array documents) =
      Traced.lift ((Json.decodeItems kind.ofJson documents).mapError .undecodable) := by
  rw [parseAll, ensureValid_of_isOk (isOk_validateAll_iff.mpr h), pure_bind]

theorem result_parse_of_violations {document : Json} (h : kind.root.violations document ≠ []) :
    (kind.parse document).result = .error (.invalid (kind.validate [] document)) := by
  rw [parse, Traced.result_bind,
    result_ensureValid_of_not_isOk fun hok => h (isOk_validate_iff.mp hok)]
  rfl

/-- One document with violations keeps the whole array from being decoded. -/
theorem result_parseAll_of_violations {documents : List Json}
    (h : ¬ ∀ document ∈ documents, kind.root.violations document = []) :
    (kind.parseAll (.array documents)).result =
      .error (.invalid (kind.validateAll 0 documents)) := by
  rw [parseAll, Traced.result_bind,
    result_ensureValid_of_not_isOk fun hok => h (isOk_validateAll_iff.mp hok)]
  rfl

/-- What is no array is read by itself. -/
theorem parseAll_of_not_array {document : Json} (h : ∀ items, document ≠ .array items) :
    kind.parseAll document = (fun a => [a]) <$> kind.parse document := by
  rw [← bind_pure_comp]
  cases document with
  | array items => exact absurd rfl (h items)
  | _ => rfl

/-- Whatever passes the schema decodes. -/
def Sound (kind : DocumentKind α) : Prop :=
  ∀ document, kind.root.violations document = [] → ∃ a, kind.ofJson document = .ok a

namespace Sound

/-- Reading a document ends with its value or with its violations. -/
theorem result_parse (hkind : kind.Sound) (document : Json) :
    (∃ a, (kind.parse document).result = .ok a) ∨
      (kind.parse document).result = .error (.invalid (kind.validate [] document)) := by
  by_cases h : kind.root.violations document = []
  · obtain ⟨a, ha⟩ := hkind document h
    rw [parse_of_violations_eq_nil h, ha]
    exact .inl ⟨a, rfl⟩
  · exact .inr (result_parse_of_violations h)

/-- Reading documents ends with all values, or with the violations of all. -/
theorem result_parseAll_array (hkind : kind.Sound) (documents : List Json) :
    (∃ as, (kind.parseAll (.array documents)).result = .ok as) ∨
      (kind.parseAll (.array documents)).result =
        .error (.invalid (kind.validateAll 0 documents)) := by
  by_cases h : ∀ document ∈ documents, kind.root.violations document = []
  · obtain ⟨as, has⟩ := Json.exists_decodeItems fun document hdocument =>
      hkind document (h document hdocument)
    rw [parseAll_of_violations_eq_nil h, has]
    exact .inl ⟨as, rfl⟩
  · exact .inr (result_parseAll_of_violations h)

theorem result_parseAll (hkind : kind.Sound) (document : Json) :
    (∃ as, (kind.parseAll document).result = .ok as) ∨
      ∃ report, (kind.parseAll document).result = .error (.invalid report) := by
  by_cases h : ∃ documents, document = .array documents
  · obtain ⟨documents, rfl⟩ := h
    exact (hkind.result_parseAll_array documents).imp_right fun h => ⟨_, h⟩
  · rw [parseAll_of_not_array fun items hitems => h ⟨items, hitems⟩, Traced.result_map]
    obtain ⟨a, ha⟩ | hinvalid := hkind.result_parse document
    · rw [ha]
      exact .inl ⟨[a], rfl⟩
    · rw [hinvalid]
      exact .inr ⟨_, rfl⟩

end Sound

theorem declaration_sound : declaration.Sound :=
  fun document h => Schema.Slot.declaration_decodes document h

theorem member_sound : member.Sound :=
  fun document h => Schema.Slot.member_decodes document h

end DocumentKind

/-- Reading never fails to decode: what it does not read has violations. And whatever is valid
under the schema of declarations or members, in the standard meaning of the schema, decodes. -/
theorem valid_documents_decode :
    (∀ document : Json,
      (∃ ds, (DocumentKind.declaration.parseAll document).result = .ok ds) ∨
        ∃ report, (DocumentKind.declaration.parseAll document).result =
          .error (.invalid report)) ∧
    (∀ document : Json,
      (∃ m, (DocumentKind.member.parse document).result = .ok m) ∨
        ∃ report, (DocumentKind.member.parse document).result = .error (.invalid report)) ∧
    (∀ document : Json, JsonSchema.Valid Schema.Root.declaration.toJson document →
      ∃ d, Declaration.ofJson document = .ok d) ∧
    ∀ document : Json, JsonSchema.Valid Schema.Root.member.toJson document →
      ∃ m, Member.ofJson document = .ok m := by
  refine ⟨DocumentKind.declaration_sound.result_parseAll, fun document => ?_, ?_, ?_⟩
  · exact (DocumentKind.member_sound.result_parse document).imp_right fun h => ⟨_, h⟩
  · intro document hvalid
    exact DocumentKind.declaration_sound document ((Schema.Root.valid_iff _ _).mp hvalid)
  · intro document hvalid
    exact DocumentKind.member_sound document ((Schema.Root.valid_iff _ _).mp hvalid)

/-- A member without source text is valid, so it decodes. -/
theorem valid_function_decodes :
    JsonSchema.Valid Schema.Root.member.toJson
      (.object [("kind", .string "function"), ("member", .string "other")]) ∧
    ∃ m, Member.ofJson (.object [("kind", .string "function"), ("member", .string "other")]) =
      .ok m := by
  have hvalid : JsonSchema.Valid Schema.Root.member.toJson
      (.object [("kind", .string "function"), ("member", .string "other")]) :=
    (Schema.Root.valid_iff _ _).mpr rfl
  exact ⟨hvalid, valid_documents_decode.2.2.2 _ hvalid⟩

end ModelPreview
