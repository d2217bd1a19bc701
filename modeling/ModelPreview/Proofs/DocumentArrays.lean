import ModelPreview.Proofs.Reading
import ModelPreview.Proofs.Schema.Paths

/-!
# Reading arrays of documents

Reading an array is compared with what is known about each of its documents alone. The errors about
the array are the errors about its documents, one document after another, with the index of the
document put in front of each path. So each path still leads to a value, now seen from the array.
The array is read as a whole or not at all.
-/

namespace ModelPreview

/-- A diagnostic about the document at index `i` of an array, seen from the array. -/
def Diagnostic.ofItem (i : Nat) (d : Diagnostic) : Diagnostic :=
  { d with path := "/" ++ toString i ++ if d.path = "/" then "" else d.path }

/-- The path of a diagnostic leads to a value of the document. -/
def Diagnostic.Resolves (d : Diagnostic) (json : Json) : Prop :=
  ∃ pointer held, Pointer.ofText? d.path = some pointer ∧ json.at? pointer = some held

theorem Json.decodeItems_eq_ok_iff {α : Type} {decode : Json → Decoded α} {items : List Json}
    {as : List α} :
    decodeItems decode items = .ok as ↔
      List.Forall₂ (fun item a => decode item = .ok a) items as :=
  Except.eq_ok_iff_forall₂ (g := decodeItems decode) rfl fun _ _ => rfl

namespace Schema

/-- A slash for the whole document is told apart from every other path, so that putting an index
in front of the path and in front of its text comes to the same. -/
theorem Violation.toDiagnostic_under {v : Violation} (h : "" ∉ v.path) (i : Nat) :
    (v.under (Pointer.index i)).toDiagnostic = v.toDiagnostic.ofItem i := by
  obtain ⟨path, fault⟩ := v
  have hpath : Pointer.text (Pointer.index i :: path) = "/" ++ toString i ++ Pointer.text path := by
    rw [Pointer.text_cons, Pointer.escape_index]
  cases path with
  | nil => simp [toDiagnostic, Diagnostic.ofItem, under, hpath]
  | cons token rest =>
      have hslash : Pointer.text (token :: rest) ≠ "/" := by
        intro hsame
        have hempty : token :: rest = [""] := Pointer.text_inj.mp (hsame.trans rfl)
        exact h (hempty ▸ List.mem_singleton_self _)
      simp [toDiagnostic, Diagnostic.ofItem, under, hpath, hslash]

end Schema

namespace DocumentKind

variable {α : Type} {kind : DocumentKind α}

theorem errors_validate_index (i : Nat) (document : Json) :
    (kind.validate [Pointer.index i] document).errors =
      (kind.validate [] document).errors.map (Diagnostic.ofItem i) := by
  simp only [validate_eq, List.map_map]
  refine List.map_congr_left fun v hv => ?_
  exact v.toDiagnostic_under (Schema.Slot.path_of_mem_violations hv).2 i

/-- The errors about documents counted from `start`: those about each document alone, in order. -/
def itemErrors (kind : DocumentKind α) (start : Nat) (documents : List Json) : List Diagnostic :=
  (documents.zipIdx start).flatMap fun (document, i) =>
    (kind.validate [] document).errors.map (Diagnostic.ofItem i)

/-- Validating an array is validating its documents one after another. -/
theorem validateAll_eq (start : Nat) (documents : List Json) :
    kind.validateAll start documents = ⟨kind.itemErrors start documents, []⟩ := by
  induction documents generalizing start with
  | nil => rfl
  | cons document rest ih =>
      have hfirst : kind.validate [Pointer.index start] document =
          ⟨(kind.validate [] document).errors.map (Diagnostic.ofItem start), []⟩ := by
        rw [← errors_validate_index, validate_eq]
      rw [validateAll, hfirst, ih]
      rfl

theorem mem_itemErrors {documents : List Json} {d : Diagnostic}
    (h : d ∈ kind.itemErrors 0 documents) :
    ∃ (i : Nat) (document : Json), documents[i]? = some document ∧
      ∃ v ∈ kind.root.violations document, d = (v.under (Pointer.index i)).toDiagnostic := by
  obtain ⟨⟨document, i⟩, hdocument, hd⟩ := List.mem_flatMap.mp h
  have hd : d ∈ (kind.validate [] document).errors.map (Diagnostic.ofItem i) := hd
  rw [← errors_validate_index, validate_eq] at hd
  obtain ⟨v, hv, rfl⟩ := List.mem_map.mp hd
  exact ⟨i, document, List.mem_zipIdx_iff_getElem?.mp hdocument, v, hv, rfl⟩

/-- What is reported about an array is about values that the array holds. -/
theorem resolves_of_mem_itemErrors {documents : List Json} {d : Diagnostic}
    (h : d ∈ kind.itemErrors 0 documents) : d.Resolves (.array documents) := by
  obtain ⟨i, document, hdocument, v, hv, rfl⟩ := mem_itemErrors h
  obtain ⟨held, hheld⟩ := (Schema.Slot.path_of_mem_violations hv).1
  refine ⟨Pointer.index i :: v.path, held, Pointer.ofText?_text _, ?_⟩
  rw [Json.at?_cons, Json.child?_array_index, hdocument]
  exact hheld

theorem errors_validate_eq_nil_iff {document : Json} :
    (kind.validate [] document).errors = [] ↔ kind.root.violations document = [] := by
  rw [validate_eq, List.map_eq_nil_iff]

/-- What reading an array comes to, in terms of validating and reading its documents alone. -/
structure ReadsAllOrNone (kind : DocumentKind α) (documents : List Json) : Prop where
  /-- The array is refused as invalid exactly if some document alone has violations. -/
  invalid_iff : (∃ report, (kind.parseAll (.array documents)).result = .error (.invalid report)) ↔
    ∃ document ∈ documents, (kind.validate [] document).errors ≠ []
  /-- A failure has the errors about all documents in order, and there is no other failure. -/
  failure : ∀ e, (kind.parseAll (.array documents)).result = .error e →
    e = .invalid ⟨kind.itemErrors 0 documents, []⟩
  /-- Every reported path leads to a value of the array. -/
  resolves : ∀ report, (kind.parseAll (.array documents)).result = .error (.invalid report) →
    ∀ d ∈ report.errors, d.Resolves (.array documents)
  /-- Without violations, each document is read as it is read alone. -/
  success : (∀ document ∈ documents, (kind.validate [] document).errors = []) →
    ∃ as, (kind.parseAll (.array documents)).result = .ok as ∧
      List.Forall₂ (fun document a => (kind.parse document).result = .ok a) documents as

/-- Without violations the documents of an array are read one by one. -/
theorem Sound.exists_result_parseAll (hkind : kind.Sound) {documents : List Json}
    (h : ∀ document ∈ documents, kind.root.violations document = []) :
    ∃ as, (kind.parseAll (.array documents)).result = .ok as ∧
      List.Forall₂ (fun document a => (kind.parse document).result = .ok a) documents as := by
  obtain ⟨as, has⟩ := Json.exists_decodeItems fun document hdocument =>
    hkind document (h document hdocument)
  refine ⟨as, by rw [parseAll_of_violations_eq_nil h, has]; rfl, ?_⟩
  have hdecoded := Json.decodeItems_eq_ok_iff.mp has
  refine List.forall₂_iff_get.mpr ⟨hdecoded.length_eq, fun i hi hi' => ?_⟩
  have hvalid := h _ (List.get_mem documents ⟨i, hi⟩)
  rw [parse_of_violations_eq_nil hvalid, hdecoded.get hi hi']
  rfl

theorem Sound.readsAllOrNone (hkind : kind.Sound) (documents : List Json) :
    kind.ReadsAllOrNone documents := by
  by_cases h : ∀ document ∈ documents, kind.root.violations document = []
  · obtain ⟨as, hresult, hread⟩ := hkind.exists_result_parseAll h
    constructor
    case invalid_iff =>
      rw [hresult]
      refine iff_of_false nofun ?_
      rintro ⟨document, hdocument, herrors⟩
      exact herrors (errors_validate_eq_nil_iff.mpr (h document hdocument))
    case failure =>
      rw [hresult]
      exact nofun
    case resolves =>
      rw [hresult]
      exact nofun
    case success => exact fun _ => ⟨as, hresult, hread⟩
  · have hresult := result_parseAll_of_violations h
    rw [validateAll_eq] at hresult
    constructor
    case invalid_iff =>
      refine iff_of_true ⟨_, hresult⟩ ?_
      simpa only [not_forall, ← errors_validate_eq_nil_iff, exists_prop] using h
    case failure =>
      rw [hresult]
      rintro _ ⟨⟩
      rfl
    case resolves =>
      rw [hresult]
      rintro _ ⟨⟩ d hd
      exact resolves_of_mem_itemErrors hd
    case success =>
      intro herrors
      exact absurd (fun document hdocument =>
        errors_validate_eq_nil_iff.mp (herrors document hdocument)) h

/-- An array of declarations is read as a whole or refused with the errors about each of them. -/
theorem declaration_readsAllOrNone (documents : List Json) :
    declaration.ReadsAllOrNone documents :=
  declaration_sound.readsAllOrNone documents

/-- The first document has an unknown kind and no name, and the third one is a list. -/
example :
    (declaration.itemErrors 0
      [.object [("kind", .string "module")],
        .object [("kind", .string "class"), ("name", .string "Tag")],
        .array []]).map Diagnostic.path = ["/0/kind", "/0", "/2"] := by
  decide

end DocumentKind

end ModelPreview
