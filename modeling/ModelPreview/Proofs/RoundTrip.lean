import ModelPreview.Proofs.Reading
import ModelPreview.Proofs.Schema.Encoding

/-!
# Reading what was written

What was written is read back as it was, without a violation on the way: an encoding passes the
schema and decodes to what it encodes. Only a property without bindings is kept out, by the schema
alone.
-/

namespace ModelPreview

namespace DocumentKind

variable {α : Type} {kind : DocumentKind α} {encode : α → Json}

/-- An encoding without violations is read back, and nothing is logged. -/
theorem parse_encode {a : α} (haccepts : kind.root.violations (encode a) = [])
    (hdecode : kind.ofJson (encode a) = .ok a) : kind.parse (encode a) = pure a := by
  rw [parse_of_violations_eq_nil haccepts, hdecode]
  rfl

theorem parseAll_map_encode {as : List α}
    (haccepts : ∀ a ∈ as, kind.root.violations (encode a) = [])
    (hdecode : ∀ a ∈ as, kind.ofJson (encode a) = .ok a) :
    kind.parseAll (.array (as.map encode)) = pure as := by
  have hall : ∀ document ∈ as.map encode, kind.root.violations document = [] :=
    List.forall_mem_map.mpr haccepts
  rw [parseAll_of_violations_eq_nil hall, Json.decodeItems_map hdecode]
  rfl

end DocumentKind

/-- Declarations and members whose properties have bindings are read back from their encodings,
and everything decodes from its own, with bindings or without. -/
theorem encodings_read_back :
    (∀ ds : List Declaration, (∀ d ∈ ds, d.HasBindings) →
      (∀ d ∈ ds, Schema.Root.declaration.violations d.toJson = []) ∧
      DocumentKind.declaration.parseAll (.array (ds.map Declaration.toJson)) = pure ds) ∧
    (∀ d : Declaration, d.HasBindings →
      DocumentKind.declaration.parseAll d.toJson = pure [d]) ∧
    (∀ m : Member, m.HasBindings →
      Schema.Root.member.violations m.toJson = [] ∧
      DocumentKind.member.parse m.toJson = pure m) ∧
    (∀ d : Declaration, Declaration.ofJson d.toJson = .ok d) ∧
    (∀ m : Member, Member.ofJson m.toJson = .ok m) ∧
    (∀ (t : TypeExpr) (lenient : Bool), TypeExpr.ofJson lenient t.toJson = .ok t) ∧
    (∀ (p : Pattern) (lenient : Bool), Pattern.ofJson lenient p.toJson = .ok p) ∧
    ∀ i : Initializer, Initializer.ofJson i.toJson = .ok i := by
  refine ⟨?batch, ?single, ?member, Declaration.ofJson_toJson, Member.ofJson_toJson,
    TypeExpr.ofJson_toJson, Pattern.ofJson_toJson, Initializer.ofJson_toJson⟩
  case batch =>
    intro ds hbindings
    have haccepts : ∀ d ∈ ds, Schema.Root.declaration.violations d.toJson = [] :=
      fun d hd => Declaration.accepts_toJson (hbindings d hd)
    exact ⟨haccepts, DocumentKind.parseAll_map_encode haccepts fun d _ => d.ofJson_toJson⟩
  case single =>
    intro d hbindings
    have hread : DocumentKind.declaration.parse d.toJson = pure d :=
      DocumentKind.parse_encode (Declaration.accepts_toJson hbindings) d.ofJson_toJson
    have hobject : ∀ items, d.toJson ≠ .array items := by simp [Declaration.toJson]
    rw [DocumentKind.parseAll_of_not_array hobject, hread, map_pure]
  case member =>
    intro m hbindings
    have haccepts : Schema.Root.member.violations m.toJson = [] := Member.accepts_toJson hbindings
    exact ⟨haccepts, DocumentKind.parse_encode haccepts m.ofJson_toJson⟩

/-- A model with a property of an optional type. -/
def bookmark : Declaration where
  kind := .class
  name := "Bookmark"
  attributes := [⟨"Model", none⟩]
  members :=
    [.field ⟨[], .var, [⟨.identifier "note", some (.optional (.named "String")), none⟩]⟩,
      .initializer ⟨[], [], "", some "throws", "\x7b\x7d"⟩, .other "function" ""]

theorem bookmark_read_back :
    bookmark.HasBindings ∧
      DocumentKind.declaration.parseAll (.array [bookmark.toJson]) = pure [bookmark] := by
  have hbindings : bookmark.HasBindings := by
    intro m hm
    simp only [bookmark, List.mem_cons, List.not_mem_nil, or_false] at hm
    obtain rfl | rfl | rfl := hm
    · exact List.cons_ne_nil _ _
    · trivial
    · trivial
  exact ⟨hbindings, (encodings_read_back.1 [bookmark] (by simpa using hbindings)).2⟩

end ModelPreview
