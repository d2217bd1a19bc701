import ModelPreview.Proofs.Expansion.Supported

/-!
# Attributes of a declaration

Attributes matter to an expansion as marks only: whether the declaration is a model, and which of
its properties are relationships. Two declarations that differ in nothing but their attributes and
carry the same marks are read step by step alike, so they are logged alike and expand to the same.
The one place where attributes are quoted is the refusal of a property declaration without bindings,
which has no name to be told by. There the two readings stop at the same member, and their errors
differ in the quotation at most.
-/

namespace ModelPreview

/-- Members that differ in attributes only, where both or neither is marked as a relationship. -/
inductive Member.SameMarks (o : Options) : Member → Member → Prop
  | field (f : Field) (attributes : List Attribute)
      (relationship : (∃ a ∈ f.attributes, a.name ∈ o.relationshipAttributes) ↔
        ∃ a ∈ attributes, a.name ∈ o.relationshipAttributes) :
      SameMarks o (.field f) (.field { f with attributes })
  | initializer (i : Initializer) : SameMarks o (.initializer i) (.initializer i)
  | other (kind source : String) : SameMarks o (.other kind source) (.other kind source)

/-- Declarations that differ in attributes only, their own or those of their properties, and that
carry the same marks. -/
structure Declaration.SameMarks (o : Options) (d d' : Declaration) : Prop where
  kind : d.kind = d'.kind
  name : d.name = d'.name
  model : (∃ a ∈ d.attributes, a.name = o.modelAttribute) ↔
    ∃ a ∈ d'.attributes, a.name = o.modelAttribute
  members : List.Forall₂ (Member.SameMarks o) d.members d'.members

/-- Reading stops at the member at `n`, the property declaration `f` without bindings: the members
in front of it are plain property declarations. -/
structure Member.StopsAtUnbound (members : List Member) (n : Nat) (f : Field) : Prop where
  member : members[n]? = some (.field f)
  unbound : f.bindings = []
  before : ∀ member ∈ members.take n, ∃ g, member = .field g ∧ g.IsPlain

theorem Member.StopsAtUnbound.cons {members : List Member} {n : Nat} {f g : Field}
    (hg : g.IsPlain) (h : StopsAtUnbound members n f) :
    StopsAtUnbound (.field g :: members) (n + 1) f where
  member := h.member
  unbound := h.unbound
  before := by
    intro member hmember
    rcases List.mem_cons.mp hmember with rfl | hrest
    · exact ⟨g, rfl, hg⟩
    · exact h.before member hrest

/-- Computations that agree but for the error of an unbound property declaration, the one of the
first at the member `f` of `members` and the one of the second at the same place of `members'`. -/
def Traced.AgreeUpToQuotation {α : Type} (members members' : List Member)
    (x x' : Traced ExpansionError α) : Prop :=
  x = x' ∨ ∃ n f f' events, Member.StopsAtUnbound members n f ∧
    Member.StopsAtUnbound members' n f' ∧ x = ⟨events, .error (.fieldTooComplex f.head)⟩ ∧
    x' = ⟨events, .error (.fieldTooComplex f'.head)⟩

/-- What follows a computation changes nothing about an error. -/
theorem Traced.AgreeUpToQuotation.bind {α β : Type} {members members' : List Member}
    {x x' : Traced ExpansionError α} (h : AgreeUpToQuotation members members' x x')
    (f : α → Traced ExpansionError β) :
    AgreeUpToQuotation members members' (x >>= f) (x' >>= f) := by
  rcases h with rfl | ⟨n, g, g', events, hstops, hstops', rfl, rfl⟩
  · exact .inl rfl
  · exact .inr ⟨n, g, g', events, hstops, hstops', rfl, rfl⟩

/-- What agrees behind a property declaration agrees with it in front, if it is read alike. -/
theorem Traced.AgreeUpToQuotation.behindField {α β : Type} {members members' : List Member}
    {f g : Field} {read : Traced ExpansionError α} {rest rest' : α → Traced ExpansionError β}
    (hplain : ∀ a, read.result = .ok a → f.IsPlain ∧ g.IsPlain)
    (h : ∀ a, AgreeUpToQuotation members members' (rest a) (rest' a)) :
    AgreeUpToQuotation (.field f :: members) (.field g :: members') (read >>= rest)
      (read >>= rest') := by
  cases hread : read.result with
  | error e => exact .inl (by rw [bind_error hread, bind_error hread])
  | ok a =>
      obtain ⟨hf, hg⟩ := hplain a hread
      rw [bind_ok hread, bind_ok hread]
      rcases h a with hsame | ⟨n, f', g', events, hstops, hstops', hleft, hright⟩
      · exact .inl (by rw [hsame])
      · refine .inr ⟨n + 1, f', g', read.events ++ events, hstops.cons hf, hstops'.cons hg, ?_, ?_⟩
        · rw [hleft]
        · rw [hright]

namespace ModelClass

variable {o : Options} {model : String}

theorem isRelationship_withAttributes {f : Field} {attributes : List Attribute}
    (h : (∃ a ∈ f.attributes, a.name ∈ o.relationshipAttributes) ↔
      ∃ a ∈ attributes, a.name ∈ o.relationshipAttributes) :
    isRelationship o { f with attributes } = isRelationship o f := by
  rw [Bool.eq_iff_iff, isRelationship_iff, isRelationship_iff]
  exact h.symm

/-- A property declaration with bindings is read alike with other attributes. -/
theorem readField_withAttributes {f : Field} {attributes : List Attribute}
    (h : (∃ a ∈ f.attributes, a.name ∈ o.relationshipAttributes) ↔
      ∃ a ∈ attributes, a.name ∈ o.relationshipAttributes) (hbound : f.bindings ≠ []) :
    readField o model { f with attributes } = readField o model f := by
  have hbound' : ({ f with attributes } : Field).bindings ≠ [] := hbound
  rw [readField, readField, Field.boundNames_of_ne_nil hbound,
    Field.boundNames_of_ne_nil hbound', isRelationship_withAttributes h]

/-- A property declaration that is read without an error is plain. -/
theorem isPlain_of_result_readField {f : Field} {fields : List ModelField}
    (h : (readField o model f).result = .ok fields) : f.IsPlain := by
  have herror : (readField o model f).error? = f.fault? := error?_readField f
  rw [← Field.fault?_eq_none_iff, ← herror, Traced.error?_eq_none_iff]
  exact ⟨fields, h⟩

/-- Reading stops at a property declaration without bindings, before anything is logged. -/
theorem readMembers_of_unbound {f : Field} (h : f.bindings = []) (index : Nat)
    (rest : List Member) :
    readMembers o model index (.field f :: rest) = ⟨[], .error (.fieldTooComplex f.head)⟩ := by
  rw [readMembers, readField, Field.boundNames_of_eq_nil h]
  rfl

theorem checkEnd_eq_of_sameMarks {members members' : List Member}
    (h : List.Forall₂ (Member.SameMarks o) members members') :
    checkEnd members = checkEnd members' := by
  cases h with
  | nil => rfl
  | cons hfirst _ => cases hfirst <;> rfl

/-- Members with the same marks are read alike up to the first property declaration without
bindings. -/
theorem readMembers_agree {members members' : List Member}
    (h : List.Forall₂ (Member.SameMarks o) members members') (index : Nat) :
    Traced.AgreeUpToQuotation members members' (readMembers o model index members)
      (readMembers o model index members') := by
  induction h generalizing index with
  | nil => exact .inl rfl
  | @cons _ _ rest rest' hfirst hrest ih =>
      cases hfirst with
      | initializer i =>
          apply Or.inl
          rw [readMembers, readMembers, checkEnd_eq_of_sameMarks hrest]
      | other kind source => exact .inl rfl
      | field f attributes hmarks =>
          by_cases hbound : f.bindings = []
          · exact .inr ⟨0, f, { f with attributes }, [], ⟨rfl, hbound, by simp⟩,
              ⟨rfl, hbound, by simp⟩, readMembers_of_unbound hbound index rest,
              readMembers_of_unbound (f := { f with attributes }) hbound index rest'⟩
          · rw [readMembers, readMembers, readField_withAttributes hmarks hbound]
            apply Traced.AgreeUpToQuotation.behindField
            · intro own hread
              have hplain : f.IsPlain := isPlain_of_result_readField hread
              exact ⟨hplain, hplain.bound, hplain.bindings⟩
            · intro own
              exact (ih (index + 1)).bind _

end ModelClass

namespace Declaration

variable {o : Options} {d d' : Declaration}

theorem SameMarks.isMarked_eq (h : d.SameMarks o d') :
    ModelClass.isMarked o d = ModelClass.isMarked o d' := by
  rw [Bool.eq_iff_iff, ModelClass.isMarked_iff, ModelClass.isMarked_iff, h.kind, h.model]

theorem SameMarks.expand_agree (h : d.SameMarks o d') :
    Traced.AgreeUpToQuotation d.members d'.members (d.expand o) (d'.expand o) := by
  apply Traced.AgreeUpToQuotation.bind
  unfold ModelClass.ofDeclaration
  rw [h.isMarked_eq, h.name]
  split
  · exact (ModelClass.readMembers_agree h.members 0).bind _
  · exact .inl rfl

/-- Declarations that differ in attributes only and carry the same marks expand alike, with the same
log. Where a property declaration has no bindings, their errors may instead be those of one such
declaration, each with its own attributes quoted. -/
theorem expand_sameMarks (h : d.SameMarks o d') :
    ((∀ f, .field f ∈ d.members → f.bindings ≠ []) → d.expand o = d'.expand o) ∧
      Traced.AgreeUpToQuotation d.members d'.members (d.expand o) (d'.expand o) := by
  refine ⟨fun hbound => ?_, h.expand_agree⟩
  rcases h.expand_agree with hsame | ⟨n, f, -, -, hstops, -, -, -⟩
  · exact hsame
  · exact absurd hstops.unbound (hbound f (List.mem_of_getElem? hstops.member))

/-- A model with one property declaration, given its bindings. -/
def reminder (bindings : List Binding) : Declaration where
  kind := .class
  name := "Reminder"
  attributes := [⟨"Model", none⟩]
  members :=
    [.field ⟨[⟨"Relationship", none⟩], .var, bindings⟩,
      .initializer ⟨[], [], "", none, "\x7b\x7d"⟩]

/-- The same model with other arguments, another relationship attribute and further attributes. -/
def annotatedReminder (bindings : List Binding) : Declaration where
  kind := .class
  name := "Reminder"
  attributes := [⟨"Observable", none⟩, ⟨"Model", some "\"v2\""⟩]
  members :=
    [.field ⟨[⟨"InverseRelationship", some "deleteRule: .cascade"⟩, ⟨"Transient", none⟩], .var,
        bindings⟩,
      .initializer ⟨[], [], "", none, "\x7b\x7d"⟩]

theorem reminder_sameMarks (bindings : List Binding) :
    (reminder bindings).SameMarks .default (annotatedReminder bindings) := by
  constructor
  case kind => rfl
  case name => rfl
  case model => simp [reminder, annotatedReminder, Options.default]
  case members =>
    refine .cons (.field _ _ ?_) (.cons (.initializer _) .nil)
    simp [Options.default]

/-- With a binding the two models expand to the same. Without any they agree as well, but only up to
the attributes that their errors quote. -/
theorem reminder_expands_alike :
    (∃ e, ((reminder [⟨.identifier "owner", some (.named "User"), none⟩]).expand .default).result =
        .ok e ∧
      ((annotatedReminder [⟨.identifier "owner", some (.named "User"), none⟩]).expand
        .default).result = .ok e) ∧
    Traced.AgreeUpToQuotation (reminder []).members (annotatedReminder []).members
      ((reminder []).expand .default) ((annotatedReminder []).expand .default) ∧
    ((reminder []).expand .default).result = .error (.fieldTooComplex "@Relationship var") ∧
    ((annotatedReminder []).expand .default).result = .error
      (.fieldTooComplex "@InverseRelationship(deleteRule: .cascade) @Transient var") := by
  have hsame : (reminder [⟨.identifier "owner", some (.named "User"), none⟩]).expand .default =
      (annotatedReminder [⟨.identifier "owner", some (.named "User"), none⟩]).expand .default :=
    (expand_sameMarks (reminder_sameMarks _)).1 (by simp [reminder])
  refine ⟨?_, (expand_sameMarks (reminder_sameMarks [])).2, rfl, rfl⟩
  rw [← hsame]
  exact ⟨_, rfl, rfl⟩

end Declaration

end ModelPreview
