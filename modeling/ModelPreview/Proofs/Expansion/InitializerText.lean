import ModelPreview.Proofs.Expansion.Contents

/-!
# The text of initializers

The text of an initializer is a fixed text with gaps for the names of relationship targets: one gap
for each parameter whose type is a target under optionals and arrays, at the place of the name in
that type. The initializers of the variants fill the gaps with the names of the variants and share
everything between the gaps with the source.
-/

namespace ModelPreview

/-- A text with names cut out of it: `s₀ n₁ s₁ … nₘ sₘ`. -/
inductive GappedText where
  /-- What is left when no name follows. -/
  | text (s : String)
  /-- What stands before the first name, that name, and what follows it. -/
  | gap (before name : String) (rest : GappedText)

namespace GappedText

/-- The names in the gaps, in order. -/
def names : GappedText → List String
  | text _ => []
  | gap _ name rest => name :: rest.names

/-- The text with each gap filled by what stands for its name. -/
def fill (f : String → String) : GappedText → String
  | text s => s
  | gap before name rest => before ++ f name ++ rest.fill f

/-- A text in front of another. -/
def prepend (s : String) : GappedText → GappedText
  | text t => text (s ++ t)
  | gap before name rest => gap (s ++ before) name rest

/-- Two texts in a row, without a gap between them. -/
def append : GappedText → GappedText → GappedText
  | text s, h => h.prepend s
  | gap before name rest, h => gap before name (rest.append h)

@[simp] theorem names_prepend (s : String) (g : GappedText) : (g.prepend s).names = g.names := by
  cases g <;> rfl

@[simp] theorem fill_prepend (f : String → String) (s : String) (g : GappedText) :
    (g.prepend s).fill f = s ++ g.fill f := by
  cases g <;> simp [prepend, fill, String.append_assoc]

@[simp] theorem names_append (g h : GappedText) : (g.append h).names = g.names ++ h.names := by
  induction g with
  | text s => exact names_prepend s h
  | gap before name rest ih => simp [append, names, ih]

@[simp] theorem fill_append (f : String → String) (g h : GappedText) :
    (g.append h).fill f = g.fill f ++ h.fill f := by
  induction g with
  | text s => exact fill_prepend f s h
  | gap before name rest ih => simp [append, fill, ih, String.append_assoc]

/-- Without gaps there is nothing to fill in. -/
theorem fill_of_names_eq_nil {g : GappedText} (h : g.names = []) (f : String → String) :
    g.fill f = g.fill id := by
  cases g with
  | text s => rfl
  | gap before name rest => cases h

end GappedText

namespace Parameter

/-- What a parameter has in front of its type. -/
def beforeType (p : Parameter) : String :=
  p.leadingTrivia ++ p.firstName ++ optionalPart " " p.secondName ++ ": "

/-- What a parameter has behind its type. -/
def behindType (p : Parameter) : String :=
  optionalPart " = " p.defaultValue ++ (if p.trailingComma then "," else "")

theorem text_eq (p : Parameter) : p.text = p.beforeType ++ p.type.text ++ p.behindType := by
  simp only [text, beforeType, behindType, String.append_assoc]

variable (associated : List String)

/-- The associated type that a parameter's type is built around, if there is one. -/
def target? (p : Parameter) : Option WrappedName :=
  match p.type.unwrap with
  | .ok w => if w.name ∈ associated then some w else none
  | .error _ => none

/-- The text of a parameter with a gap for its target. -/
def gapped (p : Parameter) : GappedText :=
  match p.target? associated with
  | some w => .gap (p.beforeType ++ w.before) w.name (.text (w.behind ++ p.behindType))
  | none => .text p.text

variable {associated}

theorem target?_eq_some_iff {p : Parameter} {w : WrappedName} :
    p.target? associated = some w ↔ p.type.unwrap = .ok w ∧ w.name ∈ associated := by
  unfold target?
  cases p.type.unwrap with
  | error e => simp
  | ok w' =>
      by_cases h : w'.name ∈ associated
      · simp only [h, if_true, Option.some.injEq, Except.ok.injEq]
        exact ⟨fun e => ⟨e, e ▸ h⟩, And.left⟩
      · simp only [h, if_false, Except.ok.injEq]
        exact ⟨nofun, fun ⟨e, h'⟩ => absurd (e ▸ h') h⟩

/-- Filling the gap of a parameter retargets it. -/
theorem fill_gapped {targets : TargetNames} (rename : String → String) (p : Parameter) :
    (p.gapped targets.names).fill rename = (p.retargeted targets rename).text := by
  unfold gapped
  split
  · next w hw =>
      obtain ⟨hunwrap, hmem⟩ := target?_eq_some_iff.mp hw
      rw [retargeted_of_mem rename hunwrap hmem, text_eq, WrappedName.text_typeWith]
      simp only [GappedText.fill, WrappedName.textWith, beforeType, behindType, String.append_assoc]
  · next hnone =>
      rw [retargeted_of_not_mem rename fun w hunwrap hmem => ?_]
      · rfl
      · rw [target?_eq_some_iff.mpr ⟨hunwrap, hmem⟩] at hnone
        cases hnone

theorem retargeted_id {targets : TargetNames} (p : Parameter) : p.retargeted targets id = p := by
  unfold retargeted TypeExpr.retargeted
  split
  · next w hunwrap =>
      rw [id, TypeExpr.unwrap_eq_ok_iff.mp hunwrap, ite_self]
  · rfl

/-- The name of a parameter's target. -/
def targetName? (associated : List String) (p : Parameter) : Option String :=
  (p.target? associated).map WrappedName.name

/-- The targets of parameters are the associated types with nothing but optionals and arrays around
them. -/
theorem targetName?_eq_some_iff {p : Parameter} {name : String} :
    p.targetName? associated = some name ↔ p.type.Wraps name ∧ name ∈ associated := by
  simp only [targetName?, Option.map_eq_some_iff, target?_eq_some_iff, TypeExpr.wraps_iff]
  constructor
  · rintro ⟨w, ⟨hunwrap, hmem⟩, rfl⟩
    exact ⟨⟨w, hunwrap, rfl⟩, hmem⟩
  · rintro ⟨⟨w, hunwrap, rfl⟩, hmem⟩
    exact ⟨w, ⟨hunwrap, hmem⟩, rfl⟩

theorem names_gapped (p : Parameter) :
    (p.gapped associated).names = (p.targetName? associated).toList := by
  unfold gapped targetName?
  cases p.target? associated <;> rfl

end Parameter

namespace Initializer

/-- What an initializer has in front of its parameters. -/
def beforeParameters (i : Initializer) : String :=
  String.join (i.modifiers.map (· ++ " ")) ++ "init("

/-- What an initializer has behind its parameters. -/
def behindParameters (i : Initializer) : String :=
  i.closingTrivia ++ ")" ++ optionalPart " " i.effects ++ " " ++ i.body

theorem text_eq (i : Initializer) :
    i.text = i.beforeParameters ++ String.join (i.parameters.map Parameter.text) ++
      i.behindParameters := by
  simp only [text, beforeParameters, behindParameters, String.append_assoc]

/-- The text of an initializer with a gap for the target of each parameter that has one. -/
def gapped (associated : List String) (i : Initializer) : GappedText :=
  ((i.parameters.map (Parameter.gapped associated)).foldr GappedText.append
    (.text i.behindParameters)).prepend i.beforeParameters

theorem names_gapped (associated : List String) (i : Initializer) :
    (i.gapped associated).names =
      i.parameters.filterMap (Parameter.targetName? associated) := by
  rw [gapped, GappedText.names_prepend]
  induction i.parameters with
  | nil => rfl
  | cons p rest ih =>
      rw [List.map_cons, List.foldr_cons, GappedText.names_append, Parameter.names_gapped, ih,
        List.filterMap_cons]
      cases p.targetName? associated <;> rfl

/-- Filling the gaps of an initializer retargets it. -/
theorem fill_gapped {targets : TargetNames} (rename : String → String) (i : Initializer) :
    (i.gapped targets.names).fill rename = (i.retargeted targets rename).text := by
  have hparameters : ∀ ps : List Parameter,
      ((ps.map (Parameter.gapped targets.names)).foldr GappedText.append
        (.text i.behindParameters)).fill rename =
      String.join ((ps.map (Parameter.retargeted targets rename)).map Parameter.text) ++
        i.behindParameters := by
    intro ps
    induction ps with
    | nil => simp [GappedText.fill]
    | cons p rest ih => simp [Parameter.fill_gapped, ih, String.append_assoc]
  rw [gapped, GappedText.fill_prepend, hparameters, text_eq, String.append_assoc]
  rfl

theorem fill_gapped_id {targets : TargetNames} (i : Initializer) :
    (i.gapped targets.names).fill id = i.text := by
  rw [fill_gapped, retargeted, List.map_congr_left fun p _ => p.retargeted_id, List.map_id']

end Initializer

namespace Generated.Declaration

theorem exists_linesAfter_concat (indent : String) (previous : Group) (ms : List Member)
    (m : Member) :
    ∃ head, linesAfter indent previous (ms ++ [m]) = head ++ memberLine indent m := by
  induction ms generalizing previous with
  | nil => exact ⟨_, by rw [List.nil_append, linesAfter, linesAfter, String.append_empty]⟩
  | cons first rest ih =>
      obtain ⟨head, hhead⟩ := ih first.group
      exact ⟨_, by rw [List.cons_append, linesAfter, hhead, ← String.append_assoc]⟩

/-- The text of a declaration ends in the line of its last member. -/
theorem exists_text_eq {g : Declaration} {ms : List Member} {m : Member}
    (h : g.members = ms ++ [m]) (indent : String) :
    ∃ head, g.text indent = head ++ indent ++ m.text ++ "\n\x7d" := by
  have hlines : ∃ head, memberLines indent (ms ++ [m]) = head ++ memberLine indent m := by
    cases ms with
    | nil => exact ⟨"", by simp [memberLines, linesAfter]⟩
    | cons first rest =>
        obtain ⟨head, hhead⟩ := exists_linesAfter_concat indent first.group rest m
        exact ⟨_, by rw [List.cons_append, memberLines, hhead, ← String.append_assoc]⟩
  obtain ⟨head, hhead⟩ := hlines
  have hclosing : "\n" ++ "\x7d" = "\n\x7d" := rfl
  refine ⟨g.header ++ " \x7b\n" ++ head, ?_⟩
  rw [text, h, if_neg (by simp), hhead, memberLine, ← hclosing]
  simp only [String.append_assoc]

end Generated.Declaration

namespace Declaration

/-- The variants of an expansion keep the text of the initializer, but for the names of associated
types at the core of parameter types. -/
structure RetypesTargetsOnly (o : Options) (d : Declaration) (e : Expansion) (i : Initializer)
    (associated : List String) : Prop where
  declared : .initializer i ∈ d.members
  protocol : ∃ g, e.inRole o .protocol = some g ∧ g.associatedNames = associated
  /-- The parameters with a target are those whose type is built around an associated type. -/
  targets : ∀ p ∈ i.parameters, ∀ name,
    p.targetName? associated = some name ↔ p.type.Wraps name ∧ name ∈ associated
  /-- There is one gap for each of these parameters, in order. -/
  names : (i.gapped associated).names = i.parameters.filterMap (Parameter.targetName? associated)
  /-- With the names themselves in the gaps it is the text of the source. -/
  text : (i.gapped associated).fill id = i.text
  /-- With the names of variants in the gaps it is what ends the text of a variant. -/
  variants : ∀ v ∈ o.variants, ∃ g head, e.inRole o (.variant v) = some g ∧
    g.text o.indent =
      head ++ o.indent ++ (i.gapped associated).fill (o.naming.variantName v) ++ "\n\x7d"
  /-- Without relationships the text of the source is in each variant as it is. -/
  verbatim : (∀ f, .field f ∈ d.members → ¬ ModelClass.isRelationship o f) →
    ∀ v ∈ o.variants, ∃ g head, e.inRole o (.variant v) = some g ∧
      g.text o.indent = head ++ o.indent ++ i.text ++ "\n\x7d"

/-- A model without relationships has no targets. -/
theorem names_targets_eq_nil {o : Options} {d : Declaration} {rs : List ResolvedField}
    (hread : List.Forall₂ (ResolvedField.IsReadFrom o) d.properties rs)
    (hplain : ∀ f, .field f ∈ d.members → ¬ ModelClass.isRelationship o f) :
    (ResolvedField.targets rs).names = [] := by
  rw [List.eq_nil_iff_forall_not_mem]
  intro name hname
  obtain ⟨source, hsource, hrelationship, -⟩ :=
    ResolvedField.exists_source_of_mem_targets hread hname
  exact hplain source.1 (mem_properties_iff.mp hsource).1 hrelationship

/-- Nothing but the names of targets changes in the initializers of an expansion. -/
theorem exists_retypesTargetsOnly {o : Options} {d : Declaration} {e : Expansion}
    (h : (d.expand o).result = .ok e) :
    ∃ i associated, d.RetypesTargetsOnly o e i associated := by
  obtain ⟨m, rs, rfl, -, ⟨declared, hmembers⟩, hread⟩ := exists_of_result_expand h
  have hvariants : ∀ v ∈ o.variants, ∃ g head,
      (m.expansion o rs).inRole o (.variant v) = some g ∧ g.text o.indent = head ++ o.indent ++
        (m.initializer.gapped (ResolvedField.targets rs).names).fill (o.naming.variantName v) ++
          "\n\x7d" := by
    intro v hv
    obtain ⟨head, hhead⟩ :=
      Generated.Declaration.exists_text_eq (ModelClass.members_generated_variant v) o.indent
    refine ⟨_, head, ModelClass.inRole_expansion (Options.variant_mem_roles.mpr hv), ?_⟩
    rw [hhead, Initializer.fill_gapped]
    rfl
  refine ⟨m.initializer, (ResolvedField.targets rs).names, by simp [hmembers],
    ⟨_, ModelClass.inRole_expansion o.protocol_mem_roles,
      ModelClass.associatedNames_generated_protocol⟩,
    fun p _ name => Parameter.targetName?_eq_some_iff, Initializer.names_gapped _ _,
    Initializer.fill_gapped_id _, hvariants, ?_⟩
  intro hplain v hv
  obtain ⟨g, head, hg, hhead⟩ := hvariants v hv
  have hnames : (m.initializer.gapped (ResolvedField.targets rs).names).names = [] := by
    rw [Initializer.names_gapped, names_targets_eq_nil hread hplain, List.filterMap_eq_nil_iff]
    intro p _
    simp [Option.eq_none_iff_forall_ne_some, Parameter.targetName?_eq_some_iff]
  refine ⟨g, head, hg, ?_⟩
  rw [hhead, GappedText.fill_of_names_eq_nil hnames, Initializer.fill_gapped_id]

/-- A model whose initializer uses the name of a target as a label, in a default value, under other
wrappers than the relationship, and in a type that is left as it is. -/
def logbook : Declaration where
  kind := .class
  name := "Logbook"
  attributes := [⟨"Model", none⟩]
  members :=
    [.field ⟨[⟨"Relationship", none⟩], .var,
        [⟨.identifier "entries", some (.optional (.array (.named "Entry"))), none⟩]⟩,
      .initializer
        ⟨["public"],
          [⟨"", "Entry", some "first", .optional (.named "Entry"), some "Entry()", true⟩,
            ⟨" ", "pages", none, .array (.array (.named "Entry")), none, true⟩,
            ⟨" ", "byDay", none, .dictionary (.named "Day") (.named "Entry"), none, false⟩],
          "", some "throws", "\x7b\x7d"⟩]

/-- The two types that the target is at the core of point to its preview. -/
theorem logbook_retypesTargetsOnly :
    ∃ e i associated, (logbook.expand .default).result = .ok e ∧
      logbook.RetypesTargetsOnly .default e i associated ∧
      ∃ g head, e.inRole .default (.variant .preview) = some g ∧
        g.text "  " = head ++ "  " ++
          ("public init(Entry first: PreviewEntry? = Entry(), pages: [[PreviewEntry]], " ++
            "byDay: [Day: Entry]) throws \x7b\x7d") ++ "\n\x7d" := by
  obtain ⟨e, he⟩ : ∃ e, (logbook.expand .default).result = .ok e := ⟨_, rfl⟩
  obtain ⟨i, associated, h⟩ := exists_retypesTargetsOnly he
  refine ⟨e, i, associated, he, h, ?_⟩
  obtain ⟨g, head, hg, htext⟩ := h.variants .preview (by decide)
  refine ⟨g, head, hg, htext.trans ?_⟩
  obtain ⟨protocol, hprotocol, rfl⟩ := h.protocol
  have hdeclared := h.declared
  cases he
  cases hprotocol
  obtain rfl : i = _ := by simpa [logbook] using hdeclared
  rfl

end Declaration

end ModelPreview
