import ModelPreview.Proofs.Expansion.Warnings
import ModelPreview.Proofs.ModelClass.Log

/-!
# The log of an expansion

What is logged while a declaration is expanded agrees with what comes of it. First the bindings are
logged that are read as properties, up to where reading stops. If the expansion fails, that is all.
If it succeeds, each variant logs the parameters that it retargets, the first variant is followed by
one entry for each warning, and the last entry of all counts what the expansion consists of.
-/

namespace ModelPreview

namespace Event

/-- A binding was read as a property. -/
def isFieldClassified : Event → Bool
  | .fieldClassified .. => true
  | _ => false

/-- The type of a parameter was replaced. -/
def isParameterRewritten : Event → Bool
  | .parameterRewritten .. => true
  | _ => false

/-- The type of a parameter was replaced, or it was left as it is. -/
def isRetargeting : Event → Bool
  | .parameterRewritten .. | .parameterLeft .. => true
  | _ => false

end Event

section Retargeting

variable (targets : TargetNames) (rename : String → String)

/-- Whether the type of a parameter is one of the given names under optionals and arrays. -/
def Parameter.pointsTo (names : List String) (p : Parameter) : Bool :=
  match p.type.unwrap with
  | .ok w => names.contains w.name
  | .error _ => false

/-- What is logged about a parameter. -/
def Parameter.logged? (p : Parameter) : Option Event :=
  match p.type.unwrap with
  | .ok w =>
    if w.name ∈ targets.names then
      some (.parameterRewritten p.firstName p.type.text (w.typeWith (rename w.name)).text)
    else none
  | .error _ =>
    if p.type.mentionsAny targets then none else some (.parameterLeft p.firstName p.type.text)

/-- The event that a parameter became another. -/
def Parameter.rewritten (change : Parameter × Parameter) : Event :=
  .parameterRewritten change.1.firstName change.1.type.text change.2.type.text

variable {targets rename}

theorem Parameter.isRetargeting_of_logged? {p : Parameter} {event : Event}
    (h : p.logged? targets rename = some event) : event.isRetargeting := by
  unfold logged? at h
  split at h <;> split at h <;> cases h <;> rfl

theorem Initializer.events_retargetFrom {ε : Type} (start : Nat) (ps : List Parameter) :
    (retargetFrom targets rename start ps : Traced ε _).events =
      ps.filterMap (Parameter.logged? targets rename) := by
  induction ps generalizing start with
  | nil => rfl
  | cons p rest ih =>
      rw [retargetFrom, List.filterMap_cons, Parameter.logged?]
      cases hunwrap : p.type.unwrap with
      | ok w =>
          rw [TypeExpr.retarget_eq_ok hunwrap]
          by_cases hw : w.name ∈ targets.names
          · simp only [hw, if_true, Traced.events_emit_bind, Traced.events_bind_pure, ih]
          · simp only [hw, if_false, Traced.events_bind_pure, ih]
      | error reason =>
          rw [TypeExpr.retarget_eq_error hunwrap]
          by_cases hm : p.type.mentionsAny targets
          · simp only [hm, if_true, Traced.events_bind_pure, ih]
          · simp only [hm, Bool.false_eq_true, if_false, Traced.events_emit_bind,
              Traced.events_bind_pure, ih]

theorem Initializer.events_retarget {ε : Type} (i : Initializer) :
    (i.retarget targets rename : Traced ε Retargeted).events =
      if targets.isEmpty then [] else i.parameters.filterMap (Parameter.logged? targets rename) := by
  unfold retarget
  split
  · rfl
  · rw [Traced.events_bind_pure, events_retargetFrom]

/-- Just the parameters that point to a target are logged as rewritten, each with its old and its
new type. -/
theorem Parameter.filter_isParameterRewritten (ps : List Parameter) :
    (ps.filterMap (logged? targets rename)).filter Event.isParameterRewritten =
      ((ps.zip (ps.map (retargeted targets rename))).filter (·.1.pointsTo targets.names)).map
        rewritten := by
  induction ps with
  | nil => rfl
  | cons p rest ih =>
      rw [List.filterMap_cons, List.map_cons, List.zip_cons_cons, List.filter_cons, logged?]
      cases hunwrap : p.type.unwrap with
      | ok w =>
          by_cases hw : w.name ∈ targets.names
          · have hpoints : p.pointsTo targets.names := by simp [pointsTo, hunwrap, hw]
            simp only [hw, hpoints, if_true, List.filter_cons, Event.isParameterRewritten, ih,
              List.map_cons, rewritten, retargeted_of_mem rename hunwrap hw]
          · have hpoints : p.pointsTo targets.names = false := by simp [pointsTo, hunwrap, hw]
            simp only [hw, hpoints, Bool.false_eq_true, if_false, ih]
      | error reason =>
          have hpoints : p.pointsTo targets.names = false := by simp [pointsTo, hunwrap]
          by_cases hm : p.type.mentionsAny targets
          · simp only [hm, hpoints, Bool.false_eq_true, if_true, if_false, ih]
          · simp only [hm, hpoints, Bool.false_eq_true, if_false, List.filter_cons,
              Event.isParameterRewritten, ih]

end Retargeting

namespace Declaration

/-- The log of a variant: its entries are about retargeting, and the parameters that point to an
associated type are logged as rewritten, in order and once each, with the type that they have in
the variant's initializer. -/
structure LogsVariant (o : Options) (e : Expansion) (i : Initializer) (associated : List String)
    (v : Variant) (log : List Event) : Prop where
  retargeting : ∀ event ∈ log, event.isRetargeting
  rewritten : ∃ g i', e.inRole o (.variant v) = some g ∧ g.initializers = [i'] ∧
    log.filter Event.isParameterRewritten =
      ((i.parameters.zip i'.parameters).filter (·.1.pointsTo associated)).map Parameter.rewritten

end Declaration

namespace ModelClass

variable {o : Options} {m : ModelClass} {rs : List ResolvedField}

/-- What a variant logs while the initializer is retargeted. -/
def variantLog (naming : Naming) (m : ModelClass) (targets : TargetNames) (v : Variant) :
    List Event :=
  (m.initializer.retarget targets (naming.variantName v) : Traced ExpansionError _).events

theorem logsVariant {v : Variant} (hv : v ∈ o.variants) :
    Declaration.LogsVariant o (m.expansion o rs) m.initializer (ResolvedField.targets rs).names v
      (m.variantLog o.naming (ResolvedField.targets rs) v) := by
  rw [variantLog, Initializer.events_retarget]
  refine ⟨?retargeting, _, _, inRole_expansion (Options.variant_mem_roles.mpr hv),
    initializers_generated_variant v, ?rewritten⟩
  case retargeting =>
    split
    · exact nofun
    · intro event hevent
      obtain ⟨p, -, hp⟩ := List.mem_filterMap.mp hevent
      exact Parameter.isRetargeting_of_logged? hp
  case rewritten =>
    split
    · next hempty =>
      have hnames : (ResolvedField.targets rs).names = [] := List.isEmpty_iff.mp hempty
      have hnone (p : Parameter) : p.pointsTo [] = false := by
        unfold Parameter.pointsTo
        split <;> rfl
      simp [hnames, hnone]
    · exact Parameter.filter_isParameterRewritten m.initializer.parameters

theorem events_variantInitializers (naming : Naming) (targets : TargetNames) (vs : List Variant) :
    (m.variantInitializers naming targets vs).events =
      vs.flatMap (m.variantLog naming targets) := by
  induction vs with
  | nil => rfl
  | cons v rest ih =>
      rw [variantInitializers, Traced.events_bind_of_ok (Initializer.result_retarget _),
        Traced.events_bind_pure, ih]
      rfl

/-- The skipped parameters are logged behind the log of the first variant. -/
theorem events_initializers (naming : Naming) (targets : TargetNames) (v : Variant)
    (rest : List Variant) :
    (m.initializers naming targets (v :: rest)).events =
      m.variantLog naming targets v ++ (m.initializer.skipped targets).map m.skippedEvent ++
        rest.flatMap (m.variantLog naming targets) := by
  rw [initializers, Traced.events_bind_of_ok (Initializer.result_retarget _),
    Traced.events_bind_of_ok (Traced.result_emitAll _), Traced.events_bind_pure,
    events_variantInitializers, List.append_assoc]
  rfl

/-- The log of the variants, with the skipped parameters behind the first of them, and at the end
the count of what the expansion consists of. -/
theorem events_expand (h : ResolvedField.ofFields m.fields = .ok rs) :
    ∃ first others, o.variants = first :: others ∧ (m.expand o).events =
      m.variantLog o.naming (ResolvedField.targets rs) first ++
        (m.initializer.skipped (ResolvedField.targets rs)).map m.skippedEvent ++
        others.flatMap (m.variantLog o.naming (ResolvedField.targets rs)) ++
        [.declarationExpanded m.name m.fields.length (ResolvedField.targets rs).names.length
          (m.expansion o rs).declarations.length (m.expansion o rs).warnings.length] := by
  obtain ⟨first, others, hvariants⟩ := List.exists_cons_of_ne_nil o.variants_ne_nil
  refine ⟨first, others, hvariants, ?_⟩
  rw [expand, h, Traced.events_lift_ok_bind,
    Traced.events_bind_of_ok (result_initializers o.variants_ne_nil), hvariants,
    events_initializers, Traced.events_emit_bind, Traced.events_pure, ← hvariants]
  congr 3
  simp only [expansion, Options.roles, List.length_append, List.length_map]
  split <;> rfl

/-- Nothing is logged about a model class with a field that has no target. -/
theorem events_expand_of_error {error : ExpansionError}
    (h : ResolvedField.ofFields m.fields = .error error) : (m.expand o).events = [] := by
  rw [expand, h, Traced.events_lift_error_bind]

/-- What is logged about variants and at the end is not about bindings. -/
theorem not_isFieldClassified_of_mem_expand {event : Event} (h : event ∈ (m.expand o).events) :
    ¬ event.isFieldClassified := by
  cases hrs : ResolvedField.ofFields m.fields with
  | error error =>
      rw [events_expand_of_error hrs] at h
      cases h
  | ok rs =>
      have hvariant {v : Variant} (hv : v ∈ o.variants)
          (hevent : event ∈ m.variantLog o.naming (ResolvedField.targets rs) v) :
          ¬ event.isFieldClassified := by
        have hretargeting := (logsVariant hv).retargeting event hevent
        cases event <;> simp_all [Event.isRetargeting, Event.isFieldClassified]
      obtain ⟨first, others, hvariants, hevents⟩ := events_expand (o := o) hrs
      simp only [hevents, List.mem_append, List.mem_map, List.mem_flatMap, List.mem_singleton] at h
      obtain ((hfirst | ⟨s, -, rfl⟩) | ⟨v, hv, hother⟩) | rfl := h
      · exact hvariant (by simp [hvariants]) hfirst
      · exact nofun
      · exact hvariant (by simp [hvariants, hv]) hother
      · exact nofun

end ModelClass

namespace Declaration

/-- The events that tell of bindings read as properties. -/
def classifiedEvents (o : Options) (d : Declaration) : List Event :=
  (d.expand o).events.filter Event.isFieldClassified

/-- The event and the warning that a skipped parameter of the initializer at `position` gives. -/
def SkipLoggedAs (d : Declaration) (i : Initializer) (position : Nat) (event : Event)
    (warning : Diagnostic) : Prop :=
  ∃ s : SkippedParameter, event = .parameterSkipped d.name s.name s.reason ∧
    (∃ p, i.parameters[s.index]? = some p ∧ p.firstName = s.name ∧
      p.type.unwrap = .error s.reason) ∧
    warning.path = "/members/" ++ toString position ++ "/parameters/" ++ toString s.index ∧
    warning.message = "parameter `" ++ s.name ++ "` of `" ++ d.name ++
      "` refers to a relationship type but was left unchanged: " ++ s.reason.message

/-- The log of a declaration that expands. The skipped parameters stand between the first variant
and the others, one entry for each warning, and the count of everything stands at the end. -/
structure LogsExpansion (o : Options) (d : Declaration) (e : Expansion) (i : Initializer)
    (position : Nat) (associated : List String) (variantLog : Variant → List Event)
    (skipped : List Event) : Prop where
  declared : d.members[position]? = some (.initializer i)
  protocol : ∃ g, e.inRole o .protocol = some g ∧ g.associatedNames = associated ∧
    g.requiredTypes.length = (d.classifiedEvents o).length
  events : ∃ first others, o.variants = first :: others ∧
    (d.expand o).events =
      d.classifiedEvents o ++ variantLog first ++ skipped ++ others.flatMap variantLog ++
        [.declarationExpanded d.name (d.classifiedEvents o).length associated.length
          e.declarations.length e.warnings.length]
  variants : ∀ v ∈ o.variants, LogsVariant o e i associated v (variantLog v)
  skipped : List.Forall₂ (d.SkipLoggedAs i position) skipped e.warnings

/-- What is logged while a declaration is expanded agrees with what comes of it. -/
structure LogsFaithfully (o : Options) (d : Declaration) : Prop where
  unmarked : ¬ ModelClass.isMarked o d → (d.expand o).events = []
  /-- The bindings of the members in front of where reading stops are logged, and what is read of
  the member where it stops. -/
  classified : ModelClass.isMarked o d → ∃ front rest properties,
    d.members = front ++ rest ∧ Member.firstFault? false front = none ∧
    Member.StopsAt (front.any Member.isInitializer) rest properties ∧
    List.Forall₂ (Event.Classifies o d.name) (front.flatMap Member.properties ++ properties)
      (d.classifiedEvents o)
  failed : ∀ error, (d.expand o).result = .error error →
    (d.expand o).events = d.classifiedEvents o
  succeeded : ∀ e, (d.expand o).result = .ok e → ∃ i position associated variantLog skipped,
    d.LogsExpansion o e i position associated variantLog skipped

variable {o : Options} {d : Declaration}

theorem isFieldClassified_of_mem_ofDeclaration {event : Event}
    (h : event ∈ (ModelClass.ofDeclaration o d).events) : event.isFieldClassified := by
  by_cases hmarked : ModelClass.isMarked o d
  · obtain ⟨_, _, _, -, -, -, hlog⟩ := ModelClass.exists_stopsAt_ofDeclaration hmarked
    obtain ⟨_, -, _, -, rfl⟩ := exists_mem_of_forall₂ hlog h
    rfl
  · rw [ModelClass.ofDeclaration_of_not_isMarked hmarked] at h
    cases h

/-- Bindings are only logged while the declaration is read. -/
theorem classifiedEvents_eq : d.classifiedEvents o = (ModelClass.ofDeclaration o d).events := by
  have hread : (ModelClass.ofDeclaration o d).events.filter Event.isFieldClassified =
      (ModelClass.ofDeclaration o d).events :=
    List.filter_eq_self.mpr fun _ => isFieldClassified_of_mem_ofDeclaration
  cases hm : (ModelClass.ofDeclaration o d).result with
  | error error => rw [classifiedEvents, expand, Traced.events_bind_of_error hm, hread]
  | ok m =>
      have hexpand : (m.expand o).events.filter Event.isFieldClassified = [] :=
        List.filter_eq_nil_iff.mpr fun _ => ModelClass.not_isFieldClassified_of_mem_expand
      rw [classifiedEvents, expand, Traced.events_bind_of_ok hm, List.filter_append, hread, hexpand,
        List.append_nil]

/-- The log of a declaration that expands. -/
theorem logsExpansion {m : ModelClass} {rs : List ResolvedField}
    (hm : (ModelClass.ofDeclaration o d).result = .ok m)
    (hrs : ResolvedField.ofFields m.fields = .ok rs) :
    d.LogsExpansion o (m.expansion o rs) m.initializer m.initializerIndex
      (ResolvedField.targets rs).names (m.variantLog o.naming (ResolvedField.targets rs))
      ((m.initializer.skipped (ResolvedField.targets rs)).map m.skippedEvent) := by
  obtain ⟨-, hname, declared, hmembers, hposition, -, -⟩ :=
    ModelClass.result_ofDeclaration_eq_ok_iff.mp hm
  have hclassified : (d.classifiedEvents o).length = m.fields.length := by
    rw [classifiedEvents_eq, ModelClass.length_events_ofDeclaration hm]
  constructor
  case declared => simp [hmembers, hposition]
  case protocol =>
    refine ⟨_, ModelClass.inRole_expansion o.protocol_mem_roles,
      ModelClass.associatedNames_generated_protocol, ?_⟩
    rw [ModelClass.requiredTypes_generated_protocol, List.length_map, hclassified,
      (ResolvedField.ofFields_eq_ok_iff.mp hrs).length_eq]
  case events =>
    obtain ⟨first, others, hvariants, hevents⟩ := ModelClass.events_expand (o := o) hrs
    refine ⟨first, others, hvariants, ?_⟩
    rw [hclassified, ← hname, classifiedEvents_eq, expand, Traced.events_bind_of_ok hm, hevents]
    simp only [List.append_assoc]
  case variants => exact fun v hv => ModelClass.logsVariant hv
  case skipped =>
    rw [List.forall₂_map_left_iff, ModelClass.expansion, List.forall₂_map_right_iff,
      List.forall₂_same]
    intro s hs
    obtain ⟨p, hp, hsame, hrefused, -⟩ := Initializer.mem_skipped_iff.mp hs
    refine ⟨s, by rw [ModelClass.skippedEvent, hname], ⟨p, hp, hsame.symm, hrefused⟩, ?_, ?_⟩
    · exact Pointer.text_parameter _ _
    · rw [← hname]
      rfl

/-- The log of an expansion agrees with its result, whatever the declaration and the options. -/
theorem logsFaithfully (o : Options) (d : Declaration) : d.LogsFaithfully o := by
  constructor
  case unmarked =>
    intro hmarked
    rw [expand, ModelClass.ofDeclaration_of_not_isMarked hmarked]
    rfl
  case classified =>
    intro hmarked
    rw [classifiedEvents_eq]
    exact ModelClass.exists_stopsAt_ofDeclaration hmarked
  case failed =>
    intro error herror
    rw [classifiedEvents_eq, expand]
    cases hm : (ModelClass.ofDeclaration o d).result with
    | error e => rw [Traced.events_bind_of_error hm]
    | ok m =>
        cases hrs : ResolvedField.ofFields m.fields with
        | error e =>
            rw [Traced.events_bind_of_ok hm, ModelClass.events_expand_of_error hrs, List.append_nil]
        | ok rs =>
            rw [result_expand_eq_ok_iff.mpr ⟨m, rs, hm, hrs, rfl⟩] at herror
            cases herror
  case succeeded =>
    intro e he
    obtain ⟨m, rs, hm, hrs, rfl⟩ := result_expand_eq_ok_iff.mp he
    exact ⟨_, _, _, _, _, logsExpansion hm hrs⟩

/-- A model with two properties in one declaration, and parameters that are the target under a list,
the target in a dictionary, and a type that is refused without naming it. -/
def mixtape : Declaration where
  kind := .class
  name := "Mixtape"
  attributes := [⟨"Model", none⟩]
  members :=
    [.field ⟨[], .var, [⟨.identifier "title", some (.named "String"), none⟩,
        ⟨.identifier "minutes", some (.named "Int"), some "60"⟩]⟩,
      .field ⟨[⟨"Relationship", none⟩], .var,
        [⟨.identifier "songs", some (.array (.named "Song")), none⟩]⟩,
      .initializer
        ⟨[],
          [⟨"", "songs", none, .array (.named "Song"), none, true⟩,
            ⟨" ", "byTitle", none, .dictionary (.named "String") (.named "Song"), none, true⟩,
            ⟨" ", "size", none, .tuple [.named "Int", .named "Int"], none, false⟩],
          "", none, "\x7b\x7d"⟩]

/-- The skipped parameter is logged between the two variants. -/
theorem mixtape_logsFaithfully :
    ModelClass.isMarked .default mixtape ∧
    (∃ e i position associated variantLog skipped, (mixtape.expand .default).result = .ok e ∧
      mixtape.LogsExpansion .default e i position associated variantLog skipped) ∧
    (mixtape.expand .default).events =
      [.fieldClassified "Mixtape" "title" false,
        .fieldClassified "Mixtape" "minutes" false,
        .fieldClassified "Mixtape" "songs" true,
        .parameterRewritten "songs" "[Song]" "[PreviewSong]",
        .parameterLeft "size" "(Int, Int)",
        .parameterSkipped "Mixtape" "byTitle" (.unsupportedTypeShape "[String: Song]"),
        .parameterRewritten "songs" "[Song]" "[ObservablePreviewSong]",
        .parameterLeft "size" "(Int, Int)",
        .declarationExpanded "Mixtape" 3 1 4 1] := by
  obtain ⟨e, he⟩ : ∃ e, (mixtape.expand .default).result = .ok e := ⟨_, rfl⟩
  obtain ⟨i, position, associated, variantLog, skipped, hlog⟩ :=
    (logsFaithfully .default mixtape).succeeded e he
  exact ⟨rfl, ⟨e, i, position, associated, variantLog, skipped, he, hlog⟩, by decide⟩

end Declaration

end ModelPreview
