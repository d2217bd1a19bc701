import ModelPreview.Proofs.Expansion.Contents
import ModelPreview.Proofs.Text.Fragments
import ModelPreview.Report

/-!
# The brackets of generated texts match

A generated declaration is printed from texts of its own and a fixed template whose brackets match.
These texts come from the fragments of the declaration and of the options: a name goes into a
generated name between affixes, a type is written with its names or with the names of variants in
their place, and an initializer keeps everything else. So if the fragments are balanced, every
printed text is, and with it the text of a whole batch.
-/

namespace ModelPreview

namespace Generated

/-- The texts that a member is printed from. -/
def Member.fragments : Member → List String
  | .associatedType name conformance => [name, conformance]
  | .propertyRequirement name type => [name, type]
  | .storedProperty _ name type defaultValue => [name, type] ++ defaultValue.toList
  | .initializer i => i.fragments

/-- The texts that a declaration is printed from. -/
def Declaration.fragments (g : Declaration) : List String :=
  g.attributes ++ g.modifiers ++ [g.name] ++ g.inherited ++ g.whereClause ++
    g.members.flatMap Member.fragments

theorem Declaration.forall_mem_fragments_iff {p : String → Prop} {g : Declaration} :
    (∀ s ∈ g.fragments, p s) ↔
      (∀ s ∈ g.attributes, p s) ∧ (∀ s ∈ g.modifiers, p s) ∧ p g.name ∧ (∀ s ∈ g.inherited, p s) ∧
        (∀ s ∈ g.whereClause, p s) ∧ ∀ m ∈ g.members, ∀ s ∈ m.fragments, p s := by
  simp only [fragments, List.forall_mem_append, List.forall_mem_singleton,
    List.forall_mem_flatMap, and_assoc]

theorem Member.balanced_text {m : Member} (h : ∀ s ∈ m.fragments, Balanced s) :
    Balanced m.text := by
  cases m with
  | associatedType name conformance =>
      obtain ⟨hname, hconformance⟩ := forall_mem_pair.mp h
      exact ((Balanced.append (by decide) hname).append (by decide)).append hconformance
  | propertyRequirement name type =>
      obtain ⟨hname, htype⟩ := forall_mem_pair.mp h
      exact (((Balanced.append (by decide) hname).append (by decide)).append htype).append
        (by decide)
  | storedProperty keyword name type defaultValue =>
      simp only [fragments, List.forall_mem_append, forall_mem_pair] at h
      obtain ⟨⟨hname, htype⟩, hdefault⟩ := h
      have hkeyword : Balanced keyword.text := by cases keyword <;> decide
      exact ((((hkeyword.append (by decide)).append hname).append (by decide)).append htype).append
        (balanced_optionalPart (by decide) hdefault)
  | initializer i => exact Initializer.balanced_text h

theorem balanced_listPart {mark : String} (hmark : Balanced mark) {texts : List String}
    (h : ∀ t ∈ texts, Balanced t) : Balanced (listPart mark texts) := by
  unfold listPart
  split
  · exact .nil
  · exact hmark.append (.intercalate (by decide) h)

namespace Declaration

variable {indent : String}

theorem balanced_memberLine (hindent : Balanced indent) {m : Member}
    (h : ∀ s ∈ m.fragments, Balanced s) : Balanced (memberLine indent m) :=
  (hindent.append (Member.balanced_text h)).append (by decide)

theorem balanced_linesAfter (hindent : Balanced indent) (previous : Group) {members : List Member}
    (h : ∀ m ∈ members, ∀ s ∈ m.fragments, Balanced s) :
    Balanced (linesAfter indent previous members) := by
  induction members generalizing previous with
  | nil => exact .nil
  | cons m rest ih =>
      obtain ⟨hm, hrest⟩ := List.forall_mem_cons.mp h
      have hblank : Balanced (if m.group = previous then "" else "\n") := by split <;> decide
      exact (hblank.append (balanced_memberLine hindent hm)).append (ih m.group hrest)

theorem balanced_memberLines (hindent : Balanced indent) {members : List Member}
    (h : ∀ m ∈ members, ∀ s ∈ m.fragments, Balanced s) :
    Balanced (memberLines indent members) := by
  cases members with
  | nil => exact .nil
  | cons m rest =>
      obtain ⟨hm, hrest⟩ := List.forall_mem_cons.mp h
      exact (balanced_memberLine hindent hm).append (balanced_linesAfter hindent m.group hrest)

/-- What is printed has matching brackets if what it is printed from has. -/
theorem balanced_text (hindent : Balanced indent) {g : Declaration}
    (h : ∀ s ∈ g.fragments, Balanced s) : Balanced (g.text indent) := by
  obtain ⟨hattributes, hmodifiers, hname, hinherited, hwhere, hmembers⟩ :=
    forall_mem_fragments_iff.mp h
  have hkind : Balanced g.kind.text := by cases g.kind <;> decide
  have hfront : Balanced (String.join (g.attributes.map (· ++ "\n")) ++
      String.join (g.modifiers.map (· ++ " "))) :=
    .append (.join (List.forall_mem_map.mpr fun s hs => (hattributes s hs).append (by decide)))
      (.join (List.forall_mem_map.mpr fun s hs => (hmodifiers s hs).append (by decide)))
  have hheader : Balanced g.header :=
    ((((hfront.append hkind).append (by decide)).append hname).append
      (balanced_listPart (by decide) hinherited)).append (balanced_listPart (by decide) hwhere)
  unfold text
  split
  · exact hheader.append (by decide)
  · have htemplate : Balanced (g.header ++ " \x7b\n" ++ "\x7d") := by
      rw [String.append_assoc]
      exact hheader.append (by decide)
    exact htemplate.insert (balanced_memberLines hindent hmembers)

end Declaration

end Generated

variable {o : Options}

theorem Role.balanced_name (ho : ∀ s ∈ o.fragments, Balanced s) {model : String}
    (hmodel : Balanced model) (r : Role) : Balanced (r.name o.naming model) := by
  simp only [Options.fragments, List.forall_mem_cons] at ho
  obtain ⟨hprotocol, hpreview, hobservable, hobservablePreview, -⟩ := ho
  match r with
  | .protocol => exact hmodel.append hprotocol
  | .observableProtocol => exact hobservable.append hmodel
  | .variant .preview => exact hpreview.append hmodel
  | .variant .observablePreview => exact hobservablePreview.append hmodel

section

variable {targets : TargetNames} {rename : String → String}
  (hrename : ∀ name ∈ targets.names, Balanced (rename name))

include hrename

theorem TypeExpr.balanced_names_retargeted {t : TypeExpr} (h : ∀ name ∈ t.names, Balanced name) :
    ∀ name ∈ (t.retargeted targets rename).names, Balanced name := by
  unfold retargeted
  split
  · next w hunwrap =>
      split
      · next hmem =>
          rw [names_typeWith]
          exact List.forall_mem_singleton.mpr (hrename w.name hmem)
      · exact h
  · exact h

theorem Parameter.balanced_fragments_retargeted {p : Parameter}
    (h : ∀ s ∈ p.fragments, Balanced s) :
    ∀ s ∈ (p.retargeted targets rename).fragments, Balanced s := by
  simp only [fragments, List.forall_mem_append] at h ⊢
  obtain ⟨⟨hnames, htype⟩, hdefault⟩ := h
  exact ⟨⟨hnames, TypeExpr.balanced_names_retargeted hrename htype⟩, hdefault⟩

theorem Initializer.balanced_fragments_retargeted {i : Initializer}
    (h : ∀ s ∈ i.fragments, Balanced s) :
    ∀ s ∈ (i.retargeted targets rename).fragments, Balanced s := by
  simp only [fragments, List.forall_mem_append, List.forall_mem_flatMap] at h ⊢
  obtain ⟨⟨⟨⟨hmodifiers, hparameters⟩, hclosing⟩, heffects⟩, hbody⟩ := h
  refine ⟨⟨⟨⟨hmodifiers, List.forall_mem_map.mpr fun p hp => ?_⟩, hclosing⟩, heffects⟩, hbody⟩
  exact Parameter.balanced_fragments_retargeted hrename (hparameters p hp)

end

def ModelField.fragments (f : ModelField) : List String :=
  [f.name] ++ f.type.names ++ f.defaultValue.toList

/-- A model field has the fragments of the binding that it is read from. -/
theorem ModelField.IsReadFrom.fragments_eq {source : Field × Binding} {f : ModelField}
    (h : f.IsReadFrom o source) : f.fragments = source.2.fragments := by
  simp [fragments, Binding.fragments, Pattern.boundName?, h.pattern, h.type, h.defaultValue]

namespace ModelClass

/-- What an expansion takes from a model and its resolved fields has matching brackets. -/
structure IsBalanced (m : ModelClass) (rs : List ResolvedField) : Prop where
  name : Balanced m.name
  initializer : ∀ s ∈ m.initializer.fragments, Balanced s
  fields : ∀ r ∈ rs, ∀ s ∈ r.field.fragments, Balanced s
  targets : ∀ name ∈ (ResolvedField.targets rs).names, Balanced name

variable {m : ModelClass} {rs : List ResolvedField}

theorem IsBalanced.requirement (h : IsBalanced m rs) {r : ResolvedField} (hr : r ∈ rs) :
    ∀ s ∈ r.requirement.fragments, Balanced s := by
  have hfield := h.fields r hr
  simp only [ModelField.fragments, List.forall_mem_append, List.forall_mem_singleton] at hfield
  obtain ⟨⟨hname, htype⟩, -⟩ := hfield
  exact forall_mem_pair.mpr ⟨hname, TypeExpr.balanced_text htype⟩

theorem IsBalanced.storedProperty (ho : ∀ s ∈ o.fragments, Balanced s) (h : IsBalanced m rs)
    {r : ResolvedField} (hr : r ∈ rs) (v : Variant) :
    ∀ s ∈ (r.storedProperty (o.naming.variantName v)).fragments, Balanced s := by
  have hfield := h.fields r hr
  simp only [ModelField.fragments, List.forall_mem_append, List.forall_mem_singleton] at hfield
  obtain ⟨⟨hname, htype⟩, hdefault⟩ := hfield
  have htext : Balanced (r.typeText (o.naming.variantName v)) := by
    unfold ResolvedField.typeText
    split
    · next w hw =>
        have htarget := h.targets w.name (ResolvedField.mem_names_targets.mpr ⟨r, hr, w, hw, rfl⟩)
        exact w.balanced_textWith ((Role.variant v).balanced_name ho htarget)
    · exact TypeExpr.balanced_text htype
  simp only [ResolvedField.storedProperty, Generated.Member.fragments, List.forall_mem_append]
  exact ⟨forall_mem_pair.mpr ⟨hname, htext⟩, hdefault⟩

/-- Every generated declaration is printed from balanced texts. -/
theorem balanced_fragments_generated (ho : ∀ s ∈ o.fragments, Balanced s) (h : IsBalanced m rs)
    (role : Role) : ∀ s ∈ (m.generated o rs role).fragments, Balanced s := by
  have hname (r : Role) : Balanced (r.name o.naming m.name) := r.balanced_name ho h.name
  have htarget (r : Role) : ∀ name ∈ (ResolvedField.targets rs).names,
      Balanced (r.name o.naming name) := fun name hname => r.balanced_name ho (h.targets name hname)
  have hnone : ∀ s ∈ ([] : List String), Balanced s := List.forall_mem_nil _
  rw [Generated.Declaration.forall_mem_fragments_iff]
  cases role with
  | protocol =>
      refine ⟨hnone, hnone, hname .protocol, hnone, hnone, List.forall_mem_append.mpr ⟨?_, ?_⟩⟩
      · exact List.forall_mem_map.mpr fun target hmem =>
          forall_mem_pair.mpr ⟨h.targets target hmem, htarget .protocol target hmem⟩
      · exact List.forall_mem_map.mpr fun r hr => h.requirement hr
  | observableProtocol =>
      refine ⟨hnone, hnone, hname .observableProtocol,
        forall_mem_pair.mpr ⟨hname .protocol, by decide⟩,
        List.forall_mem_map.mpr fun target hmem => ?_, List.forall_mem_nil _⟩
      exact ((h.targets target hmem).append (by decide)).append
        (htarget .observableProtocol target hmem)
  | variant v =>
      have hmembers : ∀ member ∈ (m.generated o rs (.variant v)).members,
          ∀ s ∈ member.fragments, Balanced s := by
        rw [members_generated_variant, List.forall_mem_append, List.forall_mem_singleton]
        exact ⟨List.forall_mem_map.mpr fun r hr => h.storedProperty ho hr v,
          Initializer.balanced_fragments_retargeted (htarget (.variant v)) h.initializer⟩
      cases v with
      | preview =>
          exact ⟨hnone, hnone, hname (.variant .preview),
            List.forall_mem_singleton.mpr (hname .protocol), hnone, hmembers⟩
      | observablePreview =>
          exact ⟨List.forall_mem_singleton.mpr (by decide),
            List.forall_mem_singleton.mpr (by decide), hname (.variant .observablePreview),
            List.forall_mem_singleton.mpr (hname .observableProtocol), hnone, hmembers⟩

end ModelClass

namespace Declaration

variable {d : Declaration}

/-- The fragments of a declaration's properties are among its own. -/
theorem fragments_subset_of_mem_properties {source : Field × Binding} (h : source ∈ d.properties) :
    source.2.fragments ⊆ d.fragments := by
  obtain ⟨hfield, hbinding⟩ := mem_properties_iff.mp h
  intro s hs
  refine List.mem_cons_of_mem _ (List.mem_flatMap.mpr ⟨_, hfield, ?_⟩)
  exact List.mem_flatMap.mpr ⟨source.2, hbinding, hs⟩

/-- The model of a declaration with balanced fragments is balanced. -/
theorem isBalanced_of_isReadFrom (h : ∀ s ∈ d.fragments, Balanced s) {m : ModelClass}
    {rs : List ResolvedField} (hname : m.name = d.name)
    (hinitializer : .initializer m.initializer ∈ d.members)
    (hread : List.Forall₂ (ResolvedField.IsReadFrom o) d.properties rs) :
    m.IsBalanced rs := by
  have hsource {source : Field × Binding} (hmem : source ∈ d.properties) :
      ∀ s ∈ source.2.fragments, Balanced s :=
    fun s hs => h s (fragments_subset_of_mem_properties hmem hs)
  refine ⟨hname ▸ h d.name List.mem_cons_self, fun s hs => ?_, fun r hr => ?_, fun name hmem => ?_⟩
  · exact h s (List.mem_cons_of_mem _ (List.mem_flatMap.mpr ⟨_, hinitializer, hs⟩))
  · obtain ⟨i, hi⟩ := List.mem_iff_getElem?.mp hr
    obtain ⟨source, hget, hfield⟩ := exists_getElem?_of_forall₂ hread.flip hi
    rw [hfield.field.fragments_eq]
    exact hsource (List.mem_of_getElem? hget)
  · obtain ⟨source, hproperty, -, t, w, htype, hunwrap, rfl⟩ :=
      ResolvedField.exists_source_of_mem_targets hread hmem
    refine hsource hproperty w.name ?_
    simp [Binding.fragments, htype, TypeExpr.names_of_unwrap hunwrap]

theorem balanced_texts_expand (ho : ∀ s ∈ o.fragments, Balanced s)
    (h : ∀ s ∈ d.fragments, Balanced s) {e : Expansion} (he : (d.expand o).result = .ok e) :
    ∀ t ∈ e.texts o.indent, Balanced t := by
  obtain ⟨m, rs, rfl, hname, ⟨declared, hmembers⟩, hread⟩ := exists_of_result_expand he
  have hbalanced := isBalanced_of_isReadFrom h hname (by simp [hmembers]) hread
  have hindent : Balanced o.indent := ho o.indent (by simp [Options.fragments])
  refine List.forall_mem_map.mpr fun g hg => ?_
  obtain ⟨role, -, rfl⟩ := ModelClass.mem_declarations_expansion.mp hg
  exact Generated.Declaration.balanced_text hindent
    (ModelClass.balanced_fragments_generated ho hbalanced role)

/-- With balanced fragments in the options and the declarations, the brackets of every text that a
declaration expands to match, and so do those of the text of a whole batch. -/
theorem printed_texts_balanced (ho : ∀ s ∈ o.fragments, Balanced s) :
    (∀ d : Declaration, (∀ s ∈ d.fragments, Balanced s) →
      ∀ texts, (d.expandToTexts o).result = .ok texts → ∀ t ∈ texts, Balanced t) ∧
    ∀ ds : List Declaration, (∀ d ∈ ds, ∀ s ∈ d.fragments, Balanced s) →
      Balanced (Report.renderText (ds.map (Report.ofDeclaration o))) := by
  refine ⟨fun d hd texts htexts => ?_, fun ds hds => ?_⟩
  · rw [expandToTexts, Traced.result_bind, Except.bind_eq_ok_iff] at htexts
    obtain ⟨e, he, ⟨⟩⟩ := htexts
    exact balanced_texts_expand ho hd he
  · have hall : ∀ t ∈ (ds.map (Report.ofDeclaration o)).flatMap Report.declarations,
        Balanced t := by
      simp only [List.flatMap_map, List.forall_mem_flatMap]
      intro d hd
      cases he : (d.expand o).result with
      | ok e =>
          simpa [Report.declarations, Report.ofDeclaration, Report.ofResult, he, Except.map] using
            balanced_texts_expand ho (hds d hd) he
      | error reason =>
          simp [Report.declarations, Report.ofDeclaration, Report.ofResult, he, Except.map]
    simp only [Report.renderText]
    split
    · exact .nil
    · exact (Balanced.intercalate (by decide) hall).append (by decide)

/-- A model whose types put functions under optionals and generics into tuples, with brackets in
default values, trivia and the body too. -/
def toolbox : Declaration where
  kind := .class
  name := "Toolbox"
  attributes := [⟨"Model", none⟩]
  members :=
    [.field ⟨[], .var,
        [⟨.identifier "actions", some (.dictionary (.named "String")
            (.optional (.function [.tuple [.named "Int", .generic "Set" [.named "Tool"]]]
              (.named "Void")))), some "[:]"⟩]⟩,
      .field ⟨[⟨"Relationship", none⟩], .var,
        [⟨.identifier "drawers", some (.array (.optional (.array (.named "Tool")))),
          some "[[Tool()]]"⟩]⟩,
      .initializer
        ⟨["public"],
          [⟨" /* (first) */ ", "drawers", some "tools", .array (.optional (.named "Tool")),
            some "[nil]", false⟩],
          " ", some "throws", "{ self.drawers = [tools.map { $0! }] }"⟩]

/-- Alone and in a batch with a declaration that is refused, its texts have matching brackets. -/
theorem toolbox_texts_balanced :
    ∃ texts, (toolbox.expandToTexts .default).result = .ok texts ∧ texts.length = 4 ∧
      (∀ t ∈ texts, Balanced t) ∧
      Balanced (Report.renderText
        ([toolbox, ⟨.struct, "Box", [], []⟩].map (Report.ofDeclaration .default))) := by
  obtain ⟨halone, hbatch⟩ := printed_texts_balanced (o := .default) (by decide)
  have hfragments : ∀ s ∈ toolbox.fragments, Balanced s := by decide
  obtain ⟨texts, htexts⟩ : ∃ texts, (toolbox.expandToTexts .default).result = .ok texts := ⟨_, rfl⟩
  refine ⟨texts, htexts, ?_, halone toolbox hfragments texts htexts, hbatch _ ?_⟩
  · cases htexts
    rfl
  · exact List.forall_mem_cons.mpr ⟨hfragments, by decide⟩

end Declaration

end ModelPreview
