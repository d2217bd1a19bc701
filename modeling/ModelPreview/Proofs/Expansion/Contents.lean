import ModelPreview.Expansion
import ModelPreview.Proofs.ModelClass.Properties
import ModelPreview.Proofs.Retargeting

/-!
# What an expansion consists of

An expansion has one declaration for each role, in a fixed order: the protocol, the observable
protocol, and the variants. Each of them is a function of the model class and its resolved fields
alone. A declaration expands exactly if it is a model class whose fields resolve, and the fields
then follow the properties of the declaration one by one.
-/

namespace ModelPreview

/-- The part that a generated declaration plays for its model. -/
inductive Role where
  | protocol
  | observableProtocol
  | variant (v : Variant)
  deriving DecidableEq

namespace Role

/-- The kind of declaration that plays a part. -/
def kind : Role → Generated.Kind
  | .protocol => .protocol
  | .observableProtocol => .protocol
  | .variant .preview => .struct
  | .variant .observablePreview => .class

/-- The name of the declaration that plays a part for a model. -/
def name (naming : Naming) (model : String) : Role → String
  | .protocol => naming.protocolName model
  | .observableProtocol => naming.observableProtocolName model
  | .variant v => naming.variantName v model

end Role

/-- The parts that are played in an expansion, in order. -/
def Options.roles (o : Options) : List Role :=
  [.protocol] ++ (if o.emitObservable then [.observableProtocol] else []) ++
    o.variants.map .variant

theorem Options.variants_ne_nil (o : Options) : o.variants ≠ [] := by
  unfold variants
  split <;> simp

/-- A part that is played for observable variants only. -/
def Role.isObservable : Role → Bool
  | .observableProtocol | .variant .observablePreview => true
  | .protocol | .variant .preview => false

/-- Every part is played unless it is for observable variants and there are none. -/
theorem Options.mem_roles_iff {o : Options} {r : Role} :
    r ∈ o.roles ↔ (r.isObservable → o.emitObservable) := by
  unfold roles variants
  cases o.emitObservable with
  | true => rcases r with _ | _ | _ | _ <;> simp [Role.isObservable]
  | false => rcases r with _ | _ | _ | _ <;> simp [Role.isObservable]

theorem Options.variant_mem_roles {o : Options} {v : Variant} :
    .variant v ∈ o.roles ↔ v ∈ o.variants := by
  unfold roles
  cases o.emitObservable <;> simp

theorem Options.protocol_mem_roles (o : Options) : .protocol ∈ o.roles :=
  mem_roles_iff.mpr nofun

/-- The observable protocol is there for the observable variant. -/
theorem Options.observableProtocol_mem_roles {o : Options}
    (h : .variant .observablePreview ∈ o.roles) : .observableProtocol ∈ o.roles := by
  rw [mem_roles_iff] at h ⊢
  exact h

/-- No part is played twice. -/
theorem Options.nodup_roles (o : Options) : o.roles.Nodup := by
  unfold roles variants
  cases o.emitObservable <;> decide

/-- The declaration of an expansion that plays a part. -/
def Expansion.inRole (o : Options) (e : Expansion) (r : Role) : Option Generated.Declaration :=
  e.declarations[o.roles.idxOf r]?

namespace Generated.Declaration

/-- The names of the associated types, in order. -/
def associatedNames (g : Declaration) : List String :=
  g.members.filterMap fun
    | .associatedType name _ => some name
    | _ => none

/-- The types of the property requirements, in order. -/
def requiredTypes (g : Declaration) : List String :=
  g.members.filterMap fun
    | .propertyRequirement _ type => some type
    | _ => none

/-- The types of the stored properties, in order. -/
def storedTypes (g : Declaration) : List String :=
  g.members.filterMap fun
    | .storedProperty _ _ type _ => some type
    | _ => none

/-- The initializers, in order. -/
def initializers (g : Declaration) : List Initializer :=
  g.members.filterMap fun
    | .initializer i => some i
    | _ => none

end Generated.Declaration

namespace ModelClass

variable (o : Options) (m : ModelClass) (rs : List ResolvedField)

/-- The declaration that plays a part for a model with the given fields. -/
def generated : Role → Generated.Declaration
  | .protocol => m.protocol o.naming rs (ResolvedField.targets rs)
  | .observableProtocol => m.observableProtocol o.naming (ResolvedField.targets rs)
  | .variant v =>
    m.variant o.naming
      (variantMembers o.naming rs v
        (m.initializer.retargeted (ResolvedField.targets rs) (o.naming.variantName v))) v

/-- The expansion of a model with the given fields. -/
def expansion : Expansion where
  declarations := o.roles.map (m.generated o rs)
  warnings := (m.initializer.skipped (ResolvedField.targets rs)).map m.warning

variable {o m rs}

theorem kind_generated (r : Role) : (m.generated o rs r).kind = r.kind := by
  cases r with
  | protocol => rfl
  | observableProtocol => rfl
  | variant v => cases v <;> rfl

theorem name_generated (r : Role) : (m.generated o rs r).name = r.name o.naming m.name := by
  cases r with
  | protocol => rfl
  | observableProtocol => rfl
  | variant v => cases v <;> rfl

theorem inRole_expansion {r : Role} (h : r ∈ o.roles) :
    (m.expansion o rs).inRole o r = some (m.generated o rs r) := by
  rw [Expansion.inRole, expansion, List.getElem?_map, List.getElem?_idxOf h]
  rfl

theorem mem_declarations_expansion {g : Generated.Declaration} :
    g ∈ (m.expansion o rs).declarations ↔ ∃ r ∈ o.roles, g = m.generated o rs r := by
  simp [expansion, eq_comm]

theorem associatedNames_generated_protocol :
    (m.generated o rs .protocol).associatedNames = (ResolvedField.targets rs).names := by
  simp [generated, protocol, Generated.Declaration.associatedNames, List.filterMap_map,
    Function.comp_def, ResolvedField.requirement]

theorem requiredTypes_generated_protocol :
    (m.generated o rs .protocol).requiredTypes = rs.map fun r => r.field.type.text := by
  simp [generated, protocol, Generated.Declaration.requiredTypes, List.filterMap_map,
    Function.comp_def, ResolvedField.requirement]

theorem members_generated_variant (v : Variant) :
    (m.generated o rs (.variant v)).members =
      rs.map (ResolvedField.storedProperty (o.naming.variantName v)) ++
        [.initializer (m.initializer.retargeted (ResolvedField.targets rs)
          (o.naming.variantName v))] := by
  cases v <;> rfl

theorem storedTypes_generated_variant (v : Variant) :
    (m.generated o rs (.variant v)).storedTypes =
      rs.map (ResolvedField.typeText (o.naming.variantName v)) := by
  simp [Generated.Declaration.storedTypes, members_generated_variant, List.filterMap_map,
    Function.comp_def, ResolvedField.storedProperty]

/-- The protocol requires a field with its declared type. -/
theorem getElem?_requiredTypes {i : Nat} {r : ResolvedField} (hr : rs[i]? = some r) :
    (m.generated o rs .protocol).requiredTypes[i]? = some r.field.type.text := by
  rw [requiredTypes_generated_protocol, List.getElem?_map, hr, Option.map_some]

theorem getElem?_storedTypes {i : Nat} {r : ResolvedField} (hr : rs[i]? = some r) (v : Variant) :
    (m.generated o rs (.variant v)).storedTypes[i]? =
      some (r.typeText (o.naming.variantName v)) := by
  rw [storedTypes_generated_variant, List.getElem?_map, hr, Option.map_some]

theorem initializers_generated_variant (v : Variant) :
    (m.generated o rs (.variant v)).initializers =
      [m.initializer.retargeted (ResolvedField.targets rs) (o.naming.variantName v)] := by
  simp [Generated.Declaration.initializers, members_generated_variant, List.filterMap_map,
    Function.comp_def, ResolvedField.storedProperty]

theorem result_variantInitializers {naming : Naming} {targets : TargetNames} (vs : List Variant) :
    (m.variantInitializers naming targets vs).result =
      .ok (vs.map fun v => (v, ⟨m.initializer.retargeted targets (naming.variantName v),
        m.initializer.skipped targets⟩)) := by
  induction vs with
  | nil => rfl
  | cons v rest ih =>
      simp only [variantInitializers, Traced.result_bind, Initializer.result_retarget,
        Except.ok_bind, ih, Traced.result_pure, List.map_cons]

theorem result_initializers {naming : Naming} {targets : TargetNames} {vs : List Variant}
    (hne : vs ≠ []) :
    (m.initializers naming targets vs).result =
      .ok (vs.map fun v => (v, ⟨m.initializer.retargeted targets (naming.variantName v),
        m.initializer.skipped targets⟩), m.initializer.skipped targets) := by
  cases vs with
  | nil => exact absurd rfl hne
  | cons v rest =>
      simp only [initializers, Traced.result_bind, Initializer.result_retarget, Except.ok_bind,
        Traced.result_emitAll, result_variantInitializers, Traced.result_pure, List.map_cons]

/-- Only resolving the fields of a model class can fail. -/
theorem result_expand :
    (m.expand o).result = ResolvedField.ofFields m.fields >>= fun rs => .ok (m.expansion o rs) := by
  simp only [expand, Traced.result_bind, Traced.result_lift, result_initializers o.variants_ne_nil,
    Except.ok_bind, Traced.result_emit, Traced.result_pure]
  cases ResolvedField.ofFields m.fields with
  | error _ => rfl
  | ok rs =>
      simp only [Except.ok_bind, expansion, Options.roles, List.map_append, List.map_map,
        Function.comp_def, generated]
      split <;> rfl

end ModelClass

namespace ResolvedField

/-- A resolved field is the model field of a property, and it has a target exactly if the property
is a relationship: the wrapped name that the declared type is. -/
structure IsReadFrom (options : Options) (source : Field × Binding) (r : ResolvedField) :
    Prop where
  field : r.field.IsReadFrom options source
  target : if r.field.isRelationship then
      ∃ w, r.target = some w ∧ r.field.type.unwrap = .ok w
    else r.target = none

theorem IsReadFrom.exists_target {options : Options} {source : Field × Binding}
    {r : ResolvedField} (h : r.IsReadFrom options source)
    (hrelationship : ModelClass.isRelationship options source.1) :
    ∃ w, r.target = some w ∧ r.field.type.unwrap = .ok w := by
  have htarget := h.target
  rwa [h.field.isRelationship, if_pos hrelationship] at htarget

theorem IsReadFrom.target_eq_none {options : Options} {source : Field × Binding}
    {r : ResolvedField} (h : r.IsReadFrom options source)
    (hplain : ¬ ModelClass.isRelationship options source.1) : r.target = none := by
  have htarget := h.target
  rwa [h.field.isRelationship, if_neg hplain] at htarget

theorem ofField_eq_ok_iff {f : ModelField} {r : ResolvedField} :
    ofField f = .ok r ↔ r.field = f ∧
      if f.isRelationship then ∃ w, r.target = some w ∧ f.type.unwrap = .ok w
      else r.target = none := by
  obtain ⟨field, target⟩ := r
  unfold ofField
  split
  · rw [Except.bind_eq_ok_iff]
    constructor
    · rintro ⟨w, hw, ⟨⟩⟩
      exact ⟨rfl, w, rfl, hw⟩
    · rintro ⟨rfl, w, rfl, hw⟩
      exact ⟨w, hw, rfl⟩
  · rw [Except.ok.injEq, ResolvedField.mk.injEq, eq_comm (a := f), eq_comm (a := none)]

theorem ofFields_eq_ok_iff {fs : List ModelField} {rs : List ResolvedField} :
    ofFields fs = .ok rs ↔ List.Forall₂ (fun f r => ofField f = .ok r) fs rs :=
  Except.eq_ok_iff_forall₂ (g := ofFields) rfl fun _ _ => rfl

/-- A name is a target exactly if some field points to it. -/
theorem mem_names_targets {rs : List ResolvedField} {name : String} :
    name ∈ (targets rs).names ↔ ∃ r ∈ rs, ∃ w, r.target = some w ∧ w.name = name := by
  simp [targets]

end ResolvedField

/-- Lists that are related one by one are related at each place. -/
theorem exists_getElem?_of_forall₂ {α β : Type} {R : α → β → Prop} {xs : List α} {ys : List β}
    (h : List.Forall₂ R xs ys) {i : Nat} {x : α} (hi : xs[i]? = some x) :
    ∃ y, ys[i]? = some y ∧ R x y := by
  obtain ⟨hx, rfl⟩ := List.getElem?_eq_some_iff.mp hi
  have hy : i < ys.length := by
    rw [← h.length_eq]
    exact hx
  exact ⟨ys[i], List.getElem?_eq_getElem hy, h.get hx hy⟩

/-- What stands in the second of two lists that are related one by one comes from the first. -/
theorem exists_mem_of_forall₂ {α β : Type} {R : α → β → Prop} {xs : List α} {ys : List β}
    (h : List.Forall₂ R xs ys) {y : β} (hy : y ∈ ys) : ∃ x ∈ xs, R x y := by
  obtain ⟨i, hi⟩ := List.mem_iff_getElem?.mp hy
  obtain ⟨x, hx, hrelated⟩ := exists_getElem?_of_forall₂ h.flip hi
  exact ⟨x, List.mem_of_getElem? hx, hrelated⟩

/-- A target is the name that the type of some relationship is built around. -/
theorem ResolvedField.exists_source_of_mem_targets {o : Options}
    {sources : List (Field × Binding)} {rs : List ResolvedField}
    (h : List.Forall₂ (IsReadFrom o) sources rs) {name : String}
    (hname : name ∈ (targets rs).names) :
    ∃ source ∈ sources, ModelClass.isRelationship o source.1 ∧
      ∃ t w, source.2.type = some t ∧ t.unwrap = .ok w ∧ w.name = name := by
  obtain ⟨r, hr, w, hw, rfl⟩ := mem_names_targets.mp hname
  obtain ⟨source, hmem, hread⟩ := exists_mem_of_forall₂ h hr
  by_cases hrelationship : ModelClass.isRelationship o source.1
  · obtain ⟨w', hw', hunwrap⟩ := hread.exists_target hrelationship
    obtain rfl : w' = w := Option.some.inj (hw'.symm.trans hw)
    exact ⟨source, hmem, hrelationship, _, w', hread.field.type, hunwrap, rfl⟩
  · rw [hread.target_eq_none hrelationship] at hw
    cases hw

namespace Declaration

/-- A declaration is read as a model class, then its fields are resolved, and nothing else can
fail. -/
theorem result_expand (o : Options) (d : Declaration) :
    (d.expand o).result =
      (ModelClass.ofDeclaration o d).result >>= fun m =>
        ResolvedField.ofFields m.fields >>= fun rs => .ok (m.expansion o rs) := by
  simp only [expand, Traced.result_bind, ModelClass.result_expand]

/-- A declaration expands exactly if it is a model class and all of its fields resolve. -/
theorem result_expand_eq_ok_iff {o : Options} {d : Declaration} {e : Expansion} :
    (d.expand o).result = .ok e ↔
      ∃ m rs, (ModelClass.ofDeclaration o d).result = .ok m ∧
        ResolvedField.ofFields m.fields = .ok rs ∧ e = m.expansion o rs := by
  simp only [result_expand, Except.bind_eq_ok_iff, Except.ok.injEq]
  constructor
  · rintro ⟨m, hm, rs, hrs, rfl⟩
    exact ⟨m, rs, hm, hrs, rfl⟩
  · rintro ⟨m, rs, hm, hrs, rfl⟩
    exact ⟨m, hm, rs, hrs, rfl⟩

/-- What is known about a declaration that expands: its model class carries its name and ends in
its initializer, and there is one resolved field for each of its properties. -/
theorem exists_of_result_expand {o : Options} {d : Declaration} {e : Expansion}
    (h : (d.expand o).result = .ok e) :
    ∃ (m : ModelClass) (rs : List ResolvedField), e = m.expansion o rs ∧ m.name = d.name ∧
      (∃ declared : List Field,
        d.members = declared.map .field ++ [.initializer m.initializer]) ∧
      List.Forall₂ (ResolvedField.IsReadFrom o) d.properties rs := by
  obtain ⟨m, rs, hm, hrs, rfl⟩ := result_expand_eq_ok_iff.mp h
  obtain ⟨-, hname, declared, hmembers, -, -, hread⟩ :=
    ModelClass.result_ofDeclaration_eq_ok_iff.mp hm
  refine ⟨m, rs, rfl, hname, ⟨declared, hmembers⟩, ?_⟩
  have hresolve := ResolvedField.ofFields_eq_ok_iff.mp hrs
  -- Reading and resolving are both one to one, so the two relations compose.
  have hlength : d.properties.length = rs.length := hread.length_eq.trans hresolve.length_eq
  refine List.forall₂_iff_get.mpr ⟨hlength, fun i hi hi' => ?_⟩
  have hfield := List.Forall₂.get hread hi (by rw [← hread.length_eq]; exact hi)
  obtain ⟨hsame, htarget⟩ := ResolvedField.ofField_eq_ok_iff.mp
    (List.Forall₂.get hresolve (by rw [← hread.length_eq]; exact hi) hi')
  exact ⟨hsame ▸ hfield, hsame ▸ htarget⟩

end Declaration

end ModelPreview
