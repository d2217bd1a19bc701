import ModelPreview.Declaration.Document
import ModelPreview.Proofs.Expansion.Contents
import ModelPreview.Proofs.Json.Pointer
import ModelPreview.Proofs.SkippedParameters

/-!
# The warnings of an expansion

An expansion warns about the parameters that it had to leave as they are although a relationship
target stands in their type. There is one warning for each of them, in the order of the parameters.
Its path is followed in the document that describes the declaration: to the members, to the
initializer, whose place among them is known from reading the model class, to its parameters, and to
the one that the warning is about.
-/

namespace ModelPreview

/-- The way to a parameter of an initializer that is a member of a declaration. -/
def Pointer.parameter (position index : Nat) : Pointer :=
  ["members", Pointer.index position, "parameters", Pointer.index index]

theorem Pointer.text_parameter (position index : Nat) :
    (parameter position index).text =
      "/members/" ++ toString position ++ "/parameters/" ++ toString index := by
  have hmembers : escape "members" = "members" := by decide
  have hparameters : escape "parameters" = "parameters" := by decide
  simp only [parameter, text_cons, text_nil, escape_index, hmembers, hparameters,
    String.append_empty, String.append_assoc]
  rfl

/-- The way to a parameter leads to the document that describes it. -/
theorem Declaration.at?_parameter {d : Declaration} {i : Initializer} {position index : Nat}
    {p : Parameter} (hmember : d.members[position]? = some (.initializer i))
    (hparameter : i.parameters[index]? = some p) :
    d.toJson.at? (Pointer.parameter position index) = some p.toJson := by
  have hmembers : d.toFields.get? "members" = some (.array (d.members.map Member.toJson)) := by
    simp [toFields, Json.Fields.get?_cons]
  have hparameters : (Member.initializer i).toFields.get? "parameters" =
      some (.array (i.parameters.map Parameter.toJson)) := by
    simp [Member.toFields, Initializer.toFields, Json.Fields.get?_cons]
  simp [Pointer.parameter, Json.at?_cons, toJson, hmembers, hmember, Member.toJson, hparameters,
    hparameter]

namespace Declaration

/-- A warning about the parameter at `index` of the initializer at `position`: its path leads to the
parameter, which is in the initializer of every variant as it is in the source. -/
def PointsAt (o : Options) (d : Declaration) (e : Expansion) (i : Initializer)
    (position index : Nat) (warning : Diagnostic) : Prop :=
  warning.severity = .warning ∧
  warning.path = "/members/" ++ toString position ++ "/parameters/" ++ toString index ∧
  ∃ p, i.parameters[index]? = some p ∧
    (∃ pointer, Pointer.ofText? warning.path = some pointer ∧
      d.toJson.at? pointer = some p.toJson) ∧
    ∀ v ∈ o.variants, ∃ g i', e.inRole o (.variant v) = some g ∧ g.initializers = [i'] ∧
      i'.parameters[index]? = some p

/-- The warnings of an expansion are about the parameters at `indices`, in this order. These are the
parameters whose type has no target but mentions an associated type. -/
structure WarnsInOrder (o : Options) (d : Declaration) (e : Expansion) (i : Initializer)
    (position : Nat) (associated : List String) (indices : List Nat) : Prop where
  declared : d.members[position]? = some (.initializer i)
  protocol : ∃ g, e.inRole o .protocol = some g ∧ g.associatedNames = associated
  increasing : indices.Pairwise (· < ·)
  mem_indices_iff : ∀ index, index ∈ indices ↔ ∃ p, i.parameters[index]? = some p ∧
    (∃ reason, p.type.unwrap = .error reason) ∧ ∃ name ∈ associated, p.type.mentions name
  warnings : List.Forall₂ (d.PointsAt o e i position) indices e.warnings

/-- The warning about a skipped parameter points at it. -/
theorem pointsAt_warning {o : Options} {d : Declaration} {m : ModelClass}
    {rs : List ResolvedField}
    (hmember : d.members[m.initializerIndex]? = some (.initializer m.initializer))
    {s : SkippedParameter} (hs : s ∈ m.initializer.skipped (ResolvedField.targets rs)) :
    d.PointsAt o (m.expansion o rs) m.initializer m.initializerIndex s.index (m.warning s) := by
  obtain ⟨p, hp, -, hrefused, -⟩ := Initializer.mem_skipped_iff.mp hs
  have hpath : (m.warning s).path = (Pointer.parameter m.initializerIndex s.index).text := rfl
  refine ⟨rfl, hpath.trans (Pointer.text_parameter _ _), p, hp,
    ⟨_, by rw [hpath, Pointer.ofText?_text], at?_parameter hmember hp⟩, fun v hv => ?_⟩
  refine ⟨_, _, ModelClass.inRole_expansion (Options.variant_mem_roles.mpr hv),
    ModelClass.initializers_generated_variant v, ?_⟩
  rw [Initializer.retargeted, List.getElem?_map, hp, Option.map_some,
    Parameter.retargeted_of_refused _ hrefused]

/-- Every expansion warns about exactly the parameters that it left although they mention an
associated type, in their order, and each warning points at its parameter. -/
theorem warnsInOrder {o : Options} {d : Declaration} {e : Expansion}
    (h : (d.expand o).result = .ok e) :
    ∃ i position associated indices, d.WarnsInOrder o e i position associated indices := by
  obtain ⟨m, rs, hm, -, rfl⟩ := result_expand_eq_ok_iff.mp h
  obtain ⟨-, -, declared, hmembers, hposition, -, -⟩ :=
    ModelClass.result_ofDeclaration_eq_ok_iff.mp hm
  have hmember : d.members[m.initializerIndex]? = some (.initializer m.initializer) := by
    simp [hmembers, hposition]
  refine ⟨m.initializer, m.initializerIndex, (ResolvedField.targets rs).names,
    (m.initializer.skipped (ResolvedField.targets rs)).map SkippedParameter.index, hmember,
    ⟨_, ModelClass.inRole_expansion o.protocol_mem_roles,
      ModelClass.associatedNames_generated_protocol⟩, ?_, fun index => ?_, ?_⟩
  · exact List.pairwise_map.mpr (Initializer.pairwise_skippedFrom 0 _)
  · simp only [List.mem_map, Initializer.mem_skipped_iff]
    constructor
    · rintro ⟨s, ⟨p, hp, -, hrefused, hmentions⟩, rfl⟩
      exact ⟨p, hp, ⟨_, hrefused⟩, hmentions⟩
    · rintro ⟨p, hp, ⟨reason, hrefused⟩, hmentions⟩
      exact ⟨⟨index, p.firstName, reason⟩, ⟨p, hp, rfl, hrefused, hmentions⟩, rfl⟩
  · rw [List.forall₂_map_left_iff, ModelClass.expansion, List.forall₂_map_right_iff,
      List.forall₂_same]
    exact fun s hs => pointsAt_warning hmember hs

/-- A model with two properties in front of its initializer, and parameters whose types are the
target, a list of it by name, something else that is no name, and a function of it. -/
def guestbook : Declaration where
  kind := .class
  name := "Guestbook"
  attributes := [⟨"Model", none⟩]
  members :=
    [.field ⟨[], .let, [⟨.identifier "title", some (.named "String"), none⟩]⟩,
      .field ⟨[⟨"Relationship", none⟩], .var,
        [⟨.identifier "guests", some (.array (.named "Guest")), none⟩]⟩,
      .initializer
        ⟨[],
          [⟨"", "first", none, .named "Guest", none, true⟩,
            ⟨" ", "byName", none, .dictionary (.named "String") (.named "Guest"), none, true⟩,
            ⟨" ", "size", none, .tuple [.named "Int", .named "Int"], none, true⟩,
            ⟨" ", "greet", none, .optional (.function [.named "Guest"] (.named "Void")), none,
              false⟩],
          "", none, "\x7b\x7d"⟩]

/-- Its warnings are about the second and the fourth parameter. -/
theorem guestbook_warnsInOrder :
    ∃ e, (guestbook.expand .default).result = .ok e ∧
      (∃ i position associated indices,
        guestbook.WarnsInOrder .default e i position associated indices) ∧
      e.warnings.map Diagnostic.path = ["/members/2/parameters/1", "/members/2/parameters/3"] := by
  obtain ⟨e, he⟩ : ∃ e, (guestbook.expand .default).result = .ok e := ⟨_, rfl⟩
  refine ⟨e, he, warnsInOrder he, ?_⟩
  cases he
  decide

end Declaration

end ModelPreview
