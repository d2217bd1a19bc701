import ModelPreview.Proofs.Expansion.Contents

/-!
# Properties and parameters with one target

A variant gets the types of its stored properties as texts, with the name of the target's variant
put between the texts of the wrappers, and the types of its initializer's parameters as types that
are built anew around that name. The first happens where a relationship is declared, the second
wherever the name is among the targets of all relationships. So a relationship and a parameter that
are built around one name are given the same new name, each under wrappers of its own, and they are
written alike if they are declared alike.
-/

namespace ModelPreview

namespace TypeExpr

/-- A property of type `t` and a parameter of type `s`, both built around the name `old`, come out
with the text `stored` and as the type `s'` when `new` takes the place of that name. -/
structure SwapAlike (old new : String) (t s : TypeExpr) (stored : String) (s' : TypeExpr) :
    Prop where
  property : ∃ w : WrappedName, w.typeWith old = t ∧ t.text = w.before ++ old ++ w.behind ∧
    stored = w.before ++ new ++ w.behind
  parameter : ∃ u : WrappedName, u.typeWith old = s ∧ s.text = u.before ++ old ++ u.behind ∧
    u.typeWith new = s' ∧ s'.text = u.before ++ new ++ u.behind
  /-- Types that are declared alike are written alike. -/
  alike : s = t → s'.text = stored

/-- Swapping the name on a text and swapping it on a type. -/
theorem swapAlike_of_unwrap {t s : TypeExpr} {w u : WrappedName} (ht : t.unwrap = .ok w)
    (hs : s.unwrap = .ok u) (hname : u.name = w.name) (new : String) :
    SwapAlike w.name new t s (w.textWith new) (u.typeWith new) := by
  have hw : w.typeWith w.name = t := unwrap_eq_ok_iff.mp ht
  have hu : u.typeWith w.name = s := by rw [← hname, unwrap_eq_ok_iff.mp hs]
  refine ⟨⟨w, hw, ?_, rfl⟩, ⟨u, hu, ?_, rfl, u.text_typeWith new⟩, ?_⟩
  · rw [← hw]
    exact w.text_typeWith w.name
  · rw [← hu]
    exact u.text_typeWith w.name
  · rintro rfl
    obtain rfl : u = w := Except.ok.inj (hs.symm.trans ht)
    exact u.text_typeWith new

end TypeExpr

namespace ModelClass

variable {o : Options} {m : ModelClass} {rs : List ResolvedField} {r : ResolvedField}

/-- A stored property stands where the field stands among the fields. -/
theorem getElem?_members_generated_variant {k : Nat} (hr : rs[k]? = some r) (v : Variant) :
    (m.generated o rs (.variant v)).members[k]? =
      some (r.storedProperty (o.naming.variantName v)) := by
  have hk : k < rs.length := (List.getElem?_eq_some_iff.mp hr).1
  rw [members_generated_variant, List.getElem?_append_left (by simpa using hk), List.getElem?_map,
    hr, Option.map_some]

/-- A parameter that is built around the target of some field is built around the name of the
target's variant in each variant. -/
theorem getElem?_parameters_retargeted {w u : WrappedName} (hr : r ∈ rs) (hw : r.target = some w)
    {j : Nat} {p : Parameter} (hp : m.initializer.parameters[j]? = some p)
    (hu : p.type.unwrap = .ok u) (hname : u.name = w.name) (rename : String → String) :
    (m.initializer.retargeted (ResolvedField.targets rs) rename).parameters[j]? =
      some { p with type := u.typeWith (rename w.name) } := by
  have htarget : u.name ∈ (ResolvedField.targets rs).names :=
    ResolvedField.mem_names_targets.mpr ⟨r, hr, w, hw, hname.symm⟩
  rw [Initializer.retargeted, List.getElem?_map, hp, Option.map_some,
    Parameter.retargeted_of_mem rename hu htarget, hname]

end ModelClass

namespace Declaration

/-- Relationships and parameters that are built around one name: in every variant the stored
property of the one and the type of the other are built around the name of the target's variant, and
everything else about the two is as declared. -/
theorem properties_and_parameters_agree {o : Options} {d : Declaration} {e : Expansion}
    (h : (d.expand o).result = .ok e) :
    ∃ i, .initializer i ∈ d.members ∧ ∀ v ∈ o.variants, ∃ g i',
      e.inRole o (.variant v) = some g ∧ g.initializers = [i'] ∧
      ∀ (name : String) (k : Nat) (f : Field) (b : Binding) (t : TypeExpr) (j : Nat)
        (p : Parameter),
        d.properties[k]? = some (f, b) → ModelClass.isRelationship o f → b.type = some t →
        t.Wraps name → i.parameters[j]? = some p → p.type.Wraps name →
        ∃ own stored type, b.pattern = .identifier own ∧
          g.members[k]? = some (.storedProperty f.keyword own stored b.initializer) ∧
          i'.parameters[j]? = some { p with type } ∧
          TypeExpr.SwapAlike name (o.naming.variantName v name) t p.type stored type := by
  obtain ⟨m, rs, rfl, -, ⟨declared, hmembers⟩, hread⟩ := exists_of_result_expand h
  refine ⟨m.initializer, by simp [hmembers], fun v hv => ?_⟩
  refine ⟨_, _, ModelClass.inRole_expansion (Options.variant_mem_roles.mpr hv),
    ModelClass.initializers_generated_variant v, ?_⟩
  intro name k f b t j p hk hrelationship ht hwraps hj hwraps'
  obtain ⟨r, hrk, hr⟩ := exists_getElem?_of_forall₂ hread hk
  obtain ⟨w, hw, hunwrap⟩ := hr.exists_target hrelationship
  obtain rfl : r.field.type = t := Option.some.inj (hr.field.type.symm.trans ht)
  -- The name that a type is built around is the one that unwrapping finds.
  obtain ⟨w', hw', rfl⟩ := TypeExpr.wraps_iff.mp hwraps
  obtain rfl : w = w' := Except.ok.inj (hunwrap.symm.trans hw')
  obtain ⟨u, hu, hname⟩ := TypeExpr.wraps_iff.mp hwraps'
  refine ⟨r.field.name, w.textWith (o.naming.variantName v w.name), _, hr.field.pattern, ?_,
    ModelClass.getElem?_parameters_retargeted (List.mem_of_getElem? hrk) hw hj hu hname _,
    TypeExpr.swapAlike_of_unwrap hunwrap hu hname _⟩
  rw [ModelClass.getElem?_members_generated_variant hrk v, ResolvedField.storedProperty,
    ResolvedField.typeText, hw, hr.field.keyword, hr.field.defaultValue]

/-- A model with a relationship behind another property, and parameters that are declared like the
relationship and otherwise. -/
def playlist : Declaration where
  kind := .class
  name := "Playlist"
  attributes := [⟨"Model", none⟩]
  members :=
    [.field ⟨[], .var, [⟨.identifier "title", some (.named "String"), none⟩]⟩,
      .field ⟨[⟨"Relationship", none⟩], .let,
        [⟨.identifier "tracks", some (.optional (.array (.named "Track"))), none⟩]⟩,
      .initializer
        ⟨[],
          [⟨"", "queue", none, .optional (.array (.named "Track")), some "nil", true⟩,
            ⟨" ", "tracks", some "first", .array (.optional (.named "Track")), none, false⟩],
          "", none, "\x7b\x7d"⟩]

/-- The parameter that is declared like the relationship has its text in the preview, and the other
one has the same name under wrappers of its own. -/
theorem playlist_agrees :
    ∃ e g i' like unlike, (playlist.expand .default).result = .ok e ∧
      e.inRole .default (.variant .preview) = some g ∧ g.initializers = [i'] ∧
      g.members[1]? = some (.storedProperty .let "tracks" "[PreviewTrack]?" none) ∧
      i'.parameters[0]? = some ⟨"", "queue", none, like, some "nil", true⟩ ∧
      like.text = "[PreviewTrack]?" ∧
      i'.parameters[1]? = some ⟨" ", "tracks", some "first", unlike, none, false⟩ ∧
      unlike.text = "[PreviewTrack?]" := by
  obtain ⟨e, he⟩ : ∃ e, (playlist.expand .default).result = .ok e := ⟨_, rfl⟩
  obtain ⟨i, hi, hagree⟩ := properties_and_parameters_agree he
  obtain ⟨g, i', hg, hi', hagree⟩ := hagree .preview (by decide)
  obtain rfl : i = _ := by simpa [playlist] using hi
  have hwraps : (TypeExpr.optional (.array (.named "Track"))).Wraps "Track" :=
    .optional (.array .named)
  obtain ⟨own, stored, like, hown, hstored, hlike, hswap⟩ :=
    hagree "Track" 1 _ _ _ 0 _ rfl rfl rfl hwraps rfl hwraps
  obtain ⟨-, -, unlike, -, -, hunlike, -⟩ :=
    hagree "Track" 1 _ _ _ 1 _ rfl rfl rfl hwraps rfl (.array (.optional .named))
  have htext : like.text = stored := hswap.alike rfl
  cases hown
  cases he
  cases hg
  cases hi'
  cases hstored
  cases hunlike
  exact ⟨_, _, _, like, _, rfl, rfl, rfl, rfl, hlike, htext, rfl, rfl⟩

end Declaration

end ModelPreview
