import Mathlib.Data.List.Infix
import Mathlib.Data.List.Nodup
import Mathlib.Data.List.ProdSigma
import ModelPreview.Proofs.Expansion.Contents

/-!
# The names that a batch generates

Each generated name is the name of a model with a word in front of it or behind it, so two models
with different names may still get a name in common. With the default words this happens in few
ways, and all of them need a model that is itself called like something generated: `PreviewItem`
beside `Item`, or `PreviewItem` beside `ItemProtocol`. The case analysis rests on one fact about
texts: if no end of one word is the beginning of another, then a text that begins with the first and
ends with the second holds both of them side by side.
-/

namespace ModelPreview

/-- No end of the word `front` is a beginning of the word `back`, the empty text aside. -/
def Apart (front back : String) : Prop :=
  ∀ overlap ∈ front.toList.tails, overlap <+: back.toList → overlap = []

instance (front back : String) : Decidable (Apart front back) :=
  inferInstanceAs (Decidable (∀ overlap ∈ front.toList.tails, _ → overlap = []))

/-- A text with one word behind it and another in front of it holds both, if they are apart. -/
theorem Apart.append_eq_append_iff {front back : String} (h : Apart front back) {m n : String} :
    m ++ back = front ++ n ↔ ∃ rest, m = front ++ rest ∧ n = rest ++ back := by
  constructor
  · intro heq
    rw [← String.toList_inj, String.toList_append, String.toList_append,
      List.append_eq_append_iff] at heq
    rcases heq with ⟨overlap, hfront, hback⟩ | ⟨rest, hm, hn⟩
    · -- What the words share is an end of the one and a beginning of the other.
      have hnil : overlap = [] :=
        h overlap ((List.mem_tails _ _).mpr ⟨_, hfront.symm⟩) ⟨_, hback.symm⟩
      subst hnil
      refine ⟨"", ?_, ?_⟩
      · rw [← String.toList_inj, String.append_empty, hfront, List.append_nil]
      · rw [← String.toList_inj, String.empty_append, hback, List.nil_append]
    · refine ⟨String.ofList rest, ?_, ?_⟩
      · rw [← String.toList_inj, String.toList_append, String.toList_ofList, hm]
      · rw [← String.toList_inj, String.toList_append, String.toList_ofList, hn]
  · rintro ⟨rest, rfl, rfl⟩
    exact String.append_assoc

theorem preview_append_ne_observable_append (m n : String) :
    "Preview" ++ m ≠ "Observable" ++ n := by
  intro h
  have hhead := congrArg (fun text => text.toList.head?) h
  simp at hhead

theorem observablePreview_append (m : String) :
    "ObservablePreview" ++ m = "Observable" ++ ("Preview" ++ m) :=
  @String.append_assoc "Observable" "Preview" m

/-- By the default words, two models with these names have a generated name in common. -/
inductive NamesOverlap (o : Options) : String → String → Prop
  /-- The protocol of the first is called like the preview of the second. -/
  | preview (rest : String) : NamesOverlap o ("Preview" ++ rest) (rest ++ "Protocol")
  /-- The protocol of the first is called like the observable protocol of the second. -/
  | observable (h : o.emitObservable) (rest : String) :
      NamesOverlap o ("Observable" ++ rest) (rest ++ "Protocol")
  /-- The protocol of the first is called like the observable preview of the second. -/
  | observablePreview (h : o.emitObservable) (rest : String) :
      NamesOverlap o ("ObservablePreview" ++ rest) (rest ++ "Protocol")
  /-- The observable protocol of the first is called like the observable preview of the second. -/
  | nested (h : o.emitObservable) (model : String) : NamesOverlap o ("Preview" ++ model) model

namespace NamesOverlap

variable {o : Options} {m n : String}

/-- A model has no name in common with itself: the words differ in length. -/
theorem ne (h : NamesOverlap o m n) : m ≠ n := by
  have hpreview : "Preview".length = 7 := rfl
  have hobservable : "Observable".length = 10 := rfl
  have hobservablePreview : "ObservablePreview".length = 17 := rfl
  have hprotocol : "Protocol".length = 8 := rfl
  intro heq
  have hlength := congrArg String.length heq
  cases h <;> simp only [String.length_append] at hlength <;> omega

/-- The first of two models with a name in common is called like something generated. -/
theorem begins (h : NamesOverlap o m n) :
    "Preview".toList <+: m.toList ∨ "Observable".toList <+: m.toList := by
  cases h with
  | preview rest => exact .inl ⟨rest.toList, String.toList_append.symm⟩
  | nested => exact .inl ⟨n.toList, String.toList_append.symm⟩
  | observable _ rest => exact .inr ⟨rest.toList, String.toList_append.symm⟩
  | observablePreview _ rest =>
      exact .inr ⟨("Preview" ++ rest).toList, by simp⟩

/-- The name in common belongs to different parts. -/
theorem exists_roles (h : NamesOverlap o m n) : ∃ r ∈ o.roles, ∃ r' ∈ o.roles,
    r.name .default m = r'.name .default n := by
  simp only [Options.mem_roles_iff]
  cases h with
  | preview rest =>
      exact ⟨.protocol, nofun, .variant .preview, nofun, String.append_assoc⟩
  | observable hemit rest =>
      exact ⟨.protocol, nofun, .observableProtocol, fun _ => hemit, String.append_assoc⟩
  | observablePreview hemit rest =>
      exact ⟨.protocol, nofun, .variant .observablePreview, fun _ => hemit, String.append_assoc⟩
  | nested hemit =>
      refine ⟨.observableProtocol, fun _ => hemit, .variant .observablePreview, fun _ => hemit, ?_⟩
      exact String.append_assoc.symm

end NamesOverlap

namespace Role

variable {o : Options} {r r' : Role} {m n : String}

/-- A protocol is called like something else that is generated only if the names overlap. -/
theorem overlap_of_protocolName_eq (hr : r ∈ o.roles) (hne : r ≠ .protocol)
    (h : Naming.default.protocolName m = r.name .default n) : NamesOverlap o m n := by
  rw [Options.mem_roles_iff] at hr
  cases r with
  | protocol => exact absurd rfl hne
  | observableProtocol =>
      have hapart : Apart "Observable" "Protocol" := by decide
      obtain ⟨rest, rfl, rfl⟩ := hapart.append_eq_append_iff.mp h
      exact .observable (hr rfl) rest
  | variant v =>
      cases v with
      | preview =>
          have hapart : Apart "Preview" "Protocol" := by decide
          obtain ⟨rest, rfl, rfl⟩ := hapart.append_eq_append_iff.mp h
          exact .preview rest
      | observablePreview =>
          have hapart : Apart "ObservablePreview" "Protocol" := by decide
          obtain ⟨rest, rfl, rfl⟩ := hapart.append_eq_append_iff.mp h
          exact .observablePreview (hr rfl) rest

/-- An observable protocol is called like a variant only if the names overlap. -/
theorem overlap_of_observableProtocolName_eq {v : Variant} (hv : .variant v ∈ o.roles)
    (h : Naming.default.observableProtocolName m = Naming.default.variantName v n) :
    NamesOverlap o m n := by
  rw [Options.mem_roles_iff] at hv
  cases v with
  | preview => exact absurd h.symm (preview_append_ne_observable_append n m)
  | observablePreview =>
      have hnested : "Observable" ++ m = "Observable" ++ ("Preview" ++ n) :=
        h.trans (observablePreview_append n)
      obtain rfl := (String.append_right_inj "Observable").mp hnested
      exact .nested (hv rfl) n

theorem variantName_inj {v v' : Variant}
    (h : Naming.default.variantName v m = Naming.default.variantName v' n) : v = v' ∧ m = n := by
  cases v with
  | preview =>
      cases v' with
      | preview => exact ⟨rfl, (String.append_right_inj "Preview").mp h⟩
      | observablePreview =>
          have hwords : "Preview" ++ m = "Observable" ++ ("Preview" ++ n) :=
            h.trans (observablePreview_append n)
          exact absurd hwords (preview_append_ne_observable_append m _)
  | observablePreview =>
      cases v' with
      | preview =>
          have hwords : "Preview" ++ n = "Observable" ++ ("Preview" ++ m) :=
            h.symm.trans (observablePreview_append m)
          exact absurd hwords (preview_append_ne_observable_append n _)
      | observablePreview => exact ⟨rfl, (String.append_right_inj "ObservablePreview").mp h⟩

/-- Parts that are called alike are the same part of the same model, or the names of their models
overlap. -/
theorem eq_or_overlap_of_name_eq (hr : r ∈ o.roles) (hr' : r' ∈ o.roles)
    (h : r.name .default m = r'.name .default n) :
    (r = r' ∧ m = n) ∨ NamesOverlap o m n ∨ NamesOverlap o n m := by
  cases r with
  | protocol =>
      by_cases hsame : r' = .protocol
      · subst hsame
        exact .inl ⟨rfl, (String.append_left_inj "Protocol").mp h⟩
      · exact .inr (.inl (overlap_of_protocolName_eq hr' hsame h))
  | observableProtocol =>
      cases r' with
      | protocol => exact .inr (.inr (overlap_of_protocolName_eq hr nofun h.symm))
      | observableProtocol => exact .inl ⟨rfl, (String.append_right_inj "Observable").mp h⟩
      | variant v => exact .inr (.inl (overlap_of_observableProtocolName_eq hr' h))
  | variant v =>
      cases r' with
      | protocol => exact .inr (.inr (overlap_of_protocolName_eq hr nofun h.symm))
      | observableProtocol =>
          exact .inr (.inr (overlap_of_observableProtocolName_eq hr h.symm))
      | variant v' =>
          obtain ⟨rfl, rfl⟩ := variantName_inj h
          exact .inl ⟨rfl, rfl⟩

end Role

/-- The names of all parts that are played for the models of a batch. -/
def Options.generatedNames (o : Options) (models : List String) : List String :=
  models.flatMap fun model => o.roles.map (Role.name o.naming model)

namespace Options

variable {o : Options}

theorem nodup_roleNames (hnaming : o.naming = .default) (model : String) :
    (o.roles.map (Role.name o.naming model)).Nodup := by
  refine o.nodup_roles.map_on fun r hr r' hr' h => ?_
  rw [hnaming] at h
  rcases Role.eq_or_overlap_of_name_eq hr hr' h with ⟨hsame, -⟩ | hoverlap | hoverlap
  · exact hsame
  · exact absurd rfl hoverlap.ne
  · exact absurd rfl hoverlap.ne

/-- The names generated for several models are distinct exactly if no two of the models overlap. -/
theorem nodup_generatedNames_iff (hnaming : o.naming = .default) {models : List String}
    (hmodels : models.Nodup) :
    (o.generatedNames models).Nodup ↔ ∀ m ∈ models, ∀ n ∈ models, ¬ NamesOverlap o m n := by
  have hpairs : o.generatedNames models =
      (models ×ˢ o.roles).map fun pair => Role.name o.naming pair.1 pair.2 := by
    simp only [generatedNames, SProd.sprod, List.product, List.map_flatMap, List.map_map,
      Function.comp_def]
  rw [hpairs, List.nodup_map_iff_inj_on (hmodels.product o.nodup_roles), hnaming]
  constructor
  · intro hinjective m hm n hn hoverlap
    obtain ⟨r, hr, r', hr', hname⟩ := hoverlap.exists_roles
    have hpair := hinjective (m, r) (List.mem_product.mpr ⟨hm, hr⟩) (n, r')
      (List.mem_product.mpr ⟨hn, hr'⟩) hname
    exact hoverlap.ne (congrArg Prod.fst hpair)
  · rintro hdisjoint ⟨m, r⟩ hm ⟨n, r'⟩ hn hname
    obtain ⟨hm, hr⟩ := List.mem_product.mp hm
    obtain ⟨hn, hr'⟩ := List.mem_product.mp hn
    rcases Role.eq_or_overlap_of_name_eq hr hr' hname with ⟨rfl, rfl⟩ | hoverlap | hoverlap
    · rfl
    · exact absurd hoverlap (hdisjoint m hm n hn)
    · exact absurd hoverlap (hdisjoint n hn m hm)

end Options

namespace Declaration

variable {o : Options}

theorem names_expand {d : Declaration} {e : Expansion} (h : (d.expand o).result = .ok e) :
    e.declarations.map Generated.Declaration.name = o.roles.map (Role.name o.naming d.name) := by
  obtain ⟨m, rs, rfl, hname, -, -⟩ := exists_of_result_expand h
  rw [ModelClass.expansion, List.map_map, ← hname]
  exact List.map_congr_left fun r _ => ModelClass.name_generated r

theorem names_expandAll {ds : List Declaration} {es : List Expansion}
    (h : List.Forall₂ (fun d e => (expand o d).result = .ok e) ds es) :
    (es.flatMap fun e => e.declarations.map Generated.Declaration.name) =
      o.generatedNames (ds.map Declaration.name) := by
  induction h with
  | nil => rfl
  | cons hfirst _ ih =>
      rw [List.flatMap_cons, ih, names_expand hfirst, List.map_cons, Options.generatedNames,
        Options.generatedNames, List.flatMap_cons]

/-- By the default words, each expansion of a batch has distinct names. The names of the whole batch
are distinct exactly if no two of its models overlap. -/
theorem generatedNames_distinct_iff (hnaming : o.naming = .default) {ds : List Declaration}
    {es : List Expansion} (hexpand : List.Forall₂ (fun d e => (expand o d).result = .ok e) ds es)
    (hnames : (ds.map Declaration.name).Nodup) :
    (∀ e ∈ es, (e.declarations.map Generated.Declaration.name).Nodup) ∧
      ((es.flatMap fun e => e.declarations.map Generated.Declaration.name).Nodup ↔
        ∀ d ∈ ds, ∀ d' ∈ ds, ¬ NamesOverlap o d.name d'.name) := by
  constructor
  · intro e he
    obtain ⟨i, hi⟩ := List.mem_iff_getElem?.mp he
    obtain ⟨d, -, hd⟩ := exists_getElem?_of_forall₂ hexpand.flip hi
    rw [names_expand hd]
    exact Options.nodup_roleNames hnaming d.name
  · rw [names_expandAll hexpand, Options.nodup_generatedNames_iff hnaming hnames]
    simp only [List.forall_mem_map]

/-- A model with nothing but an initializer. -/
def bare (name : String) : Declaration where
  kind := .class
  name
  attributes := [⟨"Model", none⟩]
  members := [.initializer ⟨[], [], "", none, "\x7b\x7d"⟩]

/-- A model called like the protocol of another gets names of its own, as long as there is none that
is called like a preview. -/
theorem item_itemProtocol_names_distinct :
    ∃ es, List.Forall₂ (fun d e => (expand .default d).result = .ok e)
        [bare "Item", bare "ItemProtocol"] es ∧
      ([bare "Item", bare "ItemProtocol"].map Declaration.name).Nodup ∧
      (∀ e ∈ es, (e.declarations.map Generated.Declaration.name).Nodup) ∧
      (es.flatMap fun e => e.declarations.map Generated.Declaration.name).Nodup := by
  obtain ⟨es, hexpand⟩ : ∃ es, List.Forall₂ (fun d e => (expand .default d).result = .ok e)
      [bare "Item", bare "ItemProtocol"] es := ⟨_, .cons rfl (.cons rfl .nil)⟩
  have hnames : ([bare "Item", bare "ItemProtocol"].map Declaration.name).Nodup := by decide
  have hplain : ∀ d ∈ [bare "Item", bare "ItemProtocol"],
      ¬ ("Preview".toList <+: d.name.toList ∨ "Observable".toList <+: d.name.toList) := by decide
  obtain ⟨heach, hbatch⟩ := generatedNames_distinct_iff rfl hexpand hnames
  refine ⟨es, hexpand, hnames, heach, hbatch.mpr fun d hd d' _ hoverlap => ?_⟩
  exact hplain d hd hoverlap.begins

/-- Not every batch has distinct names: the observable protocol of `PreviewItem` is called like the
observable preview of `Item`. -/
theorem not_all_generatedNames_distinct :
    ¬ ∀ (o : Options) (ds : List Declaration) (es : List Expansion), o.naming = .default →
      List.Forall₂ (fun d e => (expand o d).result = .ok e) ds es →
        (ds.map Declaration.name).Nodup →
          (es.flatMap fun e => e.declarations.map Generated.Declaration.name).Nodup := by
  intro hall
  have hdistinct := hall .default [bare "Item", bare "PreviewItem"] _ rfl
    (.cons rfl (.cons rfl .nil)) (by decide)
  exact absurd hdistinct (by decide)

end Declaration

end ModelPreview
