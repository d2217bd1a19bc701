import ModelPreview.ModelClass
import ModelPreview.Proofs.Outcome

/-!
# Faults in source order

What is wrong with a member can be told from the member itself and from whether an initializer
stands before it. Reading a model class stops at the first such fault, and where there is none, it
only misses the initializer. The error of a declaration is therefore a function of its members that
neither builds fields nor logs anything, and members behind a fault do not change it.
-/

namespace ModelPreview

/-- A binding of the form `name: Type` or `name: Type = default`. -/
structure Binding.IsPlain (b : Binding) : Prop where
  pattern : ∃ name, b.pattern = .identifier name
  type : ∃ t, b.type = some t

/-- A property declaration with bindings, all of them of the plain form. -/
structure Field.IsPlain (f : Field) : Prop where
  bound : f.bindings ≠ []
  bindings : ∀ b ∈ f.bindings, b.IsPlain

/-- What is wrong with a binding: it must bind a plain name and state a type. -/
def Binding.fault? (b : Binding) : Option ExpansionError :=
  match b.pattern, b.type with
  | .identifier _, some _ => none
  | .identifier _, none => some (.fieldMissingType b.text)
  | _, _ => some (.fieldTooComplex b.text)

/-- What is wrong with a property declaration: it has no binding, or else what is wrong with the
first of its bindings that has a fault. -/
def Field.fault? (f : Field) : Option ExpansionError :=
  if f.bindings = [] then some (.fieldTooComplex f.head) else f.bindings.findSome? Binding.fault?

namespace Member

def isInitializer : Member → Bool
  | .initializer _ => true
  | _ => false

/-- What is wrong with a member; `closed` says whether an initializer stands before it. -/
def fault? (closed : Bool) : Member → Option ExpansionError
  | .field f => if closed then some .initializerOutOfOrder else f.fault?
  | .initializer _ => if closed then some .duplicateInitializer else none
  | .other kind _ => some (.unsupportedMemberKind kind)

/-- The first fault among members. -/
def firstFault? : (closed : Bool) → List Member → Option ExpansionError
  | _, [] => none
  | closed, m :: rest => (m.fault? closed).or (firstFault? (closed || m.isInitializer) rest)

/-- What is wrong with members taken together. -/
def missing? (members : List Member) : Option ExpansionError :=
  if members.any isInitializer then none else some .missingInitializer

end Member

/-- What is wrong with a declaration. -/
def Declaration.fault? (options : Options) (d : Declaration) : Option ExpansionError :=
  if ModelClass.isMarked options d then
    (Member.firstFault? false d.members).or (Member.missing? d.members)
  else some .notAModelDeclaration

theorem Binding.fault?_eq_none_iff {b : Binding} : b.fault? = none ↔ b.IsPlain := by
  obtain ⟨pattern, type, initializer⟩ := b
  constructor
  · intro h
    cases pattern with
    | identifier name =>
        cases type with
        | some t => exact ⟨⟨name, rfl⟩, t, rfl⟩
        | none => cases h
    | wildcard | tuple elements => cases h
  · rintro ⟨⟨name, hname⟩, t, ht⟩
    cases hname
    cases ht
    rfl

theorem Field.fault?_eq_none_iff {f : Field} : f.fault? = none ↔ f.IsPlain := by
  unfold Field.fault?
  split
  · next hempty => exact ⟨nofun, fun h => absurd hempty h.bound⟩
  · next hbound =>
      simp only [List.findSome?_eq_none_iff, Binding.fault?_eq_none_iff]
      exact ⟨fun h => ⟨hbound, h⟩, Field.IsPlain.bindings⟩

namespace Member

/-- Behind an initializer every member is a fault. -/
theorem firstFault?_true_eq_none_iff {members : List Member} :
    firstFault? true members = none ↔ members = [] := by
  cases members with
  | nil => simp [firstFault?]
  | cons member rest => cases member <;> simp [firstFault?, fault?]

/-- A list of property declarations, seen as a list of members. -/
theorem forall_field_iff {members : List Member} :
    (∀ member ∈ members, ∃ f, member = .field f ∧ f.IsPlain) ↔
      ∃ declared : List Field, members = declared.map .field ∧ ∀ f ∈ declared, f.IsPlain := by
  constructor
  · intro h
    induction members with
    | nil => exact ⟨[], rfl, by simp⟩
    | cons member rest ih =>
        obtain ⟨f, rfl, hf⟩ := h member (by simp)
        obtain ⟨declared, rfl, hall⟩ := ih fun m hm => h m (by simp [hm])
        exact ⟨f :: declared, rfl, by simpa using ⟨hf, hall⟩⟩
  · rintro ⟨declared, rfl, hall⟩ member hmember
    obtain ⟨f, hf, rfl⟩ := List.mem_map.mp hmember
    exact ⟨f, rfl, hall f hf⟩

/-- Members without a fault are plain property declarations that an initializer may follow. -/
theorem firstFault?_eq_none_iff {members : List Member} :
    firstFault? false members = none ↔
      ∃ (declared : List Field) (rest : List Member), members = declared.map .field ++ rest ∧
        (∀ f ∈ declared, f.IsPlain) ∧ (rest = [] ∨ ∃ i, rest = [.initializer i]) := by
  -- A property declaration leaves the members open, an initializer closes them.
  induction members with
  | nil =>
      exact ⟨fun _ => ⟨[], [], rfl, by simp, .inl rfl⟩, fun _ => rfl⟩
  | cons member tail ih =>
      cases member with
      | field f =>
          change f.fault?.or (firstFault? false tail) = none ↔ _
          rw [Option.or_eq_none_iff, Field.fault?_eq_none_iff, ih]
          constructor
          · rintro ⟨hf, declared, rest, rfl, hall, hrest⟩
            exact ⟨f :: declared, rest, rfl, by simpa using ⟨hf, hall⟩, hrest⟩
          · rintro ⟨declared, rest, hmembers, hall, hrest⟩
            cases declared with
            | nil => rcases hrest with rfl | ⟨i, rfl⟩ <;> cases hmembers
            | cons first declared =>
                cases hmembers
                have hothers : ∀ g ∈ declared, g.IsPlain := fun g hg => hall g (by simp [hg])
                exact ⟨hall f (by simp), declared, rest, rfl, hothers, hrest⟩
      | initializer i =>
          change firstFault? true tail = none ↔ _
          rw [firstFault?_true_eq_none_iff]
          constructor
          · rintro rfl
            exact ⟨[], _, rfl, by simp, .inr ⟨i, rfl⟩⟩
          · rintro ⟨declared, rest, hmembers, -, hrest⟩
            cases declared with
            | nil => rcases hrest with rfl | ⟨j, rfl⟩ <;> cases hmembers; rfl
            | cons first declared => cases hmembers
      | other kind source =>
          refine ⟨nofun, ?_⟩
          rintro ⟨declared, rest, hmembers, -, hrest⟩
          cases declared with
          | nil => rcases hrest with rfl | ⟨i, rfl⟩ <;> cases hmembers
          | cons first declared => cases hmembers

/-- Neither a fault nor a missing initializer: plain property declarations and one initializer. -/
theorem firstFault?_or_missing?_eq_none_iff {members : List Member} :
    (firstFault? false members).or (missing? members) = none ↔
      ∃ (declared : List Field) (i : Initializer),
        members = declared.map .field ++ [.initializer i] ∧ ∀ f ∈ declared, f.IsPlain := by
  rw [Option.or_eq_none_iff, firstFault?_eq_none_iff]
  constructor
  · rintro ⟨⟨declared, rest, rfl, hall, rfl | ⟨i, rfl⟩⟩, hmissing⟩
    · simp [missing?, isInitializer] at hmissing
    · exact ⟨declared, i, rfl, hall⟩
  · rintro ⟨declared, i, rfl, hall⟩
    exact ⟨⟨declared, _, rfl, hall, .inr ⟨i, rfl⟩⟩, by simp [missing?, isInitializer]⟩

theorem firstFault?_append (closed : Bool) (xs ys : List Member) :
    firstFault? closed (xs ++ ys) =
      (firstFault? closed xs).or (firstFault? (closed || xs.any isInitializer) ys) := by
  induction xs generalizing closed with
  | nil => simp [firstFault?]
  | cons x rest ih =>
      simp only [List.cons_append, firstFault?, ih, List.any_cons, Option.or_assoc, Bool.or_assoc]

/-- A fault comes up at one member: just not before it, and from it on. -/
theorem exists_take_of_firstFault? {closed : Bool} {members : List Member} {e : ExpansionError}
    (h : firstFault? closed members = some e) :
    ∃ n ≤ members.length, firstFault? closed (members.take n) = some e ∧
      ∀ k < n, firstFault? closed (members.take k) = none := by
  induction members generalizing closed with
  | nil => cases h
  | cons member rest ih =>
      rw [firstFault?, Option.or_eq_some_iff] at h
      rcases h with hown | ⟨hown, hrest⟩
      · refine ⟨1, by simp, by simp [firstFault?, hown], fun k hk => ?_⟩
        obtain rfl : k = 0 := by omega
        rfl
      · obtain ⟨n, hn, htake, hshorter⟩ := ih hrest
        refine ⟨n + 1, by simpa using hn, by simp [firstFault?, hown, htake], fun k hk => ?_⟩
        cases k with
        | zero => rfl
        | succ k => simp [firstFault?, hown, hshorter k (by omega)]

end Member

/-- Whether an error is about one member, and neither about the declaration as a whole nor about
the type of a relationship. -/
def ExpansionError.isMemberFault : ExpansionError → Bool
  | .unsupportedMemberKind _ | .initializerOutOfOrder | .duplicateInitializer
  | .fieldTooComplex _ | .fieldMissingType _ => true
  | .notAModelDeclaration | .missingInitializer | .missingRelationshipAttribute _
  | .unsupportedTypeShape _ => false

theorem Binding.isMemberFault_of_fault? {b : Binding} {e : ExpansionError}
    (h : b.fault? = some e) : e.isMemberFault := by
  unfold Binding.fault? at h
  split at h <;> cases h <;> rfl

theorem Field.isMemberFault_of_fault? {f : Field} {e : ExpansionError} (h : f.fault? = some e) :
    e.isMemberFault := by
  unfold Field.fault? at h
  split at h
  · cases h
    rfl
  · obtain ⟨b, -, hb⟩ := List.exists_of_findSome?_eq_some h
    exact Binding.isMemberFault_of_fault? hb

theorem Member.isMemberFault_of_fault? {closed : Bool} {m : Member} {e : ExpansionError}
    (h : m.fault? closed = some e) : e.isMemberFault := by
  cases m with
  | field f =>
      cases closed with
      | false => exact Field.isMemberFault_of_fault? h
      | true => cases h; rfl
  | initializer i => cases closed <;> cases h; rfl
  | other kind source => cases h; rfl

theorem Member.isMemberFault_of_firstFault? {closed : Bool} {members : List Member}
    {e : ExpansionError} (h : firstFault? closed members = some e) : e.isMemberFault := by
  induction members generalizing closed with
  | nil => cases h
  | cons member rest ih =>
      rw [firstFault?, Option.or_eq_some_iff] at h
      rcases h with hown | ⟨-, hrest⟩
      · exact isMemberFault_of_fault? hown
      · exact ih hrest

theorem Field.boundNames_of_eq_nil {f : Field} (h : f.bindings = []) :
    f.boundNames = .error (.fieldTooComplex f.head) :=
  if_pos (List.isEmpty_iff.mpr h)

theorem Field.boundNames_of_ne_nil {f : Field} (h : f.bindings ≠ []) :
    f.boundNames = .ok f.bindings :=
  if_neg (mt List.isEmpty_iff.mp h)

theorem ModelField.error?_ofBinding (keyword : BindingKeyword) (relationship : Bool)
    (b : Binding) : Except.error? (ofBinding keyword relationship b) = b.fault? := by
  obtain ⟨pattern, type, initializer⟩ := b
  cases pattern <;> cases type <;> rfl

namespace ModelClass

variable {options : Options} {model : String}

theorem error?_readBindings (keyword : BindingKeyword) (relationship : Bool)
    (bindings : List Binding) :
    (readBindings model keyword relationship bindings).error? =
      bindings.findSome? Binding.fault? := by
  induction bindings with
  | nil => rfl
  | cons b rest ih =>
      rw [readBindings,
        Traced.error?_lift_emit_bind fun _ => (Traced.error?_bind_pure _ _).trans ih,
        ModelField.error?_ofBinding, List.findSome?_cons]
      cases b.fault? <;> rfl

theorem error?_readField (f : Field) : (readField options model f).error? = f.fault? := by
  by_cases hempty : f.bindings = []
  · rw [readField, Field.boundNames_of_eq_nil hempty, Field.fault?, if_pos hempty]
    rfl
  · rw [readField, Field.boundNames_of_ne_nil hempty, Field.fault?, if_neg hempty]
    exact error?_readBindings f.keyword (isRelationship options f) f.bindings

/-- Behind an initializer every member is a fault. -/
theorem error?_checkEnd (members : List Member) :
    Except.error? (checkEnd members) = Member.firstFault? true members := by
  cases members with
  | nil => rfl
  | cons member rest => cases member <;> rfl

theorem error?_readMembers (index : Nat) (members : List Member) :
    (readMembers options model index members).error? =
      (Member.firstFault? false members).or (Member.missing? members) := by
  -- Fields and their logging play no part: what follows a property declaration fails in the same
  -- way whatever has been read from it.
  induction members generalizing index with
  | nil => rfl
  | cons member rest ih =>
      cases member with
      | field f =>
          rw [readMembers, Traced.error?_bind fun own _ => Traced.error?_bind_pure _ _,
            error?_readField, ih, ← Option.or_assoc]
          rfl
      | initializer i =>
          rw [readMembers, Traced.error?_bind_pure, Traced.error?_lift, error?_checkEnd]
          exact Option.or_none.symm
      | other kind source => rfl

/-- The error of a declaration is its first fault. -/
theorem error?_ofDeclaration (d : Declaration) :
    (ofDeclaration options d).error? = d.fault? options := by
  unfold ofDeclaration Declaration.fault?
  split
  · rw [Traced.error?_bind_pure, error?_readMembers]
  · rfl

end ModelClass

end ModelPreview
