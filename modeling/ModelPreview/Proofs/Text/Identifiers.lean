/-!
# Identifiers and dotted paths

An identifier begins with a character of one class and goes on with characters of a larger one.
Which characters these are is left open, except that dots and colons are not among them. A dotted
path is one or more identifiers with dots between them. It stays one with an affix, and it is an
identifier exactly if there is no dot in it.
-/

namespace ModelPreview

/-- The characters that an identifier may begin with and go on with. -/
structure IdentifierChars where
  begins : Char → Bool
  goesOn : Char → Bool
  goesOn_of_begins : ∀ c, begins c → goesOn c
  not_goesOn_dot : ¬ goesOn '.'
  not_goesOn_colon : ¬ goesOn ':'

namespace IdentifierChars

/-- Letters, digits and the underscore. -/
def ascii : IdentifierChars where
  begins c := c.isAlpha || c == '_'
  goesOn c := c.isAlphanum || c == '_'
  goesOn_of_begins c h := by
    simp only [Char.isAlphanum, Bool.or_eq_true] at h ⊢
    exact h.imp_left .inl
  not_goesOn_dot := by decide
  not_goesOn_colon := by decide

def isIdentifier (σ : IdentifierChars) (s : String) : Bool :=
  s.toList.head?.any σ.begins && s.toList.all σ.goesOn

/-- What an identifier may have in front of it. -/
def isFront (σ : IdentifierChars) (affix : String) : Bool :=
  affix == "" || σ.isIdentifier affix

/-- What an identifier may have behind it. -/
def isBehind (σ : IdentifierChars) (affix : String) : Bool :=
  affix.toList.all σ.goesOn

/-- Identifiers with dots between them. -/
inductive IsPath (σ : IdentifierChars) : String → Prop
  | identifier {s : String} : σ.isIdentifier s → IsPath σ s
  | dotted {s rest : String} : σ.isIdentifier s → IsPath σ rest → IsPath σ (s ++ "." ++ rest)

variable {σ : IdentifierChars} {s affix : String}

theorem isIdentifier_iff :
    σ.isIdentifier s ↔
      (∃ c, s.toList.head? = some c ∧ σ.begins c) ∧ ∀ c ∈ s.toList, σ.goesOn c := by
  simp [isIdentifier, Option.any_eq_true]

theorem isIdentifier_append (hs : σ.isIdentifier s) (haffix : σ.isBehind affix) :
    σ.isIdentifier (s ++ affix) := by
  rw [isIdentifier_iff] at hs ⊢
  obtain ⟨⟨c, hc, hbegins⟩, hgoesOn⟩ := hs
  rw [isBehind, List.all_eq_true] at haffix
  rw [String.toList_append]
  exact ⟨⟨c, by simp [hc], hbegins⟩, List.forall_mem_append.mpr ⟨hgoesOn, haffix⟩⟩

theorem isIdentifier_front_append (haffix : σ.isFront affix) (hs : σ.isIdentifier s) :
    σ.isIdentifier (affix ++ s) := by
  rw [isFront, Bool.or_eq_true, beq_iff_eq] at haffix
  obtain rfl | haffix := haffix
  · rwa [String.empty_append]
  · have hbehind : σ.isBehind s := List.all_eq_true.mpr (isIdentifier_iff.mp hs).2
    exact isIdentifier_append haffix hbehind

theorem not_mem_dot_of_isIdentifier (hs : σ.isIdentifier s) : '.' ∉ s.toList :=
  fun hmem => σ.not_goesOn_dot ((isIdentifier_iff.mp hs).2 _ hmem)

theorem not_mem_colon_of_isIdentifier (hs : σ.isIdentifier s) : ':' ∉ s.toList :=
  fun hmem => σ.not_goesOn_colon ((isIdentifier_iff.mp hs).2 _ hmem)

namespace IsPath

/-- An affix behind a path goes to its last identifier. -/
theorem append (hs : σ.IsPath s) (haffix : σ.isBehind affix) : σ.IsPath (s ++ affix) := by
  induction hs with
  | identifier hs => exact .identifier (isIdentifier_append hs haffix)
  | dotted hs _ ih =>
      rw [String.append_assoc]
      exact .dotted hs ih

/-- An affix in front of a path goes to its first identifier. -/
theorem front_append (haffix : σ.isFront affix) (hs : σ.IsPath s) : σ.IsPath (affix ++ s) := by
  cases hs with
  | identifier hs => exact .identifier (isIdentifier_front_append haffix hs)
  | dotted hs hrest =>
      rw [← String.append_assoc, ← String.append_assoc]
      exact .dotted (isIdentifier_front_append haffix hs) hrest

theorem not_mem_colon (hs : σ.IsPath s) : ':' ∉ s.toList := by
  induction hs with
  | identifier hs => exact not_mem_colon_of_isIdentifier hs
  | dotted hs _ ih => simp [not_mem_colon_of_isIdentifier hs, ih]

/-- A path is an identifier unless there is a dot in it. -/
theorem isIdentifier_iff (hs : σ.IsPath s) : σ.isIdentifier s ↔ '.' ∉ s.toList := by
  cases hs with
  | identifier hs => exact iff_of_true hs (not_mem_dot_of_isIdentifier hs)
  | dotted hs hrest =>
      exact iff_of_false (fun h => not_mem_dot_of_isIdentifier h (by simp)) (by simp)

end IsPath

end IdentifierChars

end ModelPreview
