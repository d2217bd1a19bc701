import Mathlib.Logic.Basic

/-!
# Balanced brackets

A text is balanced if its round, square and curly brackets match, whatever other characters stand
between them. Balanced texts are the words of a small grammar. Reading a text from the left, with
the brackets in mind that are still to be closed, decides whether it is one, and shows that a
balanced text can be put anywhere: what is read behind it is read as if it were not there. So a
printed text is balanced as soon as its fragments are and the template around them is.
-/

namespace ModelPreview

namespace Brackets

/-- The bracket that closes `c`, if `c` opens one. -/
def closing? : Char → Option Char
  | '(' => some ')'
  | '[' => some ']'
  | '\x7b' => some '\x7d'
  | _ => none

/-- Whether `c` closes a bracket. -/
def isClosing (c : Char) : Bool :=
  c = ')' || c = ']' || c = '\x7d'

/-- The words with matching brackets. -/
inductive Dyck : List Char → Prop
  | nil : Dyck []
  | other {c : Char} {cs : List Char} : closing? c = none → isClosing c = false → Dyck cs →
      Dyck (c :: cs)
  | enclosed {c close : Char} {inner rest : List Char} : closing? c = some close → Dyck inner →
      Dyck rest → Dyck (c :: (inner ++ close :: rest))

/-- The brackets that are still to be closed behind a text, innermost first, if those of `missing`
were to be closed before it. There are none if the text closes a bracket that is not the innermost
one. -/
def missingAfter : (missing : List Char) → List Char → Option (List Char)
  | missing, [] => some missing
  | missing, c :: rest =>
    match closing? c with
    | some close => missingAfter (close :: missing) rest
    | none =>
      if isClosing c then
        match missing with
        | [] => none
        | innermost :: others => if c = innermost then missingAfter others rest else none
      else missingAfter missing rest

theorem closing?_eq_some {c close : Char} (h : closing? c = some close) :
    closing? close = none ∧ isClosing close = true := by
  unfold closing? at h
  split at h <;> cases h <;> decide

variable {c close : Char} {missing cs : List Char}

theorem missingAfter_open (h : closing? c = some close) :
    missingAfter missing (c :: cs) = missingAfter (close :: missing) cs := by
  simp only [missingAfter, h]

theorem missingAfter_close (h : closing? c = some close) :
    missingAfter (close :: missing) (close :: cs) = missingAfter missing cs := by
  obtain ⟨hnone, hclosing⟩ := closing?_eq_some h
  simp only [missingAfter, hnone, hclosing, if_true]

theorem missingAfter_other (hopen : closing? c = none) (hclose : isClosing c = false) :
    missingAfter missing (c :: cs) = missingAfter missing cs := by
  simp only [missingAfter, hopen, hclose, Bool.false_eq_true, if_false]

theorem missingAfter_append (missing cs ds : List Char) :
    missingAfter missing (cs ++ ds) = (missingAfter missing cs).bind (missingAfter · ds) := by
  induction cs generalizing missing with
  | nil => rfl
  | cons c rest ih =>
      simp only [List.cons_append, missingAfter]
      split
      · exact ih _
      · split
        · split
          · rfl
          · split
            · exact ih _
            · rfl
        · exact ih _

/-- A word with matching brackets leaves the brackets to be closed as they were. -/
theorem Dyck.missingAfter_append (h : Dyck cs) (missing ds : List Char) :
    missingAfter missing (cs ++ ds) = missingAfter missing ds := by
  induction h generalizing missing ds with
  | nil => rfl
  | other hopen hclose _ ih =>
      rw [List.cons_append, missingAfter_other hopen hclose, ih]
  | enclosed hopen _ _ ihinner ihrest =>
      rw [List.cons_append, missingAfter_open hopen, List.append_assoc, ihinner, List.cons_append,
        missingAfter_close hopen, ihrest]

/-- A text that closes the given brackets one after another, with matching brackets before, between
and behind them. -/
def Closes : (missing : List Char) → List Char → Prop
  | [], cs => Dyck cs
  | innermost :: others, cs =>
    ∃ inner rest, cs = inner ++ innermost :: rest ∧ Dyck inner ∧ Closes others rest

theorem Closes.other (hopen : closing? c = none) (hclose : isClosing c = false)
    (h : Closes missing cs) : Closes missing (c :: cs) := by
  cases missing with
  | nil => exact .other hopen hclose h
  | cons innermost others =>
      obtain ⟨inner, rest, rfl, hinner, hrest⟩ := h
      exact ⟨c :: inner, rest, rfl, .other hopen hclose hinner, hrest⟩

theorem Closes.enclosed {inner : List Char} (hopen : closing? c = some close) (hinner : Dyck inner)
    (h : Closes missing cs) : Closes missing (c :: (inner ++ close :: cs)) := by
  cases missing with
  | nil => exact .enclosed hopen hinner h
  | cons innermost others =>
      obtain ⟨next, rest, rfl, hnext, hrest⟩ := h
      exact ⟨c :: (inner ++ close :: next), rest, by simp, .enclosed hopen hinner hnext, hrest⟩

/-- A text after which nothing is missing closes what was missing before it. -/
theorem closes_of_missingAfter (h : missingAfter missing cs = some []) : Closes missing cs := by
  induction cs generalizing missing with
  | nil =>
      obtain rfl : missing = [] := Option.some.inj h
      exact .nil
  | cons c rest ih =>
      simp only [missingAfter] at h
      split at h
      · next close hopen =>
          obtain ⟨inner, behind, rfl, hinner, hbehind⟩ := ih h
          exact hbehind.enclosed hopen hinner
      · next hopen =>
          split at h
          · split at h
            · cases h
            · next innermost others =>
                split at h
                · next hsame => exact ⟨[], rest, by rw [hsame]; rfl, .nil, ih h⟩
                · cases h
          · next hclose => exact (ih h).other hopen (Bool.eq_false_iff.mpr hclose)

/-- Brackets match exactly if reading the text to its end leaves none to be closed. -/
theorem dyck_iff : Dyck cs ↔ missingAfter [] cs = some [] := by
  constructor
  · intro h
    have hread := h.missingAfter_append [] []
    rwa [List.append_nil] at hread
  · exact closes_of_missingAfter

end Brackets

open Brackets

/-- The round, square and curly brackets of a text match. -/
def Balanced (s : String) : Prop :=
  Dyck s.toList

namespace Balanced

instance (s : String) : Decidable (Balanced s) :=
  decidable_of_iff _ dyck_iff.symm

variable {s t l r : String}

/-- A balanced text in the middle plays no part. -/
theorem insert (h : Balanced (l ++ r)) (hs : Balanced s) : Balanced (l ++ s ++ r) := by
  unfold Balanced at *
  rw [String.toList_append, dyck_iff, missingAfter_append] at h
  rw [String.append_assoc, String.toList_append, String.toList_append, dyck_iff,
    missingAfter_append]
  simp only [hs.missingAfter_append]
  exact h

theorem append (hs : Balanced s) (ht : Balanced t) : Balanced (s ++ t) := by
  unfold Balanced at *
  rw [String.toList_append, dyck_iff, hs.missingAfter_append, ← dyck_iff]
  exact ht

theorem join {texts : List String} (h : ∀ t ∈ texts, Balanced t) :
    Balanced (String.join texts) := by
  induction texts with
  | nil => exact .nil
  | cons t rest ih =>
      rw [String.join_cons]
      exact (h t List.mem_cons_self).append (ih fun s hs => h s (List.mem_cons_of_mem t hs))

theorem intercalate {separator : String} (hseparator : Balanced separator) {texts : List String}
    (h : ∀ t ∈ texts, Balanced t) : Balanced (separator.intercalate texts) := by
  induction texts with
  | nil => exact .nil
  | cons t rest ih =>
      have ht := h t List.mem_cons_self
      have hrest := ih fun s hs => h s (List.mem_cons_of_mem t hs)
      cases rest with
      | nil => simpa using ht
      | cons next rest =>
          rw [String.intercalate_cons_cons]
          exact (ht.append hseparator).append hrest

/-- Brackets of different kinds that overlap do not match. -/
example : Balanced "f(x)[0] \x7b \x7d" ∧ ¬ Balanced "(]" ∧ ¬ Balanced "([)]" := by decide

end Balanced

end ModelPreview
