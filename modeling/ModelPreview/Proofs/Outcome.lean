import Mathlib.Control.Monad.Basic
import Mathlib.Data.List.Forall2
import ModelPreview.Traced

/-!
# Results that may be errors

A sequence of two computations succeeds exactly if the first does and the second does on what the
first hands over. Proofs about readers, decoders and expansions take such sequences apart from
the left. Where the second fails in the same way whatever it is handed, the errors alone tell which
of the two comes first.
-/

namespace ModelPreview

variable {ε α β : Type}

@[simp] theorem Except.ok_bind (a : α) (f : α → Except ε β) : (.ok a >>= f) = f a := rfl

theorem Except.bind_eq_ok_iff {x : Except ε α} {f : α → Except ε β} {b : β} :
    x >>= f = .ok b ↔ ∃ a, x = .ok a ∧ f a = .ok b := by
  cases x with
  | error e => exact ⟨nofun, nofun⟩
  | ok a =>
      constructor
      · intro h
        exact ⟨a, rfl, h⟩
      · rintro ⟨_, ⟨⟩, h⟩
        exact h

theorem Except.map_eq_ok_iff {x : Except ε α} {f : α → β} {b : β} :
    f <$> x = .ok b ↔ ∃ a, x = .ok a ∧ f a = b := by
  cases x with
  | error e => exact ⟨nofun, nofun⟩
  | ok a =>
      constructor
      · intro h
        exact ⟨a, rfl, Except.ok.inj h⟩
      · rintro ⟨_, ⟨⟩, rfl⟩
        rfl

/-- What handles a list element by element succeeds with the results of all elements. -/
theorem Except.eq_ok_iff_forall₂ {f : α → Except ε β} {g : List α → Except ε (List β)}
    (hnil : g [] = .ok [])
    (hcons : ∀ a as, g (a :: as) = f a >>= fun b => g as >>= fun bs => pure (b :: bs))
    {as : List α} {bs : List β} :
    g as = .ok bs ↔ List.Forall₂ (fun a b => f a = .ok b) as bs := by
  induction as generalizing bs with
  | nil => simp [hnil, eq_comm]
  | cons a rest ih =>
      simp only [hcons, Except.bind_eq_ok_iff, ih, List.forall₂_cons_left_iff]
      constructor
      · rintro ⟨first, hfirst, others, hothers, ⟨⟩⟩
        exact ⟨first, others, hfirst, hothers, rfl⟩
      · rintro ⟨first, others, hfirst, hothers, rfl⟩
        exact ⟨first, hfirst, others, hothers, rfl⟩

/-- The error of a computation, if it fails. -/
def Except.error? : Except ε α → Option ε
  | .error e => some e
  | .ok _ => none

@[simp] theorem Except.error?_ok (a : α) : Except.error? (.ok a : Except ε α) = none := rfl

@[simp] theorem Except.error?_error (e : ε) : Except.error? (.error e : Except ε α) = some e := rfl

theorem Except.error?_eq_some_iff {x : Except ε α} {e : ε} :
    Except.error? x = some e ↔ x = .error e := by
  cases x <;> simp

theorem Except.error?_eq_none_iff {x : Except ε α} :
    Except.error? x = none ↔ ∃ a, x = .ok a := by
  cases x <;> simp

@[simp] theorem Except.error?_map (x : Except ε α) (f : α → β) :
    Except.error? (f <$> x) = Except.error? x := by
  cases x <;> rfl

/-- A sequence fails with the error of its first part, or else with that of its second. -/
theorem Except.error?_bind {x : Except ε α} {f : α → Except ε β} {fault : Option ε}
    (h : ∀ a, x = .ok a → Except.error? (f a) = fault) :
    Except.error? (x >>= f) = (Except.error? x).or fault := by
  cases x with
  | error e => rfl
  | ok a =>
      rw [ok_bind, h a rfl]
      rfl

@[simp] theorem Except.error?_bind_pure (x : Except ε α) (f : α → β) :
    Except.error? (x >>= fun a => pure (f a)) = Except.error? x := by
  cases x <;> rfl

namespace Traced

/-- The error of a traced computation, if it fails. -/
def error? (x : Traced ε α) : Option ε :=
  Except.error? x.result

theorem error?_eq_some_iff {x : Traced ε α} {e : ε} : x.error? = some e ↔ x.result = .error e :=
  Except.error?_eq_some_iff

theorem error?_eq_none_iff {x : Traced ε α} : x.error? = none ↔ ∃ a, x.result = .ok a :=
  Except.error?_eq_none_iff

@[simp] theorem error?_pure (a : α) : (pure a : Traced ε α).error? = none := rfl

@[simp] theorem error?_emit (event : Event) : (emit event : Traced ε Unit).error? = none := rfl

@[simp] theorem error?_lift (r : Except ε α) : (lift r).error? = Except.error? r := rfl

theorem error?_bind {x : Traced ε α} {f : α → Traced ε β} {fault : Option ε}
    (h : ∀ a, x.result = .ok a → (f a).error? = fault) :
    (x >>= f).error? = x.error?.or fault := by
  rw [error?, result_bind]
  exact Except.error?_bind h

@[simp] theorem error?_bind_pure (x : Traced ε α) (f : α → β) :
    (x >>= fun a => pure (f a)).error? = x.error? := by
  rw [error?_bind fun a _ => error?_pure (f a), Option.or_none]

/-- Logging a result before going on does not change which error comes first. -/
theorem error?_lift_emit_bind {r : Except ε α} {event : α → Event} {f : α → Traced ε β}
    {fault : Option ε} (h : ∀ a, (f a).error? = fault) :
    (lift r >>= fun a => emit (event a) >>= fun _ => f a).error? =
      (Except.error? r).or fault := by
  have hlogged : ∀ a, (emit (event a) >>= fun _ => f a).error? = fault := by
    intro a
    rw [error?_bind fun _ _ => h a, error?_emit, Option.none_or]
  rw [error?_bind fun a _ => hlogged a, error?_lift]

theorem events_bind_of_ok {x : Traced ε α} {a : α} (h : x.result = .ok a) (f : α → Traced ε β) :
    (x >>= f).events = x.events ++ (f a).events := by
  rw [bind_ok h]

theorem events_bind_of_error {x : Traced ε α} {e : ε} (h : x.result = .error e)
    (f : α → Traced ε β) : (x >>= f).events = x.events := by
  rw [bind_error h]

@[simp] theorem events_bind_pure (x : Traced ε α) (f : α → β) :
    (x >>= fun a => pure (f a)).events = x.events := by
  cases h : x.result with
  | ok a => rw [events_bind_of_ok h, events_pure, List.append_nil]
  | error e => rw [events_bind_of_error h]

@[simp] theorem events_emit_bind (event : Event) (f : Unit → Traced ε β) :
    (emit event >>= f).events = event :: (f ()).events := rfl

@[simp] theorem events_lift_ok_bind (a : α) (f : α → Traced ε β) :
    (lift (.ok a) >>= f).events = (f a).events := rfl

@[simp] theorem events_lift_error_bind (e : ε) (f : α → Traced ε β) :
    (lift (.error e) >>= f).events = [] := rfl

end Traced

end ModelPreview
