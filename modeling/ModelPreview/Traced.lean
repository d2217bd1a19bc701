import ModelPreview.Event.Basic

/-!
# Computations that leave a trace

A traced computation has a result, which may be an error, and the events that it logged on the
way. Sequencing two of them runs the second only after success and puts its events behind those
of the first, so the events of a failed computation are those logged before the failure.
-/

namespace ModelPreview

structure Traced (ε α : Type) where
  events : List Event
  result : Except ε α

namespace Traced

variable {ε α β : Type}

instance : Monad (Traced ε) where
  pure a := ⟨[], .ok a⟩
  bind x f :=
    match x.result with
    | .ok a => ⟨x.events ++ (f a).events, (f a).result⟩
    | .error e => ⟨x.events, .error e⟩

/-- Log one event. -/
def emit (event : Event) : Traced ε Unit :=
  ⟨[event], .ok ()⟩

/-- Log several events. -/
def emitAll (events : List Event) : Traced ε Unit :=
  ⟨events, .ok ()⟩

/-- Stop with an error. -/
def fail (error : ε) : Traced ε α :=
  ⟨[], .error error⟩

/-- A result without events. -/
def lift (result : Except ε α) : Traced ε α :=
  ⟨[], result⟩

/-- The same trace with another description of the error. -/
def mapError {ε' : Type} (f : ε → ε') (x : Traced ε α) : Traced ε' α :=
  ⟨x.events, x.result.mapError f⟩

@[simp] theorem result_pure (a : α) : (pure a : Traced ε α).result = .ok a := rfl

@[simp] theorem events_pure (a : α) : (pure a : Traced ε α).events = [] := rfl

@[simp] theorem result_emit (event : Event) : (emit event : Traced ε Unit).result = .ok () := rfl

@[simp] theorem events_emit (event : Event) : (emit event : Traced ε Unit).events = [event] := rfl

@[simp] theorem result_emitAll (events : List Event) :
    (emitAll events : Traced ε Unit).result = .ok () := rfl

@[simp] theorem events_emitAll (events : List Event) :
    (emitAll events : Traced ε Unit).events = events := rfl

@[simp] theorem result_fail (e : ε) : (fail e : Traced ε α).result = .error e := rfl

@[simp] theorem events_fail (e : ε) : (fail e : Traced ε α).events = [] := rfl

@[simp] theorem result_lift (r : Except ε α) : (lift r).result = r := rfl

@[simp] theorem events_lift (r : Except ε α) : (lift r).events = [] := rfl

/-- The result of a sequence is the sequence of the results. -/
@[simp] theorem result_bind (x : Traced ε α) (f : α → Traced ε β) :
    (x >>= f).result = x.result >>= fun a => (f a).result := by
  simp only [bind]
  cases h : x.result <;> rfl

theorem bind_ok {x : Traced ε α} {a : α} (h : x.result = .ok a) (f : α → Traced ε β) :
    x >>= f = ⟨x.events ++ (f a).events, (f a).result⟩ := by
  simp [bind, h]

theorem bind_error {x : Traced ε α} {e : ε} (h : x.result = .error e) (f : α → Traced ε β) :
    x >>= f = ⟨x.events, .error e⟩ := by
  simp [bind, h]

instance : LawfulMonad (Traced ε) :=
  LawfulMonad.mk' (Traced ε)
    (fun x => by
      obtain ⟨events, result⟩ := x
      cases result <;> simp [Functor.map])
    (fun a f => by simp [bind, pure])
    (fun x f g => by
      obtain ⟨events, result⟩ := x
      cases result with
      | error e => rfl
      | ok a => simp only [bind]; cases (f a).result <;> simp)

/-- Changing the value changes no event and no error. -/
@[simp] theorem result_map (f : α → β) (x : Traced ε α) : (f <$> x).result = f <$> x.result := by
  rw [← bind_pure_comp, result_bind, ← bind_pure_comp]
  rfl

end Traced

end ModelPreview
