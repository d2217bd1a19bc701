import ModelPreview.Commands.Session

/-!
# What sessions do

Three ways to say what a session does. One that does nothing but log has a value, one that reads
amounts to a lookup in the files, and one that changes files meets a contract with an assertion for
success and one for failure, as a failure leaves the files as they were changed up to it. Each way
has rules for single steps and for sequences.
-/

namespace ModelPreview

namespace World

variable {α : Type} {world : World} {f : FileSystem → Option α}

/-- What the next step finds in the files, unless it is at fault. -/
def next? (world : World) (f : FileSystem → Option α) : Option α :=
  if world.faults.headD false then none else f world.files

theorem mem_faults_of_headD (h : world.faults.headD false) : true ∈ world.faults := by
  cases hfaults : world.faults with
  | nil => simp [hfaults] at h
  | cons fault rest =>
      obtain rfl : fault = true := by simpa [hfaults] using h
      exact List.mem_cons_self

theorem next?_of_not_mem_faults (h : true ∉ world.faults) : world.next? f = f world.files :=
  if_neg fun hfault => h (mem_faults_of_headD hfault)

theorem eq_some_of_next? {a : α} (h : world.next? f = some a) : f world.files = some a := by
  unfold next? at h
  split at h
  · cases h
  · exact h

end World

namespace Session

open Host

variable {α β : Type} {world after : World}

theorem run_bind_of_ok {x : Session α} {a : α} (h : x.run world = (.ok a, after))
    (f : α → Session β) : (x >>= f).run world = (f a).run after := by
  change (ExceptT.bindCont f (x.run world).1).run (x.run world).2 = _
  rw [h]
  rfl

theorem run_bind_of_error {x : Session α} {e : CommandError}
    (h : x.run world = (.error e, after)) (f : α → Session β) :
    (x >>= f).run world = (.error e, after) := by
  change (ExceptT.bindCont f (x.run world).1).run (x.run world).2 = _
  rw [h]
  rfl

/-- A sequence succeeds by way of a success of its first part. -/
theorem exists_of_run_bind_ok {x : Session α} {f : α → Session β} {b : β}
    (h : (x >>= f).run world = (.ok b, after)) :
    ∃ a between, x.run world = (.ok a, between) ∧ (f a).run between = (.ok b, after) := by
  rcases hrun : x.run world with ⟨_ | a, between⟩
  · rw [run_bind_of_error hrun] at h
    cases h
  · rw [run_bind_of_ok hrun] at h
    exact ⟨a, between, rfl, h⟩

theorem run_get (world : World) : (get : Session World).run world = (.ok world, world) := rfl

theorem run_step (failure : CommandError) (world : World) :
    (step failure).run world =
      (if world.faults.headD false then .error failure else .ok (),
        { world with faults := world.faults.tail }) := by
  unfold step
  rw [run_bind_of_ok (run_get world)]
  cases world.faults.headD false <;> rfl

theorem run_step_bind (failure : CommandError) (f : Unit → Session α) (world : World) :
    (step failure >>= f).run world =
      if world.faults.headD false then (.error failure, { world with faults := world.faults.tail })
      else (f ()).run { world with faults := world.faults.tail } := by
  have hstep := run_step failure world
  split at hstep
  · next hfault => rw [run_bind_of_error hstep, if_pos hfault]
  · next hfault => rw [run_bind_of_ok hstep, if_neg hfault]

theorem run_look (f : FileSystem → Option α) (world : World) :
    (look f).run world =
      ((world.next? f).elim (.error .files) .ok, { world with faults := world.faults.tail }) := by
  unfold look World.next?
  rw [run_step_bind]
  split
  · rfl
  · rw [run_bind_of_ok (run_get _)]
    cases f world.files <;> rfl

theorem run_change (f : FileSystem → Option FileSystem) (world : World) :
    (change f).run world =
      match world.next? f with
      | some files => (.ok (), { world with files, faults := world.faults.tail })
      | none => (.error .files, { world with faults := world.faults.tail }) := by
  unfold change World.next?
  rw [run_step_bind]
  split
  · rfl
  · rw [run_bind_of_ok (run_get _)]
    cases f world.files <;> rfl

/-- The session has a value and does nothing but log. -/
def Logs (x : Session α) (a : α) : Prop :=
  ∀ world, ∃ events, x.run world = (.ok a, { world with logged := world.logged ++ events })

namespace Logs

theorem pure (a : α) : Logs (pure a) a :=
  fun world => ⟨[], by rw [List.append_nil]; rfl⟩

theorem log (event : Event) : Logs (log event) () :=
  fun _ => ⟨[event], rfl⟩

theorem bind {x : Session α} {a : α} (hx : Logs x a) {f : α → Session β} {b : β}
    (hf : Logs (f a) b) : Logs (x >>= f) b := by
  intro world
  obtain ⟨events, hrun⟩ := hx world
  obtain ⟨events', hrun'⟩ := hf { world with logged := world.logged ++ events }
  refine ⟨events ++ events', ?_⟩
  rw [run_bind_of_ok hrun, hrun', ← List.append_assoc]

theorem forEach_log (events : List Event) :
    Logs (forEach Host.log events) () := by
  induction events with
  | nil => exact pure ()
  | cons event rest ih => exact (log event).bind ih

end Logs

/-- The session finds in the files what a lookup finds, and it neither changes files nor prints.
Only a fault keeps it from finding what is there. -/
structure Reads (x : Session α) (find : FileSystem → Option α) : Prop where
  found : ∀ {world a after}, x.run world = (.ok a, after) → find world.files = some a
  finds : ∀ {world a}, true ∉ world.faults → find world.files = some a →
    ∃ after, x.run world = (.ok a, after) ∧ true ∉ after.faults
  keeps : ∀ {world result after}, x.run world = (result, after) →
    after.files = world.files ∧ after.printed = world.printed

/-- The log does not matter to what is read. -/
theorem Logs.reads {x : Session α} {a : α} (hx : Logs x a) : Reads x fun _ => some a where
  found {world _ _} h := by
    obtain ⟨events, hrun⟩ := hx world
    cases hrun.symm.trans h
    rfl
  finds {world _} hfaults h := by
    obtain ⟨events, hrun⟩ := hx world
    cases h
    exact ⟨_, hrun, hfaults⟩
  keeps {world _ _} h := by
    obtain ⟨events, hrun⟩ := hx world
    cases hrun.symm.trans h
    exact ⟨rfl, rfl⟩

namespace Reads

variable {x : Session α} {find : FileSystem → Option α}

theorem fail (e : CommandError) : Reads (fail e : Session α) fun _ => none where
  found h := by cases h
  finds _ h := by cases h
  keeps h := by cases h; exact ⟨rfl, rfl⟩

theorem pathExists (p : Path) :
    Reads (pathExists p : Session Bool) fun fs => some (fs.exists? p) where
  found h := by cases h; rfl
  finds hfaults h := by cases h; exact ⟨_, rfl, hfaults⟩
  keeps h := by cases h; exact ⟨rfl, rfl⟩

theorem look (f : FileSystem → Option α) : Reads (look f) f where
  found {world a after} h := by
    rw [run_look, Prod.mk.injEq] at h
    apply World.eq_some_of_next?
    cases hnext : world.next? f with
    | none => rw [hnext] at h; cases h.1
    | some b => rw [hnext] at h; cases h.1; rfl
  finds {world a} hfaults h := by
    have hrest : true ∉ world.faults.tail := fun hmem => hfaults (List.mem_of_mem_tail hmem)
    refine ⟨{ world with faults := world.faults.tail }, ?_, hrest⟩
    rw [run_look, World.next?_of_not_mem_faults hfaults, h]
    rfl
  keeps h := by
    rw [run_look] at h
    cases h
    exact ⟨rfl, rfl⟩

theorem bind (hx : Reads x find) {f : α → Session β} {next : α → FileSystem → Option β}
    (hf : ∀ a, Reads (f a) (next a)) :
    Reads (x >>= f) fun fs => (find fs).bind fun a => next a fs where
  found {world b after} h := by
    obtain ⟨a, between, hrun, hrest⟩ := exists_of_run_bind_ok h
    have hfound := (hf a).found hrest
    rw [(hx.keeps hrun).1] at hfound
    simp only [hx.found hrun, Option.bind_some, hfound]
  finds {world b} hfaults h := by
    obtain ⟨a, ha, hb⟩ := Option.bind_eq_some_iff.mp h
    obtain ⟨between, hrun, hbetween⟩ := hx.finds hfaults ha
    rw [← (hx.keeps hrun).1] at hb
    rw [run_bind_of_ok hrun]
    exact (hf a).finds hbetween hb
  keeps {world result after} h := by
    rcases hrun : x.run world with ⟨_ | a, between⟩
    · rw [run_bind_of_error hrun] at h
      cases h
      exact hx.keeps hrun
    · rw [run_bind_of_ok hrun] at h
      obtain ⟨hfiles, hprinted⟩ := (hf a).keeps h
      obtain ⟨hfiles', hprinted'⟩ := hx.keeps hrun
      exact ⟨hfiles.trans hfiles', hprinted.trans hprinted'⟩

/-- The events of a traced computation do not matter to what is read. -/
theorem ofTraced {ε : Type} (describe : ε → CommandError) (t : Traced ε α) :
    Reads (ofTraced describe t : Session α) fun _ => t.result.toOption := by
  have hlog := (Logs.forEach_log t.events).reads
  obtain ⟨events, result⟩ := t
  cases result with
  | ok a => exact hlog.bind fun _ => (Logs.pure a).reads
  | error e => exact hlog.bind fun _ => fail (describe e)

end Reads

/-- The files that a session ends in. -/
def EndsIn (post broken : FileSystem → Prop) : Except CommandError α → FileSystem → Prop
  | .ok _ => post
  | .error _ => broken

/-- From files with `pre`, the session succeeds in files with `post` or fails in files with
`broken`, and it shows nothing of that. -/
def Contract (pre : FileSystem → Prop) (x : Session α) (post broken : FileSystem → Prop) : Prop :=
  ∀ world, pre world.files → ∃ result after, x.run world = (result, after) ∧
    EndsIn post broken result after.files ∧
      after.printed = world.printed ∧ after.logged = world.logged

namespace Contract

variable {pre post broken : FileSystem → Prop}

theorem pure (a : α) (h : ∀ fs, pre fs → post fs) : Contract pre (pure a : Session α) post broken :=
  fun world hpre => ⟨.ok a, world, rfl, h _ hpre, rfl, rfl⟩

theorem fail (e : CommandError) (h : ∀ fs, pre fs → broken fs) :
    Contract pre (fail e : Session α) post broken :=
  fun world hpre => ⟨.error e, world, rfl, h _ hpre, rfl, rfl⟩

theorem consequence {pre' post' broken' : FileSystem → Prop} {x : Session α}
    (h : Contract pre x post broken) (hpre : ∀ fs, pre' fs → pre fs)
    (hpost : ∀ fs, post fs → post' fs) (hbroken : ∀ fs, broken fs → broken' fs) :
    Contract pre' x post' broken' := by
  intro world hstart
  obtain ⟨result, after, hrun, hends, hshown⟩ := h world (hpre _ hstart)
  refine ⟨result, after, hrun, ?_, hshown⟩
  cases result with
  | ok a => exact hpost _ hends
  | error e => exact hbroken _ hends

theorem of_run_ok {x : Session α} (h : Contract pre x post broken) {a : α}
    (hpre : pre world.files) (hrun : x.run world = (.ok a, after)) : post after.files := by
  obtain ⟨result, after', hrun', hends, -⟩ := h world hpre
  cases hrun'.symm.trans hrun
  exact hends

theorem of_run_error {x : Session α} (h : Contract pre x post broken) {e : CommandError}
    (hpre : pre world.files) (hrun : x.run world = (.error e, after)) : broken after.files := by
  obtain ⟨result, after', hrun', hends, -⟩ := h world hpre
  cases hrun'.symm.trans hrun
  exact hends

/-- A step either has its effect or leaves the files alone. -/
theorem change {f : FileSystem → Option FileSystem}
    (h : ∀ fs fs', pre fs → f fs = some fs' → post fs') (hbroken : ∀ fs, pre fs → broken fs) :
    Contract pre (change f) post broken := by
  intro world hpre
  rw [run_change]
  cases hnext : world.next? f with
  | none => exact ⟨_, _, rfl, hbroken _ hpre, rfl, rfl⟩
  | some files => exact ⟨_, _, rfl, h _ _ hpre (World.eq_some_of_next? hnext), rfl, rfl⟩

theorem bind {mid : FileSystem → Prop} {x : Session α} (hx : Contract pre x mid broken)
    {f : α → Session β} (hf : ∀ a, Contract mid (f a) post broken) :
    Contract pre (x >>= f) post broken := by
  intro world hpre
  obtain ⟨result, between, hrun, hends, hprinted, hlogged⟩ := hx world hpre
  cases result with
  | error e => exact ⟨.error e, between, run_bind_of_error hrun f, hends, hprinted, hlogged⟩
  | ok a =>
      obtain ⟨result, after, hrun', hends', hprinted', hlogged'⟩ := hf a between hends
      exact ⟨result, after, (run_bind_of_ok hrun f).trans hrun', hends',
        hprinted'.trans hprinted, hlogged'.trans hlogged⟩

theorem forEach {f : α → Session Unit} {as : List α}
    (h : ∀ a ∈ as, Contract pre (f a) pre broken) : Contract pre (forEach f as) pre broken := by
  induction as with
  | nil => exact pure () fun _ => id
  | cons a rest ih =>
      obtain ⟨hfirst, hrest⟩ := List.forall_mem_cons.mp h
      exact hfirst.bind fun _ => ih hrest

end Contract

end Session

end ModelPreview
