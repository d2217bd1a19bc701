import ModelPreview.Proofs.Commands.AtomicWrite

/-!
# What an atomic write touches

The file beside the target belongs to the write: what it held is lost when it is opened, it is gone
when it was renamed, and it stays behind when the write fails in between. Directories on the way
apart, no other place is touched, and the target not before the renaming.
-/

namespace ModelPreview

namespace FileSystem

variable {p t : Path} {text : String} {before after : FileSystem}

/-- There is a place beside every file. -/
theorem exists_locate?_temporary {fs : FileSystem} {l : Location} (ht : p.temporary? = some t)
    (hl : fs.locate? p = some l) : ∃ s, fs.locate? t = some s := by
  obtain ⟨start, name, hpsteps, htsteps, htop⟩ := Path.exists_of_temporary? ht
  simp only [locate?, hpsteps, htsteps, htop] at hl ⊢
  obtain ⟨d, hd, hdirectory, rfl⟩ := walk_concat_down.mp hl
  exact ⟨_, walk_concat_down.mpr ⟨d, hd, hdirectory, rfl⟩⟩

/-- The target has the text and nothing is beside it, and these two were touched. -/
def MovedInPlace (p : Path) (text : String) (before after : FileSystem) : Prop :=
  after.read? p = some text ∧
    ∃ target sibling, after.locate? p = some target ∧ after.beside? p = some sibling ∧
      target ≠ sibling ∧ after.entryAt? sibling = none ∧
      Frame p.directories [target, sibling] before after

/-- A file without content or with the whole text is beside the target, and it was touched. -/
def LeftBeside (p : Path) (text : String) (before after : FileSystem) : Prop :=
  ∃ sibling content, after.beside? p = some sibling ∧ after.locate? p ≠ some sibling ∧
    after.entryAt? sibling = some (.file content) ∧ (content = "" ∨ content = text) ∧
    Frame p.directories [sibling] before after

theorem Replaced.movedInPlace (h : Replaced p text before after) (ht : p.temporary? = some t) :
    MovedInPlace p text before after := by
  obtain ⟨target, htarget⟩ : ∃ target, after.locate? p = some target := by
    have hread := h.read
    unfold read? find? at hread
    cases hlocate : after.locate? p with
    | none => simp [hlocate] at hread
    | some target => exact ⟨target, rfl⟩
  obtain ⟨sibling, hsibling⟩ := exists_locate?_temporary ht htarget
  have hbeside : after.beside? p = some sibling := by rw [beside?_of_temporary? ht, hsibling]
  have hframe := h.frame
  have hne : target ≠ sibling := by
    rintro rfl
    exact locate?_ne_of_temporary? ht hsibling htarget
  rw [htarget, hbeside] at hframe
  exact ⟨h.read, target, sibling, htarget, hbeside, hne, h.cleared sibling (by simp [hbeside]),
    hframe⟩

theorem StagedOneOf.leftBeside (h : StagedOneOf p ["", text] before after) :
    LeftBeside p text before after := by
  obtain ⟨t, content, ht, hcontent, sibling, hsibling, hfile, hframe⟩ := h
  have hbeside : after.beside? p = some sibling := by rw [beside?_of_temporary? ht, hsibling]
  exact ⟨sibling, content, hbeside, locate?_ne_of_temporary? ht hsibling, hfile,
    by simpa using hcontent, hframe⟩

end FileSystem

open FileSystem Session Host

/-- What a write does to the files, by how far it gets. -/
structure TouchesOnly (p : Path) (text : String) (world : World) : Prop where
  success : ∀ after, (writeAtomically p text : Session Unit).run world = (.ok (), after) →
    MovedInPlace p text world.files after.files
  /-- Until the file beside the target is open, every place holds what it held. -/
  unopened : ∀ e after, (openTemporary p).run world = (.error e, after) →
    (writeAtomically p text : Session Unit).run world = (.error e, after) ∧
      Frame p.directories [] world.files after.files
  /-- From then on until it is renamed, every other place does, the target among them. -/
  unmoved : ∀ opened, (openTemporary p).run world = (.ok (), opened) →
    ∀ e after, (moveInPlace p text).run opened = (.error e, after) →
      (writeAtomically p text : Session Unit).run world = (.error e, after) ∧
        LeftBeside p text world.files after.files
  /-- After that nothing is touched any more. -/
  moved : ∀ opened renamed, (openTemporary p).run world = (.ok (), opened) →
    (moveInPlace p text).run opened = (.ok (), renamed) →
      ∃ result after, (writeAtomically p text : Session Unit).run world = (result, after) ∧
        MovedInPlace p text world.files after.files

namespace Session

variable {p : Path} {text : String} {world opened renamed : World}

theorem movedInPlace_of_run (hopened : (openTemporary p).run world = (.ok (), opened))
    (hrenamed : (moveInPlace p text).run opened = (.ok (), renamed)) :
    MovedInPlace p text world.files renamed.files := by
  have hstaged := (openTemporary_contract p world.files).of_run_ok rfl hopened
  have hreplaced := (moveInPlace_contract p text world.files).of_run_ok hstaged hrenamed
  obtain ⟨t, -, ht, -⟩ := hstaged
  exact hreplaced.movedInPlace ht

/-- A write touches its target, the place beside it, and directories to be made, and the target
only by giving it the whole text. -/
theorem writeAtomically_touchesOnly (p : Path) (text : String) (world : World) :
    TouchesOnly p text world := by
  constructor
  case success =>
    intro after hrun
    rw [writeAtomically_eq] at hrun
    obtain ⟨_, opened, hopened, hrest⟩ := exists_of_run_bind_ok hrun
    obtain ⟨_, renamed, hrenamed, hsynced⟩ := exists_of_run_bind_ok hrest
    exact (syncParent_contract p (MovedInPlace p text world.files)).of_run_ok
      (movedInPlace_of_run hopened hrenamed) hsynced
  case unopened =>
    intro e after hrun
    rw [writeAtomically_eq, run_bind_of_error hrun]
    exact ⟨rfl, (openTemporary_contract p world.files).of_run_error rfl hrun⟩
  case unmoved =>
    intro opened hopened e after hrun
    rw [writeAtomically_eq, run_bind_of_ok hopened, run_bind_of_error hrun]
    have hstaged := (openTemporary_contract p world.files).of_run_ok rfl hopened
    exact ⟨rfl, ((moveInPlace_contract p text world.files).of_run_error hstaged hrun).leftBeside⟩
  case moved =>
    intro opened renamed hopened hrenamed
    rw [writeAtomically_eq, run_bind_of_ok hopened, run_bind_of_ok hrenamed]
    obtain ⟨result, after, hrun, hends, -⟩ :=
      syncParent_contract p (MovedInPlace p text world.files) renamed
        (movedInPlace_of_run hopened hrenamed)
    refine ⟨result, after, hrun, ?_⟩
    cases result with
    | ok a => exact hends
    | error e => exact hends

/-- A file in the working directory, which is the top. -/
def report : Path :=
  .ofSteps false [.down "report"]

def worldWith (name : String) (e : Entry) : World :=
  .ofFiles ⟨[([name], e)], []⟩

/-- A success may lose another file, the one beside the target; and a failure may leave one there,
as when the target is a directory, which no file is renamed onto. -/
theorem not_touchesTargetOnly :
    (¬ ∀ (p : Path) (text : String) (world after : World),
      (writeAtomically p text : Session Unit).run world = (.ok (), after) →
        after.files.read? p = some text ∧ ∀ target, after.files.locate? p = some target →
          Frame p.directories [target] world.files after.files) ∧
    ¬ ∀ (p : Path) (text : String) (world after : World) (e : CommandError),
      (openTemporary p >>= fun _ => moveInPlace p text).run world = (.error e, after) →
        Frame p.directories [] world.files after.files := by
  constructor
  · intro hall
    obtain ⟨-, hframe⟩ := hall report "new" (worldWith "report.tmp" (.file "notes")) _ rfl
    obtain hsame | ⟨-, hdirectory, -⟩ :=
      (hframe ["report"] rfl).entryAt? ["report.tmp"] (by decide)
    · exact absurd hsame (by decide)
    · exact absurd hdirectory (by decide)
  · intro hall
    have hframe := hall report "new" (worldWith "report" .directory) _ _ rfl
    obtain hsame | ⟨-, hdirectory, -⟩ := hframe.entryAt? ["report.tmp"] List.not_mem_nil
    · exact absurd hsame (by decide)
    · exact absurd hdirectory (by decide)

end Session

end ModelPreview
