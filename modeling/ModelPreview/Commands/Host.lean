import ModelPreview.Commands.Error
import ModelPreview.Files.Path

/-!
# Hosts of commands

What a command may do to the world: look at files, change them in small steps, print and log. A
command is written once for every host, so the one that runs on real files is the one that
statements about file systems speak of.
-/

namespace ModelPreview

class Host (m : Type → Type) extends Monad m where
  pathExists : Path → m Bool
  readFile : Path → m String
  /-- Make a directory, unless it is there. -/
  makeDirectory : Path → m Unit
  /-- Make a file empty, and make it if it is not there. -/
  truncate : Path → m Unit
  /-- Give a file its content. -/
  write : Path → String → m Unit
  /-- Bring a file or a directory to its storage. -/
  sync : Path → m Unit
  rename : (source target : Path) → m Unit
  /-- Print a text, and fail in the given way if that is impossible. -/
  print : String → (failure : CommandError) → m Unit
  log : Event → m Unit
  fail : {α : Type} → CommandError → m α

namespace Host

variable {m : Type → Type} [Host m]

/-- Do something with each of several things, in order. -/
def forEach {α : Type} (f : α → m Unit) : List α → m Unit
  | [] => pure ()
  | a :: rest => do
    f a
    forEach f rest

/-- Log the events of a computation and go on with its result. -/
def ofTraced {ε α : Type} (describe : ε → CommandError) (t : Traced ε α) : m α := do
  forEach log t.events
  match t.result with
  | .ok a => pure a
  | .error e => fail (describe e)

/-- Replace the content of a file as a whole: the content is written to a file beside it, which
then takes its place. Directories on the way are made. -/
def writeAtomically (p : Path) (text : String) : m Unit := do
  forEach makeDirectory p.directories
  match p.temporary? with
  | none => fail (.invalid "invalid path for atomic write")
  | some temporary =>
    truncate temporary
    write temporary text
    sync temporary
    rename temporary p
    match p.parent? with
    | some parent => sync parent
    | none => pure ()

end Host

end ModelPreview
