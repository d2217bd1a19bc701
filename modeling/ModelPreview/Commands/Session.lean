import ModelPreview.Commands.Host
import ModelPreview.Files.FileSystem

/-!
# Sessions on a file system

The host of commands that works on a `FileSystem` and remembers what was printed and logged. Each
step that reads or changes files or prints may be made to fail, and then it has no effect: the
faults say so step by step, and where they end nothing fails on its own.
-/

namespace ModelPreview

/-- What a session works on. -/
structure World where
  files : FileSystem
  /-- Whether the next steps that read or change files or print fail. -/
  faults : List Bool
  printed : String
  logged : List Event

/-- A computation on a world. A failure leaves the world as it was changed up to it. -/
abbrev Session (α : Type) := ExceptT CommandError (StateM World) α

namespace Session

/-- Take the next step, unless it is at fault. -/
def step (failure : CommandError) : Session Unit := do
  let world ← get
  set { world with faults := world.faults.tail }
  if world.faults.headD false then throw failure

/-- Look something up in one step, which fails if there is nothing or if it is at fault. -/
def look {α : Type} (f : FileSystem → Option α) : Session α := do
  step .files
  match f (← get).files with
  | some a => return a
  | none => throw .files

/-- Change the files in one step, which fails without effect if it is impossible or at fault. -/
def change (f : FileSystem → Option FileSystem) : Session Unit := do
  step .files
  match f (← get).files with
  | some files => modify fun world => { world with files }
  | none => throw .files

instance : Host Session where
  pathExists p := return (← get).files.exists? p
  readFile p := look (·.read? p)
  makeDirectory p := change (·.makeDirectory? p)
  truncate p := change (·.truncate? p)
  write p text := change (·.write? p text)
  sync p := change (·.sync? p)
  rename source target := change (·.rename? source target)
  print text failure := do
    step failure
    modify fun world => { world with printed := world.printed ++ text }
  log event := modify fun world => { world with logged := world.logged ++ [event] }
  fail := throw

end Session

/-- A world before anything was done to its files. -/
def World.ofFiles (files : FileSystem) : World :=
  ⟨files, [], "", []⟩

end ModelPreview
