import ModelPreview.Commands.LogFilter
import ModelPreview.Commands.Session
import ModelPreview.Json.Printer

/-!
# Log files

A session whose log goes to a file. The file stays open while a command runs, so it keeps receiving
events wherever it is moved, and events that come after another file took its place are lost with
it. Everything else happens as in a session without a log file.
-/

namespace ModelPreview

/-- The line of an event in a log. -/
def Event.logLine (e : Event) : String :=
  e.toJson.compact ++ "\n"

/-- An open log file. -/
structure LogFile where
  /-- Where the file is, unless another one took its place. -/
  location : Option Location
  /-- Which events are written. -/
  filter : LogFilter

namespace LogFile

/-- A log file at a path, which is made if it is not there. -/
def open? (filter : LogFilter) (p : Path) (fs : FileSystem) : Option (LogFile × FileSystem) := do
  let fs ← fs.append? p ""
  return (⟨fs.locate? p, filter⟩, fs)

/-- The files after an event was written. -/
def write (f : LogFile) (e : Event) (fs : FileSystem) : FileSystem :=
  match f.location with
  | some l => if f.filter.shows e then fs.extend l e.logLine else fs
  | none => fs

/-- The log file after a file was renamed. -/
def renamed (f : LogFile) (source target : Option Location) : LogFile :=
  if f.location = source then { f with location := target }
  else if f.location = target then { f with location := none }
  else f

end LogFile

/-- A session with an open log file. -/
abbrev LoggedSession (α : Type) := StateT LogFile Session α

namespace LoggedSession

/-- Do what a session does. -/
def lift {α : Type} (x : Session α) : LoggedSession α :=
  StateT.lift x

instance : Host LoggedSession where
  pathExists p := lift (Host.pathExists p)
  readFile p := lift (Host.readFile p)
  makeDirectory p := lift (Host.makeDirectory p)
  truncate p := lift (Host.truncate p)
  write p text := lift (Host.write p text)
  sync p := lift (Host.sync p)
  rename source target := do
    let files := (← lift get).files
    lift (Host.rename source target)
    modify fun f => f.renamed (files.locate? source) (files.locate? target)
  print text failure := lift (Host.print text failure)
  log event := do
    let f ← get
    lift do
      Host.log event
      modify fun world => { world with files := f.write event world.files }
  fail e := lift (throw e)

end LoggedSession

end ModelPreview
