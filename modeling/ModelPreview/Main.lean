import ModelPreview.Commands.Program

/-!
# The command line

The host of commands that works on the files of the machine, and the program that it makes.
-/

namespace ModelPreview

/-- Where the events of a run go. -/
structure LogOutput where
  filter : LogFilter
  asJson : Bool
  write : String → IO Unit

/-- The line of an event in a log for people. -/
def Event.plainLine (e : Event) : String :=
  let details := e.details.map fun (name, value) => " " ++ name ++ "=" ++ value.compact
  e.level.text ++ " " ++ e.message ++ String.join details ++ "\n"

/-- A computation on the machine. -/
abbrev Console := ReaderT LogOutput <| ExceptT CommandError IO

namespace Console

/-- Do something that the machine may refuse, and fail in the given way if it does. -/
def attempt {α : Type} (failure : CommandError) (action : IO α) : Console α := fun _ => ExceptT.mk do
  try
    return .ok (← action)
  catch _ =>
    return .error failure

/-- Bring a text to standard output. -/
def print (text : String) (failure : CommandError) : Console Unit :=
  attempt failure do
    let output ← IO.getStdout
    output.putStr text
    output.flush

/-- Whether something is at a path. -/
def pathExists (p : Path) : Console Bool := fun _ => ExceptT.mk do
  try
    let _ ← IO.FS.realPath p.text
    return .ok true
  catch _ =>
    return .ok false

/-- Write an event to the log if it is to be shown. A log that takes no events stops nothing. -/
def log (e : Event) : Console Unit := fun output => ExceptT.mk do
  if output.filter.shows e then
    try
      output.write (if output.asJson then e.logLine else e.plainLine)
    catch _ =>
      pure ()
  return .ok ()

instance : Host Console where
  pathExists := pathExists
  readFile p := attempt .files (IO.FS.readFile p.text)
  makeDirectory p := attempt .files (IO.FS.createDirAll p.text)
  truncate p := attempt .files (IO.FS.writeFile p.text "")
  write p text := attempt .files (IO.FS.writeFile p.text text)
  sync _ := pure ()
  rename source target := attempt .files (IO.FS.rename source.text target.text)
  print := print
  log := log
  fail e := throw e

end Console

namespace Invocation

/-- The log that an invocation asks for. -/
def logOutput (i : Invocation) (filter : LogFilter) : IO LogOutput := do
  match i.logFile with
  | none => return { filter, asJson := i.logJson, write := IO.eprint }
  | some p =>
    let file ← IO.FS.Handle.mk p.text .append
    return { filter, asJson := true, write := fun line => do file.putStr line; file.flush }

/-- Carry out an invocation on the machine; the result is the exit code. -/
def perform (i : Invocation) : IO UInt32 := do
  let filter := LogFilter.ofSetting (← IO.getEnv "RUST_LOG")
  let result ← ExceptT.run do
    let output ← ExceptT.mk do
      try
        return .ok (← i.logOutput filter)
      catch _ =>
        return .error CommandError.files
    (Command.run (m := Console) i.command).run output
  match result with
  | .ok _ => return 0
  | .error e =>
    IO.eprintln ("Error: " ++ e.message)
    return 1

end Invocation

end ModelPreview

open ModelPreview in
/-- The program. -/
def main (arguments : List String) : IO UInt32 := do
  match Invocation.ofArguments arguments with
  | .error .usage =>
    IO.eprint usageText
    return 2
  | .error .help =>
    IO.print usageText
    return 0
  | .error .version =>
    IO.print versionText
    return 0
  | .ok i => i.perform
