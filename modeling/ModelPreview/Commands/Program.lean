import ModelPreview.Commands.Arguments
import ModelPreview.Commands.LogFile

/-!
# The program on a file system

One run of the program, from its arguments to its exit code, on a file system that is a value. The
log goes to the error stream or is appended to a file, which is made before anything else happens.
-/

namespace ModelPreview

/-- The text that names the program's version. -/
def versionText : String := "variantgen 0.1.0\n"

/-- How the program is used. -/
def usageText : String :=
  "Usage: variantgen [--log-json] [--log-file PATH] COMMAND\n\n" ++
  "  expand INPUT [--config PATH] [--out PATH] [--no-observable] [--format text|json]\n" ++
  "  check-inverse MEMBER [--config PATH]\n" ++
  "  schema [--member] [--out PATH]\n" ++
  "  init-config [PATH] [--force]\n"

/-- What one run of the program leaves behind. -/
structure RunResult where
  exitCode : Nat
  failure : Option CommandError
  printed : String
  /-- The events shown on the error stream. -/
  shown : List Event
  /-- Whether they are shown as JSON documents. -/
  asJson : Bool
  files : FileSystem

namespace Program

/-- The result of a run that ended before its command. -/
def stopped (exitCode : Nat) (failure : Option CommandError) (printed : String)
    (files : FileSystem) : RunResult :=
  { exitCode, failure, printed, shown := [], asJson := false, files }

/-- The result of a run that carried out its command and showed some events. -/
def finished (asJson : Bool) (shown : List Event → List Event) :
    Except CommandError Unit × World → RunResult
  | (.ok _, world) =>
    { exitCode := 0, failure := none, printed := world.printed, shown := shown world.logged
      asJson, files := world.files }
  | (.error e, world) =>
    { exitCode := 1, failure := some e, printed := world.printed, shown := shown world.logged
      asJson, files := world.files }

/-- Run a command with the log on the error stream. -/
def runShown (asJson : Bool) (filter : LogFilter) (c : Command) (files : FileSystem) : RunResult :=
  finished asJson (List.filter filter.shows)
    ((Command.run (m := Session) c).run (World.ofFiles files))

/-- Run a command with the log in a file. -/
def runLogged (log : LogFile) (c : Command) (files : FileSystem) : RunResult :=
  let session : Session Unit := Prod.fst <$> (Command.run (m := LoggedSession) c).run log
  finished true (fun _ => []) (session.run (World.ofFiles files))

/-- Run the program. -/
def run (arguments : List String) (logSetting : Option String) (files : FileSystem) : RunResult :=
  match Invocation.ofArguments arguments with
  | .error .usage => stopped 2 none "" files
  | .error .help => stopped 0 none usageText files
  | .error .version => stopped 0 none versionText files
  | .ok i =>
    let filter := LogFilter.ofSetting logSetting
    match i.logFile with
    | none => runShown i.logJson filter i.command files
    | some p =>
      match LogFile.open? filter p files with
      | some (log, files) => runLogged log i.command files
      | none => stopped 1 (some .files) "" files

end Program

end ModelPreview
