import ModelPreview.Commands.Basic

/-!
# Command-line arguments

Arguments are options, which start with dashes, and positional ones. The value of an option is
behind an equals sign or is the next argument, which then may not look like an option; a lone dash
does not. Behind two lone dashes everything is positional. An option counts once a command, but the
two options for logging may stand in front of the command and again behind it, where they win.

Arguments are read from left to right, and the first thing that is wrong, or asks for help or for
the version, decides.
-/

namespace ModelPreview

/-- Why arguments ask for no command. -/
inductive Stop where
  | usage
  | help
  | version
  deriving DecidableEq

/-- What one level of the command line understands. -/
structure Grammar where
  /-- Options without a value. -/
  flags : List String
  /-- Options with a value. -/
  valued : List String
  /-- How many positional arguments there may be. -/
  positionals : Nat
  /-- Whether the version can be asked for. -/
  version : Bool

/-- The arguments read so far. -/
structure Arguments where
  flags : List String
  values : List (String × String)
  positionals : List String

namespace Arguments

def empty : Arguments :=
  ⟨[], [], []⟩

def has (a : Arguments) (flag : String) : Bool :=
  a.flags.contains flag

def value? (a : Arguments) (name : String) : Option String :=
  a.values.lookup name

def path? (a : Arguments) (name : String) : Option Path :=
  (a.value? name).map Path.ofText

/-- The values that the option for the output format takes. -/
def formats : List (String × OutputFormat) :=
  [("text", .text), ("json", .json)]

/-- Whether an option takes a value: the format is a word out of a list, and a path is not empty. -/
def accepts (name value : String) : Bool :=
  if name = "format" then (formats.lookup value).isSome else value ≠ ""

def addFlag (a : Arguments) (name : String) : Except Stop Arguments :=
  if a.has name then .error .usage else .ok { a with flags := name :: a.flags }

def addValue (a : Arguments) (name value : String) : Except Stop Arguments :=
  if (a.value? name).isSome ∨ ¬accepts name value then .error .usage
  else .ok { a with values := (name, value) :: a.values }

def addPositional (g : Grammar) (a : Arguments) (text : String) : Except Stop Arguments :=
  if a.positionals.length < g.positionals ∧ text ≠ "" then
    .ok { a with positionals := a.positionals ++ [text] }
  else .error .usage

/-- Whether an argument starts like an option. -/
def looksLikeOption (text : String) : Bool :=
  text.startsWith "-" && text ≠ "-"

/-- The name of a long option, and its value if one is behind an equals sign. -/
def splitOption (text : String) : String × Option String :=
  let body := text.toList.drop 2
  let name := String.ofList (body.takeWhile (· ≠ '='))
  match body.dropWhile (· ≠ '=') with
  | [] => (name, none)
  | _ :: value => (name, some (String.ofList value))

/-- What a short option asks for. -/
def short (g : Grammar) (text : String) : Stop :=
  match text.toList with
  | _ :: 'h' :: _ => .help
  | _ :: 'V' :: _ => if g.version then .version else .usage
  | _ => .usage

/-- Add an option that holds everything it needs; nothing is given for one that needs a value from
the next argument. -/
def addOption (g : Grammar) (a : Arguments) (text : String) : Except Stop (Option Arguments) :=
  let (name, value) := splitOption text
  match value with
  | none =>
    if name = "help" then .error .help
    else if name = "version" ∧ g.version then .error .version
    else if g.flags.contains name then some <$> a.addFlag name
    else if g.valued.contains name then .ok none
    else .error .usage
  | some value =>
    if g.valued.contains name then some <$> a.addValue name value else .error .usage

/-- Read arguments up to the end. -/
def read (g : Grammar) : (fuel : Nat) → Arguments → List String → Except Stop Arguments
  | 0, _, _ => .error .usage
  | _ + 1, a, [] => .ok a
  | fuel + 1, a, text :: rest =>
    if text = "--" then rest.foldlM (addPositional g) a
    else if text.startsWith "--" then do
      match ← addOption g a text with
      | some a => read g fuel a rest
      | none =>
        match rest with
        | value :: rest =>
          if looksLikeOption value then .error .usage
          else do read g fuel (← a.addValue (splitOption text).1 value) rest
        | [] => .error .usage
    else if looksLikeOption text then .error (short g text)
    else do read g fuel (← addPositional g a text) rest

/-- Read options up to the first positional argument; that one and all behind it are left. -/
def readOptions (g : Grammar) :
    (fuel : Nat) → Arguments → List String → Except Stop (Arguments × List String)
  | 0, _, _ => .error .usage
  | _ + 1, a, [] => .ok (a, [])
  | fuel + 1, a, text :: rest =>
    if text = "--" then .error .usage
    else if text.startsWith "--" then do
      match ← addOption g a text with
      | some a => readOptions g fuel a rest
      | none =>
        match rest with
        | value :: rest =>
          if looksLikeOption value then .error .usage
          else do readOptions g fuel (← a.addValue (splitOption text).1 value) rest
        | [] => .error .usage
    else if looksLikeOption text then .error (short g text)
    else .ok (a, text :: rest)

end Arguments

/-- A command and where its log goes. -/
structure Invocation where
  command : Command
  logJson : Bool
  logFile : Option Path

namespace Invocation

open Arguments

/-- The names of the commands. -/
def names : List String :=
  ["expand", "check-inverse", "schema", "init-config"]

/-- The options in front of a command. -/
def leading : Grammar :=
  { flags := ["log-json"], valued := ["log-file"], positionals := 0, version := true }

/-- What stands behind a command, by its name. -/
def grammar? : String → Option Grammar
  | "expand" => some
    { flags := ["log-json", "no-observable"], valued := ["log-file", "config", "out", "format"]
      positionals := 1, version := false }
  | "check-inverse" => some
    { flags := ["log-json"], valued := ["log-file", "config"], positionals := 1, version := false }
  | "schema" => some
    { flags := ["log-json", "member"], valued := ["log-file", "out"], positionals := 0
      version := false }
  | "init-config" => some
    { flags := ["log-json", "force"], valued := ["log-file"], positionals := 1, version := false }
  | _ => none

/-- The command with the given name and arguments. -/
def command? (name : String) (a : Arguments) : Option Command :=
  match name, a.positionals with
  | "expand", [input] =>
    some (.expand {
      input := .ofText input
      config := a.path? "config"
      out := a.path? "out"
      noObservable := a.has "no-observable"
      format := ((a.value? "format").bind fun f => formats.lookup f).getD .text })
  | "check-inverse", [input] =>
    some (.checkInverse { input := .ofText input, config := a.path? "config" })
  | "schema", [] =>
    some (.schema {
      root := if a.has "member" then .member else .declaration
      out := a.path? "out" })
  | "init-config", [] => some (.initConfig { path := defaultConfig, force := a.has "force" })
  | "init-config", [path] => some (.initConfig { path := .ofText path, force := a.has "force" })
  | _, _ => none

/-- What a request for help on a topic comes to. -/
def helpOn : List String → Stop
  | [] => .help
  | [topic] => if names.contains topic ∨ topic = "help" then .help else .usage
  | _ => .usage

/-- What a command line asks for. -/
def ofArguments (arguments : List String) : Except Stop Invocation := do
  let fuel := arguments.length + 1
  let (front, rest) ← readOptions leading fuel .empty arguments
  match rest with
  | [] => throw .usage
  | name :: rest =>
    if name = "help" then throw (helpOn rest)
    match grammar? name with
    | none => throw .usage
    | some g =>
      let a ← Arguments.read g fuel .empty rest
      match command? name a with
      | none => throw .usage
      | some command =>
        return {
          command
          logJson := front.has "log-json" || a.has "log-json"
          logFile := (a.path? "log-file").or (front.path? "log-file") }

end Invocation

end ModelPreview
