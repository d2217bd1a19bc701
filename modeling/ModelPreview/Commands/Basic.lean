import ModelPreview.Commands.Host
import ModelPreview.InverseRelationship
import ModelPreview.Options.Config
import ModelPreview.Report
import ModelPreview.Schema.Document

/-!
# Commands

The four things that the program can be asked to do. `expand` reads options and input before it
writes anything, and its output is all reports or nothing.
-/

namespace ModelPreview

/-- How expansions are written. -/
inductive OutputFormat where
  | text
  | json
  deriving DecidableEq

structure ExpandArguments where
  input : Path
  config : Option Path
  out : Option Path
  noObservable : Bool
  format : OutputFormat

structure CheckInverseArguments where
  input : Path
  config : Option Path

structure SchemaArguments where
  root : Schema.Root
  out : Option Path

structure InitConfigArguments where
  path : Path
  force : Bool

inductive Command where
  | expand (arguments : ExpandArguments)
  | checkInverse (arguments : CheckInverseArguments)
  | schema (arguments : SchemaArguments)
  | initConfig (arguments : InitConfigArguments)

/-- The config file that is read where none is named. -/
def defaultConfig : Path :=
  .ofText "variantgen.toml"

namespace Command

variable {m : Type → Type} [Host m]

open Host

/-- The options of a config file. A file that is not there stands for the defaults; it is worth a
warning if it was asked for by name. -/
def loadOptions (config : Option Path) : m Options := do
  let p := config.getD defaultConfig
  if ← pathExists p then
    let text ← readFile p
    match Options.ofToml? text with
    | some options =>
      log (.configLoaded p.text)
      return options
    | none => fail .config
  else
    if config.isSome then log (.configMissing p.text)
    return .default

/-- The declarations of an input file. -/
def loadDeclarations (p : Path) : m (List Declaration) := do
  let text ← readFile p
  let ds ← ofTraced .input (readDeclarations text)
  log (.declarationsLoaded p.text ds.length)
  return ds

/-- The member of an input file. -/
def loadMember (p : Path) : m Member := do
  let text ← readFile p
  ofTraced .input (readMember text)

/-- The report of one declaration, with its events and the error that stopped it logged. -/
def reportOn (options : Options) (d : Declaration) : m Report := do
  let t := d.expand options
  forEach log t.events
  match t.result with
  | .ok _ => pure ()
  | .error e => log (.declarationFailed d.name e)
  return .ofResult options.indent d.name t.result

/-- The reports of several declarations, in order. -/
def reportAll (options : Options) : List Declaration → m (List Report)
  | [] => pure []
  | d :: rest => do
    let first ← reportOn options d
    let others ← reportAll options rest
    return first :: others

end Command

/-- The output for a batch. -/
def OutputFormat.render : OutputFormat → List Report → String
  | .text => Report.renderText
  | .json => Report.renderJson

/-- The options that an expansion works with. -/
def ExpandArguments.adjust (a : ExpandArguments) (o : Options) : Options :=
  if a.noObservable then { o with emitObservable := false } else o

namespace Command

variable {m : Type → Type} [Host m]

open Host

/-- Everything that an expansion reads: the options and the declarations. -/
def loadBatch (a : ExpandArguments) : m (Options × List Declaration) := do
  let options ← loadOptions a.config
  let ds ← loadDeclarations a.input
  return (options, ds)

/-- Bring a text to a file, or to standard output if none is named. -/
def deliver (out : Option Path) (text : String) : m Unit :=
  match out with
  | some p => do
    writeAtomically p text
    log (.outputWritten p.text)
  | none => print text .files

def runExpand (a : ExpandArguments) : m Unit := do
  let (options, ds) ← loadBatch a
  let reports ← reportAll (a.adjust options) ds
  deliver a.out (a.format.render reports)
  let failures := Report.failures reports
  log (.expandFinished ds.length failures)
  if 0 < failures then fail (.expansionFailed failures)

def runCheckInverse (a : CheckInverseArguments) : m Unit := do
  let options ← loadOptions a.config
  let member ← loadMember a.input
  let t := InverseRelationship.check options member
  forEach log t.events
  match t.result with
  | .ok e => log (.inverseValid a.input.text e.declarations.length)
  | .error e =>
    log (.inverseFailed e)
    fail (.refused e)

def runSchema (a : SchemaArguments) : m Unit := do
  let text := a.root.toJson.pretty
  match a.out with
  | some p =>
    writeAtomically p text
    log (.schemaWritten p.text)
  | none => do
    print text .document
    print "\n" .files

def runInitConfig (a : InitConfigArguments) : m Unit := do
  let taken ← pathExists a.path
  if taken ∧ ¬a.force then
    log (.configExists a.path.text)
    fail (.invalid (a.path.text ++ " already exists; pass --force to overwrite"))
  else
    writeAtomically a.path Options.default.toToml
    log (.configWritten a.path.text)

/-- Do what a command asks for. -/
def run : Command → m Unit
  | .expand a => runExpand a
  | .checkInverse a => runCheckInverse a
  | .schema a => runSchema a
  | .initConfig a => runInitConfig a

end Command

end ModelPreview
