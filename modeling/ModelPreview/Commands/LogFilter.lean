import ModelPreview.Event.Basic

/-!
# Log filters

A filter is a list of directives, each a level, an area or an area with a level. An event passes if
the directive for the longest name that its area starts with admits its level. A filter that cannot
be read is taken for the default.
-/

namespace ModelPreview

/-- How much of the log is shown, from nothing to everything. -/
inductive Verbosity where
  | off
  | upTo (level : LogLevel)
  | all
  deriving DecidableEq

/-- The place of a level, from the most urgent one on. -/
def LogLevel.rank : LogLevel → Nat
  | .error => 0
  | .warn => 1
  | .info => 2
  | .debug => 3

/-- The name of an area. -/
def LogArea.name : LogArea → String
  | .synthesis => "variantgen_synth"
  | .commands => "variantgen"

namespace Verbosity

def admits : Verbosity → LogLevel → Bool
  | .off, _ => false
  | .upTo most, level => level.rank ≤ most.rank
  | .all, _ => true

/-- The words and numbers for verbosities. -/
def table : List (String × Verbosity) :=
  [("off", .off), ("error", .upTo .error), ("warn", .upTo .warn), ("info", .upTo .info),
    ("debug", .upTo .debug), ("trace", .all), ("0", .off), ("1", .upTo .error),
    ("2", .upTo .warn), ("3", .upTo .info), ("4", .upTo .debug), ("5", .all)]

/-- The verbosity of a word, in letters of either case. -/
def ofText? (text : String) : Option Verbosity :=
  table.lookup text.toLower

end Verbosity

/-- A verbosity for the areas whose names start with some text. -/
structure Directive where
  area : String
  verbosity : Verbosity

namespace Directive

/-- Whether a text can be the name of an area. -/
def isName (text : String) : Bool :=
  text ≠ "" && text.toList.all fun c => c.isAlphanum || c == '_' || c == ':' || c == '-'

def ofText? (text : String) : Option Directive :=
  match text.splitOn "=" with
  | [one] =>
    match Verbosity.ofText? one with
    | some verbosity => some ⟨"", verbosity⟩
    | none => if isName one then some ⟨one, .all⟩ else none
  | [area, level] =>
    if isName area then (Verbosity.ofText? level).map fun verbosity => ⟨area, verbosity⟩ else none
  | _ => none

end Directive

structure LogFilter where
  directives : List Directive

namespace LogFilter

/-- Everything but the details. -/
def default : LogFilter :=
  ⟨[⟨"", .upTo .info⟩]⟩

/-- The filter that a text describes; an empty text shows errors only. -/
def ofText? (text : String) : Option LogFilter :=
  if text = "" then some ⟨[⟨"", .upTo .error⟩]⟩
  else ((text.splitOn ",").mapM Directive.ofText?).map LogFilter.mk

/-- The filter of a setting that may be missing or unreadable. -/
def ofSetting (setting : Option String) : LogFilter :=
  (setting.bind ofText?).getD default

/-- The better of a directive found so far and another one, for an area. -/
def better (area : String) (best : Option Directive) (d : Directive) : Option Directive :=
  if area.startsWith d.area ∧ (best.map fun b => b.area.length).getD 0 ≤ d.area.length then some d
  else best

/-- Whether an event is shown. -/
def shows (f : LogFilter) (e : Event) : Bool :=
  match f.directives.foldl (better e.area.name) none with
  | some d => d.verbosity.admits e.level
  | none => false

end LogFilter

end ModelPreview
