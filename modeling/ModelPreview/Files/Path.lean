/-!
# Paths

A path as given by the user: steps downwards by name and steps upwards, from the top or from the
working directory. Empty steps and steps that stay in place do not count, except that a path that
ends in one asks for a directory, and that one in front names the working directory, as a slash in
front names the top. A path lies in the directory that it names in front of its last step.
-/

namespace ModelPreview

/-- One step of a path. -/
inductive Step where
  | down (name : String)
  | up
  deriving DecidableEq

structure Path where
  /-- The path as given. -/
  text : String
  fromTop : Bool
  /-- Whether the working directory is named in front of the steps. -/
  fromHere : Bool
  steps : List Step
  /-- Whether only a directory can be meant. -/
  asDirectory : Bool
  deriving DecidableEq

namespace Step

/-- The step that a part of a path's text stands for. -/
def ofText? (part : String) : Option Step :=
  if part = "" ∨ part = "." then none
  else if part = ".." then some .up
  else some (.down part)

def text : Step → String
  | .down name => name
  | .up => ".."

end Step

namespace Path

def ofText (text : String) : Path :=
  let parts := text.splitOn "/"
  { text
    fromTop := text.startsWith "/"
    fromHere := parts.head? = some "."
    steps := parts.filterMap Step.ofText?
    asDirectory := match parts.getLast? with
      | some part => (Step.ofText? part).isNone
      | none => true }

/-- The path with the given steps. -/
def ofSteps (fromTop : Bool) (steps : List Step) : Path where
  text :=
    if fromTop then "/" ++ "/".intercalate (steps.map Step.text)
    else if steps.isEmpty then "."
    else "/".intercalate (steps.map Step.text)
  fromTop
  fromHere := false
  steps
  asDirectory := false

/-- The name that a path ends in. -/
def fileName? (p : Path) : Option String :=
  match p.steps.getLast? with
  | some (.down name) => some name
  | _ => none

/-- The directories that a path names on its way, from the outermost inwards. -/
def directories (p : Path) : List Path :=
  let first := if p.fromTop || p.fromHere then 0 else 1
  ((List.range p.steps.length).drop first).map fun n => ofSteps p.fromTop (p.steps.take n)

/-- The directory that a path lies in, if the path names it. -/
def parent? (p : Path) : Option Path :=
  p.directories.getLast?

/-- The path with another name at its end. -/
def withName (p : Path) (name : String) : Path :=
  ofSteps p.fromTop (p.steps.dropLast ++ [.down name])

/-- The path beside a file that its next content is written to first. -/
def temporary? (p : Path) : Option Path :=
  p.fileName?.map fun name => p.withName (name ++ ".tmp")

end Path

end ModelPreview
