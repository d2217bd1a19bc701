import ModelPreview.Json.Basic

/-!
# Tables of TOML documents

A document is a list of statements: assignments, table headers and headers of array tables. Each
statement extends the table of the document, or is refused because it would define something
twice. A table is *implicit* until a header names it, and *dotted* if dotted keys made it: only
dotted keys may add to a dotted table, and only implicit tables can still be given a header.
-/

namespace ModelPreview.Toml

/-- What a key of a table holds. -/
inductive Node where
  | value (json : Json)
  | table (implicit dotted : Bool) (entries : List (String × Node))
  | tables (earlier : List (List (String × Node))) (last : List (String × Node))

/-- The keys of a table, in the order in which they were defined. -/
abbrev Entries := List (String × Node)

/-- How a table came to be. -/
structure Origin where
  implicit : Bool
  dotted : Bool

/-- A statement of a document. -/
inductive Statement where
  /-- `a.b.key = value`, with `a.b` as the path. -/
  | assign (path : List String) (key : String) (value : Json)
  /-- `[path.key]` -/
  | header (path : List String) (key : String)
  /-- `[[path.key]]` -/
  | arrayHeader (path : List String) (key : String)

namespace Entries

/-- Hold a node under a key, in the place of the key if it is there. -/
def set (key : String) (node : Node) : Entries → Entries
  | [] => [(key, node)]
  | (k, n) :: rest => if k = key then (key, node) :: rest else (k, n) :: set key node rest

/-- Change the table that a path leads to. Tables that are missing on the way are made; the last of
several tables stands for all. -/
def change (dotted : Bool) (f : Origin → Entries → Option Entries) :
    List String → Origin → Entries → Option Entries
  | [], origin, entries => f origin entries
  | key :: path, _, entries =>
    match List.lookup key entries with
    | none => do
      let inner ← change dotted f path ⟨true, dotted⟩ []
      return set key (.table true dotted inner) entries
    | some (.value _) => none
    | some (.table implicit wasDotted inner) =>
      if dotted && !implicit then none
      else do
        let inner ← change dotted f path ⟨implicit, wasDotted⟩ inner
        return set key (.table implicit wasDotted inner) entries
    | some (.tables earlier last) => do
      let last ← change dotted f path ⟨false, false⟩ last
      return set key (.tables earlier last) entries

/-- Assign a value to a key that is still free. A table reached by dotted keys has to be dotted. -/
def assign (path : List String) (key : String) (value : Json) (origin : Origin)
    (entries : Entries) : Option Entries :=
  change true
    (fun origin entries =>
      if origin.dotted == path.isEmpty then none
      else if (List.lookup key entries).isSome then none
      else some (set key (.value value) entries))
    path origin entries

/-- Give a table its header. -/
def define (key : String) (entries : Entries) : Option Entries :=
  match List.lookup key entries with
  | none => some (set key (.table false false []) entries)
  | some (.table true false inner) => some (set key (.table false false inner) entries)
  | some _ => none

/-- Start the next of several tables. -/
def append (key : String) (entries : Entries) : Option Entries :=
  match List.lookup key entries with
  | none => some (set key (.tables [] []) entries)
  | some (.tables earlier last) => some (set key (.tables (earlier ++ [last]) []) entries)
  | some _ => none

end Entries

mutual

/-- The value of a node. -/
def Node.toJson : Node → Json
  | .value json => json
  | .table _ _ entries => .object (fieldsOf entries)
  | .tables earlier last => .array (objectsOf earlier ++ [.object (fieldsOf last)])

def fieldsOf : List (String × Node) → List (String × Json)
  | [] => []
  | (key, node) :: rest => (key, node.toJson) :: fieldsOf rest

def objectsOf : List (List (String × Node)) → List Json
  | [] => []
  | entries :: rest => .object (fieldsOf entries) :: objectsOf rest

end

/-- The origin of the table that a document is. -/
def rootOrigin : Origin :=
  ⟨false, false⟩

/-- Run statements on the entries of a document; assignments go to the table at `current`. -/
def run : (current : List String) → Entries → List Statement → Option Entries
  | _, entries, [] => some entries
  | current, entries, .assign path key value :: rest => do
    let entries ← Entries.change false (Entries.assign path key value) current rootOrigin entries
    run current entries rest
  | _, entries, .header path key :: rest => do
    let entries ← Entries.change false (fun _ => Entries.define key) path rootOrigin entries
    run (path ++ [key]) entries rest
  | _, entries, .arrayHeader path key :: rest => do
    let entries ← Entries.change false (fun _ => Entries.append key) path rootOrigin entries
    run (path ++ [key]) entries rest

/-- The object that statements define. -/
def objectOf? (statements : List Statement) : Option Json :=
  (run [] [] statements).map fun entries => .object (fieldsOf entries)

end ModelPreview.Toml
