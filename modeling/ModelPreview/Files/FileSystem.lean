import ModelPreview.Files.Path

/-!
# File systems

A file system says for each location whether it holds a file with some content, a directory or
nothing. Every operation either has its whole effect or is impossible and has none. Renaming a file
onto a directory is impossible, and so is everything below a location that is no directory.
-/

namespace ModelPreview

/-- The names on the way from the top to a place. -/
abbrev Location := List String

/-- What a location holds. -/
inductive Entry where
  | file (content : String)
  | directory
  deriving DecidableEq

structure FileSystem where
  /-- What locations below the top hold; the first entry of a location counts. -/
  entries : List (Location × Entry)
  /-- The working directory. -/
  current : Location

namespace FileSystem

/-- What a location holds, if anything. The top is a directory. -/
def entryAt? (fs : FileSystem) (l : Location) : Option Entry :=
  if l.isEmpty then some .directory else List.lookup l fs.entries

/-- Let a location hold an entry. -/
def put (fs : FileSystem) (l : Location) (e : Entry) : FileSystem :=
  { fs with entries := (l, e) :: fs.entries.filter fun held => held.1 != l }

/-- Let a location hold nothing. -/
def remove (fs : FileSystem) (l : Location) : FileSystem :=
  { fs with entries := fs.entries.filter fun held => held.1 != l }

def isDirectory (fs : FileSystem) (l : Location) : Bool :=
  fs.entryAt? l == some .directory

/-- The location that steps lead to. All but the last of them start from a directory. -/
def walk (fs : FileSystem) : Location → List Step → Option Location
  | l, [] => some l
  | l, step :: rest =>
    if fs.isDirectory l then
      match step with
      | .down name => fs.walk (l ++ [name]) rest
      | .up => fs.walk l.dropLast rest
    else none

/-- The location that a path leads to. -/
def locate? (fs : FileSystem) (p : Path) : Option Location :=
  fs.walk (if p.fromTop then [] else fs.current) p.steps

/-- What a path leads to. A path that asks for a directory leads to nothing else. -/
def find? (fs : FileSystem) (p : Path) : Option Entry := do
  let l ← fs.locate? p
  let e ← fs.entryAt? l
  if p.asDirectory ∧ e ≠ .directory then none else some e

def exists? (fs : FileSystem) (p : Path) : Bool :=
  (fs.find? p).isSome

/-- The content of a file. -/
def read? (fs : FileSystem) (p : Path) : Option String :=
  match fs.find? p with
  | some (.file content) => some content
  | _ => none

/-- Make a directory, unless it is there. Only a directory that is reached by a step can be made. -/
def makeDirectory? (fs : FileSystem) (p : Path) : Option FileSystem := do
  let l ← fs.locate? p
  match fs.entryAt? l with
  | none => if p.steps.isEmpty then none else return fs.put l .directory
  | some .directory => return fs
  | some (.file _) => none

/-- The location of a file that is there or may be made. -/
def locateFile? (fs : FileSystem) (p : Path) : Option Location := do
  let l ← fs.locate? p
  if p.asDirectory ∨ fs.isDirectory l then none else some l

/-- Make a file empty, and make it if it is not there. -/
def truncate? (fs : FileSystem) (p : Path) : Option FileSystem := do
  let l ← fs.locateFile? p
  return fs.put l (.file "")

/-- Let a location hold a file that continues what it held, if that was a file. -/
def extend (fs : FileSystem) (l : Location) (text : String) : FileSystem :=
  match fs.entryAt? l with
  | some (.file content) => fs.put l (.file (content ++ text))
  | _ => fs.put l (.file text)

/-- Append to a file, and make it if it is not there. -/
def append? (fs : FileSystem) (p : Path) (text : String) : Option FileSystem := do
  let l ← fs.locateFile? p
  return fs.extend l text

/-- Give a file its content. -/
def write? (fs : FileSystem) (p : Path) (text : String) : Option FileSystem := do
  let l ← fs.locateFile? p
  match fs.entryAt? l with
  | some (.file _) => return fs.put l (.file text)
  | _ => none

/-- Bring a file to its storage, which changes nothing that can be seen. -/
def sync? (fs : FileSystem) (p : Path) : Option FileSystem := do
  let _ ← fs.find? p
  return fs

/-- Move a file to another place, over a file that may be there. -/
def rename? (fs : FileSystem) (source target : Path) : Option FileSystem := do
  let s ← fs.locate? source
  let t ← fs.locateFile? target
  match fs.entryAt? s with
  | some (.file content) => return (fs.remove s).put t (.file content)
  | _ => none

theorem lookup_filter_ne (l m : Location) (entries : List (Location × Entry)) :
    List.lookup m (entries.filter fun held => held.1 != l) =
      if m = l then none else List.lookup m entries := by
  induction entries with
  | nil => simp
  | cons held rest ih =>
    obtain ⟨k, e⟩ := held
    have hlookup :
        List.lookup m ((k, e) :: rest) = if m = k then some e else List.lookup m rest := by
      by_cases hm : m = k
      · subst hm; simp
      · have : (m == k) = false := by simpa using hm
        simp [List.lookup_cons, this, hm]
    by_cases hk : k = l
    · subst hk
      rw [List.filter_cons_of_neg (by simp), ih, hlookup]
      split <;> rfl
    · rw [List.filter_cons_of_pos (by simpa using hk), hlookup]
      by_cases hm : m = k
      · subst hm; simp [hk]
      · have : (m == k) = false := by simpa using hm
        simp [List.lookup_cons, this, hm, ih]

/-- Putting an entry changes what its location holds and nothing else. -/
theorem entryAt?_put (fs : FileSystem) (l : Location) (e : Entry) (h : l ≠ []) (m : Location) :
    (fs.put l e).entryAt? m = if m = l then some e else fs.entryAt? m := by
  by_cases hm : m = []
  · subst hm; simp [entryAt?, Ne.symm h]
  · have hm' : m.isEmpty = false := by simpa using hm
    simp only [entryAt?, put, hm']
    by_cases h' : m = l
    · subst h'; simp
    · have : (m == l) = false := by simpa using h'
      simp [List.lookup_cons, this, lookup_filter_ne, h']

/-- Removing an entry empties its location and no other. -/
theorem entryAt?_remove (fs : FileSystem) (l : Location) (h : l ≠ []) (m : Location) :
    (fs.remove l).entryAt? m = if m = l then none else fs.entryAt? m := by
  by_cases hm : m = []
  · subst hm; simp [entryAt?, Ne.symm h]
  · have hm' : m.isEmpty = false := by simpa using hm
    simp [entryAt?, remove, hm', lookup_filter_ne]

end FileSystem

end ModelPreview
