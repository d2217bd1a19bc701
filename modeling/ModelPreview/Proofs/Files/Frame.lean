import ModelPreview.Files.FileSystem

/-!
# What operations on files leave alone

A frame names the locations that may be touched and the directories that may be made; every other
location holds what it held. Directories stay directories, so a path that leads somewhere goes on
leading there, and frames of operations that follow one another are put together.
-/

namespace ModelPreview

/-- The place beside a file differs from its own in the last name. -/
theorem Path.exists_of_temporary? {p t : Path} (h : p.temporary? = some t) :
    ∃ start name, p.steps = start ++ [.down name] ∧
      t.steps = start ++ [.down (name ++ ".tmp")] ∧ t.fromTop = p.fromTop := by
  obtain ⟨name, hname, rfl⟩ := Option.map_eq_some_iff.mp h
  have hlast : p.steps.getLast? = some (.down name) := by
    unfold fileName? at hname
    split at hname <;> simp_all
  obtain ⟨start, hsteps⟩ := List.getLast?_eq_some_iff.mp hlast
  refine ⟨start, name, hsteps, ?_, rfl⟩
  simp [withName, ofSteps, hsteps]

namespace FileSystem

variable {fs fs' : FileSystem} {l m : Location} {p : Path}

theorem isDirectory_iff : fs.isDirectory l = true ↔ fs.entryAt? l = some .directory := by
  simp [isDirectory]

theorem isDirectory_eq_false_iff :
    fs.isDirectory l = false ↔ fs.entryAt? l ≠ some .directory := by
  simp [isDirectory]

theorem ne_nil_of_entryAt?_ne (h : fs.entryAt? l ≠ some .directory) : l ≠ [] := by
  rintro rfl
  exact h rfl

theorem walk_mono (h : ∀ l, fs.isDirectory l = true → fs'.isDirectory l = true)
    {steps : List Step} (hwalk : fs.walk l steps = some m) : fs'.walk l steps = some m := by
  induction steps generalizing l with
  | nil => exact hwalk
  | cons step rest ih =>
      by_cases hdir : fs.isDirectory l = true
      · have hdir' := h l hdir
        cases step with
        | down name =>
            simp only [walk, hdir, hdir', if_true] at hwalk ⊢
            exact ih hwalk
        | up =>
            simp only [walk, hdir, hdir', if_true] at hwalk ⊢
            exact ih hwalk
      · cases step <;> simp [walk, hdir] at hwalk

/-- The last name of a path is looked up in a directory. -/
theorem walk_concat_down {steps : List Step} {name : String} :
    fs.walk l (steps ++ [.down name]) = some m ↔
      ∃ d, fs.walk l steps = some d ∧ fs.isDirectory d = true ∧ m = d ++ [name] := by
  induction steps generalizing l with
  | nil =>
      have hsymm : some (l ++ [name]) = some m ↔ m = l ++ [name] := by
        rw [Option.some.injEq, eq_comm]
      by_cases hdir : fs.isDirectory l = true <;> simp [walk, hdir, hsymm]
  | cons step rest ih =>
      by_cases hdir : fs.isDirectory l = true
      · cases step <;> simp only [List.cons_append, walk, hdir, if_true, ih]
      · cases step <;> simp [walk, hdir]

/-- A file and the one beside it are at different locations. -/
theorem locate?_ne_of_temporary? {t : Path} (htemporary : p.temporary? = some t)
    (ht : fs.locate? t = some l) : fs.locate? p ≠ some l := by
  intro hp
  obtain ⟨start, name, hpsteps, htsteps, htop⟩ := Path.exists_of_temporary? htemporary
  simp only [locate?, hpsteps, htsteps, htop] at hp ht
  obtain ⟨d, hd, -, rfl⟩ := walk_concat_down.mp hp
  obtain ⟨d', hd', -, hname⟩ := walk_concat_down.mp ht
  obtain rfl : d = d' := Option.some.inj (hd.symm.trans hd')
  have hlength : (name ++ ".tmp").length = name.length + 4 := String.length_append _ _
  have hsame : name = name ++ ".tmp" := by simpa using hname
  rw [← hsame] at hlength
  omega

theorem locateFile?_eq_some_iff :
    fs.locateFile? p = some l ↔
      fs.locate? p = some l ∧ p.asDirectory = false ∧ fs.entryAt? l ≠ some .directory := by
  rw [← isDirectory_eq_false_iff]
  unfold locateFile?
  cases fs.locate? p with
  | none => simp
  | some k =>
      by_cases hk : k = l
      · subst hk
        cases p.asDirectory <;> cases hdir : fs.isDirectory k <;> simp [hdir]
      · simp [hk]

theorem makeDirectory?_eq_some_iff :
    fs.makeDirectory? p = some fs' ↔ ∃ l, fs.locate? p = some l ∧
      (fs.entryAt? l = none ∧ p.steps ≠ [] ∧ fs' = fs.put l .directory ∨
        fs.entryAt? l = some .directory ∧ fs' = fs) := by
  unfold makeDirectory?
  cases fs.locate? p with
  | none => simp
  | some l =>
      rcases hentry : fs.entryAt? l with _ | _ | _
      · by_cases hsteps : p.steps = [] <;> simp [hentry, hsteps, eq_comm (a := fs')]
      · simp [hentry]
      · simp [hentry, eq_comm (a := fs')]

theorem truncate?_eq_some_iff :
    fs.truncate? p = some fs' ↔ ∃ l, fs.locateFile? p = some l ∧ fs' = fs.put l (.file "") := by
  unfold truncate?
  cases fs.locateFile? p <;> simp [eq_comm]

theorem write?_eq_some_iff {text : String} :
    fs.write? p text = some fs' ↔ ∃ l content, fs.locateFile? p = some l ∧
      fs.entryAt? l = some (.file content) ∧ fs' = fs.put l (.file text) := by
  unfold write?
  cases fs.locateFile? p with
  | none => simp
  | some l => rcases hentry : fs.entryAt? l with _ | _ | _ <;> simp [hentry, eq_comm]

theorem eq_of_sync? (h : fs.sync? p = some fs') : fs' = fs := by
  unfold sync? at h
  cases hfind : fs.find? p <;> simp_all

theorem rename?_eq_some_iff {source target : Path} :
    fs.rename? source target = some fs' ↔ ∃ s l content, fs.locate? source = some s ∧
      fs.locateFile? target = some l ∧ fs.entryAt? s = some (.file content) ∧
      fs' = (fs.remove s).put l (.file content) := by
  unfold rename?
  cases fs.locate? source with
  | none => simp
  | some s =>
      cases fs.locateFile? target with
      | none => simp
      | some l => rcases hentry : fs.entryAt? s with _ | _ | _ <;> simp [hentry, eq_comm]

/-- A path that leads to a file reads as its content. -/
theorem read?_of_entryAt? {content : String} (hlocate : fs.locate? p = some l)
    (hpath : p.asDirectory = false) (hentry : fs.entryAt? l = some (.file content)) :
    fs.read? p = some content := by
  simp [read?, find?, hlocate, hpath, hentry]

/-- `after` differs from `before` in the touched locations at most, and in some of the directories
to be made, where nothing was. -/
structure Frame (made : List Path) (touched : List Location) (before after : FileSystem) :
    Prop where
  current : after.current = before.current
  directories : ∀ l, before.isDirectory l = true → after.isDirectory l = true
  entryAt? : ∀ l, l ∉ touched → after.entryAt? l = before.entryAt? l ∨
    before.entryAt? l = none ∧ after.entryAt? l = some .directory ∧
      ∃ d ∈ made, after.locate? d = some l

namespace Frame

variable {made : List Path} {touched touched' : List Location} {a b c : FileSystem}

/-- A path goes on leading where it leads. -/
theorem locate? (h : Frame made touched a b) (hp : a.locate? p = some l) :
    b.locate? p = some l := by
  unfold FileSystem.locate? at hp ⊢
  rw [h.current]
  exact walk_mono h.directories hp

theorem refl (a : FileSystem) : Frame made touched a a :=
  ⟨rfl, fun _ h => h, fun _ _ => .inl rfl⟩

theorem trans (hab : Frame made touched a b) (hbc : Frame made touched' b c) :
    Frame made (touched ++ touched') a c where
  current := hbc.current.trans hab.current
  directories l h := hbc.directories l (hab.directories l h)
  entryAt? l hl := by
    rw [List.mem_append, not_or] at hl
    rcases hab.entryAt? l hl.1 with hsame | ⟨hnone, hdir, d, hd, hlocate⟩
    · rw [← hsame]
      exact hbc.entryAt? l hl.2
    · have hkept : c.entryAt? l = some .directory :=
        isDirectory_iff.mp (hbc.directories l (isDirectory_iff.mpr hdir))
      exact .inr ⟨hnone, hkept, d, hd, hbc.locate? hlocate⟩

/-- What touches fewer locations stays within a frame that touches more. -/
theorem mono (h : Frame made touched a b) (hsub : touched ⊆ touched') :
    Frame made touched' a b :=
  ⟨h.current, h.directories, fun l hl => h.entryAt? l fun hmem => hl (hsub hmem)⟩

/-- Only one location was touched, and that was no directory. -/
theorem of_entryAt? (hcurrent : b.current = a.current) (hl : a.entryAt? l ≠ some .directory)
    (h : ∀ m, m ≠ l → b.entryAt? m = a.entryAt? m) : Frame made [l] a b where
  current := hcurrent
  directories m hm := by
    rw [isDirectory_iff] at hm ⊢
    have hne : m ≠ l := by
      rintro rfl
      exact hl hm
    rwa [h m hne]
  entryAt? m hm := .inl (h m fun heq => hm (List.mem_singleton.mpr heq))

theorem put {e : Entry} (h : a.entryAt? l ≠ some .directory) :
    Frame made [l] a (a.put l e) := by
  have hcurrent : (a.put l e).current = a.current := rfl
  apply of_entryAt? hcurrent h
  intro m hm
  rw [entryAt?_put _ _ _ (ne_nil_of_entryAt?_ne h), if_neg hm]

theorem remove (h : a.entryAt? l ≠ some .directory) : Frame made [l] a (a.remove l) := by
  have hcurrent : (a.remove l).current = a.current := rfl
  apply of_entryAt? hcurrent h
  intro m hm
  rw [entryAt?_remove _ _ (ne_nil_of_entryAt?_ne h), if_neg hm]

theorem makeDirectory (hp : p ∈ made) (h : a.makeDirectory? p = some b) : Frame made [] a b := by
  obtain ⟨l, hlocate, ⟨hnone, -, rfl⟩ | ⟨-, rfl⟩⟩ := makeDirectory?_eq_some_iff.mp h
  · have hne : a.entryAt? l ≠ some .directory := by simp [hnone]
    have hput : Frame made [l] a (a.put l .directory) := put hne
    refine ⟨hput.current, hput.directories, fun m _ => ?_⟩
    by_cases hm : m = l
    · subst hm
      refine .inr ⟨hnone, ?_, p, hp, hput.locate? hlocate⟩
      rw [entryAt?_put _ _ _ (ne_nil_of_entryAt?_ne hne), if_pos rfl]
    · exact hput.entryAt? m (by simpa using hm)
  · exact refl _

end Frame

/-- Renaming moves a file to another location and touches only the two. -/
theorem moves_of_rename? (made : List Path) {source target : Path}
    (h : fs.rename? source target = some fs') (hne : fs.locate? source ≠ fs.locate? target) :
    ∃ s l content, fs.locate? source = some s ∧ fs.locateFile? target = some l ∧
      fs.entryAt? s = some (.file content) ∧ fs'.entryAt? s = none ∧
        fs'.entryAt? l = some (.file content) ∧ Frame made [s, l] fs fs' := by
  obtain ⟨s, l, content, hs, hl, hfile, rfl⟩ := rename?_eq_some_iff.mp h
  obtain ⟨hlocate, -, hentry⟩ := locateFile?_eq_some_iff.mp hl
  have hdiffer : l ≠ s := by
    rintro rfl
    exact hne (hs.trans hlocate.symm)
  have hsource : fs.entryAt? s ≠ some .directory := by simp [hfile]
  have htarget : (fs.remove s).entryAt? l ≠ some .directory := by
    rwa [entryAt?_remove _ _ (ne_nil_of_entryAt?_ne hsource), if_neg hdiffer]
  refine ⟨s, l, content, hs, hl, hfile, ?_, ?_, (Frame.remove hsource).trans (.put htarget)⟩
  · rw [entryAt?_put _ _ _ (ne_nil_of_entryAt?_ne hentry), if_neg hdiffer.symm,
      entryAt?_remove _ _ (ne_nil_of_entryAt?_ne hsource), if_pos rfl]
  · rw [entryAt?_put _ _ _ (ne_nil_of_entryAt?_ne hentry), if_pos rfl]

end FileSystem

end ModelPreview
