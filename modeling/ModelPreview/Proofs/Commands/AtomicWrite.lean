import ModelPreview.Proofs.Commands.Sessions
import ModelPreview.Proofs.Files.Frame

/-!
# Atomic writes

A file is replaced as a whole or not at all. Up to the renaming the new content is only beside the
file, where a write that fails may leave a part of it; the renaming puts all of it in the place of
the file and leaves nothing beside it.
-/

namespace ModelPreview

namespace FileSystem

variable {p t : Path} {text content : String} {before a b : FileSystem}

/-- The location that the next content of a file is written to first. -/
def beside? (fs : FileSystem) (p : Path) : Option Location :=
  p.temporary?.bind fs.locate?

/-- The file has the text, nothing is left beside it, and nothing else was touched. -/
structure Replaced (p : Path) (text : String) (before after : FileSystem) : Prop where
  read : after.read? p = some text
  cleared : ∀ l ∈ (after.beside? p).toList, after.entryAt? l = none
  frame : Frame p.directories ((after.locate? p).toList ++ (after.beside? p).toList) before after

/-- The content is beside the file. -/
def Staged (p t : Path) (content : String) (before after : FileSystem) : Prop :=
  ∃ l, after.locate? t = some l ∧ after.entryAt? l = some (.file content) ∧
    Frame p.directories [l] before after

theorem beside?_of_temporary? (ht : p.temporary? = some t) (fs : FileSystem) :
    fs.beside? p = fs.locate? t := by
  rw [beside?, ht, Option.bind_some]

namespace Staged

/-- A file that is put at the location beside the target is staged. -/
theorem of_put {l : Location} (hl : a.locateFile? t = some l)
    (h : Frame p.directories [l] before a) :
    Staged p t content before (a.put l (.file content)) := by
  obtain ⟨hlocate, -, hentry⟩ := locateFile?_eq_some_iff.mp hl
  have hput : Frame p.directories [l] a (a.put l (.file content)) := .put hentry
  refine ⟨l, hput.locate? hlocate, ?_, ?_⟩
  · rw [entryAt?_put _ _ _ (ne_nil_of_entryAt?_ne hentry), if_pos rfl]
  · exact (h.trans hput).mono (by simp)

theorem truncate (h : Frame p.directories [] before a) (hstep : a.truncate? t = some b) :
    Staged p t "" before b := by
  obtain ⟨l, hl, rfl⟩ := truncate?_eq_some_iff.mp hstep
  exact of_put hl (h.mono (List.nil_subset _))

theorem write (h : Staged p t content before a) (hstep : a.write? t text = some b) :
    Staged p t text before b := by
  obtain ⟨l, hl, -, hframe⟩ := h
  obtain ⟨k, -, hk, -, rfl⟩ := write?_eq_some_iff.mp hstep
  obtain rfl : l = k := Option.some.inj (hl.symm.trans (locateFile?_eq_some_iff.mp hk).1)
  exact of_put hk hframe

theorem rename (h : Staged p t text before a) (ht : p.temporary? = some t)
    (hstep : a.rename? t p = some b) : Replaced p text before b := by
  obtain ⟨s, hs, hfile, hframe⟩ := h
  have hne : a.locate? t ≠ a.locate? p := by
    rw [hs]
    exact (locate?_ne_of_temporary? ht hs).symm
  obtain ⟨s', l, content, hs', hl, hfile', hnone, hplace, hmove⟩ :=
    moves_of_rename? p.directories hstep hne
  obtain rfl : s = s' := Option.some.inj (hs.symm.trans hs')
  obtain rfl : text = content := by simpa [hfile] using hfile'
  obtain ⟨hlocate, hpath, -⟩ := locateFile?_eq_some_iff.mp hl
  have htarget : b.locate? p = some l := hmove.locate? hlocate
  have hbeside : b.beside? p = some s := by
    rw [beside?_of_temporary? ht]
    exact hmove.locate? hs
  constructor
  case read => exact read?_of_entryAt? htarget hpath hplace
  case cleared =>
    intro k hk
    obtain rfl : k = s := by simpa [hbeside] using hk
    exact hnone
  case frame =>
    rw [hbeside, htarget]
    exact (hframe.trans hmove).mono (by simp)

end Staged

/-- One of the contents is beside the file. -/
def StagedOneOf (p : Path) (contents : List String) (before after : FileSystem) : Prop :=
  ∃ t content, p.temporary? = some t ∧ content ∈ contents ∧ Staged p t content before after

end FileSystem

open FileSystem Session Host

namespace Session

/-- Make the directories on the way, and make the file beside the target empty. -/
def openTemporary (p : Path) : Session Unit := do
  forEach makeDirectory p.directories
  match p.temporary? with
  | none => fail (.invalid "invalid path for atomic write")
  | some temporary => truncate temporary

/-- Fill the file beside the target and let it take the target's place. -/
def moveInPlace (p : Path) (text : String) : Session Unit :=
  match p.temporary? with
  | none => pure ()
  | some temporary => do
    write temporary text
    sync temporary
    rename temporary p

/-- Bring the directory of the target to its storage. -/
def syncParent (p : Path) : Session Unit :=
  match p.parent? with
  | some parent => sync parent
  | none => pure ()

theorem writeAtomically_eq (p : Path) (text : String) :
    (writeAtomically p text : Session Unit) =
      openTemporary p >>= fun _ => moveInPlace p text >>= fun _ => syncParent p := by
  unfold writeAtomically openTemporary moveInPlace syncParent
  cases p.temporary? with
  | none => rw [bind_assoc]; rfl
  | some t => cases p.parent? <;> simp only [bind_assoc]

theorem makeDirectories_contract (ds : List Path) (before : FileSystem) :
    Contract (Frame ds [] before) (forEach makeDirectory ds : Session Unit)
      (Frame ds [] before) (Frame ds [] before) := by
  apply Contract.forEach
  intro d hd
  apply Contract.change
  · intro fs fs' h hstep
    exact h.trans (.makeDirectory hd hstep)
  · exact fun _ => id

/-- Until the file beside the target is open, only directories are made. -/
theorem openTemporary_contract (p : Path) (before : FileSystem) :
    Contract (· = before) (openTemporary p) (StagedOneOf p [""] before)
      (Frame p.directories [] before) := by
  have hmade : Contract (· = before) (forEach makeDirectory p.directories : Session Unit)
      (Frame p.directories [] before) (Frame p.directories [] before) := by
    apply (makeDirectories_contract p.directories before).consequence
    · rintro fs rfl
      exact .refl fs
    · exact fun _ => id
    · exact fun _ => id
  apply hmade.bind
  intro _
  cases ht : p.temporary? with
  | none => exact Contract.fail _ fun _ => id
  | some t =>
      apply Contract.change
      · intro fs fs' h hstep
        exact ⟨t, "", ht, List.mem_singleton_self _, .truncate h hstep⟩
      · exact fun _ => id

/-- Until the file beside the target is renamed, only this file is touched. -/
theorem moveInPlace_contract (p : Path) (text : String) (before : FileSystem) :
    Contract (StagedOneOf p [""] before) (moveInPlace p text) (Replaced p text before)
      (StagedOneOf p ["", text] before) := by
  unfold moveInPlace
  cases ht : p.temporary? with
  | none =>
      apply Contract.pure
      rintro fs ⟨t, content, ht', -⟩
      cases ht.symm.trans ht'
  | some t =>
      have hopened (fs : FileSystem) (h : StagedOneOf p [""] before fs) :
          StagedOneOf p ["", text] before fs := by
        obtain ⟨t', content, ht', hcontent, hstaged⟩ := h
        exact ⟨t', content, ht', List.mem_cons.mpr (.inl (List.mem_singleton.mp hcontent)), hstaged⟩
      have hfilled (fs : FileSystem) (h : Staged p t text before fs) :
          StagedOneOf p ["", text] before fs := ⟨t, text, ht, by simp, h⟩
      have hwrite : Contract (StagedOneOf p [""] before) (write t text : Session Unit)
          (Staged p t text before) (StagedOneOf p ["", text] before) := by
        apply Contract.change _ hopened
        rintro fs fs' ⟨t', content, ht', -, hstaged⟩ hstep
        obtain rfl : t = t' := Option.some.inj (ht.symm.trans ht')
        exact hstaged.write hstep
      have hsync : Contract (Staged p t text before) (sync t : Session Unit)
          (Staged p t text before) (StagedOneOf p ["", text] before) :=
        .change (fun _ _ h hstep => eq_of_sync? hstep ▸ h) hfilled
      have hrename : Contract (Staged p t text before) (rename t p : Session Unit)
          (Replaced p text before) (StagedOneOf p ["", text] before) :=
        .change (fun _ _ h => h.rename ht) hfilled
      exact hwrite.bind fun _ => hsync.bind fun _ => hrename

/-- Bringing a directory to its storage changes nothing, whether it succeeds or fails. -/
theorem syncParent_contract (p : Path) (pre : FileSystem → Prop) :
    Contract pre (syncParent p) pre pre := by
  unfold syncParent
  cases p.parent? with
  | none => exact Contract.pure () fun _ => id
  | some parent => exact .change (fun _ _ h hstep => eq_of_sync? hstep ▸ h) fun _ => id

end Session

end ModelPreview
