import Solweig.Lib.Disk

/-!
# Files that are written aside

A file is written under another name and then takes its own. A write that is cut short leaves
anything in the file that it writes, and a replacement happens or does not.
-/

namespace Solweig.Lib.Files

open Disk

variable {P C : Type} [DecidableEq P]

/-- What stops a write, and what it leaves in the file, if it came to open it. -/
inductive WriteFate (C : Type) where
  | runs
  | cut (stop : Stop) (left : Option C)
  deriving DecidableEq

def write (fate : WriteFate C) (path : P) (content : C) : Crash (P → Option C) Unit := fun files =>
  match fate with
  | .runs => (.ok (), Function.update files path (some content))
  | .cut stop none => (.error stop, files)
  | .cut stop (some left) => (.error stop, Function.update files path (some left))

/-- `os.replace` -/
def replaceFile (old new : P) (files : P → Option C) : Option (P → Option C) :=
  (files old).map fun content => Function.update (Function.update files new (some content)) old none

def replace (fate : Fate) (old new : P) : Crash (P → Option C) Unit :=
  operation fate (replaceFile old new)

/-! ## What they change -/

section Changes

variable {files files' : P → Option C} {path old new aside other : P} {content : C}
  {fate : WriteFate C} {r : Except Stop Unit}

theorem write_ok {u : Unit} :
    write fate path content files = (.ok u, files') ↔
      fate = .runs ∧ files' = Function.update files path (some content) := by
  unfold write
  split
  · simp [eq_comm]
  · simp
  · simp

theorem write_other (hne : other ≠ path) : (write fate path content files).2 other = files other := by
  unfold write
  split
  · exact Function.update_of_ne hne _ _
  · rfl
  · exact Function.update_of_ne hne _ _

theorem replaceFile_some :
    replaceFile old new files = some files' ↔ ∃ content, files old = some content ∧
      files' = Function.update (Function.update files new (some content)) old none := by
  simp [replaceFile, eq_comm]

theorem replace_other {fate : Fate} (hold : other ≠ old) (hnew : other ≠ new) :
    (replace fate old new files).2 other = files other := by
  have hkeeps : Txn.Keeps (fun files : P → Option C => files other) (replace fate old new) := by
    apply keeps_operation
    intro s t h
    obtain ⟨content, -, rfl⟩ := replaceFile_some.mp h
    simp [hold, hnew]
  exact hkeeps files

end Changes

/-! ## In a directory -/

section Directories

def fileAt (disk : Directories C) (name file : String) : Option C :=
  disk[name]?.bind fun files => files[file]?

def writeIn (fate : WriteFate C) (name file : String) (content : C) : Crash (Directories C) Unit :=
  fun disk =>
    match fate with
    | .runs => operation .runs (writeFile name file content) disk
    | .cut stop none => (.error stop, disk)
    | .cut stop (some left) => (.error stop, (writeFile name file left disk).getD disk)

def renameFile (name old new : String) (disk : Directories C) : Option (Directories C) :=
  disk[name]?.bind fun files =>
    files[old]?.map fun content => disk.insert name ((files.erase old).insert new content)

/-- `mkdir` where the directory may be there. -/
def ensureDir (name : String) (disk : Directories C) : Option (Directories C) :=
  if disk[name]?.isSome then some disk else some (disk.insert name ∅)

variable {disk disk' : Directories C} {files : Dict String C} {name other file old new : String}
  {content : C}

theorem keeps_other {α : Type} {m : Crash (Directories C) α}
    (h : Txn.Keeps (fun disk : Directories C => disk.erase name) m) (hne : other ≠ name) :
    Txn.Keeps (fun disk : Directories C => disk[other]?) m := fun disk =>
  getElem?_of_erase (h disk) hne

theorem keeps_writeIn {fate : WriteFate C} :
    Txn.Keeps (fun disk : Directories C => disk.erase name) (writeIn fate name file content) := by
  intro disk
  unfold writeIn
  split
  · exact keeps_operation (fun _ _ => writeFile_erase) disk
  · rfl
  · next left =>
    dsimp only
    cases hleft : writeFile name file left disk with
    | none => rfl
    | some disk' => exact writeFile_erase hleft

theorem keeps_renameFile {fate : Fate} :
    Txn.Keeps (fun disk : Directories C => disk.erase name)
      (operation fate (renameFile name old new)) := by
  apply keeps_operation
  intro disk disk' h
  obtain ⟨files, -, h⟩ := Option.bind_eq_some_iff.mp h
  obtain ⟨content, -, rfl⟩ := Option.map_eq_some_iff.mp h
  exact erase_insert ..

theorem keeps_ensureDir {fate : Fate} :
    Txn.Keeps (fun disk : Directories C => disk.erase name) (operation fate (ensureDir name)) := by
  apply keeps_operation
  intro disk disk' h
  unfold ensureDir at h
  split at h
  · rw [Option.some.inj h]
  · rw [← Option.some.inj h]
    exact erase_insert ..

theorem keeps_fileAt_writeIn {fate : WriteFate C} {written : String} (hne : file ≠ written) :
    Txn.Keeps (fun disk : Directories C => fileAt disk name file)
      (writeIn fate name written content) := by
  have hwrite : ∀ {content : C} {disk disk' : Directories C},
      writeFile name written content disk = some disk' →
        fileAt disk' name file = fileAt disk name file := by
    intro content disk disk' h
    obtain ⟨files, hfiles, rfl⟩ := Option.map_eq_some_iff.mp h
    rw [fileAt, Std.ExtTreeMap.getElem?_insert_self, fileAt, hfiles, Option.bind_some,
      Option.bind_some, Dict.getElem?_insert_of_ne _ _ hne.symm]
  intro disk
  unfold writeIn
  split
  · exact keeps_operation (fun _ _ => hwrite) disk
  · rfl
  · next left =>
    dsimp only
    cases hleft : writeFile name written left disk with
    | none => rfl
    | some disk' => exact hwrite hleft

theorem keeps_fileAt_renameFile {fate : Fate} (hold : file ≠ old) (hnew : file ≠ new) :
    Txn.Keeps (fun disk : Directories C => fileAt disk name file)
      (operation fate (renameFile name old new)) := by
  apply keeps_operation
  intro disk disk' h
  obtain ⟨files, hfiles, h⟩ := Option.bind_eq_some_iff.mp h
  obtain ⟨content, -, rfl⟩ := Option.map_eq_some_iff.mp h
  rw [fileAt, Std.ExtTreeMap.getElem?_insert_self, fileAt, hfiles, Option.bind_some, Option.bind_some,
    Dict.getElem?_insert_of_ne _ _ hnew.symm, Dict.getElem?_erase_of_ne _ hold.symm]

theorem keeps_fileAt_ensureDir {fate : Fate} :
    Txn.Keeps (fun disk : Directories C => fileAt disk name file)
      (operation fate (ensureDir name)) := by
  apply keeps_operation
  intro disk disk' h
  unfold ensureDir at h
  split at h
  · rw [Option.some.inj h]
  · next hnone =>
    rw [Option.not_isSome_iff_eq_none] at hnone
    rw [← Option.some.inj h, fileAt, Std.ExtTreeMap.getElem?_insert_self, fileAt, hnone]
    simp

theorem writeIn_ok {fate : WriteFate C} {u : Unit} (hfiles : disk[name]? = some files)
    (h : writeIn fate name file content disk = (.ok u, disk')) :
    disk'[name]? = some (files.insert file content) := by
  unfold writeIn at h
  split at h
  · rw [operation_ok, writeFile, hfiles, Option.map_some, Option.some.injEq] at h
    rw [← h.2, Std.ExtTreeMap.getElem?_insert_self]
  · cases h
  · cases h

theorem renameFile_ok {fate : Fate} {u : Unit} (hfiles : disk[name]? = some files)
    (h : operation fate (renameFile name old new) disk = (.ok u, disk')) :
    ∃ content, files[old]? = some content ∧
      disk'[name]? = some ((files.erase old).insert new content) := by
  rw [operation_ok, renameFile, hfiles, Option.bind_some, Option.map_eq_some_iff] at h
  obtain ⟨-, content, hcontent, rfl⟩ := h
  exact ⟨content, hcontent, Std.ExtTreeMap.getElem?_insert_self ..⟩

theorem ensureDir_ok {fate : Fate} {u : Unit}
    (h : operation fate (ensureDir name) disk = (.ok u, disk')) : ∃ files, disk'[name]? = some files := by
  rw [operation_ok, ensureDir] at h
  obtain ⟨-, h⟩ := h
  split at h
  · next hthere =>
    rw [← Option.some.inj h]
    exact Option.isSome_iff_exists.mp hthere
  · rw [← Option.some.inj h]
    exact ⟨∅, Std.ExtTreeMap.getElem?_insert_self ..⟩

theorem rename_ok {fate : Fate} {u : Unit}
    (h : operation fate (rename old new) disk = (.ok u, disk')) (hne : old ≠ new) :
    ∃ files, disk[old]? = some files ∧ disk'[new]? = some files ∧ disk'[old]? = none ∧
      ∀ other, other ≠ old → other ≠ new → disk'[other]? = disk[other]? := by
  rw [operation_ok, rename] at h
  obtain ⟨-, h⟩ := h
  split at h
  · next files hfiles =>
    split at h
    · cases h
    · rw [← Option.some.inj h]
      refine ⟨files, hfiles, Std.ExtTreeMap.getElem?_insert_self .., ?_, fun other hold hnew => ?_⟩
      · rw [Dict.getElem?_insert_of_ne _ _ hne.symm, Std.ExtTreeMap.getElem?_erase_self]
      · rw [Dict.getElem?_insert_of_ne _ _ hnew.symm, Dict.getElem?_erase_of_ne _ hold.symm]
  · cases h

end Directories

end Solweig.Lib.Files
