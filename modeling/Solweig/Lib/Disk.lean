import Solweig.Lib.Dict
import Solweig.Lib.Txn

/-!
# Directories and crashes

Programs of file operations on the directories of one parent. Each operation runs, raises, or is
where the process is killed. A raise can be handled, a kill runs nothing more.
-/

namespace Solweig.Lib.Disk

inductive Fate where
  | runs
  | raises
  | killed
  deriving DecidableEq

inductive Stop where
  | raised
  | killed
  deriving DecidableEq

abbrev Crash (σ α : Type) := Txn σ Stop α

/-- The directories with their files. -/
abbrev Directories (C : Type) := Dict String (Dict String C)

variable {σ α C : Type}

/-! ## Operations -/

/-- One operation. It raises by itself where it has no result, and a raise changes nothing. -/
def operation (fate : Fate) (f : σ → Option σ) : Crash σ Unit := fun s =>
  match fate with
  | .killed => (.error .killed, s)
  | .raises => (.error .raised, s)
  | .runs =>
    match f s with
    | some t => (.ok (), t)
    | none => (.error .raised, s)

/-- The handler runs after a raise, which then goes on. -/
def onRaise (body : Crash σ α) (handler : Crash σ Unit) : Crash σ α := fun s =>
  match body s with
  | (.error .raised, t) => (handler >>= fun _ => Txn.throw .raised) t
  | result => result

/-- A raise goes no further. -/
def ignoring (body : Crash σ Unit) : Crash σ Unit := fun s =>
  match body s with
  | (.error .raised, t) => (.ok (), t)
  | result => result

def makeDir (name : String) (disk : Directories C) : Option (Directories C) :=
  if disk[name]?.isSome then none else some (disk.insert name ∅)

def writeFile (name file : String) (content : C) (disk : Directories C) : Option (Directories C) :=
  disk[name]?.map fun files => disk.insert name (files.insert file content)

def unlink (name file : String) (disk : Directories C) : Option (Directories C) :=
  disk[name]?.map fun files => disk.insert name (files.erase file)

/-- Only an empty directory is removed. -/
def removeDir (name : String) (disk : Directories C) : Option (Directories C) :=
  match disk[name]? with
  | some files => if files.isEmpty then some (disk.erase name) else none
  | none => none

/-- A directory takes another name, if no directory with files has it. -/
def rename (old new : String) (disk : Directories C) : Option (Directories C) :=
  match disk[old]? with
  | some files =>
    if disk[new]?.any fun present => ¬ present.isEmpty then none
    else some ((disk.erase old).insert new files)
  | none => none

def fileNames (disk : Directories C) (name : String) : List String := (disk[name]?.getD ∅).keys

/-- Each file of the directory, then the directory, which has no name in `fate`. -/
def removeTree (fate : Option String → Fate) (name : String) : Crash (Directories C) Unit := do
  let disk ← Txn.get
  (fileNames disk name).forM fun file => operation (fate (some file)) (unlink name file)
  operation (fate none) (removeDir name)

def removeIfThere (fate : Option String → Fate) (name : String) : Crash (Directories C) Unit :=
  fun disk => if disk[name]?.isSome then removeTree fate name disk else (.ok (), disk)

/-- `ignore_errors` -/
def removeTreeIgnoring (fate : Option String → Fate) (name : String) : Crash (Directories C) Unit := do
  let disk ← Txn.get
  (fileNames disk name).forM fun file =>
    ignoring (operation (fate (some file)) (unlink name file))
  ignoring (operation (fate none) (removeDir name))

/-! ## What they leave alone -/

section Keeps

variable {γ : Type} {view : σ → γ}

theorem keeps_operation {fate : Fate} {f : σ → Option σ}
    (h : ∀ s t, f s = some t → view t = view s) : Txn.Keeps view (operation fate f) := by
  intro s
  unfold operation
  split
  · rfl
  · rfl
  · split
    · next t ht => exact h s t ht
    · rfl

theorem keeps_ignoring {body : Crash σ Unit} (h : Txn.Keeps view body) :
    Txn.Keeps view (ignoring body) := by
  intro s
  have hs := h s
  unfold ignoring
  rcases hbody : body s with ⟨(_ | _) | ⟨⟩, t⟩ <;> rw [hbody] at hs <;> exact hs

end Keeps

variable {disk : Directories C} {name other : String}

theorem erase_insert (disk : Directories C) (name : String) (files : Dict String C) :
    (disk.insert name files).erase name = disk.erase name := by
  apply Std.ExtTreeMap.ext_getElem?
  intro other
  by_cases h : other = name
  · simp [h]
  · rw [Dict.getElem?_erase_of_ne _ (Ne.symm h), Dict.getElem?_erase_of_ne _ (Ne.symm h),
      Dict.getElem?_insert_of_ne _ _ (Ne.symm h)]

theorem insert_insert (disk : Directories C) (name : String) (files later : Dict String C) :
    (disk.insert name files).insert name later = disk.insert name later := by
  apply Std.ExtTreeMap.ext_getElem?
  intro other
  by_cases h : other = name
  · simp [h]
  · rw [Dict.getElem?_insert_of_ne _ _ (Ne.symm h), Dict.getElem?_insert_of_ne _ _ (Ne.symm h),
      Dict.getElem?_insert_of_ne _ _ (Ne.symm h)]

theorem insert_erase (disk : Directories C) (name : String) (files : Dict String C) :
    (disk.erase name).insert name files = disk.insert name files := by
  apply Std.ExtTreeMap.ext_getElem?
  intro other
  by_cases h : other = name
  · simp [h]
  · rw [Dict.getElem?_insert_of_ne _ _ (Ne.symm h), Dict.getElem?_insert_of_ne _ _ (Ne.symm h),
      Dict.getElem?_erase_of_ne _ (Ne.symm h)]

theorem insert_self {files : Dict String C} (h : disk[name]? = some files) :
    disk.insert name files = disk := by
  apply Std.ExtTreeMap.ext_getElem?
  intro other
  by_cases hother : other = name
  · rw [hother, Std.ExtTreeMap.getElem?_insert_self, h]
  · rw [Dict.getElem?_insert_of_ne _ _ (Ne.symm hother)]

theorem getElem?_of_erase {disk' : Directories C} (h : disk'.erase name = disk.erase name)
    (hne : other ≠ name) : disk'[other]? = disk[other]? := by
  rw [← Dict.getElem?_erase_of_ne disk' hne.symm, h, Dict.getElem?_erase_of_ne disk hne.symm]

theorem unlink_erase {file : String} {disk' : Directories C} (h : unlink name file disk = some disk') :
    disk'.erase name = disk.erase name := by
  unfold unlink at h
  obtain ⟨files, -, rfl⟩ := Option.map_eq_some_iff.mp h
  exact erase_insert ..

theorem removeDir_erase {disk' : Directories C} (h : removeDir name disk = some disk') :
    disk'.erase name = disk.erase name := by
  unfold removeDir at h
  split at h
  · split at h
    · rw [← Option.some.inj h]
      apply Std.ExtTreeMap.ext_getElem?
      intro other
      by_cases hother : other = name
      · simp [hother]
      · rw [Dict.getElem?_erase_of_ne _ (Ne.symm hother),
          Dict.getElem?_erase_of_ne _ (Ne.symm hother)]
    · cases h
  · cases h

theorem keeps_removeTree {fate : Option String → Fate} :
    Txn.Keeps (fun disk : Directories C => disk.erase name) (removeTree fate name) := by
  unfold removeTree
  exact Txn.keeps_get.bind fun disk =>
    (Txn.keeps_forM fun file => keeps_operation fun s t => unlink_erase).bind fun _ =>
      keeps_operation fun s t => removeDir_erase

theorem keeps_removeIfThere {fate : Option String → Fate} :
    Txn.Keeps (fun disk : Directories C => disk.erase name) (removeIfThere fate name) := by
  intro disk
  unfold removeIfThere
  split
  · exact keeps_removeTree disk
  · rfl

theorem keeps_removeTreeIgnoring {fate : Option String → Fate} :
    Txn.Keeps (fun disk : Directories C => disk.erase name) (removeTreeIgnoring fate name) := by
  unfold removeTreeIgnoring
  exact Txn.keeps_get.bind fun disk =>
    (Txn.keeps_forM fun file => keeps_ignoring (keeps_operation fun s t => unlink_erase)).bind
      fun _ => keeps_ignoring (keeps_operation fun s t => removeDir_erase)

/-! ## Operations that end -/

@[simp]
theorem operation_ok {fate : Fate} {f : σ → Option σ} {s t : σ} {u : Unit} :
    operation fate f s = (.ok u, t) ↔ fate = .runs ∧ f s = some t := by
  unfold operation
  cases fate with
  | runs => cases f s <;> simp
  | raises => simp
  | killed => simp

theorem forM_writeFile {ε : Type} {fate : ε → Fate} {file : ε → String} {content : ε → C}
    {entries : List ε} {files : Dict String C} {disk disk' : Directories C}
    (hfiles : disk[name]? = some files)
    (h : (entries.forM fun entry => operation (fate entry)
      (writeFile name (file entry) (content entry))) disk = (.ok (), disk')) :
    disk' = disk.insert name
      (entries.foldl (fun files entry => files.insert (file entry) (content entry)) files) := by
  induction entries generalizing disk files with
  | nil =>
    obtain ⟨-, rfl⟩ := Txn.pure_ok.mp h
    rw [List.foldl_nil, insert_self hfiles]
  | cons entry entries ih =>
    obtain ⟨_, written, hwrite, hrest⟩ := Txn.bind_ok.mp h
    rw [operation_ok, writeFile, hfiles, Option.map_some, Option.some.injEq] at hwrite
    obtain ⟨-, rfl⟩ := hwrite
    rw [ih (Std.ExtTreeMap.getElem?_insert_self ..) hrest, insert_insert, List.foldl_cons]

theorem writeFile_erase {file : String} {content : C} {disk' : Directories C}
    (h : writeFile name file content disk = some disk') : disk'.erase name = disk.erase name := by
  unfold writeFile at h
  obtain ⟨files, -, rfl⟩ := Option.map_eq_some_iff.mp h
  exact erase_insert ..

theorem makeDir_erase {disk' : Directories C} (h : makeDir name disk = some disk') :
    disk'.erase name = disk.erase name := by
  unfold makeDir at h
  split at h
  · cases h
  · rw [← Option.some.inj h]
    exact erase_insert ..

/-! ## Removals that are not cut -/

theorem operation_runs {f : σ → Option σ} {s t : σ} (h : f s = some t) :
    operation .runs f s = (.ok (), t) := by
  rw [operation, h]

theorem ignoring_runs {body : Crash σ Unit} {s t : σ} (h : body s = (.ok (), t)) :
    ignoring body s = (.ok (), t) := by
  rw [ignoring, h]

def eraseAll (files : Dict String C) (names : List String) : Dict String C :=
  names.foldl (fun files file => files.erase file) files

theorem getElem?_eraseAll (files : Dict String C) (names : List String) (file : String) :
    (eraseAll files names)[file]? = if file ∈ names then none else files[file]? := by
  unfold eraseAll
  induction names generalizing files with
  | nil => simp
  | cons first names ih =>
    rw [List.foldl_cons, ih]
    by_cases h : file = first
    · simp [h]
    · rw [Dict.getElem?_erase_of_ne _ (Ne.symm h)]
      simp [h]

theorem eraseAll_keys (files : Dict String C) : eraseAll files files.keys = ∅ := by
  apply Std.ExtTreeMap.ext_getElem?
  intro file
  rw [getElem?_eraseAll]
  split
  · simp
  · next h =>
    rw [Std.ExtTreeMap.mem_keys] at h
    simp [h]

theorem forM_unlink {step : String → Crash (Directories C) Unit} {names : List String}
    (hstep : ∀ file disk disk', unlink name file disk = some disk' →
      step file disk = (.ok (), disk'))
    {files : Dict String C} (hfiles : disk[name]? = some files) :
    names.forM step disk = (.ok (), disk.insert name (eraseAll files names)) := by
  induction names generalizing disk files with
  | nil =>
    show (Except.ok (), disk) = _
    rw [eraseAll, List.foldl_nil, insert_self hfiles]
  | cons file names ih =>
    have hrun := hstep file disk _ (by rw [unlink, hfiles, Option.map_some])
    refine (Txn.bind_of_ok hrun).trans ?_
    rw [ih (Std.ExtTreeMap.getElem?_insert_self ..), insert_insert]
    rfl

theorem removeDir_emptied {files : Dict String C} (hfiles : disk[name]? = some files) :
    removeDir name (disk.insert name (eraseAll files (fileNames disk name))) =
      some (disk.erase name) := by
  have hkeys : fileNames disk name = files.keys := by
    rw [fileNames, hfiles, Option.getD_some]
  rw [hkeys, eraseAll_keys, removeDir, Std.ExtTreeMap.getElem?_insert_self]
  rw [← erase_insert disk name ∅]
  rfl

theorem removeTree_runs {fate : Option String → Fate} (hruns : ∀ op, fate op = .runs)
    {files : Dict String C} (hfiles : disk[name]? = some files) :
    removeTree fate name disk = (.ok (), disk.erase name) := by
  unfold removeTree
  refine (Txn.bind_of_ok rfl).trans ((Txn.bind_of_ok (forM_unlink ?_ hfiles)).trans ?_)
  · intro file disk disk' h
    rw [hruns, operation_runs h]
  · rw [hruns, operation_runs (removeDir_emptied hfiles)]

theorem removeTreeIgnoring_runs {fate : Option String → Fate} (hruns : ∀ op, fate op = .runs)
    {files : Dict String C} (hfiles : disk[name]? = some files) :
    removeTreeIgnoring fate name disk = (.ok (), disk.erase name) := by
  unfold removeTreeIgnoring
  refine (Txn.bind_of_ok rfl).trans ((Txn.bind_of_ok (forM_unlink ?_ hfiles)).trans ?_)
  · intro file disk disk' h
    rw [hruns, ignoring_runs (operation_runs h)]
  · rw [hruns, ignoring_runs (operation_runs (removeDir_emptied hfiles))]

/-! ## Removals that do not begin -/

theorem operation_cut {fate : Fate} (hcut : fate ≠ .runs) (f : σ → Option σ) (s : σ) :
    ∃ stop, operation fate f s = (.error stop, s) := by
  unfold operation
  cases fate with
  | runs => exact absurd rfl hcut
  | raises => exact ⟨.raised, rfl⟩
  | killed => exact ⟨.killed, rfl⟩

theorem removeTree_cut (fate : Option String → Fate)
    (hcut : fate (fileNames disk name).head? ≠ .runs) :
    ∃ stop, removeTree fate name disk = (.error stop, disk) := by
  unfold removeTree
  rcases hnames : fileNames disk name with _ | ⟨file, names⟩ <;> rw [hnames] at hcut
  · obtain ⟨stop, hstop⟩ := operation_cut hcut (removeDir name) disk
    refine ⟨stop, (Txn.bind_of_ok rfl).trans ?_⟩
    rw [hnames]
    exact (Txn.bind_of_ok rfl).trans hstop
  · obtain ⟨stop, hstop⟩ := operation_cut hcut (unlink name file) disk
    refine ⟨stop, (Txn.bind_of_ok rfl).trans ?_⟩
    rw [hnames]
    exact Txn.bind_of_error (Txn.bind_of_error hstop)

theorem removeTreeIgnoring_killed (fate : Option String → Fate)
    (hcut : fate (fileNames disk name).head? = .killed) :
    removeTreeIgnoring fate name disk = (.error .killed, disk) := by
  unfold removeTreeIgnoring
  refine (Txn.bind_of_ok rfl).trans ?_
  rcases hnames : fileNames disk name with _ | ⟨file, names⟩ <;> rw [hnames] at hcut
  · refine (Txn.bind_of_ok rfl).trans ?_
    rw [show fate none = .killed from hcut]
    rfl
  · have hkilled : operation (fate (some file)) (unlink name file) disk =
        (.error .killed, disk) := by
      rw [show fate (some file) = .killed from hcut]
      rfl
    refine Txn.bind_of_error (Txn.bind_of_error ?_)
    dsimp only [ignoring]
    rw [hkilled]

/-! ## Removals only take files away -/

def Within (files' files : Dict String C) : Prop :=
  ∀ (file : String) (content : C), files'[file]? = some content → files[file]? = some content

/-- Every directory was there, with at least its files. -/
def Shrinks (old new : Directories C) : Prop :=
  ∀ (name : String) (files' : Dict String C), new[name]? = some files' →
    ∃ files, old[name]? = some files ∧ Within files' files

theorem shrinks_refl (disk : Directories C) : Shrinks disk disk :=
  fun _ files' h => ⟨files', h, fun _ _ hfile => hfile⟩

theorem Shrinks.trans {first second third : Directories C} (h : Shrinks first second)
    (hnext : Shrinks second third) : Shrinks first third := by
  intro name files'' h''
  obtain ⟨files', h', hsub'⟩ := hnext name files'' h''
  obtain ⟨files, h, hsub⟩ := h name files' h'
  exact ⟨files, h, fun file content hfile => hsub file content (hsub' file content hfile)⟩

theorem unlink_shrinks {file : String} {disk' : Directories C} (h : unlink name file disk = some disk') :
    Shrinks disk disk' := by
  unfold unlink at h
  obtain ⟨files, hfiles, rfl⟩ := Option.map_eq_some_iff.mp h
  intro other files' h'
  by_cases hother : other = name
  · rw [hother, Std.ExtTreeMap.getElem?_insert_self] at h'
    rw [hother]
    obtain rfl := Option.some.inj h'
    exact ⟨files, hfiles, fun _ _ => Dict.of_getElem?_erase⟩
  · rw [Dict.getElem?_insert_of_ne _ _ (Ne.symm hother)] at h'
    exact ⟨files', h', fun _ _ hfile => hfile⟩

theorem removeDir_shrinks {disk' : Directories C} (h : removeDir name disk = some disk') :
    Shrinks disk disk' := by
  have herase : disk' = disk.erase name := by
    unfold removeDir at h
    split at h
    · split at h
      · exact (Option.some.inj h).symm
      · cases h
    · cases h
  intro other files' h'
  rw [herase] at h'
  exact ⟨files', Dict.of_getElem?_erase h', fun _ _ hfile => hfile⟩

theorem preserves_operation {I : σ → Prop} {fate : Fate} {f : σ → Option σ}
    (h : ∀ s t, f s = some t → I s → I t) : Txn.Preserves I (operation fate f) := by
  intro s hs
  unfold operation
  split
  · exact hs
  · exact hs
  · split
    · next t ht => exact h s t ht hs
    · exact hs

theorem preserves_ignoring {I : σ → Prop} {body : Crash σ Unit} (h : Txn.Preserves I body) :
    Txn.Preserves I (ignoring body) := by
  intro s hs
  have hbody := h s hs
  unfold ignoring
  rcases hrun : body s with ⟨(_ | _) | ⟨⟩, t⟩ <;> rw [hrun] at hbody <;> exact hbody

theorem removeTree_shrinks {fate : Option String → Fate} (disk : Directories C) :
    Shrinks disk (removeTree fate name disk).2 := by
  have hpreserves : Txn.Preserves (Shrinks disk) (removeTree fate name) := by
    unfold removeTree
    refine Txn.preserves_get.bind fun _ => (Txn.preserves_forM fun file => ?_).bind fun _ => ?_
    · exact preserves_operation fun s t hrun hs => hs.trans (unlink_shrinks hrun)
    · exact preserves_operation fun s t hrun hs => hs.trans (removeDir_shrinks hrun)
  exact hpreserves disk (shrinks_refl disk)

theorem removeIfThere_shrinks {fate : Option String → Fate} (disk : Directories C) :
    Shrinks disk (removeIfThere fate name disk).2 := by
  unfold removeIfThere
  split
  · exact removeTree_shrinks disk
  · exact shrinks_refl disk

theorem preserves_removeTreeIgnoring {base : Directories C} {fate : Option String → Fate} :
    Txn.Preserves (Shrinks base) (removeTreeIgnoring fate name) := by
  unfold removeTreeIgnoring
  refine Txn.preserves_get.bind fun _ => (Txn.preserves_forM fun file => ?_).bind fun _ => ?_
  · exact preserves_ignoring
      (preserves_operation fun s t hrun hs => hs.trans (unlink_shrinks hrun))
  · exact preserves_ignoring
      (preserves_operation fun s t hrun hs => hs.trans (removeDir_shrinks hrun))

/-! ## Removals that end -/

/-- The operations of a removal, by what they remove. -/
def removals (disk : Directories C) (name : String) : List (Option String) :=
  if disk[name]?.isSome then (fileNames disk name).map some ++ [none] else []

theorem removals_congr {disk' : Directories C} (h : disk'[name]? = disk[name]?) :
    removals disk' name = removals disk name := by
  unfold removals fileNames
  rw [h]

theorem removeTree_ok {fate : Option String → Fate} {disk' : Directories C}
    (h : removeTree fate name disk = (.ok (), disk')) : disk' = disk.erase name ∧
      (∀ file ∈ fileNames disk name, fate (some file) = .runs) ∧ fate none = .runs := by
  unfold removeTree at h
  obtain ⟨start, _, hget, h⟩ := Txn.bind_ok.mp h
  obtain ⟨rfl, rfl⟩ := Txn.get_ok.mp hget
  obtain ⟨_, emptied, hfiles, h⟩ := Txn.bind_ok.mp h
  obtain ⟨hlast, hdir⟩ := operation_ok.mp h
  have hkept : emptied.erase name = disk.erase name :=
    Txn.Keeps.ok (Txn.keeps_forM fun file => keeps_operation fun s t => unlink_erase) hfiles
  refine ⟨?_, fun file hfile => ?_, hlast⟩
  · unfold removeDir at hdir
    split at hdir
    · split at hdir
      · rw [← Option.some.inj hdir, hkept]
      · cases hdir
    · cases hdir
  · obtain ⟨u, v, hrun⟩ := Txn.forM_ok_each hfiles hfile
    exact (operation_ok.mp hrun).1

theorem removeIfThere_ok {fate : Option String → Fate} {disk' : Directories C}
    (h : removeIfThere fate name disk = (.ok (), disk')) :
    disk' = disk.erase name ∧ ∀ op ∈ removals disk name, fate op = .runs := by
  unfold removeIfThere at h
  unfold removals
  split at h
  · next hthere =>
    obtain ⟨hdisk, hfiles, hlast⟩ := removeTree_ok h
    refine ⟨hdisk, fun op hop => ?_⟩
    rw [if_pos hthere, List.mem_append, List.mem_map, List.mem_singleton] at hop
    rcases hop with ⟨file, hfile, rfl⟩ | rfl
    · exact hfiles file hfile
    · exact hlast
  · next hnone =>
    obtain rfl : disk = disk' := (Prod.mk.inj h).2
    refine ⟨?_, fun op hop => ?_⟩
    · apply Std.ExtTreeMap.ext_getElem?
      intro other
      by_cases hother : other = name
      · rw [hother]
        simpa using hnone
      · rw [Dict.getElem?_erase_of_ne _ (Ne.symm hother)]
    · rw [if_neg hnone] at hop
      cases hop

theorem operation_error {fate : Fate} {f : σ → Option σ} {s t : σ} {stop : Stop}
    (h : operation fate f s = (.error stop, t)) : t = s := by
  unfold operation at h
  split at h
  · exact (Prod.mk.inj h).2.symm
  · exact (Prod.mk.inj h).2.symm
  · split at h
    · cases h
    · exact (Prod.mk.inj h).2.symm

theorem forM_writeFile_error {ε : Type} {fate : ε → Fate} {file : ε → String} {content : ε → C}
    {entries : List ε} {files : Dict String C} {disk' : Directories C} {stop : Stop}
    (hfiles : disk[name]? = some files)
    (h : (entries.forM fun entry => operation (fate entry)
      (writeFile name (file entry) (content entry))) disk = (.error stop, disk')) :
    ∃ before entry after, entries = before ++ entry :: after ∧ disk' = disk.insert name
      (before.foldl (fun files entry => files.insert (file entry) (content entry)) files) := by
  obtain ⟨before, entry, after, written, hentries, hbefore, hentry⟩ := Txn.forM_error h
  rw [operation_error hentry]
  exact ⟨before, entry, after, hentries, forM_writeFile hfiles hbefore⟩

/-! ## What runs to its end -/

theorem removeIfThere_runs (fate : Option String → Fate) (hruns : ∀ op, fate op = .runs)
    (disk : Directories C) (name : String) : removeIfThere fate name disk = (.ok (), disk.erase name) := by
  unfold removeIfThere
  split
  · next hthere =>
    obtain ⟨files, hfiles⟩ := Option.isSome_iff_exists.mp hthere
    exact removeTree_runs hruns hfiles
  · next hnone =>
    have hsame : disk.erase name = disk := by
      apply Std.ExtTreeMap.ext_getElem?
      intro other
      by_cases hother : other = name
      · rw [hother, Std.ExtTreeMap.getElem?_erase_self]
        simpa using hnone
      · rw [Dict.getElem?_erase_of_ne _ (Ne.symm hother)]
    rw [hsame]

theorem forM_writeFile_runs {ε : Type} {fate : ε → Fate} {file : ε → String} {content : ε → C}
    {entries : List ε} (hruns : ∀ entry ∈ entries, fate entry = .runs)
    {files : Dict String C} (hfiles : disk[name]? = some files) :
    Txn.Succeeds (entries.forM fun entry => operation (fate entry)
      (writeFile name (file entry) (content entry))) disk := by
  induction entries generalizing disk files with
  | nil => exact ⟨(), disk, rfl⟩
  | cons entry entries ih =>
    obtain ⟨hentry, hruns⟩ := List.forall_mem_cons.mp hruns
    have hwrite : writeFile name (file entry) (content entry) disk =
        some (disk.insert name (files.insert (file entry) (content entry))) := by
      rw [writeFile, hfiles, Option.map_some]
    have hrun : operation (fate entry) (writeFile name (file entry) (content entry)) disk =
        (.ok (), disk.insert name (files.insert (file entry) (content entry))) := by
      rw [hentry, operation_runs hwrite]
    refine Txn.succeeds_bind hrun ?_
    exact ih hruns (Std.ExtTreeMap.getElem?_insert_self ..)

theorem ignoring_succeeds {fate : Fate} (hfate : fate ≠ .killed) (f : σ → Option σ) (s : σ) :
    Txn.Succeeds (ignoring (operation fate f)) s := by
  unfold Txn.Succeeds ignoring operation
  cases fate with
  | killed => exact absurd rfl hfate
  | raises => exact ⟨(), s, rfl⟩
  | runs =>
    rcases hf : f s with _ | t
    · exact ⟨(), s, rfl⟩
    · exact ⟨(), t, rfl⟩

theorem removeTreeIgnoring_succeeds {fate : Option String → Fate} (hfate : ∀ op, fate op ≠ .killed)
    (disk : Directories C) : Txn.Succeeds (removeTreeIgnoring fate name) disk := by
  have hfiles : Txn.Succeeds ((fileNames disk name).forM fun file =>
      ignoring (operation (fate (some file)) (unlink name file))) disk :=
    Txn.succeeds_forM
      (fun file disk => ignoring_succeeds (hfate (some file)) (unlink name file) disk) disk
  obtain ⟨⟨⟩, emptied, hrun⟩ := hfiles
  unfold removeTreeIgnoring
  refine Txn.succeeds_bind rfl (Txn.succeeds_bind hrun ?_)
  exact ignoring_succeeds (hfate none) (removeDir name) emptied

end Solweig.Lib.Disk
