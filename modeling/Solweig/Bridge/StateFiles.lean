import Solweig.Bridge.Rebuild
import Solweig.Lib.Files

/-!
# The state directory of a scenario, file by file

A job stages its snapshot under `pending`. A later job adopts it, which moves it under
`generations` and then names it in the sidecar, or drops it. Each file operation runs, raises or
is where the process is killed, and a write that is cut leaves anything.
-/

namespace Solweig.Bridge

open Solweig.Lib Solweig.Lib.Disk Solweig.Lib.Files Solweig.Store

variable {M H : Type}

inductive FileContent (M H : Type) where
  | document (schemaVersion : Nat) (snapshot : Snapshot) (memo : Option String)
      (memoSha256 : Option H)
  | memo (bytes : M)
  | info (info : PendingMeta)
  | coverage (coverage : Coverage)
  | unreadable

abbrev StateFiles (M H : Type) := Dict String (FileContent M H)

abbrev StateDisk (M H : Type) := Directories (FileContent M H)

def scenarioStateSchemaVersion : Nat := 3
def stateFilename : String := "scenario-state.json"
def stateAside : String := "scenario-state.json.tmp"
def resolvedFilename : String := "landcover-resolved.npy"
def resolvedAside : String := "landcover-resolved.npy.tmp.npy"
def coverageFilename : String := "ledger-coverage.json"
def coverageAside : String := "ledger-coverage.json.tmp"
def pendingMetaFilename : String := "pending.json"

def pendingDirectory : String := "pending"
def pendingStaging : String := "pending.tmp"

/-- The state directory itself. -/
def rootDirectory : String := "."

def generationsPrefix : String := "generations/"
def generationDirectory (generation : String) : String := generationsPrefix ++ generation
def generationName (jobId : String) : String := "gen-" ++ jobId

/-! ## Snapshots -/

/-- What the state of an executor is saved as. -/
structure Staged (M : Type) where
  jobId : String
  coveredSequence : Nat
  snapshot : Snapshot
  landcoverResolved : Option M

structure StageFates (C : Type) where
  clear : Option String → Fate
  makeStaging : Fate
  memo : WriteFate C
  replaceMemo : Fate
  document : WriteFate C
  replaceDocument : Fate
  info : WriteFate C
  drop : Option String → Fate
  swap : Fate

/-- `_file_sha256` -/
def fileSha256 (sha256 : FileContent M H → H) (disk : StateDisk M H) (name file : String) :
    Option H :=
  (fileAt disk name file).map sha256

/-- The memo that the document declares, with its digest. -/
def writeMemo (sha256 : FileContent M H → H) (fates : StageFates (FileContent M H)) (name : String) :
    Option String → Option M → Crash (StateDisk M H) (Option H)
  | some _, none => Txn.throw .raised
  | none, some _ => Txn.throw .raised
  | none, none => pure none
  | some _, some bytes => do
    writeIn fates.memo name resolvedAside (.memo bytes)
    operation fates.replaceMemo (renameFile name resolvedAside resolvedFilename)
    let disk ← Txn.get
    pure (fileSha256 sha256 disk name resolvedFilename)

/-- The memo first, the document last. -/
def writeSnapshot (sha256 : FileContent M H → H) (fates : StageFates (FileContent M H))
    (name : String) (snapshot : Snapshot) (declared : Option String) (resolved : Option M) :
    Crash (StateDisk M H) Unit := do
  let memoSha256 ← writeMemo sha256 fates name declared resolved
  writeIn fates.document name stateAside
    (.document scenarioStateSchemaVersion snapshot declared memoSha256)
  operation fates.replaceDocument (renameFile name stateAside stateFilename)

inductive SnapshotError where
  | missing
  | corrupt
  | schema (version : Nat)
  | memoPair (detail : String)

/-- The snapshot with its memo. -/
def readSnapshot [DecidableEq H] (sha256 : FileContent M H → H) (files : StateFiles M H) :
    Except SnapshotError (Snapshot × Option (FileContent M H)) :=
  match files[stateFilename]? with
  | none => .error .missing
  | some (.document version snapshot memo memoSha256) =>
    if version ≠ scenarioStateSchemaVersion then .error (.schema version)
    else
      match memo with
      | none => .ok (snapshot, none)
      | some file =>
        match files[file]? with
        | none => .error (.memoPair "missing memo")
        | some content =>
          if memoSha256 = none then .error (.memoPair "no landcover_resolved_sha256")
          else if some (sha256 content) ≠ memoSha256 then .error (.memoPair "sha256")
          else .ok (snapshot, some content)
  | some _ => .error .corrupt

/-- What the branch decisions see of a directory. -/
def snapshotFileOf [DecidableEq H] (sha256 : FileContent M H → H) (files : StateFiles M H) :
    SnapshotFile :=
  match readSnapshot sha256 files with
  | .ok (snapshot, _) => .readable snapshot
  | .error .missing => .absent
  | .error _ => .torn

/-! ## Staging -/

/-- Everything up to the swap. -/
def prepareState (sha256 : FileContent M H → H) (fates : StageFates (FileContent M H))
    (record : Staged M) : Crash (StateDisk M H) Unit := do
  removeTreeIgnoring fates.clear pendingStaging
  operation fates.makeStaging (ensureDir pendingStaging)
  writeSnapshot sha256 fates pendingStaging record.snapshot
    (record.landcoverResolved.map fun _ => resolvedFilename) record.landcoverResolved
  writeIn fates.info pendingStaging pendingMetaFilename
    (.info ⟨record.jobId, record.coveredSequence⟩)
  removeTreeIgnoring fates.drop pendingDirectory

/-- `_stage_state` -/
def stageState (sha256 : FileContent M H → H) (fates : StageFates (FileContent M H))
    (record : Staged M) : Crash (StateDisk M H) Unit := do
  prepareState sha256 fates record
  operation fates.swap (rename pendingStaging pendingDirectory)

/-! ## Adoption -/

def sidecarFile (disk : StateDisk M H) : Option (FileContent M H) :=
  fileAt disk rootDirectory coverageFilename

/-- `_read_coverage` -/
def readCoverage (disk : StateDisk M H) : Coverage :=
  match sidecarFile disk with
  | some (.coverage ⟨covered, some generation⟩) =>
    if disk[generationDirectory generation]?.isSome then ⟨covered, some generation⟩ else ⟨0, none⟩
  | some (.coverage ⟨covered, none⟩) => ⟨covered, none⟩
  | _ => ⟨0, none⟩

/-- The files of `_snapshot_directory`. -/
def snapshotDirectory (disk : StateDisk M H) (coverage : Coverage) : Option (StateFiles M H) :=
  match coverage.generation with
  | none => disk[rootDirectory]?
  | some generation => disk[generationDirectory generation]?

/-- `_read_pending_meta` -/
def readPendingMeta (disk : StateDisk M H) : Option PendingMeta :=
  match fileAt disk pendingDirectory pendingMetaFilename with
  | some (.info info) => some info
  | _ => none

structure AdoptFates (C : Type) where
  makeGenerations : Fate
  clear : Option String → Fate
  swap : Fate
  makeRoot : Fate
  sidecar : WriteFate C
  flip : Fate
  collect : String → Option String → Fate
  dropPending : Option String → Fate
  dropStaging : Option String → Fate

def writeCoverage (fates : AdoptFates (FileContent M H)) (coverage : Coverage) :
    Crash (StateDisk M H) Unit := do
  operation fates.makeRoot (ensureDir rootDirectory)
  writeIn fates.sidecar rootDirectory coverageAside (.coverage coverage)
  operation fates.flip (renameFile rootDirectory coverageAside coverageFilename)

/-- The entries of the generations directory but one. -/
def superseded (disk : StateDisk M H) (keep : String) : List String :=
  disk.keys.filter fun name =>
    generationsPrefix.toList.isPrefixOf name.toList ∧ name ≠ generationDirectory keep

/-- `_collect_generations` -/
def collectGenerations (fates : AdoptFates (FileContent M H)) (keep : String) :
    Crash (StateDisk M H) Unit := do
  let disk ← Txn.get
  (superseded disk keep).forM fun name => removeTreeIgnoring (fates.collect name) name

/-- A directory that has the name already goes first. -/
def clearTarget (fates : AdoptFates (FileContent M H)) (target : String) :
    Crash (StateDisk M H) Unit := fun disk =>
  if disk[target]?.isSome then removeTreeIgnoring fates.clear target disk else (.ok (), disk)

/-- The staged directory takes the name of its generation. -/
def moveGeneration (fates : AdoptFates (FileContent M H)) (generation : String) :
    Crash (StateDisk M H) Unit := do
  operation fates.makeGenerations some
  clearTarget fates (generationDirectory generation)
  operation fates.swap (rename pendingDirectory (generationDirectory generation))

/-- `_promote_pending` -/
def promotePending (fates : AdoptFates (FileContent M H)) (info : PendingMeta) :
    Crash (StateDisk M H) Coverage := do
  let generation := generationName info.jobId
  let coverage : Coverage := ⟨info.coveredSequence, some generation⟩
  moveGeneration fates generation
  writeCoverage fates coverage
  collectGenerations fates generation
  pure coverage

def discardPending (fates : AdoptFates (FileContent M H)) : Crash (StateDisk M H) Unit := do
  removeTreeIgnoring fates.dropPending pendingDirectory
  removeTreeIgnoring fates.dropStaging pendingStaging

/-- The pending snapshot that the request adopts. -/
def adopts [DecidableEq H] (sha256 : FileContent M H → H) (status : String → Option JobStatus)
    (request : SolveRequest) (disk : StateDisk M H) : Option PendingMeta := do
  let info ← readPendingMeta disk
  let files ← disk[pendingDirectory]?
  if adoptable status request info (snapshotFileOf sha256 files) then some info else none

/-- `_reconcile_coverage` -/
def reconcileCoverage [DecidableEq H] (sha256 : FileContent M H → H)
    (fates : AdoptFates (FileContent M H)) (status : String → Option JobStatus)
    (request : SolveRequest) : Crash (StateDisk M H) Coverage := do
  let disk ← Txn.get
  match adopts sha256 status request disk with
  | some info => promotePending fates info
  | none => do
    discardPending fates
    let disk ← Txn.get
    pure (readCoverage disk)

/-! ## What a staged directory reads as -/

section Staged

variable [DecidableEq H] {sha256 : FileContent M H → H} {record : Staged M}
  {files files' : StateFiles M H}

/-- The files that a job stages are all there. -/
structure Whole (sha256 : FileContent M H → H) (record : Staged M) (files : StateFiles M H) :
    Prop where
  document : files[stateFilename]? = some (.document scenarioStateSchemaVersion record.snapshot
    (record.landcoverResolved.map fun _ => resolvedFilename)
    (record.landcoverResolved.map fun bytes => sha256 (.memo bytes)))
  memo : ∀ bytes, record.landcoverResolved = some bytes →
    files[resolvedFilename]? = some (.memo bytes)
  info : files[pendingMetaFilename]? = some (.info ⟨record.jobId, record.coveredSequence⟩)

theorem Whole.read (h : Whole sha256 record files) :
    readSnapshot sha256 files =
      .ok (record.snapshot, record.landcoverResolved.map FileContent.memo) := by
  unfold readSnapshot
  rw [h.document]
  cases hmemo : record.landcoverResolved with
  | none => simp
  | some bytes =>
    have hfile := h.memo bytes hmemo
    simp [hfile]

theorem Whole.of_within (h : Whole sha256 record files) (hwithin : Within files' files)
    (hinfo : ∃ content, files'[pendingMetaFilename]? = some content)
    {read : Snapshot × Option (FileContent M H)} (hread : readSnapshot sha256 files' = .ok read) :
    Whole sha256 record files' := by
  have hsame : ∀ (file : String) content, files'[file]? = some content →
      files'[file]? = files[file]? := fun file content hfile =>
    hfile.trans (hwithin file content hfile).symm
  have hdocument : files'[stateFilename]? = files[stateFilename]? := by
    unfold readSnapshot at hread
    split at hread
    · cases hread
    · next hfile => exact hsame _ _ hfile
    · cases hread
  refine ⟨hdocument.trans h.document, fun bytes hbytes => ?_, ?_⟩
  · have hmemo : ∃ content, files'[resolvedFilename]? = some content := by
      unfold readSnapshot at hread
      rw [hdocument, h.document, hbytes] at hread
      simp only [Option.map_some, ne_eq, not_true_eq_false, if_false] at hread
      split at hread
      · cases hread
      · next content hfile => exact ⟨content, hfile⟩
    obtain ⟨content, hmemo⟩ := hmemo
    exact (hsame _ _ hmemo).trans (h.memo bytes hbytes)
  · obtain ⟨content, hinfo⟩ := hinfo
    exact (hsame _ _ hinfo).trans h.info

end Staged

/-! ## What staging changes -/

section Staging

variable {sha256 : FileContent M H → H} {fates : StageFates (FileContent M H)} {record : Staged M}
  {disk disk' : StateDisk M H} {name : String}

theorem keeps_writeMemo {declared : Option String} {resolved : Option M} :
    Txn.Keeps (fun disk : StateDisk M H => disk.erase name)
      (writeMemo sha256 fates name declared resolved) := by
  unfold writeMemo
  split
  · exact Txn.keeps_throw _
  · exact Txn.keeps_throw _
  · exact Txn.keeps_pure _
  · exact keeps_writeIn.bind fun _ => keeps_renameFile.bind fun _ =>
      Txn.keeps_get.bind fun _ => Txn.keeps_pure _

theorem keeps_writeSnapshot {snapshot : Snapshot} {declared : Option String} {resolved : Option M} :
    Txn.Keeps (fun disk : StateDisk M H => disk.erase name)
      (writeSnapshot sha256 fates name snapshot declared resolved) := by
  unfold writeSnapshot
  exact keeps_writeMemo.bind fun _ => keeps_writeIn.bind fun _ => keeps_renameFile

theorem writeMemo_ok {files : StateFiles M H} {file : String} {memoSha256 : Option H}
    (hfiles : disk[name]? = some files)
    (h : writeMemo sha256 fates name (record.landcoverResolved.map fun _ => file)
      record.landcoverResolved disk = (.ok memoSha256, disk')) :
    memoSha256 = record.landcoverResolved.map (fun bytes => sha256 (.memo bytes)) ∧
      ∃ files', disk'[name]? = some files' ∧ ∀ bytes, record.landcoverResolved = some bytes →
        files'[resolvedFilename]? = some (.memo bytes) := by
  cases hmemo : record.landcoverResolved with
  | none =>
    rw [hmemo] at h
    obtain ⟨rfl, rfl⟩ := Txn.pure_ok.mp h
    exact ⟨rfl, files, hfiles, fun _ hbytes => by cases hbytes⟩
  | some bytes =>
    rw [hmemo] at h
    obtain ⟨_, written, hwrite, h⟩ := Txn.bind_ok.mp h
    obtain ⟨_, replaced, hreplace, h⟩ := Txn.bind_ok.mp h
    obtain ⟨_, _, hget, h⟩ := Txn.bind_ok.mp h
    obtain ⟨rfl, rfl⟩ := Txn.get_ok.mp hget
    obtain ⟨rfl, rfl⟩ := Txn.pure_ok.mp h
    obtain ⟨content, hcontent, hfiles'⟩ := renameFile_ok (writeIn_ok hfiles hwrite) hreplace
    rw [Std.ExtTreeMap.getElem?_insert_self, Option.some.injEq] at hcontent
    subst hcontent
    refine ⟨?_, _, hfiles', fun other hother => ?_⟩
    · rw [fileSha256, fileAt, hfiles', Option.bind_some, Std.ExtTreeMap.getElem?_insert_self]
      rfl
    · rw [Std.ExtTreeMap.getElem?_insert_self, Option.some.inj hother]

theorem prepareState_other {other : String} (hstaging : other ≠ pendingStaging)
    (hpending : other ≠ pendingDirectory) :
    Txn.Keeps (fun disk : StateDisk M H => disk[other]?) (prepareState sha256 fates record) := by
  unfold prepareState
  exact (keeps_other keeps_removeTreeIgnoring hstaging).bind fun _ =>
    (keeps_other keeps_ensureDir hstaging).bind fun _ =>
      (keeps_other keeps_writeSnapshot hstaging).bind fun _ =>
        (keeps_other keeps_writeIn hstaging).bind fun _ =>
          keeps_other keeps_removeTreeIgnoring hpending

theorem prepareState_ok (h : prepareState sha256 fates record disk = (.ok (), disk')) :
    ∃ files, disk'[pendingStaging]? = some files ∧ Whole sha256 record files := by
  unfold prepareState at h
  obtain ⟨_, cleared, -, h⟩ := Txn.bind_ok.mp h
  obtain ⟨_, made, hmake, h⟩ := Txn.bind_ok.mp h
  obtain ⟨_, saved, hsave, h⟩ := Txn.bind_ok.mp h
  obtain ⟨_, described, hinfo, hdrop⟩ := Txn.bind_ok.mp h
  obtain ⟨files, hfiles⟩ := ensureDir_ok hmake
  obtain ⟨memoSha256, withMemo, hmemo, hsave⟩ := Txn.bind_ok.mp hsave
  obtain ⟨_, written, hwrite, hreplace⟩ := Txn.bind_ok.mp hsave
  obtain ⟨rfl, filesMemo, hfilesMemo, hbytes⟩ := writeMemo_ok hfiles hmemo
  obtain ⟨content, hcontent, hfilesSaved⟩ := renameFile_ok (writeIn_ok hfilesMemo hwrite) hreplace
  rw [Std.ExtTreeMap.getElem?_insert_self, Option.some.injEq] at hcontent
  subst hcontent
  have hfilesInfo := writeIn_ok hfilesSaved hinfo
  have hkept : disk'[pendingStaging]? = described[pendingStaging]? :=
    (keeps_other keeps_removeTreeIgnoring (by decide)).ok hdrop
  refine ⟨_, hkept.trans hfilesInfo, ?_, fun bytes hmemo => ?_, ?_⟩
  · rw [Dict.getElem?_insert_of_ne _ _ (by decide), Std.ExtTreeMap.getElem?_insert_self]
  · rw [Dict.getElem?_insert_of_ne _ _ (by decide), Dict.getElem?_insert_of_ne _ _ (by decide),
      Dict.getElem?_erase_of_ne _ (by decide), Dict.getElem?_insert_of_ne _ _ (by decide)]
    exact hbytes bytes hmemo
  · exact Std.ExtTreeMap.getElem?_insert_self

/-- What was pending loses files or goes. -/
def PendingShrinks (old new : StateDisk M H) : Prop :=
  ∀ files', new[pendingDirectory]? = some files' →
    ∃ files, old[pendingDirectory]? = some files ∧ Within files' files

theorem PendingShrinks.of_keeps {α : Type} {m : Crash (StateDisk M H) α} {base : StateDisk M H}
    (h : Txn.Keeps (fun disk : StateDisk M H => disk[pendingDirectory]?) m) :
    Txn.Preserves (PendingShrinks base) m := by
  intro disk hdisk files' hfiles'
  exact hdisk files' ((h disk).symm.trans hfiles')

theorem within_trans {first second third : StateFiles M H} (h : Within first second)
    (hnext : Within second third) : Within first third :=
  fun file content hfile => hnext file content (h file content hfile)

theorem preserves_dropPending {fate : Option String → Fate} {base : StateDisk M H} :
    Txn.Preserves (PendingShrinks base) (removeTreeIgnoring fate pendingDirectory) := by
  intro disk hdisk files' hfiles'
  obtain ⟨files, hfiles, hwithin⟩ :=
    preserves_removeTreeIgnoring disk (shrinks_refl disk) pendingDirectory files' hfiles'
  obtain ⟨old, hold, hsub⟩ := hdisk files hfiles
  exact ⟨old, hold, within_trans hwithin hsub⟩

theorem preserves_prepareState {base : StateDisk M H} :
    Txn.Preserves (PendingShrinks base) (prepareState sha256 fates record) := by
  unfold prepareState
  exact (PendingShrinks.of_keeps (keeps_other keeps_removeTreeIgnoring (by decide))).bind fun _ =>
    (PendingShrinks.of_keeps (keeps_other keeps_ensureDir (by decide))).bind fun _ =>
      (PendingShrinks.of_keeps (keeps_other keeps_writeSnapshot (by decide))).bind fun _ =>
        (PendingShrinks.of_keeps (keeps_other keeps_writeIn (by decide))).bind fun _ =>
          preserves_dropPending

theorem pendingShrinks_refl (disk : StateDisk M H) : PendingShrinks disk disk :=
  fun files' h => ⟨files', h, fun _ _ hfile => hfile⟩

theorem stageState_cases (sha256 : FileContent M H → H) (fates : StageFates (FileContent M H))
    (record : Staged M) (disk : StateDisk M H) :
    (∀ other, other ≠ pendingStaging → other ≠ pendingDirectory →
        (stageState sha256 fates record disk).2[other]? = disk[other]?) ∧
      (PendingShrinks disk (stageState sha256 fates record disk).2 ∨
        ∃ files, (stageState sha256 fates record disk).2[pendingDirectory]? = some files ∧
          Whole sha256 record files) := by
  have hprepared : PendingShrinks disk (prepareState sha256 fates record disk).2 :=
    preserves_prepareState disk (pendingShrinks_refl disk)
  unfold stageState
  rcases hrun : prepareState sha256 fates record disk with ⟨stop | ⟨⟩, prepared⟩
  all_goals
    have hother : ∀ other, other ≠ pendingStaging → other ≠ pendingDirectory →
        prepared[other]? = disk[other]? := fun other hstaging hpending =>
      (prepareState_other hstaging hpending).ended hrun
    rw [hrun] at hprepared
  · rw [Txn.bind_of_error hrun]
    exact ⟨hother, Or.inl hprepared⟩
  · rw [Txn.bind_of_ok hrun]
    obtain ⟨staged, hstaged, hwhole⟩ := prepareState_ok hrun
    rcases hswap : operation fates.swap (rename pendingStaging pendingDirectory) prepared with
      ⟨stop | ⟨⟩, swapped⟩
    · rw [operation_error hswap]
      exact ⟨hother, Or.inl hprepared⟩
    · obtain ⟨files, hfiles, hmoved, -, hrest⟩ := rename_ok hswap (by decide)
      rw [hstaged, Option.some.injEq] at hfiles
      subst hfiles
      exact ⟨fun other hstaging hpending => (hrest other hstaging hpending).trans
        (hother other hstaging hpending), Or.inr ⟨staged, hmoved, hwhole⟩⟩

end Staging

/-! ## What adoption changes -/

section Adoption

variable {fates : AdoptFates (FileContent M H)} {disk disk' : StateDisk M H} {coverage : Coverage}
  {generation : String} {info : PendingMeta}

theorem generationDirectory_starts (generation : String) :
    generationsPrefix.toList.isPrefixOf (generationDirectory generation).toList = true := by
  rw [List.isPrefixOf_iff_prefix, generationDirectory, String.toList_append]
  exact List.prefix_append _ _

theorem generationDirectory_ne {other : String}
    (h : generationsPrefix.toList.isPrefixOf other.toList = false) :
    other ≠ generationDirectory generation := by
  rintro rfl
  rw [generationDirectory_starts] at h
  cases h

theorem generationDirectory_inj {first second : String}
    (h : generationDirectory first = generationDirectory second) : first = second := by
  have htext := congrArg String.toList h
  rw [generationDirectory, generationDirectory, String.toList_append, String.toList_append] at htext
  exact String.toList_inj.mp (List.append_cancel_left htext)

theorem generationName_inj {first second : String}
    (h : generationName first = generationName second) : first = second := by
  have htext := congrArg String.toList h
  rw [generationName, generationName, String.toList_append, String.toList_append] at htext
  exact String.toList_inj.mp (List.append_cancel_left htext)

theorem keeps_writeCoverage :
    Txn.Keeps (fun disk : StateDisk M H => disk.erase rootDirectory) (writeCoverage fates coverage) := by
  unfold writeCoverage
  exact keeps_ensureDir.bind fun _ => keeps_writeIn.bind fun _ => keeps_renameFile

theorem keeps_root_writeCoverage :
    Txn.Keeps (fun disk : StateDisk M H => fileAt disk rootDirectory stateFilename)
      (writeCoverage fates coverage) := by
  unfold writeCoverage
  exact keeps_fileAt_ensureDir.bind fun _ => (keeps_fileAt_writeIn (by decide)).bind fun _ =>
    keeps_fileAt_renameFile (by decide) (by decide)

theorem writeCoverage_cases (fates : AdoptFates (FileContent M H)) (coverage : Coverage)
    (disk : StateDisk M H) :
    (∃ stop, (writeCoverage fates coverage disk).1 = .error stop ∧
        sidecarFile (writeCoverage fates coverage disk).2 = sidecarFile disk) ∨
      (writeCoverage fates coverage disk).1 = .ok () ∧
        sidecarFile (writeCoverage fates coverage disk).2 = some (.coverage coverage) := by
  unfold writeCoverage
  rcases hroot : operation fates.makeRoot (ensureDir rootDirectory) disk with ⟨stop | ⟨⟩, made⟩
  · rw [Txn.bind_of_error hroot, operation_error hroot]
    exact Or.inl ⟨stop, rfl, rfl⟩
  rw [Txn.bind_of_ok hroot]
  have hmade : sidecarFile made = sidecarFile disk := keeps_fileAt_ensureDir.ok hroot
  rcases hwrite : writeIn fates.sidecar rootDirectory coverageAside (.coverage coverage) made with
    ⟨stop | ⟨⟩, written⟩
  · rw [Txn.bind_of_error hwrite]
    exact Or.inl ⟨stop, rfl, ((keeps_fileAt_writeIn (by decide)).ended hwrite).trans hmade⟩
  rw [Txn.bind_of_ok hwrite]
  have hwritten : sidecarFile written = sidecarFile made :=
    (keeps_fileAt_writeIn (by decide)).ok hwrite
  rcases hflip : operation fates.flip
      (renameFile rootDirectory coverageAside coverageFilename) written with ⟨stop | ⟨⟩, flipped⟩
  · rw [operation_error hflip]
    exact Or.inl ⟨stop, rfl, hwritten.trans hmade⟩
  · obtain ⟨files, hfiles⟩ := ensureDir_ok hroot
    obtain ⟨content, hcontent, hflipped⟩ := renameFile_ok (writeIn_ok hfiles hwrite) hflip
    rw [Std.ExtTreeMap.getElem?_insert_self, Option.some.injEq] at hcontent
    subst hcontent
    refine Or.inr ⟨rfl, ?_⟩
    rw [sidecarFile, fileAt, hflipped, Option.bind_some, Std.ExtTreeMap.getElem?_insert_self]

theorem superseded_ne {disk : StateDisk M H} {keep name : String} (h : name ∈ superseded disk keep) :
    name ≠ generationDirectory keep ∧ name ≠ pendingDirectory ∧ name ≠ rootDirectory := by
  rw [superseded, List.mem_filter, decide_eq_true_eq] at h
  obtain ⟨-, hprefix, hne⟩ := h
  refine ⟨hne, ?_, ?_⟩
  · rintro rfl
    exact absurd hprefix (by decide)
  · rintro rfl
    exact absurd hprefix (by decide)

theorem keeps_collectGenerations {keep other : String}
    (h : other = generationDirectory keep ∨ other = pendingDirectory ∨ other = rootDirectory) :
    Txn.Keeps (fun disk : StateDisk M H => disk[other]?) (collectGenerations fates keep) := by
  unfold collectGenerations
  refine Txn.keeps_get.bind fun disk => Txn.keeps_forM_mem fun name hname => ?_
  obtain ⟨hkeep, hpending, hroot⟩ := superseded_ne hname
  apply keeps_other keeps_removeTreeIgnoring
  rcases h with rfl | rfl | rfl
  · exact hkeep.symm
  · exact hpending.symm
  · exact hroot.symm

theorem fileAt_congr {disk disk' : StateDisk M H} {name : String} (h : disk'[name]? = disk[name]?)
    (file : String) : fileAt disk' name file = fileAt disk name file := by
  rw [fileAt, h, fileAt]

theorem keeps_clearTarget {target : String} :
    Txn.Keeps (fun disk : StateDisk M H => disk.erase target) (clearTarget fates target) := by
  intro disk
  unfold clearTarget
  split
  · exact keeps_removeTreeIgnoring disk
  · rfl

theorem moveGeneration_cases (fates : AdoptFates (FileContent M H)) (generation : String)
    {disk : StateDisk M H} {files : StateFiles M H} (hpending : disk[pendingDirectory]? = some files) :
    (∀ other, other ≠ pendingDirectory → other ≠ generationDirectory generation →
        (moveGeneration fates generation disk).2[other]? = disk[other]?) ∧
      ((∃ stop, (moveGeneration fates generation disk).1 = .error stop ∧
          (moveGeneration fates generation disk).2[pendingDirectory]? = some files) ∨
        (moveGeneration fates generation disk).1 = .ok () ∧
          (moveGeneration fates generation disk).2[pendingDirectory]? = none ∧
          (moveGeneration fates generation disk).2[generationDirectory generation]? = some files) := by
  have hne : pendingDirectory ≠ generationDirectory generation := generationDirectory_ne (by decide)
  unfold moveGeneration
  rcases hmake : operation fates.makeGenerations some disk with ⟨stop | ⟨⟩, made⟩
  · rw [Txn.bind_of_error hmake, operation_error hmake]
    exact ⟨fun _ _ _ => rfl, Or.inl ⟨stop, rfl, hpending⟩⟩
  rw [Txn.bind_of_ok hmake]
  obtain rfl : disk = made := Option.some.inj (operation_ok.mp hmake).2
  rcases hclear : clearTarget fates (generationDirectory generation) disk with ⟨stop | ⟨⟩, cleared⟩
  all_goals
    have hother : ∀ other, other ≠ generationDirectory generation →
        cleared[other]? = disk[other]? := fun other hother =>
      (keeps_other keeps_clearTarget hother).ended hclear
  · rw [Txn.bind_of_error hclear]
    exact ⟨fun other _ hgen => hother other hgen, Or.inl ⟨stop, rfl, (hother _ hne).trans hpending⟩⟩
  rw [Txn.bind_of_ok hclear]
  rcases hswap : operation fates.swap (rename pendingDirectory (generationDirectory generation))
      cleared with ⟨stop | ⟨⟩, swapped⟩
  · rw [operation_error hswap]
    exact ⟨fun other _ hgen => hother other hgen, Or.inl ⟨stop, rfl, (hother _ hne).trans hpending⟩⟩
  · obtain ⟨moved, hfiles, hmoved, hgone, hrest⟩ := rename_ok hswap hne
    rw [hother _ hne, hpending, Option.some.injEq] at hfiles
    subst hfiles
    exact ⟨fun other hpend hgen => (hrest other hpend hgen).trans (hother other hgen),
      Or.inr ⟨rfl, hgone, hmoved⟩⟩

theorem promotePending_cases (fates : AdoptFates (FileContent M H)) (info : PendingMeta)
    {disk : StateDisk M H} {files : StateFiles M H} (hpending : disk[pendingDirectory]? = some files) :
    fileAt (promotePending fates info disk).2 rootDirectory stateFilename =
        fileAt disk rootDirectory stateFilename ∧
    (((∃ stop, (promotePending fates info disk).1 = .error stop) ∧
      sidecarFile (promotePending fates info disk).2 = sidecarFile disk ∧
      (∀ other, other ≠ pendingDirectory →
        other ≠ generationDirectory (generationName info.jobId) → other ≠ rootDirectory →
          (promotePending fates info disk).2[other]? = disk[other]?) ∧
      ((promotePending fates info disk).2[pendingDirectory]? = some files ∨
        (promotePending fates info disk).2[pendingDirectory]? = none)) ∨
    ((∀ coverage, (promotePending fates info disk).1 = .ok coverage →
        coverage = ⟨info.coveredSequence, some (generationName info.jobId)⟩) ∧
      sidecarFile (promotePending fates info disk).2 =
        some (.coverage ⟨info.coveredSequence, some (generationName info.jobId)⟩) ∧
      (promotePending fates info disk).2[generationDirectory (generationName info.jobId)]? =
        some files ∧
      (promotePending fates info disk).2[pendingDirectory]? = none)) := by
  have hroot : ∀ generation, rootDirectory ≠ generationDirectory generation := fun generation =>
    generationDirectory_ne (by decide)
  obtain ⟨hother, hmoved⟩ := moveGeneration_cases fates (generationName info.jobId) hpending
  unfold promotePending
  rcases hmove : moveGeneration fates (generationName info.jobId) disk with ⟨stop | ⟨⟩, moved⟩
  all_goals
    rw [hmove] at hother hmoved
    have hfiles := fileAt_congr (hother _ (by decide) (hroot _))
  · rw [Txn.bind_of_error hmove]
    obtain ⟨-, -, hkept⟩ | ⟨hok, -⟩ := hmoved
    · exact ⟨hfiles _, Or.inl ⟨⟨stop, rfl⟩, hfiles _,
        fun other hpend hgen _ => hother other hpend hgen, Or.inl hkept⟩⟩
    · cases hok
  rw [Txn.bind_of_ok hmove]
  obtain ⟨stop, hstop, -⟩ | ⟨-, hgone, hgeneration⟩ := hmoved
  · cases hstop
  have hflipped := writeCoverage_cases fates
    ⟨info.coveredSequence, some (generationName info.jobId)⟩ moved
  rcases hwrite : writeCoverage fates
      ⟨info.coveredSequence, some (generationName info.jobId)⟩ moved with ⟨stop | ⟨⟩, written⟩
  all_goals
    have hwritten : ∀ other, other ≠ rootDirectory → written[other]? = moved[other]? :=
      fun other hne => (keeps_other keeps_writeCoverage hne).ended hwrite
    have hstate := (keeps_root_writeCoverage.ended hwrite).trans (hfiles _)
    rw [hwrite] at hflipped
  · rw [Txn.bind_of_error hwrite]
    obtain ⟨-, -, hsame⟩ | ⟨hok, -⟩ := hflipped
    · refine ⟨hstate, Or.inl ⟨⟨stop, rfl⟩, hsame.trans (hfiles _), fun other hpend hgen hne => ?_,
        Or.inr ?_⟩⟩
      · exact (hwritten other hne).trans (hother other hpend hgen)
      · exact (hwritten _ (by decide)).trans hgone
    · cases hok
  rw [Txn.bind_of_ok hwrite]
  obtain ⟨stop, hstop, -⟩ | ⟨-, hnew⟩ := hflipped
  · cases hstop
  rcases hcollect : collectGenerations fates (generationName info.jobId) written with
    ⟨stop | ⟨⟩, collected⟩
  all_goals
    have hkept : ∀ other, other = generationDirectory (generationName info.jobId) ∨
        other = pendingDirectory ∨ other = rootDirectory → collected[other]? = written[other]? :=
      fun other hmem => (keeps_collectGenerations hmem).ended hcollect
    have hsame := fileAt_congr (hkept _ (Or.inr (Or.inr rfl)))
    have hnamed := ((hkept _ (Or.inl rfl)).trans (hwritten _ (hroot _).symm)).trans hgeneration
    have hempty := ((hkept _ (Or.inr (Or.inl rfl))).trans (hwritten _ (by decide))).trans hgone
  · rw [Txn.bind_of_error hcollect]
    exact ⟨(hsame _).trans hstate, Or.inr ⟨fun coverage hok => (by cases hok),
      (hsame _).trans hnew, hnamed, hempty⟩⟩
  · rw [Txn.bind_of_ok hcollect]
    exact ⟨(hsame _).trans hstate, Or.inr ⟨fun coverage hok => (Except.ok.inj hok).symm,
      (hsame _).trans hnew, hnamed, hempty⟩⟩

theorem discardPending_spec (fates : AdoptFates (FileContent M H)) (disk : StateDisk M H) :
    (∀ other, other ≠ pendingDirectory → other ≠ pendingStaging →
        (discardPending fates disk).2[other]? = disk[other]?) ∧
      PendingShrinks disk (discardPending fates disk).2 := by
  unfold discardPending
  constructor
  · intro other hpending hstaging
    exact ((keeps_other keeps_removeTreeIgnoring hpending).bind fun _ =>
      keeps_other keeps_removeTreeIgnoring hstaging) disk
  · exact (preserves_dropPending.bind fun _ =>
      PendingShrinks.of_keeps (keeps_other keeps_removeTreeIgnoring (by decide))) disk
        (pendingShrinks_refl disk)

end Adoption

end Solweig.Bridge
