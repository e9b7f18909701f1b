import Solweig.Bridge.StateFiles
import Solweig.Lib.Run

/-!
# What the sidecar names

Over any jobs that stage and adopt, wherever they are cut, the coverage is of a whole snapshot of
a complete job, and it is not lost again.
-/

namespace Solweig.Bridge

open Solweig.Lib Solweig.Lib.Disk Solweig.Lib.Files Solweig.Store

variable {M H : Type}

/-! ## Jobs over the directory -/

/-- The directory, the rows of the jobs, and every record that a job came to stage. -/
structure FileHost (M H : Type) where
  disk : StateDisk M H
  jobs : Dict String JobStatus
  staged : List (Staged M)

def FileHost.initial : FileHost M H := ⟨∅, ∅, []⟩

inductive FileHostOp (M H : Type) where
  | submit (jobId : String)
  | dispatch (jobId : String)
  /-- The start of a solve. -/
  | reconcile (request : SolveRequest) (fates : AdoptFates (FileContent M H))
  /-- The end of its solve. -/
  | stage (record : Staged M) (fates : StageFates (FileContent M H))
  /-- The row of a job that is not complete takes another status. -/
  | settle (jobId : String) (status : JobStatus)

def fileHostStep [DecidableEq H] (sha256 : FileContent M H → H) (s : FileHost M H) :
    FileHostOp M H → Option (FileHost M H)
  | .submit jobId =>
    if s.jobs[jobId]? = none then some { s with jobs := s.jobs.insert jobId .queued } else none
  | .dispatch jobId =>
    if s.jobs[jobId]? = some .queued then some { s with jobs := s.jobs.insert jobId .running }
    else none
  | .reconcile request fates =>
    some { s with
      disk := (reconcileCoverage sha256 fates (fun jobId => s.jobs[jobId]?) request s.disk).2 }
  | .stage record fates =>
    if s.jobs[record.jobId]? ≠ some .complete then
      some { s with
        disk := (stageState sha256 fates record s.disk).2
        staged := record :: s.staged }
    else none
  | .settle jobId status =>
    if s.jobs[jobId]? ≠ none ∧ s.jobs[jobId]? ≠ some .complete then
      some { s with jobs := s.jobs.insert jobId status }
    else none

/-! ## What the sidecar names -/

section Sound

variable {sha256 : FileContent M H → H} {s t : FileHost M H} {op : FileHostOp M H}
  {record : Staged M} {coverage : Coverage} {disk : StateDisk M H} {files : StateFiles M H}

/-- The coverage is that of a record of a complete job, whose files are all in its generation. -/
structure Adopted (sha256 : FileContent M H → H) (s : FileHost M H) (coverage : Coverage)
    (record : Staged M) : Prop where
  staged : record ∈ s.staged
  complete : s.jobs[record.jobId]? = some .complete
  coverage : coverage = ⟨record.coveredSequence, some (generationName record.jobId)⟩
  whole : ∃ files, s.disk[generationDirectory (generationName record.jobId)]? = some files ∧
    Whole sha256 record files

/-- Some of the files that the record came with. -/
def Remains (sha256 : FileContent M H → H) (record : Staged M) (files : StateFiles M H) : Prop :=
  ∃ full, Whole sha256 record full ∧ Within files full

structure FilesSound (sha256 : FileContent M H → H) (s : FileHost M H) : Prop where
  sidecar : ∀ content, sidecarFile s.disk = some content →
    ∃ coverage record, content = .coverage coverage ∧ Adopted sha256 s coverage record
  /-- What is pending is not the generation that the sidecar names. -/
  pending : ∀ files, s.disk[pendingDirectory]? = some files → ∃ record ∈ s.staged,
    Remains sha256 record files ∧ ∀ coverage, sidecarFile s.disk = some (.coverage coverage) →
      coverage.generation ≠ some (generationName record.jobId)
  /-- No snapshot is in the state directory itself. -/
  root : fileAt s.disk rootDirectory stateFilename = none

theorem initial_sound : FilesSound sha256 (FileHost.initial : FileHost M H) where
  root := by simp [FileHost.initial, fileAt]
  sidecar content h := by simp [FileHost.initial, sidecarFile, fileAt] at h
  pending files h := by simp [FileHost.initial] at h

theorem Adopted.mono (h : Adopted sha256 s coverage record) (hstaged : s.staged ⊆ t.staged)
    (hjobs : s.jobs[record.jobId]? = some .complete → t.jobs[record.jobId]? = some .complete)
    (hdisk : t.disk[generationDirectory (generationName record.jobId)]? =
      s.disk[generationDirectory (generationName record.jobId)]?) :
    Adopted sha256 t coverage record := by
  obtain ⟨files, hfiles, hwhole⟩ := h.whole
  exact ⟨hstaged h.staged, hjobs h.complete, h.coverage, files, hdisk.trans hfiles, hwhole⟩

theorem FilesSound.rows (h : FilesSound sha256 s) {jobs : Dict String JobStatus}
    (hjobs : ∀ jobId : String, s.jobs[jobId]? = some .complete → jobs[jobId]? = some .complete) :
    FilesSound sha256 { s with jobs } where
  sidecar content hcontent := by
    obtain ⟨coverage, record, rfl, hadopted⟩ := h.sidecar content hcontent
    exact ⟨coverage, record, rfl,
      hadopted.mono (fun _ hmem => hmem) (hjobs record.jobId) rfl⟩
  pending := h.pending
  root := h.root

theorem FilesSound.shrink (h : FilesSound sha256 s) {staged : List (Staged M)}
    (hstaged : s.staged ⊆ staged) (hsidecar : sidecarFile disk = sidecarFile s.disk)
    (hgeneration : ∀ coverage record, sidecarFile s.disk = some (.coverage coverage) →
      Adopted sha256 s coverage record →
        disk[generationDirectory (generationName record.jobId)]? =
          s.disk[generationDirectory (generationName record.jobId)]?)
    (hpending : PendingShrinks s.disk disk)
    (hroot : fileAt disk rootDirectory stateFilename = fileAt s.disk rootDirectory stateFilename) :
    FilesSound sha256 { s with disk, staged } where
  root := hroot.trans h.root
  sidecar content hcontent := by
    rw [hsidecar] at hcontent
    obtain ⟨coverage, record, rfl, hadopted⟩ := h.sidecar content hcontent
    exact ⟨coverage, record, rfl,
      hadopted.mono hstaged (fun hjob => hjob) (hgeneration coverage record hcontent hadopted)⟩
  pending files hfiles := by
    obtain ⟨old, hold, hwithin⟩ := hpending files hfiles
    obtain ⟨record, hrecord, ⟨full, hwhole, hsub⟩, hother⟩ := h.pending old hold
    refine ⟨record, hstaged hrecord, ⟨full, hwhole, within_trans hwithin hsub⟩, fun coverage hc => ?_⟩
    exact hother coverage (hsidecar ▸ hc)

theorem FilesSound.stage (h : FilesSound sha256 s) {fates : StageFates (FileContent M H)}
    (hopen : s.jobs[record.jobId]? ≠ some .complete) :
    FilesSound sha256
      { s with
        disk := (stageState sha256 fates record s.disk).2
        staged := record :: s.staged } := by
  obtain ⟨hother, hpending⟩ := stageState_cases sha256 fates record s.disk
  have hfiles := fileAt_congr (hother rootDirectory (by decide) (by decide))
  have hsidecar : sidecarFile (stageState sha256 fates record s.disk).2 = sidecarFile s.disk := hfiles _
  have hgeneration : ∀ generation, (stageState sha256 fates record s.disk).2[
      generationDirectory generation]? = s.disk[generationDirectory generation]? := fun generation =>
    hother _ (generationDirectory_ne (by decide)).symm (generationDirectory_ne (by decide)).symm
  rcases hpending with hshrinks | ⟨files, hpendingFiles, hwhole⟩
  · exact h.shrink (List.subset_cons_self _ _) hsidecar (fun _ _ _ _ => hgeneration _) hshrinks
      (hfiles _)
  · refine ⟨fun content hcontent => ?_, fun files' hfiles' => ?_, (hfiles _).trans h.root⟩
    · rw [hsidecar] at hcontent
      obtain ⟨coverage, other, rfl, hadopted⟩ := h.sidecar content hcontent
      exact ⟨coverage, other, rfl, hadopted.mono (List.subset_cons_self _ _) (fun hjob => hjob)
        (hgeneration _)⟩
    · rw [hpendingFiles, Option.some.injEq] at hfiles'
      subst hfiles'
      refine ⟨record, List.mem_cons_self, ⟨files, hwhole, fun _ _ hfile => hfile⟩, ?_⟩
      intro coverage hcontent hsame
      rw [hsidecar] at hcontent
      obtain ⟨_, other, heq, hadopted⟩ := h.sidecar _ hcontent
      obtain rfl := FileContent.coverage.inj heq
      rw [hadopted.coverage, Option.some.injEq] at hsame
      -- the job that stages is not complete, the one of the sidecar is
      have hcomplete := hadopted.complete
      rw [generationName_inj hsame] at hcomplete
      exact hopen hcomplete

theorem FilesSound.readCoverage (h : FilesSound sha256 s) :
    sidecarFile s.disk = none ∧ Bridge.readCoverage s.disk = ⟨0, none⟩ ∨
      ∃ record, Adopted sha256 s (Bridge.readCoverage s.disk) record := by
  unfold Bridge.readCoverage
  cases hsidecar : sidecarFile s.disk with
  | none => exact Or.inl ⟨rfl, rfl⟩
  | some content =>
    obtain ⟨coverage, record, rfl, hadopted⟩ := h.sidecar content hsidecar
    obtain ⟨files, hfiles, -⟩ := hadopted.whole
    refine Or.inr ⟨record, ?_⟩
    have hcoverage := hadopted.coverage
    subst hcoverage
    simpa [hfiles] using hadopted

variable [DecidableEq H]

theorem adopts_some {status : String → Option JobStatus} {request : SolveRequest} {info : PendingMeta}
    (h : adopts sha256 status request disk = some info) :
    readPendingMeta disk = some info ∧ ∃ files, disk[pendingDirectory]? = some files ∧
      adoptable status request info (snapshotFileOf sha256 files) = true := by
  unfold adopts at h
  simp only [Option.bind_eq_bind, Option.bind_eq_some_iff] at h
  obtain ⟨found, hfound, files, hfiles, h⟩ := h
  split at h
  · next hadoptable =>
    obtain rfl := Option.some.inj h
    exact ⟨hfound, files, hfiles, hadoptable⟩
  · cases h

theorem FilesSound.adoptable (h : FilesSound sha256 s) {request : SolveRequest} {info : PendingMeta}
    (hadopts : adopts sha256 (fun jobId => s.jobs[jobId]?) request s.disk = some info) :
    ∃ record ∈ s.staged, ∃ files, s.disk[pendingDirectory]? = some files ∧
      Whole sha256 record files ∧ info = ⟨record.jobId, record.coveredSequence⟩ ∧
      s.jobs[record.jobId]? = some .complete ∧
      ∀ coverage, sidecarFile s.disk = some (.coverage coverage) →
        coverage.generation ≠ some (generationName record.jobId) := by
  obtain ⟨hmeta, files, hfiles, hadoptable⟩ := adopts_some hadopts
  obtain ⟨record, hrecord, ⟨full, hfull, hwithin⟩, hother⟩ := h.pending files hfiles
  have hinfo : files[pendingMetaFilename]? = some (.info info) := by
    unfold readPendingMeta at hmeta
    rw [fileAt, hfiles, Option.bind_some] at hmeta
    split at hmeta
    · next hfile =>
      obtain rfl := Option.some.inj hmeta
      exact hfile
    · cases hmeta
  have hread : ∃ read, readSnapshot sha256 files = .ok read := by
    unfold snapshotFileOf at hadoptable
    split at hadoptable
    · next hok => exact ⟨_, hok⟩
    · cases hadoptable
    · cases hadoptable
  obtain ⟨read, hread⟩ := hread
  have hwhole := hfull.of_within hwithin ⟨_, hinfo⟩ hread
  have hsame : info = ⟨record.jobId, record.coveredSequence⟩ := by
    have hfile := hwhole.info
    rw [hinfo, Option.some.injEq] at hfile
    exact FileContent.info.inj hfile
  refine ⟨record, hrecord, files, hfiles, hwhole, hsame, ?_, hother⟩
  unfold Bridge.adoptable at hadoptable
  split at hadoptable
  · rw [decide_eq_true_eq] at hadoptable
    rw [hsame] at hadoptable
    exact hadoptable.2.1
  · cases hadoptable

theorem reconcile_discards {fates : AdoptFates (FileContent M H)} {status : String → Option JobStatus}
    {request : SolveRequest} (hnone : adopts sha256 status request disk = none) :
    (reconcileCoverage sha256 fates status request disk).2 = (discardPending fates disk).2 ∧
      ∀ coverage, (reconcileCoverage sha256 fates status request disk).1 = .ok coverage →
        coverage = readCoverage (discardPending fates disk).2 := by
  have hrun : reconcileCoverage sha256 fates status request disk =
      (discardPending fates >>= fun _ => Txn.get >>= fun disk => pure (readCoverage disk) :
        Crash (StateDisk M H) Coverage) disk := by
    have hget : (Txn.get : Crash (StateDisk M H) (StateDisk M H)) disk = (.ok disk, disk) := rfl
    unfold reconcileCoverage
    rw [Txn.bind_of_ok hget, hnone]
  rw [hrun]
  rcases hdiscard : discardPending fates disk with ⟨stop | ⟨⟩, discarded⟩
  · rw [Txn.bind_of_error hdiscard]
    exact ⟨rfl, fun coverage hok => by cases hok⟩
  · rw [Txn.bind_of_ok hdiscard]
    exact ⟨rfl, fun coverage hok => (Except.ok.inj hok).symm⟩

theorem reconcile_promotes {fates : AdoptFates (FileContent M H)} {status : String → Option JobStatus}
    {request : SolveRequest} {info : PendingMeta}
    (hsome : adopts sha256 status request disk = some info) :
    reconcileCoverage sha256 fates status request disk = promotePending fates info disk := by
  have hget : (Txn.get : Crash (StateDisk M H) (StateDisk M H)) disk = (.ok disk, disk) := rfl
  unfold reconcileCoverage
  rw [Txn.bind_of_ok hget, hsome]

theorem FilesSound.reconcile (h : FilesSound sha256 s) (request : SolveRequest)
    (fates : AdoptFates (FileContent M H)) :
    FilesSound sha256
      { s with
        disk := (reconcileCoverage sha256 fates (fun jobId => s.jobs[jobId]?) request s.disk).2 } := by
  cases hadopts : adopts sha256 (fun jobId => s.jobs[jobId]?) request s.disk with
  | none =>
    obtain ⟨hother, hshrinks⟩ := discardPending_spec fates s.disk
    have hfiles := fileAt_congr (hother rootDirectory (by decide) (by decide))
    rw [(reconcile_discards hadopts).1]
    exact h.shrink (fun _ hmem => hmem) (hfiles _)
      (fun _ _ _ _ => hother _ (generationDirectory_ne (by decide)).symm
        (generationDirectory_ne (by decide)).symm) hshrinks (hfiles _)
  | some info =>
    obtain ⟨record, hrecord, files, hfiles, hwhole, rfl, hcomplete, hnot⟩ := h.adoptable hadopts
    rw [reconcile_promotes hadopts]
    obtain ⟨hroot, hcases⟩ := promotePending_cases fates ⟨record.jobId, record.coveredSequence⟩ hfiles
    rcases hcases with ⟨-, hsidecar, hother, hpending⟩ | ⟨-, hsidecar, hgeneration, hgone⟩
    · refine h.shrink (fun _ hmem => hmem) hsidecar (fun coverage other hcontent hadopted => ?_)
        (fun files' hfiles' => ?_) hroot
      · apply hother _ (generationDirectory_ne (by decide)).symm
        · intro hsame
          apply hnot coverage hcontent
          rw [hadopted.coverage, generationDirectory_inj hsame]
        · exact (generationDirectory_ne (by decide)).symm
      · rcases hpending with hkept | hgone
        · rw [hkept, Option.some.injEq] at hfiles'
          subst hfiles'
          exact ⟨files, hfiles, fun _ _ hfile => hfile⟩
        · rw [hgone] at hfiles'
          cases hfiles'
    · refine ⟨fun content hcontent => ?_, fun files' hfiles' => ?_, hroot.trans h.root⟩
      · rw [hsidecar, Option.some.injEq] at hcontent
        subst hcontent
        exact ⟨_, record, rfl, hrecord, hcomplete, rfl, files, hgeneration, hwhole⟩
      · rw [hgone] at hfiles'
        cases hfiles'

theorem fileHostStep_sound (h : FilesSound sha256 s) (hstep : fileHostStep sha256 s op = some t) :
    FilesSound sha256 t := by
  have hinsert : ∀ {jobId : String} {status : JobStatus},
      s.jobs[jobId]? ≠ some .complete → ∀ other : String, s.jobs[other]? = some .complete →
        (s.jobs.insert jobId status)[other]? = some .complete := by
    intro jobId status hnot other hother
    have hne : jobId ≠ other := fun hsame => hnot (hsame ▸ hother)
    rw [Dict.getElem?_insert_of_ne _ _ hne, hother]
  cases op with
  | submit jobId =>
    obtain ⟨hnone, hstep⟩ := Option.ite_none_right_eq_some.mp hstep
    obtain rfl := Option.some.inj hstep
    exact h.rows (hinsert (by rw [hnone]; simp))
  | dispatch jobId =>
    obtain ⟨hqueued, hstep⟩ := Option.ite_none_right_eq_some.mp hstep
    obtain rfl := Option.some.inj hstep
    exact h.rows (hinsert (by rw [hqueued]; simp))
  | reconcile request fates =>
    obtain rfl := Option.some.inj hstep
    exact h.reconcile request fates
  | stage record fates =>
    obtain ⟨hopen, hstep⟩ := Option.ite_none_right_eq_some.mp hstep
    obtain rfl := Option.some.inj hstep
    exact h.stage hopen
  | settle jobId status =>
    obtain ⟨hopen, hstep⟩ := Option.ite_none_right_eq_some.mp hstep
    obtain rfl := Option.some.inj hstep
    exact h.rows (hinsert hopen.2)

theorem fileHostRun_sound {ops : List (FileHostOp M H)} (hs : FilesSound sha256 s)
    (hrun : run (fileHostStep sha256) s ops = some t) : FilesSound sha256 t :=
  run_invariant (fun _ _ _ hs _ hstep => fileHostStep_sound hs hstep) hs
    (eachStep_of_forall (C := fun _ _ => True) (fun _ _ => trivial) _ _) hrun

theorem fileHostStep_sidecar (h : FilesSound sha256 s) (hstep : fileHostStep sha256 s op = some t)
    (hsome : (sidecarFile s.disk).isSome) : (sidecarFile t.disk).isSome := by
  cases op with
  | submit jobId =>
    obtain ⟨-, hstep⟩ := Option.ite_none_right_eq_some.mp hstep
    exact Option.some.inj hstep ▸ hsome
  | dispatch jobId =>
    obtain ⟨-, hstep⟩ := Option.ite_none_right_eq_some.mp hstep
    exact Option.some.inj hstep ▸ hsome
  | settle jobId status =>
    obtain ⟨-, hstep⟩ := Option.ite_none_right_eq_some.mp hstep
    exact Option.some.inj hstep ▸ hsome
  | stage record fates =>
    obtain ⟨-, hstep⟩ := Option.ite_none_right_eq_some.mp hstep
    obtain rfl := Option.some.inj hstep
    have hother := (stageState_cases sha256 fates record s.disk).1
    have hsame : sidecarFile (stageState sha256 fates record s.disk).2 = sidecarFile s.disk :=
      fileAt_congr (hother rootDirectory (by decide) (by decide)) _
    rw [hsame]
    exact hsome
  | reconcile request fates =>
    obtain rfl := Option.some.inj hstep
    dsimp only
    cases hadopts : adopts sha256 (fun jobId => s.jobs[jobId]?) request s.disk with
    | none =>
      have hother := (discardPending_spec fates s.disk).1
      have hsame : sidecarFile (discardPending fates s.disk).2 = sidecarFile s.disk :=
        fileAt_congr (hother rootDirectory (by decide) (by decide)) _
      rw [(reconcile_discards hadopts).1, hsame]
      exact hsome
    | some info =>
      obtain ⟨_, _, files, hfiles, -⟩ := h.adoptable hadopts
      rw [reconcile_promotes hadopts]
      rcases (promotePending_cases fates info hfiles).2 with ⟨-, hsame, -⟩ | ⟨-, hnew, -⟩
      · rw [hsame]
        exact hsome
      · rw [hnew]
        rfl

end Sound

def runningStage : StageFates (FileContent Nat Nat) where
  clear _ := .runs
  makeStaging := .runs
  memo := .runs
  replaceMemo := .runs
  document := .runs
  replaceDocument := .runs
  info := .runs
  drop _ := .runs
  swap := .runs

def runningAdopt : AdoptFates (FileContent Nat Nat) where
  makeGenerations := .runs
  clear _ := .runs
  swap := .runs
  makeRoot := .runs
  sidecar := .runs
  flip := .runs
  collect _ _ := .runs
  dropPending _ := .runs
  dropStaging _ := .runs

def memoDigest : FileContent Nat Nat → Nat
  | .memo bytes => bytes + 1
  | _ => 0

def stagedBy (jobId : String) (covered : Nat) : Staged Nat :=
  ⟨jobId, covered, ⟨.number fullRecomputeFraction, true, [covered]⟩, some covered⟩

def plainRequest (jobId : String) (editWatermark : Nat) : SolveRequest := ⟨jobId, editWatermark, [], none⟩

/-- A job stages its state and is complete, and the next one runs. -/
def stagedOps : List (FileHostOp Nat Nat) :=
  [.submit "a", .dispatch "a", .stage (stagedBy "a" 1) runningStage, .settle "a" .complete,
    .submit "b", .dispatch "b"]

def adoptedOps : List (FileHostOp Nat Nat) :=
  stagedOps ++ [.reconcile (plainRequest "b" 2) runningAdopt]

/-- In every run: the coverage that is read is none, or names a generation that reads back as the
whole of what a job staged that is complete. -/
theorem coverage_names_whole_snapshot [DecidableEq H] (sha256 : FileContent M H → H)
    {ops : List (FileHostOp M H)} {s : FileHost M H}
    (hrun : run (fileHostStep sha256) .initial ops = some s) :
    readCoverage s.disk = ⟨0, none⟩ ∨
      ∃ record ∈ s.staged, s.jobs[record.jobId]? = some .complete ∧
        readCoverage s.disk = ⟨record.coveredSequence, some (generationName record.jobId)⟩ ∧
        ∃ files, snapshotDirectory s.disk (readCoverage s.disk) = some files ∧
          readSnapshot sha256 files =
            .ok (record.snapshot, record.landcoverResolved.map FileContent.memo) := by
  rcases (fileHostRun_sound initial_sound hrun).readCoverage with ⟨-, hnone⟩ | ⟨record, hadopted⟩
  · exact Or.inl hnone
  · obtain ⟨files, hfiles, hwhole⟩ := hadopted.whole
    refine Or.inr ⟨record, hadopted.staged, hadopted.complete, hadopted.coverage, files, ?_,
      hwhole.read⟩
    rw [hadopted.coverage]
    exact hfiles

theorem coverage_names_whole_snapshot_adopted : ∃ s,
    run (fileHostStep memoDigest) .initial adoptedOps = some s ∧ ∃ record ∈ s.staged, ∃ files,
      snapshotDirectory s.disk (readCoverage s.disk) = some files ∧
        readSnapshot memoDigest files =
          .ok (record.snapshot, record.landcoverResolved.map FileContent.memo) := by
  have hnamed : ((run (fileHostStep memoDigest) .initial adoptedOps).any fun s =>
      (readCoverage s.disk).generation.isSome) = true := by
    decide +kernel
  rw [Option.any_eq_true] at hnamed
  obtain ⟨s, hrun, hnamed⟩ := hnamed
  rcases coverage_names_whole_snapshot memoDigest hrun with hnone | ⟨record, hrecord, -, -, hread⟩
  · rw [hnone] at hnamed
    cases hnamed
  · exact ⟨s, hrun, record, hrecord, hread⟩

/-- In every run: once a generation is named, one is named ever after. -/
theorem coverage_never_lost [DecidableEq H] (sha256 : FileContent M H → H)
    {before after : List (FileHostOp M H)} {s t : FileHost M H}
    (hbefore : run (fileHostStep sha256) .initial before = some s)
    (hafter : run (fileHostStep sha256) s after = some t)
    (hnamed : (readCoverage s.disk).generation.isSome) :
    (readCoverage t.disk).generation.isSome := by
  have hs := fileHostRun_sound initial_sound hbefore
  have hsidecar : (sidecarFile s.disk).isSome := by
    rcases hs.readCoverage with ⟨-, hnone⟩ | ⟨record, hadopted⟩
    · rw [hnone] at hnamed
      cases hnamed
    · cases hcontent : sidecarFile s.disk with
      | none =>
        unfold readCoverage at hnamed
        rw [hcontent] at hnamed
        cases hnamed
      | some content => rfl
  obtain ⟨ht, hkept⟩ : FilesSound sha256 t ∧ (sidecarFile t.disk).isSome :=
    run_invariant (I := fun s => FilesSound sha256 s ∧ (sidecarFile s.disk).isSome)
      (fun _ _ _ hs _ hstep => ⟨fileHostStep_sound hs.1 hstep, fileHostStep_sidecar hs.1 hstep hs.2⟩)
      ⟨hs, hsidecar⟩ (eachStep_of_forall (C := fun _ _ => True) (fun _ _ => trivial) _ _) hafter
  rcases ht.readCoverage with ⟨hnone, -⟩ | ⟨record, hadopted⟩
  · rw [hnone] at hkept
    cases hkept
  · rw [hadopted.coverage]
    rfl

/-- The next adoption is killed before it flips the sidecar. -/
theorem coverage_never_lost_killed : ∃ s t,
    run (fileHostStep memoDigest) .initial adoptedOps = some s ∧
      run (fileHostStep memoDigest) s
        [.stage (stagedBy "b" 2) runningStage, .settle "b" .complete, .submit "c", .dispatch "c",
          .reconcile (plainRequest "c" 3) { runningAdopt with flip := .killed }] = some t ∧
      (readCoverage t.disk).generation.isSome := by
  have hnamed : ((run (fileHostStep memoDigest) .initial adoptedOps).any fun s =>
      (readCoverage s.disk).generation.isSome ∧ (run (fileHostStep memoDigest) s
        [.stage (stagedBy "b" 2) runningStage, .settle "b" .complete, .submit "c", .dispatch "c",
          .reconcile (plainRequest "c" 3) { runningAdopt with flip := .killed }]).isSome) = true := by
    decide +kernel
  rw [Option.any_eq_true] at hnamed
  obtain ⟨s, hbefore, hnamed⟩ := hnamed
  rw [decide_eq_true_eq] at hnamed
  obtain ⟨t, hafter⟩ := Option.isSome_iff_exists.mp hnamed.2
  exact ⟨s, t, hbefore, hafter, coverage_never_lost memoDigest hbefore hafter hnamed.1⟩

/-! ## Against the directory as a whole -/

section View

variable [DecidableEq H] {sha256 : FileContent M H → H} {disk : StateDisk M H}

/-- The directory without the generations that the sidecar does not name. -/
def viewDir (sha256 : FileContent M H → H) (disk : StateDisk M H) : StateDir where
  sidecar :=
    match sidecarFile disk with
    | some (.coverage coverage) => some coverage
    | _ => none
  root := (disk[rootDirectory]?).elim .absent (snapshotFileOf sha256)
  generations :=
    match sidecarFile disk with
    | some (.coverage ⟨_, some generation⟩) =>
      (disk[generationDirectory generation]?).elim ∅ fun files =>
        (∅ : Dict String SnapshotFile).insert generation (snapshotFileOf sha256 files)
    | _ => ∅
  pending := disk[pendingDirectory]?.map fun files =>
    ⟨readPendingMeta disk, snapshotFileOf sha256 files⟩

/-- The coverage and the snapshot that a job finds. -/
def serves (sha256 : FileContent M H → H) (disk : StateDisk M H) : Coverage × SnapshotFile :=
  (readCoverage disk,
    (snapshotDirectory disk (readCoverage disk)).elim .absent (snapshotFileOf sha256))

def StateDir.serves (dir : StateDir) : Coverage × SnapshotFile :=
  (dir.readCoverage, dir.snapshotFile dir.readCoverage)

theorem viewDir_serves (sha256 : FileContent M H → H) (disk : StateDisk M H) :
    (viewDir sha256 disk).serves = serves sha256 disk := by
  rcases hsidecar : sidecarFile disk with _ | content
  · simp only [StateDir.serves, serves, StateDir.readCoverage, StateDir.snapshotFile, readCoverage,
      snapshotDirectory, viewDir, hsidecar]
  · cases content with
    | coverage coverage =>
      obtain ⟨covered, _ | generation⟩ := coverage
      · simp only [StateDir.serves, serves, StateDir.readCoverage, StateDir.snapshotFile, readCoverage,
          snapshotDirectory, viewDir, hsidecar]
      · rcases hfiles : disk[generationDirectory generation]? with _ | files
        · simp only [StateDir.serves, serves, StateDir.readCoverage, StateDir.snapshotFile,
            readCoverage, snapshotDirectory, viewDir, hsidecar, hfiles, Option.elim_none,
            Option.isSome_none, Std.ExtTreeMap.not_mem_empty, if_false, Bool.false_eq_true]
        · simp only [StateDir.serves, serves, StateDir.readCoverage, StateDir.snapshotFile,
            readCoverage, snapshotDirectory, viewDir, hsidecar, hfiles, Option.elim_some,
            Option.isSome_some, Std.ExtTreeMap.mem_insert_self, if_true,
            Std.ExtTreeMap.getElem?_insert_self, Option.getD_some]
    | _ =>
      simp only [StateDir.serves, serves, StateDir.readCoverage, StateDir.snapshotFile, readCoverage,
        snapshotDirectory, viewDir, hsidecar]

theorem promote_serves (dir : StateDir) (info : PendingMeta) (file : SnapshotFile) :
    (dir.promotePending info file).1.serves =
      (⟨info.coveredSequence, some (generationName info.jobId)⟩, file) := by
  simp [StateDir.promotePending, StateDir.serves, StateDir.readCoverage, StateDir.snapshotFile,
    generationName]

theorem serves_of_named {coverage : Coverage} {generation : String} {files : StateFiles M H}
    (hsidecar : sidecarFile disk = some (.coverage coverage))
    (hgeneration : coverage.generation = some generation)
    (hfiles : disk[generationDirectory generation]? = some files) :
    serves sha256 disk = (coverage, snapshotFileOf sha256 files) := by
  obtain ⟨covered, _⟩ := coverage
  dsimp only at hgeneration
  subst hgeneration
  simp only [serves, readCoverage, snapshotDirectory, hsidecar, hfiles, Option.isSome_some, if_true,
    Option.elim_some]

theorem serves_of_none (hsidecar : sidecarFile disk = none)
    (hroot : fileAt disk rootDirectory stateFilename = none) :
    serves sha256 disk = (⟨0, none⟩, .absent) := by
  have hfile : (disk[rootDirectory]?).elim .absent (snapshotFileOf sha256) = .absent := by
    rcases hfiles : disk[rootDirectory]? with _ | files
    · rfl
    · rw [fileAt, hfiles, Option.bind_some] at hroot
      simp only [Option.elim_some, snapshotFileOf, readSnapshot, hroot]
  simp only [serves, readCoverage, snapshotDirectory, hsidecar, hfile]

theorem FilesSound.serves_congr {s : FileHost M H} (h : FilesSound sha256 s)
    {disk : StateDisk M H} (hsidecar : sidecarFile disk = sidecarFile s.disk)
    (hroot : fileAt disk rootDirectory stateFilename = fileAt s.disk rootDirectory stateFilename)
    (hgeneration : ∀ coverage record, sidecarFile s.disk = some (.coverage coverage) →
      Adopted sha256 s coverage record →
        disk[generationDirectory (generationName record.jobId)]? =
          s.disk[generationDirectory (generationName record.jobId)]?) :
    serves sha256 disk = serves sha256 s.disk := by
  cases hcontent : sidecarFile s.disk with
  | none =>
    rw [serves_of_none hcontent h.root,
      serves_of_none (hsidecar.trans hcontent) (hroot.trans h.root)]
  | some content =>
    obtain ⟨coverage, record, rfl, hadopted⟩ := h.sidecar content hcontent
    obtain ⟨files, hfiles, -⟩ := hadopted.whole
    have hnamed : coverage.generation = some (generationName record.jobId) := by
      rw [hadopted.coverage]
    rw [serves_of_named hcontent hnamed hfiles, serves_of_named (hsidecar.trans hcontent) hnamed
      ((hgeneration coverage record hcontent hadopted).trans hfiles)]

theorem reconcile_view {status : String → Option JobStatus} {request : SolveRequest} :
    (adopts sha256 status request disk = none ∧
        (viewDir sha256 disk).reconcileCoverage status request =
          ((viewDir sha256 disk).discardPending, (viewDir sha256 disk).readCoverage)) ∨
      ∃ info files, adopts sha256 status request disk = some info ∧
        disk[pendingDirectory]? = some files ∧
        (viewDir sha256 disk).reconcileCoverage status request =
          (viewDir sha256 disk).promotePending info (snapshotFileOf sha256 files) := by
  rcases hpending : disk[pendingDirectory]? with _ | files
  · left
    constructor
    · unfold adopts
      rw [hpending]
      cases readPendingMeta disk <;> rfl
    · simp [StateDir.reconcileCoverage, viewDir, hpending]
  · rcases hmeta : readPendingMeta disk with _ | info
    · left
      constructor
      · unfold adopts
        rw [hmeta]
        rfl
      · simp [StateDir.reconcileCoverage, viewDir, hpending, hmeta]
    · by_cases hadoptable : adoptable status request info (snapshotFileOf sha256 files) = true
      · right
        refine ⟨info, files, ?_, rfl, ?_⟩
        · simp [adopts, hmeta, hpending, hadoptable]
        · simp [StateDir.reconcileCoverage, viewDir, hpending, hmeta, hadoptable]
      · left
        constructor
        · simp [adopts, hmeta, hpending, hadoptable]
        · simp [StateDir.reconcileCoverage, viewDir, hpending, hmeta, hadoptable]

end View

/-- In every run: a reconciliation that ends settles on the coverage of the directory as a whole and
serves what it serves, and one that stops serves that or what was served before. -/
theorem reconcile_refines [DecidableEq H] (sha256 : FileContent M H → H)
    {ops : List (FileHostOp M H)} {s : FileHost M H}
    (hrun : run (fileHostStep sha256) .initial ops = some s) (request : SolveRequest)
    (fates : AdoptFates (FileContent M H)) :
    let status := fun jobId => s.jobs[jobId]?
    let whole := (viewDir sha256 s.disk).reconcileCoverage status request
    let out := reconcileCoverage sha256 fates status request s.disk
    (∀ coverage, out.1 = .ok coverage →
        coverage = whole.2 ∧ serves sha256 out.2 = whole.1.serves) ∧
      (serves sha256 out.2 = whole.1.serves ∨
        serves sha256 out.2 = (viewDir sha256 s.disk).serves) := by
  have h := fileHostRun_sound initial_sound hrun
  dsimp only
  rw [viewDir_serves]
  rcases @reconcile_view _ _ _ sha256 s.disk (fun jobId => s.jobs[jobId]?) request with
    ⟨hnone, hview⟩ | ⟨info, files, hsome, hfiles, hview⟩
  · obtain ⟨hother, -⟩ := discardPending_spec fates s.disk
    have hfiles := fileAt_congr (hother rootDirectory (by decide) (by decide))
    obtain ⟨hdisk, hcoverage⟩ := @reconcile_discards _ _ _ _ _ fates _ _ hnone
    have hsame : serves sha256 (discardPending fates s.disk).2 = serves sha256 s.disk :=
      h.serves_congr (hfiles _) (hfiles _) fun _ _ _ _ =>
        hother _ (generationDirectory_ne (by decide)).symm (generationDirectory_ne (by decide)).symm
    have hwhole : (viewDir sha256 s.disk).discardPending.serves = serves sha256 s.disk :=
      viewDir_serves sha256 s.disk
    rw [hview, hdisk, hwhole]
    refine ⟨fun coverage hok => ⟨?_, hsame⟩, Or.inl hsame⟩
    rw [hcoverage coverage hok]
    exact (congrArg Prod.fst hsame).trans (congrArg Prod.fst (viewDir_serves sha256 s.disk)).symm
  · obtain ⟨record, -, pending, hpending, -, rfl, -, hnot⟩ := h.adoptable hsome
    rw [hpending, Option.some.injEq] at hfiles
    subst hfiles
    rw [hview, reconcile_promotes hsome, promote_serves]
    obtain ⟨hroot, hcases⟩ :=
      promotePending_cases fates ⟨record.jobId, record.coveredSequence⟩ hpending
    rcases hcases with ⟨⟨stop, hstop⟩, hsidecar, hother, -⟩ | ⟨hok, hsidecar, hgeneration, -⟩
    · refine ⟨fun coverage hok => ?_, Or.inr (h.serves_congr hsidecar hroot ?_)⟩
      · rw [hstop] at hok
        cases hok
      · intro coverage other hcontent hadopted
        apply hother _ (generationDirectory_ne (by decide)).symm
        · intro hsame
          apply hnot coverage hcontent
          rw [hadopted.coverage, generationDirectory_inj hsame]
        · exact (generationDirectory_ne (by decide)).symm
    · have hserves := @serves_of_named _ _ _ sha256 _ _ _ _ hsidecar rfl hgeneration
      exact ⟨fun coverage hdone => ⟨hok coverage hdone, hserves⟩, Or.inl hserves⟩

theorem reconcile_refines_killed : ∃ s, run (fileHostStep memoDigest) .initial stagedOps = some s ∧
    (serves memoDigest (reconcileCoverage memoDigest { runningAdopt with flip := .killed }
        (fun jobId => s.jobs[jobId]?) (plainRequest "b" 2) s.disk).2 =
      ((viewDir memoDigest s.disk).reconcileCoverage (fun jobId => s.jobs[jobId]?)
        (plainRequest "b" 2)).1.serves ∨
    serves memoDigest (reconcileCoverage memoDigest { runningAdopt with flip := .killed }
        (fun jobId => s.jobs[jobId]?) (plainRequest "b" 2) s.disk).2 =
      (viewDir memoDigest s.disk).serves) := by
  have hsome : (run (fileHostStep memoDigest) .initial stagedOps).isSome = true := by
    decide
  obtain ⟨s, hrun⟩ := Option.isSome_iff_exists.mp hsome
  exact ⟨s, hrun, (reconcile_refines memoDigest hrun (plainRequest "b" 2)
    { runningAdopt with flip := .killed }).2⟩

end Solweig.Bridge
