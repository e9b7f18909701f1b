import Solweig.Retention.Ledger
import Solweig.Store.Tables

/-!
# How the bridge rebuilds an executor

Snapshots of the executor are staged, adopted behind a sidecar that says up to which event of the
ledger they reach, and restored or dropped when the next job is dispatched.
-/

namespace Solweig.Bridge

open Solweig.Lib Solweig.Retention Solweig.Store

/-! ## Events of the ledger -/

/-- The text in the operation column. -/
def operationName (event : EditEvent) : String :=
  match event.body with
  | .tree edit =>
    match edit.operation with
    | .add => "add"
    | .move => "move"
    | .update => "update"
    | .delete => "delete"
  | .reset => "reset"
  | .family operation => operation

def isFamily (event : EditEvent) : Bool :=
  match event.body with
  | .family _ => true
  | _ => false

/-- The scenario was reset, whatever the text of the operation. -/
def isReset (event : EditEvent) : Bool :=
  match event.body with
  | .reset => true
  | _ => false

/-! ## What is on disk -/

/-- What the influence configuration of a snapshot says of `full_recompute_fraction`. -/
inductive FractionField where
  | missing
  | unreadable
  | number (value : Rat)
  deriving DecidableEq

structure Snapshot where
  fraction : FractionField
  /-- The rest of the identity agrees and the log replays. -/
  accepted : Bool
  /-- The sequences of the family events that the executor had applied. -/
  reflects : List Nat

/-- `scenario-state.json` and its memo. -/
inductive SnapshotFile where
  | absent
  | torn
  | readable (snapshot : Snapshot)

structure Coverage where
  coveredSequence : Nat
  generation : Option String

structure PendingMeta where
  jobId : String
  coveredSequence : Nat

structure Pending where
  /-- `none` when it cannot be read. -/
  info : Option PendingMeta
  snapshot : SnapshotFile

structure StateDir where
  /-- `none` when it is missing or corrupt. -/
  sidecar : Option Coverage
  root : SnapshotFile
  generations : Dict String SnapshotFile
  pending : Option Pending

def StateDir.empty : StateDir := ⟨none, .absent, ∅, none⟩

/-- `_read_coverage` -/
def StateDir.readCoverage (dir : StateDir) : Coverage :=
  match dir.sidecar with
  | none => ⟨0, none⟩
  | some ⟨covered, none⟩ => ⟨covered, none⟩
  | some ⟨covered, some generation⟩ =>
    if generation ∈ dir.generations then ⟨covered, some generation⟩ else ⟨0, none⟩

/-- What is in `_snapshot_directory`. -/
def StateDir.snapshotFile (dir : StateDir) (coverage : Coverage) : SnapshotFile :=
  match coverage.generation with
  | none => dir.root
  | some generation => (dir.generations[generation]?).getD .absent

def StateDir.discardPending (dir : StateDir) : StateDir := { dir with pending := none }

/-! ## Requests -/

structure SolveRequest where
  jobId : String
  editWatermark : Nat
  events : List EditEvent
  exactLane : Option ExactLane

def exactLaneFullRecomputeFraction : Rat := 95 / 100

def reconcileFullRecomputeFraction : Rat := 1 / 1000000000000

/-- The default of `InfluenceConfig`. -/
def fullRecomputeFraction : Rat := 30 / 100

def exactLaneRecomputeFraction : Option ExactLane → Option Rat
  | none => none
  | some marker =>
    if marker.reconcile then some reconcileFullRecomputeFraction
    else some exactLaneFullRecomputeFraction

/-- The fraction that the executor of the request runs with. -/
def SolveRequest.laneFraction (request : SolveRequest) : Rat :=
  (exactLaneRecomputeFraction request.exactLane).getD fullRecomputeFraction

/-- `_pending_restorable_by` -/
def restorableBy (snapshot : Snapshot) (request : SolveRequest) : Bool :=
  match snapshot.fraction with
  | .missing => fullRecomputeFraction = request.laneFraction
  | .unreadable => false
  | .number staged => staged = request.laneFraction

def promotedSnapshotRestorable (file : SnapshotFile) (request : SolveRequest) : Bool :=
  match file with
  | .readable snapshot => restorableBy snapshot request
  | _ => true

/-! ## Adoption -/

/-- `_promote_pending`; superseded generations are collected. -/
def StateDir.promotePending (dir : StateDir) (info : PendingMeta) (file : SnapshotFile) :
    StateDir × Coverage :=
  let generation := "gen-" ++ info.jobId
  let coverage : Coverage := ⟨info.coveredSequence, some generation⟩
  ({ dir with
      sidecar := some coverage
      generations := (∅ : Dict String SnapshotFile).insert generation file
      pending := none },
    coverage)

/-- The staged snapshot comes from another job, which is complete and not ahead of the request,
and the lane of the request could restore it. -/
def adoptable (status : String → Option JobStatus) (request : SolveRequest) (info : PendingMeta)
    (file : SnapshotFile) : Bool :=
  match file with
  | .readable snapshot =>
    info.jobId ≠ request.jobId ∧ status info.jobId = some .complete ∧
      info.coveredSequence ≤ request.editWatermark ∧ restorableBy snapshot request
  | _ => false

def StateDir.reconcileCoverage (dir : StateDir) (status : String → Option JobStatus)
    (request : SolveRequest) : StateDir × Coverage :=
  match dir.pending with
  | some ⟨some info, file⟩ =>
    if adoptable status request info file then dir.promotePending info file
    else (dir.discardPending, dir.readCoverage)
  | _ => (dir.discardPending, dir.readCoverage)

/-! ## The replay window -/

structure ReplayWindow where
  covered : Nat
  replayTreeEvents : Bool
  snapshotRestored : Bool

/-- The last event whose operation is called reset. -/
def lastReset (ledger : List EditEvent) : Nat :=
  ((ledger.filter fun event => operationName event = "reset").map EditEvent.sequence).foldl max 0

/-- A snapshot is there, it reaches past the last reset, and this lane could restore it. -/
def Promotable (coverage : Coverage) (file : SnapshotFile) (request : SolveRequest) : Prop :=
  (match file with | .absent => false | _ => true) = true ∧
    lastReset request.events < coverage.coveredSequence ∧
    promotedSnapshotRestorable file request = true

instance (coverage : Coverage) (file : SnapshotFile) (request : SolveRequest) :
    Decidable (Promotable coverage file request) :=
  inferInstanceAs (Decidable (_ ∧ _ ∧ _))

def ledgerReplayWindow (coverage : Coverage) (file : SnapshotFile) (request : SolveRequest) :
    ReplayWindow :=
  if Promotable coverage file request then ⟨coverage.coveredSequence, true, true⟩
  else if 0 < lastReset request.events ∧ coverage.coveredSequence ≤ lastReset request.events then
    ⟨lastReset request.events, true, false⟩
  else ⟨max coverage.coveredSequence (lastReset request.events), false, false⟩

/-! ## The executor -/

inductive Unrecoverable where
  | snapshotUnreadable
  | snapshotForeign
  /-- How many sequences of the window are gone, and the first of them. -/
  | pruned (missing first : Nat)
  deriving DecidableEq

/-- What a rebuild starts from: the family events of the restored snapshot and the window. -/
structure Rebuilt where
  restored : List Nat
  window : ReplayWindow

/-- `read_snapshot` and `restore_into_executor`, for the executor of the request. -/
def restoreSnapshot (file : SnapshotFile) (request : SolveRequest) :
    Except Unrecoverable (List Nat) :=
  match file with
  | .readable snapshot =>
    if snapshot.fraction = .number request.laneFraction ∧ snapshot.accepted then
      .ok snapshot.reflects
    else .error .snapshotForeign
  | _ => .error .snapshotUnreadable

/-- `_build_executor`, without the trees that it seeds. -/
def buildExecutor (coverage : Coverage) (file : SnapshotFile) (request : SolveRequest) :
    Except Unrecoverable Rebuilt :=
  let window := ledgerReplayWindow coverage file request
  if window.snapshotRestored then do
    let restored ← restoreSnapshot file request
    pure ⟨restored, window⟩
  else .ok ⟨[], window⟩

/-- The events that `_pending_commands` turns into commands. -/
def pendingEvents (request : SolveRequest) (window : ReplayWindow) : List EditEvent :=
  request.events.filter fun event =>
    window.covered < event.sequence ∧ event.sequence ≤ request.editWatermark ∧
      (isFamily event ∨ (window.replayTreeEvents ∧ operationName event ≠ "reset"))

def missingSequences (request : SolveRequest) (covered : Nat) : List Nat :=
  (List.range' (covered + 1) (request.editWatermark - covered)).filter fun sequence =>
    sequence ∉ request.events.map EditEvent.sequence

def guardLedgerCompleteness (request : SolveRequest) (covered : Nat) :
    Except Unrecoverable Unit :=
  match missingSequences request covered with
  | [] => .ok ()
  | first :: rest => .error (.pruned (rest.length + 1) first)

/-! ## Jobs -/

structure SolveJob where
  status : JobStatus
  exactLane : Option ExactLane
  editWatermark : Nat

/-- A job whose executor has been built. -/
structure Solving where
  request : SolveRequest
  /-- The family events that are in the executor when its batch is through. -/
  applied : List Nat

structure Host where
  scenario : Scenario
  jobs : Dict String SolveJob
  dir : StateDir
  solving : Option Solving

def Host.initial : Host := ⟨.initial, ∅, .empty, none⟩

inductive HostOp where
  | ledger (op : LedgerOp)
  | submit (jobId : String) (exactLane : Option ExactLane) (editWatermark : Nat)
  | dispatch (jobId : String)
  /-- The solve ends and stages its state, which restores or does not. -/
  | stage (accepted : Bool)
  /-- The solve is refused or superseded, or the process stops. -/
  | abandon
  | settle (jobId : String) (status : JobStatus)
  | loseSidecar
  | loseGeneration (generation : String)
  /-- The snapshot is gone from its directory, or does not read any more. -/
  | damageGeneration (generation : String) (gone : Bool)

namespace Host

variable (s : Host)

def requestOf (jobId : String) (job : SolveJob) : SolveRequest :=
  ⟨jobId, job.editWatermark, s.scenario.events, job.exactLane⟩

def jobStatus (jobId : String) : Option JobStatus := (s.jobs[jobId]?).map SolveJob.status

/-- The coverage that the job settles on, with the directory that it leaves. -/
def reconciled (request : SolveRequest) : StateDir × Coverage :=
  s.dir.reconcileCoverage s.jobStatus request

/-- What the job finds where its coverage points. -/
def promoted (request : SolveRequest) : SnapshotFile :=
  (s.reconciled request).1.snapshotFile (s.reconciled request).2

def rebuild (request : SolveRequest) : Except Unrecoverable Rebuilt :=
  buildExecutor (s.reconciled request).2 (s.promoted request) request

/-- The start of `_solve_with_executor`, up to its commands. -/
def solve (request : SolveRequest) : Except Unrecoverable Solving := do
  let rebuilt ← s.rebuild request
  guardLedgerCompleteness request rebuilt.window.covered
  let replayed := (pendingEvents request rebuilt.window).filter fun event => isFamily event
  pure ⟨request, rebuilt.restored ++ replayed.map EditEvent.sequence⟩

end Host

def hostStep (grid : Geometry) (s : Host) : HostOp → Option Host
  | .ledger op => (ledgerStep grid s.scenario op).map fun scenario => { s with scenario }
  | .submit jobId exactLane editWatermark =>
    if s.jobs[jobId]?.isNone ∧ editWatermark ≤ s.scenario.editSequence then
      some { s with jobs := s.jobs.insert jobId ⟨.queued, exactLane, editWatermark⟩ }
    else none
  | .dispatch jobId =>
    match s.jobs[jobId]?, s.solving with
    | some job, none =>
      if job.status = .queued then
        let request := s.requestOf jobId job
        some { s with
          jobs := s.jobs.insert jobId { job with status := .running }
          dir := (s.reconciled request).1
          solving := (s.solve request).toOption }
      else none
    | _, _ => none
  | .stage accepted =>
    match s.solving with
    | some solving =>
      some { s with
        dir := { s.dir with
          pending := some ⟨some ⟨solving.request.jobId, solving.request.editWatermark⟩,
            .readable ⟨.number solving.request.laneFraction, accepted, solving.applied⟩⟩ }
        solving := none }
    | none => none
  | .abandon => some { s with solving := none }
  | .settle jobId status =>
    match s.jobs[jobId]? with
    | some job => some { s with jobs := s.jobs.insert jobId { job with status } }
    | none => none
  | .loseSidecar => some { s with dir := { s.dir with sidecar := none } }
  | .loseGeneration generation =>
    some { s with dir := { s.dir with generations := s.dir.generations.erase generation } }
  | .damageGeneration generation gone =>
    if generation ∈ s.dir.generations then
      some { s with
        dir := { s.dir with
          generations := s.dir.generations.insert generation (if gone then .absent else .torn) } }
    else none

end Solweig.Bridge
