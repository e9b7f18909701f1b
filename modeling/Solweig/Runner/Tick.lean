import Mathlib.Logic.Function.Basic
import Solweig.Jobs.Finalize

/-!
# The tick of the exact lane

`_exact_lane_tick` and the daily books of the reconciliation. A tick reads the epochs in one
statement, reads them again for each workspace, and mints at most one job of the workspace in a
transaction of its own. Each store call is one step.
-/

namespace Solweig.Runner

open Solweig.Lib Solweig.Store Solweig.Jobs

/-! ## The books of the reconciliation -/

/-- A row of `workspace_reconcile`. -/
structure ReconcileRow where
  workspaceId : String
  lastCompletedDate : String
  owed : Bool
  deriving DecidableEq

def hasRow (workspaceId : String) (rows : List ReconcileRow) : Bool :=
  rows.any fun r => r.workspaceId = workspaceId

def markReconcileOwed (workspaceId : String) (rows : List ReconcileRow) : List ReconcileRow :=
  if hasRow workspaceId rows then
    updateWhere (fun r => r.workspaceId = workspaceId ∧ r.owed = false)
      (fun r => { r with owed := true }) rows
  else rows ++ [{ workspaceId, lastCompletedDate := "1970-01-01", owed := true }]

def markReconcileCompleted (workspaceId date : String) (rows : List ReconcileRow) :
    List ReconcileRow :=
  if hasRow workspaceId rows then
    updateWhere (fun r => r.workspaceId = workspaceId)
      (fun r => { r with lastCompletedDate := date, owed := false }) rows
  else rows ++ [{ workspaceId, lastCompletedDate := date, owed := false }]

def clearReconcileOwed (workspaceId : String) (rows : List ReconcileRow) : List ReconcileRow :=
  updateWhere (fun r => r.workspaceId = workspaceId ∧ r.owed = true)
    (fun r => { r with owed := false }) rows

/-- The date of the last completed reconcile, and whether one is owed. -/
def reconcileState (workspaceId : String) (rows : List ReconcileRow) : Option String × Bool :=
  match rows.find? fun r => r.workspaceId = workspaceId with
  | none => (none, false)
  | some row => (some row.lastCompletedDate, row.owed)

/-- Sorted by workspace, as the statement orders them. -/
def workspacesOwingReconcile (rows : List ReconcileRow) : List String :=
  ((rows.filter (·.owed)).map (·.workspaceId)).insertionSort (· ≤ ·)

/-! ## What the epochs say -/

/-- `record.last_sequence or record.first_sequence or 0`, where a zero counts as missing. -/
def lastTaken (row : EpochRow) : Nat :=
  ((row.lastSequence.filter (· ≠ 0)).or row.firstSequence).getD 0

/-- How far the settled epochs reach. -/
structure Consumed where
  revision : Nat
  sequence : Nat
  deriving DecidableEq

def Consumed.take (consumed : Consumed) (row : EpochRow) : Consumed :=
  if row.status.Terminal then
    { revision := max consumed.revision (row.workspaceRevision.getD 0)
      sequence := max consumed.sequence (lastTaken row) }
  else consumed

def consumedOf (records : List EpochRow) : Consumed :=
  records.foldl Consumed.take { revision := 0, sequence := 0 }

/-- The highest revision among the epochs that have one. -/
def newestRevision (epochs : List EpochRow) : Option Nat :=
  (epochs.filterMap (·.workspaceRevision)).max?

/-- The last operation of the epochs that a job up to `target` settles. -/
def spanHi (records : List EpochRow) (consumed : Consumed) (target : Nat) : Nat :=
  records.foldl (fun high row =>
    match row.workspaceRevision with
    | none => high
    | some revision =>
      if consumed.revision < revision ∧ revision ≤ target then max high (lastTaken row) else high) 0

/-! ## The mint -/

def JobRow.live (job : JobRow) : Bool := job.status = .queued ∨ job.status = .running

def JobRow.exact (job : JobRow) : Bool := (exactLane? job).isSome

/-- A live job of the lane has this target or a newer one. -/
def ownsTarget (workspaceId : String) (target : Nat) (jobs : List JobRow) : Bool :=
  jobs.any fun job => job.scenarioId = workspaceId ∧ JobRow.exact job ∧ JobRow.live job ∧
    target ≤ job.targetSceneVersion

inductive MintOutcome where
  | nothing
  /-- Another job of the lane owns the target. -/
  | owned (target : Nat)
  | minted (target : Nat)
  deriving DecidableEq, Repr

def markerOf (reconcile : Bool) (records : List EpochRow) (consumed : Consumed)
    (row : ScenarioRow) : ExactLane where
  targetRevision := row.sceneVersion
  consumedRevision := consumed.revision
  consumedSeq := consumed.sequence
  spanHi := spanHi records consumed row.sceneVersion
  reconcile

/-- The write transaction of `_exact_lane_tick_workspace`. -/
def mintExact (workspaceId jobId : String) (reconcile : Bool) (records : List EpochRow)
    (consumed : Consumed) (now : String) : Write MintOutcome :=
  Txn.atomically do
    let db ← Txn.get
    match scenario? db workspaceId with
    | none => pure .nothing
    | some row =>
      if row.sceneVersion ≤ consumed.revision then pure .nothing
      else if ownsTarget workspaceId row.sceneVersion db.jobs then pure (.owned row.sceneVersion)
      else do
        insertJob jobId workspaceId row.sceneVersion
          (.exactLane (markerOf reconcile records consumed row)) row.editSequence row.ackedSequence
          now
        supersedeQueued workspaceId (some jobId) now
        pure (.minted row.sceneVersion)

/-! ## One workspace -/

/-- The next store call of `_exact_lane_tick_workspace`, with what the ones before it returned. -/
inductive TickAt where
  | records (newest : Nat)
  | audience (records : List EpochRow) (newest : Nat)
  | owe
  | churn (records : List EpochRow) (newest : Nat)
  | bootstrap (records : List EpochRow)
  | mint (records : List EpochRow)
  | put (jobId : String)

/-- What the runner keeps besides the threads: the durable tables, the queue in memory and the
highest revision that each workspace has had an exact job for. -/
structure RunnerState where
  db : Database
  reconcile : List ReconcileRow
  queue : List String
  attempted : String → Nat

def RunnerState.put (s : RunnerState) (jobId : String) : RunnerState :=
  { s with queue := s.queue ++ [jobId] }

def RunnerState.attempt (s : RunnerState) (workspaceId : String) (target : Nat) : RunnerState :=
  { s with attempted := Function.update s.attempted workspaceId target }

/-- What a step of the tick is told from outside: whether a subscriber watches the workspace or
there is no hub to ask, the id of a new job, the families of a bootstrap pin, and the clock. -/
structure TickInput where
  watched : Bool
  jobId : String
  pin : Option Solweig.Realtime.Families
  now : String

/-- `_exact_lane_audience` -/
def exactLaneAudience (workspaceId : String) (watched : Bool) (jobs : List JobRow) : Bool :=
  watched || jobs.any fun job =>
    job.scenarioId = workspaceId ∧ JobRow.exact job ∧ JobRow.live job

/-- `none` where nothing is committed yet. -/
def tickStart (epochs : List EpochRow) : Option TickAt :=
  (newestRevision epochs).map .records

/-- The write of `ensure_exact_lane_bootstrap`, if it comes to one. -/
def pinBootstrap (workspaceId now : String) :
    Option Solweig.Realtime.Families → Database → Database
  | none, db => db
  | some families, db =>
    (insertCanonicalOrIgnore
      { workspaceId, workspaceRevision := 0, families, createdAt := now } db).2

/-- `none` when the workspace is done. -/
def tickStep (workspaceId : String) (reconcile : Bool) (input : TickInput) (s : RunnerState) :
    TickAt → RunnerState × Option TickAt
  | .records newest =>
    let records := epochRecords s.db workspaceId
    if newest ≤ (consumedOf records).revision then (s, none)
    else if reconcile then (s, some (.bootstrap records))
    else (s, some (.audience records newest))
  | .audience records newest =>
    if exactLaneAudience workspaceId input.watched s.db.jobs then (s, some (.churn records newest))
    else (s, some .owe)
  | .owe => ({ s with reconcile := markReconcileOwed workspaceId s.reconcile }, none)
  | .churn records newest =>
    (s, if newest ≤ s.attempted workspaceId then none else some (.bootstrap records))
  | .bootstrap records =>
    ({ s with db := pinBootstrap workspaceId input.now input.pin s.db }, some (.mint records))
  | .mint records =>
    match mintExact workspaceId input.jobId reconcile records (consumedOf records) input.now s.db with
    | (.ok (.minted target), db) =>
      ({ s with db }.attempt workspaceId target, some (.put input.jobId))
    | (.ok (.owned target), db) => ({ s with db }.attempt workspaceId target, none)
    | (_, db) => ({ s with db }, none)
  | .put jobId => (s.put jobId, none)

/-! ## All workspaces -/

/-- What is left of `_exact_lane_tick`: the workspaces with the epochs read at its start. -/
structure TickWork where
  rest : List (String × List EpochRow)
  current : Option (String × TickAt)

/-- The rows of one workspace, in the order of the scan. -/
def epochsOf (workspaceId : String) (epochs : List EpochRow) : List EpochRow :=
  epochs.filter fun r => r.workspaceId = workspaceId

/-- The read at the start, grouped by workspace in order. -/
def tickWork (db : Database) : TickWork where
  rest :=
    let epochs := recoverableEpochs db
    ((epochs.map (·.workspaceId)).dedup.insertionSort (· ≤ ·)).map fun w => (w, epochsOf w epochs)
  current := none

/-- The next step of the tick; `none` at its end. -/
def TickWork.step (work : TickWork) (input : TickInput) (s : RunnerState) :
    RunnerState × Option TickWork :=
  match work.current with
  | some (workspaceId, place) =>
    let (s', place') := tickStep workspaceId false input s place
    (s', some { work with current := place'.map (workspaceId, ·) })
  | none =>
    match work.rest with
    | [] => (s, none)
    | (workspaceId, epochs) :: rest =>
      (s, some { rest, current := (tickStart epochs).map (workspaceId, ·) })

/-- A workspace whose tick raises is given up, and the others go on. The job of a mint that went
through is put first: nothing can raise between the two. -/
def TickWork.raise (work : TickWork) : Option TickWork :=
  match work.current with
  | some (_, .put _) => none
  | some _ => some { work with current := none }
  | none => none

end Solweig.Runner
