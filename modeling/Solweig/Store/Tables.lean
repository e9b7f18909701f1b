import Solweig.Lib.Table
import Solweig.Lib.Txn
import Solweig.Realtime.Types

/-!
# The tables of the store

One list per table, one record per row, the oldest row first. Rows hold the columns that some
modelled statement reads or writes. Timestamps are the texts that are stored.
-/

namespace Solweig.Store

open Solweig.Lib Solweig.Realtime

/-! ## Status columns -/

inductive EpochStatus where
  | opened
  | closed
  | reducing
  | fastPlanned
  | fastPublished
  | exactTargeted
  deriving DecidableEq, Repr

/-- `TERMINAL_EPOCH_STATUSES` -/
def EpochStatus.Terminal (status : EpochStatus) : Prop :=
  status = .fastPublished ∨ status = .exactTargeted

instance (status : EpochStatus) : Decidable status.Terminal :=
  inferInstanceAs (Decidable (_ ∨ _))

inductive ScenarioStatus where
  | refining
  | exact
  deriving DecidableEq, Repr

inductive JobStatus where
  | queued
  | running
  | complete
  | superseded
  | failed
  | cancelled
  deriving DecidableEq, Repr

/-! ## Rows -/

structure ScenarioRow where
  scenarioId : String
  sceneVersion : Nat := 0
  exactResultVersion : Nat := 0
  fastRevision : Nat := 0
  exactBaseRevision : Nat := 0
  status : ScenarioStatus := .refining
  editSequence : Nat := 0
  ackedSequence : Nat := 0
  carriesFamilyEdits : Bool := false
  lastResetSequence : Nat := 0
  updatedAt : String
  deriving DecidableEq

structure TreeRow where
  scenarioId : String
  treeId : String
  tree : Json
  deriving DecidableEq

structure EditEventRow where
  scenarioId : String
  sequence : Nat
  eventId : String
  baseSceneVersion : Nat
  operation : String
  treeId : Option String := none
  oldTree : Option Json := none
  newTree : Option Json := none
  submittedAt : String
  idempotencyKey : Option String
  family : Option Json := none
  deriving DecidableEq

/-- The span of operations that a job of the exact lane owes. -/
structure ExactLane where
  targetRevision : Nat
  consumedRevision : Nat
  consumedSeq : Nat
  spanHi : Nat
  reconcile : Bool
  deriving DecidableEq, Repr

/-- A job request is the marker of the exact lane, or what an edit asked for. -/
inductive JobRequest where
  | exactLane (marker : ExactLane)
  | edits (requested : Json)
  deriving DecidableEq

structure JobRow where
  jobId : String
  scenarioId : String
  targetSceneVersion : Nat
  status : JobStatus
  request : JobRequest
  editWatermark : Nat
  baseEditWatermark : Nat
  queuedAt : String
  finishedAt : Option String := none
  deriving DecidableEq

structure ResultRow where
  scenarioId : String
  sceneVersion : Nat
  exact : Bool
  checksum : String
  createdAt : String
  jobId : Option String
  deriving DecidableEq

structure StoredResponse where
  statusCode : Nat
  body : Json
  deriving DecidableEq

structure IdempotencyRow where
  scope : String
  key : String
  requestFingerprint : String
  response : StoredResponse
  deriving DecidableEq

/-- `realtime_operations`; the payload is the one that the stored text parses to. -/
structure OperationRow where
  workspaceId : String
  serverSequence : Nat
  epochId : Nat
  operationId : String
  actorId : String
  clientSequence : Option Int
  baseRevision : Option Int
  sourceFamily : String
  entityId : Option String
  verb : String
  payload : Json
  receivedAt : String
  acceptedAt : String
  deriving DecidableEq

structure EpochRow where
  workspaceId : String
  epochId : Nat
  status : EpochStatus
  firstSequence : Option Nat := none
  lastSequence : Option Nat := none
  workspaceRevision : Option Nat := none
  openedAt : String
  closedAt : Option String := none
  deriving DecidableEq

structure CanonicalRow where
  workspaceId : String
  workspaceRevision : Nat
  families : Families
  createdAt : String

end Solweig.Store

namespace Solweig

open Solweig.Store

/-- The state of the database. -/
structure Database where
  scenarios : List ScenarioRow := []
  trees : List TreeRow := []
  editEvents : List EditEventRow := []
  jobs : List JobRow := []
  results : List ResultRow := []
  idempotencyKeys : List IdempotencyRow := []
  operations : List OperationRow := []
  epochs : List EpochRow := []
  canonical : List CanonicalRow := []

end Solweig

namespace Solweig.Store

open Solweig.Lib

/-! ## Errors -/

inductive StoreError where
  | scenarioNotFound (scenarioId : String)
  | sceneVersionConflict (current : Nat)
  | idempotencyConflict (key : String)
  | idempotentReplay (response : StoredResponse)
  | operationFingerprintConflict (operationId : String)
  | unsupportedFamily (family : String)
  | staleResult (attempted current : Nat)
  | resultAlreadyPublished (sceneVersion : Nat)
  | resultNotPublishable (jobId : String)
  | noStoredResult (sceneVersion : Nat)
  | epochBaselineStale (expected latest : Nat)
  | integrity
  deriving DecidableEq

/-- One `BEGIN IMMEDIATE` transaction. -/
abbrev Write (α : Type) := Txn Database StoreError α

/-! ## Rows of one workspace -/

section Reads

variable (db : Database) (workspaceId : String)

def scenario? : Option ScenarioRow := db.scenarios.find? fun r => r.scenarioId = workspaceId

def log : List OperationRow := db.operations.filter fun r => r.workspaceId = workspaceId

def epochs : List EpochRow := db.epochs.filter fun r => r.workspaceId = workspaceId

def canonical : List CanonicalRow := db.canonical.filter fun r => r.workspaceId = workspaceId

end Reads

/-- `_require_scenario_locked` -/
def requireScenario (scenarioId : String) : Write ScenarioRow := do
  let db ← Txn.get
  Txn.require (scenario? db scenarioId) (.scenarioNotFound scenarioId)

/-- A store with one fresh scenario. -/
def oneScenario : Database := { scenarios := [{ scenarioId := "w", updatedAt := "t0" }] }

end Solweig.Store
