import Solweig.Store.Realtime

/-!
# Scenarios, jobs and results

The mutations of a scenario row: edit batches, resets, results and the advance of the fast
revision. Ids, timestamps and responses that the caller or the clock supplies are arguments.
-/

namespace Solweig.Store

open Solweig.Lib Solweig.Realtime

/-! ## Idempotency -/

/-- Both halves are there and neither is empty. -/
def idempotency? (key fingerprint : Option String) : Option (String × String) :=
  match key, fingerprint with
  | some k, some f => if k = "" ∨ f = "" then none else some (k, f)
  | _, _ => none

/-- Stops on a key that is stored: a conflict, or a replay of the stored response. -/
def checkIdempotency (scope : String) : Option (String × String) → Write Unit
  | none => pure ()
  | some (key, fingerprint) => do
    let db ← Txn.get
    match db.idempotencyKeys.find? fun r => r.scope = scope ∧ r.key = key with
    | none => pure ()
    | some row =>
      Txn.refuseIf (row.requestFingerprint ≠ fingerprint) (.idempotencyConflict key)
      Txn.throw (.idempotentReplay row.response)

def storeIdempotency (scope : String) (response : StoredResponse) :
    Option (String × String) → Write Unit
  | none => pure ()
  | some (key, requestFingerprint) => Txn.modify fun db =>
    { db with
      idempotencyKeys := db.idempotencyKeys ++ [{ scope, key, requestFingerprint, response }] }

/-! ## Jobs -/

/-- A write to the jobs alone. -/
def writeJobs (f : List JobRow → List JobRow) (db : Database) : Database :=
  { db with jobs := f db.jobs }

@[simp]
theorem writeJobs_scenarios (f : List JobRow → List JobRow) (db : Database) :
    (writeJobs f db).scenarios = db.scenarios := rfl

def insertJob (jobId scenarioId : String) (targetSceneVersion : Nat) (request : JobRequest)
    (editWatermark baseEditWatermark : Nat) (now : String) : Write Unit :=
  Txn.modify <| writeJobs fun jobs => jobs ++
    [{ jobId, scenarioId, targetSceneVersion, status := .queued, request, editWatermark,
       baseEditWatermark, queuedAt := now }]

def supersede (scenarioId : String) (exceptJobId : Option String) (now : String) :
    List JobRow → List JobRow :=
  updateWhere
    (fun r => r.scenarioId = scenarioId ∧ r.status = .queued ∧ r.jobId ≠ exceptJobId.getD "")
    (fun r => { r with status := .superseded, finishedAt := some now })

def supersedeQueued (scenarioId : String) (exceptJobId : Option String) (now : String) :
    Write Unit :=
  Txn.modify (writeJobs (supersede scenarioId exceptJobId now))

def markJobRunning (jobId : String) : Write Unit :=
  Txn.modify <| writeJobs <| updateWhere (fun r => r.jobId = jobId ∧ r.status = .queued)
    (fun r => { r with status := .running })

def finishJob (jobId : String) (status : JobStatus) (now : String) : Write Unit :=
  Txn.modify <| writeJobs <| updateWhere
    (fun r => r.jobId = jobId ∧ (r.status = .queued ∨ r.status = .running))
    (fun r => { r with status, finishedAt := some now })

/-- `requeue_running_job` and `requeue_failed_job`, from the statuses that each of them takes. -/
def requeueJob (jobId : String) (from_ : List JobStatus) : Write Unit :=
  Txn.modify <| writeJobs <| updateWhere (fun r => r.jobId = jobId ∧ r.status ∈ from_)
    (fun r => { r with status := .queued, finishedAt := none })

def requeueRunningJob (jobId : String) : Write Unit := requeueJob jobId [.running]

def requeueFailedJob (jobId : String) : Write Unit := requeueJob jobId [.failed, .cancelled]

/-! ## Edit batches -/

structure AppliedEdit where
  operation : String
  treeId : String
  oldTree : Option Json
  newTree : Option Json
  deriving DecidableEq

structure FamilyEdit where
  operation : String
  payload : Json
  deriving DecidableEq

/-- What an edit request carries besides its edits. -/
structure EditRequest where
  scenarioId : String
  baseSceneVersion : Nat
  requested : Json
  idempotencyKey : Option String
  requestFingerprint : Option String

def addEvent (event : EditEventRow) (db : Database) : Database :=
  { db with editEvents := db.editEvents ++ [event] }

def deleteTree (scenarioId treeId : String) (db : Database) : Database :=
  { db with trees := db.trees.filter fun r => ¬ (r.scenarioId = scenarioId ∧ r.treeId = treeId) }

/-- `INSERT … ON CONFLICT DO UPDATE` -/
def upsertTree (scenarioId treeId : String) (tree : Json) (db : Database) : Database :=
  { db with
    trees :=
      if ∃ r ∈ db.trees, r.scenarioId = scenarioId ∧ r.treeId = treeId then
        updateWhere (fun r => r.scenarioId = scenarioId ∧ r.treeId = treeId)
          (fun r => { r with tree }) db.trees
      else db.trees ++ [{ scenarioId, treeId, tree }] }

/-- The events of a batch of tree edits, from the last sequence taken to the new one. -/
def applyTreeEdits (request : EditRequest) (now : String) :
    Nat → List (String × AppliedEdit) → Write Nat
  | sequence, [] => pure sequence
  | sequence, (eventId, edit) :: rest => do
    Txn.modify <| addEvent {
      scenarioId := request.scenarioId
      sequence := sequence + 1
      eventId
      baseSceneVersion := request.baseSceneVersion
      operation := edit.operation
      treeId := some edit.treeId
      oldTree := edit.oldTree
      newTree := edit.newTree
      submittedAt := now
      idempotencyKey := request.idempotencyKey }
    if edit.operation = "delete" then Txn.modify (deleteTree request.scenarioId edit.treeId)
    else Txn.modify (upsertTree request.scenarioId edit.treeId (edit.newTree.getD .null))
    applyTreeEdits request now (sequence + 1) rest

/-- The events of a batch of family edits, which leave the trees alone. -/
def applyFamilyEdits (request : EditRequest) (now : String) :
    Nat → List (String × FamilyEdit) → Write Nat
  | sequence, [] => pure sequence
  | sequence, (eventId, edit) :: rest => do
    Txn.modify <| addEvent {
      scenarioId := request.scenarioId
      sequence := sequence + 1
      eventId
      baseSceneVersion := request.baseSceneVersion
      operation := edit.operation
      submittedAt := now
      idempotencyKey := request.idempotencyKey
      family := some edit.payload }
    applyFamilyEdits request now (sequence + 1) rest

/-- The row after an edit batch up to `sequence`. -/
def ScenarioRow.edited (row : ScenarioRow) (version sequence : Nat) (carries : Bool)
    (now : String) : ScenarioRow :=
  { row with
    sceneVersion := version
    status := .refining
    editSequence := sequence
    carriesFamilyEdits := row.carriesFamilyEdits || carries
    updatedAt := now }

/-- One edit batch. `apply` writes its events and returns the last sequence taken. -/
def commitBatch (request : EditRequest) (apply : Nat → Write Nat) (carries : Bool)
    (jobId now : String) (respond : ScenarioRow → String → StoredResponse) :
    Write (ScenarioRow × String) :=
  Txn.atomically do
    let keyed := idempotency? request.idempotencyKey request.requestFingerprint
    checkIdempotency request.scenarioId keyed
    let scenario ← requireScenario request.scenarioId
    Txn.refuseIf (request.baseSceneVersion ≠ scenario.sceneVersion)
      (.sceneVersionConflict scenario.sceneVersion)
    let version := scenario.sceneVersion + 1
    let sequence ← apply scenario.editSequence
    insertJob jobId request.scenarioId version (.edits request.requested) sequence
      scenario.ackedSequence now
    supersedeQueued request.scenarioId (some jobId) now
    Txn.modify (updateScenario request.scenarioId (·.edited version sequence carries now))
    let record ← requireScenario request.scenarioId
    storeIdempotency request.scenarioId (respond record jobId) keyed
    pure (record, jobId)

def commitEdits (request : EditRequest) (appliedEdits : List (String × AppliedEdit))
    (jobId now : String) (respond : ScenarioRow → String → StoredResponse) :
    Write (ScenarioRow × String) :=
  commitBatch request (fun sequence => applyTreeEdits request now sequence appliedEdits) false
    jobId now respond

def commitUniversalEdits (request : EditRequest) (familyEdits : List (String × FamilyEdit))
    (jobId now : String) (respond : ScenarioRow → String → StoredResponse) :
    Write (ScenarioRow × String) :=
  commitBatch request (fun sequence => applyFamilyEdits request now sequence familyEdits) true
    jobId now respond

/-! ## The fast revision -/

structure FastRevisionAdvance where
  revision : Nat
  fastRevision : Nat
  exactRevision : Nat
  deriving DecidableEq

/-- The row after the fast lane has published `revision`. -/
def ScenarioRow.advance (row : ScenarioRow) (revision observedExact : Nat) (now : String) :
    ScenarioRow :=
  { row with
    fastRevision := max (max (max row.fastRevision revision) row.exactResultVersion) observedExact
    exactBaseRevision := max row.exactBaseRevision row.exactResultVersion
    updatedAt := now }

def advanceFastRevision (workspaceId : String) (revision exactResultVersion : Nat)
    (now : String) : Write (Option FastRevisionAdvance) :=
  Txn.atomically do
    let db ← Txn.get
    match scenario? db workspaceId with
    | none => pure none
    | some row =>
      if row.sceneVersion < revision then pure none
      else
        Txn.modify (updateScenario workspaceId (·.advance revision exactResultVersion now))
        pure (some {
          revision
          fastRevision := (row.advance revision exactResultVersion now).fastRevision
          exactRevision := row.exactResultVersion })

/-! ## Results -/

def result? (db : Database) (scenarioId : String) (sceneVersion : Nat) : Option ResultRow :=
  db.results.find? fun r => r.scenarioId = scenarioId ∧ r.sceneVersion = sceneVersion

def addResult (row : ResultRow) (db : Database) : Database :=
  { db with results := db.results ++ [row] }

/-- The row after an exact result at `version`. -/
def ScenarioRow.published (row : ScenarioRow) (version acked : Nat) (now : String) : ScenarioRow :=
  { row with
    exactResultVersion := version
    status := .exact
    ackedSequence := max row.ackedSequence acked
    updatedAt := now }

/-- `_publish_result_locked` -/
def publishResultLocked (scenarioId : String) (sceneVersion : Nat) (checksum : String)
    (exact : Bool) (jobId : Option String) (ackedSequence : Option Nat) (now : String) :
    Write Unit := do
  let scenario ← requireScenario scenarioId
  Txn.refuseIf (sceneVersion ≠ scenario.sceneVersion)
    (.staleResult sceneVersion scenario.sceneVersion)
  let db ← Txn.get
  Txn.refuseIf ((result? db scenarioId sceneVersion).isSome) (.resultAlreadyPublished sceneVersion)
  Txn.modify (addResult { scenarioId, sceneVersion, exact, checksum, createdAt := now, jobId })
  if exact = true ∧ scenario.exactResultVersion ≤ sceneVersion then
    Txn.modify (updateScenario scenarioId (·.published sceneVersion (ackedSequence.getD 0) now))
  else pure ()

def jobRunning (db : Database) (jobId : String) : Bool :=
  (db.jobs.find? fun r => r.jobId = jobId).any fun r => r.status = .running

/-- The job of the result must still run. -/
def requireRunning : Option String → Write Unit
  | none => pure ()
  | some jobId => do
    let db ← Txn.get
    Txn.refuseIf (¬ jobRunning db jobId) (.resultNotPublishable jobId)

def publishResult (scenarioId : String) (sceneVersion : Nat) (checksum : String) (exact : Bool)
    (jobId : Option String) (ackedSequence : Option Nat) (now : String) : Write Unit :=
  Txn.atomically do
    requireRunning jobId
    publishResultLocked scenarioId sceneVersion checksum exact jobId ackedSequence now

/-- The source row is read before the transaction that writes its copy. -/
def republishResultAtVersion (source : Option ResultRow) (sourceVersion : Nat)
    (scenarioId : String) (targetVersion : Nat) (jobId : Option String) (now : String) :
    Write Unit :=
  match source with
  | none => Txn.throw (.noStoredResult sourceVersion)
  | some row => publishResult scenarioId targetVersion row.checksum true jobId none now

/-! ## Reset -/

structure ResetRequest where
  scenarioId : String
  baseSceneVersion : Option Nat
  idempotencyKey : Option String
  requestFingerprint : Option String

/-- The row after a reset to the baseline at `version`. -/
def ScenarioRow.reset (row : ScenarioRow) (version sequence : Nat) (now : String) : ScenarioRow :=
  { row with
    sceneVersion := version
    exactResultVersion := version
    status := .exact
    editSequence := sequence
    ackedSequence := sequence
    carriesFamilyEdits := false
    lastResetSequence := sequence
    updatedAt := now }

/-- The editable trees and the bootstrap pin of the exact lane. -/
def deleteEditable (scenarioId : String) (db : Database) : Database :=
  { db with
    trees := db.trees.filter fun r => r.scenarioId ≠ scenarioId
    canonical := db.canonical.filter fun r =>
      ¬ (r.workspaceId = scenarioId ∧ r.workspaceRevision = 0) }

/-- `baselinePublisher` gives the checksum of the baseline at the new version. -/
def resetScenario (request : ResetRequest) (eventId : String)
    (baselinePublisher : String → Nat → Except StoreError String) (now : String)
    (respond : ScenarioRow → StoredResponse) : Write ScenarioRow :=
  Txn.atomically do
    let keyed := idempotency? request.idempotencyKey request.requestFingerprint
    checkIdempotency request.scenarioId keyed
    let scenario ← requireScenario request.scenarioId
    Txn.refuseIf (∃ base ∈ request.baseSceneVersion, base ≠ scenario.sceneVersion)
      (.sceneVersionConflict scenario.sceneVersion)
    let version := scenario.sceneVersion + 1
    let sequence := scenario.editSequence + 1
    Txn.modify <| addEvent {
      scenarioId := request.scenarioId
      sequence
      eventId
      baseSceneVersion := scenario.sceneVersion
      operation := "reset"
      submittedAt := now
      idempotencyKey := request.idempotencyKey }
    Txn.modify (deleteEditable request.scenarioId)
    let checksum ← Txn.ofExcept (baselinePublisher request.scenarioId version)
    Txn.modify (updateScenario request.scenarioId (·.reset version sequence now))
    publishResultLocked request.scenarioId version checksum true none (some sequence) now
    supersedeQueued request.scenarioId none now
    let record ← requireScenario request.scenarioId
    storeIdempotency request.scenarioId (respond record) keyed
    pure record

end Solweig.Store
