import Solweig.Epochs.Plane

/-!
# The end of a job

`_finalize` as the worker thread runs it, and the cancel route. Each store transaction and each
store read is one step.
-/

namespace Solweig.Jobs

open Solweig.Lib Solweig.Realtime Solweig.Store

def job? (db : Database) (jobId : String) : Option JobRow :=
  db.jobs.find? fun r => r.jobId = jobId

/-- `latest_result` -/
def latestResult (db : Database) (scenarioId : String) : Option ResultRow :=
  (db.results.filter fun r => r.scenarioId = scenarioId).argmax (·.sceneVersion)

/-! ## Finalize -/

inductive SolveStatus where
  | published
  | noOp
  | refused (errorCode : Option String)

/-- What the solver returns. `checksum` is the one of the manifest made from it. -/
structure SolveResult where
  status : SolveStatus
  sceneVersion : Nat
  checksum : String

/-- The job as it was read at dispatch, and its result. -/
structure FinalizeCall where
  job : JobRow
  result : SolveResult

/-- How `_finalize` ends a job. -/
inductive Outcome where
  | complete
  | superseded
  | failed

def Outcome.status : Outcome → JobStatus
  | .complete => .complete
  | .superseded => .superseded
  | .failed => .failed

/-- The next store call, with what the ones before it have returned. -/
inductive FinalizeAt where
  | liveness
  | version
  | mint
  | markComplete
  | fence
  | publish
  | compare
  | latest
  | source (version : Nat)
  | republish (version : Nat) (source : Option ResultRow)
  | consume (outcome : Outcome)
  | settle (rest : List (Nat × Nat)) (outcome : Outcome)
  | finish (outcome : Outcome)

def exactLane? (job : JobRow) : Option ExactLane :=
  match job.request with
  | .exactLane marker => some marker
  | .edits _ => none

def finalizeStart (call : FinalizeCall) : FinalizeAt :=
  match call.result.status with
  | .published => .liveness
  | .noOp => .latest
  | .refused errorCode =>
    if (exactLane? call.job).isSome ∧
        (errorCode = some "edit_rejected" ∨ errorCode = some "engine_refused") then
      .consume .failed
    else .finish .superseded

/-- `none` when the call is over, by a return or by an exception. -/
def finalizeStep (call : FinalizeCall) (now : String) (db : Database) :
    FinalizeAt → Database × Option FinalizeAt
  | .liveness => (db, if jobRunning db call.job.jobId then some .version else none)
  | .version =>
    match scenario? db call.job.scenarioId with
    | none => (db, none)
    | some scenario =>
      if call.result.sceneVersion ≠ scenario.sceneVersion ∨
          call.result.sceneVersion ≠ call.job.targetSceneVersion then
        (db, some (.finish .superseded))
      else (db, some .mint)
  | .mint => (db, if jobRunning db call.job.jobId then some .markComplete else none)
  | .markComplete => (db, if jobRunning db call.job.jobId then some .fence else none)
  | .fence => (db, if jobRunning db call.job.jobId then some .publish else none)
  | .publish =>
    match publishResult call.job.scenarioId call.job.targetSceneVersion call.result.checksum true
        (some call.job.jobId) (some call.job.editWatermark) now db with
    | (.ok (), db') => (db', some (.consume .complete))
    | (.error (.staleResult _ _), db') => (db', some (.finish .superseded))
    | (.error (.resultAlreadyPublished _), db') => (db', some .compare)
    | (.error _, db') => (db', none)
  | .compare =>
    if (result? db call.job.scenarioId call.result.sceneVersion).any
        (·.checksum = call.result.checksum) then
      (db, some (.consume .complete))
    else (db, some (.finish .failed))
  | .latest =>
    match latestResult db call.job.scenarioId with
    | none => (db, some (.consume .failed))
    | some latest =>
      if latest.sceneVersion = call.job.targetSceneVersion then (db, some (.consume .complete))
      else (db, some (.source latest.sceneVersion))
  | .source version =>
    (db, some (.republish version (result? db call.job.scenarioId version)))
  | .republish version source =>
    match republishResultAtVersion source version call.job.scenarioId call.job.targetSceneVersion
        (some call.job.jobId) now db with
    | (.ok (), db') => (db', some (.consume .complete))
    | (.error (.resultAlreadyPublished _), db') => (db', some (.consume .complete))
    | (.error _, db') => (db', some (.consume .superseded))
  | .consume outcome =>
    match exactLane? call.job with
    | none => (db, some (.finish outcome))
    | some _ =>
      (db, some (.settle
        (Epochs.toSettle db call.job.scenarioId call.job.targetSceneVersion) outcome))
  | .settle ((epochId, revision) :: rest) outcome =>
    ((markEpochStatus call.job.scenarioId epochId .exactTargeted (some revision) now db).2,
      some (.settle rest outcome))
  | .settle [] outcome => (db, some (.finish outcome))
  | .finish outcome => ((finishJob call.job.jobId outcome.status now db).2, none)

/-! ## Cancel -/

inductive CancelAt where
  | read
  | finish

/-- `cancel_job` -/
def cancelStep (jobId now : String) (db : Database) : CancelAt → Database × Option CancelAt
  | .read =>
    (db, (job? db jobId).bind fun job =>
      if job.status = .queued ∨ job.status = .running then some .finish else none)
  | .finish => ((finishJob jobId .cancelled now db).2, none)

/-! ## Threads -/

/-- A store call that is one transaction and ends there. -/
inductive StoreCall where
  | commitEdits (request : EditRequest) (edits : List (String × AppliedEdit)) (jobId now : String)
    (respond : ScenarioRow → String → StoredResponse)
  | commitUniversalEdits (request : EditRequest) (edits : List (String × FamilyEdit))
    (jobId now : String) (respond : ScenarioRow → String → StoredResponse)
  | resetScenario (request : ResetRequest) (eventId : String)
    (baselinePublisher : String → Nat → Except StoreError String) (now : String)
    (respond : ScenarioRow → StoredResponse)
  /-- The insert of the exact lane, as any target and marker. -/
  | mintExact (jobId scenarioId : String) (targetSceneVersion : Nat) (marker : ExactLane)
    (editWatermark baseEditWatermark : Nat) (now : String)
  | markJobRunning (jobId : String)
  | requeueRunningJob (jobId : String)
  | requeueFailedJob (jobId : String)

/-- The job that the call inserts. -/
def StoreCall.inserts? : StoreCall → Option String
  | .commitEdits _ _ jobId _ _ => some jobId
  | .commitUniversalEdits _ _ jobId _ _ => some jobId
  | .mintExact jobId _ _ _ _ _ _ => some jobId
  | _ => none

def StoreCall.run (db : Database) : StoreCall → Database
  | .commitEdits request edits jobId now respond =>
    (Store.commitEdits request edits jobId now respond db).2
  | .commitUniversalEdits request edits jobId now respond =>
    (Store.commitUniversalEdits request edits jobId now respond db).2
  | .resetScenario request eventId publisher now respond =>
    (Store.resetScenario request eventId publisher now respond db).2
  | .mintExact jobId scenarioId target marker editWatermark baseEditWatermark now =>
    ((do
      insertJob jobId scenarioId target (.exactLane marker) editWatermark baseEditWatermark now
      supersedeQueued scenarioId (some jobId) now : Write Unit) db).2
  | .markJobRunning jobId => (Store.markJobRunning jobId db).2
  | .requeueRunningJob jobId => (Store.requeueRunningJob jobId db).2
  | .requeueFailedJob jobId => (Store.requeueFailedJob jobId db).2

inductive JobThread where
  | free
  | finalizing (call : FinalizeCall) (place : FinalizeAt)
  | cancelling (jobId : String) (place : CancelAt)

inductive JobEvent where
  | call (storeCall : StoreCall)
  | finalize (call : FinalizeCall)
  | cancel (jobId : String)
  /-- The next store call of the thread goes through. -/
  | step (now : String)
  /-- The next store call of the thread raises. -/
  | fail

/-- One atomic action of a thread. A job id is a key of its table, so an insert takes a new one. -/
def jobAct (db : Database) : JobThread → JobEvent → Option (Database × JobThread)
  | .free, .call storeCall =>
    if ∃ jobId ∈ storeCall.inserts?, (job? db jobId).isSome then none
    else some (storeCall.run db, .free)
  | .free, .finalize call => some (db, .finalizing call (finalizeStart call))
  | .free, .cancel jobId => some (db, .cancelling jobId .read)
  | .finalizing call place, .step now =>
    let (db', place') := finalizeStep call now db place
    some (db', (place'.map (.finalizing call)).getD .free)
  | .cancelling jobId place, .step now =>
    let (db', place') := cancelStep jobId now db place
    some (db', (place'.map (.cancelling jobId)).getD .free)
  | .finalizing _ _, .fail => some (db, .free)
  | .cancelling _ _, .fail => some (db, .free)
  | _, _ => none

abbrev JobPlane := Threads Database JobThread

def jobPlaneStep : JobPlane → Nat × JobEvent → Option JobPlane := Threads.step jobAct

end Solweig.Jobs
