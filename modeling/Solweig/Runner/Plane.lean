import Solweig.Runner.Tick

/-!
# The job runner

`JobRunner` with its one worker thread, the request threads that write to the store and submit
jobs, the recovery at the start of a process, and the crash that ends one. A step is one store
call, or one action on the memory that the threads share.
-/

namespace Solweig.Store

open Solweig.Lib

/-! ## New scenarios -/

structure CreateRequest where
  scenarioId : String
  maxScenarios : Option Nat
  idempotencyKey : Option String
  requestFingerprint : Option String

inductive CreateOutcome where
  | quotaExceeded
  | created (row : ScenarioRow) (jobId : Option String)

def insertScenario (scenarioId now : String) : Write Unit := do
  let db ← Txn.get
  Txn.refuseIf ((scenario? db scenarioId).isSome) .integrity
  Txn.modify fun db => { db with scenarios := db.scenarios ++ [{ scenarioId, updatedAt := now }] }

/-- The baseline is published at version 0 where the site has one; otherwise a job is queued
that solves it. -/
def createBaseline (scenarioId jobId : String)
    (baselinePublisher : Option (String → Nat → Except StoreError String)) (now : String) :
    Write (Option String) :=
  match baselinePublisher with
  | some publisher => do
    let checksum ← Txn.ofExcept (publisher scenarioId 0)
    publishResultLocked scenarioId 0 checksum true none (some 0) now
    pure none
  | none => do
    insertJob jobId scenarioId 0 (.edits (.obj [("baseline", .bool true)])) 0 0 now
    pure (some jobId)

def createScenario (request : CreateRequest) (jobId : String)
    (baselinePublisher : Option (String → Nat → Except StoreError String)) (now : String)
    (respond : ScenarioRow → Option String → StoredResponse) : Write CreateOutcome :=
  Txn.atomically do
    let keyed := idempotency? request.idempotencyKey request.requestFingerprint
    checkIdempotency "_create" keyed
    let db ← Txn.get
    if ∃ quota ∈ request.maxScenarios, quota ≤ db.scenarios.length then pure .quotaExceeded
    else do
      insertScenario request.scenarioId now
      let baselineJob ← createBaseline request.scenarioId jobId baselinePublisher now
      let record ← requireScenario request.scenarioId
      storeIdempotency "_create" (respond record baselineJob) keyed
      pure (.created record baselineJob)

/-! ## Retention -/

/-- The event is acknowledged, and `eventTail` later ones are too. -/
def outlived (eventTail : Nat) (db : Database) (event : EditEventRow) : Bool :=
  (scenario? db event.scenarioId).any fun row => event.sequence + eventTail ≤ row.ackedSequence

/-- `expired` are the keys that are older than the retry window. -/
def sweepRetention (expired : IdempotencyRow → Bool) (eventTail : Nat) : Write Unit :=
  Txn.modify fun db =>
    { db with
      idempotencyKeys := db.idempotencyKeys.filter fun key => ¬ expired key
      editEvents := db.editEvents.filter fun event => ¬ outlived eventTail db event }

end Solweig.Store

namespace Solweig.Runner

open Solweig.Lib Solweig.Realtime Solweig.Store Solweig.Jobs

/-! ## Requests -/

/-- A store transaction of a request, of the epoch scheduler, of the fast lane or of the boot. -/
inductive RunnerCall where
  | createScenario (request : CreateRequest) (jobId : String)
    (baselinePublisher : Option (String → Nat → Except StoreError String)) (now : String)
    (respond : ScenarioRow → Option String → StoredResponse)
  | commitEdits (request : EditRequest) (edits : List (String × AppliedEdit)) (jobId now : String)
    (respond : ScenarioRow → String → StoredResponse)
  | commitUniversalEdits (request : EditRequest) (edits : List (String × FamilyEdit))
    (jobId now : String) (respond : ScenarioRow → String → StoredResponse)
  | resetScenario (request : ResetRequest) (eventId : String)
    (baselinePublisher : String → Nat → Except StoreError String) (now : String)
    (respond : ScenarioRow → StoredResponse)
  | appendOperations (workspaceId : String) (items : List OperationItem) (now : String)
  | commitEpochReduction (workspaceId : String) (epochId : Nat) (families : Families)
    (baselineRevision : Option Nat) (now : String)
  | markEpochStatus (workspaceId : String) (epochId : Nat) (status : EpochStatus)
    (workspaceRevision : Option Nat) (now : String)
  | advanceFastRevision (workspaceId : String) (revision observedExact : Nat) (now : String)
  /-- The retry of a failed baseline. -/
  | requeueFailedJob (jobId : String)

/-- The id that the call takes for a new job. -/
def RunnerCall.newJob? : RunnerCall → Option String
  | .createScenario _ jobId _ _ _ => some jobId
  | .commitEdits _ _ jobId _ _ => some jobId
  | .commitUniversalEdits _ _ jobId _ _ => some jobId
  | _ => none

def isRetryable (db : Database) (jobId : String) : Bool :=
  db.jobs.any fun job => job.jobId = jobId ∧ job.status ∈ [JobStatus.failed, .cancelled]

/-- The store after the call, and the job that its thread submits next. -/
def RunnerCall.run (db : Database) : RunnerCall → Database × Option String
  | .createScenario request jobId publisher now respond =>
    match Store.createScenario request jobId publisher now respond db with
    | (.ok (.created _ jobId), db') => (db', jobId)
    | (_, db') => (db', none)
  | .commitEdits request edits jobId now respond =>
    match Store.commitEdits request edits jobId now respond db with
    | (.ok (_, jobId), db') => (db', some jobId)
    | (.error _, db') => (db', none)
  | .commitUniversalEdits request edits jobId now respond =>
    match Store.commitUniversalEdits request edits jobId now respond db with
    | (.ok (_, jobId), db') => (db', some jobId)
    | (.error _, db') => (db', none)
  | .resetScenario request eventId publisher now respond =>
    ((Store.resetScenario request eventId publisher now respond db).2, none)
  | .appendOperations workspaceId items now =>
    ((Store.appendOperations workspaceId items now db).2, none)
  | .commitEpochReduction workspaceId epochId families baseline now =>
    ((Store.commitEpochReduction workspaceId epochId families baseline now db).2, none)
  | .markEpochStatus workspaceId epochId status revision now =>
    ((Store.markEpochStatus workspaceId epochId status revision now db).2, none)
  | .advanceFastRevision workspaceId revision observed now =>
    ((Store.advanceFastRevision workspaceId revision observed now db).2, none)
  | .requeueFailedJob jobId =>
    ((Store.requeueFailedJob jobId db).2, if isRetryable db jobId then some jobId else none)

/-! ## Request threads -/

/-- Where a request thread stands; `submit` funnels, ticks and puts the job. -/
inductive ClientAt where
  | free
  | funnel (jobId : String)
  | scan (jobId : String)
  | tick (jobId : String) (work : TickWork)
  | put (jobId : String)
  | cancelling (jobId : String) (place : CancelAt)

/-- What a step of a request thread is told from outside. `funnelled` is what the funnel appends,
if it comes to that. -/
structure ClientInput where
  tick : TickInput
  funnelled : Option (String × List OperationItem)

def clientStep (input : ClientInput) (s : RunnerState) : ClientAt → Option (RunnerState × ClientAt)
  | .free => none
  | .funnel jobId =>
    match input.funnelled with
    | none => some (s, .scan jobId)
    | some (workspaceId, items) =>
      some ({ s with db := (appendOperations workspaceId items input.tick.now s.db).2 },
        .scan jobId)
  | .scan jobId => some (s, .tick jobId (tickWork s.db))
  | .tick jobId work =>
    let (s', work') := work.step input.tick s
    some (s', (work'.map (.tick jobId)).getD (.put jobId))
  | .put jobId => some (s.put jobId, .free)
  | .cancelling jobId place =>
    let (db, place') := cancelStep jobId input.tick.now s.db place
    some ({ s with db }, (place'.map (.cancelling jobId)).getD .free)

/-- A store call that raises. `submit` goes on past a funnel or a tick that does; its put cannot. -/
def clientRaise : ClientAt → Option ClientAt
  | .funnel jobId => some (.scan jobId)
  | .scan jobId => some (.put jobId)
  | .tick jobId work => work.raise.map (.tick jobId)
  | .cancelling _ _ => some .free
  | .free | .put _ => none

/-! ## The worker thread -/

/-- The next store call of `_supersede_scan`. -/
inductive ScanAt where
  | job
  | current (job : JobRow)
  | others (job : JobRow)
  | finish (job : JobRow)

/-- `mark_reconcile_settlement`, or the discharge after a refusal. -/
inductive Settlement where
  | completed
  | discharged
  deriving DecidableEq

/-- What the idle scan does next in the workspace it is at. -/
inductive ReconcileAt where
  | audience
  | books
  | scenario
  | tick (place : TickAt)

structure ReconcileScan where
  today : String
  now : ℚ
  rest : List (String × List EpochRow)
  current : Option (String × List EpochRow × ReconcileAt)

/-- Where the tick of the worker is called from, which says what becomes of an exception. -/
inductive Cadence where
  | boot
  | poll
  | served

inductive WorkerAt where
  | down
  /-- The recovery loop of `start`. -/
  | booting (rest : List JobRow)
  | requeued (jobId : String) (rest : List JobRow)
  | scanEpochs (cadence : Cadence)
  | tick (work : TickWork)
  | idle
  /-- A supersede scan, before the coalescing wait or with the row that `_dispatch` has read. -/
  | scan (jobId : String) (dispatched : Option JobRow) (place : ScanAt)
  | waiting (jobId : String)
  | dispatch (jobId : String)
  | scenario (job : JobRow)
  | missing (job : JobRow)
  | execute (job : JobRow)
  | solving (job : JobRow)
  | unsolved (job : JobRow)
  | finalizing (call : FinalizeCall) (mode : Option String) (place : FinalizeAt)
  | settling (job : JobRow) (settlement : Settlement)
  | reconciling (scan : ReconcileScan)
  /-- The thread has ended with an exception. -/
  | dead

/-- What the worker alone keeps for the idle reconcile. -/
structure ReconcileMemory where
  lastScan : Option ℚ := none
  emptySince : String → Option ℚ := fun _ => none
  attemptedAt : String → Option ℚ := fun _ => none
  failures : String → String × Nat := fun _ => ("", 0)

/-- What a step of the worker is told from outside: `solved` is the result of the solver with its
mode, or none when it raises, and `lastFull` the version of the last full solve. -/
structure WorkerInput where
  tick : TickInput
  solved : Option (SolveResult × Option String)
  today : String
  lastFull : Option Nat
  idleGrace : ℚ

/-- One process, and the store that outlives it. `dropped` are the jobs of passes that raised. -/
structure JobRunner where
  state : RunnerState
  worker : WorkerAt
  memory : ReconcileMemory
  clients : Nat → ClientAt
  dropped : List String

def nonterminalJobs (db : Database) : List JobRow := db.jobs.filter JobRow.live

/-- A newer queued job of the same scenario. -/
def supersededBy (job other : JobRow) : Bool :=
  other.jobId ≠ job.jobId ∧ other.scenarioId = job.scenarioId ∧ other.status = .queued ∧
    job.targetSceneVersion < other.targetSceneVersion

/-- What follows a supersede scan that finds the job current. -/
def scanPassed (jobId : String) : Option JobRow → WorkerAt
  | none => .waiting jobId
  | some job => .execute job

/-- What follows one that does not: the next item, or the end of the dispatch. -/
def scanAborted : Option JobRow → WorkerAt
  | none => .idle
  | some _ => .scanEpochs .served

def scanStep (jobId : String) (dispatched : Option JobRow) (now : String) (s : RunnerState) :
    ScanAt → Option (RunnerState × WorkerAt)
  | .job =>
    match job? s.db jobId with
    | none => some (s, scanAborted dispatched)
    | some job =>
      if job.status ≠ .queued then some (s, scanAborted dispatched)
      else if JobRow.exact job then some (s, .scan jobId dispatched (.current job))
      else some (s, .scan jobId dispatched (.others job))
  | .current job =>
    -- `current_scene_version` raises where the scenario is missing
    (scenario? s.db job.scenarioId).map fun scenario =>
      if job.targetSceneVersion < scenario.sceneVersion then
        (s, .scan jobId dispatched (.finish job))
      else (s, scanPassed jobId dispatched)
  | .others job =>
    if (nonterminalJobs s.db).any (supersededBy job) then
      some (s, .scan jobId dispatched (.finish job))
    else some (s, scanPassed jobId dispatched)
  | .finish job =>
    some ({ s with db := (finishJob job.jobId .superseded now s.db).2 }, scanAborted dispatched)

/-- The settlement of the books that follows the finish of a job of the lane. -/
def settlement? (call : FinalizeCall) (mode : Option String) : Outcome → Option Settlement
  | .complete =>
    (exactLane? call.job).map fun marker =>
      if marker.reconcile = true ∨ mode = some "full" then .completed else .discharged
  | .failed =>
    match call.result.status with
    | .refused _ => (exactLane? call.job).map fun _ => .discharged
    | _ => none
  | .superseded => none

/-- A call of `_finalize` that ends here by an exception: the version of a scenario that is
missing, or a publication that is refused though the job runs. -/
def finalizeRaises (call : FinalizeCall) (db : Database) : FinalizeAt → Bool
  | .version => true
  | .publish => jobRunning db call.job.jobId
  | _ => false

/-- What follows the last store call of `_finalize`. -/
def finalizeEnd (call : FinalizeCall) (mode : Option String) : FinalizeAt → WorkerAt
  | .finish outcome =>
    ((settlement? call mode outcome).map (.settling call.job)).getD (.scanEpochs .served)
  | _ => .scanEpochs .served

/-! ### The idle reconcile -/

def reconcileAttemptsPerDay : Nat := 5

def scanThrottle : ℚ := 15

def attemptBackoff : ℚ := 600

/-- Nothing was minted today, or less often than the ceiling. -/
def ReconcileMemory.allows (memory : ReconcileMemory) (workspaceId today : String) (now : ℚ) :
    Bool :=
  let (day, failures) := memory.failures workspaceId
  ¬ (day = today ∧ reconcileAttemptsPerDay ≤ failures) ∧
    ∀ at_ ∈ memory.attemptedAt workspaceId, ¬ now - at_ < attemptBackoff

/-- One more job was minted today. -/
def ReconcileMemory.spend (memory : ReconcileMemory) (workspaceId today : String) :
    ReconcileMemory :=
  let (day, failures) := memory.failures workspaceId
  { memory with
    failures := Function.update memory.failures workspaceId
      (today, if day = today then failures + 1 else 1) }

def ReconcileMemory.attempt (memory : ReconcileMemory) (workspaceId : String) (now : ℚ) :
    ReconcileMemory :=
  { memory with attemptedAt := Function.update memory.attemptedAt workspaceId (some now) }

/-- The day is owned by a completion: the ledger of attempts starts afresh. -/
def ReconcileMemory.forgive (memory : ReconcileMemory) (workspaceId : String) : ReconcileMemory :=
  { memory with failures := Function.update memory.failures workspaceId ("", 0) }

/-- A long enough quiet, or a deep chain of revisions since the last full solve. -/
def eligible (grace now emptySince : ℚ) (sceneVersion : Nat) (lastFull : Option Nat) : Bool :=
  grace ≤ now - emptySince ∨ ∃ full ∈ lastFull, 50 < (sceneVersion : Int) - full

/-- The candidates of an idle scan: the workspaces with recoverable epochs or with a debt. -/
def reconcileScan (today : String) (now : ℚ) (s : RunnerState) : ReconcileScan where
  today
  now
  rest :=
    let epochs := recoverableEpochs s.db
    ((epochs.map (·.workspaceId) ++ workspacesOwingReconcile s.reconcile).dedup.insertionSort
      (· ≤ ·)).map fun w => (w, epochsOf w epochs)
  current := none

/-- One step of `_idle_reconcile_workspace`; `none` when the workspace is done. -/
def reconcileStep (input : WorkerInput) (scan : ReconcileScan) (workspaceId : String)
    (epochs : List EpochRow) (s : RunnerState) (memory : ReconcileMemory) :
    ReconcileAt → RunnerState × ReconcileMemory × Option ReconcileAt
  | .audience =>
    if exactLaneAudience workspaceId input.tick.watched s.db.jobs then
      (s, { memory with emptySince := Function.update memory.emptySince workspaceId none }, none)
    else if memory.emptySince workspaceId = none then
      (s, { memory with
        emptySince := Function.update memory.emptySince workspaceId (some scan.now) }, none)
    else (s, memory, some .books)
  | .books =>
    if (reconcileState workspaceId s.reconcile).1 = some scan.today then (s, memory, none)
    else if memory.allows workspaceId scan.today scan.now then (s, memory, some .scenario)
    else (s, memory, none)
  | .scenario =>
    match scenario? s.db workspaceId, memory.emptySince workspaceId with
    | some row, some since =>
      if eligible input.idleGrace scan.now since row.sceneVersion input.lastFull then
        (s, memory.attempt workspaceId scan.now, (tickStart epochs).map .tick)
      else (s, memory, none)
    | _, _ => (s, memory, none)
  | .tick place =>
    let (s', place') := tickStep workspaceId true input.tick s place
    let memory' := match place with
      | .put _ => memory.spend workspaceId scan.today
      | _ => memory
    (s', memory', place'.map .tick)

/-! ### The loop -/

def JobRunner.working (r : JobRunner) (state : RunnerState) (worker : WorkerAt) : JobRunner :=
  { r with state, worker }

/-- A pass over an item that raises is given up. -/
def JobRunner.drop (r : JobRunner) (jobId : String) : JobRunner :=
  { r with worker := .idle, dropped := jobId :: r.dropped }

/-- The next step of the worker. `none` where it waits for an event, or where the store call
raises whatever the store does. -/
def workerStep (input : WorkerInput) (r : JobRunner) : Option JobRunner :=
  let s := r.state
  match r.worker with
  | .down | .idle | .dead => none
  | .booting [] => some (r.working s (.scanEpochs .boot))
  | .booting (job :: rest) =>
    if job.status = .running then
      some (r.working { s with db := (requeueRunningJob job.jobId s.db).2 }
        (.requeued job.jobId rest))
    else some (r.working (s.put job.jobId) (.booting rest))
  | .requeued jobId rest => some (r.working (s.put jobId) (.booting rest))
  | .scanEpochs _ => some (r.working s (.tick (tickWork s.db)))
  | .tick work =>
    let (s', work') := work.step input.tick s
    some (r.working s' ((work'.map .tick).getD .idle))
  | .scan jobId dispatched place =>
    (scanStep jobId dispatched input.tick.now s place).map fun (s', worker) => r.working s' worker
  | .waiting jobId => some (r.working s (.dispatch jobId))
  | .dispatch jobId =>
    match job? s.db jobId with
    | none => some (r.working s (.scanEpochs .served))
    | some job =>
      some (r.working s (if job.status = .queued then .scenario job else .scanEpochs .served))
  | .scenario job =>
    some (r.working s (if (scenario? s.db job.scenarioId).isSome then
      .scan job.jobId (some job) .job else .missing job))
  | .missing job =>
    some (r.working { s with db := (finishJob job.jobId .failed input.tick.now s.db).2 }
      (.scanEpochs .served))
  | .execute job =>
    some (r.working { s with db := (markJobRunning job.jobId s.db).2 } (.solving job))
  | .solving job =>
    match input.solved with
    | none => some (r.working s (.unsolved job))
    | some (result, mode) =>
      let call : FinalizeCall := { job, result }
      some (r.working s (.finalizing call mode (finalizeStart call)))
  | .unsolved job =>
    some (r.working { s with db := (finishJob job.jobId .failed input.tick.now s.db).2 }
      (.scanEpochs .served))
  | .finalizing call mode place =>
    match finalizeStep call input.tick.now s.db place with
    | (db, some next) => some (r.working { s with db } (.finalizing call mode next))
    | (db, none) =>
      if finalizeRaises call db place then some (r.drop call.job.jobId)
      else some (r.working { s with db } (finalizeEnd call mode place))
  | .settling job .completed =>
    some { r.working
        { s with reconcile := markReconcileCompleted job.scenarioId input.today s.reconcile }
        (.scanEpochs .served) with
      memory := r.memory.forgive job.scenarioId }
  | .settling job .discharged =>
    some (r.working { s with reconcile := clearReconcileOwed job.scenarioId s.reconcile }
      (.scanEpochs .served))
  | .reconciling scan =>
    match scan.current with
    | some (workspaceId, epochs, place) =>
      let (s', memory, place') := reconcileStep input scan workspaceId epochs s r.memory place
      some { r.working s' (.reconciling
          { scan with current := place'.map fun place => (workspaceId, epochs, place) }) with
        memory }
    | none =>
      match scan.rest with
      | [] => some (r.working s .idle)
      | (workspaceId, epochs) :: rest =>
        some (r.working s (.reconciling
          { scan with rest, current := some (workspaceId, epochs, .audience) }))

/-- The job that the worker is at. -/
def WorkerAt.job? : WorkerAt → Option String
  | .scan jobId _ _ | .waiting jobId | .dispatch jobId => some jobId
  | .scenario job | .missing job | .execute job | .solving job | .unsolved job => some job.jobId
  | .finalizing call _ _ => some call.job.jobId
  | .settling job _ => some job.jobId
  | _ => none

/-- A store call of the worker that raises. The pass over an item is given up; a tick goes on with
the next workspace. Nothing catches what the first read of an idle tick raises, and at the start
of the process it ends the process. -/
def workerRaise (r : JobRunner) : Option JobRunner :=
  match r.worker with
  | .tick work => work.raise.map fun work => { r with worker := .tick work }
  | .reconciling scan =>
    match scan.current with
    | some (_, _, .tick (.put _)) => none
    | some _ => some { r with worker := .reconciling { scan with current := none } }
    | none => none
  | .scanEpochs .boot => none
  | .scanEpochs .poll => some { r with worker := .dead }
  | .scanEpochs .served => some { r with worker := .idle }
  | worker => worker.job?.map r.drop

/-! ## The process -/

inductive RunnerEvent where
  /-- `start` reads the jobs that the process before has left. -/
  | start
  | take
  /-- The queue stays empty for one poll. -/
  | poll
  /-- The idle reconcile begins its scan. -/
  | reconcile (today : String) (now : ℚ)
  | work (input : WorkerInput)
  | workFails
  /-- The sweep of the ledgers that follows a dispatch. -/
  | sweep (expired : IdempotencyRow → Bool) (eventTail : Nat)
  | call (client : Nat) (call : RunnerCall)
  | cancel (client : Nat) (jobId : String)
  | serve (client : Nat) (input : ClientInput)
  | serveFails (client : Nat)
  | crash

def JobRunner.client (r : JobRunner) (i : Nat) (place : ClientAt) : JobRunner :=
  { r with clients := Function.update r.clients i place }

/-- The job that a step of a thread would mint. -/
def RunnerEvent.minted? : RunnerEvent → Option String
  | .work input => some input.tick.jobId
  | .serve _ input => some input.tick.jobId
  | .call _ request => request.newJob?
  | _ => none

def scanDue (memory : ReconcileMemory) (now : ℚ) : Bool :=
  ∀ last ∈ memory.lastScan, ¬ now - last < scanThrottle

/-- One event; a job id is new where the store takes one. -/
def runnerStep (r : JobRunner) (event : RunnerEvent) : Option JobRunner :=
  if ∃ jobId ∈ event.minted?, (job? r.state.db jobId).isSome then none
  else match event with
  | .start =>
    match r.worker with
    | .down => some { r with worker := .booting (nonterminalJobs r.state.db) }
    | _ => none
  | .take =>
    match r.worker, r.state.queue with
    | .idle, jobId :: queue =>
      some (r.working { r.state with queue } (.scan jobId none .job))
    | _, _ => none
  | .poll =>
    match r.worker, r.state.queue with
    | .idle, [] => some { r with worker := .scanEpochs .poll }
    | _, _ => none
  | .reconcile today now =>
    match r.worker, r.state.queue with
    | .idle, [] =>
      if scanDue r.memory now then
        some { r with
          worker := .reconciling (reconcileScan today now r.state)
          memory := { r.memory with lastScan := some now } }
      else none
    | _, _ => none
  | .work input => workerStep input r
  | .workFails => workerRaise r
  | .sweep expired eventTail =>
    match r.worker with
    | .scanEpochs .served =>
      some { r with
        state := { r.state with db := (sweepRetention expired eventTail r.state.db).2 } }
    | _ => none
  | .call i call =>
    match r.clients i with
    | .free =>
      let (db, jobId) := call.run r.state.db
      let place : ClientAt := (jobId.map .funnel).getD .free
      some ({ r with state := { r.state with db } }.client i place)
    | _ => none
  | .cancel i jobId =>
    match r.clients i with
    | .free => some (r.client i (.cancelling jobId .read))
    | _ => none
  | .serve i input =>
    (clientStep input r.state (r.clients i)).map fun (state, place) =>
      { r with state }.client i place
  | .serveFails i => (clientRaise (r.clients i)).map (r.client i)
  | .crash =>
    some {
      state := { r.state with queue := [], attempted := fun _ => 0 }
      worker := .down
      memory := {}
      clients := fun _ => .free
      dropped := [] }

end Solweig.Runner
