import Solweig.Executor.Worker

/-!
# The plan executor

One batch from its committed deltas to its published patches: the staging seams, the four solve
paths, the record in the result store, and the rollback of a batch that does not publish.
-/

namespace Solweig.Executor

open Solweig.Lib Solweig.Planner

variable {P B G : Type}

/-! ## State -/

structure SceneState where
  sceneRevision : Nat
  nodeVersions : Dict String Nat

def bumpVersion (versions : Dict String Nat) (nodeId : String) : Dict String Nat :=
  versions.insert nodeId (versions.getD nodeId 0 + 1)

/-- `SceneGraphState.advance`: an unknown node raises. -/
def SceneState.advance (graph : EditGraph) (state : SceneState) (changed : List String) :
    Except Raised SceneState :=
  match changed.find? fun nodeId => nodeId ∉ graph.nodeIds with
  | some nodeId => .error (.unknownNode nodeId)
  | none => .ok
      { sceneRevision := state.sceneRevision + 1
        nodeVersions := ((graph.downstream changed).insertionSort (· ≤ ·)).foldl bumpVersion
          state.nodeVersions }

structure PlanExecutor (P B G : Type) where
  state : SceneState
  layer : TreeLayer
  worker : Worker P
  store : Incremental.TemporalResultStore
  appliedForcingOverlay : Option Incremental.ForcingOverlay
  appliedLandcoverOverlay : Option LandCoverOverlay
  appliedLandcoverResolved : Option G
  stagedLandcoverResolved : Option G
  stagedLandcoverValueDiff : List RasterWindow
  appliedModelParameters : Option (ModelParameters P)
  appliedMassingEdits : MassingFold B

def PlanExecutor.initial (site : Site P B G) : PlanExecutor P B G where
  state := ⟨0, ∅⟩
  layer := .empty
  worker := .initial
  store := ⟨some site.grid, ∅, some site.writerId⟩
  appliedForcingOverlay := none
  appliedLandcoverOverlay := none
  appliedLandcoverResolved := none
  stagedLandcoverResolved := none
  stagedLandcoverValueDiff := []
  appliedModelParameters := none
  appliedMassingEdits := []

abbrev Exec (P B G : Type) := Txn (PlanExecutor P B G) Raised

structure Request (P B : Type) where
  plan : ImpactPlan
  committedDeltas : List (SourceDelta (SourceValue P B))
  requestedVariables : Option (List String)

structure ExecutedPlan where
  path : Option SolvePath
  status : JobStatus
  mode : Option String
  jobId : Option String
  sceneRevision : Nat
  writeWindows : List RasterWindow
  readWindows : List RasterWindow
  patchPaths : List String
  storeKeys : List Incremental.TemporalResultKey
  requestedVariables : List String

def ExecutedPlan.unpublished (path : Option SolvePath) (status : JobStatus)
    (jobId : Option String) (sceneRevision : Nat) (requestedVariables : List String) :
    ExecutedPlan where
  path
  status
  mode := none
  jobId
  sceneRevision
  writeWindows := []
  readWindows := []
  patchPaths := []
  storeKeys := []
  requestedVariables

/-- What the staging seams hand to the solve paths. -/
structure Prepared (P B : Type) where
  plan : ImpactPlan
  committed : Committed P B
  requested : List String
  forcingOverlay : Option Incremental.ForcingOverlay
  landcoverOverlay : Option LandCoverOverlay
  modelParameters : Option (ModelParameters P)
  batchEdits : List TreeEdit
  massingFold : MassingFold B

/-! ## Checks of the plan -/

def executableSourceNodes : List String :=
  ["vegetation_dsm", "meteorology", "landcover", "building_dsm", "model_parameters"]

def scientificSources (graph : EditGraph) (plan : ImpactPlan) : List String :=
  plan.changedSources.filter fun nodeId => graph.kind? nodeId ≠ some .view

def checkIntegrable (graph : EditGraph) (plan : ImpactPlan) : Except Raised Unit :=
  (scientificSources graph plan).forM fun nodeId =>
    refuseIf (nodeId ∉ executableSourceNodes) (.notIntegrated nodeId)

def supportedVariables : List String := ["shadow", "tmrt", "utci"]

/-- The requested variables that patches carry, sorted. -/
def splitVariables (names : List String) : List String :=
  supportedVariables.filter fun name => name ∈ names

def variablesFromPlan (plan : ImpactPlan) : List String :=
  "utci" :: (plan.nodeImpacts.map (·.nodeId)).filter fun nodeId => nodeId ∈ ["utci", "tmrt"]

def requestedOf (request : Request P B) : List String :=
  splitVariables (match request.requestedVariables with
    | none => variablesFromPlan request.plan
    | some names => "utci" :: names)

/-! ## Staging -/

def stageWorker (stage : Worker P → Except Raised (Worker P)) : Exec P B G Unit := fun s =>
  match stage s.worker with
  | .ok worker => (.ok (), { s with worker })
  | .error error => (.error error, s)

/-- The grid that the land cover resolves to, of an overlay and its resolved grid. -/
def shownLandcover (site : Site P B G) (overlay : Option LandCoverOverlay) (resolved : G) : G :=
  if overlay.isNone then site.baselineLandcover else resolved

/-- `_stage_overlays` -/
def stageOverlays (site : Site P B G) (committed : Committed P B) :
    Exec P B G (Option LandCoverOverlay) := do
  let s ← Txn.get
  let fold ← Txn.ofExcept (effectiveLandcoverOverlay site s.appliedLandcoverOverlay committed)
  let strokes ← Txn.ofExcept (paintPatches committed)
  match fold with
  | none => do
    Txn.modify fun s => { s with
      stagedLandcoverValueDiff := []
      stagedLandcoverResolved := s.appliedLandcoverResolved }
    stageWorker fun worker => worker.stageLandcoverOverlay site s.appliedLandcoverOverlay
      (RasterWindow.merge (strokes.map (·.window)))
    pure s.appliedLandcoverOverlay
  | some patches => do
    let resolved ← Txn.ofExcept ((site.resolveLandcover patches).mapError .landcover)
    let overlay := site.coalesceOverlay patches resolved
    let diff := site.diffWindows (shownLandcover site overlay resolved)
      (shownLandcover site s.appliedLandcoverOverlay
        (s.appliedLandcoverResolved.getD site.baselineLandcover))
    Txn.modify fun s => { s with
      stagedLandcoverValueDiff := diff
      stagedLandcoverResolved := some resolved }
    stageWorker fun worker => worker.stageLandcoverOverlay site overlay
      (RasterWindow.merge (strokes.map (·.window) ++ diff))
    pure overlay

/-- The loader of the site forcing, with an overlay. -/
def loadSiteForcing (site : Site P B G) (env : Env) (overlay : Option Incremental.ForcingOverlay) :
    Except Raised Incremental.MetTable := do
  env.call .loadForcing
  (Incremental.resolveApplied overlay site.baselineMet).mapError .forcing

/-- The batch carries forcing beside another source. -/
def forcingPresent (committed : Committed P B) : Bool :=
  committed.contains Incremental.meteorologySourceNode &&
    committed.keys.any fun nodeId => nodeId ≠ Incremental.meteorologySourceNode

/-- The loader resolves the overlay of a batch that carries forcing, before any state advances. -/
def checkForcing (site : Site P B G) (env : Env) (committed : Committed P B)
    (overlay : Option Incremental.ForcingOverlay) : Except Raised Unit :=
  if committed.contains Incremental.meteorologySourceNode then
    (loadSiteForcing site env overlay).map fun _ => ()
  else .ok ()

/-- From the committed deltas to what the solve paths need. `none` when the batch folds to the
published state. -/
def prepare [DecidableEq P] (site : Site P B G) (env : Env) (request : Request P B)
    (committed : Committed P B) : Exec P B G (Option (Prepared P B)) := do
  Txn.modify fun s => { s with
    worker := { s.worker with requestedVariables := requestedOf request } }
  let s ← Txn.get
  let forcingOverlay ← Txn.ofExcept ((Incremental.effectiveForcingOverlay s.appliedForcingOverlay
    (forcingDeltas committed)).mapError .forcing)
  Txn.ofExcept (checkForcing site env committed forcingOverlay)
  Txn.modify fun s => { s with
    worker := s.worker.stageForcingOverlay forcingOverlay (forcingPresent committed) }
  let modelParameters ← Txn.ofExcept (physicsKernelArguments site s.appliedModelParameters committed)
  stageWorker fun worker => worker.stageModelParameters site modelParameters
  let landcoverOverlay ← stageOverlays site committed
  let batchEdits ← Txn.ofExcept (prepareVegetationBatch committed)
  let buildingEdits ← Txn.ofExcept (prepareBuildingBatch site committed)
  let s ← Txn.get
  if buildingEdits.isEmpty ∧ batchEdits = [] ∧ forcingOverlay = s.appliedForcingOverlay ∧
      s.stagedLandcoverValueDiff = [] ∧ modelParameters = s.appliedModelParameters then do
    Txn.modify fun s => { s with worker := s.worker.rollbackPending s.worker.published }
    pure none
  else
    pure (some
      { plan := request.plan
        committed
        requested := requestedOf request
        forcingOverlay
        landcoverOverlay
        modelParameters
        batchEdits
        massingFold := buildingEdits.foldl foldMassing s.appliedMassingEdits })

/-! ## The paths beside the worker -/

inductive PathStop where
  /-- `MetFastPathRefused`: another path takes the batch. -/
  | refused
  | raised (error : Raised)

def raising {α : Type} (x : Except Raised α) : Except PathStop α := x.mapError .raised

/-- What the provider says: without one it is the executor's own revision. -/
def currentRevision (site : Site P B G) (env : Env) (s : PlanExecutor P B G) (moment : Moment) : Int :=
  if site.externalProvider then env.revision moment else s.state.sceneRevision

/-- One patch in two phases, with one look at the revision between them. -/
def publishStaged (site : Site P B G) (env : Env) (resultsRoot : List String) (path : SolvePath)
    (revision : Moment → Int) (target : Nat) (patch : ResultPatch) : Except Raised JobOutcome := do
  env.call (.stagePatch 0)
  if revision .staged ≠ target then pure (.superseded path patch.jobId target)
  else do
    let published ← publishPatch site env resultsRoot 0 patch
    pure (.publishedAs path patch.mode patch.jobId target [published])

/-- `_met_fast_path_plan_shape` -/
def metFastPathPlanShape (grid : RasterGrid) (plan : ImpactPlan) : Bool :=
  match plan.nodeImpacts with
  | [impact] =>
    impact.nodeId = "utci" ∧ impact.spatialScope = .windows ∧ impact.writeWindows = [grid.fullWindow]
  | _ => false

def metUtciOnlyVariables : List String :=
  (metVariableAffinity.filter fun entry => entry.2 = "utci_only").map (·.1)

/-- The rows of the tables that differ. -/
def changedTimes (staged applied : Incremental.MetTable) : List Nat :=
  (List.range staged.rows).filter fun row =>
    (List.range staged.columns).any fun column => staged.cell row column ≠ applied.cell row column

/-- The forcing changes of a batch that has nothing else. -/
def metOnly? (committed : Committed P B) : Option (List (Planner.ForcingChange (SourceValue P B))) :=
  if committed.keys ≠ [Incremental.meteorologySourceNode] then none
  else
    match committed[Incremental.meteorologySourceNode]? with
    | some delta => if delta.content.family = .forcing then some delta.content.changes else none
    | none => none

/-- What both paths of the forcing require of the rest of the state. -/
def checkRest [DecidableEq P] (s : PlanExecutor P B G) (p : Prepared P B) : Except PathStop Unit := do
  refuseIf (s.stagedLandcoverValueDiff ≠ []) .refused
  refuseIf (p.modelParameters ≠ s.appliedModelParameters) .refused

/-- The rows of the forcing that the batch changes. -/
def forcingRows (site : Site P B G) (env : Env) (s : PlanExecutor P B G)
    (overlay : Option Incremental.ForcingOverlay) : Except PathStop (List Nat) := do
  raising (env.call .loadBaseline)
  let staged ← raising ((Incremental.resolveApplied overlay site.baselineMet).mapError .forcing)
  let applied ← raising
    ((Incremental.resolveApplied s.appliedForcingOverlay site.baselineMet).mapError .forcing)
  pure (changedTimes staged applied)

/-- The store covers the node on the whole grid at this time. -/
def servedInFull (site : Site P B G) (s : PlanExecutor P B G) (nodeId : String) (time : Nat) :
    Except PathStop (List Incremental.TemporalResultEntry) := do
  let coverage ← raising ((Incremental.windowCoverage s.store (nodeId, time)
    site.grid.fullWindow).mapError .store)
  refuseIf (coverage.status ≠ .full) .refused
  pure coverage.entries

/-- Some cell that no entry paints. -/
def unpainted (grid : RasterGrid) (entries : List Incremental.TemporalResultEntry) : Bool :=
  (List.range grid.rows).any fun row : Nat => (List.range grid.cols).any fun col : Nat =>
    entries.all fun entry => ¬ entry.holds (row, col)

/-- `_run_met_utci_fast_path` -/
def metUtciFastPath [DecidableEq P] (site : Site P B G) (env : Env) (s : PlanExecutor P B G)
    (p : Prepared P B) (target : Nat) : Except PathStop JobOutcome := do
  match metOnly? p.committed with
  | none => throw .refused
  | some changes => do
    refuseIf (∃ change ∈ changes, change.variable_ ∉ metUtciOnlyVariables) .refused
    checkRest s p
    let times ← forcingRows site env s p.forcingOverlay
    refuseIf (times = []) .refused
    times.forM fun time => do
      let entries ← servedInFull site s "tmrt" time
      raising (env.call .loadPatch)
      refuseIf (unpainted site.grid entries = true) .refused
    match env.answer .recomputeUtci with
    | .refusesInput _ => throw .refused
    | .raises message => throw (.raised (.outside .recomputeUtci message))
    | .returns =>
      raising (publishStaged site env s.worker.resultsRoot .metFast (currentRevision site env s) target
        { jobId := env.jobId
          sceneRevision := target
          mode := "local"
          writeWindow := site.grid.fullWindow
          readWindow := site.grid.fullWindow
          variableNames := ["utci"]
          timeStart := times.head?.getD 0
          timeStop := times.getLast?.getD 0 + 1
          timeIndices := some times })

def resultNode (variableName : String) : String :=
  if variableName = "shadow" then "time_shadow" else variableName

/-- `_run_met_warm_sparse_path`. The checkpoint that it resumes from changes only how much is
solved. -/
def metWarmSparsePath [DecidableEq P] (site : Site P B G) (env : Env) (s : PlanExecutor P B G)
    (p : Prepared P B) (target : Nat) : Except PathStop JobOutcome := do
  match metOnly? p.committed with
  | none => throw .refused
  | some _ => do
    checkRest s p
    raising (env.call .loadForcing)
    let times ← forcingRows site env s s.worker.forcingOverlay
    match times with
    | [] => throw .refused
    | first :: _ => do
      refuseIf (first = 0) .refused
      s.worker.requestedVariables.forM fun name => (List.range first).forM fun time => do
        let _ ← servedInFull site s (resultNode name) time
      raising (env.call .solveWarm)
      raising (publishStaged site env s.worker.resultsRoot .metWarm (currentRevision site env s) target
        (fullPatch site env.jobId target s.worker.requestedVariables first))

def buildingChainVariables : List String := ["utci", "tmrt", "shadow"]

/-- `_regenerate_building_chain`: it asks the executor's own revision, twice. -/
def regenerateBuildingChain (site : Site P B G) (env : Env) (s : PlanExecutor P B G) (target : Nat) :
    Except Raised JobOutcome := do
  let unsupported := s.worker.requestedVariables.filter fun name => name ∉ buildingChainVariables
  refuseIf (unsupported ≠ []) (.unsupportedVariables unsupported)
  env.call .regenerate
  if s.state.sceneRevision ≠ target then pure (.superseded .building env.jobId target)
  else
    publishStaged site env s.worker.resultsRoot .building (fun _ => s.state.sceneRevision) target
      (fullPatch site env.jobId target s.worker.requestedVariables 0)

/-! ## Dispatch -/

/-- The outcome of a forcing path, when one takes the batch. -/
def metPath [DecidableEq P] (site : Site P B G) (env : Env) (s : PlanExecutor P B G) (p : Prepared P B)
    (target : Nat) : Except Raised (Option JobOutcome) :=
  if p.batchEdits ≠ [] ∨ ¬ p.massingFold.isEmpty then .ok none
  else
    let path :=
      if metFastPathPlanShape site.grid p.plan then metUtciFastPath site env s p target
      else if p.committed.keys = [Incremental.meteorologySourceNode] then
        metWarmSparsePath site env s p target
      else .error .refused
    match path with
    | .ok outcome => .ok (some outcome)
    | .error .refused => .ok none
    | .error (.raised error) => .error error

def forceFull (plan : ImpactPlan) : Bool := plan.nodeImpacts.any fun impact => impact.spatialScope = .full

/-- The least threshold that `_run_worker` gives a plan with a full node. -/
def forcedFraction : Rat := 1 / 10 ^ 12

def runWorker [DecidableEq P] (site : Site P B G) (env : Env) (p : Prepared P B) (target : Nat) :
    Exec P B G JobOutcome := fun s =>
  let fraction := if forceFull p.plan then forcedFraction else site.fullRecomputeFraction
  let r := s.worker.run site env s.layer (currentRevision site env s) target fraction
  (r.1, { s with worker := r.2 })

/-- The patches that a path beside the worker has renamed. -/
def keepPatches (outcome : JobOutcome) : Exec P B G Unit :=
  Txn.modify fun s => { s with worker := s.worker.keepPatches outcome.patchPaths }

/-- The outcome of the path that takes the batch, and whether a forcing path published it. -/
def dispatch [DecidableEq P] (site : Site P B G) (env : Env) (p : Prepared P B) (target : Nat) :
    Exec P B G (JobOutcome × Bool) := do
  let s ← Txn.get
  match ← Txn.ofExcept (metPath site env s p target) with
  | some outcome => do
    keepPatches outcome
    pure (outcome, decide (outcome.status = .published))
  | none =>
    if p.massingFold.isEmpty then do
      let outcome ← runWorker site env p target
      pure (outcome, false)
    else do
      let outcome ← Txn.ofExcept (regenerateBuildingChain site env s target)
      keepPatches outcome
      pure (outcome, false)

/-! ## The record -/

/-- `_reconcile_scope`: the published windows must cover the plan's. -/
def reconcileScope (plan : ImpactPlan) (outcome : JobOutcome) : Except Raised Unit :=
  if outcome.mode = some "full" then .ok ()
  else
    let promised := plan.nodeImpacts.filter fun impact => impact.spatialScope = .full
    let windowed := plan.nodeImpacts.filter fun impact => impact.spatialScope ≠ .full
    let uncovered := fun (published windows : List RasterWindow) =>
      windows.filter fun window => ¬ published.any fun outer => windowCovers outer window
    let writes := uncovered outcome.writeWindows (windowed.flatMap (·.writeWindows))
    let reads := uncovered outcome.readWindows (windowed.flatMap (·.readWindows))
    refuseIf (¬ (promised.isEmpty ∧ writes = [] ∧ reads = []))
      (.scope (promised.map (·.nodeId)) writes reads)

/-- The timesteps that a patch carries. -/
def ResultPatch.steps (patch : ResultPatch) : List Nat :=
  match patch.timeIndices with
  | some times => times
  | none => List.range' patch.timeStart (patch.timeStop - patch.timeStart)

def patchEntry (path : String) (patch : ResultPatch) (nodeId : String) (time : Nat) :
    Incremental.TemporalResultEntry where
  nodeId
  timeIndex := time
  sceneRevision := patch.sceneRevision
  jobId := patch.jobId
  mode := patch.mode
  writeWindow := patch.writeWindow
  patchPath := some path

/-- One entry for each variable and timestep of each patch. -/
def temporalEntries (outcome : JobOutcome) : List Incremental.TemporalResultEntry :=
  outcome.patches.flatMap fun (path, patch) => patch.variableNames.flatMap fun name =>
    patch.steps.map fun time => patchEntry path patch (resultNode name) time

def recordTemporalEntries (site : Site P B G) (outcome : JobOutcome) :
    Exec P B G (List Incremental.TemporalResultKey) := fun s =>
  if temporalEntries outcome = [] then (.ok [], s)
  else
    match Incremental.publish s.store (temporalEntries outcome) (some site.writerId) with
    | .ok (store, keys) => (.ok keys, { s with store })
    | .error error => (.error (.store error), s)

/-- `_record_outcome`. The checkpoint that follows the record never fails the batch. -/
def recordOutcome (site : Site P B G) (env : Env) (p : Prepared P B) (outcome : JobOutcome) :
    Exec P B G ExecutedPlan :=
  match outcome.status with
  | .superseded =>
    pure (.unpublished (some outcome.path) .superseded (some outcome.jobId) outcome.sceneRevision
      p.requested)
  | .noop => Txn.throw .nothingPending
  | .published => do
    Txn.ofExcept (reconcileScope p.plan outcome)
    Txn.ofExcept (outcome.patches.zipIdx.forM fun (_, index) => env.call (.patchMetadata index))
    let storeKeys ← recordTemporalEntries site outcome
    pure
      { path := some outcome.path
        status := .published
        mode := outcome.mode
        jobId := some outcome.jobId
        sceneRevision := outcome.sceneRevision
        writeWindows := outcome.writeWindows
        readWindows := outcome.readWindows
        patchPaths := outcome.patchPaths
        storeKeys
        requestedVariables := p.requested }

/-! ## Commit and rollback -/

def replayBatch (edits : List TreeEdit) : Exec P B G Unit := fun s =>
  let r := replayTreeEdits s.layer edits
  (r.2.mapError .tree, { s with layer := r.1 })

/-- `_rollback_failed_batch`, to the state before the batch was dispatched. The failure is the
one of the undo. -/
def rollbackFailedBatch (env : Env) (replayed : List TreeEdit) (patchPaths : List String)
    (before s : PlanExecutor P B G) : PlanExecutor P B G × Option TreeError :=
  let undone := undoTreeEdits s.layer replayed
  ({ s with
      state := before.state
      layer := undone.1
      worker := (s.worker.rollbackPending before.worker.published).discardPublishedPatches env
        patchPaths },
    match undone.2 with
    | .ok () => none
    | .error failure => some failure)

/-- What a published batch leaves applied. A batch that published outside of the worker has it
adopt the publication. -/
def commitBatch (p : Prepared P B) (ackedSequence : Nat) (metPublished : Bool) : Exec P B G Unit := do
  Txn.modify fun s => { s with
    appliedForcingOverlay := p.forcingOverlay
    appliedLandcoverOverlay := p.landcoverOverlay
    appliedLandcoverResolved := s.stagedLandcoverResolved
    appliedModelParameters := p.modelParameters
    appliedMassingEdits := p.massingFold }
  if ¬ p.massingFold.isEmpty ∨ metPublished then do
    let s ← Txn.get
    let pending ← Txn.ofExcept (s.worker.pendingBatch s.layer)
    let edited := pending.filter fun batch => ¬ batch.edits = []
    Txn.modify fun s => { s with
      worker := s.worker.adoptPublishedState
        { ackedSequence := max ackedSequence (edited.elim 0 (·.lastSequence))
          forcingOverlay := p.forcingOverlay
          landcoverOverlay := p.landcoverOverlay
          modelParameters := p.modelParameters } }

/-- Dispatch and record; whether a forcing path published goes with the result, and what the batch
has published with an error. -/
def attemptBatch [DecidableEq P] (site : Site P B G) (env : Env) (p : Prepared P B) (target : Nat) :
    Txn (PlanExecutor P B G) (Raised × List String) (ExecutedPlan × Bool) := fun s =>
  match dispatch site env p target s with
  | (.error error, s) => (.error (error, []), s)
  | (.ok (outcome, metPublished), s) =>
    match recordOutcome site env p outcome s with
    | (.error error, s) => (.error (error, outcome.patchPaths), s)
    | (.ok executed, s) => (.ok (executed, metPublished), s)

/-- A prepared batch in the advanced scene: replay, dispatch and record, then commit or rollback. -/
def executePrepared [DecidableEq P] (site : Site P B G) (env : Env) (p : Prepared P B) :
    Exec P B G ExecutedPlan := fun before =>
  match before.state.advance site.graph p.plan.changedSources with
  | .error error => (.error error, before)
  | .ok state =>
    let target := state.sceneRevision
    match replayBatch p.batchEdits { before with state } with
    | (.error error, s) => (.error error, (rollbackFailedBatch env [] [] before s).1)
    | (.ok (), s) =>
      match attemptBatch site env p target s with
      | (.error (error, patchPaths), s) =>
        (.error error, (rollbackFailedBatch env p.batchEdits patchPaths before s).1)
      | (.ok (executed, metPublished), s) =>
        if executed.status = .published then
          (do
            commitBatch p before.worker.published.ackedSequence metPublished
            pure executed : Exec P B G ExecutedPlan) s
        else
          match rollbackFailedBatch env p.batchEdits executed.patchPaths before s with
          | (s, none) => (.ok executed, s)
          | (s, some failure) => (.error (.rollback failure), s)

/-- `PlanExecutor.execute_plan` -/
def executePlan [DecidableEq P] [DecidableEq B] (site : Site P B G) (env : Env)
    (request : Request P B) : Exec P B G ExecutedPlan := do
  Txn.ofExcept (checkIntegrable site.graph request.plan)
  let s ← Txn.get
  Txn.refuseIf (request.plan.sceneRevision ≠ s.state.sceneRevision)
    (.stalePlan request.plan.sceneRevision s.state.sceneRevision)
  let committed ← Txn.ofExcept (groupDeltas request.committedDeltas)
  if scientificSources site.graph request.plan = [] then
    pure (.unpublished none .noop none s.state.sceneRevision [])
  else
    match ← prepare site env request committed with
    | none => pure (.unpublished none .noop none s.state.sceneRevision (requestedOf request))
    | some p => executePrepared site env p

end Solweig.Executor
