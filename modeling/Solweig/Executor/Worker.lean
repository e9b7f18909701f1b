import Solweig.Executor.Site
import Solweig.Lib.Txn

/-!
# The worker

The job of the latest pending edits: its windows, its solve, and the publication of its patches
between the supersession checks.
-/

namespace Solweig.Executor

open Solweig.Lib Solweig.Planner

variable {P B G : Type}

/-! ## Staged and published state -/

structure PublicationWatermarks (P : Type) where
  ackedSequence : Nat
  forcingOverlay : Option Incremental.ForcingOverlay
  landcoverOverlay : Option LandCoverOverlay
  modelParameters : Option (ModelParameters P)

structure Worker (P : Type) where
  published : PublicationWatermarks P
  forcingOverlay : Option Incremental.ForcingOverlay
  forcingPresencePending : Bool
  landcoverOverlay : Option LandCoverOverlay
  landcoverDirtyOverride : Option (List RasterWindow)
  modelParameters : Option (ModelParameters P)
  requestedVariables : List String
  /-- The patch directories that stand under it. -/
  resultsRoot : List String

def Worker.initial : Worker P where
  published := ⟨0, none, none, none⟩
  forcingOverlay := none
  forcingPresencePending := false
  landcoverOverlay := none
  landcoverDirtyOverride := none
  modelParameters := none
  requestedVariables := ["utci", "tmrt", "shadow"]
  resultsRoot := []

/-- Non-empty and on the grid. -/
def guardWindow (grid : RasterGrid) (window : RasterWindow) : Except Raised Unit := do
  refuseIf (window.isEmpty = true) .emptyWindow
  refuseIf (¬ Incremental.onGrid grid window = true) (.windowOutsideGrid window)

def windowCovers (outer inner : RasterWindow) : Bool :=
  outer.rowStart ≤ inner.rowStart ∧ inner.rowStop ≤ outer.rowStop ∧
    outer.colStart ≤ inner.colStart ∧ inner.colStop ≤ outer.colStop

namespace Worker

def rollbackPending (worker : Worker P) (watermarks : PublicationWatermarks P) : Worker P :=
  { worker with
    published := watermarks
    landcoverDirtyOverride := none
    forcingPresencePending := false }

def adoptPublishedState (worker : Worker P) (watermarks : PublicationWatermarks P) : Worker P :=
  { worker with
    published := { watermarks with
      ackedSequence := max worker.published.ackedSequence watermarks.ackedSequence }
    landcoverDirtyOverride := none
    forcingPresencePending := false }

def stageForcingOverlay (worker : Worker P) (overlay : Option Incremental.ForcingOverlay)
    (batchPending : Bool) : Worker P :=
  { worker with forcingOverlay := overlay, forcingPresencePending := batchPending }

def stageLandcoverOverlay (site : Site P B G) (worker : Worker P) (overlay : Option LandCoverOverlay)
    (dirtyWindows : List RasterWindow) : Except Raised (Worker P) := do
  refuseIf (overlay.isSome ∧ site.hasLandcover = false) (.landcover "no landcover raster")
  ((overlay.getD []).map (·.window)).forM fun window =>
    refuseIf (¬ Incremental.onGrid site.grid window = true) (.windowOutsideGrid window)
  let windows := dirtyWindows.filter fun window => ¬ window.isEmpty
  windows.forM fun window =>
    refuseIf (¬ Incremental.onGrid site.grid window = true) (.windowOutsideGrid window)
  pure { worker with landcoverOverlay := overlay, landcoverDirtyOverride := some windows }

/-- An empty mapping is the run without parameters. -/
def stageModelParameters (site : Site P B G) (worker : Worker P)
    (modelParameters : Option (ModelParameters P)) : Except Raised (Worker P) := do
  (modelParameters.getD ∅).toList.forM fun (name, value) =>
    ((site.parameterValue name value).map fun _ => ()).mapError .parameter
  pure { worker with modelParameters := modelParameters.filter fun values => ¬ values.isEmpty }

/-! ## Pending work -/

/-- The edits that no published job has consumed, coalesced. -/
def pendingBatch (worker : Worker P) (layer : TreeLayer) :
    Except Raised (Option CoalescedEditBatch) :=
  let pending := layer.edits.filter fun edit => worker.published.ackedSequence < edit.sequence
  if pending = [] then .ok none
  else ((coalesceTreeEdits pending).mapError Raised.tree).map some

def forcingPending (worker : Worker P) : Bool :=
  worker.forcingPresencePending || decide (worker.forcingOverlay ≠ worker.published.forcingOverlay)

def landcoverPending (worker : Worker P) : Bool :=
  decide (worker.landcoverOverlay ≠ worker.published.landcoverOverlay)

def parametersPending [DecidableEq P] (worker : Worker P) : Bool :=
  decide (worker.modelParameters ≠ worker.published.modelParameters)

def landcoverDirtyWindows (worker : Worker P) : List RasterWindow :=
  match worker.landcoverDirtyOverride with
  | some windows => RasterWindow.merge windows
  | none =>
    RasterWindow.merge
      (((worker.landcoverOverlay.or worker.published.landcoverOverlay).getD []).map (·.window))

end Worker

/-! ## Patches -/

structure ResultPatch where
  jobId : String
  sceneRevision : Nat
  mode : String
  writeWindow : RasterWindow
  readWindow : RasterWindow
  variableNames : List String
  timeStart : Nat
  timeStop : Nat
  timeIndices : Option (List Nat)

inductive JobStatus where
  | published
  | superseded
  | noop
  deriving DecidableEq

/-- Who made an outcome, which its diagnostics tell. -/
inductive SolvePath where
  | worker
  | metFast
  | metWarm
  | building
  deriving DecidableEq

/-- The patches of a job with their paths. -/
structure JobOutcome where
  path : SolvePath
  status : JobStatus
  mode : Option String
  jobId : String
  sceneRevision : Nat
  patches : List (String × ResultPatch)

namespace JobOutcome

def patchPaths (outcome : JobOutcome) : List String := outcome.patches.map (·.1)

def writeWindows (outcome : JobOutcome) : List RasterWindow :=
  outcome.patches.map (·.2.writeWindow)

def readWindows (outcome : JobOutcome) : List RasterWindow := outcome.patches.map (·.2.readWindow)

def superseded (path : SolvePath) (jobId : String) (target : Nat) : JobOutcome :=
  ⟨path, .superseded, none, jobId, target, []⟩

def noop (path : SolvePath) (jobId : String) (target : Nat) : JobOutcome :=
  ⟨path, .noop, none, jobId, target, []⟩

def publishedAs (path : SolvePath) (mode jobId : String) (target : Nat)
    (patches : List (String × ResultPatch)) : JobOutcome :=
  ⟨path, .published, some mode, jobId, target, patches⟩

end JobOutcome

/-- Why a job stops before it is published, with the patches that it has renamed by then. -/
inductive JobStop where
  | superseded (patchPaths : List String)
  | raised (patchPaths : List String) (error : Raised)

/-- What a job has renamed when it stops. -/
def JobStop.patchPaths : JobStop → List String
  | .superseded patchPaths | .raised patchPaths _ => patchPaths

/-- `_check_not_superseded`: `revision` is what the provider says each time. -/
def checkNotSuperseded (revision : Moment → Int) (target : Nat) (patchPaths : List String)
    (moment : Moment) : Except JobStop Unit :=
  refuseIf (revision moment ≠ target) (.superseded patchPaths)

/-- `publish_staged_patch`, into a directory that is not there yet. -/
def publishPatch (site : Site P B G) (env : Env) (resultsRoot : List String) (index : Nat)
    (patch : ResultPatch) : Except Raised (String × ResultPatch) := do
  let path := site.patchPath patch.sceneRevision patch.jobId
  refuseIf (path ∈ resultsRoot) (.patchExists path)
  env.call (.renamePatch index)
  pure (path, patch)

/-- The renames of a job, each after its own look at the revision. -/
def publishPatches (site : Site P B G) (env : Env) (resultsRoot : List String)
    (revision : Moment → Int) (target : Nat) :
    List String → List (ResultPatch × Nat) → Except JobStop (List (String × ResultPatch))
  | _, [] => .ok []
  | patchPaths, (patch, index) :: rest => do
    checkNotSuperseded revision target patchPaths (.beforeRename index)
    let published ← (publishPatch site env (resultsRoot ++ patchPaths) index patch).mapError
      (.raised patchPaths)
    let others ← publishPatches site env resultsRoot revision target
      (patchPaths ++ [published.1]) rest
    pure (published :: others)

theorem publishPatch_patch {site : Site P B G} {env : Env} {resultsRoot : List String}
    {index : Nat} {patch : ResultPatch} {published : String × ResultPatch}
    (h : publishPatch site env resultsRoot index patch = .ok published) : published.2 = patch := by
  unfold publishPatch at h
  iterate 2 obtain ⟨_, -, h⟩ := except_bind_ok.mp h
  cases h
  rfl

theorem publishPatches_patches {site : Site P B G} {env : Env}
    {resultsRoot patchPaths : List String} {revision : Moment → Int} {target : Nat}
    {items : List (ResultPatch × Nat)} {published : List (String × ResultPatch)}
    (h : publishPatches site env resultsRoot revision target patchPaths items = .ok published) :
    published.map (·.2) = items.map (·.1) := by
  induction items generalizing patchPaths published with
  | nil =>
    cases h
    rfl
  | cons item items ih =>
    rw [publishPatches] at h
    obtain ⟨_, -, h⟩ := except_bind_ok.mp h
    obtain ⟨first, hfirst, h⟩ := except_bind_ok.mp h
    obtain ⟨others, hothers, h⟩ := except_bind_ok.mp h
    cases h
    rw [List.map_cons, List.map_cons, ih hothers, publishPatch_patch (except_mapError_ok.mp hfirst)]

def stagePatches (env : Env) (patches : List ResultPatch) : Except Raised Unit :=
  patches.zipIdx.forM fun (_, index) => env.call (.stagePatch index)

/-! ## The job -/

/-- The dirty windows of a job: the whole grid for forcing and parameters, else those of the
trees and of the paint. -/
def dirtyOf [DecidableEq P] (site : Site P B G) (env : Env) (worker : Worker P)
    (batch : Option CoalescedEditBatch) : Except Raised (List RasterWindow) :=
  if worker.forcingPending || worker.parametersPending then .ok [site.grid.fullWindow]
  else do
    let edited := batch.filter fun batch => ¬ batch.edits = []
    let treeDirty ← match edited with
      | none => pure []
      | some batch => do
        env.call .dirtyWindows
        pure (site.treeWindows batch)
    if worker.landcoverPending || (worker.landcoverDirtyOverride.getD []) ≠ [] then
      pure (RasterWindow.merge (treeDirty ++ worker.landcoverDirtyWindows))
    else pure treeDirty

def expandWindow (window : RasterWindow) (pixels : Nat) : RasterWindow where
  rowStart := window.rowStart - pixels
  rowStop := window.rowStop + pixels
  colStart := window.colStart - pixels
  colStop := window.colStop + pixels
  rows := by have := window.rows; omega
  cols := by have := window.cols; omega

def writeWindowsOf (site : Site P B G) (dirty : List RasterWindow) : List RasterWindow :=
  dirty.map fun window =>
    (expandWindow window site.writeMarginPixels).clamp site.grid.rows site.grid.cols

/-- `choose_recompute_mode` of the first merged window -/
def choosesFull (site : Site P B G) (fraction : Rat) (writeWindows : List RasterWindow) : Bool :=
  match RasterWindow.merge writeWindows with
  | [] => false
  | union :: _ => fraction ≤ union.area / (site.grid.areaPixels : Rat)

inductive SolveStop where
  | inputRefused
  | raised (error : Raised)

/-- `SolverInputError` is told from the other errors. -/
def Env.solve (env : Env) (call : Call) : Except SolveStop Unit :=
  match env.answer call with
  | .returns => .ok ()
  | .refusesInput _ => .error .inputRefused
  | .raises message => .error (.raised (.outside call message))

def solveLocal (site : Site P B G) (env : Env) (live : Dict String TreeSpec) (target : Nat)
    (variableNames : List String) (writeWindows : List RasterWindow) :
    Except SolveStop (List ResultPatch) :=
  writeWindows.zipIdx.mapM fun (writeWindow, index) => do
    env.solve (.readWindow index)
    let readWindow := site.readWindow live writeWindow
    (guardWindow site.grid writeWindow).mapError .raised
    (guardWindow site.grid readWindow).mapError .raised
    refuseIf (¬ windowCovers readWindow writeWindow = true)
      (.raised (.readMissesWrite readWindow writeWindow))
    env.solve (.solveLocal index)
    pure
      { jobId := if writeWindows.length = 1 then env.jobId else env.jobId ++ "-w" ++ toString index
        sceneRevision := target
        mode := "local"
        writeWindow
        readWindow
        variableNames
        timeStart := 0
        timeStop := site.timeSteps
        timeIndices := none }

def fullPatch (site : Site P B G) (jobId : String) (target : Nat) (variableNames : List String)
    (timeStart : Nat) : ResultPatch where
  jobId
  sceneRevision := target
  mode := "full"
  writeWindow := site.grid.fullWindow
  readWindow := site.grid.fullWindow
  variableNames
  timeStart
  timeStop := site.timeSteps
  timeIndices := none

def solveFull (site : Site P B G) (env : Env) (target : Nat) (variableNames : List String) :
    Except Raised (List ResultPatch) := do
  env.call .solveFull
  guardWindow site.grid site.grid.fullWindow
  pure [fullPatch site env.jobId target variableNames 0]

/-- The patches of a job and its mode. A local solve that refuses its input is solved in full. -/
def solveJob (site : Site P B G) (env : Env) (live : Dict String TreeSpec) (target : Nat)
    (variableNames : List String) (full : Bool) (writeWindows : List RasterWindow) :
    Except Raised (String × List ResultPatch) :=
  if full then (solveFull site env target variableNames).map fun patches => ("full", patches)
  else
    match solveLocal site env live target variableNames writeWindows with
    | .ok patches => .ok ("local", patches)
    | .error .inputRefused => (solveFull site env target variableNames).map fun patches => ("full", patches)
    | .error (.raised error) => .error error

/-- The job from its first supersession check on. `none` when no window is dirty. -/
def publishJob [DecidableEq P] (site : Site P B G) (env : Env) (worker : Worker P)
    (live : Dict String TreeSpec) (batch : Option CoalescedEditBatch) (revision : Moment → Int)
    (target : Nat) (fraction : Rat) : Except JobStop (Option JobOutcome) := do
  checkNotSuperseded revision target [] .beforeWindows
  let dirty ← (dirtyOf site env worker batch).mapError (.raised [])
  if dirty = [] then pure none
  else do
    let writeWindows := writeWindowsOf site dirty
    (writeWindows.forM (guardWindow site.grid)).mapError (.raised [])
    checkNotSuperseded revision target [] .beforeSolve
    (env.call .loadForcing).mapError (.raised [])
    let _ ← ((Incremental.resolveApplied worker.forcingOverlay site.baselineMet).mapError
      Raised.forcing).mapError (.raised [])
    let (mode, patches) ← (solveJob site env live target worker.requestedVariables
      (choosesFull site fraction writeWindows) writeWindows).mapError (.raised [])
    (stagePatches env patches).mapError (.raised [])
    checkNotSuperseded revision target [] .beforePublish
    let published ← publishPatches site env worker.resultsRoot revision target [] patches.zipIdx
    pure (some (.publishedAs .worker mode env.jobId target published))

/-! ## The results root -/

/-- The patches whose removal raises. -/
def leftovers (env : Env) (patchPaths : List String) : List String :=
  (patchPaths.zipIdx.filter fun (_, index) => ¬ (env.call (.discardPatch index)).isOk).map (·.1)

namespace Worker

/-- The renamed patches stand under the results root. -/
def keepPatches (worker : Worker P) (patchPaths : List String) : Worker P :=
  { worker with resultsRoot := worker.resultsRoot ++ patchPaths }

/-- `discard_published_patches`, as far as the removals return. -/
def discardPublishedPatches (worker : Worker P) (env : Env) (patchPaths : List String) : Worker P :=
  { worker with
    resultsRoot := worker.resultsRoot.filter fun path =>
      path ∉ patchPaths ∨ path ∈ leftovers env patchPaths }

end Worker

/-- What a published job has consumed. -/
def Worker.consume (worker : Worker P) (batch : Option CoalescedEditBatch) : Worker P :=
  { worker with
    published :=
      { ackedSequence := max worker.published.ackedSequence (batch.elim 0 (·.lastSequence))
        forcingOverlay := worker.forcingOverlay
        landcoverOverlay := worker.landcoverOverlay
        modelParameters := worker.modelParameters }
    forcingPresencePending := false }

/-- `ExactWorker.run` -/
def Worker.run [DecidableEq P] (site : Site P B G) (env : Env) (layer : TreeLayer)
    (revision : Moment → Int) (target : Nat) (fraction : Rat) : Txn (Worker P) Raised JobOutcome := do
  let worker ← Txn.get
  let batch ← Txn.ofExcept (worker.pendingBatch layer)
  if batch.all (fun batch => batch.edits = []) ∧ worker.forcingPending = false ∧
      worker.landcoverPending = false ∧ worker.parametersPending = false then
    pure (.noop .worker env.jobId target)
  else
    match publishJob site env worker layer.live batch revision target fraction with
    | .ok none => pure (.noop .worker env.jobId target)
    | .ok (some outcome) => do
      Txn.modify fun worker => (worker.consume batch).keepPatches outcome.patchPaths
      pure outcome
    | .error (.superseded patchPaths) => do
      Txn.modify fun worker =>
        (worker.keepPatches patchPaths).discardPublishedPatches env patchPaths
      pure (.superseded .worker env.jobId target)
    | .error (.raised patchPaths error) => do
      Txn.modify fun worker =>
        (worker.keepPatches patchPaths).discardPublishedPatches env patchPaths
      Txn.throw error

end Solweig.Executor
