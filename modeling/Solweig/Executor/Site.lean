import Solweig.Executor.TreeLog
import Solweig.Incremental.Forcing
import Solweig.Incremental.TemporalStore
import Solweig.Lib.Ordered
import Solweig.Planner.Plan

/-!
# What the executor is given

The site and its physics, the answers of the calls that a batch makes, and how the committed
deltas of a source become edits and overlays. The physics and the raster checks are functions of
the site, and every theorem holds for all of them.
-/

namespace Solweig.Executor

open Solweig.Lib Solweig.Planner

/-- The properties of a tree that a delta carries. -/
structure TreeProperties where
  xM : Rat
  yM : Rat
  heightM : Rat
  canopyRadiusM : Rat
  trunkRatio : Rat
  deriving DecidableEq

/-- What an object, a forcing or a parameter is before or after a change. -/
inductive SourceValue (P B : Type) where
  | tree (properties : TreeProperties)
  | building (spec : B)
  | forcing (value : Option Incremental.ForcingValue)
  | parameter (value : P)
  deriving DecidableEq

deriving instance DecidableEq for LandCoverPaintPatch

instance : DecidableEq Incremental.ForcingOverlay := fun a b =>
  decidable_of_iff (a.changes = b.changes) (by
    cases a
    cases b
    simp)

/-! ## Calls -/

/-- The calls of a batch that may raise. -/
inductive Call where
  | loadForcing
  | loadBaseline
  | dirtyWindows
  | readWindow (index : Nat)
  | solveLocal (index : Nat)
  | solveFull
  | solveWarm
  | loadPatch
  | recomputeUtci
  | regenerate
  | stagePatch (index : Nat)
  | renamePatch (index : Nat)
  | patchMetadata (index : Nat)
  | discardPatch (index : Nat)
  deriving DecidableEq

inductive Answer where
  | returns
  /-- `SolverInputError` of a solve, `ValueError` of the comfort step. -/
  | refusesInput (message : String)
  | raises (message : String)

/-- Where a job looks whether it is superseded. -/
inductive Moment where
  | beforeWindows
  | beforeSolve
  | beforePublish
  | beforeRename (index : Nat)
  | staged
  deriving DecidableEq

/-- What one batch meets: a new job id, how its calls end, and what the revision provider of the
caller says each time that it is asked. -/
structure Env where
  jobId : String
  answer : Call → Answer
  revision : Moment → Int

inductive Raised where
  | notIntegrated (nodeId : String)
  | stalePlan (revision current : Nat)
  | unknownNode (nodeId : String)
  | delta (error : DeltaError)
  | forcing (error : Incremental.SourceDeltaError)
  | foreignDelta (nodeId : String)
  | foreignAdapter (adapterId : String)
  | missingProperties (objectId : String)
  | tree (error : TreeError)
  | invalidSpec (treeId : String) (error : TreeError)
  | noVegetationChange
  | parameter (message : String)
  | building (message : String)
  | landcover (message : String)
  | emptyWindow
  | windowOutsideGrid (window : RasterWindow)
  | readMissesWrite (read write : RasterWindow)
  | unsupportedVariables (names : List String)
  | nothingPending
  | scope (full : List String) (writes reads : List RasterWindow)
  | store (error : Incremental.StoreError)
  | patchExists (path : String)
  | outside (call : Call) (message : String)
  | rollback (failure : TreeError)

def Env.call (env : Env) (call : Call) : Except Raised Unit :=
  match env.answer call with
  | .returns => .ok ()
  | .refusesInput message | .raises message => .error (.outside call message)

/-! ## The site -/

abbrev LandCoverOverlay := List LandCoverPaintPatch

/-- `P` are parameter values, `B` building specs, `G` land cover grids. -/
structure Site (P B G : Type) where
  grid : RasterGrid
  graph : EditGraph
  timeSteps : Nat
  writerId : String
  patchPath : Nat → String → String
  /-- The caller gave a revision provider. -/
  externalProvider : Bool
  fullRecomputeFraction : Rat
  writeMarginPixels : Nat
  baselineMet : Incremental.MetTable
  hasLandcover : Bool
  baselineLandcover : G
  parameterValue : String → P → Except String P
  buildingSpec : String → SourceValue P B → Except String B
  checkPaint : LandCoverPaintPatch → Except String Unit
  resolveLandcover : LandCoverOverlay → Except String G
  coalesceOverlay : LandCoverOverlay → G → Option LandCoverOverlay
  diffWindows : G → G → List RasterWindow
  treeWindows : CoalescedEditBatch → List RasterWindow
  readWindow : Dict String TreeSpec → RasterWindow → RasterWindow

variable {P B G : Type}

/-! ## Vegetation -/

def vegetationSourceNode : String := "vegetation_dsm"

def vegetationAdapterId : String := "vegetation_geometry"

/-- The transmissivity of a spec that does not say. -/
def defaultTransmissivity : Rat := 3 / 100

/-- `_spec_from_frozen` of the vegetation adapter -/
def specFromFrozen (treeId : String) : Option (SourceValue P B) → Except Raised (Option TreeSpec)
  | none => .ok none
  | some (.tree properties) => do
    let spec : TreeSpec :=
      { treeId
        xM := properties.xM
        yM := properties.yM
        heightM := properties.heightM
        canopyRadiusM := properties.canopyRadiusM
        trunkRatio := properties.trunkRatio
        transmissivity := defaultTransmissivity }
    (postInit spec).mapError .tree
    pure (some spec)
  | some _ => .error (.missingProperties treeId)

/-- The checks of a delta against the adapter and the source that it is for. -/
def checkOwner (adapterId nodeId : String) (delta : SourceDelta (SourceValue P B)) :
    Except Raised Unit := do
  refuseIf (delta.adapterId ≠ adapterId) (.foreignAdapter delta.adapterId)
  refuseIf (delta.sourceNodeId ≠ nodeId) (.foreignDelta delta.sourceNodeId)

def treeEditsFromDeltas (deltas : List (SourceDelta (SourceValue P B))) :
    Except Raised (List TreeEdit) := do
  deltas.forM (checkOwner vegetationAdapterId vegetationSourceNode)
  (deltas.flatMap (·.content.objects)).zipIdx.mapM fun (change, index) => do
    let oldTree ← specFromFrozen change.objectId change.before
    let newTree ← specFromFrozen change.objectId change.after
    (TreeEdit.make (index + 1) change.objectId oldTree newTree).mapError .tree

/-- `none` when the deltas cancel. -/
def coalescedBatchFromDeltas (deltas : List (SourceDelta (SourceValue P B))) :
    Except Raised (Option CoalescedEditBatch) := do
  let edits ← treeEditsFromDeltas deltas
  if edits = [] then pure none
  else do
    let batch ← (coalesceTreeEdits edits).mapError .tree
    pure (if batch.edits = [] then none else some batch)

/-- The deltas of a batch by source, coalesced. -/
abbrev Committed (P B : Type) := Dict String (SourceDelta (SourceValue P B))

def groupDeltas [DecidableEq P] [DecidableEq B] (deltas : List (SourceDelta (SourceValue P B))) :
    Except Raised (Committed P B) := do
  let keys := (deltas.map fun delta => (delta.sourceNodeId, delta.adapterId)).dedup.insertionSort
    fun a b => a.1 < b.1 ∨ (a.1 = b.1 ∧ a.2 ≤ b.2)
  let coalesced ← keys.mapM fun key =>
    ((coalesceSourceDeltas (deltas.filter fun delta =>
      (delta.sourceNodeId, delta.adapterId) = key)).mapError Raised.delta).map fun delta =>
        (key.1, delta)
  pure (Dict.ofEntries coalesced)

def validateEdit (edit : TreeEdit) : Except Raised Unit :=
  (edit.oldTree.toList ++ edit.newTree.toList).forM fun tree =>
    (validateTreeSpec tree).mapError (.invalidSpec edit.treeId)

/-- `_prepare_vegetation_batch` -/
def prepareVegetationBatch (committed : Committed P B) : Except Raised (List TreeEdit) := do
  let deltas := (committed.toList.map (·.2)).filter fun delta =>
    delta.content.family = .vegetationObject
  if deltas.isEmpty then pure []
  else do
    match ← coalescedBatchFromDeltas deltas with
    | none => throw .noVegetationChange
    | some batch => do
      batch.edits.forM validateEdit
      pure batch.edits

/-! ## Buildings -/

def buildingSourceNode : String := "building_dsm"

def buildingAdapterId : String := "building_geometry"

structure MassingEdit (B : Type) where
  buildingId : String
  before : Option B
  after : Option B
  present : ¬ (before = none ∧ after = none)
  deriving DecidableEq

/-- The edits of each building, in the order of their first appearance. -/
abbrev MassingFold (B : Type) := List (String × MassingEdit B)

def MassingEdit.fromChange (site : Site P B G) (change : ObjectStateChange (SourceValue P B)) :
    Except Raised (MassingEdit B) := do
  let spec := fun value => (site.buildingSpec change.objectId value).mapError Raised.building
  let before ← change.before.mapM spec
  let after ← change.after.mapM spec
  if h : ¬ (before = none ∧ after = none) then pure ⟨change.objectId, before, after, h⟩
  else throw (.building "a massing edit needs a before or an after spec")

/-- `_prepare_building_batch` -/
def prepareBuildingBatch (site : Site P B G) (committed : Committed P B) :
    Except Raised (List (MassingEdit B)) :=
  match committed[buildingSourceNode]? with
  | none => pure []
  | some delta => do
    refuseIf (delta.content.family ≠ .buildingMassing) (.foreignDelta buildingSourceNode)
    checkOwner buildingAdapterId buildingSourceNode delta
    delta.content.objects.mapM (MassingEdit.fromChange site)

/-- One edit of the fold: the first state stays, and a building that the session added and
deleted keeps a tombstone. -/
def foldMassing (fold : MassingFold B) (edit : MassingEdit B) : MassingFold B :=
  match fold.lookup edit.buildingId with
  | none => Ordered.assign fold (edit.buildingId, edit)
  | some current =>
    if h : edit.after = none ∧ current.before = none then
      Ordered.assign fold (edit.buildingId,
        ⟨edit.buildingId, edit.before, none, fun hnone => edit.present ⟨hnone.1, h.1⟩⟩)
    else
      Ordered.assign fold (edit.buildingId,
        ⟨edit.buildingId, current.before, edit.after, fun hnone => h hnone.symm⟩)

/-! ## Parameters, forcing and land cover -/

def parametersSourceNode : String := "model_parameters"

def parametersAdapterId : String := "model_receptor_parameters"

abbrev ModelParameters (P : Type) := Dict String P

/-- One change, checked again and written over the values so far. -/
def foldParameter (site : Site P B G) (values : ModelParameters P)
    (change : ModelParameterChange (SourceValue P B)) : Except Raised (ModelParameters P) :=
  match change.afterValue with
  | .parameter value => do
    let checked ← (site.parameterValue change.name value).mapError Raised.parameter
    pure (values.insert change.name checked)
  | _ => throw (.parameter change.name)

/-- `_physics_kernel_arguments` -/
def physicsKernelArguments (site : Site P B G) (accumulated : Option (ModelParameters P))
    (committed : Committed P B) : Except Raised (Option (ModelParameters P)) :=
  match committed[parametersSourceNode]? with
  | none => pure (accumulated.filter fun values => ¬ values.isEmpty)
  | some delta => do
    refuseIf (delta.content.family ≠ .modelParameter) (.foreignDelta parametersSourceNode)
    checkOwner parametersAdapterId parametersSourceNode delta
    let folded ← delta.content.parameters.foldlM (foldParameter site) (accumulated.getD ∅)
    pure (some folded)

def forcingChange (change : Planner.ForcingChange (SourceValue P B)) : Incremental.ForcingChange where
  variableName := change.variable_
  timeIndex := change.timeIndex
  beforeValue := match change.beforeValue with
    | .forcing value => value
    | _ => none
  afterValue := match change.afterValue with
    | .forcing value => value
    | _ => none

/-- The forcing deltas among the committed ones. -/
def forcingDeltas (committed : Committed P B) : List Incremental.ForcingDelta :=
  (committed[Incremental.meteorologySourceNode]?).toList.filterMap fun delta =>
    if delta.content.family = .forcing then
      some ⟨delta.sourceNodeId, delta.adapterId, delta.content.changes.map forcingChange⟩
    else none

def landcoverSourceNode : String := "landcover"

def landcoverAdapterId : String := "landcover_surface"

/-- The paint patches among the committed deltas. -/
def paintPatches (committed : Committed P B) : Except Raised (List LandCoverPaintPatch) :=
  match committed[landcoverSourceNode]? with
  | none => pure []
  | some delta =>
    if delta.content.family = .landCoverPaint then do
      checkOwner landcoverAdapterId landcoverSourceNode delta
      pure delta.content.patches
    else pure []

def hasPaint (committed : Committed P B) : Bool :=
  (committed[landcoverSourceNode]?).any fun delta => delta.content.family = .landCoverPaint

/-- `_effective_landcover_overlay`: the patches so far and those of the batch. -/
def effectiveLandcoverOverlay (site : Site P B G) (applied : Option LandCoverOverlay)
    (committed : Committed P B) : Except Raised (Option LandCoverOverlay) :=
  if ¬ hasPaint committed then pure applied
  else do
    let patches ← paintPatches committed
    patches.forM fun patch => (site.checkPaint patch).mapError .landcover
    let fold := (applied.getD []) ++ patches
    fold.forM fun patch => (site.checkPaint patch).mapError .landcover
    pure (some fold)

end Solweig.Executor
