import Mathlib.Algebra.Ring.Int.Defs
import Mathlib.Algebra.Ring.Rat
import Solweig.Planner.Deltas
import Solweig.Planner.Graph

/-!
# The planner

From one batch of validated edits to one plan: the checks, the scope of each dirty node and the
estimates. The registry and the safety policy are arguments of the planner.
-/

namespace Solweig.Planner

open Solweig.Lib

variable {V : Type} [DecidableEq V]

inductive PlanError where
  | emptyBatch
  | scenarios (scenarioIds : List String)
  | foreignGraph
  | staleEdit (editId : String) (base current : Nat)
  | gridMismatch
  | staleContext (revision current : Nat)
  | windSite
  | outOfSeries (times : List Nat)
  | registry (message : String)
  | editState (editId message : String)
  | notOwned (adapterId nodeId : String)
  | unknownSource (nodeId : String)
  | wrongFamily (nodeId : String)
  | windFenced
  | extensionFenced (adapterId : String)
  | delta (error : DeltaError)
  | refusedOutputs (names : List String)
  | unknownOutputs (names : List String)
  /-- The scope of a parent is looked up before it is known. -/
  | unresolved (nodeId : String)
  | invalidImpact (nodeId : String)
  | noCostModel (nodeId : String)

/-! ## Impacts -/

inductive SpatialScope where
  | none
  | windows
  | full
  deriving DecidableEq

inductive TemporalScope where
  | one
  | range
  | replay
  | all
  deriving DecidableEq

/-- The fields of a `NodeImpact`. -/
structure ImpactFields where
  nodeId : String
  spatialScope : SpatialScope
  readWindows : List RasterWindow
  writeWindows : List RasterWindow
  temporalScope : TemporalScope
  timeStart : Option Nat
  timeStop : Option Nat
  reason : String

/-- `__post_init__` -/
def ImpactFields.Valid (fields : ImpactFields) : Prop :=
  fields.nodeId ≠ "" ∧ fields.reason ≠ "" ∧
    (fields.spatialScope = .full → fields.readWindows = [] ∧ fields.writeWindows = []) ∧
    (fields.spatialScope = .windows → fields.writeWindows ≠ []) ∧
    (fields.temporalScope = .range → fields.timeStart.isSome ∧ fields.timeStop.isSome) ∧
    (fields.temporalScope = .one ∨ fields.temporalScope = .replay → fields.timeStart.isSome) ∧
    ∀ start ∈ fields.timeStart, ∀ stop ∈ fields.timeStop, start ≤ stop

instance (fields : ImpactFields) : Decidable fields.Valid :=
  inferInstanceAs (Decidable (_ ∧ _))

structure NodeImpact extends ImpactFields where
  valid : toImpactFields.Valid

def NodeImpact.make (fields : ImpactFields) : Except PlanError NodeImpact :=
  if h : fields.Valid then pure ⟨fields, h⟩ else throw (.invalidImpact fields.nodeId)

structure ImpactPlan where
  changedSources : List String
  nodeImpacts : List NodeImpact
  reusableNodes : List String
  fallbackReasons : List String
  estimatedMemoryBytes : Int
  estimatedWorkUnits : Rat
  sceneRevision : Nat
  transportWindow : Option RasterWindow

/-! ## What the planner is given -/

inductive AdapterStatus where
  | nativeInput
  | adapterRequired
  | fullOnlyInitially
  | scientificExtension
  | viewOnly
  deriving DecidableEq

structure AdapterMetadata where
  id : String
  status : AdapterStatus
  sourceNodes : List String
  operations : List String
  nominalSpatialScope : String
  producibleIncremental : List String := []

def AdapterMetadata.isFullSpatial (metadata : AdapterMetadata) : Bool :=
  "full".toList.isPrefixOf metadata.nominalSpatialScope.toList

structure Registry (V : Type) where
  getMetadata : String → Except String AdapterMetadata
  validateOperation : String → String → Except String Unit
  validateEditState : String → V → Except String Unit
  validateDelta : String → SourceDelta V → Except String Unit
  allMetadata : List AdapterMetadata

/-- The built-in adapters. -/
def builtinMetadata : List AdapterMetadata := [
  { id := "vegetation_geometry"
    status := .adapterRequired
    sourceNodes := ["vegetation_dsm"]
    operations := ["add", "move", "update", "delete"]
    nominalSpatialScope := "directional_windows" },
  { id := "building_geometry"
    status := .fullOnlyInitially
    sourceNodes := ["building_dsm"]
    operations := ["add", "move", "update", "delete", "raster_patch"]
    nominalSpatialScope := "conservative_windows_or_full" },
  { id := "terrain_dem"
    status := .fullOnlyInitially
    sourceNodes := ["dem"]
    operations := ["raster_patch", "sculpt", "reset"]
    nominalSpatialScope := "full" },
  { id := "landcover_surface"
    status := .adapterRequired
    sourceNodes := ["landcover"]
    operations := ["paint", "polygon_assign", "reset"]
    nominalSpatialScope := "windows" },
  { id := "meteorological_forcing"
    status := .adapterRequired
    sourceNodes := ["meteorology"]
    operations := ["update_time_row", "update_range", "preset", "reset"]
    nominalSpatialScope := "full_downstream_only" },
  { id := "selected_date_time"
    status := .adapterRequired
    sourceNodes := ["selected_date_time"]
    operations := ["select"]
    nominalSpatialScope := "full_downstream_only" },
  { id := "model_receptor_parameters"
    status := .adapterRequired
    sourceNodes := ["model_parameters"]
    operations := ["update", "reset"]
    nominalSpatialScope := "full_downstream_stage_specific" },
  { id := "dynamic_wind_from_geometry"
    status := .scientificExtension
    sourceNodes := ["building_dsm", "vegetation_dsm"]
    operations := ["rebuild"]
    nominalSpatialScope := "full" },
  { id := "output_view"
    status := .viewOnly
    sourceNodes := ["output_selection"]
    operations := ["select_layer", "compare", "legend", "cached_time"]
    nominalSpatialScope := "none"
    producibleIncremental :=
      ["utci", "tmrt", "shadow", "kup", "kdown", "lup", "ldown", "ta", "wind"] }]

/-- A registry of adapters, with its checks of states and deltas. -/
def Registry.ofMetadata (entries : List AdapterMetadata)
    (validateEditState : String → V → Except String Unit)
    (validateDelta : String → SourceDelta V → Except String Unit) : Registry V where
  getMetadata adapterId :=
    match entries.find? fun metadata => metadata.id = adapterId with
    | some metadata => pure metadata
    | none => throw ("unknown adapter " ++ adapterId)
  validateOperation adapterId operation :=
    refuseIf (∀ metadata ∈ entries, metadata.id = adapterId → operation ∉ metadata.operations)
      ("adapter " ++ adapterId ++ " does not support operation " ++ operation)
  validateEditState
  validateDelta
  allMetadata := entries.insertionSort fun a b => a.id ≤ b.id

structure LocalityDecision where
  allowed : Bool
  reason : String

structure SafetyPolicy where
  allowsLocal : String → List RasterWindow → Rat → LocalityDecision
  fullOnlyNodes : List String

/-- What a plan reads of a `SceneGraphState`. -/
structure PlannedState where
  /-- The graph of the state is the planner's own object. -/
  ownGraph : Bool
  sceneRevision : Nat

structure SiteContext where
  grid : RasterGrid
  sceneRevision : Nat
  availableTimes : List Nat := []
  hasWindCoefficients : Bool := false

structure EditPlanner (V : Type) where
  grid : RasterGrid
  graph : EditGraph
  registry : Registry V
  policy : SafetyPolicy
  allowWindExtension : Bool := false
  defaultTemporalSteps : Nat := 1
  stepsPos : 0 < defaultTemporalSteps

/-! ## Constants -/

/-- Layers per step and relative work. -/
def nodeExecutionCosts : List (String × Nat × Rat) := [
  ("relative_geometry", 2, 1),
  ("walls", 1, 1),
  ("wall_aspect", 1, 1),
  ("building_visibility", 8, 4),
  ("vegetation_visibility", 8, 4),
  ("svf", 2, 2),
  ("solar_atmospheric_state", 1, 1 / 2),
  ("time_shadow", 1, 3),
  ("radiation", 4, 6),
  ("surface_thermal_state", 1, 2),
  ("tmrt", 1, 1),
  ("utci", 1, 1 / 2),
  ("wbgt", 1, 1 / 2)]

def timeVaryingNodes : List String :=
  ["solar_atmospheric_state", "time_shadow", "radiation", "surface_thermal_state", "tmrt", "utci",
    "wbgt"]

def statefulNodes : List String := ["surface_thermal_state"]

def neverPlannedOutputs : List String := ["wbgt"]

def forcingSourceNodes : List String := ["meteorology", "selected_date_time"]

def sourceDeltaFamily : List (String × DeltaFamily) := [
  ("vegetation_dsm", .vegetationObject),
  ("building_dsm", .buildingMassing),
  ("landcover", .landCoverPaint),
  ("meteorology", .forcing),
  ("selected_date_time", .forcing),
  ("model_parameters", .modelParameter),
  ("output_selection", .outputSelection)]

def metVariableAffinity : List (String × String) := [
  ("air_temperature", "radiation_affecting"),
  ("humidity", "radiation_affecting"),
  ("pressure", "radiation_affecting"),
  ("radiation", "radiation_affecting"),
  ("uhii", "utci_only"),
  ("wind_speed", "utci_only")]

def bytesPerLayerElement : Nat := 4

def workUnitPixelSteps : Nat := 100000

/-- `sorted(set(…))` -/
def sortedSet {α : Type} [DecidableEq α] [LE α] [DecidableLE α] (items : List α) : List α :=
  items.dedup.insertionSort (· ≤ ·)

/-! ## Checks -/

/-- The union of the times that the edits request. -/
def requestedTimesOf (edits : List (ValidatedEdit V)) : List Nat :=
  sortedSet (edits.flatMap fun edit => edit.command.requestedTimes.getD [])

/-- The caller has looked that `availableTimes` is not empty. -/
def fenceRequestedTimes (edits : List (ValidatedEdit V)) (availableTimes : List Nat) :
    Except PlanError Unit :=
  let outOfSeries := (requestedTimesOf edits).filter fun time => time ∉ availableTimes
  refuseIf (outOfSeries ≠ []) (.outOfSeries outOfSeries)

namespace EditPlanner

variable (planner : EditPlanner V)

def checkBatchInvariants (edits : List (ValidatedEdit V)) (state : PlannedState) :
    Except PlanError Unit := do
  let scenarios := sortedSet (edits.map (·.command.scenarioId))
  refuseIf (scenarios.length ≠ 1) (.scenarios scenarios)
  refuseIf (¬ state.ownGraph) .foreignGraph
  edits.forM fun edit => do
    refuseIf (edit.command.baseSceneRevision ≠ state.sceneRevision)
      (.staleEdit edit.command.editId edit.command.baseSceneRevision state.sceneRevision)

def checkContext (edits : List (ValidatedEdit V)) (state : PlannedState) :
    Option SiteContext → Except PlanError Unit
  | none => pure ()
  | some context => do
    refuseIf (context.grid ≠ planner.grid) .gridMismatch
    refuseIf (context.sceneRevision ≠ state.sceneRevision)
      (.staleContext context.sceneRevision state.sceneRevision)
    refuseIf (context.hasWindCoefficients ∧ ¬ planner.allowWindExtension) .windSite
    if context.availableTimes ≠ [] then fenceRequestedTimes edits context.availableTimes
    else pure ()

def checkRegistryFacts (edits : List (ValidatedEdit V)) : Except PlanError Unit :=
  edits.forM fun edit => do
    let metadata ← (planner.registry.getMetadata edit.adapterId).mapError .registry
    (planner.registry.validateOperation edit.adapterId edit.command.operation).mapError .registry
    (edit.command.oldState.toList ++ edit.command.newState.toList).forM fun state =>
      (planner.registry.validateEditState edit.adapterId state).mapError
        (.editState edit.command.editId)
    (planner.registry.validateDelta edit.adapterId edit.delta).mapError
      (.editState edit.command.editId)
    refuseIf (edit.sourceNodeId ∉ metadata.sourceNodes) (.notOwned edit.adapterId edit.sourceNodeId)
    refuseIf (edit.sourceNodeId ∉ planner.graph.nodeIds) (.unknownSource edit.sourceNodeId)
    refuseIf (∃ family ∈ sourceDeltaFamily.lookup edit.sourceNodeId,
      edit.delta.content.family ≠ family) (.wrongFamily edit.sourceNodeId)

def checkWindFence (edits : List (ValidatedEdit V)) : Except PlanError Unit :=
  if planner.allowWindExtension then pure ()
  else edits.forM fun edit => do
    let metadata ← (planner.registry.getMetadata edit.adapterId).mapError .registry
    refuseIf (edit.sourceNodeId = "wind_coefficients") .windFenced
    refuseIf (metadata.status = .scientificExtension) (.extensionFenced edit.adapterId)

/-! ## Changed sources -/

/-- The deltas per source and adapter, coalesced, without those that cancel. -/
def changedDeltas (edits : List (ValidatedEdit V)) : Except PlanError (List (SourceDelta V)) := do
  let keys := (edits.map fun edit => (edit.sourceNodeId, edit.adapterId)).dedup.insertionSort
    fun a b => a.1 < b.1 ∨ (a.1 = b.1 ∧ a.2 ≤ b.2)
  let coalesced ← keys.mapM fun key =>
    (coalesceSourceDeltas ((edits.filter fun edit =>
      (edit.sourceNodeId, edit.adapterId) = key).map (·.delta))).mapError .delta
  pure (coalesced.filter fun delta => ¬ delta.isNoop)

def changedNodes (changed : List (SourceDelta V)) : List String :=
  sortedSet (changed.map (·.sourceNodeId))

def deltasOf (changed : List (SourceDelta V)) (nodeId : String) : List (SourceDelta V) :=
  changed.filter fun delta => delta.sourceNodeId = nodeId

def scientificSources (changed : List (SourceDelta V)) : List String :=
  (changedNodes changed).filter fun nodeId => planner.graph.kind? nodeId ≠ some .view

/-- `_explicit_forcing_times` -/
def explicitForcingTimes (sources : List String) (changed : List (SourceDelta V)) : List Nat :=
  sortedSet ((sources.filter fun nodeId => nodeId ∈ forcingSourceNodes).flatMap fun nodeId =>
    (deltasOf changed nodeId).flatMap fun delta => timeIndices delta.content.changes)

/-! ## Scopes -/

structure NodeScope where
  spatialScope : SpatialScope
  windows : List RasterWindow

def resolveSourceScope (nodeId : String) (deltas : List (SourceDelta V)) :
    Except PlanError (NodeScope × List String) := do
  let metadatas ← deltas.mapM fun delta =>
    (planner.registry.getMetadata delta.adapterId).mapError .registry
  let initialOnly := sortedSet
    ((metadatas.filter fun metadata => metadata.status = .fullOnlyInitially).map (·.id))
  let fullAdapters := sortedSet
    ((metadatas.filter fun metadata => metadata.isFullSpatial).map (·.id))
  let windows := (deltas.flatMap (·.spatialWindows)).map fun window =>
    window.clamp planner.grid.rows planner.grid.cols
  if initialOnly ≠ [] then
    pure (⟨.full, []⟩, ["source " ++ nodeId ++ ": adapter(s) " ++ ", ".intercalate initialOnly ++
      " are full_only_initially (no validated local implementation; " ++
      "preprocessing/site-wide invalidation) — full tile"])
  else if fullAdapters ≠ [] then
    pure (⟨.full, []⟩, ["source " ++ nodeId ++ ": full-spatial adapter " ++
      ", ".intercalate fullAdapters])
  else if windows.all (·.isEmpty) then
    pure (⟨.full, []⟩, ["source " ++ nodeId ++ ": no local windows declared; conservative full"])
  else
    pure (⟨.windows, RasterWindow.merge windows⟩, [])

/-- The scopes that the walk knows so far. -/
abbrev Resolved := String → Option NodeScope

def dirtyParents (dirty : List String) (nodeId : String) : List String :=
  (planner.graph.parents nodeId).filter fun parent => parent ∈ dirty

def parentScopes (dirty : List String) (resolved : Resolved) (nodeId : String) :
    Except PlanError (List (String × NodeScope)) :=
  (planner.dirtyParents dirty nodeId).mapM fun parent =>
    match resolved parent with
    | none => throw (.unresolved parent)
    | some scope => pure (parent, scope)

/-- `_resolve_derived_scope`: a full parent makes the node full. -/
def resolveDerivedScope (dirty : List String) (resolved : Resolved) (nodeId : String) :
    Except PlanError NodeScope := do
  let scopes ← planner.parentScopes dirty resolved nodeId
  if scopes.any fun scope => scope.2.spatialScope = .full then pure ⟨.full, []⟩
  else
    let merged := RasterWindow.merge (scopes.flatMap (·.2.windows))
    if merged.isEmpty then pure ⟨.full, []⟩ else pure ⟨.windows, merged⟩

/-- `_temporal_scope`. The times are sorted. -/
def temporalScope (nodeId : String) (isForcingDriven : Bool)
    (requestedTimes explicitTimes : List Nat) : TemporalScope × Option Nat × Option Nat :=
  if nodeId ∈ statefulNodes then
    (.replay, some 0,
      if explicitTimes ≠ [] then explicitTimes.max?
      else if requestedTimes ≠ [] then requestedTimes.max?
      else none)
  else if nodeId ∉ timeVaryingNodes then (.all, none, none)
  else
    let bounds :=
      if isForcingDriven ∧ explicitTimes ≠ [] then explicitTimes else requestedTimes
    match bounds.min?, bounds.max? with
    | some start, some stop =>
      if start = stop then (.one, some start, none) else (.range, some start, some stop)
    | _, _ => (.all, none, none)

/-- The scope of an impact, its reason, and what it adds to the reasons of the plan. -/
structure SpatialDecision where
  scope : NodeScope
  reason : String
  fallbackReasons : List String

/-- The first half of `_build_impact`. -/
def decideSpatial (nodeId : String) (nodeScope : NodeScope) (dirty : List String)
    (resolved : Resolved) : Except PlanError SpatialDecision :=
  if nodeScope.spatialScope = .windows then
    let dirtyFraction : Rat :=
      (nodeScope.windows.map (·.area)).sum / (planner.grid.areaPixels : Rat)
    let decision := planner.policy.allowsLocal nodeId nodeScope.windows dirtyFraction
    if ¬ decision.allowed then
      pure {
        scope := ⟨.full, []⟩
        reason := "full: policy denied local (" ++ decision.reason ++ ")"
        fallbackReasons := ["node " ++ nodeId ++ ": demoted to full by safety policy (" ++
          decision.reason ++ ")"] }
    else
      pure {
        scope := nodeScope
        reason := "windows via " ++ ",".intercalate (planner.dirtyParents dirty nodeId) ++
          "; policy: " ++ decision.reason
        fallbackReasons := [] }
  else do
    let scopes ← planner.parentScopes dirty resolved nodeId
    let causes := (scopes.filter fun scope => scope.2.spatialScope = .full).map (·.1)
    pure {
      scope := nodeScope
      reason := "full: " ++
        (if causes ≠ [] then "upstream " ++ ", ".intercalate causes ++ " is full-spatial"
        else "full-spatial source")
      fallbackReasons := [] }

/-- `_build_impact`, with the reasons that it adds. -/
def buildImpact (nodeId : String) (nodeScope : NodeScope) (dirty : List String)
    (resolved : Resolved) (isForcingDriven : Bool) (requestedTimes explicitTimes : List Nat) :
    Except PlanError (NodeImpact × List String) := do
  let decision ← planner.decideSpatial nodeId nodeScope dirty resolved
  let timing := temporalScope nodeId isForcingDriven requestedTimes explicitTimes
  let impact ← NodeImpact.make {
    nodeId
    spatialScope := decision.scope.spatialScope
    readWindows := if decision.scope.spatialScope = .windows then decision.scope.windows else []
    writeWindows := decision.scope.windows
    temporalScope := timing.1
    timeStart := timing.2.1
    timeStop := timing.2.2
    reason := decision.reason }
  pure (impact, decision.fallbackReasons)

/-! ## Outputs and estimates -/

/-- `_needed_outputs`: the requested outputs and the outputs that they need. -/
def neededOutputs (requestedOutputs : List String) : Except PlanError (List String) :=
  let nodeIds := planner.graph.nodeIds
  let outputs := nodeIds.filter fun nodeId => planner.graph.kind? nodeId = some .output
  let producible := planner.registry.allMetadata.flatMap (·.producibleIncremental)
  let unknown := requestedOutputs.filter fun name => name ∉ nodeIds ∧ name ∉ producible
  if unknown ≠ [] then throw (.unknownOutputs unknown)
  else if requestedOutputs = [] then
    pure (outputs.filter fun output => output ∉ neverPlannedOutputs)
  else
    let nodeRequests := requestedOutputs.filter fun name => name ∈ outputs
    pure ((closure planner.graph.parents nodeIds.length nodeRequests).filter fun nodeId =>
      nodeId ∈ outputs ∧ nodeId ∉ neverPlannedOutputs)

/-- The steps of an impact that has no bound of its own. -/
def unboundedSteps (requestedTimes : List Nat) (context : Option SiteContext) : Nat :=
  max (max (max 1 requestedTimes.length) planner.defaultTemporalSteps)
    (context.elim 0 (·.availableTimes.length))

def impactSteps (requestedTimes : List Nat) (context : Option SiteContext) (impact : NodeImpact) :
    Nat :=
  match impact.temporalScope, impact.timeStart, impact.timeStop with
  | .one, _, _ => 1
  | .range, some start, some stop => stop - start + 1
  | .replay, _, some stop => stop + 1
  | _, _, _ => planner.unboundedSteps requestedTimes context

def estimate (impacts : List NodeImpact) (requestedTimes : List Nat)
    (context : Option SiteContext) : Except PlanError (Int × Rat) :=
  impacts.foldlM (fun total impact =>
    if impact.spatialScope = .none then pure total
    else
      match nodeExecutionCosts.lookup impact.nodeId with
      | none => throw (.noCostModel impact.nodeId)
      | some (layers, work) =>
        let pixels : Int := if impact.spatialScope = .full then planner.grid.areaPixels
          else (impact.writeWindows.map (·.area)).sum
        let steps := planner.impactSteps requestedTimes context impact
        pure (total.1 + layers * pixels * steps * bytesPerLayerElement,
          total.2 + work * pixels * steps / workUnitPixelSteps)) (0, 0)

def transportWindow (impacts : List NodeImpact) : Option RasterWindow :=
  match impacts.flatMap (·.writeWindows) with
  | [] => none
  | windows => some (windows.foldl RasterWindow.union RasterWindow.empty)

/-! ## The narrow plan of the comfort variables -/

/-- The changes, when each of them moves a `utci_only` variable at one time. -/
def utciOnlyChanges? (changed : List (SourceDelta V)) : Option (List (String × Nat)) :=
  (changed.flatMap fun delta => delta.content.changes).mapM fun change =>
    if metVariableAffinity.lookup change.variable_ = some "utci_only" then
      change.timeIndex.map fun time => (change.variable_, time)
    else none

def showTimes (times : List Nat) : String :=
  "[" ++ ", ".intercalate (times.map toString) ++ "]"

/-- What is left when `_met_utci_fast_plan` returns `None`, or its plan. -/
inductive FastPlan where
  | none (reasons : List String)
  | plan (plan : ImpactPlan)

/-- The scope of sorted times. -/
def utciTiming (times : List Nat) : TemporalScope × Option Nat × Option Nat :=
  if times.length = 1 then (.one, times.min?, none) else (.range, times.min?, times.max?)

def metUtciImpact (names : List String) (times : List Nat) : ImpactFields where
  nodeId := "utci"
  spatialScope := .windows
  readWindows := [planner.grid.fullWindow]
  writeWindows := [planner.grid.fullWindow]
  temporalScope := (utciTiming times).1
  timeStart := (utciTiming times).2.1
  timeStop := (utciTiming times).2.2
  reason := "met utci_only affinity (" ++ ", ".intercalate names ++
    "): enters only the comfort calculation at t, so the closure narrows to " ++
    "utci at changed timesteps " ++ showTimes times ++ " (r3a Step 0 code-proven split; " ++
    "requested-but-unchanged timesteps stay cached — no stateful carry under affinity)"

def metUtciFastPlan (changed : List (SourceDelta V)) (sources keepOutputs : List String)
    (requestedTimes : List Nat) (fallbackReasons : List String) (state : PlannedState)
    (context : Option SiteContext) : Except PlanError FastPlan :=
  if sources ≠ ["meteorology"] then pure (.none [])
  else
    match utciOnlyChanges? (deltasOf changed "meteorology") with
    | none => pure (.none [])
    | some changes =>
      if "utci" ∈ planner.policy.fullOnlyNodes then
        pure (.none ["met utci-only batch did not narrow: policy pins utci to " ++
          "full-only (full_only_nodes) — capability contract overrides the affinity proof"])
      else if changes = [] then pure (.none [])
      else if "utci" ∉ keepOutputs then
        pure (.none ["met utci-only batch did not narrow: utci is not a kept output this batch"])
      else do
        let names := sortedSet (changes.map (·.1))
        let impact ← NodeImpact.make
          (planner.metUtciImpact names (sortedSet (changes.map (·.2))))
        let dirty := ["meteorology", "utci"] ++
          neverPlannedOutputs.filter fun output => output ∈ planner.graph.nodeIds
        let (memoryBytes, workUnits) ← planner.estimate [impact] requestedTimes context
        pure (.plan {
          changedSources := ["meteorology"]
          nodeImpacts := [impact]
          reusableNodes := sortedSet (planner.graph.nodeIds.filter fun nodeId => nodeId ∉ dirty)
          fallbackReasons := (fallbackReasons ++ ["met utci_only affinity (" ++
            ", ".intercalate names ++ "): radiation/shadow/thermal closure stays reusable " ++
            "(changed variables enter only the comfort calculation)"]).insertionSort (· ≤ ·)
          estimatedMemoryBytes := memoryBytes
          estimatedWorkUnits := workUnits
          sceneRevision := state.sceneRevision
          transportWindow := transportWindow [impact] })

/-! ## The plan -/

structure Walk where
  resolved : Resolved
  impacts : List NodeImpact
  reasons : List String

/-- What the walk over the nodes reads. -/
structure WalkData where
  dirty : List String
  forcingDirty : List String
  keepOutputs : List String
  requestedTimes : List Nat
  explicitTimes : List Nat

/-- The scope of a changed source is known, and the others inherit. -/
def nodeScopeOf (dirty : List String) (resolved : Resolved) (nodeId : String) :
    Except PlanError NodeScope :=
  match resolved nodeId with
  | some scope => pure scope
  | none => planner.resolveDerivedScope dirty resolved nodeId

def walkNode (data : WalkData) (walk : Walk) (nodeId : String) : Except PlanError Walk :=
  if nodeId ∉ data.dirty then pure walk
  else if planner.graph.kind? nodeId = some .output ∧ nodeId ∉ data.keepOutputs then
    pure { walk with
      reasons := walk.reasons ++ ["output " ++ nodeId ++ ": not requested in this batch; skipped"] }
  else do
    let nodeScope ← planner.nodeScopeOf data.dirty walk.resolved nodeId
    if ¬ planner.graph.isExecutable nodeId then pure walk
    else
      let (impact, reasons) ← planner.buildImpact nodeId nodeScope data.dirty walk.resolved
        (decide (nodeId ∈ data.forcingDirty)) data.requestedTimes data.explicitTimes
      pure {
        resolved := Function.update walk.resolved nodeId
          (some ⟨impact.spatialScope, impact.writeWindows⟩)
        impacts := walk.impacts ++ [impact]
        reasons := walk.reasons ++ reasons }

/-- The scopes of the changed sources. -/
def sourceWalk (sources : List String) (changed : List (SourceDelta V)) : Except PlanError Walk :=
  sources.foldlM (fun walk nodeId => do
    let (scope, reasons) ← planner.resolveSourceScope nodeId (deltasOf changed nodeId)
    pure { walk with
      resolved := Function.update walk.resolved nodeId (some scope)
      reasons := walk.reasons ++ reasons })
    { resolved := fun _ => none, impacts := [], reasons := [] }

/-- A forcing edit also serves the requested times of the batch. -/
def withRequested (explicitTimes requestedTimes : List Nat) : List Nat :=
  if explicitTimes ≠ [] ∧ requestedTimes ≠ [] then sortedSet (explicitTimes ++ requestedTimes)
  else explicitTimes

/-- The plan of a batch that changes some scientific source. -/
def planSources (edits : List (ValidatedEdit V)) (state : PlannedState)
    (context : Option SiteContext) (changed : List (SourceDelta V)) (sources : List String) :
    Except PlanError ImpactPlan := do
  let nodeIds := planner.graph.nodeIds
  let walk ← planner.sourceWalk sources changed
  let requestedTimes := requestedTimesOf edits
  let requestedOutputs := sortedSet (edits.flatMap (·.command.requestedOutputs))
  let refused := requestedOutputs.filter fun output => output ∈ neverPlannedOutputs
  refuseIf (refused ≠ []) (.refusedOutputs refused)
  let keepOutputs ← planner.neededOutputs requestedOutputs
  let never := if requestedOutputs = [] then
      (neverPlannedOutputs.filter fun output => output ∈ nodeIds).map fun output =>
        "output " ++ output ++ ": never planned (disabled in incremental; never promised — " ++
        "lead ruling 2026-09-02)"
    else []
  let walk := { walk with reasons := walk.reasons ++ never }
  let dirty := planner.graph.downstream sources
  let fast ← planner.metUtciFastPlan changed sources keepOutputs requestedTimes walk.reasons
    state context
  match fast with
  | .plan plan => pure plan
  | .none reasons =>
    let data : WalkData := {
      dirty
      forcingDirty := planner.graph.downstream
        (sources.filter fun nodeId => nodeId ∈ forcingSourceNodes)
      keepOutputs
      requestedTimes
      explicitTimes := withRequested (explicitForcingTimes sources changed) requestedTimes }
    let walk ← planner.graph.topologicalOrder.foldlM (planner.walkNode data)
      { walk with reasons := walk.reasons ++ reasons }
    let (memoryBytes, workUnits) ← planner.estimate walk.impacts requestedTimes context
    let views := (changedNodes changed).filter fun nodeId =>
      planner.graph.kind? nodeId = some .view
    pure {
      changedSources := changedNodes changed
      nodeImpacts := walk.impacts
      reusableNodes := sortedSet (nodeIds.filter fun nodeId => nodeId ∉ dirty ∧ nodeId ∉ views)
      fallbackReasons := walk.reasons.insertionSort (· ≤ ·)
      estimatedMemoryBytes := memoryBytes
      estimatedWorkUnits := workUnits
      sceneRevision := state.sceneRevision
      transportWindow := transportWindow walk.impacts }

def plan (edits : List (ValidatedEdit V)) (state : PlannedState)
    (context : Option SiteContext) : Except PlanError ImpactPlan := do
  refuseIf (edits.isEmpty) .emptyBatch
  checkBatchInvariants edits state
  planner.checkContext edits state context
  planner.checkRegistryFacts edits
  planner.checkWindFence edits
  let changed ← changedDeltas edits
  let sources := planner.scientificSources changed
  if sources.isEmpty then
    pure {
      changedSources := changedNodes changed
      nodeImpacts := []
      reusableNodes := sortedSet (planner.graph.nodeIds.filter fun nodeId =>
        nodeId ∉ changedNodes changed)
      fallbackReasons := if edits.any fun edit =>
          planner.graph.kind? edit.sourceNodeId ≠ some .view then
          ["batch coalesced to a no-op: every scientific edit cancels"]
        else []
      estimatedMemoryBytes := 0
      estimatedWorkUnits := 0
      sceneRevision := state.sceneRevision
      transportWindow := none }
  else planner.planSources edits state context changed sources

end EditPlanner

end Solweig.Planner
