import Solweig.Executor.TreeLog
import Solweig.Lib.Run

/-!
# The edit ledger

The rows and the event log of a scenario: tree edits, family edits, resets, publications and the
sweeps that prune the log, and how a legacy solve replays the events into a tree layer.
-/

namespace Solweig.Retention

open Solweig.Lib Solweig.Executor

/-! ## Trees of the API -/

structure TreeObject where
  treeId : String
  componentType : String
  u : Rat
  v : Rat
  heightM : Rat
  canopyDiameterM : Rat
  trunkRatio : Rat
  transmissivity : Rat
  deriving DecidableEq

structure Geometry where
  rows : Nat
  cols : Nat
  pixelSizeM : Rat
  originXM : Rat
  originYM : Rat

def uvToWorld (grid : Geometry) (u v : Rat) : Rat × Rat :=
  (grid.originXM + u * grid.cols * grid.pixelSizeM,
    grid.originYM - v * grid.rows * grid.pixelSizeM)

def specOf (grid : Geometry) (tree : TreeObject) : TreeSpec where
  treeId := tree.treeId
  xM := (uvToWorld grid tree.u tree.v).1
  yM := (uvToWorld grid tree.u tree.v).2
  heightM := tree.heightM
  canopyRadiusM := tree.canopyDiameterM / 2
  trunkRatio := tree.trunkRatio
  transmissivity := tree.transmissivity

/-- The spec, once it has passed its own checks. -/
def apiTreeToSpec (grid : Geometry) (tree : TreeObject) : Except TreeError TreeSpec := do
  postInit (specOf grid tree)
  pure (specOf grid tree)

/-! ## The route -/

inductive TreeOperation where
  | add
  | move
  | update
  | delete
  deriving DecidableEq

structure EditItem where
  operation : TreeOperation
  tree : Option TreeObject
  treeId : Option String

/-- Each names `edits[index]`. -/
inductive ApiError where
  | deleteNeedsTreeId (index : Nat)
  | needsTree (index : Nat) (operation : TreeOperation)
  | unknownTreeId (index : Nat) (treeId : String)
  | treeIdExists (index : Nat) (treeId : String)
  | componentType (index : Nat) (componentType : String)
  | uvRange (index : Nat) (field : String)
  | geometry (index : Nat) (error : TreeError)
  | heightRange (index : Nat)
  | canopyRange (index : Nat)
  | sceneVersionConflict (current : Nat)

def treePresets : List String := ["broad_canopy"]

/-- `_validate_tree`, with `validate_tree_preset` at its end. -/
def validateTree (grid : Geometry) (index : Nat) (tree : TreeObject) : Except ApiError Unit := do
  refuseIf (tree.componentType ∉ treePresets) (.componentType index tree.componentType)
  refuseIf (¬ (0 ≤ tree.u ∧ tree.u ≤ 1)) (.uvRange index "u")
  refuseIf (¬ (0 ≤ tree.v ∧ tree.v ≤ 1)) (.uvRange index "v")
  let spec ← (apiTreeToSpec grid tree).mapError (.geometry index)
  (validateTreeSpec spec).mapError (.geometry index)
  refuseIf (¬ (3 ≤ spec.heightM ∧ spec.heightM ≤ 40)) (.heightRange index)
  refuseIf (¬ (1 ≤ 2 * spec.canopyRadiusM ∧ 2 * spec.canopyRadiusM ≤ 30)) (.canopyRange index)

structure AppliedEdit where
  operation : TreeOperation
  treeId : String
  oldTree : Option TreeObject
  newTree : Option TreeObject

/-- The trees as the edits before left them, and the edits applied so far. -/
abbrev RouteState := Dict String TreeObject × List AppliedEdit

def routeEdit (grid : Geometry) (s : RouteState) (item : EditItem × Nat) :
    Except ApiError RouteState :=
  match item with
  | (⟨.delete, _, none⟩, index) => .error (.deleteNeedsTreeId index)
  | (⟨.delete, _, some treeId⟩, index) =>
    match s.1[treeId]? with
    | none => .error (.unknownTreeId index treeId)
    | some old => .ok (s.1.erase treeId, s.2 ++ [⟨.delete, treeId, some old, none⟩])
  | (⟨operation, none, _⟩, index) => .error (.needsTree index operation)
  | (⟨operation, some tree, _⟩, index) => do
    validateTree grid index tree
    if operation = .add then
      refuseIf (s.1[tree.treeId]? ≠ none) (.treeIdExists index tree.treeId)
      pure (s.1.insert tree.treeId tree, s.2 ++ [⟨.add, tree.treeId, none, some tree⟩])
    else
      refuseIf (s.1[tree.treeId]? = none) (.unknownTreeId index tree.treeId)
      pure (s.1.insert tree.treeId tree,
        s.2 ++ [⟨operation, tree.treeId, s.1[tree.treeId]?, some tree⟩])

def routeEdits (grid : Geometry) (trees : Dict String TreeObject) (items : List EditItem) :
    Except ApiError (List AppliedEdit) :=
  (items.zipIdx.foldlM (routeEdit grid) (trees, [])).map Prod.snd

/-! ## The store -/

inductive EventBody where
  | tree (edit : AppliedEdit)
  | reset
  /-- A universal edit: it carries no tree. -/
  | family (operation : String)

structure EditEvent where
  sequence : Nat
  baseSceneVersion : Nat
  body : EventBody

structure Scenario where
  sceneVersion : Nat
  editSequence : Nat
  ackedSequence : Nat
  trees : Dict String TreeObject
  events : List EditEvent
  /-- The events that sweeps have deleted. -/
  swept : List EditEvent

def Scenario.initial : Scenario := ⟨0, 0, 0, ∅, [], []⟩

/-- What an edit does to the rows. -/
def applyEdit (trees : Dict String TreeObject) (edit : AppliedEdit) : Dict String TreeObject :=
  if edit.operation = .delete then trees.erase edit.treeId
  else
    match edit.newTree with
    | some tree => trees.insert edit.treeId tree
    | none => trees

namespace Scenario

/-- The events of a batch take the sequences after the last one. -/
def newEvents (s : Scenario) (bodies : List EventBody) : List EditEvent :=
  bodies.zipIdx.map fun (body, index) => ⟨s.editSequence + 1 + index, s.sceneVersion, body⟩

def appendEvents (s : Scenario) (bodies : List EventBody) : Scenario :=
  { s with
    sceneVersion := s.sceneVersion + 1
    editSequence := s.editSequence + bodies.length
    events := s.events ++ s.newEvents bodies }

/-- The route and `commit_edits`, in the scene that the route read. -/
def commitEdits (grid : Geometry) (s : Scenario) (baseSceneVersion : Nat) (items : List EditItem) :
    Except ApiError Scenario := do
  let applied ← routeEdits grid s.trees items
  refuseIf (baseSceneVersion ≠ s.sceneVersion) (.sceneVersionConflict s.sceneVersion)
  pure { s.appendEvents (applied.map .tree) with trees := applied.foldl applyEdit s.trees }

def commitUniversalEdits (s : Scenario) (baseSceneVersion : Nat) (operations : List String) :
    Except ApiError Scenario := do
  refuseIf (baseSceneVersion ≠ s.sceneVersion) (.sceneVersionConflict s.sceneVersion)
  pure (s.appendEvents (operations.map .family))

def reset (s : Scenario) (baseSceneVersion : Option Nat) : Except ApiError Scenario := do
  refuseIf (∃ base ∈ baseSceneVersion, base ≠ s.sceneVersion) (.sceneVersionConflict s.sceneVersion)
  pure { s.appendEvents [.reset] with trees := ∅, ackedSequence := s.editSequence + 1 }

/-- A job publishes the edits up to its watermark. -/
def publish (s : Scenario) (editWatermark : Nat) : Scenario :=
  { s with ackedSequence := max s.ackedSequence editWatermark }

def Prunable (s : Scenario) (eventTail : Nat) (event : EditEvent) : Prop :=
  (event.sequence : Int) ≤ s.ackedSequence - eventTail

instance (s : Scenario) (eventTail : Nat) (event : EditEvent) :
    Decidable (s.Prunable eventTail event) :=
  inferInstanceAs (Decidable (_ ≤ _))

def sweepRetention (s : Scenario) (eventTail : Nat) : Scenario :=
  { s with
    events := s.events.filter fun event => ¬ s.Prunable eventTail event
    swept := s.swept ++ s.events.filter fun event => s.Prunable eventTail event }

end Scenario

inductive LedgerOp where
  | commit (baseSceneVersion : Nat) (items : List EditItem)
  | universal (baseSceneVersion : Nat) (operations : List String)
  | reset (baseSceneVersion : Option Nat)
  | publish (editWatermark : Nat)
  | sweep (eventTail : Nat)

/-- The watermark of a job is a sequence that the ledger has reached. -/
def ledgerStep (grid : Geometry) (s : Scenario) : LedgerOp → Option Scenario
  | .commit base items => (s.commitEdits grid base items).toOption
  | .universal base operations => (s.commitUniversalEdits base operations).toOption
  | .reset base => (s.reset base).toOption
  | .publish watermark => if watermark ≤ s.editSequence then some (s.publish watermark) else none
  | .sweep eventTail => some (s.sweepRetention eventTail)

/-! ## Replay -/

/-- `_replay_event` -/
def replayEvent (grid : Geometry) (layer : TreeLayer) (event : EditEvent) :
    Except TreeError TreeLayer :=
  match event.body with
  | .family _ => .ok layer
  | .reset =>
    layer.live.toList.foldlM (fun layer tree => layer.mutate (.deleteTree tree.2.treeId)) layer
  | .tree ⟨_, treeId, _, none⟩ => layer.mutate (.deleteTree treeId)
  | .tree ⟨_, _, _, some tree⟩ => do
    let spec ← apiTreeToSpec grid tree
    if layer.live[spec.treeId]? = none then layer.mutate (.addTree spec)
    else
      let moved ← layer.mutate (.moveTree spec.treeId spec.xM spec.yM)
      moved.mutate (.updateTree spec.treeId ⟨some spec.heightM, some spec.canopyRadiusM,
        some spec.trunkRatio, some spec.transmissivity⟩)

/-- The layer of a solve: the events of its request, from an empty layer. -/
def replay (grid : Geometry) (events : List EditEvent) : Except TreeError TreeLayer :=
  events.foldlM (replayEvent grid) .empty

/-- The solve sees the trees that the store reports. -/
def SeesRows (grid : Geometry) (s : Scenario) : Prop :=
  ∃ layer, replay grid s.events = .ok layer ∧
    ∀ treeId : String, layer.live[treeId]? = (s.trees[treeId]?).map (specOf grid)

/-! ## What the sweeps may take -/

def EditEvent.touches (treeId : String) (event : EditEvent) : Bool :=
  match event.body with
  | .tree edit => edit.treeId = treeId
  | .reset => true
  | .family _ => false

/-- The event leaves a tree in the rows. -/
def EditEvent.writes (event : EditEvent) : Bool :=
  match event.body with
  | .tree edit => edit.newTree.isSome
  | _ => false

def EditEvent.deletes (event : EditEvent) : Bool :=
  match event.body with
  | .tree edit => edit.newTree.isNone
  | _ => false

/-- A tree that was live after the last swept event is next touched by a reset or by an event that
holds the whole tree. -/
def Rewritten (s : Scenario) : Prop :=
  ∀ treeId, (s.swept.reverse.find? (·.touches treeId)).any (·.writes) = true →
    ∃ event ∈ s.events.find? (·.touches treeId), event.deletes = false

end Solweig.Retention
