import Solweig.Lib.Fold
import Solweig.Planner.Windows

/-!
# Source deltas

The typed changes of a source, and how the deltas of one source and adapter are coalesced. The
values of objects, forcings and parameters are of any type `V` whose equality is that of the
source.
-/

namespace Solweig.Planner

open Solweig.Lib

variable {V : Type} [DecidableEq V]

/-! ## Deltas -/

structure ObjectStateChange (V : Type) where
  objectId : String
  before : Option V
  after : Option V
  exists_ : ¬ (before = none ∧ after = none)

structure LandCoverPaintPatch where
  window : RasterWindow
  beforeClasses : List Int
  afterClasses : List Int

/-- `timeIndex = none` changes the whole series. -/
structure ForcingChange (V : Type) where
  variable_ : String
  timeIndex : Option Nat
  beforeValue : V
  afterValue : V

structure ModelParameterChange (V : Type) where
  name : String
  beforeValue : V
  afterValue : V

inductive DeltaFamily where
  | vegetationObject
  | buildingMassing
  | landCoverPaint
  | forcing
  | modelParameter
  | outputSelection
  deriving DecidableEq

inductive DeltaContent (V : Type) where
  | vegetationObject (objects : List (ObjectStateChange V)) (windows : List RasterWindow)
  | buildingMassing (objects : List (ObjectStateChange V)) (windows : List RasterWindow)
  | landCoverPaint (patches : List LandCoverPaintPatch)
  | forcing (changes : List (ForcingChange V))
  | modelParameter (parameters : List (ModelParameterChange V))
  | outputSelection (beforeLayers afterLayers : List String)

def DeltaContent.family : DeltaContent V → DeltaFamily
  | .vegetationObject _ _ => .vegetationObject
  | .buildingMassing _ _ => .buildingMassing
  | .landCoverPaint _ => .landCoverPaint
  | .forcing _ => .forcing
  | .modelParameter _ => .modelParameter
  | .outputSelection _ _ => .outputSelection

def DeltaContent.objects : DeltaContent V → List (ObjectStateChange V)
  | .vegetationObject objects _ | .buildingMassing objects _ => objects
  | _ => []

def DeltaContent.patches : DeltaContent V → List LandCoverPaintPatch
  | .landCoverPaint patches => patches
  | _ => []

def DeltaContent.changes : DeltaContent V → List (ForcingChange V)
  | .forcing changes => changes
  | _ => []

def DeltaContent.parameters : DeltaContent V → List (ModelParameterChange V)
  | .modelParameter parameters => parameters
  | _ => []

def DeltaContent.afterLayers : DeltaContent V → List String
  | .outputSelection _ afterLayers => afterLayers
  | _ => []

structure SourceDelta (V : Type) where
  sourceNodeId : String
  adapterId : String
  content : DeltaContent V

namespace SourceDelta

def isNoop (delta : SourceDelta V) : Bool :=
  match delta.content with
  | .vegetationObject objects _ => objects.isEmpty
  | .buildingMassing objects _ => objects.isEmpty
  | .landCoverPaint patches => patches.isEmpty
  | .forcing changes => changes.isEmpty
  | .modelParameter parameters => parameters.isEmpty
  | .outputSelection before after => before = after

def spatialWindows (delta : SourceDelta V) : List RasterWindow :=
  match delta.content with
  | .vegetationObject _ windows => windows
  | .buildingMassing _ windows => windows
  | .landCoverPaint patches => patches.map (·.window)
  | _ => []

end SourceDelta

/-- The changed indices, sorted. A change of the whole series adds none. -/
def timeIndices (changes : List (ForcingChange V)) : List Nat :=
  (changes.filterMap (·.timeIndex)).dedup.insertionSort (· ≤ ·)

/-! ## Coalescing -/

inductive DeltaError where
  | empty
  | families
  | sources
  | adapters
  | nonContiguous (objectId : String)
  /-- `sorted` compares an index with `None`. -/
  | unorderable (variable_ : String)

/-- The dict of first and last values per key, in the order of the first change of each key. -/
def firstAndLast {κ ω : Type} [DecidableEq κ] (entries : List (κ × ω × ω)) :
    List (κ × ω × ω) :=
  entries.foldl (fun merged entry =>
    if merged.any (·.1 = entry.1) then
      merged.map fun old => if old.1 = entry.1 then (old.1, old.2.1, entry.2.2) else old
    else merged ++ [entry]) []

/-- Each change of an object must start where the one before it ended. -/
def contiguous : List (ObjectStateChange V) → List (ObjectStateChange V) → Except DeltaError Unit
  | _, [] => pure ()
  | done, change :: rest => do
    match done.reverse.find? fun old => old.objectId = change.objectId with
    | none => pure ()
    | some old => if old.after = change.before then pure () else throw (.nonContiguous change.objectId)
    contiguous (done ++ [change]) rest

def coalesceObjectChanges (changes : List (ObjectStateChange V)) :
    Except DeltaError (List (ObjectStateChange V)) := do
  contiguous [] changes
  let merged := (firstAndLast (changes.map fun c => (c.objectId, c.before, c.after))).insertionSort
    fun a b => a.1 ≤ b.1
  pure (merged.filterMap fun (objectId, before, after) =>
    if h : ¬ (before = none ∧ after = none) ∧ before ≠ after then
      some { objectId, before, after, exists_ := h.1 }
    else none)

/-- `None` comes before or after no number. -/
def unorderable? (keys : List (String × Option Nat)) : Option String :=
  (keys.find? fun key => key.2 = none ∧ keys.any fun k => k.1 = key.1 ∧ k.2 ≠ none).map (·.1)

def coalesceForcing (changes : List (ForcingChange V)) :
    Except DeltaError (List (ForcingChange V)) :=
  let kept := (firstAndLast (changes.map fun c =>
    ((c.variable_, c.timeIndex), c.beforeValue, c.afterValue))).filter fun m => m.2.1 ≠ m.2.2
  match unorderable? (kept.map (·.1)) with
  | some variable_ => throw (.unorderable variable_)
  | none =>
    pure ((kept.insertionSort fun a b =>
      a.1.1 < b.1.1 ∨ (a.1.1 = b.1.1 ∧ a.1.2.getD 0 ≤ b.1.2.getD 0)).map
        fun m => ⟨m.1.1, m.1.2, m.2.1, m.2.2⟩)

def coalesceParameters (parameters : List (ModelParameterChange V)) :
    List (ModelParameterChange V) :=
  (((firstAndLast (parameters.map fun p => (p.name, p.beforeValue, p.afterValue))).filter
    fun m => m.2.1 ≠ m.2.2).insertionSort fun a b => a.1 ≤ b.1).map fun m => ⟨m.1, m.2.1, m.2.2⟩

/-- The windows of the deltas whose objects have not all cancelled. -/
def survivingWindows (deltas : List (SourceDelta V)) (objects : List (ObjectStateChange V)) :
    List RasterWindow :=
  deltas.flatMap fun delta =>
    if delta.content.objects ≠ [] ∧
        ∀ change ∈ delta.content.objects, change.objectId ∉ objects.map (·.objectId) then []
    else delta.spatialWindows

def coalesceSourceDeltas (deltas : List (SourceDelta V)) : Except DeltaError (SourceDelta V) :=
  match deltas with
  | [] => throw .empty
  | first :: rest => do
    rest.forM fun delta => do
      refuseIf (delta.content.family ≠ first.content.family) .families
      refuseIf (delta.sourceNodeId ≠ first.sourceNodeId) .sources
      refuseIf (delta.adapterId ≠ first.adapterId) .adapters
    let contents := deltas.map (·.content)
    match first.content with
    | .vegetationObject _ _ =>
      let objects ← coalesceObjectChanges (contents.flatMap (·.objects))
      pure { first with content := .vegetationObject objects (survivingWindows deltas objects) }
    | .buildingMassing _ _ =>
      let objects ← coalesceObjectChanges (contents.flatMap (·.objects))
      pure { first with content := .buildingMassing objects (survivingWindows deltas objects) }
    | .landCoverPaint _ =>
      pure { first with content := .landCoverPaint (contents.flatMap (·.patches)) }
    | .forcing _ =>
      let changes ← coalesceForcing (contents.flatMap (·.changes))
      pure { first with content := .forcing changes }
    | .modelParameter _ =>
      pure { first with
        content := .modelParameter (coalesceParameters (contents.flatMap (·.parameters))) }
    | .outputSelection before _ =>
      pure { first with
        content := .outputSelection before ((contents.getLast?.map (·.afterLayers)).getD []) }

/-! ## Commands -/

/-- The fields of a command that the planner reads. -/
structure EditCommand (V : Type) where
  editId : String
  scenarioId : String
  baseSceneRevision : Nat
  operation : String
  oldState : Option V
  newState : Option V
  requestedOutputs : List String
  requestedTimes : Option (List Nat)

structure ValidatedEdit (V : Type) where
  command : EditCommand V
  adapterId : String
  sourceNodeId : String
  delta : SourceDelta V
  sourceMatches : delta.sourceNodeId = sourceNodeId
  adapterMatches : delta.adapterId = adapterId

end Solweig.Planner
