import Solweig.Realtime.Reducer

/-!
# Commands of the exact lane

The bridge re-expresses the family deltas of a reduction as edit commands of the solver. A paint
of a set of cells becomes the paint of a window.
-/

namespace Solweig.Bridge

open Solweig.Lib Solweig.Realtime

/-- A half-open window of cells. -/
structure Window where
  rowStart : Int
  rowStop : Int
  colStart : Int
  colStop : Int
  deriving DecidableEq, Repr

def Window.Contains (w : Window) (cell : Key) : Prop :=
  w.rowStart ≤ cell.1 ∧ cell.1 < w.rowStop ∧ w.colStart ≤ cell.2 ∧ cell.2 < w.colStop

instance (w : Window) (cell : Key) : Decidable (w.Contains cell) :=
  inferInstanceAs (Decidable (_ ∧ _ ∧ _ ∧ _))

inductive EditState where
  | fields (fields : Dict String Json)
  | paint (window : Window) (classes : Int)
  deriving DecidableEq

structure EditCommand where
  editId : String
  scenarioId : String
  baseSceneRevision : Int
  adapterId : SourceFamily
  operation : String
  oldState : Option EditState
  newState : Option EditState
  requestedOutputs : List String
  requestedTimes : List Int
  deriving DecidableEq

/-- What the reducer and the bridge do not agree on. -/
inductive VersionSkew where
  | unmappableVerb
  | emptyPaint
  deriving DecidableEq, Repr

/-- The solve that a command is for. -/
structure LaneRun where
  scenarioId : String
  sceneRevision : Int
  consumedSeq : Nat
  requestedOutputs : List String
  requestedTimes : List Int

/-- `f"{family}-seq{consumed_seq}-{position}"` -/
def LaneRun.editId (run : LaneRun) (family : SourceFamily) (position : Nat) : String :=
  s!"{family.name}-seq{run.consumedSeq}-{position}"

/-- `_OBJECT_DELTA_OPERATIONS` -/
def objectDeltaOperation : ObjectChange → String
  | .add => "add"
  | .delete => "delete"
  | .move => "move"
  | .replace => "update"

/-- The state of an object with its id among the fields. -/
def withId (family : ObjectFamily) (target : String) (values : Dict String Json) : EditState :=
  .fields (values.foldl (fun d k v => d.insert k v)
    ((∅ : Dict String Json).insert (identityKey family) (.str target)))

def objectDeltaCommand (run : LaneRun) (family : ObjectFamily) (position : Nat) :
    DeltaCommand → Except VersionSkew EditCommand
  | .object operation target values oldValues => .ok {
      editId := run.editId (.object family) position
      scenarioId := run.scenarioId
      baseSceneRevision := run.sceneRevision
      adapterId := .object family
      operation := objectDeltaOperation operation
      oldState := match oldValues with
        | none => none
        | some old => if old.isEmpty then none else some (withId family target old)
      newState := if operation = .delete then none else some (withId family target values)
      requestedOutputs := run.requestedOutputs
      requestedTimes := run.requestedTimes }
  | _ => .error .unmappableVerb

/-- The smallest window around a cell and the others. -/
def windowAround (cell : Key) (cells : List Key) : Window where
  rowStart := (cells.map Prod.fst).foldl min cell.1
  rowStop := (cells.map Prod.fst).foldl max cell.1 + 1
  colStart := (cells.map Prod.snd).foldl min cell.2
  colStop := (cells.map Prod.snd).foldl max cell.2 + 1

def landcoverDeltaCommand (run : LaneRun) (position : Nat) :
    DeltaCommand → Except VersionSkew EditCommand
  | .paint _ (cell :: cells) code => .ok {
      editId := run.editId .landcoverSurface position
      scenarioId := run.scenarioId
      baseSceneRevision := run.sceneRevision
      adapterId := .landcoverSurface
      operation := "paint"
      oldState := none
      newState := some (.paint (windowAround cell cells) code)
      requestedOutputs := run.requestedOutputs
      requestedTimes := run.requestedTimes }
  | _ => .error .emptyPaint

/-- The commands of one family. Segment families and the view are not mapped yet. -/
def deltaCommands (run : LaneRun) (delta : FamilyDelta) : Except VersionSkew (List EditCommand) :=
  if delta.isNoop then .ok []
  else
    match delta.family with
    | .segment _ | .outputView => .ok []
    | .object family =>
      delta.commands.zipIdx.mapM fun c => objectDeltaCommand run family c.2 c.1
    | .landcoverSurface => delta.commands.zipIdx.mapM fun c => landcoverDeltaCommand run c.2 c.1

/-- The deltas come in the order of the family names. -/
def exactLaneCommands (run : LaneRun) (reduced : ReducedEpoch) :
    Except VersionSkew (List EditCommand) :=
  (reduced.familyDeltas.mapM (deltaCommands run)).map List.flatten

end Solweig.Bridge
