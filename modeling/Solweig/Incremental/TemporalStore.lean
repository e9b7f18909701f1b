import Mathlib.Data.Finset.Dedup
import Solweig.Incremental.Rectangles
import Solweig.Lib.Dict
import Solweig.Lib.Fold
import Solweig.Lib.Run

/-!
# Temporal result store

What is published for each node and timestep. A newer batch supersedes the cells that it
publishes, and each recorded entry keeps the rest of its window.
-/

namespace Solweig.Incremental

open Solweig.Lib Solweig.Planner

/-- A product node at a timestep. -/
abbrev TemporalResultKey := String × Int

structure TemporalResultEntry where
  nodeId : String
  timeIndex : Int
  sceneRevision : Int
  jobId : String
  mode : String
  writeWindow : RasterWindow
  patchPath : Option String
  deriving DecidableEq

def TemporalResultEntry.key (entry : TemporalResultEntry) : TemporalResultKey :=
  (entry.nodeId, entry.timeIndex)

def TemporalResultEntry.holds (entry : TemporalResultEntry) (cell : Cell) : Bool :=
  Incremental.holds entry.writeWindow cell

def validModes : List String := ["local", "full"]

inductive BatchFailure where
  | emptyNodeId
  | negativeTimeIndex (timeIndex : Int)
  | negativeRevision (sceneRevision : Int)
  | emptyJobId
  | invalidMode (mode : String)
  | outsideGrid (window : RasterWindow)
  | duplicateWindow (key : TemporalResultKey) (window : RasterWindow)
  | mixedRevisions (key : TemporalResultKey) (revisions : List Int)
  | mixedModes (key : TemporalResultKey) (modes : List String)

inductive StoreError where
  | emptyBatch
  | writer (bound : String) (writer : Option String)
  | invalidBatch (failures : List BatchFailure)
  | stale (key : TemporalResultKey) (revision recorded : Int)
  | revisionConflict (key : TemporalResultKey) (revision : Int)
  | differentContent (key : TemporalResultKey) (revision : Int)
  | emptyWindow
  | windowOutsideGrid (window : RasterWindow)

structure TemporalResultStore where
  grid : Option RasterGrid
  entries : Dict TemporalResultKey (List TemporalResultEntry)
  writer : Option String

/-! ## Checks of a batch -/

def onGrid (grid : RasterGrid) (window : RasterWindow) : Bool :=
  0 ≤ window.rowStart ∧ window.rowStop ≤ grid.rows ∧
    0 ≤ window.colStart ∧ window.colStop ≤ grid.cols

def fieldFailures (entry : TemporalResultEntry) : List BatchFailure :=
  (if entry.nodeId = "" then [.emptyNodeId] else []) ++
  (if entry.timeIndex < 0 then [.negativeTimeIndex entry.timeIndex] else []) ++
  (if entry.sceneRevision < 0 then [.negativeRevision entry.sceneRevision] else []) ++
  (if entry.jobId = "" then [.emptyJobId] else []) ++
  (if entry.mode ∉ validModes then [.invalidMode entry.mode] else [])

abbrev ByKey := Dict TemporalResultKey (List TemporalResultEntry)

/-- One entry of the batch: its failures, and its place under its key. -/
def checkEntry (grid : Option RasterGrid) (s : List BatchFailure × ByKey)
    (entry : TemporalResultEntry) : List BatchFailure × ByKey :=
  let failures := s.1 ++ fieldFailures entry
  if grid.any fun grid => ¬ onGrid grid entry.writeWindow then
    (failures ++ [.outsideGrid entry.writeWindow], s.2)
  else if (s.2.getD entry.key []).any fun prior => prior.writeWindow = entry.writeWindow then
    (failures ++ [.duplicateWindow entry.key entry.writeWindow], s.2)
  else (failures, s.2.push entry.key entry)

def revisionsOf (entries : List TemporalResultEntry) : List Int :=
  (entries.map (·.sceneRevision)).dedup

def modesOf (entries : List TemporalResultEntry) : List String := (entries.map (·.mode)).dedup

def keyFailures (key : TemporalResultKey) (batch : List TemporalResultEntry) : List BatchFailure :=
  (if 1 < (revisionsOf batch).length then
    [.mixedRevisions key ((revisionsOf batch).insertionSort (· ≤ ·))] else []) ++
  (if 1 < (modesOf batch).length then
    [.mixedModes key ((modesOf batch).insertionSort (· ≤ ·))] else [])

def checkBatch (grid : Option RasterGrid) (entries : List TemporalResultEntry) :
    List BatchFailure × ByKey :=
  let checked := entries.foldl (checkEntry grid) ([], ∅)
  (checked.1 ++ checked.2.toList.flatMap fun entry => keyFailures entry.1 entry.2, checked.2)

/-! ## Revisions -/

def windowSortKey (entry : TemporalResultEntry) : List Int :=
  [entry.writeWindow.rowStart, entry.writeWindow.colStart, entry.writeWindow.rowStop,
    entry.writeWindow.colStop]

def byWindow (entries : List TemporalResultEntry) : List TemporalResultEntry :=
  entries.insertionSort fun a b => windowSortKey a ≤ windowSortKey b

/-- Window, mode and patch path of each entry. The job is not among them. -/
def entryContent (entries : List TemporalResultEntry) : List (List Int × String × Option String) :=
  (byWindow entries).map fun entry => (windowSortKey entry, entry.mode, entry.patchPath)

def maxRevision : List TemporalResultEntry → Int
  | [] => 0
  | entry :: entries => entries.foldl (fun revision e => max revision e.sceneRevision) entry.sceneRevision

/-- The revision of a batch for one key. -/
def batchRevision (batch : List TemporalResultEntry) : Int :=
  (batch.head?.map (·.sceneRevision)).getD 0

def jobsOf (entries : List TemporalResultEntry) : Finset String := (entries.map (·.jobId)).toFinset

/-- What the batch records under a key, given what is recorded: the batch, or for a replay the
entries that stand there. -/
def settleKey (recorded : Option (List TemporalResultEntry)) (key : TemporalResultKey)
    (batch : List TemporalResultEntry) : Except StoreError (List TemporalResultEntry) :=
  match recorded with
  | none => .ok batch
  | some recorded =>
    let revision := batchRevision batch
    let newest := maxRevision recorded
    if revision < newest then .error (.stale key revision newest)
    else if newest < revision then .ok batch
    else
      let atRevision := recorded.filter fun entry => entry.sceneRevision = revision
      if jobsOf batch ≠ jobsOf atRevision then .error (.revisionConflict key revision)
      else if entryContent batch ≠ entryContent atRevision then
        .error (.differentContent key revision)
      else .ok recorded

/-! ## Publication -/

/-- What is left of an entry beside some windows. -/
def remainders (cuts : List RasterWindow) (entry : TemporalResultEntry) :
    List TemporalResultEntry :=
  if cuts.any fun window => entry.writeWindow.intersects window then
    (subtractWindows entry.writeWindow cuts).map fun window => { entry with writeWindow := window }
  else [entry]

def commitKey (recorded : Option (List TemporalResultEntry)) (batch : List TemporalResultEntry) :
    List TemporalResultEntry :=
  let ordered := byWindow batch
  match recorded with
  | none => ordered
  | some recorded =>
    if batchRevision ordered ≤ maxRevision recorded then ordered
    else byWindow (recorded.flatMap (remainders (ordered.map (·.writeWindow))) ++ ordered)

def settleAll (entries : Dict TemporalResultKey (List TemporalResultEntry)) (byKey : ByKey) :
    Except StoreError (List (TemporalResultKey × List TemporalResultEntry)) :=
  byKey.toList.mapM fun entry =>
    (settleKey entries[entry.1]? entry.1 entry.2).map fun batch => (entry.1, batch)

def commitAll (entries : Dict TemporalResultKey (List TemporalResultEntry))
    (settled : List (TemporalResultKey × List TemporalResultEntry)) :
    Dict TemporalResultKey (List TemporalResultEntry) :=
  settled.foldl (fun committed entry =>
    committed.insert entry.1 (commitKey entries[entry.1]? entry.2)) entries

/-- The store afterwards and the keys that are covered now. A batch that is refused writes
nothing. -/
def publish (store : TemporalResultStore) (batch : List TemporalResultEntry)
    (writer : Option String) : Except StoreError (TemporalResultStore × List TemporalResultKey) := do
  refuseIf (batch = []) .emptyBatch
  match store.writer with
  | some bound => refuseIf (writer ≠ some bound) (.writer bound writer)
  | none => pure ()
  let checked := checkBatch store.grid batch
  refuseIf (checked.1.length ≠ 0) (.invalidBatch checked.1)
  let settled ← settleAll store.entries checked.2
  pure ({ store with entries := commitAll store.entries settled, writer := store.writer.or writer },
    checked.2.keys)

/-! ## Coverage -/

inductive CoverageStatus where
  | absent
  | partialCover
  | full
  deriving DecidableEq

structure WindowCoverage where
  status : CoverageStatus
  entries : List TemporalResultEntry
  missingWindows : List RasterWindow
  coveredArea : Nat

def coveredArea (mask : Mask) (rows cols : Nat) : Nat :=
  ((List.range rows).flatMap fun row => (List.range cols).map fun col => mask row col).count true

def windowCoverage (store : TemporalResultStore) (key : TemporalResultKey) (window : RasterWindow) :
    Except StoreError WindowCoverage := do
  refuseIf (window.isEmpty = true) .emptyWindow
  refuseIf (store.grid.any (fun grid => ¬ onGrid grid window) = true) (.windowOutsideGrid window)
  let overlapping := (store.entries.getD key []).filter fun entry =>
    entry.writeWindow.intersects window
  let covered := coveredMask window (overlapping.map (·.writeWindow))
  let area := coveredArea covered (windowHeight window) (windowWidth window)
  if area = 0 then
    pure { status := .absent, entries := [], missingWindows := [window], coveredArea := 0 }
  else if area = window.area then
    pure { status := .full, entries := overlapping, missingWindows := [], coveredArea := area }
  else
    pure
      { status := .partialCover
        entries := overlapping
        missingWindows := missingRectangles covered window
        coveredArea := area }

/-! ## Invalidation -/

/-- Drops the node at some times, or at all of them. -/
def invalidate (store : TemporalResultStore) (nodeId : String) (times : Option (List Int)) :
    TemporalResultStore :=
  { store with
    entries := store.entries.filter fun key _ =>
      ¬ (key.1 = nodeId ∧ times.all fun times => key.2 ∈ times) }

end Solweig.Incremental
