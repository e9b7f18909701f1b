import Solweig.Epochs.Plane
import Solweig.Lib.Dict
import Solweig.Store.Revisions

/-!
# The fast lane

The scheduler thread that publishes fast revisions, next to the threads of the epoch plane and
the publications of the exact lane. Every store call, every lock section and every frame that is
handed to the hub is one step. Clocks decide nothing here: a label says in which order the lane
takes its work and whether a prediction exceeds the time that remains.
-/

namespace Solweig.Lane

open Solweig.Lib Solweig.Realtime Solweig.Store Solweig.Epochs

/-! ## Kernels -/

inductive FastResultClass where
  | fastExact
  | fastQualified
  | visualPending
  deriving DecidableEq, Repr

/-- One due epoch with its epoch-final state. -/
structure FastPlan where
  workspaceId : String
  epochId : Nat
  workspaceRevision : Nat
  canonicalRevision : Nat
  families : List String
  operationCount : Nat
  canonicalState : Families

structure FastKernelResult where
  resultClass : FastResultClass
  /-- What `qualifier_defects` finds in the payload. -/
  defects : List String := []
  /-- The `exact_base_revision` of the payload. -/
  exactBaseRevision : Option Nat := none
  deriving DecidableEq

abbrev FastKernel := FastPlan → FastKernelResult

def outputView : String := "output_view"

/-- `ViewCacheKernel.classify` -/
def classify (plan : FastPlan) : FastResultClass :=
  if plan.families ≠ [] ∧ ∀ f ∈ plan.families, f = outputView then .fastExact else .visualPending

def viewCacheKernel : FastKernel := fun plan => { resultClass := classify plan }

/-- The lower class, where the kernel is not run. -/
def downgraded : FastKernelResult := { resultClass := .visualPending }

/-- A qualified result with defects is published as pending. -/
def FastKernelResult.fenced (result : FastKernelResult) : FastKernelResult :=
  if result.resultClass = .fastQualified ∧ result.defects ≠ [] then
    { result with resultClass := .visualPending }
  else result

/-- An exact result that covers the revision is the best representation of it. -/
def FastKernelResult.covered (result : FastKernelResult) (exactRevision revision : Nat) :
    FastKernelResult :=
  if revision ≤ exactRevision then { result with resultClass := .fastExact } else result

/-- The result of a plan. `late` says that the predicted cost exceeds the time that remains. -/
def planResult (kernel : FastKernel) (plan : FastPlan) (late : Bool) (exactRevision : Nat) :
    FastKernelResult :=
  (if late then downgraded else (kernel plan).fenced).covered exactRevision plan.workspaceRevision

/-! ## What the lane remembers -/

structure PendingItem where
  epochId : Nat
  workspaceRevision : Nat
  fromScan : Bool := false
  deferred : Bool := false
  deriving DecidableEq

structure FastPublication where
  epochId : Nat
  workspaceRevision : Nat
  fastRevision : Nat
  resultClass : FastResultClass
  exactRevision : Nat
  exactBaseRevision : Nat
  deriving DecidableEq

/-- `max_pending_workspaces` and `publication_history` -/
structure Bounds where
  maxPendingWorkspaces : Nat := 64
  history : Nat := 64

structure Memory where
  pending : Dict String PendingItem := ∅
  publishedKeys : Dict String (List Nat) := ∅
  scanGrace : Dict String Nat := ∅
  publications : Dict String (List FastPublication) := ∅
  droppedWakes : Nat := 0

/-- The newest `n` entries. -/
def newest {α : Type} (n : Nat) (entries : List α) : List α := entries.drop (entries.length - n)

namespace Memory

variable (bounds : Bounds) (memory : Memory)

/-- The tail hook of the close pipeline. -/
def onEpochClosed (workspaceId : String) (epochId revision : Nat) : Memory :=
  if ∃ last ∈ (memory.publishedKeys.getD workspaceId []).getLast?, revision ≤ last then memory
  else if memory.pending[workspaceId]? = none ∧
      bounds.maxPendingWorkspaces ≤ memory.pending.size then
    { memory with droppedWakes := memory.droppedWakes + 1 }
  else if ∀ current ∈ memory.pending[workspaceId]?, current.workspaceRevision < revision then
    { memory with pending :=
        memory.pending.insert workspaceId { epochId, workspaceRevision := revision } }
  else memory

def latestPublication (workspaceId : String) : Option FastPublication :=
  (memory.publications.getD workspaceId []).getLast?

/-- `_record_publication` -/
def recordPublication (workspaceId : String) (publication : FastPublication) : Memory :=
  { memory with
    publications := memory.publications.insert workspaceId
      (newest bounds.history (memory.publications.getD workspaceId [] ++ [publication]))
    publishedKeys := memory.publishedKeys.insert workspaceId
      (newest (4 * bounds.history)
        (memory.publishedKeys.getD workspaceId [] ++ [publication.workspaceRevision])) }

/-- A scanned revision waits one pass, unless it has waited. -/
def deferOnce (workspaceId : String) (item : PendingItem) : Memory × PendingItem :=
  if memory.scanGrace[workspaceId]? = some item.workspaceRevision then
    ({ memory with pending := memory.pending.insert workspaceId item }, item)
  else
    ({ memory with
        pending := memory.pending.insert workspaceId { item with deferred := true }
        scanGrace := memory.scanGrace.insert workspaceId item.workspaceRevision },
      { item with deferred := true })

/-- A hook that has woken the lane for the same revision takes precedence. -/
def enqueue (workspaceId : String) (item : PendingItem) : Memory × PendingItem :=
  match memory.pending[workspaceId]? with
  | some existing =>
    if existing.workspaceRevision = item.workspaceRevision ∧ existing.fromScan = false then
      (memory, existing)
    else memory.deferOnce workspaceId item
  | none => memory.deferOnce workspaceId item

def enqueueAll (memory : Memory) :
    List (String × PendingItem) → Memory × List (String × PendingItem)
  | [] => (memory, [])
  | (workspaceId, item) :: rest =>
    let (memory', item') := memory.enqueue workspaceId item
    let (last, items) := enqueueAll memory' rest
    (last, (workspaceId, item') :: items)

/-- The end of `_publish_fast`: the work is done and its grace is over. -/
def forget (workspaceId : String) (revision : Nat) : Memory :=
  { memory with
    pending := memory.pending.erase workspaceId
    scanGrace :=
      if ∃ grace ∈ memory.scanGrace[workspaceId]?, grace ≤ revision then
        memory.scanGrace.erase workspaceId
      else memory.scanGrace }

end Memory

/-! ## Discovery -/

def scenariosWithFastLag (db : Database) : List ScenarioRow :=
  db.scenarios.filter fun row => row.fastRevision < row.sceneVersion

/-- The epochs whose revision the fast lane owes. -/
def dueEpochs (row : ScenarioRow) (records : List EpochRow) : List (Nat × Nat) :=
  records.filterMap fun epoch => epoch.workspaceRevision.bind fun revision =>
    if row.fastRevision < revision ∧ revision ≤ row.sceneVersion then
      some (epoch.epochId, revision)
    else none

/-- The newest due epoch stands for the older ones. -/
def discovered? (row : ScenarioRow) (records : List EpochRow) : Option (String × PendingItem) :=
  ((dueEpochs row records).argmax (·.2)).map fun (epochId, revision) =>
    (row.scenarioId, { epochId, workspaceRevision := revision, fromScan := true })

/-- The frame that retires a qualified publication once the exact lane has caught up. -/
def superseding? (db : Database) (memory : Memory) (workspaceId : String) :
    Option FastPublication :=
  (memory.latestPublication workspaceId).bind fun publication =>
    (scenario? db workspaceId).bind fun scenario =>
      if publication.resultClass ≠ .fastQualified ∨
          scenario.exactResultVersion < publication.workspaceRevision then none
      else some { publication with
        resultClass := .fastExact
        exactRevision := scenario.exactResultVersion
        exactBaseRevision := scenario.exactResultVersion }

/-! ## Places of the lane thread -/

/-- Where `_publish_fast` stands: the step that comes next, with what it has read. -/
inductive PublishAt where
  | epoch
  | scenario (row : EpochRow) (revision : Nat)
  | operations (row : EpochRow) (revision exactRevision : Nat)
  | canonical (row : EpochRow) (revision exactRevision : Nat) (operations : List OperationRow)
  | mark (plan : FastPlan) (exactRevision : Nat)
  | kernel (plan : FastPlan) (exactRevision : Nat)
  | advance (plan : FastPlan) (exactRevision : Nat) (late : Bool)
  | record (publication : FastPublication)
  | broadcast (publication : FastPublication)
  | forget (revision : Nat)

inductive LaneAt where
  | idle
  | superseding (rest : List String)
  | retiring (rest : List String) (workspaceId : String) (replacement : FastPublication)
  | rebroadcast (rest : List String) (workspaceId : String) (replacement : FastPublication)
  | scanning
  | targeting (rows : List ScenarioRow) (scanned : List (String × PendingItem))
  | queueing (scanned : List (String × PendingItem))
  | publishing (ready : List (String × PendingItem))
  | planning (ready : List (String × PendingItem)) (workspaceId : String) (item : PendingItem)
      (place : PublishAt)

/-- The entry that the loop takes next, with those that are left. -/
def pick {α : Type} (choice : Nat) (entries : List α) : Option (α × List α) :=
  entries[choice]?.map fun entry => (entry, entries.eraseIdx choice)

/-! ## Frames -/

inductive Frame where
  | canonical (workspaceId : String) (workspaceRevision : Nat)
  | fast (workspaceId : String) (publication : FastPublication)

/-- The lane beside the plane. The last three fields are history. -/
structure System where
  plane : Plane
  memory : Memory := {}
  place : LaneAt := .idle
  /-- The hook that a thread calls next: it has handed over a canonical frame. -/
  owed : Nat → Option (String × Nat × Nat) := fun _ => none
  /-- The frames that were handed to the hub. -/
  frames : List Frame := []
  /-- The close attempts that gave up between their commit and their broadcast. -/
  lost : List (String × Nat) := []
  /-- The publications of `_publish_fast`, each from its commit on. -/
  published : List (String × FastPublication) := []

/-! ## Steps of `_publish_fast` -/

def planOf (db : Database) (workspaceId : String) (epochId revision : Nat)
    (operations : List OperationRow) : FastPlan where
  workspaceId
  epochId
  workspaceRevision := revision
  canonicalRevision := ((latestCanonicalState db workspaceId).map (·.workspaceRevision)).getD 0
  families := (operations.map (·.sourceFamily)).eraseDups
  operationCount := operations.length
  canonicalState := ((latestCanonicalState db workspaceId).map (·.families)).getD initialState.families

/-- The publication of a plan whose revision was let in. The anchor of a qualified result is its
base where that is not above the exact revision. -/
def publicationOf (plan : FastPlan) (result : FastKernelResult) (advance : FastRevisionAdvance) :
    FastPublication where
  epochId := plan.epochId
  workspaceRevision := plan.workspaceRevision
  fastRevision := advance.fastRevision
  resultClass := result.resultClass
  exactRevision := advance.exactRevision
  exactBaseRevision :=
    if result.resultClass = .fastQualified then
      (result.exactBaseRevision.filter fun base => base ≤ advance.exactRevision).getD
        advance.exactRevision
    else advance.exactRevision

/-- The reads and the mark, up to the kernel. `none` when there is nothing to publish. -/
def prepareStep (workspaceId : String) (epochId : Nat) (now : String) (db : Database) :
    PublishAt → Database × Option PublishAt
  | .epoch =>
    (db, (epoch? db workspaceId epochId).bind fun row =>
      row.workspaceRevision.map fun revision => .scenario row revision)
  | .scenario row revision =>
    (db, (scenario? db workspaceId).bind fun scenario =>
      if scenario.sceneVersion < revision then none
      else some (.operations row revision scenario.exactResultVersion))
  | .operations row revision exactRevision =>
    (db, some (.canonical row revision exactRevision (operationsForEpoch db workspaceId epochId)))
  | .canonical row revision exactRevision operations =>
    let plan := planOf db workspaceId epochId revision operations
    (db, some (if row.status = .reducing then .mark plan exactRevision
      else .kernel plan exactRevision))
  | .mark plan exactRevision =>
    ((markEpochStatus workspaceId epochId .fastPlanned (some plan.workspaceRevision) now db).2,
      some (.kernel plan exactRevision))
  | place => (db, some place)

/-- The transaction that lets the publication in, or refuses it as stale. -/
def advanceStep (kernel : FastKernel) (workspaceId : String) (plan : FastPlan)
    (exactRevision : Nat) (late : Bool) (now : String) (db : Database) :
    Database × Option FastPublication :=
  match advanceFastRevision workspaceId plan.workspaceRevision exactRevision now db with
  | (.ok (some advance), db') =>
    (db', some (publicationOf plan (planResult kernel plan late exactRevision) advance))
  | (_, db') => (db', none)

/-! ## Steps of the lane -/

variable (kernel : FastKernel) (bounds : Bounds)

def System.write (s : System) (db : Database) : System :=
  { s with plane := { s.plane with shared := db } }

/-- The lane after the reads, or the mark, before the kernel. -/
def System.prepared (s : System) (ready : List (String × PendingItem)) (workspaceId : String)
    (item : PendingItem) : Database × Option PublishAt → System
  | (db, some place) => { s.write db with place := .planning ready workspaceId item place }
  | (db, none) => { s.write db with place := .publishing ready }

/-- The lane after the transaction that advances the fast revision. -/
def System.advanced (s : System) (ready : List (String × PendingItem)) (workspaceId : String)
    (item : PendingItem) : Database × Option FastPublication → System
  | (db, some publication) =>
    { s.write db with
      place := .planning ready workspaceId item (.record publication)
      published := s.published ++ [(workspaceId, publication)] }
  | (db, none) => { s.write db with place := .publishing ready }

/-- One step inside `_publish_fast`. -/
def publishStep (s : System) (ready : List (String × PendingItem)) (workspaceId : String)
    (item : PendingItem) (late : Bool) (now : String) : PublishAt → System
  | .kernel plan exactRevision =>
    { s with place := .planning ready workspaceId item (.advance plan exactRevision late) }
  | .advance plan exactRevision late =>
    s.advanced ready workspaceId item
      (advanceStep kernel workspaceId plan exactRevision late now s.plane.shared)
  | .record publication =>
    { s with
      memory := s.memory.recordPublication bounds workspaceId publication
      place := .planning ready workspaceId item (.broadcast publication) }
  | .broadcast publication =>
    { s with
      frames := s.frames ++ [.fast workspaceId publication]
      place := .planning ready workspaceId item (.forget publication.workspaceRevision) }
  | .forget revision =>
    { s with memory := s.memory.forget workspaceId revision, place := .publishing ready }
  | place =>
    s.prepared ready workspaceId item
      (prepareStep workspaceId item.epochId now s.plane.shared place)

/-- One step of the lane thread, through `run_once` and back. -/
def laneStep (s : System) (choice : Nat) (late : Bool) (now : String) : LaneAt → Option System
  | .idle => some { s with place := .superseding s.memory.publications.keys }
  | .superseding [] => some { s with place := .scanning }
  | .superseding rest => (pick choice rest).map fun (workspaceId, rest') =>
    { s with place :=
        match superseding? s.plane.shared s.memory workspaceId with
        | some replacement => .retiring rest' workspaceId replacement
        | none => .superseding rest' }
  | .retiring rest workspaceId replacement =>
    some { s with
      memory := s.memory.recordPublication bounds workspaceId replacement
      place := .rebroadcast rest workspaceId replacement }
  | .rebroadcast rest workspaceId replacement =>
    some { s with
      frames := s.frames ++ [.fast workspaceId replacement]
      place := .superseding rest }
  | .scanning => some { s with place := .targeting (scenariosWithFastLag s.plane.shared) [] }
  | .targeting [] scanned => some { s with place := .queueing scanned }
  | .targeting (row :: rows) scanned =>
    let found := discovered? row (epochRecords s.plane.shared row.scenarioId)
    some { s with place := .targeting rows (scanned ++ found.toList) }
  | .queueing scanned =>
    let (memory, items) := s.memory.enqueueAll scanned
    some { s with memory, place := .publishing (items.filter fun entry => ¬ entry.2.deferred) }
  | .publishing [] => some { s with place := .idle }
  | .publishing ready => (pick choice ready).map fun ((workspaceId, item), ready') =>
    { s with place := .planning ready' workspaceId item .epoch }
  | .planning ready workspaceId item place =>
    some (publishStep kernel bounds s ready workspaceId item late now place)

/-- A store call or the kernel raises. One publication is given up, or the pass is. -/
def laneRaise (s : System) : LaneAt → Option System
  | .planning ready _ _ place =>
    match place with
    | .record _ | .broadcast _ | .forget _ => none
    | _ => some { s with place := .publishing ready }
  | .superseding (_ :: _) | .scanning | .targeting (_ :: _) _ => some { s with place := .idle }
  | _ => none

/-! ## Steps of the others -/

/-- The close attempt has its revision and has not broadcast it. -/
def Committed (workspaceId : String) (epochId : Nat) : Activity → Prop
  | .closing w e .confirm => w = workspaceId ∧ e = epochId
  | .closing w e .publish => w = workspaceId ∧ e = epochId
  | _ => False

/-- The revision of the row that a close attempt has read; an assigned revision stays. -/
def revisionOf (db : Database) (workspaceId : String) (epochId : Nat) : Option Nat :=
  (epoch? db workspaceId epochId).bind (·.workspaceRevision)

/-- What a step of a thread of the plane leaves behind besides its own move. -/
def System.noted (s : System) (i : Nat) (event : Event) (plane : Plane) : System :=
  match event, (s.plane.threads i).activity with
  | .step _ _, .closing w e .publish =>
    match revisionOf s.plane.shared w e with
    | some revision =>
      { s with
        plane
        frames := s.frames ++ [.canonical w revision]
        owed := Function.update s.owed i (some (w, e, revision)) }
    | none => { s with plane }
  | .fail, .closing w e .confirm | .fail, .closing w e .publish =>
    { s with plane, lost := s.lost ++ [(w, e)] }
  | _, _ => { s with plane }

/-- The publications of the exact lane, and the job statuses that they look at. -/
def isExactPublication : RevisionAction → Bool
  | .publishResult .. | .republishResultAtVersion .. | .markJobRunning _ | .finishJob .. => true
  | _ => false

/-- The fast lane has a thread of its own. -/
def isFastCall : Event → Bool
  | .publishFast _ _ => true
  | _ => false

inductive LaneEvent where
  | plane (thread : Nat) (event : Event)
  | hook (thread : Nat)
  | exact (action : RevisionAction)
  | lane (choice : Nat) (late : Bool) (now : String)
  | laneRaise

def systemStep (s : System) : LaneEvent → Option System
  | .plane i event =>
    if isFastCall event ∨ (s.owed i).isSome then none
    else (planeStep s.plane (i, event)).map (s.noted i event)
  | .hook i => (s.owed i).map fun (w, e, revision) =>
    { s with
      memory := s.memory.onEpochClosed bounds w e revision
      owed := Function.update s.owed i none }
  | .exact action =>
    if isExactPublication action then (revisionStep s.plane.shared action).map s.write else none
  | .lane choice late now => laneStep kernel bounds s choice late now s.place
  | .laneRaise => laneRaise s s.place

/-- An app that has just started on a store without operations. -/
structure System.Fresh (s : System) : Prop where
  plane : s.plane.Fresh
  memory : s.memory = {}
  place : s.place = .idle
  owed : ∀ i, s.owed i = none
  frames : s.frames = []
  lost : s.lost = []
  published : s.published = []

end Solweig.Lane
