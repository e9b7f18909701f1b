import Solweig.Epochs.Close
import Solweig.Lib.Threads
import Solweig.Store.Scenarios

/-!
# The threads of the realtime plane

Requests that append, scheduler passes with their close attempts, the fast lane and the
completions of the exact lane, all on one store.
-/

namespace Solweig.Epochs

open Solweig.Lib Solweig.Realtime Solweig.Store

/-! ## The lanes -/

/-- Where `_publish_fast` stands. The reads that only fill its plan are left out. -/
inductive FastAt where
  | start
  | scenario (row : EpochRow) (revision : Nat)
  | mark (revision observedExact : Nat)
  | advance (revision observedExact : Nat)

def fastStep (workspaceId : String) (epochId : Nat) (now : String) (db : Database) :
    FastAt → Database × Option FastAt
  | .start =>
    (db, (epoch? db workspaceId epochId).bind fun row =>
      row.workspaceRevision.map fun revision => .scenario row revision)
  | .scenario row revision =>
    match scenario? db workspaceId with
    | none => (db, none)
    | some scenario =>
      if scenario.sceneVersion < revision then (db, none)
      else if row.status = .reducing then (db, some (.mark revision scenario.exactResultVersion))
      else (db, some (.advance revision scenario.exactResultVersion))
  | .mark revision observedExact =>
    ((markEpochStatus workspaceId epochId .fastPlanned (some revision) now db).2,
      some (.advance revision observedExact))
  | .advance revision observedExact =>
    ((advanceFastRevision workspaceId revision observedExact now db).2, none)

/-- The epochs that `_consume_exact_epochs` settles, with their revisions. -/
def toSettle (db : Database) (workspaceId : String) (throughRevision : Nat) : List (Nat × Nat) :=
  (epochRecords db workspaceId).filterMap fun row =>
    if row.status.Terminal then none
    else row.workspaceRevision.bind fun revision =>
      if throughRevision < revision then none else some (row.epochId, revision)

/-! ## Threads -/

/-- What is left of the loops of `run_once` and `recover`. -/
inductive Task where
  | close (workspaceId : String) (epochId : Nat)
  | openWorkspaces
  | openEpochs (workspaceId : String)

/-- The call that a thread is in. -/
inductive Activity where
  | idle
  | closing (workspaceId : String) (epochId : Nat) (place : CloseAt)
  | publishing (workspaceId : String) (epochId : Nat) (place : FastAt)
  | consuming (workspaceId : String) (throughRevision : Nat)
  | settling (workspaceId : String) (rest : List (Nat × Nat))

structure Thread where
  tasks : List Task
  activity : Activity

def Thread.free : Thread := { tasks := [], activity := .idle }

inductive Event where
  | append (workspaceId : String) (items : List OperationItem) (now : String)
  | pass
  | recover
  | drive (workspaceId : String) (epochId : Nat)
  | publishFast (workspaceId : String) (epochId : Nat)
  | consume (workspaceId : String) (throughRevision : Nat)
  /-- The next store call goes through. `due` is what `_epoch_due` says of the open epochs. -/
  | step (due : List Nat) (now : String)
  /-- The next store call raises. -/
  | fail

/-- `run_once`: the stranded epochs first, then the open ones that are due. -/
def passTasks (db : Database) : List Task :=
  ((recoverableEpochs db).filter fun row =>
    ¬ (row.status = .opened ∨ row.workspaceRevision.isSome)).map
      (fun row => .close row.workspaceId row.epochId) ++ [.openWorkspaces]

/-- `recover`: every epoch that is owed work and is not open. -/
def recoverTasks (db : Database) : List Task :=
  ((recoverableEpochs db).filter fun row => row.status ≠ .opened).map
    fun row => .close row.workspaceId row.epochId

/-- A call that a free thread starts. -/
def begin (db : Database) : Event → Option (Database × Thread)
  | .append workspaceId items now => some ((appendOperations workspaceId items now db).2, .free)
  | .pass => some (db, { Thread.free with tasks := passTasks db })
  | .recover => some (db, { Thread.free with tasks := recoverTasks db })
  | .drive workspaceId epochId =>
    some (db, { Thread.free with activity := .closing workspaceId epochId .start })
  | .publishFast workspaceId epochId =>
    some (db, { Thread.free with activity := .publishing workspaceId epochId .start })
  | .consume workspaceId throughRevision =>
    some (db, { Thread.free with activity := .consuming workspaceId throughRevision })
  | .step _ _ => none
  | .fail => none

/-- The next task of a loop. -/
def nextTask (db : Database) (due : List Nat) : List Task → Option Thread
  | [] => none
  | .close workspaceId epochId :: rest =>
    some { tasks := rest, activity := .closing workspaceId epochId .start }
  | .openWorkspaces :: rest =>
    some { tasks := (openEpochWorkspaces db).map .openEpochs ++ rest, activity := .idle }
  | .openEpochs workspaceId :: rest =>
    let epochs := (openEpochs db workspaceId).filter fun row => row.epochId ∈ due
    some {
      tasks := epochs.map (fun row => .close workspaceId row.epochId) ++ rest
      activity := .idle }

/-- The next store call of the activity. -/
def proceed (db : Database) (due : List Nat) (now : String) (tasks : List Task) :
    Activity → Option (Database × Thread)
  | .idle => (nextTask db due tasks).map fun thread => (db, thread)
  | .closing workspaceId epochId place =>
    let (db', place') := closeStep workspaceId epochId now db place
    some (db', { tasks, activity := (place'.map (.closing workspaceId epochId)).getD .idle })
  | .publishing workspaceId epochId place =>
    let (db', place') := fastStep workspaceId epochId now db place
    some (db', { tasks, activity := (place'.map (.publishing workspaceId epochId)).getD .idle })
  | .consuming workspaceId throughRevision =>
    some (db, { tasks, activity := .settling workspaceId (toSettle db workspaceId throughRevision) })
  | .settling workspaceId ((epochId, revision) :: rest) =>
    some ((markEpochStatus workspaceId epochId .exactTargeted (some revision) now db).2,
      { tasks, activity := .settling workspaceId rest })
  | .settling _ [] => some (db, { tasks, activity := .idle })

/-- A store call that raises. A close attempt of a loop is given up and the loop goes on; a scan
that raises ends the pass. -/
def raise (tasks : List Task) : Activity → Option Thread
  | .idle =>
    match tasks with
    | .openWorkspaces :: _ | .openEpochs _ :: _ => some .free
    | _ => none
  | _ => some { tasks, activity := .idle }

/-- One atomic action of a thread. -/
def act (db : Database) (thread : Thread) : Event → Option (Database × Thread)
  | .step due now => proceed db due now thread.tasks thread.activity
  | .fail => (raise thread.tasks thread.activity).map fun thread' => (db, thread')
  | event =>
    match thread with
    | { tasks := [], activity := .idle } => begin db event
    | _ => none

abbrev Plane := Threads Database Thread

def planeStep : Plane → Nat × Event → Option Plane := Threads.step act

/-- A store without operations, and no thread in a call. -/
structure Plane.Fresh (s : Plane) : Prop where
  operations : s.shared.operations = []
  epochs : s.shared.epochs = []
  canonical : s.shared.canonical = []
  free : ∀ i, s.threads i = .free

end Solweig.Epochs
