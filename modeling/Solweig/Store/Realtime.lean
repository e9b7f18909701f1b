import Solweig.Store.Tables

/-!
# The realtime tables

The operation log, its epochs and the canonical states that closed epochs are reduced to. Every
mutation is one transaction, and every read is one statement.
-/

namespace Solweig.Store

open Solweig.Lib Solweig.Realtime

/-! ## Epoch rows -/

def epoch? (db : Database) (workspaceId : String) (epochId : Nat) : Option EpochRow :=
  (epochs db workspaceId).find? fun r => r.epochId = epochId

def isEpoch (workspaceId : String) (epochId : Nat) (r : EpochRow) : Bool :=
  r.workspaceId = workspaceId ∧ r.epochId = epochId

def updateEpoch (workspaceId : String) (epochId : Nat) (f : EpochRow → EpochRow)
    (db : Database) : Database :=
  { db with epochs := updateWhere (isEpoch workspaceId epochId) f db.epochs }

def openedEpoch (workspaceId : String) (epochId : Nat) (now : String) : EpochRow where
  workspaceId
  epochId
  status := .opened
  openedAt := now

def createEpoch (workspaceId : String) (epochId : Nat) (now : String) : Write Nat := do
  Txn.modify fun db => { db with epochs := db.epochs ++ [openedEpoch workspaceId epochId now] }
  pure epochId

/-- The open epoch of the workspace, or a fresh one where none is open. -/
def openOrCreateEpoch (workspaceId now : String) : Write Nat := do
  let db ← Txn.get
  match (epochs db workspaceId).argmax (·.epochId) with
  | some row =>
    if row.status = .opened then pure row.epochId
    else createEpoch workspaceId (row.epochId + 1) now
  | none => createEpoch workspaceId 0 now

/-! ## Appending operations -/

structure OperationItem where
  operationId : String
  actorId : String
  clientSequence : Option Int
  baseRevision : Option Int
  sourceFamily : String
  entityId : Option String
  verb : String
  payload : Json
  receivedAt : String
  deriving DecidableEq

structure OperationRecord where
  row : OperationRow
  duplicate : Bool
  deriving DecidableEq

/-- The families of the reducer and those that only an adapter claims. -/
def supportedSourceFamilies : List String :=
  SourceFamily.all.map SourceFamily.name ++ ["terrain_dem", "dynamic_wind_from_geometry"]

/-- A retry carries what the stored row carries; the advisory columns do not count. -/
def SameContent (row : OperationRow) (workspaceId : String) (item : OperationItem) : Prop :=
  row.workspaceId = workspaceId ∧ row.sourceFamily = item.sourceFamily ∧
    row.entityId = item.entityId ∧ row.verb = item.verb ∧ row.payload = item.payload

instance (row : OperationRow) (workspaceId : String) (item : OperationItem) :
    Decidable (SameContent row workspaceId item) :=
  inferInstanceAs (Decidable (_ ∧ _ ∧ _ ∧ _ ∧ _))

def operationRow (workspaceId now : String) (sequence epochId : Nat) (item : OperationItem) :
    OperationRow where
  workspaceId
  serverSequence := sequence
  epochId
  operationId := item.operationId
  actorId := item.actorId
  clientSequence := item.clientSequence
  baseRevision := item.baseRevision
  sourceFamily := item.sourceFamily
  entityId := item.entityId
  verb := item.verb
  payload := item.payload
  receivedAt := item.receivedAt
  acceptedAt := now

/-- `first_sequence = COALESCE(first_sequence, ?), last_sequence = ?` -/
def EpochRow.extend (row : EpochRow) (sequence : Nat) : EpochRow :=
  { row with
    firstSequence := row.firstSequence.or (some sequence)
    lastSequence := some sequence }

/-- A new operation takes the sequence and joins the epoch. -/
def insertOperation (workspaceId now : String) (sequence epochId : Nat) (item : OperationItem) :
    Write OperationRow := do
  let row := operationRow workspaceId now sequence epochId item
  Txn.modify fun db => { db with operations := db.operations ++ [row] }
  Txn.modify (updateEpoch workspaceId epochId (·.extend sequence))
  pure row

/-- The epoch that the batch already writes to, or the one that takes its first new operation. -/
def chooseEpoch (workspaceId now : String) : Option Nat → Write Nat
  | some epochId => pure epochId
  | none => openOrCreateEpoch workspaceId now

/-- The items of a batch. `sequence` is the last one taken, `epochId` the epoch that the batch
writes to once it has a new operation. -/
def appendItems (workspaceId now : String) :
    Nat → Option Nat → List OperationItem → Write (List OperationRecord)
  | _, _, [] => pure []
  | sequence, epochId, item :: rest => do
    let db ← Txn.get
    match db.operations.find? fun r => r.operationId = item.operationId with
    | some existing =>
      Txn.refuseIf (¬ SameContent existing workspaceId item)
        (.operationFingerprintConflict item.operationId)
      let records ← appendItems workspaceId now sequence epochId rest
      pure ({ row := existing, duplicate := true } :: records)
    | none =>
      Txn.refuseIf (item.sourceFamily ∉ supportedSourceFamilies)
        (.unsupportedFamily item.sourceFamily)
      let epochId ← chooseEpoch workspaceId now epochId
      let row ← insertOperation workspaceId now (sequence + 1) epochId item
      let records ← appendItems workspaceId now (sequence + 1) (some epochId) rest
      pure ({ row, duplicate := false } :: records)

def appendOperations (workspaceId : String) (items : List OperationItem) (now : String) :
    Write (List OperationRecord) :=
  Txn.atomically do
    let _ ← requireScenario workspaceId
    let db ← Txn.get
    let sequence := (((log db workspaceId).argmax (·.serverSequence)).map (·.serverSequence)).getD 0
    appendItems workspaceId now sequence none items

/-! ## Epoch status and commit -/

/-- The row after a status mark. `closed_at` is stamped when the epoch leaves `open`. -/
def EpochRow.mark (row : EpochRow) (status : EpochStatus) (workspaceRevision : Option Nat)
    (now : String) : EpochRow :=
  { row with
    status
    closedAt := row.closedAt.or
      (if row.status = .opened ∧ status ≠ .opened then some now else none)
    workspaceRevision := workspaceRevision.or row.workspaceRevision }

def markEpochStatus (workspaceId : String) (epochId : Nat) (status : EpochStatus)
    (workspaceRevision : Option Nat) (now : String) : Write Bool :=
  Txn.atomically do
    let db ← Txn.get
    Txn.modify (updateEpoch workspaceId epochId (·.mark status workspaceRevision now))
    pure (epoch? db workspaceId epochId).isSome

structure CommittedEpoch where
  workspaceRevision : Nat
  firstTime : Bool
  deriving DecidableEq, Repr

/-- The row of an epoch that gets its revision. A terminal status stays. -/
def EpochRow.assign (row : EpochRow) (revision : Nat) (now : String) : EpochRow :=
  if row.status.Terminal then { row with workspaceRevision := some revision }
  else { row with
    status := .reducing
    closedAt := row.closedAt.or (some now)
    workspaceRevision := some revision }

/-- The newest canonical revision, zero before the first. -/
def latestRevision (db : Database) (workspaceId : String) : Nat :=
  (((canonical db workspaceId).argmax (·.workspaceRevision)).map (·.workspaceRevision)).getD 0

/-- `INSERT`, which refuses a revision that has a row. -/
def insertCanonical (row : CanonicalRow) : Write Unit := do
  let db ← Txn.get
  Txn.refuseIf (∃ r ∈ canonical db row.workspaceId, r.workspaceRevision = row.workspaceRevision)
    .integrity
  Txn.modify fun db => { db with canonical := db.canonical ++ [row] }

/-- `INSERT OR IGNORE` -/
def insertCanonicalOrIgnore (row : CanonicalRow) : Write Unit := do
  let db ← Txn.get
  if ∃ r ∈ canonical db row.workspaceId, r.workspaceRevision = row.workspaceRevision then pure ()
  else Txn.modify fun db => { db with canonical := db.canonical ++ [row] }

def updateScenario (scenarioId : String) (f : ScenarioRow → ScenarioRow) (db : Database) :
    Database :=
  { db with scenarios := updateWhere (fun r => r.scenarioId = scenarioId) f db.scenarios }

def setSceneVersion (scenarioId : String) (version : Nat) (now : String) (db : Database) :
    Database :=
  updateScenario scenarioId (fun r => { r with sceneVersion := version, updatedAt := now }) db

/-- The fold may have started from a state that is no longer the latest. -/
def checkBaseline (workspaceId : String) : Option Nat → Write Unit
  | none => pure ()
  | some expected => do
    let db ← Txn.get
    Txn.refuseIf (latestRevision db workspaceId ≠ expected)
      (.epochBaselineStale expected (latestRevision db workspaceId))

/-- The first commit of an epoch, which assigns its revision. -/
def assignRevision (workspaceId : String) (epochId : Nat) (families : Families)
    (baselineRevision : Option Nat) (now : String) : Write (Option CommittedEpoch) := do
  let db ← Txn.get
  match scenario? db workspaceId with
  | none => pure none
  | some scenario =>
    checkBaseline workspaceId baselineRevision
    let revision := scenario.sceneVersion + 1
    insertCanonical { workspaceId, workspaceRevision := revision, families, createdAt := now }
    Txn.modify (setSceneVersion workspaceId revision now)
    Txn.modify (updateEpoch workspaceId epochId (·.assign revision now))
    pure (some { workspaceRevision := revision, firstTime := true })

def commitEpochReduction (workspaceId : String) (epochId : Nat) (families : Families)
    (baselineRevision : Option Nat) (now : String) : Write (Option CommittedEpoch) :=
  Txn.atomically do
    let db ← Txn.get
    match epoch? db workspaceId epochId with
    | none => pure none
    | some row =>
      match row.workspaceRevision with
      | some revision =>
        insertCanonicalOrIgnore
          { workspaceId, workspaceRevision := revision, families, createdAt := now }
        pure (some { workspaceRevision := revision, firstTime := false })
      | none => assignRevision workspaceId epochId families baselineRevision now

/-! ## Reads -/

def epochRecords (db : Database) (workspaceId : String) : List EpochRow :=
  (epochs db workspaceId).insertionSort fun a b => a.epochId ≤ b.epochId

def operationsForEpoch (db : Database) (workspaceId : String) (epochId : Nat) :
    List OperationRow :=
  ((log db workspaceId).filter fun r => r.epochId = epochId).insertionSort
    fun a b => a.serverSequence ≤ b.serverSequence

def latestCanonicalState (db : Database) (workspaceId : String) : Option CanonicalRow :=
  (canonical db workspaceId).argmax (·.workspaceRevision)

def openEpochs (db : Database) (workspaceId : String) : List EpochRow :=
  (epochRecords db workspaceId).filter fun r => r.status = .opened

/-- The workspaces that have an open epoch, each once, in order. -/
def openEpochWorkspaces (db : Database) : List String :=
  ((db.epochs.filter fun r => r.status = .opened).map (·.workspaceId)).dedup.insertionSort
    (· ≤ ·)

/-- The epochs that are owed work, of all workspaces, oldest first. -/
def recoverableEpochs (db : Database) : List EpochRow :=
  (db.epochs.filter fun r => ¬ r.status.Terminal).insertionSort fun a b =>
    a.workspaceId < b.workspaceId ∨ a.workspaceId = b.workspaceId ∧ a.epochId ≤ b.epochId

end Solweig.Store
