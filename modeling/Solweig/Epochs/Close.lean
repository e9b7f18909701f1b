import Solweig.Realtime.Reducer
import Solweig.Store.Realtime

/-!
# The close pipeline

`close_epoch` as a thread runs it: each store transaction and each store read is one step, and
what the thread holds between two steps is its place in the function.
-/

namespace Solweig.Epochs

open Solweig.Lib Solweig.Realtime Solweig.Store

/-! ## From rows to the reducer -/

def verbOf : String → OperationVerb
  | "add" => .add
  | "replace" => .replace
  | "update" => .update
  | "move" => .move
  | "delete" => .delete
  | "paint" => .paint
  | "set" => .set
  | "select" => .select
  | text => .other text

/-- `operation_from_record`, of a family that the reducer can fold. -/
def operation? (row : OperationRow) : Option Operation :=
  (SourceFamily.ofName? row.sourceFamily).map fun sourceFamily =>
    { operationId := row.operationId
      actorId := row.actorId
      sourceFamily
      entityId := row.entityId
      verb := verbOf row.verb
      payload := row.payload
      serverSequence := row.serverSequence
      epochId := row.epochId }

/-- The fold of stored rows. It raises on a family that has no delta builder. -/
def reduceRows (baseline : CanonicalState) (rows : List OperationRow) : Option EpochReduction :=
  (rows.mapM operation?).bind fun operations => (reduceEpoch baseline operations).toOption

def stateOf (row : CanonicalRow) : CanonicalState where
  workspaceRevision := row.workspaceRevision
  families := row.families

/-- The newest canonical state, or the initial one. -/
def baselineState (db : Database) (workspaceId : String) : CanonicalState :=
  ((latestCanonicalState db workspaceId).map stateOf).getD initialState

/-! ## One step of a close attempt -/

/-- Where a close attempt stands: the store call that comes next, with what it has read. -/
inductive CloseAt where
  | start
  | mark
  | reread
  | load
  | fold (operations : List OperationRow) (attempt : Nat)
  | commit (operations : List OperationRow) (attempt : Nat) (expectedBaseline : Nat)
      (families : Families)
  | confirm
  | publish

/-- After an epoch row was read: an assigned epoch is only broadcast again. -/
def afterRead (row : EpochRow) : CloseAt :=
  if row.workspaceRevision.isSome then .publish else .load

/-- `none` when the attempt is over, by a return or by an exception. -/
def closeStep (workspaceId : String) (epochId : Nat) (now : String) (db : Database) :
    CloseAt → Database × Option CloseAt
  | .start =>
    match epoch? db workspaceId epochId with
    | none => (db, none)
    | some row =>
      if row.status.Terminal then (db, none)
      else if row.status = .opened then (db, some .mark)
      else (db, some (afterRead row))
  | .mark => ((markEpochStatus workspaceId epochId .closed none now db).2, some .reread)
  | .reread => (db, (epoch? db workspaceId epochId).map afterRead)
  | .load =>
    let operations := operationsForEpoch db workspaceId epochId
    -- the ordering fence raises, and an empty epoch carries no revision
    if ¬ (operations.map (·.serverSequence)).IsChain (· < ·) ∨ operations = [] then (db, none)
    else (db, some (.fold operations 0))
  | .fold operations attempt =>
    let baseline := baselineState db workspaceId
    (db, (reduceRows baseline operations).map fun reduction =>
      .commit operations attempt baseline.workspaceRevision.toNat reduction.state.families)
  | .commit operations attempt expectedBaseline families =>
    match commitEpochReduction workspaceId epochId families (some expectedBaseline) now db with
    | (.ok (some _), db') => (db', some .confirm)
    | (.ok none, db') => (db', none)
    | (.error (.epochBaselineStale _ _), db') =>
      (db', if attempt + 1 < 3 then some (.fold operations (attempt + 1)) else none)
    | (.error _, db') => (db', none)
  | .confirm =>
    (db, match epoch? db workspaceId epochId with
      | some row => if row.workspaceRevision.isSome then some .publish else none
      | none => none)
  | .publish => (db, none)

end Solweig.Epochs
