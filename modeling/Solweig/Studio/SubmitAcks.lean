import Solweig.Lib.Dict
import Solweig.Studio.RealtimeClient

/-!
# Submitted operations

Each submitted operation has a promise and an entry in `pendingAcks` that settles it: by the
operation's canonical appearance, by a resubmit, or by the failure of its batch.
-/

namespace Solweig.Studio

open Solweig.Lib

inductive Outcome where
  | acked (serverSequence : Option Nat) (epochId : Option String) (duplicate : Bool)
  | rejected
  deriving DecidableEq

/-- A promise with the data of its entry. -/
structure Promise where
  operationId : String
  /-- The call of `submitOperations` that made it. -/
  call : Nat
  serverSequence : Option Nat
  epochId : Option String
  duplicate : Bool
  outcome : Option Outcome
  -- history only: the operation was applied before the promise was made
  late : Bool
  deriving DecidableEq

inductive Posting where
  | posting
  | reconciling
  | returned
  | failed
  deriving DecidableEq

structure Call where
  operationIds : List String
  attempt : Nat
  state : Posting
  deriving DecidableEq

/-- One operation of the response to a POST. -/
structure Ack where
  operationId : String
  serverSequence : Option Nat
  epochId : Option String
  duplicate : Bool

structure Submits where
  appliedOperationIds : List String
  promises : List Promise
  /-- Each entry by the place of its promise. -/
  pendingAcks : Dict String Nat
  calls : List Call

namespace Submits

def initial : Submits := ⟨[], [], ∅, []⟩

/-- What a resubmit, a failure and a canonical appearance do alike with an entry that is not
settled. -/
def settleAck (s : Submits) (operationId : String) (outcome : Promise → Outcome) : Submits :=
  match s.pendingAcks[operationId]? with
  | none => s
  | some i =>
    if s.promises[i]?.any fun entry => entry.outcome.isNone then
      { s with
        promises := s.promises.modify i fun entry => { entry with outcome := some (outcome entry) }
        pendingAcks := s.pendingAcks.erase operationId }
    else s

def failPendingAck (s : Submits) (operationId : String) : Submits :=
  s.settleAck operationId fun _ => .rejected

/-- The fence of `#applyOperation`. -/
def applyOperation (s : Submits) (op : Operation) : Submits :=
  if op.operationId = "" ∨ op.operationId ∈ s.appliedOperationIds then s
  else
    { s with appliedOperationIds := s.appliedOperationIds ++ [op.operationId] }.settleAck
      op.operationId fun entry =>
        .acked (entry.serverSequence <|> if 0 < op.serverSequence then some op.serverSequence else none)
          entry.epochId entry.duplicate

def registerAck (call : Nat) (s : Submits) (operationId : String) : Submits :=
  let settled := s.settleAck operationId fun _ => .acked none none true
  { settled with
    promises := settled.promises ++
      [⟨operationId, call, none, none, false, none, operationId ∈ s.appliedOperationIds⟩]
    pendingAcks := settled.pendingAcks.insert operationId settled.promises.length }

/-- `submitOperations`, up to the wait for its POST. -/
def submit (s : Submits) (operationIds : List String) : Submits :=
  let registered := operationIds.foldl (registerAck s.calls.length) s
  { registered with calls := registered.calls ++ [⟨operationIds, 0, .posting⟩] }

def recordAck (s : Submits) (ack : Ack) : Submits :=
  match s.pendingAcks[ack.operationId]? with
  | none => s
  | some i =>
    { s with
      promises := s.promises.modify i fun entry =>
        if entry.outcome.isNone then
          { entry with
            serverSequence := ack.serverSequence
            epochId := ack.epochId
            duplicate := ack.duplicate }
        else entry }

def setCall (s : Submits) (i : Nat) (call : Call) : Submits := { s with calls := s.calls.set i call }

def fail (s : Submits) (i : Nat) (call : Call) : Submits :=
  (call.operationIds.foldl failPendingAck s).setCall i { call with state := .failed }

/-- After the catch-up of `#reconcileDurableBatch`. -/
def reconcile (s : Submits) (i : Nat) (call : Call) : Submits :=
  if call.operationIds.any fun operationId => operationId ∈ s.appliedOperationIds then
    s.setCall i { call with state := .returned }
  else s.fail i call

end Submits

/-- A POST is answered, fails for now, is turned away by admission, or fails for good; `none`
answers the catch-up that a reconciliation asks for when that fails. -/
inductive Submission where
  | submit (operationIds : List String)
  | apply (op : Operation)
  | answered (call : Nat) (acks : List Ack)
  | transient (call : Nat)
  | turnedAway (call : Nat)
  | refused (call : Nat)
  | reconciled (call : Nat) (operations : Option (List Operation))

/-- The call whose POST the move may bring back. -/
def Submission.returns : Submission → Option Nat
  | .answered i _ => some i
  | .reconciled i (some _) => some i
  | _ => none

namespace Submits

def step (maxSubmitRetries : Nat) (s : Submits) : Submission → Option Submits
  | .submit operationIds => if operationIds = [] then none else some (s.submit operationIds)
  | .apply op => some (s.applyOperation op)
  | .answered i acks =>
    match s.calls[i]? with
    | some call =>
      if call.state = .posting then
        some ((acks.foldl recordAck s).setCall i { call with state := .returned })
      else none
    | none => none
  | .transient i =>
    match s.calls[i]? with
    | some call =>
      if call.state = .posting then
        some (if call.attempt < maxSubmitRetries then
          s.setCall i { call with attempt := call.attempt + 1 }
        else s.fail i call)
      else none
    | none => none
  | .turnedAway i =>
    match s.calls[i]? with
    | some call =>
      if call.state = .posting then
        some (if 0 < call.attempt then s.setCall i { call with state := .reconciling }
        else s.fail i call)
      else none
    | none => none
  | .refused i =>
    match s.calls[i]? with
    | some call => if call.state = .posting then some (s.fail i call) else none
    | none => none
  | .reconciled i operations =>
    match s.calls[i]? with
    | some call =>
      if call.state = .reconciling then
        some (match operations with
          | some operations => (operations.foldl applyOperation s).reconcile i call
          | none => s.fail i call)
      else none
    | none => none

end Submits

end Solweig.Studio
