import Mathlib.Data.List.Sort

/-!
# The realtime client

One subscribed workspace of the studio client: the stream of events, the recovery of missed events,
the reconnect cycle, and the catch-up that both wait for. The client runs on one thread, so what
follows an answer up to the next wait is one step.
-/

namespace Solweig.Studio

/-! ## What the server sends -/

structure Operation where
  operationId : String
  serverSequence : Nat
  deriving DecidableEq

inductive Event where
  | canonicalRevision (operations : List Operation)
  | heartbeat (missedEvents : Nat)

def Event.operations : Event → List Operation
  | .canonicalRevision operations => operations
  | .heartbeat _ => []

def operationsOf (events : List Event) : List Operation := events.flatMap Event.operations

/-- The logged operations above one sequence and up to another. -/
def between (log : List Operation) (since upTo : Nat) : List Operation :=
  log.filter fun op => since < op.serverSequence ∧ op.serverSequence ≤ upTo

/-! ## The workspace -/

inductive Phase where
  | live
  | buffering
  | reconnecting
  | catchingUp
  | failed
  deriving DecidableEq

/-- A catch-up GET without an answer yet. `logged` is what the log held when it was asked. -/
structure Get where
  since : Nat
  logged : Nat
  deriving DecidableEq

/-- What a reconnect cycle waits for. -/
inductive Wait where
  | backoff
  | catchUp (get : Get)
  deriving DecidableEq

structure Workspace where
  state : Phase
  sourceOpen : Bool
  sourceBroken : Bool
  gapPending : Bool
  bufferedEvents : List Event
  /-- The running cycle. -/
  reconnectCycle : Option Wait
  reconnectAttempts : Nat
  appliedOperationIds : List String
  lastServerSequence : Nat
  /-- The running recoveries of missed events, each with the GET that it waits for. -/
  recoveries : List Get
  -- history only: the calls of `onOperation`
  handedOver : List Operation

namespace Workspace

/-- After `subscribeWorkspace` on an empty log. -/
def subscribed : Workspace where
  state := .live
  sourceOpen := true
  sourceBroken := false
  gapPending := false
  bufferedEvents := []
  reconnectCycle := none
  reconnectAttempts := 0
  appliedOperationIds := []
  lastServerSequence := 0
  recoveries := []
  handedOver := []

/-- `#applyOperation` -/
def applyOperation (w : Workspace) (op : Operation) : Workspace :=
  if op.operationId = "" ∨ op.operationId ∈ w.appliedOperationIds then w
  else
    { w with
      appliedOperationIds := w.appliedOperationIds ++ [op.operationId]
      lastServerSequence :=
        if 0 < op.serverSequence then max w.lastServerSequence op.serverSequence
        else w.lastServerSequence
      handedOver := w.handedOver ++ [op] }

def applyOperations (w : Workspace) (operations : List Operation) : Workspace :=
  operations.foldl applyOperation w

/-- The answer of a catch-up GET, in server order. -/
def applyAnswer (w : Workspace) (operations : List Operation) : Workspace :=
  w.applyOperations (operations.insertionSort fun a b => a.serverSequence ≤ b.serverSequence)

def ask (w : Workspace) (logged : Nat) : Get := ⟨w.lastServerSequence, logged⟩

/-! ## Recovery of missed events -/

/-- `#recoverMissedEvents`, up to the wait for its GET. -/
def recoverMissedEvents (logged : Nat) (w : Workspace) : Workspace :=
  if w.gapPending ∨ w.reconnectCycle.isSome then w
  else
    { w with
      gapPending := true
      bufferedEvents := []
      state := .catchingUp
      recoveries := w.recoveries ++ [w.ask logged] }

def deliverEvent (logged : Nat) (w : Workspace) : Event → Workspace
  | .canonicalRevision operations => w.applyOperations operations
  | .heartbeat missedEvents => if 0 < missedEvents then w.recoverMissedEvents logged else w

/-- `#onStreamEvent`, for events. -/
def onStreamEvent (logged : Nat) (w : Workspace) (event : Event) : Workspace :=
  if w.gapPending then { w with bufferedEvents := w.bufferedEvents ++ [event] }
  else w.deliverEvent logged event

/-- The buffered events are taken before they are delivered. -/
def flush (logged : Nat) (w : Workspace) : Workspace :=
  w.bufferedEvents.foldl (deliverEvent logged) { w with bufferedEvents := [] }

/-! ## Reconnect -/

/-- The head of the loop of `#runReconnectCycle`. -/
def nextAttempt (maxReconnectRetries : Nat) (w : Workspace) : Workspace :=
  let attempts := w.reconnectAttempts + 1
  if maxReconnectRetries < attempts then
    { w with reconnectAttempts := attempts, reconnectCycle := none, state := .failed }
  else { w with reconnectAttempts := attempts, reconnectCycle := some .backoff }

def onStreamError (maxReconnectRetries : Nat) (w : Workspace) : Workspace :=
  if w.reconnectCycle.isSome then { w with sourceBroken := true, sourceOpen := false }
  else { w with sourceOpen := false, state := .reconnecting }.nextAttempt maxReconnectRetries

/-- The backoff is over: the replacement stream opens, and the gap is asked for. -/
def openReplacement (logged : Nat) (w : Workspace) : Workspace :=
  { w with
    gapPending := true
    bufferedEvents := []
    sourceOpen := true
    sourceBroken := false
    state := .buffering
    reconnectCycle := some (.catchUp (w.ask logged)) }

/-- The rest of an attempt, with the answer of its GET, or after a transient failure. -/
def endAttempt (maxReconnectRetries logged : Nat) (w : Workspace)
    (answer : Option (List Operation)) : Workspace :=
  let flushed := ((answer.map w.applyAnswer).getD w).flush logged
  if answer.isNone ∨ flushed.sourceBroken then
    { flushed with sourceOpen := false, gapPending := false, state := .reconnecting }.nextAttempt
      maxReconnectRetries
  else
    { flushed with
      gapPending := false
      state := .live
      reconnectAttempts := 0
      reconnectCycle := none }

/-- The rest of `#runMissedEventsRecovery`, for the recovery at `i`. -/
def endRecovery (maxReconnectRetries logged : Nat) (w : Workspace) (i : Nat)
    (answer : Option (List Operation)) : Workspace :=
  let caughtUp :=
    { (answer.map w.applyAnswer).getD w with recoveries := w.recoveries.eraseIdx i }
  if w.reconnectCycle.isSome then { caughtUp with gapPending := false }
  else if answer.isNone then
    { caughtUp with sourceOpen := false, gapPending := false, bufferedEvents := [] }.onStreamError
      maxReconnectRetries
  else
    let flushed := { caughtUp with gapPending := false }.flush logged
    if flushed.state = .catchingUp ∧ flushed.gapPending = false then { flushed with state := .live }
    else flushed

end Workspace

/-! ## The client with its server -/

/-- `queue` is of the open stream, with the count of frames that it dropped since its last
heartbeat. -/
structure System where
  log : List Operation
  queue : List Event
  missed : Nat
  workspace : Workspace
  /-- GETs of `catchUpWorkspace`. -/
  fetches : List Get

def System.initial : System := ⟨[], [], 0, .subscribed, []⟩

/-- A canonical revision carries the operations of its epoch, and revisions need not come in the
order of the sequences. An answer is of the log at some moment between the question and now; `none`
is a transient failure. -/
inductive Move where
  | accept (op : Operation)
  | publish (operations : List Operation)
  | drop
  | heartbeat
  | deliver
  | streamError
  | backoffEnds
  | attemptAnswer (upTo : Option Nat)
  | recoveryAnswer (i : Nat) (upTo : Option Nat)
  | fetch
  | fetchAnswer (i : Nat) (upTo : Option Nat)

def Event.isCanonical : Event → Bool
  | .canonicalRevision _ => true
  | .heartbeat _ => false

/-- A stream that is closed takes its queue with it. -/
def System.put (s : System) (w : Workspace) : System :=
  if w.sourceOpen then { s with workspace := w }
  else { s with workspace := w, queue := [], missed := 0 }

def Answers (s : System) (get : Get) (upTo : Option Nat) : Prop :=
  ∀ n ∈ upTo, get.logged ≤ n ∧ n ≤ s.log.length

instance (s : System) (get : Get) (upTo : Option Nat) : Decidable (Answers s get upTo) :=
  inferInstanceAs (Decidable (∀ n ∈ upTo, _))

def System.answer (s : System) (get : Get) (upTo : Option Nat) : Option (List Operation) :=
  upTo.map (between s.log get.since)

def step (maxReconnectRetries : Nat) (s : System) : Move → Option System
  | .accept op =>
    if op.operationId ≠ "" ∧ op.operationId ∉ s.log.map (·.operationId) ∧
        op.serverSequence = s.log.length + 1 then some { s with log := s.log ++ [op] }
    else none
  | .publish operations =>
    if ∀ op ∈ operations, op ∈ s.log then
      some { s with
        queue :=
          if s.workspace.sourceOpen then s.queue ++ [.canonicalRevision operations] else s.queue }
    else none
  | .drop =>
    if s.queue.any Event.isCanonical then
      some { s with queue := s.queue.eraseP Event.isCanonical, missed := s.missed + 1 }
    else none
  | .heartbeat =>
    if s.workspace.sourceOpen then
      some { s with queue := s.queue ++ [.heartbeat s.missed], missed := 0 }
    else none
  | .deliver =>
    match s.queue with
    | event :: queue =>
      some ({ s with queue }.put (s.workspace.onStreamEvent s.log.length event))
    | [] => none
  | .streamError =>
    if s.workspace.sourceOpen then some (s.put (s.workspace.onStreamError maxReconnectRetries))
    else none
  | .backoffEnds =>
    if s.workspace.reconnectCycle = some .backoff then
      some (s.put (s.workspace.openReplacement s.log.length))
    else none
  | .attemptAnswer upTo =>
    match s.workspace.reconnectCycle with
    | some (.catchUp get) =>
      if Answers s get upTo then
        some (s.put (s.workspace.endAttempt maxReconnectRetries s.log.length (s.answer get upTo)))
      else none
    | _ => none
  | .recoveryAnswer i upTo =>
    match s.workspace.recoveries[i]? with
    | some get =>
      if Answers s get upTo then
        some (s.put
          (s.workspace.endRecovery maxReconnectRetries s.log.length i (s.answer get upTo)))
      else none
    | none => none
  | .fetch => some { s with fetches := s.fetches ++ [s.workspace.ask s.log.length] }
  | .fetchAnswer i upTo =>
    match s.fetches[i]? with
    | some get =>
      if Answers s get upTo then
        some
          { s with
            workspace := ((s.answer get upTo).map s.workspace.applyAnswer).getD s.workspace
            fetches := s.fetches.eraseIdx i }
      else none
    | none => none

end Solweig.Studio
