import Solweig.Json
import Solweig.Lib.Run

/-!
# The broadcast hub

One bounded queue per stream, and the presence roster. Every call runs on the loop of its streams,
so a delivery is part of the call. A frame is kept as its event name and its data, before it is
written as text.
-/

namespace Solweig.Realtime

open Solweig.Lib

/-! ## Frames -/

structure HeartbeatPayload where
  missedEvents : Option Nat
  roster : Option (List String)

/-- What a queue holds: a named frame, a heartbeat, or the end of the stream. -/
inductive Item where
  | frame (event : String) (data : Json)
  | heartbeat (payload : HeartbeatPayload)
  | close

def Item.isHeartbeat : Item → Bool
  | .heartbeat _ => true
  | _ => false

def Item.isClose : Item → Bool
  | .close => true
  | _ => false

/-! ## One stream -/

structure Subscription where
  workspaceId : String
  actorId : Option String
  queue : List Item
  lagged : Bool
  missed : Nat
  closed : Bool
  -- history only: the evictions so far, and the frames that the client has read
  dropped : Nat
  read : List Item

namespace Subscription

def fresh (workspaceId : String) (actorId : Option String) : Subscription where
  workspaceId
  actorId
  queue := []
  lagged := false
  missed := 0
  closed := false
  dropped := 0
  read := []

/-- `none` where no heartbeat is pending. -/
def replacePending (item : Item) : List Item → Option (List Item)
  | [] => none
  | existing :: rest =>
    if existing.isHeartbeat then some (item :: rest)
    else (replacePending item rest).map (existing :: ·)

/-- The end of `_enqueue`: the capacity drop and the put. -/
def put (queueSize : Nat) (item : Item) (privileged : Bool) (s : Subscription) : Subscription :=
  if ¬ item.isClose ∧ ¬ privileged ∧ queueSize ≤ s.queue.length then
    match s.queue with
    | [] => { s with queue := [item] }
    | _ :: rest =>
      { s with
        queue := rest ++ [item]
        missed := s.missed + 1
        lagged := true
        dropped := s.dropped + 1 }
  else { s with queue := s.queue ++ [item] }

/-- `_enqueue` -/
def enqueue (queueSize : Nat) (item : Item) (privileged : Bool) (s : Subscription) :
    Subscription :=
  if s.closed ∧ ¬ item.isClose then s
  else if item.isHeartbeat then
    match replacePending item s.queue with
    | some queue => { s with queue }
    | none => s.put queueSize item privileged
  else s.put queueSize item privileged

/-- The stream as `subscribe` makes it, with the snapshot as its first frame. -/
def opened (queueSize : Nat) (workspaceId : String) (snapshot : Option Json)
    (actorId : Option String) : Subscription :=
  match snapshot with
  | some data =>
    (fresh workspaceId actorId).enqueue queueSize (.frame "canonical_revision" data) false
  | none => fresh workspaceId actorId

/-- `heartbeat_payload`, which consumes the lag flag. -/
def heartbeatPayload (s : Subscription) : HeartbeatPayload × Subscription :=
  if s.lagged then
    ({ missedEvents := some s.missed, roster := none }, { s with lagged := false, missed := 0 })
  else ({ missedEvents := none, roster := none }, s)

/-- One turn of the loop of `send_heartbeats`. -/
def beat (queueSize : Nat) (roster : Option (List String)) (s : Subscription) : Subscription :=
  let (payload, s) := s.heartbeatPayload
  s.enqueue queueSize (.heartbeat { payload with roster }) true

/-- `__anext__`. It waits on an empty queue, and the sentinel ends the stream. -/
def next (s : Subscription) : Option Subscription :=
  match s.queue with
  | [] => none
  | .close :: rest => some { s with queue := rest }
  | item :: rest => some { s with queue := rest, read := s.read ++ [item] }

end Subscription

/-! ## The hub -/

/-- A stream is named by its place among all the streams that were ever opened. -/
structure Hub where
  queueSize : Nat
  subscribers : Dict String (List Nat)
  liveActors : Dict String (Dict String Nat)
  closed : Bool
  subscriptions : List Subscription

namespace Hub

def fresh (queueSize : Nat) : Hub where
  queueSize
  subscribers := ∅
  liveActors := ∅
  closed := false
  subscriptions := []

def registered (hub : Hub) (workspaceId : String) : List Nat := hub.subscribers.getD workspaceId []

/-- The streams of all workspaces. -/
def everyone (hub : Hub) : List Nat := hub.subscribers.toList.flatMap (·.2)

/-- `deliver` to each of the streams. -/
def deliver (hub : Hub) (streams : List Nat) (f : Subscription → Subscription) : Hub :=
  { hub with subscriptions := hub.subscriptions.mapIdx fun i s => if i ∈ streams then f s else s }

/-- `_publish` -/
def publish (hub : Hub) (workspaceId event : String) (data : Json) : Hub :=
  hub.deliver (hub.registered workspaceId) (·.enqueue hub.queueSize (.frame event data) false)

/-- The roster that the heartbeats of a workspace carry. -/
def roster? (hub : Hub) (workspaceId : String) : Option (List String) :=
  hub.liveActors[workspaceId]?.bind fun actors =>
    if actors.isEmpty then none else some actors.keys

def sendHeartbeats (hub : Hub) : Hub :=
  if hub.closed then hub
  else hub.deliver hub.everyone fun s => s.beat hub.queueSize (hub.roster? s.workspaceId)

/-- `live_actors` -/
def roster (hub : Hub) (workspaceId : String) : List String :=
  (hub.liveActors.getD workspaceId ∅).keys

def addActor (live : Dict String (Dict String Nat)) (workspaceId actorId : String) :
    Dict String (Dict String Nat) :=
  let actors := live.getD workspaceId ∅
  live.insert workspaceId (actors.insert actorId (actors.getD actorId 0 + 1))

def subscribe (hub : Hub) (workspaceId : String) (snapshot : Option Json)
    (actorId : Option String) : Hub :=
  let s := Subscription.opened hub.queueSize workspaceId snapshot actorId
  if hub.closed then
    let ended := { s with closed := true, queue := s.queue ++ [.close] }
    { hub with subscriptions := hub.subscriptions ++ [ended] }
  else
    { hub with
      subscriptions := hub.subscriptions ++ [s]
      subscribers := hub.subscribers.push workspaceId hub.subscriptions.length
      liveActors := match actorId with
        | some actor => if actor = "" then hub.liveActors else addActor hub.liveActors workspaceId actor
        | none => hub.liveActors }

/-- One stream of the actor less, and no entry at zero. -/
def release (actors : Dict String Nat) (actorId : String) (count : Nat) : Dict String Nat :=
  if count ≤ 1 then actors.erase actorId else actors.insert actorId (count - 1)

def dropActor (live : Dict String (Dict String Nat)) (workspaceId actorId : String) :
    Dict String (Dict String Nat) :=
  match live[workspaceId]? with
  | none => live
  | some actors =>
    match actors[actorId]? with
    | none => live
    | some count =>
      let actors := release actors actorId count
      if actors.isEmpty then live.erase workspaceId else live.insert workspaceId actors

/-- The end of a stream: marked closed, then the sentinel. -/
def finish (queueSize : Nat) (s : Subscription) : Subscription :=
  { s with closed := true }.enqueue queueSize .close false

def unsubscribe (hub : Hub) (i : Nat) (s : Subscription) : Hub :=
  match hub.subscribers[s.workspaceId]? with
  | none => hub
  | some streams =>
    let remaining := streams.filter (· ≠ i)
    { hub with
      subscribers := if remaining = [] then hub.subscribers.erase s.workspaceId
        else hub.subscribers.insert s.workspaceId remaining
      liveActors := match s.actorId with
        | some actor => if actor = "" then hub.liveActors else dropActor hub.liveActors s.workspaceId actor
        | none => hub.liveActors }.deliver [i] (finish hub.queueSize)

/-- `BroadcastHub.close` -/
def close (hub : Hub) : Hub :=
  { hub with closed := true, subscribers := ∅ }.deliver hub.everyone (finish hub.queueSize)

end Hub

/-! ## Runs -/

inductive HubEvent where
  | publish (workspaceId event : String) (data : Json)
  | heartbeats
  | subscribe (workspaceId : String) (snapshot : Option Json) (actorId : Option String)
  /-- `push_snapshot` and `push_selected_time` -/
  | push (stream : Nat) (event : String) (data : Json)
  | read (stream : Nat)
  /-- `Subscription.close`, from either of the finally blocks -/
  | unsubscribe (stream : Nat)
  | close

/-- `none` where the call names no stream, or would wait. -/
def hubStep (hub : Hub) : HubEvent → Option Hub
  | .publish workspaceId event data => some (hub.publish workspaceId event data)
  | .heartbeats => some hub.sendHeartbeats
  | .subscribe workspaceId snapshot actorId => some (hub.subscribe workspaceId snapshot actorId)
  | .push i event data =>
    some (hub.deliver [i] (·.enqueue hub.queueSize (.frame event data) true))
  | .read i => do
    let s ← hub.subscriptions[i]?
    let s ← s.next
    return { hub with subscriptions := hub.subscriptions.set i s }
  | .unsubscribe i => hub.subscriptions[i]?.map (hub.unsubscribe i)
  | .close => some hub.close

/-! ## What a call does to one stream -/

namespace Hub

@[simp]
theorem deliver_stream (hub : Hub) (streams : List Nat) (f : Subscription → Subscription) (i : Nat) :
    (hub.deliver streams f).subscriptions[i]? =
      hub.subscriptions[i]?.map fun s => if i ∈ streams then f s else s := by
  simp [deliver]

@[simp]
theorem deliver_subscribers (hub : Hub) (streams : List Nat) (f : Subscription → Subscription) :
    (hub.deliver streams f).subscribers = hub.subscribers := rfl

@[simp]
theorem deliver_liveActors (hub : Hub) (streams : List Nat) (f : Subscription → Subscription) :
    (hub.deliver streams f).liveActors = hub.liveActors := rfl

theorem mem_everyone {hub : Hub} {i : Nat} : i ∈ hub.everyone ↔ ∃ w, i ∈ hub.registered w := by
  simp only [everyone, registered, List.mem_flatMap, Prod.exists,
    Std.ExtTreeMap.mem_toList_iff_getElem?_eq_some, Std.ExtTreeMap.getD_eq_getD_getElem?]
  refine exists_congr fun w => ?_
  cases hub.subscribers[w]? <;> simp

end Hub

namespace Subscription

/-- What no delivery changes. -/
def identity (s : Subscription) : String × Option String × Bool :=
  (s.workspaceId, s.actorId, s.closed)

section Identity

variable (queueSize : Nat) (item : Item) (privileged : Bool) (s : Subscription)

theorem put_identity : (s.put queueSize item privileged).identity = s.identity := by
  unfold put
  split
  · split <;> rfl
  · rfl

theorem enqueue_identity : (s.enqueue queueSize item privileged).identity = s.identity := by
  unfold enqueue
  split
  · rfl
  · split
    · split
      · rfl
      · exact put_identity queueSize item privileged s
    · exact put_identity queueSize item privileged s

theorem opened_identity (w : String) (snapshot : Option Json) (actorId : Option String) :
    (opened queueSize w snapshot actorId).identity = (w, actorId, false) := by
  unfold opened
  split
  · rw [enqueue_identity]
    rfl
  · rfl

theorem heartbeatPayload_identity : s.heartbeatPayload.2.identity = s.identity := by
  unfold heartbeatPayload
  split <;> rfl

theorem beat_identity (roster : Option (List String)) :
    (s.beat queueSize roster).identity = s.identity := by
  unfold beat
  rw [enqueue_identity, heartbeatPayload_identity]

theorem next_identity {s t : Subscription} (h : s.next = some t) : t.identity = s.identity := by
  unfold next at h
  split at h
  · simp at h
  · rw [← Option.some.inj h]
    rfl
  · rw [← Option.some.inj h]
    rfl

end Identity

end Subscription

namespace Hub

def identity? (hub : Hub) (i : Nat) : Option (String × Option String × Bool) :=
  hub.subscriptions[i]?.map (·.identity)

/-- Calls that leave the registry alone. -/
structure Quiet (hub hub' : Hub) : Prop where
  subscribers : hub'.subscribers = hub.subscribers
  liveActors : hub'.liveActors = hub.liveActors
  identity : ∀ i, hub'.identity? i = hub.identity? i

theorem deliver_quiet (hub : Hub) (streams : List Nat) {f : Subscription → Subscription}
    (hf : ∀ s, (f s).identity = s.identity) : hub.Quiet (hub.deliver streams f) := by
  refine ⟨rfl, rfl, fun i => ?_⟩
  unfold identity?
  rw [deliver_stream, Option.map_map]
  congr 1
  funext s
  simp only [Function.comp_apply]
  split
  · exact hf s
  · rfl

end Hub

theorem hubStep_quiet {hub hub' : Hub} {event : HubEvent} (h : hubStep hub event = some hub') :
    hub.Quiet hub' ∨
      (∃ w snapshot actorId, event = .subscribe w snapshot actorId ∧
        hub' = hub.subscribe w snapshot actorId) ∨
      (∃ i s, event = .unsubscribe i ∧ hub.subscriptions[i]? = some s ∧ hub' = hub.unsubscribe i s) ∨
      event = .close ∧ hub' = hub.close := by
  cases event with
  | publish w name data =>
    obtain rfl := Option.some.inj h
    exact Or.inl (hub.deliver_quiet _ fun s => s.enqueue_identity _ _ _)
  | heartbeats =>
    obtain rfl := Option.some.inj h
    unfold Hub.sendHeartbeats
    split
    · exact Or.inl ⟨rfl, rfl, fun _ => rfl⟩
    · exact Or.inl (hub.deliver_quiet _ fun s => s.beat_identity _ _)
  | subscribe w snapshot actorId =>
    obtain rfl := Option.some.inj h
    exact Or.inr (Or.inl ⟨w, snapshot, actorId, rfl, rfl⟩)
  | push i name data =>
    obtain rfl := Option.some.inj h
    exact Or.inl (hub.deliver_quiet _ fun s => s.enqueue_identity _ _ _)
  | read i =>
    obtain ⟨s, hs, h⟩ := Option.bind_eq_some_iff.mp h
    obtain ⟨t, ht, h⟩ := Option.bind_eq_some_iff.mp h
    obtain rfl := Option.some.inj h
    refine Or.inl ⟨rfl, rfl, fun j => ?_⟩
    unfold Hub.identity?
    by_cases hj : j = i
    · subst hj
      obtain ⟨hlt, hget⟩ := List.getElem?_eq_some_iff.mp hs
      simp [hlt, Subscription.next_identity ht, hget]
    · simp [List.getElem?_set_ne (Ne.symm hj)]
  | unsubscribe i =>
    obtain ⟨s, hs, rfl⟩ := Option.map_eq_some_iff.mp h
    exact Or.inr (Or.inr (Or.inl ⟨i, s, rfl, hs, rfl⟩))
  | close =>
    obtain rfl := Option.some.inj h
    exact Or.inr (Or.inr (Or.inr ⟨rfl, rfl⟩))

end Solweig.Realtime
