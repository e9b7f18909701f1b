import Solweig.Realtime.Roster

/-!
# Lag notices

The evictions of a stream and the counts that its heartbeats carry. A heartbeat that is replaced or
evicted takes its count with it.
-/

namespace Solweig.Realtime

open Solweig.Lib

/-! ## What a stream accounts for -/

def Item.missedEvents : Item → Nat
  | .heartbeat payload => payload.missedEvents.getD 0
  | _ => 0

/-- The evictions that the heartbeats among the frames tell of. -/
def noted (items : List Item) : Nat := (items.map Item.missedEvents).sum

theorem noted_append (items items' : List Item) : noted (items ++ items') = noted items + noted items' := by
  unfold noted
  rw [List.map_append, List.sum_append]

theorem noted_cons (item : Item) (items : List Item) :
    noted (item :: items) = item.missedEvents + noted items := by
  unfold noted
  rw [List.map_cons, List.sum_cons]

theorem noted_nil : noted [] = 0 := rfl

namespace Subscription

/-- Every eviction is in a heartbeat that was read, in one still queued, or in the counter. -/
def Conserved (s : Subscription) : Prop :=
  s.dropped = noted s.read + noted s.queue + s.missed

section Calls

variable {s : Subscription} {queueSize : Nat} {item : Item}

theorem put_privileged (h : s.Conserved) (hitem : item.missedEvents = 0) :
    (s.put queueSize item true).Conserved := by
  unfold Conserved put at *
  simp only [not_true_eq_false, false_and, and_false, if_false]
  rw [noted_append, noted_cons, noted_nil]
  omega

theorem put_close (h : s.Conserved) (privileged : Bool) :
    (s.put queueSize .close privileged).Conserved := by
  unfold Conserved put at *
  simp only [Item.isClose, not_true_eq_false, false_and, if_false]
  rw [noted_append, noted_cons, noted_nil]
  simp only [Item.missedEvents]
  omega

theorem put_frame (h : s.Conserved) (event : String) (data : Json) :
    (s.put queueSize (.frame event data) false).Conserved ↔
      (queueSize ≤ s.queue.length → ∀ oldest ∈ s.queue.head?, oldest.missedEvents = 0) := by
  unfold Conserved put at *
  by_cases hfull : queueSize ≤ s.queue.length
  · simp only [hfull, Item.isClose, Bool.false_eq_true, not_false_eq_true, and_self, if_true,
      true_implies]
    cases hqueue : s.queue with
    | nil =>
      rw [hqueue, noted_nil] at h
      simp only [List.head?_nil, Option.mem_def, reduceCtorEq, false_implies, implies_true, iff_true]
      rw [noted_cons, noted_nil]
      simp only [Item.missedEvents]
      omega
    | cons oldest rest =>
      rw [hqueue, noted_cons] at h
      simp only [List.head?_cons, Option.mem_def, Option.some.injEq, forall_eq']
      rw [noted_append, noted_cons, noted_nil]
      simp only [Item.missedEvents] at h ⊢
      omega
  · simp only [hfull, and_false, if_false, false_implies, iff_true]
    rw [noted_append, noted_cons, noted_nil]
    simp only [Item.missedEvents]
    omega

theorem enqueue_frame (h : s.Conserved) (hopen : s.closed = false) (event : String) (data : Json) :
    (s.enqueue queueSize (.frame event data) false).Conserved ↔
      (queueSize ≤ s.queue.length → ∀ oldest ∈ s.queue.head?, oldest.missedEvents = 0) := by
  unfold enqueue
  simp only [hopen, Bool.false_eq_true, false_and, if_false, Item.isHeartbeat]
  exact put_frame h event data

theorem enqueue_privileged (h : s.Conserved) (event : String) (data : Json) :
    (s.enqueue queueSize (.frame event data) true).Conserved := by
  unfold enqueue
  split
  · exact h
  · simp only [Item.isHeartbeat, Bool.false_eq_true, if_false]
    exact put_privileged h rfl

theorem finish_conserved (h : s.Conserved) (queueSize : Nat) :
    (Hub.finish queueSize s).Conserved := by
  unfold Hub.finish enqueue
  simp only [Item.isClose, not_true_eq_false, and_false, if_false, Item.isHeartbeat,
    Bool.false_eq_true]
  have hclosed : { s with closed := true }.Conserved := h
  exact put_close hclosed false

theorem next_conserved {t : Subscription} (h : s.Conserved) (ht : s.next = some t) :
    t.Conserved := by
  unfold next at ht
  unfold Conserved at *
  split at ht
  · simp at ht
  · rename_i rest hqueue
    rw [hqueue, noted_cons] at h
    rw [← Option.some.inj ht]
    simp only [Item.missedEvents] at h ⊢
    omega
  · rename_i item rest _ hqueue
    rw [hqueue, noted_cons] at h
    rw [← Option.some.inj ht]
    simp only [noted_append, noted_cons, noted_nil]
    omega

theorem opened_conserved (queueSize : Nat) (w : String) (snapshot : Option Json)
    (actorId : Option String) : (opened queueSize w snapshot actorId).Conserved := by
  unfold opened
  split
  · have hfresh : (fresh w actorId).Conserved := rfl
    apply (enqueue_frame hfresh rfl _ _).mpr
    intro _ oldest holdest
    simp [fresh] at holdest
  · rfl

/-! ## Heartbeats -/

theorem heartbeatPayload_spec (s : Subscription) :
    s.heartbeatPayload.2.queue = s.queue ∧ s.heartbeatPayload.2.read = s.read ∧
      s.heartbeatPayload.2.dropped = s.dropped ∧ s.heartbeatPayload.2.closed = s.closed ∧
      s.heartbeatPayload.1.missedEvents.getD 0 + s.heartbeatPayload.2.missed = s.missed := by
  unfold heartbeatPayload
  split
  · exact ⟨rfl, rfl, rfl, rfl, rfl⟩
  · exact ⟨rfl, rfl, rfl, rfl, by simp⟩

/-- The count that a newer heartbeat would replace. -/
def pendingCount (queue : List Item) : Nat :=
  ((queue.find? (·.isHeartbeat)).map Item.missedEvents).getD 0

theorem replacePending_spec (item : Item) (queue : List Item) :
    (replacePending item queue = none ∧ pendingCount queue = 0) ∨
      ∃ queue', replacePending item queue = some queue' ∧
        noted queue' + pendingCount queue = noted queue + item.missedEvents := by
  induction queue with
  | nil => exact Or.inl ⟨rfl, rfl⟩
  | cons existing rest ih =>
    unfold replacePending pendingCount
    cases hkind : existing.isHeartbeat with
    | true =>
      refine Or.inr ⟨item :: rest, rfl, ?_⟩
      rw [noted_cons, noted_cons, List.find?_cons_of_pos hkind]
      simp only [Option.map_some, Option.getD_some]
      omega
    | false =>
      rw [List.find?_cons_of_neg (by simp [hkind])]
      rcases ih with ⟨hnone, hzero⟩ | ⟨queue', hsome, hnoted⟩
      · exact Or.inl ⟨by simp [hnone], hzero⟩
      · refine Or.inr ⟨existing :: queue', by simp [hsome], ?_⟩
        unfold pendingCount at hnoted
        rw [noted_cons, noted_cons]
        omega

theorem enqueue_heartbeat (hopen : s.closed = false) (payload : HeartbeatPayload) :
    (s.enqueue queueSize (.heartbeat payload) true).Conserved ↔
      s.dropped + pendingCount s.queue =
        noted s.read + noted s.queue + payload.missedEvents.getD 0 + s.missed := by
  unfold enqueue Conserved
  simp only [hopen, Bool.false_eq_true, false_and, if_false, Item.isHeartbeat, if_true]
  rcases replacePending_spec (.heartbeat payload) s.queue with ⟨hnone, hzero⟩ | ⟨queue', hsome, hnoted⟩
  · rw [hnone, hzero]
    unfold put
    simp only [Item.isClose, not_true_eq_false, false_and, and_false, if_false]
    rw [noted_append, noted_cons, noted_nil]
    simp only [Item.missedEvents]
    omega
  · rw [hsome]
    simp only [Item.missedEvents] at hnoted ⊢
    omega

theorem beat_conserved (h : s.Conserved) (hopen : s.closed = false)
    (roster : Option (List String)) :
    (s.beat queueSize roster).Conserved ↔ pendingCount s.queue = 0 := by
  obtain ⟨hqueue, hread, hdropped, hclosed, hmoved⟩ := heartbeatPayload_spec s
  have hbeat : s.beat queueSize roster = s.heartbeatPayload.2.enqueue queueSize
      (.heartbeat { s.heartbeatPayload.1 with roster }) true := rfl
  rw [hbeat, enqueue_heartbeat (hclosed.trans hopen), hqueue, hread, hdropped]
  unfold Conserved at h
  simp only
  omega

end Calls

end Subscription

/-! ## Runs -/

namespace Hub

section Notices

variable {hub hub' : Hub} {event : HubEvent} {i : Nat}

def Conserves (i : Nat) (hub : Hub) : Prop :=
  ∀ s, hub.subscriptions[i]? = some s → s.Conserved

/-- What a call must find for the stream to keep its account: a full queue whose oldest frame tells
of no eviction, and no pending heartbeat that does. -/
def NoticesKept (i : Nat) (hub : Hub) : HubEvent → Prop
  | .publish w _ _ => i ∈ hub.registered w → ∀ s, hub.subscriptions[i]? = some s →
    hub.queueSize ≤ s.queue.length → ∀ oldest ∈ s.queue.head?, oldest.missedEvents = 0
  | .heartbeats => hub.closed = false → i ∈ hub.everyone → ∀ s, hub.subscriptions[i]? = some s →
    Subscription.pendingCount s.queue = 0
  | _ => True

theorem Registry.opened (hr : hub.Registry) {w : String} (hi : i ∈ hub.registered w)
    {s : Subscription} (hs : hub.subscriptions[i]? = some s) : s.closed = false := by
  obtain ⟨actorId, hid⟩ := hr.own w i hi
  simp only [identity?, hs, Option.map_some, Option.some.injEq, Subscription.identity,
    Prod.mk.injEq] at hid
  exact hid.2.2

theorem deliver_conserves (streams : List Nat) (f : Subscription → Subscription) :
    (hub.deliver streams f).Conserves i ↔
      ∀ s, hub.subscriptions[i]? = some s → (if i ∈ streams then f s else s).Conserved := by
  unfold Conserves
  rw [deliver_stream]
  simp [Option.map_eq_some_iff]

theorem subscribe_conserves (h : hub.Conserves i) (w : String) (snapshot : Option Json)
    (actorId : Option String) : (hub.subscribe w snapshot actorId).Conserves i := by
  have hopened := Subscription.opened_conserved hub.queueSize w snapshot actorId
  intro s hs
  unfold subscribe at hs
  split at hs
  · rw [List.getElem?_append] at hs
    split at hs
    · exact h s hs
    · obtain rfl := List.mem_singleton.mp (List.mem_of_getElem? hs)
      unfold Subscription.Conserved at hopened ⊢
      rw [noted_append, noted_cons, noted_nil]
      simp only [Item.missedEvents]
      omega
  · rw [List.getElem?_append] at hs
    split at hs
    · exact h s hs
    · obtain rfl := List.mem_singleton.mp (List.mem_of_getElem? hs)
      exact hopened

theorem unsubscribe_conserves (h : hub.Conserves i) (j : Nat) (s : Subscription) :
    (hub.unsubscribe j s).Conserves i := by
  unfold unsubscribe
  split
  · exact h
  · apply (deliver_conserves _ _).mpr
    intro s hs
    split
    · exact Subscription.finish_conserved (h s hs) hub.queueSize
    · exact h s hs

theorem close_conserves (h : hub.Conserves i) : hub.close.Conserves i := by
  apply (deliver_conserves _ _).mpr
  intro s hs
  split
  · exact Subscription.finish_conserved (h s hs) hub.queueSize
  · exact h s hs

theorem hubStep_conserves (hr : hub.Registry) (h : hub.Conserves i)
    (hstep : hubStep hub event = some hub') : hub'.Conserves i ↔ hub.NoticesKept i event := by
  cases event with
  | publish w name data =>
    obtain rfl := Option.some.inj hstep
    unfold publish NoticesKept
    rw [deliver_conserves]
    by_cases hi : i ∈ hub.registered w
    · simp only [hi, if_true, true_implies]
      refine forall₂_congr fun s hs => ?_
      exact Subscription.enqueue_frame (h s hs) (hr.opened hi hs) name data
    · simp only [hi, if_false, false_implies, iff_true]
      exact h
  | heartbeats =>
    obtain rfl := Option.some.inj hstep
    unfold sendHeartbeats NoticesKept
    cases hclosed : hub.closed with
    | true => simpa using h
    | false =>
      simp only [Bool.false_eq_true, if_false, true_implies]
      rw [deliver_conserves]
      by_cases hi : i ∈ hub.everyone
      · obtain ⟨w, hw⟩ := mem_everyone.mp hi
        simp only [hi, if_true, true_implies]
        refine forall₂_congr fun s hs => ?_
        exact Subscription.beat_conserved (h s hs) (hr.opened hw hs) _
      · simp only [hi, if_false, false_implies, iff_true]
        exact h
  | subscribe w snapshot actorId =>
    obtain rfl := Option.some.inj hstep
    exact iff_of_true (subscribe_conserves h w snapshot actorId) trivial
  | push j name data =>
    obtain rfl := Option.some.inj hstep
    refine iff_of_true ((deliver_conserves _ _).mpr fun s hs => ?_) trivial
    split
    · exact Subscription.enqueue_privileged (h s hs) name data
    · exact h s hs
  | read j =>
    obtain ⟨s, hs, hstep⟩ := Option.bind_eq_some_iff.mp hstep
    obtain ⟨t, ht, hstep⟩ := Option.bind_eq_some_iff.mp hstep
    obtain rfl := Option.some.inj hstep
    refine iff_of_true (fun u hu => ?_) trivial
    rw [List.getElem?_set] at hu
    split at hu
    · rename_i hj
      split at hu
      · rw [← Option.some.inj hu]
        exact Subscription.next_conserved (h s (hj ▸ hs)) ht
      · simp at hu
    · exact h u hu
  | unsubscribe j =>
    obtain ⟨s, hs, rfl⟩ := Option.map_eq_some_iff.mp hstep
    exact iff_of_true (unsubscribe_conserves h j s) trivial
  | close =>
    obtain rfl := Option.some.inj hstep
    exact iff_of_true (close_conserves h) trivial

end Notices

/-- In a run a stream accounts for its evictions throughout exactly when each call meets the
condition. -/
theorem lag_notices_conserved {queueSize : Nat} {hub : Hub} {events : List HubEvent} {i : Nat}
    (hrun : run hubStep (fresh queueSize) events = some hub) :
    (∀ reached, Visits hubStep (fresh queueSize) events reached → reached.Conserves i) ↔
      EachStep hubStep (NoticesKept i) (fresh queueSize) events := by
  refine always_iff_eachStep (fun _ _ _ hr h => hubStep_registry hr h)
    (fun _ _ _ hr hp h => hubStep_conserves hr hp h) (registry_fresh queueSize) ?_ hrun
  intro s hs
  simp [fresh] at hs

/-! ### A notice that is never read -/

/-- One eviction, and two heartbeats before the client reads again. -/
def twoBeats : List HubEvent :=
  [.subscribe "w" none none, .publish "w" "canonical_revision" .null,
    .publish "w" "canonical_revision" .null, .heartbeats, .heartbeats]

theorem twoBeats_lose_notice : ¬ ∀ (queueSize i : Nat) (hub : Hub) (events : List HubEvent),
    run hubStep (fresh queueSize) events = some hub → hub.Conserves i := by
  intro h
  have hrun : (run hubStep (fresh 1) twoBeats).bind (fun hub => hub.subscriptions[0]?.map fun s =>
      (s.dropped, noted s.read, noted s.queue, s.missed)) = some (1, 0, 0, 0) := by decide
  obtain ⟨hub, hhub, hview⟩ := Option.bind_eq_some_iff.mp hrun
  obtain ⟨s, hs, hview⟩ := Option.map_eq_some_iff.mp hview
  have hconserved := h 1 0 hub twoBeats hhub s hs
  unfold Subscription.Conserved at hconserved
  simp only [Prod.mk.injEq] at hview
  omega

theorem lag_notices_conserved_two_beats : ∃ hub, run hubStep (fresh 1) twoBeats = some hub ∧
    ((∀ reached, Visits hubStep (fresh 1) twoBeats reached → reached.Conserves 0) ↔
      EachStep hubStep (NoticesKept 0) (fresh 1) twoBeats) := by
  have hrun : (run hubStep (fresh 1) twoBeats).isSome := by decide
  obtain ⟨hub, hhub⟩ := Option.isSome_iff_exists.mp hrun
  exact ⟨hub, hhub, lag_notices_conserved hhub⟩

end Hub

end Solweig.Realtime
