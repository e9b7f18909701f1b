import Solweig.Realtime.Broadcast

/-!
# The presence roster

The count of an actor and the streams that are registered. Closing a stream again, and closing the
hub, can take them apart.
-/

namespace Solweig.Realtime

open Solweig.Lib

namespace Hub

/-! ## Counts and streams -/

/-- The count that `_live_actors` holds. -/
def liveCount (hub : Hub) (w a : String) : Option Nat := hub.liveActors[w]?.bind (·[a]?)

def actor? (hub : Hub) (i : Nat) : Option String := (hub.identity? i).bind (·.2.1)

/-- The registered streams of an actor. -/
def streamsOf (hub : Hub) (w a : String) : List Nat :=
  (hub.registered w).filter fun i => hub.actor? i = some a

/-- The count of every actor is the number of its streams, and the roster lists it with them. -/
def PresenceExact (hub : Hub) : Prop :=
  ∀ w a, (hub.liveCount w a).getD 0 = (hub.streamsOf w a).length ∧
    (a ∈ hub.roster w ↔ hub.streamsOf w a ≠ [])

/-- What a call must find for the counts to stay right. -/
def PresenceSafe (hub : Hub) : HubEvent → Prop
  | .subscribe _ _ actorId => hub.closed = false → actorId ≠ some ""
  | .unsubscribe i => ∀ s, hub.subscriptions[i]? = some s →
    i ∈ hub.registered s.workspaceId ∨
      ∀ a, s.actorId = some a → a ≠ "" → hub.streamsOf s.workspaceId a = []
  | .close => ∀ w a, hub.streamsOf w a = []
  | _ => True

/-- A stream is registered once, with its own workspace, and the empty actor id is never counted. -/
structure Registry (hub : Hub) : Prop where
  nodup : ∀ w, (hub.registered w).Nodup
  own : ∀ w, ∀ i ∈ hub.registered w, ∃ actorId, hub.identity? i = some (w, actorId, false)
  anonymous : ∀ w, hub.liveCount w "" = none

/-- A count is there only where there is something to count. -/
def counted (n : Nat) : Option Nat := if n = 0 then none else some n

theorem counted_getD (n : Nat) : (counted n).getD 0 = n := by
  unfold counted
  split <;> simp_all

theorem mem_roster {hub : Hub} {w a : String} :
    a ∈ hub.roster w ↔ (hub.liveCount w a).isSome := by
  unfold roster liveCount
  rw [Std.ExtTreeMap.mem_keys, Std.ExtTreeMap.mem_iff_isSome_getElem?,
    Std.ExtTreeMap.getD_eq_getD_getElem?]
  cases hub.liveActors[w]? <;> simp

theorem presenceExact_iff {hub : Hub} :
    hub.PresenceExact ↔ ∀ w a, hub.liveCount w a = counted (hub.streamsOf w a).length := by
  unfold PresenceExact
  refine forall₂_congr fun w a => ?_
  rw [mem_roster]
  unfold counted
  cases hub.liveCount w a with
  | none =>
    simp only [Option.getD_none, Option.isSome_none, Bool.false_eq_true, false_iff, not_not]
    constructor
    · rintro ⟨-, hempty⟩
      simp [hempty]
    · intro h
      split at h
      · rename_i hzero
        exact ⟨hzero.symm, List.length_eq_zero_iff.mp hzero⟩
      · simp at h
  | some n =>
    simp only [Option.getD_some, Option.isSome_some, true_iff]
    constructor
    · rintro ⟨hn, hne⟩
      rw [if_neg (by simpa using hne), hn]
    · intro h
      split at h
      · simp at h
      · rename_i hne
        exact ⟨Option.some.inj h, by simpa using hne⟩

/-! ## Counting up and down -/

section Counts

variable (live : Dict String (Dict String Nat)) (w a : String)

theorem addActor_count (u b : String) :
    (addActor live w a)[u]?.bind (·[b]?) =
      if u = w ∧ b = a then some ((live[w]?.bind (·[a]?)).getD 0 + 1)
      else live[u]?.bind (·[b]?) := by
  unfold addActor
  by_cases hu : u = w
  · subst hu
    by_cases hb : b = a
    · subst hb
      cases h : live[u]? <;> simp [Std.ExtTreeMap.getD_eq_getD_getElem?, h]
    · have hne : a ≠ b := fun h => hb h.symm
      cases h : live[u]? <;>
        simp [Std.ExtTreeMap.getD_eq_getD_getElem?, h, hb, Dict.getElem?_insert_of_ne _ _ hne]
  · rw [Dict.getElem?_insert_of_ne _ _ (Ne.symm hu), if_neg fun h => hu h.1]

theorem release_count (actors : Dict String Nat) (count : Nat) (b : String) :
    (release actors a count)[b]? = if b = a then counted (count - 1) else actors[b]? := by
  unfold release
  by_cases hb : b = a
  · subst hb
    rw [if_pos rfl]
    unfold counted
    split
    · rw [if_pos (by omega), Std.ExtTreeMap.getElem?_erase_self]
    · rw [if_neg (by omega), Std.ExtTreeMap.getElem?_insert_self]
  · rw [if_neg hb]
    split
    · exact Dict.getElem?_erase_of_ne _ (Ne.symm hb)
    · exact Dict.getElem?_insert_of_ne _ _ (Ne.symm hb)

theorem dropActor_other {u : String} (hu : u ≠ w) : (dropActor live w a)[u]? = live[u]? := by
  unfold dropActor
  split
  · rfl
  · split
    · rfl
    · dsimp only
      split
      · exact Dict.getElem?_erase_of_ne _ (Ne.symm hu)
      · exact Dict.getElem?_insert_of_ne _ _ (Ne.symm hu)

theorem dropActor_own (b : String) :
    (dropActor live w a)[w]?.bind (·[b]?) =
      if b = a then (live[w]?.bind (·[a]?)).bind fun n => counted (n - 1)
      else live[w]?.bind (·[b]?) := by
  unfold dropActor
  cases hactors : live[w]? with
  | none => simp [hactors]
  | some actors =>
    cases hcount : actors[a]? with
    | none =>
      by_cases hb : b = a
      · simp [hb, hactors, hcount]
      · simp [hb, hactors, hcount]
    | some count =>
      have hlook : (if (release actors a count).isEmpty then live.erase w
          else live.insert w (release actors a count))[w]?.bind (·[b]?) =
            (release actors a count)[b]? := by
        split
        · rename_i hempty
          rw [Std.ExtTreeMap.getElem?_erase_self, Std.ExtTreeMap.isEmpty_iff.mp hempty]
          simp
        · rw [Std.ExtTreeMap.getElem?_insert_self, Option.bind_some]
      simp only [hcount, Option.bind_some]
      rw [hlook, release_count]

theorem dropActor_count (u b : String) :
    (dropActor live w a)[u]?.bind (·[b]?) =
      if u = w ∧ b = a then (live[w]?.bind (·[a]?)).bind fun n => counted (n - 1)
      else live[u]?.bind (·[b]?) := by
  by_cases hu : u = w
  · subst hu
    simpa using dropActor_own live u a b
  · rw [dropActor_other live w a hu, if_neg fun h => hu h.1]

end Counts

/-! ## Calls that leave the registry alone -/

section Quiet

variable {hub hub' : Hub}

theorem Quiet.registered (h : hub.Quiet hub') (w : String) :
    hub'.registered w = hub.registered w := by
  unfold Hub.registered
  rw [h.subscribers]

theorem Quiet.liveCount (h : hub.Quiet hub') (w a : String) :
    hub'.liveCount w a = hub.liveCount w a := by
  unfold Hub.liveCount
  rw [h.liveActors]

theorem Quiet.streamsOf (h : hub.Quiet hub') (w a : String) :
    hub'.streamsOf w a = hub.streamsOf w a := by
  unfold Hub.streamsOf Hub.actor?
  simp only [h.registered, h.identity]

theorem Quiet.registry (h : hub.Quiet hub') (hr : hub.Registry) : hub'.Registry where
  nodup w := h.registered w ▸ hr.nodup w
  own w i hi := by
    rw [h.identity]
    exact hr.own w i (h.registered w ▸ hi)
  anonymous w := (h.liveCount w "").trans (hr.anonymous w)

theorem Quiet.presence (h : hub.Quiet hub') : hub'.PresenceExact ↔ hub.PresenceExact := by
  rw [presenceExact_iff, presenceExact_iff]
  simp only [h.streamsOf, h.liveCount]

end Quiet

/-! ## A stream opens -/

section Subscribe

variable {hub : Hub} {w : String} {snapshot : Option Json} {actorId : Option String}

theorem Registry.lt (hr : hub.Registry) {u : String} {i : Nat} (hi : i ∈ hub.registered u) :
    i < hub.subscriptions.length := by
  obtain ⟨actorId, hid⟩ := hr.own u i hi
  obtain ⟨s, hs, -⟩ := Option.map_eq_some_iff.mp hid
  exact (List.getElem?_eq_some_iff.mp hs).1

theorem subscribe_identity (hopen : hub.closed = false) (i : Nat) :
    (hub.subscribe w snapshot actorId).identity? i =
      if i = hub.subscriptions.length then some (w, actorId, false) else hub.identity? i := by
  unfold subscribe identity?
  simp only [hopen, Bool.false_eq_true, if_false]
  rw [List.getElem?_append]
  split
  · rw [if_neg (by omega)]
  · by_cases hi : i = hub.subscriptions.length
    · subst hi
      simp [Subscription.opened_identity]
    · rw [if_neg hi, List.getElem?_eq_none (by simp; omega), List.getElem?_eq_none (by omega)]

theorem subscribe_registered (hopen : hub.closed = false) (u : String) :
    (hub.subscribe w snapshot actorId).registered u =
      hub.registered u ++ if u = w then [hub.subscriptions.length] else [] := by
  unfold subscribe registered
  simp only [hopen, Bool.false_eq_true, if_false]
  by_cases hu : u = w
  · subst hu
    simp [Std.ExtTreeMap.getD_eq_getD_getElem?]
  · simp [Std.ExtTreeMap.getD_eq_getD_getElem?, Dict.getElem?_push_of_ne _ _ (Ne.symm hu), hu]

theorem subscribe_liveCount (hopen : hub.closed = false) (u b : String) :
    (hub.subscribe w snapshot actorId).liveCount u b =
      if u = w ∧ actorId = some b ∧ b ≠ "" then some ((hub.liveCount u b).getD 0 + 1)
      else hub.liveCount u b := by
  unfold subscribe liveCount
  simp only [hopen, Bool.false_eq_true, if_false]
  cases actorId with
  | none => simp
  | some a =>
    by_cases ha : a = ""
    · have hnever : ¬ (u = w ∧ some a = some b ∧ b ≠ "") := by
        rintro ⟨-, hab, hb⟩
        exact hb (Option.some.inj hab ▸ ha)
      simp only [ha, if_true]
      rw [if_neg (ha ▸ hnever)]
    · simp only [ha, if_false]
      rw [addActor_count]
      by_cases hhit : u = w ∧ b = a
      · obtain ⟨rfl, rfl⟩ := hhit
        simp [ha]
      · have hmiss : ¬ (u = w ∧ some a = some b ∧ b ≠ "") := by
          rintro ⟨hu, hab, -⟩
          exact hhit ⟨hu, (Option.some.inj hab).symm⟩
        rw [if_neg hhit, if_neg hmiss]

theorem subscribe_streamsOf (hr : hub.Registry) (hopen : hub.closed = false) (u b : String) :
    (hub.subscribe w snapshot actorId).streamsOf u b =
      hub.streamsOf u b ++ if u = w ∧ actorId = some b then [hub.subscriptions.length] else [] := by
  unfold streamsOf actor?
  rw [subscribe_registered hopen, List.filter_append]
  congr 1
  · apply List.filter_congr
    intro i hi
    have hlt := hr.lt hi
    rw [subscribe_identity hopen, if_neg (by omega)]
  · by_cases hu : u = w
    · simp [hu, subscribe_identity hopen, List.filter_cons]
    · simp [hu]

theorem subscribe_closed (hclosed : hub.closed = true) :
    (∀ u, (hub.subscribe w snapshot actorId).registered u = hub.registered u) ∧
      (∀ u b, (hub.subscribe w snapshot actorId).liveCount u b = hub.liveCount u b) ∧
      ∀ i < hub.subscriptions.length,
        (hub.subscribe w snapshot actorId).identity? i = hub.identity? i := by
  unfold subscribe
  simp only [hclosed, if_true]
  refine ⟨fun _ => rfl, fun _ _ => rfl, fun i hi => ?_⟩
  unfold identity?
  rw [List.getElem?_append_left hi]

end Subscribe

/-! ## A stream ends -/

section Unsubscribe

variable {hub : Hub} {i : Nat} {s : Subscription}

theorem unsubscribe_identity {j : Nat} (hj : j ≠ i) :
    (hub.unsubscribe i s).identity? j = hub.identity? j := by
  unfold unsubscribe
  split
  · rfl
  · unfold identity?
    rw [deliver_stream, Option.map_map]
    simp [hj, Function.comp_def]

theorem unsubscribe_registered (u : String) :
    (hub.unsubscribe i s).registered u =
      if u = s.workspaceId then (hub.registered u).filter (· ≠ i) else hub.registered u := by
  unfold unsubscribe
  split
  · rename_i hnone
    split
    · rename_i hu
      subst hu
      simp [registered, Std.ExtTreeMap.getD_eq_getD_getElem?, hnone]
    · rfl
  · rename_i streams hstreams
    unfold registered
    rw [deliver_subscribers]
    by_cases hu : u = s.workspaceId
    · subst hu
      simp only [Std.ExtTreeMap.getD_eq_getD_getElem?, hstreams, if_true, Option.getD_some]
      split
      · rename_i hempty
        rw [Std.ExtTreeMap.getElem?_erase_self]
        exact hempty.symm
      · simp
    · simp only [hu, if_false, Std.ExtTreeMap.getD_eq_getD_getElem?]
      split
      · rw [Dict.getElem?_erase_of_ne _ (Ne.symm hu)]
      · rw [Dict.getElem?_insert_of_ne _ _ (Ne.symm hu)]

theorem unsubscribe_liveCount (u b : String) :
    (hub.unsubscribe i s).liveCount u b =
      if u = s.workspaceId ∧ s.actorId = some b ∧ b ≠ "" ∧ hub.subscribers[u]?.isSome then
        (hub.liveCount u b).bind fun n => counted (n - 1)
      else hub.liveCount u b := by
  unfold unsubscribe
  split
  · rename_i hnone
    rw [if_neg]
    rintro ⟨rfl, -, -, hsome⟩
    simp [hnone] at hsome
  · rename_i streams hstreams
    unfold liveCount
    rw [deliver_liveActors]
    cases hactor : s.actorId with
    | none => simp
    | some a =>
      by_cases ha : a = ""
      · have hnever : ¬ (u = s.workspaceId ∧ some a = some b ∧ b ≠ "" ∧
            hub.subscribers[u]?.isSome) := by
          rintro ⟨-, hab, hb, -⟩
          exact hb (Option.some.inj hab ▸ ha)
        simp only [ha, if_true]
        rw [if_neg (ha ▸ hnever)]
      · simp only [ha, if_false]
        rw [dropActor_count]
        by_cases hhit : u = s.workspaceId ∧ b = a
        · obtain ⟨rfl, rfl⟩ := hhit
          simp [ha, hstreams]
        · rw [if_neg hhit, if_neg]
          rintro ⟨hu, hab, -⟩
          exact hhit ⟨hu, (Option.some.inj hab).symm⟩

theorem unsubscribe_streamsOf (hr : hub.Registry) (hs : hub.subscriptions[i]? = some s)
    (u b : String) :
    (hub.unsubscribe i s).streamsOf u b = (hub.streamsOf u b).filter (· ≠ i) := by
  have hregistered : (hub.unsubscribe i s).registered u = (hub.registered u).filter (· ≠ i) := by
    rw [unsubscribe_registered]
    split
    · rfl
    · rename_i hu
      refine (List.filter_eq_self.mpr fun j hj => ?_).symm
      -- a stream is registered with its own workspace only
      obtain ⟨actorId, hid⟩ := hr.own u j hj
      rw [decide_eq_true_eq]
      rintro rfl
      simp only [identity?, hs, Option.map_some, Option.some.injEq, Subscription.identity,
        Prod.mk.injEq] at hid
      exact hu hid.1.symm
  unfold streamsOf actor?
  rw [hregistered, List.filter_filter, List.filter_filter]
  apply List.filter_congr
  intro j hj
  by_cases hji : j = i
  · simp [hji]
  · simp [hji, unsubscribe_identity hji]

end Unsubscribe

section Close

variable {hub : Hub}

theorem close_registered (w : String) : hub.close.registered w = [] := by
  unfold close registered
  simp

theorem close_liveCount (w a : String) : hub.close.liveCount w a = hub.liveCount w a := rfl

theorem close_streamsOf (w a : String) : hub.close.streamsOf w a = [] := by
  unfold streamsOf
  rw [close_registered]
  rfl

end Close

/-! ## One call -/

section Step

variable {hub hub' : Hub} {event : HubEvent}

theorem registry_fresh (queueSize : Nat) : (fresh queueSize).Registry := by
  refine ⟨fun w => ?_, fun w i hi => ?_, fun w => ?_⟩
  · simp [fresh, registered]
  · simp [fresh, registered] at hi
  · simp [fresh, liveCount]

theorem Registry.subscribe (hr : hub.Registry) (w : String) (snapshot : Option Json)
    (actorId : Option String) : (hub.subscribe w snapshot actorId).Registry := by
  cases hclosed : hub.closed with
  | true =>
    obtain ⟨hregistered, hlive, hid⟩ := @subscribe_closed hub w snapshot actorId hclosed
    refine ⟨fun u => hregistered u ▸ hr.nodup u, fun u i hi => ?_, fun u => ?_⟩
    · rw [hregistered] at hi
      rw [hid i (hr.lt hi)]
      exact hr.own u i hi
    · rw [hlive]
      exact hr.anonymous u
  | false =>
    refine ⟨fun u => ?_, fun u i hi => ?_, fun u => ?_⟩
    · rw [subscribe_registered hclosed]
      split
      · apply List.nodup_append.mpr
        refine ⟨hr.nodup u, List.nodup_singleton _, fun i hi j hj => ?_⟩
        have := hr.lt hi
        have := List.mem_singleton.mp hj
        omega
      · rw [List.append_nil]
        exact hr.nodup u
    · rw [subscribe_registered hclosed, List.mem_append] at hi
      rw [subscribe_identity hclosed]
      rcases hi with hi | hi
      · have := hr.lt hi
        rw [if_neg (by omega)]
        exact hr.own u i hi
      · split at hi
        · rename_i hu
          rw [if_pos (List.mem_singleton.mp hi), hu]
          exact ⟨actorId, rfl⟩
        · simp at hi
    · rw [subscribe_liveCount hclosed, if_neg]
      · exact hr.anonymous u
      · rintro ⟨-, -, hne⟩
        exact hne rfl

theorem Registry.unsubscribe (hr : hub.Registry) {i : Nat} {s : Subscription}
    (hs : hub.subscriptions[i]? = some s) : (hub.unsubscribe i s).Registry := by
  have hsub : ∀ u, ∀ j ∈ (hub.unsubscribe i s).registered u, j ∈ hub.registered u ∧ j ≠ i := by
    intro u j hj
    rw [unsubscribe_registered] at hj
    split at hj
    · simpa using hj
    · rename_i hu
      refine ⟨hj, ?_⟩
      rintro rfl
      obtain ⟨actorId, hid⟩ := hr.own u j hj
      simp only [identity?, hs, Option.map_some, Option.some.injEq, Subscription.identity,
        Prod.mk.injEq] at hid
      exact hu hid.1.symm
  refine ⟨fun u => ?_, fun u j hj => ?_, fun u => ?_⟩
  · rw [unsubscribe_registered]
    split
    · exact (hr.nodup u).filter _
    · exact hr.nodup u
  · obtain ⟨hj, hne⟩ := hsub u j hj
    rw [unsubscribe_identity hne]
    exact hr.own u j hj
  · rw [unsubscribe_liveCount, if_neg]
    · exact hr.anonymous u
    · rintro ⟨-, -, hne, -⟩
      exact hne rfl

theorem Registry.close (hr : hub.Registry) : hub.close.Registry := by
  refine ⟨fun u => ?_, fun u i hi => ?_, hr.anonymous⟩
  · rw [close_registered]
    exact List.nodup_nil
  · simp [close_registered] at hi

theorem hubStep_registry (hr : hub.Registry) (h : hubStep hub event = some hub') :
    hub'.Registry := by
  rcases hubStep_quiet h with hquiet | ⟨w, snapshot, actorId, -, rfl⟩ | ⟨i, s, -, hs, rfl⟩ | ⟨-, rfl⟩
  · exact hquiet.registry hr
  · exact hr.subscribe w snapshot actorId
  · exact hr.unsubscribe hs
  · exact hr.close

theorem subscribe_presence (hr : hub.Registry) (hp : hub.PresenceExact) (w : String)
    (snapshot : Option Json) (actorId : Option String) :
    (hub.subscribe w snapshot actorId).PresenceExact ↔
      (hub.closed = false → actorId ≠ some "") := by
  rw [presenceExact_iff] at hp ⊢
  cases hclosed : hub.closed with
  | true =>
    obtain ⟨hregistered, hlive, hid⟩ := @subscribe_closed hub w snapshot actorId hclosed
    refine iff_of_true (fun u b => ?_) (by simp)
    have hstreams : (hub.subscribe w snapshot actorId).streamsOf u b = hub.streamsOf u b := by
      unfold streamsOf actor?
      rw [hregistered]
      exact List.filter_congr fun i hi => by rw [hid i (hr.lt hi)]
    rw [hlive, hstreams]
    exact hp u b
  | false =>
    simp only [subscribe_liveCount hclosed, subscribe_streamsOf hr hclosed, forall_const]
    constructor
    · rintro h rfl
      have hempty := h w ""
      rw [if_neg (by simp), if_pos ⟨rfl, rfl⟩, hr.anonymous] at hempty
      simp [counted] at hempty
    · intro hnamed u b
      by_cases hhit : u = w ∧ actorId = some b
      · obtain ⟨rfl, rfl⟩ := hhit
        have hb : b ≠ "" := fun hb => hnamed (by rw [hb])
        rw [if_pos ⟨rfl, rfl, hb⟩, if_pos ⟨rfl, rfl⟩, hp, counted_getD]
        simp [counted]
      · rw [if_neg fun h => hhit ⟨h.1, h.2.1⟩, if_neg hhit, List.append_nil]
        exact hp u b

theorem mem_streamsOf {i : Nat} {s : Subscription} (hr : hub.Registry)
    (hs : hub.subscriptions[i]? = some s) (u b : String) :
    i ∈ hub.streamsOf u b ↔
      i ∈ hub.registered s.workspaceId ∧ u = s.workspaceId ∧ s.actorId = some b := by
  have hid : hub.identity? i = some s.identity := by rw [identity?, hs, Option.map_some]
  have hactor : hub.actor? i = s.actorId := by rw [actor?, hid]; rfl
  unfold streamsOf
  rw [List.mem_filter, decide_eq_true_eq, hactor]
  constructor
  · rintro ⟨hi, hb⟩
    obtain ⟨actorId, hown⟩ := hr.own u i hi
    rw [hid, Option.some.injEq, Subscription.identity, Prod.mk.injEq] at hown
    exact ⟨hown.1 ▸ hi, hown.1.symm, hb⟩
  · rintro ⟨hi, rfl, hb⟩
    exact ⟨hi, hb⟩

theorem counted_pred {n : Nat} : counted (n - 1) = counted n ↔ n = 0 := by
  unfold counted
  constructor
  · intro h
    split at h <;> split at h <;> simp at h <;> omega
  · rintro rfl
    rfl

theorem counted_bind_pred (n : Nat) : (counted n).bind (fun m => counted (m - 1)) = counted (n - 1) := by
  unfold counted
  split
  · simp_all
  · rfl

theorem unsubscribe_presence (hr : hub.Registry) (hp : hub.PresenceExact) {i : Nat}
    {s : Subscription} (hs : hub.subscriptions[i]? = some s) :
    (hub.unsubscribe i s).PresenceExact ↔ (i ∈ hub.registered s.workspaceId ∨
      ∀ a, s.actorId = some a → a ≠ "" → hub.streamsOf s.workspaceId a = []) := by
  rw [presenceExact_iff] at hp ⊢
  simp only [unsubscribe_liveCount, unsubscribe_streamsOf hr hs, hp, counted_bind_pred]
  by_cases hi : i ∈ hub.registered s.workspaceId
  · -- the stream leaves, and its actor has one less
    refine iff_of_true (fun u b => ?_) (Or.inl hi)
    have hmem := mem_streamsOf hr hs u b
    by_cases hhit : u = s.workspaceId ∧ s.actorId = some b
    · obtain ⟨rfl, hb⟩ := hhit
      have hin := hmem.mpr ⟨hi, rfl, hb⟩
      have hnodup : (hub.streamsOf s.workspaceId b).Nodup := (hr.nodup _).filter _
      have hlen : ((hub.streamsOf s.workspaceId b).filter (· ≠ i)).length =
          (hub.streamsOf s.workspaceId b).length - 1 := by
        rw [← List.length_erase_of_mem hin, hnodup.erase_eq_filter]
        simp [bne, ← Bool.beq_eq_decide_eq]
      have hne : b ≠ "" := by
        rintro rfl
        have hnone := hr.anonymous s.workspaceId
        rw [hp] at hnone
        have := List.length_pos_of_mem hin
        simp only [counted, ite_eq_left_iff, reduceCtorEq, imp_false, not_not] at hnone
        omega
      have hsome : (hub.subscribers[s.workspaceId]?).isSome := by
        unfold registered at hi
        rw [Std.ExtTreeMap.getD_eq_getD_getElem?] at hi
        cases h : hub.subscribers[s.workspaceId]? with
        | none => simp [h] at hi
        | some streams => rfl
      rw [if_pos ⟨rfl, hb, hne, hsome⟩, hlen]
    · rw [if_neg fun h => hhit ⟨h.1, h.2.1⟩]
      have hout : i ∉ hub.streamsOf u b := fun hin => hhit (hmem.mp hin).2
      rw [List.filter_eq_self.mpr fun j hj => by
        rw [decide_eq_true_eq]
        rintro rfl
        exact hout hj]
  · -- the stream is gone already, and the count goes down all the same
    have hsame : ∀ u b, (hub.streamsOf u b).filter (· ≠ i) = hub.streamsOf u b := by
      intro u b
      apply List.filter_eq_self.mpr
      intro j hj
      rw [decide_eq_true_eq]
      rintro rfl
      exact hi ((mem_streamsOf hr hs u b).mp hj).1
    simp only [hsame, hi, false_or]
    constructor
    · intro h a ha hne
      cases hstreams : hub.subscribers[s.workspaceId]? with
      | none =>
        unfold streamsOf registered
        rw [Std.ExtTreeMap.getD_eq_getD_getElem?, hstreams]
        rfl
      | some streams =>
        have hcount := h s.workspaceId a
        rw [if_pos ⟨rfl, ha, hne, by simp [hstreams]⟩, counted_pred] at hcount
        exact List.length_eq_zero_iff.mp hcount
    · intro h u b
      split
      · rename_i hhit
        obtain ⟨rfl, hb, hne, -⟩ := hhit
        rw [h b hb hne]
        rfl
      · rfl

theorem close_presence (hp : hub.PresenceExact) :
    hub.close.PresenceExact ↔ ∀ w a, hub.streamsOf w a = [] := by
  rw [presenceExact_iff] at hp ⊢
  simp only [close_liveCount, close_streamsOf, hp, List.length_nil]
  refine forall₂_congr fun w a => ?_
  rw [← List.length_eq_zero_iff]
  unfold counted
  split <;> simp_all

theorem hubStep_presence (hr : hub.Registry) (hp : hub.PresenceExact)
    (h : hubStep hub event = some hub') : hub'.PresenceExact ↔ hub.PresenceSafe event := by
  cases event with
  | subscribe w snapshot actorId =>
    obtain rfl := Option.some.inj h
    exact subscribe_presence hr hp w snapshot actorId
  | unsubscribe i =>
    obtain ⟨s, hs, rfl⟩ := Option.map_eq_some_iff.mp h
    rw [unsubscribe_presence hr hp hs]
    unfold PresenceSafe
    simp [hs]
  | close =>
    obtain rfl := Option.some.inj h
    exact close_presence hp
  | publish | heartbeats | push | read =>
    rcases hubStep_quiet h with hquiet | ⟨_, _, _, hevent, -⟩ | ⟨_, _, hevent, -⟩ | ⟨hevent, -⟩
    · exact iff_of_true (hquiet.presence.mpr hp) trivial
    · cases hevent
    · cases hevent
    · cases hevent

end Step

/-- In a run the roster is right throughout exactly when each call meets the condition. -/
theorem presence_refcount {queueSize : Nat} {hub : Hub} {events : List HubEvent}
    (hrun : run hubStep (fresh queueSize) events = some hub) :
    (∀ reached, Visits hubStep (fresh queueSize) events reached → reached.PresenceExact) ↔
      EachStep hubStep PresenceSafe (fresh queueSize) events := by
  refine always_iff_eachStep (fun _ _ _ hr h => hubStep_registry hr h)
    (fun _ _ _ hr hp h => hubStep_presence hr hp h) (registry_fresh queueSize) ?_ hrun
  apply presenceExact_iff.mpr
  intro w a
  simp [fresh, liveCount, streamsOf, registered, counted]

/-! ### Two tabs of one actor -/

/-- The first tab goes: both finally blocks close its stream. -/
def twoTabs : List HubEvent :=
  [.subscribe "w" none (some "ada"), .subscribe "w" none (some "ada"), .unsubscribe 0,
    .unsubscribe 0]

theorem twoTabs_lose_actor : ¬ ∀ (queueSize : Nat) (hub : Hub) (events : List HubEvent),
    run hubStep (fresh queueSize) events = some hub → hub.PresenceExact := by
  intro h
  have hrun : (run hubStep (fresh 256) twoTabs).map
      (fun hub => (hub.streamsOf "w" "ada", hub.roster "w")) = some ([1], []) := by decide
  obtain ⟨hub, hhub, hview⟩ := Option.map_eq_some_iff.mp hrun
  rw [Prod.mk.injEq] at hview
  have hlisted := (h 256 hub twoTabs hhub "w" "ada").2
  rw [hview.1, hview.2] at hlisted
  simp at hlisted

theorem presence_refcount_two_tabs : ∃ hub, run hubStep (fresh 256) twoTabs = some hub ∧
    ((∀ reached, Visits hubStep (fresh 256) twoTabs reached → reached.PresenceExact) ↔
      EachStep hubStep PresenceSafe (fresh 256) twoTabs) := by
  have hrun : (run hubStep (fresh 256) twoTabs).isSome := by decide
  obtain ⟨hub, hhub⟩ := Option.isSome_iff_exists.mp hrun
  exact ⟨hub, hhub, presence_refcount hhub⟩

end Hub

end Solweig.Realtime
