import Mathlib.Data.List.Flatten
import Solweig.Lib.Run
import Solweig.Studio.CatchUp

/-!
# No operation is lost

A catch-up asks only above the last sequence, so an operation that this passes without it is lost
unless its own frame is still to come or a GET from below is under way. The client passes none in
runs whose frames and answers never leave such an operation behind.
-/

namespace Solweig.Studio

open Solweig.Lib

variable {log : List Operation} {op : Operation} {queue : List Event}
  {event : Event} {w : Workspace}

/-! ## The stream -/

theorem Sound.requeue {rest : List Event} (h : Sound log queue w) (hrest : Carries log rest) :
    Sound log rest w := by
  refine ⟨⟨h.steady.handed, fun op hop => ?_, h.steady.inside⟩, h.covered, h.asked, h.calm⟩
  rw [operationsOf, List.flatMap_append] at hop
  rcases List.mem_append.mp hop with hbuffered | hqueued
  · refine h.steady.carries op ?_
    rw [operationsOf, List.flatMap_append]
    exact List.mem_append_left _ hbuffered
  · exact hrest op hqueued

theorem Sound.queued (h : Sound log queue w) : Carries log queue :=
  h.steady.carries.mono (List.subset_append_right _ _)

theorem Sound.accept {next : Operation} (h : Sound log queue w)
    (hnext : next.serverSequence = log.length + 1) : Sound (log ++ [next]) queue w := by
  obtain ⟨⟨⟨honce, hbelow⟩, hcarries, hinside⟩, hcovered, hasked, hcalm⟩ := h
  have hmore : ∀ op, op ∈ log → op ∈ log ++ [next] := fun op hop => List.mem_append_left _ hop
  refine ⟨⟨⟨honce, fun op hop => (hbelow op hop).imp_left (hmore op)⟩,
    fun op hop => hmore op (hcarries op hop), ?_⟩, fun op hop hpassed hmissing => ?_, hasked, hcalm⟩
  · simp only [List.length_append]
    omega
  · rcases List.mem_append.mp hop with hop | hlast
    · exact hcovered op hop hpassed hmissing
    · rw [List.mem_singleton.mp hlast] at hpassed
      omega

theorem Sound.replace (h : Sound log [] w) (hcycle : w.reconnectCycle = some .backoff)
    (hthrown : Covered (fun _ op => AwaitedBy w.recoveries op) log []
      { w with bufferedEvents := [] }) :
    Sound log [] (w.openReplacement log.length) := by
  unfold Workspace.openReplacement
  obtain ⟨⟨⟨honce, hbelow⟩, -, hinside⟩, -, hasked, -⟩ := h
  rw [cycleGets_backoff hcycle, List.append_nil] at hasked
  refine ⟨⟨⟨honce.same rfl rfl, hbelow⟩, by simp [Carries, operationsOf], hinside⟩,
    fun op hop hpassed hmissing => ⟨Or.inl (Or.inl rfl), ?_⟩, fun get hget => ?_,
    fun hopen => absurd (Or.inl rfl) hopen⟩
  · exact (hthrown op hop hpassed hmissing).mono (List.subset_append_left _ _)
  · rcases List.mem_append.mp hget with hget | hnew
    · exact hasked get hget
    · rw [List.mem_singleton.mp hnew]
      exact Nat.le_refl _

/-! ## The waiting stream -/

variable {maxReconnectRetries logged : Nat} {answer : Option (List Operation)}

/-- The last sequence does not fall, and a stream that waits out a backoff is closed. -/
structure Onward (w v : Workspace) : Prop where
  last : w.lastServerSequence ≤ v.lastServerSequence
  closed : v.reconnectCycle = some .backoff → v.sourceOpen = false

theorem deliver_stream (logged : Nat) (w : Workspace) (event : Event) :
    (w.deliverEvent logged event).reconnectCycle = w.reconnectCycle ∧
      (w.deliverEvent logged event).sourceOpen = w.sourceOpen ∧
      w.lastServerSequence ≤ (w.deliverEvent logged event).lastServerSequence := by
  rcases deliverEvent_cases logged w event with heq | ⟨-, -, heq⟩ <;> rw [heq]
  · have hle := last_mono w event.operations
    rw [applyOperations_rest]
    exact ⟨rfl, rfl, hle⟩
  · exact ⟨rfl, rfl, Nat.le_refl _⟩

theorem flush_stream (logged : Nat) (w : Workspace) :
    (w.flush logged).reconnectCycle = w.reconnectCycle ∧
      (w.flush logged).sourceOpen = w.sourceOpen ∧
      w.lastServerSequence ≤ (w.flush logged).lastServerSequence := by
  unfold Workspace.flush
  refine flush_keeps logged (P := fun _ v => v.reconnectCycle = w.reconnectCycle ∧
    v.sourceOpen = w.sourceOpen ∧ w.lastServerSequence ≤ v.lastServerSequence)
    (fun event held v h => ?_) ⟨rfl, rfl, Nat.le_refl _⟩
  obtain ⟨hcycle, hsource, hle⟩ := deliver_stream logged v event
  exact ⟨hcycle.trans h.1, hsource.trans h.2.1, Nat.le_trans h.2.2 hle⟩

theorem Onward.receive (h : w.reconnectCycle = some .backoff → w.sourceOpen = false) :
    Onward w (w.onStreamEvent logged event) := by
  unfold Workspace.onStreamEvent
  split
  · exact ⟨Nat.le_refl _, h⟩
  · obtain ⟨hcycle, hsource, hle⟩ := deliver_stream logged w event
    refine ⟨hle, fun hwait => ?_⟩
    rw [hsource]
    exact h (hcycle ▸ hwait)

theorem Onward.next (maxReconnectRetries : Nat) (h : w.sourceOpen = false) : Onward w (w.nextAttempt maxReconnectRetries) := by
  rcases nextAttempt_cases maxReconnectRetries w with ⟨_, heq⟩ | ⟨_, heq⟩ <;> rw [heq]
  · exact ⟨Nat.le_refl _, fun _ => h⟩
  · exact ⟨Nat.le_refl _, fun _ => h⟩

theorem Onward.error (maxReconnectRetries : Nat) (w : Workspace) :
    Onward w (w.onStreamError maxReconnectRetries) := by
  unfold Workspace.onStreamError
  split
  · exact ⟨Nat.le_refl _, fun _ => rfl⟩
  · have hnext := Onward.next maxReconnectRetries
      (w := { w with sourceOpen := false, state := .reconnecting }) rfl
    exact ⟨hnext.last, hnext.closed⟩

theorem Onward.replace : Onward w (w.openReplacement logged) := by
  unfold Workspace.openReplacement
  exact ⟨Nat.le_refl _, by simp⟩

theorem Onward.attempt : Onward w (w.endAttempt maxReconnectRetries logged answer) := by
  rw [endAttempt_eq]
  have hle : w.lastServerSequence ≤ ((w.answered answer).flush logged).lastServerSequence :=
    Nat.le_trans (last_le_answered w answer) (flush_stream logged _).2.2
  unfold afterFlush
  split
  · have hnext := Onward.next maxReconnectRetries
      (w := { (w.answered answer).flush logged with
        sourceOpen := false, gapPending := false, state := .reconnecting }) rfl
    exact ⟨Nat.le_trans hle hnext.last, hnext.closed⟩
  · exact ⟨hle, by simp⟩

theorem Onward.recovery {i : Nat} (h : w.reconnectCycle = some .backoff → w.sourceOpen = false) :
    Onward w (w.endRecovery maxReconnectRetries logged i answer) := by
  rw [endRecovery_eq]
  have hle : w.lastServerSequence ≤ (afterRecovery w i answer).lastServerSequence :=
    last_le_answered w answer
  split
  · refine ⟨hle, fun hwait => ?_⟩
    unfold afterRecovery at hwait ⊢
    rw [answered_rest] at hwait ⊢
    exact h hwait
  · next hcycle =>
    have hidle : (afterRecovery w i answer).reconnectCycle = none := by
      rw [(afterRecovery_kept w i answer).2.1]
      simpa using hcycle
    split
    · have herror := Onward.error maxReconnectRetries
        { afterRecovery w i answer with sourceOpen := false, bufferedEvents := [] }
      exact ⟨Nat.le_trans hle herror.last, herror.closed⟩
    · obtain ⟨hsame, -, hflushed⟩ := flush_stream logged (afterRecovery w i answer)
      have hnone := hsame.trans hidle
      unfold resumed
      split
      · exact ⟨Nat.le_trans hle hflushed, by simp [hnone]⟩
      · exact ⟨Nat.le_trans hle hflushed, by simp [hnone]⟩

/-! ## Runs -/

/-- What still covers an operation when an attempt ends: nothing, once the stream is live again. -/
def AttemptAwaited (w : Workspace) (upTo : Option Nat) (op : Operation) : Prop :=
  ¬ (upTo.isSome = true ∧ w.sourceBroken = false) ∧ AwaitedBy w.recoveries op

/-- No event that the move hands over leaves an unawaited operation behind. None is left at the end
of a catch-up, and none goes with a buffer that is thrown away. -/
def Safe (s : System) : Move → Prop
  | .deliver => ∀ event queue, s.queue = event :: queue → s.workspace.gapPending = false →
      ∀ op, LeftBehind s.log [] s.workspace event op → s.workspace.Covers op
  | .backoffEnds => s.workspace.reconnectCycle = some .backoff →
      Covered (fun _ op => AwaitedBy s.workspace.recoveries op) s.log []
        { s.workspace with bufferedEvents := [] }
  | .attemptAnswer upTo => ∀ get, s.workspace.reconnectCycle = some (.catchUp get) →
      Covered (fun _ op => Brings get upTo op ∨ AttemptAwaited s.workspace upTo op) s.log []
        s.workspace ∧
      EachHandOver s.log s.log.length (fun _ => AttemptAwaited s.workspace upTo)
        { s.workspace.answered (s.answer get upTo) with bufferedEvents := [] }
        s.workspace.bufferedEvents
  | .recoveryAnswer i upTo => ∀ get, s.workspace.recoveries[i]? = some get →
      Covered (fun _ op => Brings get upTo op ∨ StillAwaited s.workspace i upTo op) s.log []
        s.workspace ∧
      (upTo = none → s.workspace.reconnectCycle = none →
        Covered (fun _ op => StillAwaited s.workspace i upTo op) s.log []
          { s.workspace with bufferedEvents := [] }) ∧
      (upTo.isSome = true → s.workspace.reconnectCycle = none →
        EachHandOver s.log s.log.length Workspace.Covers
          { afterRecovery s.workspace i (s.answer get upTo) with bufferedEvents := [] }
          s.workspace.bufferedEvents)
  | _ => True

structure Inv (s : System) : Prop where
  numbered : Numbered s.log
  sound : Sound s.log s.queue s.workspace
  fetched : ∀ get ∈ s.fetches, get.since ≤ s.workspace.lastServerSequence
  closed : s.workspace.sourceOpen = false → s.queue = []
  waiting : s.workspace.reconnectCycle = some .backoff → s.workspace.sourceOpen = false

instance (w : Workspace) : Decidable w.Fenced := inferInstanceAs (Decidable (_ ∨ _))

variable {s t : System} {move : Move}

theorem Inv.put {v : Workspace} (hlog : Numbered s.log)
    (hfetched : ∀ get ∈ s.fetches, get.since ≤ s.workspace.lastServerSequence)
    (hsound : Sound s.log s.queue v) (honward : Onward s.workspace v) : Inv (s.put v) := by
  have hlater : ∀ get ∈ s.fetches, get.since ≤ v.lastServerSequence :=
    fun get hget => Nat.le_trans (hfetched get hget) honward.last
  unfold System.put
  split
  · next hopen => exact ⟨hlog, hsound, hlater, by simp [hopen], honward.closed⟩
  · exact ⟨hlog, hsound.requeue (by simp [Carries, operationsOf]), hlater, fun _ => rfl,
      honward.closed⟩

/-! ## Twice -/

theorem HandedOnce.deliver (h : HandedOnce w) (logged : Nat) (event : Event) :
    HandedOnce (w.deliverEvent logged event) := by
  rcases deliverEvent_cases logged w event with heq | ⟨-, -, heq⟩ <;> rw [heq]
  · exact h.applyOperations _
  · exact h.same rfl rfl

theorem HandedOnce.flush (h : HandedOnce w) (logged : Nat) : HandedOnce (w.flush logged) :=
  flush_keeps logged (P := fun _ v => HandedOnce v) (fun event _ _ hv => hv.deliver logged event)
    (h.same rfl rfl)

theorem HandedOnce.answered (h : HandedOnce w) (answer : Option (List Operation)) :
    HandedOnce (w.answered answer) := by
  cases answer with
  | none => exact h
  | some operations => exact h.applyOperations _

theorem HandedOnce.next (h : HandedOnce w) :
    HandedOnce (w.nextAttempt maxReconnectRetries) := by
  rcases nextAttempt_cases maxReconnectRetries w with ⟨_, heq⟩ | ⟨_, heq⟩ <;> rw [heq]
  · exact h.same rfl rfl
  · exact h.same rfl rfl

theorem HandedOnce.receive (h : HandedOnce w) : HandedOnce (w.onStreamEvent logged event) := by
  unfold Workspace.onStreamEvent
  split
  · exact h.same rfl rfl
  · exact h.deliver logged event

theorem HandedOnce.error (h : HandedOnce w) :
    HandedOnce (w.onStreamError maxReconnectRetries) := by
  unfold Workspace.onStreamError
  split
  · exact h.same rfl rfl
  · apply HandedOnce.next
    exact h.same rfl rfl

theorem HandedOnce.attempt (h : HandedOnce w) :
    HandedOnce (w.endAttempt maxReconnectRetries logged answer) := by
  rw [endAttempt_eq]
  have hflushed := (h.answered answer).flush logged
  unfold afterFlush
  split
  · apply HandedOnce.next
    exact hflushed.same rfl rfl
  · exact hflushed.same rfl rfl

theorem HandedOnce.recovery (h : HandedOnce w) (i : Nat) :
    HandedOnce (w.endRecovery maxReconnectRetries logged i answer) := by
  rw [endRecovery_eq]
  have hanswered : HandedOnce (afterRecovery w i answer) := (h.answered answer).same rfl rfl
  split
  · exact hanswered
  split
  · exact HandedOnce.error (hanswered.same rfl rfl)
  · have hflushed := hanswered.flush logged
    unfold resumed
    split
    · exact hflushed.same rfl rfl
    · exact hflushed

theorem put_workspace (s : System) (v : Workspace) : (s.put v).workspace = v := by
  unfold System.put
  split <;> rfl

theorem HandedOnce.step (h : HandedOnce s.workspace)
    (hstep : step maxReconnectRetries s move = some t) : HandedOnce t.workspace := by
  cases move <;> simp only [Studio.step, Option.ite_none_right_eq_some, Option.some.injEq] at hstep
  case accept | publish | drop | heartbeat =>
    obtain ⟨-, rfl⟩ := hstep
    exact h
  case streamError =>
    obtain ⟨-, rfl⟩ := hstep
    rw [put_workspace]
    exact h.error
  case backoffEnds =>
    obtain ⟨-, rfl⟩ := hstep
    rw [put_workspace]
    exact h.same rfl rfl
  case fetch =>
    subst hstep
    exact h
  case deliver =>
    split at hstep
    · obtain rfl := Option.some.inj hstep
      rw [put_workspace]
      exact h.receive
    · cases hstep
  case attemptAnswer upTo =>
    split at hstep
    · rw [Option.ite_none_right_eq_some, Option.some.injEq] at hstep
      obtain ⟨-, rfl⟩ := hstep
      rw [put_workspace]
      exact h.attempt
    · cases hstep
  case recoveryAnswer i upTo =>
    split at hstep
    · rw [Option.ite_none_right_eq_some, Option.some.injEq] at hstep
      obtain ⟨-, rfl⟩ := hstep
      rw [put_workspace]
      exact h.recovery i
    · cases hstep
  case fetchAnswer i upTo =>
    split at hstep
    · rw [Option.ite_none_right_eq_some, Option.some.injEq] at hstep
      obtain ⟨-, rfl⟩ := hstep
      exact h.answered _
    · cases hstep

/-! ## Lost -/

theorem Inv.step (h : Inv s) (hsafe : Safe s move)
    (hstep : step maxReconnectRetries s move = some t) : Inv t := by
  obtain ⟨hlog, hsound, hfetched, hclosed, hwaiting⟩ := h
  cases move with
  | accept op =>
    simp only [Studio.step, Option.ite_none_right_eq_some, Option.some.injEq] at hstep
    obtain ⟨⟨hnamed, hfresh, hnext⟩, rfl⟩ := hstep
    exact ⟨hlog.append hnamed hfresh hnext, hsound.accept hnext, hfetched, hclosed, hwaiting⟩
  | publish operations =>
    simp only [Studio.step, Option.ite_none_right_eq_some, Option.some.injEq] at hstep
    obtain ⟨hlogged, rfl⟩ := hstep
    split
    · next hopen =>
      refine ⟨hlog, hsound.requeue fun op hop => ?_, hfetched, by simp [hopen], hwaiting⟩
      rw [operationsOf, List.flatMap_append, List.mem_append, List.flatMap_singleton] at hop
      rcases hop with hqueued | hnew
      · exact hsound.queued op hqueued
      · exact hlogged op hnew
    · exact ⟨hlog, hsound, hfetched, hclosed, hwaiting⟩
  | drop =>
    simp only [Studio.step, Option.ite_none_right_eq_some, Option.some.injEq] at hstep
    obtain ⟨-, rfl⟩ := hstep
    refine ⟨hlog, hsound.requeue (hsound.queued.mono List.eraseP_subset), hfetched,
      fun hclosedNow => ?_, hwaiting⟩
    simp [hclosed hclosedNow]
  | heartbeat =>
    simp only [Studio.step, Option.ite_none_right_eq_some, Option.some.injEq] at hstep
    obtain ⟨hopen, rfl⟩ := hstep
    refine ⟨hlog, hsound.requeue fun op hop => hsound.queued op ?_, hfetched, by simp [hopen],
      hwaiting⟩
    simpa [operationsOf, Event.operations] using hop
  | deliver =>
    unfold Studio.step at hstep
    dsimp only at hstep
    split at hstep
    · next event queue hqueue =>
      obtain rfl := Option.some.inj hstep
      rw [hqueue] at hsound
      exact Inv.put hlog hfetched (hsound.receive hlog (hsafe event queue hqueue))
        (Onward.receive hwaiting)
    · cases hstep
  | streamError =>
    simp only [Studio.step, Option.ite_none_right_eq_some, Option.some.injEq] at hstep
    obtain ⟨-, rfl⟩ := hstep
    exact Inv.put hlog hfetched hsound.error (Onward.error ..)
  | backoffEnds =>
    simp only [Studio.step, Option.ite_none_right_eq_some, Option.some.injEq] at hstep
    obtain ⟨hcycle, rfl⟩ := hstep
    have hempty := hclosed (hwaiting hcycle)
    rw [hempty] at hsound
    refine Inv.put hlog hfetched ?_ Onward.replace
    rw [hempty]
    exact hsound.replace hcycle (hsafe hcycle)
  | attemptAnswer upTo =>
    unfold Studio.step at hstep
    dsimp only at hstep
    split at hstep
    · next get hcycle =>
      rw [Option.ite_none_right_eq_some, Option.some.injEq] at hstep
      obtain ⟨-, rfl⟩ := hstep
      obtain ⟨hpassed, hflush⟩ := hsafe get hcycle
      exact Inv.put hlog hfetched (hsound.attempt hlog hcycle hpassed hflush) Onward.attempt
    · cases hstep
  | recoveryAnswer i upTo =>
    unfold Studio.step at hstep
    dsimp only at hstep
    split at hstep
    · next get hget =>
      rw [Option.ite_none_right_eq_some, Option.some.injEq] at hstep
      obtain ⟨-, rfl⟩ := hstep
      obtain ⟨hpassed, hthrown, hflush⟩ := hsafe get hget
      exact Inv.put hlog hfetched (hsound.recovery hlog hget hpassed hthrown hflush)
        (Onward.recovery hwaiting)
    · cases hstep
  | fetch =>
    obtain rfl := Option.some.inj hstep
    refine ⟨hlog, hsound, fun get hget => ?_, hclosed, hwaiting⟩
    rcases List.mem_append.mp hget with hget | hnew
    · exact hfetched get hget
    · rw [List.mem_singleton.mp hnew]
      exact Nat.le_refl _
  | fetchAnswer i upTo =>
    unfold Studio.step at hstep
    dsimp only at hstep
    split at hstep
    · next get hget =>
      rw [Option.ite_none_right_eq_some, Option.some.injEq] at hstep
      obtain ⟨-, rfl⟩ := hstep
      have hle := last_le_answered s.workspace (s.answer get upTo)
      have hanswered := hsound.answered upTo hlog (hfetched get (List.mem_of_getElem? hget))
      refine ⟨hlog, hanswered, fun other hother => ?_, ?_, ?_⟩
      · exact Nat.le_trans (hfetched other (List.mem_of_mem_eraseIdx hother)) hle
      · change (s.workspace.answered _).sourceOpen = false → _
        rw [answered_rest]
        exact hclosed
      · change (s.workspace.answered _).reconnectCycle = _ →
          (s.workspace.answered _).sourceOpen = false
        rw [answered_rest]
        exact hwaiting
    · cases hstep

theorem Inv.initial : Inv .initial := by
  refine ⟨⟨by simp [System.initial], by simp [System.initial], rfl⟩, ?_, by simp [System.initial],
    fun _ => rfl, by simp [System.initial, Workspace.subscribed]⟩
  refine ⟨⟨⟨⟨rfl, List.nodup_nil⟩, ?_⟩, ?_, Nat.le_refl _⟩, ?_, ?_, fun _ => rfl⟩
  all_goals simp [System.initial, Workspace.subscribed, Carries, Covered, Workspace.cycleGets,
    operationsOf]

/-- Live, without a fence or a cycle, and with every drop reported and seen. -/
structure System.Quiet (s : System) : Prop where
  live : s.workspace.state = .live
  open_ : ¬ s.workspace.Fenced
  reported : s.missed = 0
  processed : ∀ missedEvents, .heartbeat missedEvents ∈ s.queue → missedEvents = 0

theorem Inv.count_eq_one (h : Inv s) (hquiet : s.Quiet) {op : Operation} (hop : op ∈ s.log)
    (hpassed : op.serverSequence ≤ s.workspace.lastServerSequence) :
    s.workspace.handedOver.count op = 1 := by
  have hsound := h.sound
  have honce := hsound.steady.handed.once
  have happlied : op.operationId ∈ s.workspace.appliedOperationIds := by
    by_contra hnew
    have hcovers := hsound.covered op hop hpassed
      ⟨hnew, by simp [hsound.calm hquiet.open_]⟩
    rcases hcovers.1 with hfenced | hfailed
    · exact hquiet.open_ hfenced
    · simp [hquiet.live] at hfailed
  rw [← honce.ids] at happlied
  obtain ⟨other, hother, hid⟩ := List.mem_map.mp happlied
  have hsame := h.numbered.eq_of_id (hsound.steady.handed.below other hother).1 hop hid
  have hnodup : s.workspace.handedOver.Nodup := List.Nodup.of_map _ (honce.ids ▸ honce.distinct)
  exact List.count_eq_one_of_mem hnodup (hsame ▸ hother)

/-- No operation is handed over twice, and where no step leaves one behind, a quiet workspace has
handed over every operation up to its last sequence once. -/
theorem handed_over_once {maxReconnectRetries : Nat} {moves : List Move} {s : System}
    (hrun : run (step maxReconnectRetries) .initial moves = some s) :
    (s.workspace.handedOver.map (·.operationId)).Nodup ∧
      (EachStep (step maxReconnectRetries) Safe .initial moves → s.Quiet →
        ∀ op ∈ s.log, op.serverSequence ≤ s.workspace.lastServerSequence →
          s.workspace.handedOver.count op = 1) := by
  refine ⟨?_, fun hsafe hquiet op hop hpassed => ?_⟩
  · have honce : HandedOnce s.workspace := run_invariant
      (I := fun s => HandedOnce s.workspace) (C := fun _ _ => True)
      (fun _ _ _ h _ hstep => h.step hstep) ⟨rfl, List.nodup_nil⟩
      (eachStep_of_forall (fun _ _ => trivial) _ _) hrun
    rw [honce.ids]
    exact honce.distinct
  · have hinv : Inv s :=
      run_invariant (fun _ _ _ h hc hstep => h.step hc hstep) Inv.initial hsafe hrun
    exact hinv.count_eq_one hquiet hop hpassed

/-! ## Two drops -/

def opA : Operation := ⟨"a", 1⟩

def opB : Operation := ⟨"b", 2⟩

/-- The frame of a is dropped, which the next heartbeat reports. The frame of b comes during the
recovery, which brings both. -/
def reportedDrop : List Move :=
  [.accept opA, .publish [opA], .drop, .heartbeat, .deliver, .accept opB, .publish [opB], .deliver,
    .recoveryAnswer 0 (some 2)]

/-- The recovery waits for its GET. -/
def recoveringA : System where
  log := [opA]
  queue := []
  missed := 0
  workspace :=
    { Workspace.subscribed with
      state := .catchingUp, gapPending := true, recoveries := [⟨0, 1⟩] }
  fetches := []

def bothLogged : System :=
  { recoveringA with
    log := [opA, opB]
    workspace := { recoveringA.workspace with bufferedEvents := [.canonicalRevision [opB]] } }

def bothHandedOver : System where
  log := [opA, opB]
  queue := []
  missed := 0
  workspace :=
    { Workspace.subscribed with
      appliedOperationIds := ["a", "b"], lastServerSequence := 2, handedOver := [opA, opB] }
  fetches := []

theorem reported_drop_handed_over :
    run (step 3) .initial reportedDrop = some bothHandedOver ∧
      (["a", "b"] : List String).Nodup ∧ bothHandedOver.workspace.handedOver.count opA = 1 := by
  have hrun : run (step 3) .initial reportedDrop = some bothHandedOver := by rfl
  obtain ⟨hnodup, hall⟩ := handed_over_once hrun
  refine ⟨hrun, hnodup, hall ?_ ⟨rfl, by decide, rfl, by simp [bothHandedOver]⟩ _ (by decide)
    (by decide)⟩
  refine eachStep_cons rfl trivial (eachStep_cons rfl trivial (eachStep_cons rfl trivial
    (eachStep_cons rfl trivial (eachStep_cons (t := recoveringA) rfl ?_ ?_))))
  · rintro event queue hqueue - op ⟨-, -, -, later, hlater, -⟩
    obtain ⟨rfl, -⟩ := List.cons.inj hqueue
    cases hlater
  refine eachStep_cons rfl trivial (eachStep_cons rfl trivial
    (eachStep_cons (t := bothLogged) rfl ?_ (eachStep_cons (t := bothHandedOver) rfl ?_ trivial)))
  · intro event queue hqueue hgap
    cases hgap
  · intro get hget
    obtain rfl := Option.some.inj hget
    refine ⟨fun op hop hpassed => ?_, (fun h => by cases h), fun _ _ => ⟨?_, trivial⟩⟩
    · have hlow : ∀ op ∈ [opA, opB], ¬ op.serverSequence ≤ 0 := by decide
      exact absurd hpassed (hlow op hop)
    -- the answer has applied both
    · rintro op ⟨hlogged, ⟨hnew, -⟩, -⟩
      have happlied : ∀ op ∈ [opA, opB], op.operationId ∈ ["a", "b"] := by decide
      exact absurd (happlied op hlogged) hnew

/-- A frame is dropped before one that survives. The survivor passes it, and the recovery asks only
above the survivor. -/
def passedDrop : List Move :=
  [.accept opA, .accept opB, .publish [opA], .publish [opB], .drop, .heartbeat, .deliver, .deliver,
    .recoveryAnswer 0 (some 2)]

def afterPassedDrop : System where
  log := [opA, opB]
  queue := []
  missed := 0
  workspace :=
    { Workspace.subscribed with
      appliedOperationIds := ["b"], lastServerSequence := 2, handedOver := [opB] }
  fetches := []

theorem dropped_frame_lost :
    run (step 3) .initial passedDrop = some afterPassedDrop ∧ afterPassedDrop.Quiet ∧
      opA ∈ afterPassedDrop.log ∧ 1 ≤ afterPassedDrop.workspace.lastServerSequence ∧
      afterPassedDrop.workspace.handedOver.count opA = 0 := by
  refine ⟨by rfl, ⟨rfl, by decide, rfl, by simp [afterPassedDrop]⟩, by decide, by decide, by decide⟩

end Solweig.Studio
