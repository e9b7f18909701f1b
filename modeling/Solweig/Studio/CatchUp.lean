import Solweig.Studio.Handover

/-!
# The end of a catch-up

The invariant of a workspace, and that events, errors and answers keep it: what the last sequence
has passed is applied, on its way, or awaited by a GET that asked from below it.
-/

namespace Solweig.Studio

variable {log : List Operation} {op : Operation} {logged : Nat}
  {held queue : List Event} {event : Event} {w : Workspace}

/-! ## The invariant of a workspace -/

/-- A GET from below the operation is under way, and the workspace says so. -/
def Workspace.Covers (w : Workspace) (op : Operation) : Prop :=
  (w.Fenced ∨ w.state = .failed) ∧ AwaitedBy (w.recoveries ++ w.cycleGets) op

structure Steady (log : List Operation) (held queue : List Event) (w : Workspace) : Prop where
  handed : Handed log w
  carries : Carries log (held ++ w.bufferedEvents ++ queue)
  inside : w.lastServerSequence ≤ log.length

theorem Steady.same {v : Workspace} (h : Steady log held queue w)
    (hids : v.appliedOperationIds = w.appliedOperationIds)
    (hlast : v.lastServerSequence = w.lastServerSequence) (hover : v.handedOver = w.handedOver)
    (hbuffer : v.bufferedEvents = w.bufferedEvents) : Steady log held queue v := by
  obtain ⟨⟨once, below⟩, carries, inside⟩ := h
  rw [← hover, ← hlast] at below
  rw [← hbuffer] at carries
  rw [← hlast] at inside
  exact ⟨⟨once.same hover hids, below⟩, carries, inside⟩

structure Sound (log : List Operation) (queue : List Event) (w : Workspace) : Prop where
  steady : Steady log [] queue w
  covered : Covered Workspace.Covers log [] w
  asked : ∀ get ∈ w.recoveries ++ w.cycleGets, get.since ≤ w.lastServerSequence
  calm : ¬ w.Fenced → w.bufferedEvents = []

theorem AwaitedBy.mono {gets more : List Get} (h : AwaitedBy gets op) (hsub : gets ⊆ more) :
    AwaitedBy more op := by
  obtain ⟨get, hget, hbounds⟩ := h
  exact ⟨get, hsub hget, hbounds⟩

@[simp]
theorem not_awaitedBy_nil : ¬ AwaitedBy [] op := by
  rintro ⟨get, hget, -⟩
  cases hget

/-! ## One event -/

theorem Steady.deliver (hlog : Numbered log) (h : Steady log (event :: held) queue w) :
    Steady log held queue (w.deliverEvent logged event) := by
  have hcarried : ∀ op ∈ event.operations, op ∈ log := fun op hop =>
    h.carries op (List.mem_append_left _ hop)
  have hrest : Carries log (held ++ w.bufferedEvents ++ queue) :=
    h.carries.mono (List.subset_cons_self ..)
  rcases deliverEvent_cases logged w event with heq | ⟨-, -, heq⟩ <;> rw [heq]
  · refine ⟨h.handed.applyOperations hcarried, ?_, ?_⟩
    · rwa [applyOperations_rest]
    · rcases last_cases w event.operations with hlast | ⟨later, hlater, -, hlast⟩
      · rw [hlast]
        exact h.inside
      · rw [hlast]
        exact (hlog.sequence_bounds (hcarried later hlater)).2
  · refine ⟨⟨h.handed.once.same rfl rfl, h.handed.below⟩, hrest.mono fun e he => ?_, h.inside⟩
    simp only [recovering, List.append_nil, List.mem_append] at he ⊢
    tauto

theorem Covers.deliver (event : Event) (h : w.Covers op) :
    (w.deliverEvent logged event).Covers op := by
  obtain ⟨htold, hawaited⟩ := h
  rcases deliverEvent_cases logged w event with heq | ⟨-, -, heq⟩ <;> rw [heq]
  · rw [applyOperations_rest]
    exact ⟨htold, hawaited⟩
  · refine ⟨Or.inl (Or.inl rfl), hawaited.mono ?_⟩
    unfold recovering Workspace.cycleGets
    simp only [List.append_assoc]
    exact List.append_subset.mpr ⟨List.subset_append_left _ _, by simp⟩

theorem asked_deliver (event : Event)
    (h : ∀ get ∈ w.recoveries ++ w.cycleGets, get.since ≤ w.lastServerSequence) :
    ∀ get ∈ (w.deliverEvent logged event).recoveries ++ (w.deliverEvent logged event).cycleGets,
      get.since ≤ (w.deliverEvent logged event).lastServerSequence := by
  rcases deliverEvent_cases logged w event with heq | ⟨-, -, heq⟩ <;> rw [heq]
  · have hle := last_mono w event.operations
    rw [applyOperations_rest]
    exact fun get hget => Nat.le_trans (h get hget) hle
  · intro get hget
    simp only [recovering, List.mem_append, List.mem_singleton] at hget
    rcases hget with (hget | rfl) | hget
    · exact h get (List.mem_append_left _ hget)
    · exact Nat.le_refl _
    · exact h get (List.mem_append_right _ hget)

theorem Sound.receive (hlog : Numbered log) (h : Sound log (event :: queue) w)
    (hbehind : w.gapPending = false → ∀ op, LeftBehind log [] w event op → w.Covers op) :
    Sound log queue (w.onStreamEvent log.length event) := by
  unfold Workspace.onStreamEvent
  split
  · next hgap =>
    refine ⟨⟨⟨h.steady.handed.once.same rfl rfl, h.steady.handed.below⟩,
      h.steady.carries.mono fun e he => ?_, h.steady.inside⟩, fun op hop hpassed hmissing => ?_,
      h.asked, fun hcalm => absurd (Or.inl hgap) hcalm⟩
    · simp only [List.nil_append, List.mem_append, List.mem_cons, List.not_mem_nil] at he ⊢
      tauto
    · refine h.covered op hop hpassed ⟨hmissing.1, fun hmem => hmissing.2 ?_⟩
      exact operationsOf_mono (List.subset_append_left w.bufferedEvents _) hmem
  · next hgap =>
    have htaken : Steady log [event] queue w := by
      refine ⟨h.steady.handed, h.steady.carries.mono fun e he => ?_, h.steady.inside⟩
      simp only [List.nil_append, List.mem_append, List.mem_cons, List.not_mem_nil] at he ⊢
      tauto
    have hcarries : Carries log [event] :=
      htaken.carries.mono (by simp)
    have hcovered : Covered Workspace.Covers log [event] w := fun op hop hpassed hmissing =>
      h.covered op hop hpassed ⟨hmissing.1, fun hmem => hmissing.2 (List.mem_append_right _ hmem)⟩
    exact ⟨htaken.deliver hlog, hcovered.deliver hlog hcarries (fun op => Covers.deliver event)
      (hbehind (by simpa using hgap)) h.calm, asked_deliver event h.asked, calm_deliver h.calm⟩

/-! ## One answer -/

variable {since : Nat} {answer : Option (List Operation)}

/-- The workspace after the operations of an answer, if there are any. -/
def Workspace.answered (w : Workspace) (answer : Option (List Operation)) : Workspace :=
  (answer.map w.applyAnswer).getD w

theorem answered_rest (w : Workspace) (answer : Option (List Operation)) :
    w.answered answer =
      { w with
        appliedOperationIds := (w.answered answer).appliedOperationIds
        lastServerSequence := (w.answered answer).lastServerSequence
        handedOver := (w.answered answer).handedOver } := by
  cases answer with
  | none => rfl
  | some operations => exact applyAnswer_rest ..

theorem last_le_answered (w : Workspace) (answer : Option (List Operation)) :
    w.lastServerSequence ≤ (w.answered answer).lastServerSequence := by
  cases answer with
  | none => exact Nat.le_refl _
  | some operations => exact last_mono ..

/-- What an answer from below the last sequence passes was passed before, was not applied, and is
not brought. -/
theorem passed_before (upTo : Option Nat) (hlog : Numbered log)
    (hsince : since ≤ w.lastServerSequence) (hop : op ∈ log)
    (hpassed : op.serverSequence ≤
      (w.answered (upTo.map (between log since))).lastServerSequence)
    (hnew : op.operationId ∉ (w.answered (upTo.map (between log since))).appliedOperationIds) :
    op.serverSequence ≤ w.lastServerSequence ∧ op.operationId ∉ w.appliedOperationIds ∧
      ¬ ∃ n ∈ upTo, since < op.serverSequence ∧ op.serverSequence ≤ n := by
  cases upTo with
  | none =>
    refine ⟨hpassed, hnew, ?_⟩
    rintro ⟨n, hn, -⟩
    cases hn
  | some n =>
    obtain ⟨hbefore, hold, hnot⟩ := passed_before_answer hlog hsince hop hpassed hnew
    refine ⟨hbefore, hold, ?_⟩
    rintro ⟨m, hm, hbounds⟩
    obtain rfl := Option.some.inj hm
    exact hnot hbounds

theorem Steady.answered (upTo : Option Nat) (hlog : Numbered log) (h : Steady log held queue w) :
    Steady log held queue (w.answered (upTo.map (between log since))) := by
  cases upTo with
  | none => exact h
  | some n =>
    refine ⟨h.handed.answer, ?_, ?_⟩
    · rw [answered_rest]
      exact h.carries
    · rcases last_cases w ((between log since n).insertionSort
        fun a b => a.serverSequence ≤ b.serverSequence) with hlast | ⟨later, hlater, -, hlast⟩
      · exact hlast ▸ h.inside
      · rw [List.mem_insertionSort, mem_between] at hlater
        exact hlast ▸ (hlog.sequence_bounds hlater.1).2

theorem Sound.answered (upTo : Option Nat) (hlog : Numbered log)
    (hsince : since ≤ w.lastServerSequence) (h : Sound log queue w) :
    Sound log queue (w.answered (upTo.map (between log since))) := by
  have hsteady : Steady log [] queue (w.answered (upTo.map (between log since))) :=
    h.steady.answered upTo hlog
  have hle := last_le_answered w (upTo.map (between log since))
  have hback := fun op (hop : op ∈ log) => passed_before (w := w) upTo hlog hsince hop
  generalize upTo.map (between log since) = answer at hsteady hle hback ⊢
  rw [answered_rest] at hsteady ⊢
  refine ⟨hsteady, fun op hop hpassed hmissing => ?_, fun get hget => ?_, h.calm⟩
  · obtain ⟨hbefore, hold, -⟩ := hback op hop hpassed hmissing.1
    exact h.covered op hop hbefore ⟨hold, hmissing.2⟩
  · exact Nat.le_trans (h.asked get hget) hle

/-! ## The end of an attempt -/

variable {maxReconnectRetries : Nat} {get : Get} {upTo : Option Nat}

theorem flush_keeps (logged : Nat) {P : List Event → Workspace → Prop}
    (hstep : ∀ event held w, P (event :: held) w → P held (w.deliverEvent logged event))
    (h : P held w) : P [] (held.foldl (Workspace.deliverEvent logged) w) := by
  induction held generalizing w with
  | nil => exact h
  | cons event held ih => exact ih (hstep event held w h)

theorem flush_in_cycle (logged : Nat) (held : List Event) (hcycle : w.reconnectCycle.isSome = true) :
    let flushed := held.foldl (Workspace.deliverEvent logged) w
    flushed.reconnectCycle = w.reconnectCycle ∧ flushed.recoveries = w.recoveries ∧
      flushed.sourceBroken = w.sourceBroken ∧ flushed.bufferedEvents = w.bufferedEvents := by
  refine flush_keeps logged (P := fun _ v => v.reconnectCycle = w.reconnectCycle ∧
    v.recoveries = w.recoveries ∧ v.sourceBroken = w.sourceBroken ∧
    v.bufferedEvents = w.bufferedEvents) (fun event held v h => ?_) ⟨rfl, rfl, rfl, rfl⟩
  rcases deliverEvent_cases logged v event with heq | ⟨hopen, -, -⟩
  · rw [heq, applyOperations_rest]
    exact h
  · refine absurd (Or.inr ?_) hopen
    rw [h.1]
    exact hcycle

theorem Steady.hold (h : Steady log [] queue w) :
    Steady log w.bufferedEvents queue { w with bufferedEvents := [] } := by
  refine ⟨⟨h.handed.once.same rfl rfl, h.handed.below⟩, h.carries.mono fun e he => ?_, h.inside⟩
  simpa using he

theorem nextAttempt_cases (maxReconnectRetries : Nat) (w : Workspace) :
    (∃ attempts, w.nextAttempt maxReconnectRetries =
      { w with reconnectAttempts := attempts, reconnectCycle := none, state := .failed }) ∨
    (∃ attempts, w.nextAttempt maxReconnectRetries =
      { w with reconnectAttempts := attempts, reconnectCycle := some .backoff }) := by
  unfold Workspace.nextAttempt
  dsimp only
  split
  · exact Or.inl ⟨_, rfl⟩
  · exact Or.inr ⟨_, rfl⟩

theorem cycleGets_backoff (h : w.reconnectCycle = some .backoff) : w.cycleGets = [] := by
  unfold Workspace.cycleGets
  rw [h]

theorem cycleGets_idle (h : w.reconnectCycle = none) : w.cycleGets = [] := by
  unfold Workspace.cycleGets
  rw [h]

theorem Sound.next (hsteady : Steady log [] queue w)
    (hcovered : Covered (fun _ op => AwaitedBy w.recoveries op) log [] w)
    (hasked : ∀ get ∈ w.recoveries, get.since ≤ w.lastServerSequence)
    (hcalm : w.gapPending = false → w.bufferedEvents = []) :
    Sound log queue (w.nextAttempt maxReconnectRetries) := by
  rcases nextAttempt_cases maxReconnectRetries w with ⟨attempts, heq⟩ | ⟨attempts, heq⟩ <;> rw [heq]
  · refine ⟨hsteady.same rfl rfl rfl rfl, fun op hop hpassed hmissing => ?_, ?_,
      fun hopen => hcalm ?_⟩
    · refine ⟨Or.inr rfl, ?_⟩
      rw [cycleGets_idle rfl, List.append_nil]
      exact hcovered op hop hpassed hmissing
    · rw [cycleGets_idle rfl, List.append_nil]
      exact hasked
    · unfold Workspace.Fenced at hopen
      simp_all
  · refine ⟨hsteady.same rfl rfl rfl rfl, fun op hop hpassed hmissing => ?_, ?_,
      fun hopen => absurd (Or.inr rfl) hopen⟩
    · refine ⟨Or.inl (Or.inr rfl), ?_⟩
      rw [cycleGets_backoff rfl, List.append_nil]
      exact hcovered op hop hpassed hmissing
    · rw [cycleGets_backoff rfl, List.append_nil]
      exact hasked

/-- The answer hands over the operation. -/
def Brings (get : Get) (upTo : Option Nat) (op : Operation) : Prop :=
  ∃ n ∈ upTo, get.since < op.serverSequence ∧ op.serverSequence ≤ n

theorem Covered.answered {kept : Operation → Prop} (hlog : Numbered log)
    (hsince : get.since ≤ w.lastServerSequence)
    (h : Covered (fun _ op => Brings get upTo op ∨ kept op) log [] w) :
    Covered (fun _ => kept) log [] (w.answered (upTo.map (between log get.since))) := by
  intro op hop hpassed hmissing
  have hsame : (w.answered (upTo.map (between log get.since))).bufferedEvents =
      w.bufferedEvents := by rw [answered_rest]
  obtain ⟨hbefore, hold, hnot⟩ := passed_before upTo hlog hsince hop hpassed hmissing.1
  exact (h op hop hbefore ⟨hold, hsame ▸ hmissing.2⟩).resolve_left hnot

theorem Steady.flush (logged : Nat) (hlog : Numbered log) (h : Steady log held queue w) :
    Steady log [] queue (held.foldl (Workspace.deliverEvent logged) w) :=
  flush_keeps logged (P := fun held v => Steady log held queue v)
    (fun _ _ _ hs => hs.deliver hlog) h

theorem asked_flush (logged : Nat) (held : List Event)
    (h : ∀ get ∈ w.recoveries ++ w.cycleGets, get.since ≤ w.lastServerSequence) :
    let flushed := held.foldl (Workspace.deliverEvent logged) w
    ∀ get ∈ flushed.recoveries ++ flushed.cycleGets, get.since ≤ flushed.lastServerSequence :=
  flush_keeps logged (P := fun _ v => ∀ get ∈ v.recoveries ++ v.cycleGets,
    get.since ≤ v.lastServerSequence) (fun event _ _ hs => asked_deliver event hs) h

/-- The rest of an attempt after its flush. -/
def afterFlush (maxReconnectRetries : Nat) (noAnswer : Bool) (flushed : Workspace) : Workspace :=
  if noAnswer = true ∨ flushed.sourceBroken = true then
    { flushed with sourceOpen := false, gapPending := false, state := .reconnecting }.nextAttempt
      maxReconnectRetries
  else
    { flushed with
      gapPending := false
      state := .live
      reconnectAttempts := 0
      reconnectCycle := none }

theorem endAttempt_eq (w : Workspace) (answer : Option (List Operation)) :
    w.endAttempt maxReconnectRetries logged answer =
      afterFlush maxReconnectRetries answer.isNone ((w.answered answer).flush logged) := rfl

theorem Sound.afterFlush {noAnswer : Bool} (hsteady : Steady log [] queue w)
    (hcovered : Covered (fun _ op => ¬ (noAnswer = false ∧ w.sourceBroken = false) ∧
      AwaitedBy w.recoveries op) log [] w)
    (hasked : ∀ get ∈ w.recoveries ++ w.cycleGets, get.since ≤ w.lastServerSequence)
    (hempty : w.bufferedEvents = []) :
    Sound log queue (afterFlush maxReconnectRetries noAnswer w) := by
  unfold Studio.afterFlush
  split
  · apply Sound.next
    · exact hsteady.same rfl rfl rfl rfl
    · exact fun op hop hpassed hmissing => (hcovered op hop hpassed hmissing).2
    · exact fun get hget => hasked get (List.mem_append_left _ hget)
    · exact fun _ => hempty
  · next hends =>
    refine ⟨hsteady.same rfl rfl rfl rfl, fun op hop hpassed hmissing => ?_,
      fun get hget => ?_, fun _ => hempty⟩
    · refine absurd ?_ (hcovered op hop hpassed hmissing).1
      simpa using hends
    · rw [cycleGets_idle rfl, List.append_nil] at hget
      exact hasked get (List.mem_append_left _ hget)

theorem Sound.attempt (hlog : Numbered log) (h : Sound log queue w)
    (hcycle : w.reconnectCycle = some (.catchUp get))
    (hpassed : Covered (fun _ op => Brings get upTo op ∨
      ¬ (upTo.isSome = true ∧ w.sourceBroken = false) ∧ AwaitedBy w.recoveries op) log [] w)
    (hflush : EachHandOver log log.length
      (fun _ op => ¬ (upTo.isSome = true ∧ w.sourceBroken = false) ∧ AwaitedBy w.recoveries op)
      { w.answered (upTo.map (between log get.since)) with bufferedEvents := [] }
      w.bufferedEvents) :
    Sound log queue (w.endAttempt maxReconnectRetries log.length
      (upTo.map (between log get.since))) := by
  have hsince : get.since ≤ w.lastServerSequence :=
    h.asked get (by simp [Workspace.cycleGets, hcycle])
  have hanswered : Steady log [] queue (w.answered (upTo.map (between log get.since))) :=
    h.steady.answered upTo hlog
  have hsteady := hanswered.hold
  have hcovered := (hpassed.answered hlog hsince).hold fun _ hkept => hkept
  have hasked := (h.answered upTo hlog hsince).asked
  have hends : (upTo.map (between log get.since)).isNone = !upTo.isSome := by cases upTo <;> rfl
  generalize upTo.map (between log get.since) = answer at *
  have hsame : (w.answered answer).bufferedEvents = w.bufferedEvents ∧
      (w.answered answer).recoveries = w.recoveries ∧
      (w.answered answer).sourceBroken = w.sourceBroken ∧
      (w.answered answer).reconnectCycle = w.reconnectCycle := by
    rw [answered_rest]
    exact ⟨rfl, rfl, rfl, rfl⟩
  obtain ⟨hbuffer, hrecoveries, hbroken, hrunning⟩ := hsame
  rw [← hbuffer] at hflush
  have hrest := flush_in_cycle log.length (w.answered answer).bufferedEvents
    (w := { w.answered answer with bufferedEvents := [] }) (by simp [hrunning, hcycle])
  have hcarries : Carries log (w.answered answer).bufferedEvents :=
    hsteady.carries.mono (by simp)
  have hcover := (flush_covered hlog hcarries hcovered (fun _ _ _ hkept => hkept) hflush
    fun _ => rfl).1
  have hsteady := hsteady.flush log.length hlog
  have hasked := asked_flush log.length (w.answered answer).bufferedEvents
    (w := { w.answered answer with bufferedEvents := [] }) hasked
  rw [endAttempt_eq, hends]
  unfold Workspace.flush
  obtain ⟨-, hkeptRecoveries, hkeptBroken, hempty⟩ := hrest
  refine Sound.afterFlush hsteady ?_ hasked hempty
  rw [hkeptRecoveries.trans hrecoveries, hkeptBroken.trans hbroken]
  simpa using hcover

/-! ## The end of a recovery -/

theorem awaitedBy_of_covers (hcycle : w.reconnectCycle = none) (h : w.Covers op) :
    AwaitedBy w.recoveries op := by
  have hawaited := h.2
  rwa [cycleGets_idle hcycle, List.append_nil] at hawaited

theorem Sound.error (h : Sound log queue w) :
    Sound log queue (w.onStreamError maxReconnectRetries) := by
  unfold Workspace.onStreamError
  split
  · next hcycle =>
    exact ⟨h.steady.same rfl rfl rfl rfl, h.covered, h.asked, h.calm⟩
  · next hcycle =>
    have hidle : w.reconnectCycle = none := by simpa using hcycle
    refine Sound.next (h.steady.same rfl rfl rfl rfl) (fun op hop hpassed hmissing => ?_)
      (fun get hget => h.asked get (List.mem_append_left _ hget)) (fun hgap => h.calm ?_)
    · exact awaitedBy_of_covers (w := w) hidle (h.covered op hop hpassed hmissing)
    · unfold Workspace.Fenced
      simp_all

/-- The workspace at the end of a recovery, with its answer applied. -/
def afterRecovery (w : Workspace) (i : Nat) (answer : Option (List Operation)) : Workspace :=
  { w.answered answer with
    recoveries := w.recoveries.eraseIdx i
    gapPending := false }

/-- The rest of a recovery after its flush. -/
def resumed (flushed : Workspace) : Workspace :=
  if flushed.state = .catchingUp ∧ flushed.gapPending = false then { flushed with state := .live }
  else flushed

theorem endRecovery_eq (w : Workspace) (i : Nat) (answer : Option (List Operation)) :
    w.endRecovery maxReconnectRetries logged i answer =
      if w.reconnectCycle.isSome then afterRecovery w i answer
      else if answer.isNone then
        { afterRecovery w i answer with sourceOpen := false, bufferedEvents := [] }.onStreamError
          maxReconnectRetries
      else resumed ((afterRecovery w i answer).flush logged) := rfl

theorem afterRecovery_kept (w : Workspace) (i : Nat) (answer : Option (List Operation)) :
    (afterRecovery w i answer).bufferedEvents = w.bufferedEvents ∧
      (afterRecovery w i answer).reconnectCycle = w.reconnectCycle ∧
      (afterRecovery w i answer).cycleGets = w.cycleGets := by
  unfold afterRecovery Workspace.cycleGets
  rw [answered_rest]
  exact ⟨rfl, rfl, rfl⟩

theorem afterRecovery_asked {i : Nat}
    (h : ∀ get ∈ w.recoveries ++ w.cycleGets, get.since ≤ w.lastServerSequence) :
    ∀ get ∈ (afterRecovery w i answer).recoveries ++ (afterRecovery w i answer).cycleGets,
      get.since ≤ (afterRecovery w i answer).lastServerSequence := by
  intro get hget
  rw [(afterRecovery_kept w i answer).2.2] at hget
  refine Nat.le_trans (h get ?_) (last_le_answered w answer)
  exact (List.mem_append.mp hget).elim
    (fun hmem => List.mem_append_left _ (List.mem_of_mem_eraseIdx hmem))
    (List.mem_append_right _)

theorem Sound.superseded {i : Nat} (h : Sound log queue (w.answered answer))
    (hcovered : Covered (fun _ op => AwaitedBy (w.recoveries.eraseIdx i ++ w.cycleGets) op) log []
      (w.answered answer))
    (hasked : ∀ get ∈ w.recoveries ++ w.cycleGets, get.since ≤ w.lastServerSequence)
    (hcycle : w.reconnectCycle.isSome = true) :
    Sound log queue (afterRecovery w i answer) := by
  obtain ⟨hbuffer, hrunning, hgets⟩ := afterRecovery_kept w i answer
  have hfenced : (afterRecovery w i answer).Fenced := Or.inr (hrunning ▸ hcycle)
  refine ⟨h.steady.same rfl rfl rfl rfl, fun op hop hpassed hmissing => ⟨Or.inl hfenced, ?_⟩,
    afterRecovery_asked hasked, fun hopen => absurd hfenced hopen⟩
  rw [hgets]
  exact hcovered op hop hpassed hmissing

theorem Sound.unanswered {i : Nat} (h : Sound log queue (w.answered answer))
    (hcovered : Covered (fun _ op => AwaitedBy (w.recoveries.eraseIdx i) op) log []
      { w.answered answer with bufferedEvents := [] })
    (hasked : ∀ get ∈ w.recoveries ++ w.cycleGets, get.since ≤ w.lastServerSequence)
    (hidle : w.reconnectCycle = none) :
    Sound log queue
      ({ afterRecovery w i answer with sourceOpen := false, bufferedEvents := [] }.onStreamError
        maxReconnectRetries) := by
  obtain ⟨hbuffer, hrunning, hgets⟩ := afterRecovery_kept w i answer
  have hnotRunning : ¬ (afterRecovery w i answer).reconnectCycle.isSome = true := by
    simp [hrunning, hidle]
  unfold Workspace.onStreamError
  rw [if_neg hnotRunning]
  have hempty : Steady log [] queue { w.answered answer with bufferedEvents := [] } :=
    ⟨⟨h.steady.handed.once.same rfl rfl, h.steady.handed.below⟩,
      h.steady.carries.mono (List.subset_append_right _ _), h.steady.inside⟩
  exact Sound.next (hempty.same rfl rfl rfl rfl) hcovered
    (fun get hget => afterRecovery_asked hasked get (List.mem_append_left _ hget)) fun _ => rfl

theorem Sound.recovered {i : Nat} (hlog : Numbered log)
    (h : Sound log queue (w.answered answer))
    (hcovered : Covered (fun _ _ => False) log [] (w.answered answer))
    (hasked : ∀ get ∈ w.recoveries ++ w.cycleGets, get.since ≤ w.lastServerSequence)
    (hflush : EachHandOver log log.length Workspace.Covers
      { afterRecovery w i answer with bufferedEvents := [] } w.bufferedEvents) :
    Sound log queue (resumed ((afterRecovery w i answer).flush log.length)) := by
  obtain ⟨hbuffer, hrunning, hgets⟩ := afterRecovery_kept w i answer
  have hsteady : Steady log [] queue (afterRecovery w i answer) :=
    h.steady.same rfl rfl rfl rfl
  have hstart : Covered Workspace.Covers log (afterRecovery w i answer).bufferedEvents
      { afterRecovery w i answer with bufferedEvents := [] } := by
    intro op hop hpassed hmissing
    refine (hcovered op hop hpassed ⟨hmissing.1, fun hbuffered => hmissing.2 ?_⟩).elim
    exact operationsOf_mono (by simp [afterRecovery]) hbuffered
  rw [← hbuffer] at hflush
  have hcarries : Carries log (afterRecovery w i answer).bufferedEvents :=
    hsteady.carries.mono (by simp)
  obtain ⟨hcover, hcalm⟩ := flush_covered hlog hcarries hstart
    (fun _ event _ => Covers.deliver event) hflush fun _ => rfl
  have hafter := hsteady.hold.flush log.length hlog
  have hgetsAfter := asked_flush log.length (afterRecovery w i answer).bufferedEvents
    (w := { afterRecovery w i answer with bufferedEvents := [] }) (afterRecovery_asked hasked)
  have hsound : Sound log queue ((afterRecovery w i answer).flush log.length) :=
    ⟨hafter, hcover, hgetsAfter, hcalm⟩
  unfold resumed
  split
  · next hstate =>
    refine ⟨hsound.steady.same rfl rfl rfl rfl, fun op hop hpassed hmissing => ?_, hsound.asked,
      hsound.calm⟩
    obtain ⟨htold, hawaited⟩ := hsound.covered op hop hpassed hmissing
    refine ⟨Or.inl (htold.resolve_right ?_), hawaited⟩
    simp [hstate.1]
  · exact hsound

/-- What still covers an operation when a recovery ends: nothing, once the stream is live again. -/
def StillAwaited (w : Workspace) (i : Nat) (upTo : Option Nat) (op : Operation) : Prop :=
  ¬ (upTo.isSome = true ∧ w.reconnectCycle = none) ∧
    AwaitedBy (w.recoveries.eraseIdx i ++ w.cycleGets) op

theorem Sound.recovery {i : Nat} (hlog : Numbered log) (h : Sound log queue w)
    (hget : w.recoveries[i]? = some get)
    (hpassed : Covered (fun _ op => Brings get upTo op ∨ StillAwaited w i upTo op) log [] w)
    (hthrown : upTo = none → w.reconnectCycle = none →
      Covered (fun _ op => StillAwaited w i upTo op) log [] { w with bufferedEvents := [] })
    (hflush : upTo.isSome = true → w.reconnectCycle = none →
      EachHandOver log log.length Workspace.Covers
        { afterRecovery w i (upTo.map (between log get.since)) with bufferedEvents := [] }
        w.bufferedEvents) :
    Sound log queue (w.endRecovery maxReconnectRetries log.length i
      (upTo.map (between log get.since))) := by
  have hsince : get.since ≤ w.lastServerSequence :=
    h.asked get (List.mem_append_left _ (List.mem_of_getElem? hget))
  have hanswered := h.answered upTo hlog hsince
  have hcovered := hpassed.answered hlog hsince
  rw [endRecovery_eq]
  split
  · next hcycle =>
    exact hanswered.superseded (fun op hop hpassed hmissing =>
      (hcovered op hop hpassed hmissing).2) h.asked hcycle
  · next hcycle =>
    have hidle : w.reconnectCycle = none := by simpa using hcycle
    split
    · next hfails =>
      obtain rfl : upTo = none := by simpa using hfails
      refine hanswered.unanswered (fun op hop hpassed hmissing => ?_) h.asked hidle
      have hawaited := (hthrown rfl hidle op hop hpassed hmissing).2
      rwa [cycleGets_idle hidle, List.append_nil] at hawaited
    · next hbrought =>
      have hends : upTo.isSome = true := Option.isSome_iff_ne_none.mpr (by simpa using hbrought)
      exact hanswered.recovered hlog (fun op hop hpassed hmissing =>
        (hcovered op hop hpassed hmissing).1 ⟨hends, hidle⟩) h.asked (hflush hends hidle)

end Solweig.Studio
