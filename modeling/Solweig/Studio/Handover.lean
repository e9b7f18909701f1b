import Solweig.Studio.RealtimeClient

/-!
# What is handed over

What one event, one flush and one answer do to the last sequence, and which operations they leave
behind it.
-/

namespace Solweig.Studio

/-! ## The log -/

/-- Numbered from 1 on, with distinct ids. -/
structure Numbered (log : List Operation) : Prop where
  named : ∀ op ∈ log, op.operationId ≠ ""
  distinct : (log.map (·.operationId)).Nodup
  sequences : log.map (·.serverSequence) = List.range' 1 log.length

variable {log : List Operation} {op other : Operation}

theorem Numbered.eq_of_id (h : Numbered log) (hop : op ∈ log) (hother : other ∈ log)
    (hid : op.operationId = other.operationId) : op = other :=
  List.inj_on_of_nodup_map h.distinct hop hother hid

theorem Numbered.eq_of_sequence (h : Numbered log) (hop : op ∈ log) (hother : other ∈ log)
    (hsequence : op.serverSequence = other.serverSequence) : op = other := by
  have hnodup : (log.map (·.serverSequence)).Nodup := by
    rw [h.sequences]
    exact List.nodup_range' ..
  exact List.inj_on_of_nodup_map hnodup hop hother hsequence

theorem Numbered.sequence_bounds (h : Numbered log) (hop : op ∈ log) :
    1 ≤ op.serverSequence ∧ op.serverSequence ≤ log.length := by
  have hmem := List.mem_map_of_mem (f := (·.serverSequence)) hop
  rw [h.sequences, List.mem_range'_1] at hmem
  omega

theorem Numbered.sorted (h : Numbered log) :
    log.Pairwise fun a b => a.serverSequence < b.serverSequence := by
  have hsorted : (log.map (·.serverSequence)).Pairwise (· < ·) := by
    rw [h.sequences]
    exact List.pairwise_lt_range' 1
  exact List.pairwise_map.mp hsorted

theorem Numbered.append (h : Numbered log) (hnamed : op.operationId ≠ "")
    (hfresh : op.operationId ∉ log.map (·.operationId))
    (hnext : op.serverSequence = log.length + 1) : Numbered (log ++ [op]) := by
  refine ⟨?_, ?_, ?_⟩
  · intro a ha
    rcases List.mem_append.mp ha with ha | ha
    · exact h.named a ha
    · rwa [List.mem_singleton.mp ha]
  · rw [List.map_append, List.nodup_append]
    refine ⟨h.distinct, List.nodup_singleton _, fun a ha b hb heq => ?_⟩
    rw [List.map_singleton, List.mem_singleton] at hb
    exact hfresh (hb ▸ heq ▸ ha)
  · rw [List.map_append, h.sequences, List.map_singleton, hnext, List.length_append,
      List.length_singleton, List.range'_concat]
    simp [Nat.add_comm]

theorem mem_between {since upTo : Nat} : op ∈ between log since upTo ↔
    op ∈ log ∧ since < op.serverSequence ∧ op.serverSequence ≤ upTo := by
  unfold between
  simp

/-! ## Applying operations -/

section Apply

variable {w : Workspace} {operations : List Operation}

theorem applyOperations_rest (w : Workspace) (operations : List Operation) :
    w.applyOperations operations =
      { w with
        appliedOperationIds := (w.applyOperations operations).appliedOperationIds
        lastServerSequence := (w.applyOperations operations).lastServerSequence
        handedOver := (w.applyOperations operations).handedOver } := by
  unfold Workspace.applyOperations
  induction operations generalizing w with
  | nil => rfl
  | cons op operations ih =>
    rw [List.foldl_cons, ih]
    unfold Workspace.applyOperation
    split <;> rfl

theorem applyOperation_old (h : op.operationId = "" ∨ op.operationId ∈ w.appliedOperationIds) :
    w.applyOperation op = w := if_pos h

theorem applyOperation_new (h : ¬ (op.operationId = "" ∨ op.operationId ∈ w.appliedOperationIds)) :
    w.applyOperation op =
      { w with
        appliedOperationIds := w.appliedOperationIds ++ [op.operationId]
        lastServerSequence := max w.lastServerSequence op.serverSequence
        handedOver := w.handedOver ++ [op] } := by
  have hmax : (if 0 < op.serverSequence then max w.lastServerSequence op.serverSequence
      else w.lastServerSequence) = max w.lastServerSequence op.serverSequence := by
    split <;> omega
  rw [← hmax]
  exact if_neg h

/-- What was handed over has its ids applied, each of them once. -/
structure HandedOnce (w : Workspace) : Prop where
  ids : w.handedOver.map (·.operationId) = w.appliedOperationIds
  distinct : w.appliedOperationIds.Nodup

theorem HandedOnce.same {v : Workspace} (h : HandedOnce w) (hover : v.handedOver = w.handedOver)
    (hids : v.appliedOperationIds = w.appliedOperationIds) : HandedOnce v := by
  refine ⟨?_, ?_⟩
  · rw [hover, hids, h.ids]
  · rw [hids]
    exact h.distinct

theorem HandedOnce.applyOperation (h : HandedOnce w) (op : Operation) :
    HandedOnce (w.applyOperation op) := by
  by_cases hold : op.operationId = "" ∨ op.operationId ∈ w.appliedOperationIds
  · rwa [applyOperation_old hold]
  rw [applyOperation_new hold]
  refine ⟨?_, ?_⟩
  · rw [List.map_append, h.ids, List.map_singleton]
  · rw [List.nodup_append]
    refine ⟨h.distinct, List.nodup_singleton _, fun a ha b hb heq => hold (Or.inr ?_)⟩
    rw [List.mem_singleton] at hb
    exact hb ▸ heq ▸ ha

theorem HandedOnce.applyOperations (h : HandedOnce w) (operations : List Operation) :
    HandedOnce (w.applyOperations operations) := by
  unfold Workspace.applyOperations
  induction operations generalizing w with
  | nil => exact h
  | cons op operations ih => exact ih (h.applyOperation op)

/-- It is logged as well, and lies below the last sequence. -/
structure Handed (log : List Operation) (w : Workspace) : Prop where
  once : HandedOnce w
  below : ∀ op ∈ w.handedOver, op ∈ log ∧ op.serverSequence ≤ w.lastServerSequence

theorem Handed.applyOperation (h : Handed log w) (hop : op ∈ log) :
    Handed log (w.applyOperation op) := by
  refine ⟨h.once.applyOperation op, ?_⟩
  by_cases hold : op.operationId = "" ∨ op.operationId ∈ w.appliedOperationIds
  · rw [applyOperation_old hold]
    exact h.below
  rw [applyOperation_new hold]
  intro a ha
  dsimp only at ha ⊢
  rcases List.mem_append.mp ha with hearlier | hlast
  · obtain ⟨hmem, hle⟩ := h.below a hearlier
    exact ⟨hmem, by omega⟩
  · rw [List.mem_singleton.mp hlast]
    exact ⟨hop, by omega⟩

theorem Handed.applyOperations (h : Handed log w) (hops : ∀ op ∈ operations, op ∈ log) :
    Handed log (w.applyOperations operations) := by
  unfold Workspace.applyOperations
  induction operations generalizing w with
  | nil => exact h
  | cons op operations ih =>
    obtain ⟨hop, hops⟩ := List.forall_mem_cons.mp hops
    exact ih (h.applyOperation hop) hops

theorem applied_mono {id : String} (operations : List Operation)
    (h : id ∈ w.appliedOperationIds) : id ∈ (w.applyOperations operations).appliedOperationIds := by
  unfold Workspace.applyOperations
  induction operations generalizing w with
  | nil => exact h
  | cons op operations ih =>
    rw [List.foldl_cons]
    apply ih
    unfold Workspace.applyOperation
    split
    · exact h
    · exact List.mem_append_left _ h

theorem applied_of_mem (hop : op ∈ operations) (hnamed : op.operationId ≠ "") :
    op.operationId ∈ (w.applyOperations operations).appliedOperationIds := by
  obtain ⟨before, after, rfl⟩ := List.append_of_mem hop
  unfold Workspace.applyOperations
  rw [List.foldl_append, List.foldl_cons]
  apply applied_mono after
  unfold Workspace.applyOperation
  split
  · next h => exact h.resolve_left hnamed
  · simp

theorem last_mono (w : Workspace) (operations : List Operation) :
    w.lastServerSequence ≤ (w.applyOperations operations).lastServerSequence := by
  unfold Workspace.applyOperations
  induction operations generalizing w with
  | nil => exact Nat.le_refl _
  | cons op operations ih =>
    refine Nat.le_trans ?_ (ih (w.applyOperation op))
    by_cases hold : op.operationId = "" ∨ op.operationId ∈ w.appliedOperationIds
    · rw [applyOperation_old hold]
    · rw [applyOperation_new hold]
      exact Nat.le_max_left _ _

theorem last_cases (w : Workspace) (operations : List Operation) :
    (w.applyOperations operations).lastServerSequence = w.lastServerSequence ∨
      ∃ op ∈ operations, w.lastServerSequence < op.serverSequence ∧
        (w.applyOperations operations).lastServerSequence = op.serverSequence := by
  unfold Workspace.applyOperations
  induction operations generalizing w with
  | nil => exact Or.inl rfl
  | cons op operations ih =>
    rw [List.foldl_cons]
    have hfirst : (w.applyOperation op).lastServerSequence = w.lastServerSequence ∨
        w.lastServerSequence < op.serverSequence ∧
          (w.applyOperation op).lastServerSequence = op.serverSequence := by
      by_cases hold : op.operationId = "" ∨ op.operationId ∈ w.appliedOperationIds
      · rw [applyOperation_old hold]
        exact Or.inl rfl
      · rw [applyOperation_new hold]
        dsimp only
        omega
    rcases ih (w.applyOperation op) with hlast | ⟨later, hlater, hlt, hlast⟩
    · rw [hlast]
      refine hfirst.imp_right fun h => ⟨op, List.mem_cons_self .., h⟩
    · refine Or.inr ⟨later, List.mem_cons_of_mem _ hlater, ?_, hlast⟩
      omega

end Apply

/-! ## What is missing -/

variable {logged : Nat} {held queue : List Event} {event : Event} {w : Workspace}

def Workspace.Fenced (w : Workspace) : Prop := w.gapPending = true ∨ w.reconnectCycle.isSome = true

/-- The GET of the reconnect cycle. -/
def Workspace.cycleGets (w : Workspace) : List Get :=
  match w.reconnectCycle with
  | some (.catchUp get) => [get]
  | _ => []

/-- A GET asks from below the operation, and was asked when it was logged. -/
def AwaitedBy (gets : List Get) (op : Operation) : Prop :=
  ∃ get ∈ gets, get.since < op.serverSequence ∧ op.serverSequence ≤ get.logged

/-- Not applied, and neither in the buffer nor among the events that a flush still holds. -/
def Missing (held : List Event) (w : Workspace) (op : Operation) : Prop :=
  op.operationId ∉ w.appliedOperationIds ∧ op ∉ operationsOf (held ++ w.bufferedEvents)

/-- The event hands over a later operation than this one, which it does not carry and which is
neither applied nor in hand. -/
structure LeftBehind (log : List Operation) (held : List Event) (w : Workspace) (event : Event)
    (op : Operation) : Prop where
  logged : op ∈ log
  missing : Missing held w op
  notCarried : op ∉ event.operations
  passed : ∃ later ∈ event.operations, op.serverSequence < later.serverSequence

/-- The events carry logged operations. -/
def Carries (log : List Operation) (events : List Event) : Prop :=
  ∀ op ∈ operationsOf events, op ∈ log

/-- What the last sequence has passed is applied, on its way, or covered. -/
def Covered (cover : Workspace → Operation → Prop) (log : List Operation) (held : List Event)
    (w : Workspace) : Prop :=
  ∀ op ∈ log, op.serverSequence ≤ w.lastServerSequence → Missing held w op → cover w op

@[simp]
theorem mem_operationsOf {events : List Event} :
    op ∈ operationsOf events ↔ ∃ event ∈ events, op ∈ event.operations := by
  unfold operationsOf
  exact List.mem_flatMap

theorem operationsOf_mono {few more : List Event} (hsub : few ⊆ more)
    (hop : op ∈ operationsOf few) : op ∈ operationsOf more := by
  rw [mem_operationsOf] at hop ⊢
  obtain ⟨event, hevent, hcarried⟩ := hop
  exact ⟨event, hsub hevent, hcarried⟩

/-! ## One event -/

/-- The workspace as it waits for the GET of a recovery. -/
def recovering (logged : Nat) (w : Workspace) : Workspace :=
  { w with
    gapPending := true
    bufferedEvents := []
    state := .catchingUp
    recoveries := w.recoveries ++ [w.ask logged] }

theorem deliverEvent_cases (logged : Nat) (w : Workspace) (event : Event) :
    w.deliverEvent logged event = w.applyOperations event.operations ∨
      ¬ w.Fenced ∧ event.operations = [] ∧ w.deliverEvent logged event = recovering logged w := by
  cases event with
  | canonicalRevision operations => exact Or.inl rfl
  | heartbeat missedEvents =>
    simp only [Workspace.deliverEvent, Event.operations, Workspace.recoverMissedEvents]
    split
    · split
      · exact Or.inl rfl
      · next h => exact Or.inr ⟨h, trivial, rfl⟩
    · exact Or.inl rfl

theorem Carries.mono {few more : List Event} (h : Carries log more) (hsub : few ⊆ more) :
    Carries log few := fun op hop => h op (operationsOf_mono hsub hop)

theorem Covered.deliver {cover : Workspace → Operation → Prop} (hlog : Numbered log)
    (hcarries : Carries log (event :: held)) (h : Covered cover log (event :: held) w)
    (hkept : ∀ op, cover w op → cover (w.deliverEvent logged event) op)
    (hbehind : ∀ op, LeftBehind log held w event op → cover w op)
    (hcalm : ¬ w.Fenced → w.bufferedEvents = []) :
    Covered cover log held (w.deliverEvent logged event) := by
  intro op hop hpassed hmissing
  apply hkept
  rcases deliverEvent_cases logged w event with heq | ⟨hopen, hnone, heq⟩ <;>
    rw [heq] at hpassed hmissing
  · obtain ⟨hnew, hnotHeld⟩ := hmissing
    rw [applyOperations_rest] at hnotHeld
    dsimp only at hnotHeld
    have hnotCarried : op ∉ event.operations :=
      fun hmem => hnew (applied_of_mem hmem (hlog.named op hop))
    have hold : op.operationId ∉ w.appliedOperationIds := fun hid => hnew (applied_mono _ hid)
    by_cases hle : op.serverSequence ≤ w.lastServerSequence
    · refine h op hop hle ⟨hold, fun hmem => ?_⟩
      rcases List.mem_append.mp hmem with hcarried | hheld
      · exact hnotCarried hcarried
      · exact hnotHeld hheld
    · rcases last_cases w event.operations with hlast | ⟨later, hlater, -, hlast⟩
      · omega
      · have hlaterLog := hcarries later (List.mem_append_left _ hlater)
        have hlt : op.serverSequence < later.serverSequence := by
          refine Nat.lt_of_le_of_ne (hlast ▸ hpassed) fun hsame => ?_
          exact hnotCarried (hlog.eq_of_sequence hop hlaterLog hsame ▸ hlater)
        exact hbehind op ⟨hop, ⟨hold, hnotHeld⟩, hnotCarried, later, hlater, hlt⟩
  · refine h op hop hpassed ⟨hmissing.1, fun hmem => hmissing.2 ?_⟩
    rw [hcalm hopen] at hmem
    rcases List.mem_append.mp hmem with hcarried | hheld
    · rw [hnone] at hcarried
      cases hcarried
    · exact hheld

theorem calm_deliver (hcalm : ¬ w.Fenced → w.bufferedEvents = []) :
    ¬ (w.deliverEvent logged event).Fenced → (w.deliverEvent logged event).bufferedEvents = [] := by
  rcases deliverEvent_cases logged w event with heq | ⟨-, -, heq⟩ <;> rw [heq]
  · rw [applyOperations_rest]
    exact hcalm
  · exact fun hopen => absurd (Or.inl rfl) hopen

/-! ## A flush -/

/-- Each event of a flush leaves behind only operations that are allowed. -/
def EachHandOver (log : List Operation) (logged : Nat) (allowed : Workspace → Operation → Prop) :
    Workspace → List Event → Prop
  | _, [] => True
  | w, event :: held =>
    (∀ op, LeftBehind log held w event op → allowed w op) ∧
      EachHandOver log logged allowed (w.deliverEvent logged event) held

theorem flush_covered {cover : Workspace → Operation → Prop} (hlog : Numbered log)
    (hcarries : Carries log held) (h : Covered cover log held w)
    (hkept : ∀ w event op, cover w op → cover (w.deliverEvent logged event) op)
    (heach : EachHandOver log logged cover w held)
    (hcalm : ¬ w.Fenced → w.bufferedEvents = []) :
    Covered cover log [] (held.foldl (Workspace.deliverEvent logged) w) ∧
      (¬ (held.foldl (Workspace.deliverEvent logged) w).Fenced →
        (held.foldl (Workspace.deliverEvent logged) w).bufferedEvents = []) := by
  induction held generalizing w with
  | nil => exact ⟨h, hcalm⟩
  | cons event held ih =>
    obtain ⟨hbehind, heach⟩ := heach
    exact ih (hcarries.mono (List.subset_cons_self ..))
      (h.deliver hlog hcarries (hkept w event) hbehind hcalm) heach (calm_deliver hcalm)

theorem Covered.hold {cover : Workspace → Operation → Prop} (h : Covered cover log [] w)
    (hsame : ∀ op, cover w op → cover { w with bufferedEvents := [] } op) :
    Covered cover log w.bufferedEvents { w with bufferedEvents := [] } := by
  intro op hop hpassed hmissing
  refine hsame op (h op hop hpassed ⟨hmissing.1, ?_⟩)
  have hnot := hmissing.2
  rwa [List.append_nil] at hnot

/-! ## An answer -/

variable {since upTo : Nat}

theorem applyAnswer_rest (w : Workspace) (operations : List Operation) :
    w.applyAnswer operations =
      { w with
        appliedOperationIds := (w.applyAnswer operations).appliedOperationIds
        lastServerSequence := (w.applyAnswer operations).lastServerSequence
        handedOver := (w.applyAnswer operations).handedOver } :=
  applyOperations_rest ..

theorem applied_of_between (hlog : Numbered log) (hop : op ∈ log) (hsince : since < op.serverSequence)
    (hupTo : op.serverSequence ≤ upTo) :
    op.operationId ∈ (w.applyAnswer (between log since upTo)).appliedOperationIds := by
  refine applied_of_mem ?_ (hlog.named op hop)
  rw [List.mem_insertionSort, mem_between]
  exact ⟨hop, hsince, hupTo⟩

theorem passed_before_answer (hlog : Numbered log) (hsince : since ≤ w.lastServerSequence)
    (hop : op ∈ log)
    (hpassed : op.serverSequence ≤ (w.applyAnswer (between log since upTo)).lastServerSequence)
    (hnew : op.operationId ∉ (w.applyAnswer (between log since upTo)).appliedOperationIds) :
    op.serverSequence ≤ w.lastServerSequence ∧ op.operationId ∉ w.appliedOperationIds ∧
      ¬ (since < op.serverSequence ∧ op.serverSequence ≤ upTo) := by
  have hnotBrought : ¬ (since < op.serverSequence ∧ op.serverSequence ≤ upTo) :=
    fun h => hnew (applied_of_between hlog hop h.1 h.2)
  refine ⟨?_, fun hid => hnew (applied_mono _ hid), hnotBrought⟩
  rcases last_cases w ((between log since upTo).insertionSort
      fun a b => a.serverSequence ≤ b.serverSequence) with hlast | ⟨later, hlater, -, hlast⟩
  · exact hlast ▸ hpassed
  · rw [List.mem_insertionSort, mem_between] at hlater
    have hle : op.serverSequence ≤ later.serverSequence := hlast ▸ hpassed
    omega

theorem Handed.answer (h : Handed log w) : Handed log (w.applyAnswer (between log since upTo)) := by
  refine h.applyOperations fun op hop => ?_
  rw [List.mem_insertionSort, mem_between] at hop
  exact hop.1

end Solweig.Studio
