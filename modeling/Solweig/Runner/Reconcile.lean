import Mathlib.Data.Rat.Defs
import Mathlib.Tactic.Linarith
import Solweig.Runner.Stranded

/-!
# The pace of the idle reconcile

A quiet workspace that owes a reconcile is given a full solve once a day. Failed attempts are at
least ten minutes apart and at most five on one day, and only a settled job pays the debt.
-/

namespace Solweig.Runner

open Solweig.Lib Solweig.Realtime Solweig.Store Solweig.Jobs

/-! ## The steps that count -/

/-- The workspace and the day of a job that the idle reconcile has minted and now puts. -/
def idleMint? (r : JobRunner) : RunnerEvent → Option (String × String)
  | .work _ =>
    match r.worker with
    | .reconciling scan =>
      match scan.current with
      | some (w, _, .tick (.put _)) => some (w, scan.today)
      | _ => none
    | _ => none
  | _ => none

/-- The workspace and the time of an attempt, which is noted before its tick. -/
def idleAttempt? (r : JobRunner) : RunnerEvent → Option (String × ℚ)
  | .work input =>
    match r.worker with
    | .reconciling scan =>
      match scan.current with
      | some (w, _, .scenario) =>
        match scenario? r.state.db w, r.memory.emptySince w with
        | some row, some since =>
          if eligible input.idleGrace scan.now since row.sceneVersion input.lastFull then
            some (w, scan.now)
          else none
        | _, _ => none
      | _ => none
    | _ => none
  | _ => none

/-- The workspace whose debt a step settles, and whether a full solve has settled it. -/
def settles? (r : JobRunner) : RunnerEvent → Option (String × Settlement)
  | .work _ =>
    match r.worker with
    | .settling job settlement => some (job.scenarioId, settlement)
    | _ => none
  | _ => none

/-- What the steps of a run give, in order. -/
def collect {α : Type} (f : JobRunner → RunnerEvent → Option α) :
    JobRunner → List RunnerEvent → List α
  | _, [] => []
  | r, event :: events =>
    match runnerStep r event with
    | none => []
    | some r' => (f r event).toList ++ collect f r' events

/-! ## What a step does to the books -/

/-- A step and the books of the worker. `hcurrent` are the places that a scan starts from. -/
inductive Books (r : JobRunner) (event : RunnerEvent) (r' : JobRunner) : Prop
  | kept (hmemory : r'.memory = r.memory)
      (hworker : r'.worker = r.worker ∨ ∀ scan, r'.worker ≠ .reconciling scan)
  | crashed (hevent : event = .crash) (hmemory : r'.memory = {}) (hworker : r'.worker = .down)
  | begins {today : String} {now : ℚ} (hevent : event = .reconcile today now)
      (hidle : r.worker = .idle) (hmemory : r'.memory = { r.memory with lastScan := some now })
      (hworker : r'.worker = .reconciling (reconcileScan today now r.state))
  | next {scan scan' : ReconcileScan} (hworker : r.worker = .reconciling scan)
      (hworker' : r'.worker = .reconciling scan') (htoday : scan'.today = scan.today)
      (hcurrent : ∀ current ∈ scan'.current, current.2.2 = .audience)
      (hmemory : r'.memory = r.memory)
  | inner {input : WorkerInput} {scan : ReconcileScan} {w : String} {epochs : List EpochRow}
      {place : ReconcileAt} (hevent : event = .work input) (hworker : r.worker = .reconciling scan)
      (hcurrent : scan.current = some (w, epochs, place))
      (hstep : r' = { r.working (reconcileStep input scan w epochs r.state r.memory place).1
          (.reconciling { scan with
            current := (reconcileStep input scan w epochs r.state r.memory place).2.2.map
              fun place => (w, epochs, place) }) with
        memory := (reconcileStep input scan w epochs r.state r.memory place).2.1 })
  | completed {job : JobRow} (hsettles : settles? r event = some (job.scenarioId, .completed))
      (hmemory : r'.memory = r.memory.forgive job.scenarioId)
      (hworker : ∀ scan, r'.worker ≠ .reconciling scan)

section Books

variable {r r' : JobRunner}

theorem finalizeEnd_ne_reconciling (call : FinalizeCall) (mode : Option String)
    (place : FinalizeAt) (scan : ReconcileScan) :
    finalizeEnd call mode place ≠ .reconciling scan := by
  cases place with
  | finish outcome =>
    cases hsettle : settlement? call mode outcome <;> simp [finalizeEnd, hsettle]
  | _ => simp [finalizeEnd]

theorem scanStep_ne_reconciling {jobId now : String} {dispatched : Option JobRow}
    {s s' : RunnerState} {place : ScanAt} {worker : WorkerAt}
    (hstep : scanStep jobId dispatched now s place = some (s', worker)) (scan : ReconcileScan) :
    worker ≠ .reconciling scan := by
  have haborted : scanAborted dispatched ≠ .reconciling scan := by cases dispatched <;> simp [scanAborted]
  have hpassed : scanPassed jobId dispatched ≠ .reconciling scan := by
    cases dispatched <;> simp [scanPassed]
  cases place with
  | job =>
    simp only [scanStep] at hstep
    split at hstep
    · obtain ⟨-, rfl⟩ := Prod.mk.inj (Option.some.inj hstep)
      exact haborted
    · split at hstep
      · obtain ⟨-, rfl⟩ := Prod.mk.inj (Option.some.inj hstep)
        exact haborted
      · split at hstep
        all_goals
          obtain ⟨-, rfl⟩ := Prod.mk.inj (Option.some.inj hstep)
          simp
  | current job =>
    obtain ⟨scenario, -, hstep⟩ := Option.map_eq_some_iff.mp hstep
    split at hstep
    all_goals obtain ⟨-, rfl⟩ := Prod.mk.inj hstep
    · simp
    · exact hpassed
  | others job =>
    simp only [scanStep] at hstep
    split at hstep
    all_goals obtain ⟨-, rfl⟩ := Prod.mk.inj (Option.some.inj hstep)
    · simp
    · exact hpassed
  | finish job =>
    obtain ⟨-, rfl⟩ := Prod.mk.inj (Option.some.inj hstep)
    exact haborted

theorem workerStep_books {input : WorkerInput} (hstep : workerStep input r = some r') :
    Books r (.work input) r' := by
  have hplain : ∀ s worker, (∀ scan, worker ≠ WorkerAt.reconciling scan) →
      Books r (.work input) (r.working s worker) :=
    fun s worker hworker => .kept rfl (Or.inr hworker)
  unfold workerStep at hstep
  cases hworker : r.worker with
  | settling job settlement =>
    simp only [hworker] at hstep
    cases settlement with
    | completed =>
      obtain rfl := Option.some.inj hstep
      exact .completed (by simp [settles?, hworker]) rfl (by simp [JobRunner.working])
    | discharged =>
      obtain rfl := Option.some.inj hstep
      exact hplain _ _ (by simp)
  | reconciling scan =>
    simp only [hworker] at hstep
    split at hstep
    · rename_i w epochs place hcurrent
      exact .inner rfl hworker hcurrent (Option.some.inj hstep).symm
    · split at hstep
      all_goals obtain rfl := Option.some.inj hstep
      · exact hplain _ _ (by simp)
      · exact .next hworker rfl rfl (by simp) rfl
  | finalizing call mode place =>
    simp only [hworker] at hstep
    split at hstep
    · obtain rfl := Option.some.inj hstep
      exact hplain _ _ (by simp)
    · split at hstep
      all_goals obtain rfl := Option.some.inj hstep
      · exact .kept rfl (Or.inr (by simp [JobRunner.drop]))
      · exact hplain _ _ (finalizeEnd_ne_reconciling call mode place)
  | down | idle | dead => simp [hworker] at hstep
  | booting rest =>
    cases rest with
    | nil =>
      simp only [hworker, Option.some.injEq] at hstep
      exact hstep ▸ hplain _ _ (by simp)
    | cons job rest =>
      simp only [hworker] at hstep
      split at hstep
      all_goals exact Option.some.inj hstep ▸ hplain _ _ (by simp)
  | tick work =>
    simp only [hworker, Option.some.injEq] at hstep
    refine hstep ▸ hplain _ _ fun scan => ?_
    cases (work.step input.tick r.state).2 <;> simp
  | scan jobId dispatched place =>
    simp only [hworker] at hstep
    obtain ⟨⟨s', worker'⟩, hscan, rfl⟩ := Option.map_eq_some_iff.mp hstep
    exact hplain _ _ (scanStep_ne_reconciling hscan)
  | dispatch jobId =>
    simp only [hworker] at hstep
    split at hstep
    all_goals refine Option.some.inj hstep ▸ hplain _ _ fun scan => ?_
    · simp
    · split <;> simp
  | scenario job =>
    simp only [hworker, Option.some.injEq] at hstep
    refine hstep ▸ hplain _ _ fun scan => ?_
    split <;> simp
  | solving job =>
    simp only [hworker] at hstep
    split at hstep
    all_goals exact Option.some.inj hstep ▸ hplain _ _ (by simp)
  | _ =>
    simp only [hworker, Option.some.injEq] at hstep
    exact hstep ▸ hplain _ _ (by simp)

theorem workerRaise_state (hraise : workerRaise r = some r') : r'.state = r.state := by
  unfold workerRaise at hraise
  split at hraise
  · obtain ⟨work, -, rfl⟩ := Option.map_eq_some_iff.mp hraise
    rfl
  · split at hraise
    · cases hraise
    · exact Option.some.inj hraise ▸ rfl
    · cases hraise
  · cases hraise
  · exact Option.some.inj hraise ▸ rfl
  · exact Option.some.inj hraise ▸ rfl
  · obtain ⟨jobId, -, rfl⟩ := Option.map_eq_some_iff.mp hraise
    rfl

theorem workerRaise_books (hraise : workerRaise r = some r') : Books r .workFails r' := by
  have hplain : ∀ worker, (∀ scan, worker ≠ WorkerAt.reconciling scan) →
      Books r .workFails { r with worker := worker } :=
    fun worker hworker => .kept rfl (Or.inr hworker)
  unfold workerRaise at hraise
  cases hworker : r.worker with
  | reconciling scan =>
    simp only [hworker] at hraise
    split at hraise
    · cases hraise
    · obtain rfl := Option.some.inj hraise
      exact .next hworker rfl rfl (by simp) rfl
    · cases hraise
  | tick work =>
    simp only [hworker] at hraise
    obtain ⟨work', -, rfl⟩ := Option.map_eq_some_iff.mp hraise
    exact hplain _ (by simp)
  | scanEpochs cadence =>
    cases cadence with
    | boot => simp [hworker] at hraise
    | poll | served =>
      simp only [hworker, Option.some.injEq] at hraise
      exact hraise ▸ hplain _ (by simp)
  | _ =>
    simp only [hworker, WorkerAt.job?, Option.map_none, Option.map_some, Option.some.injEq,
      reduceCtorEq] at hraise
    try exact hraise ▸ .kept rfl (Or.inr (by simp [JobRunner.drop]))

theorem runnerStep_books {event : RunnerEvent} (hstep : runnerStep r event = some r') :
    Books r event r' := by
  unfold runnerStep at hstep
  split at hstep
  · cases hstep
  cases event with
  | work input => exact workerStep_books hstep
  | workFails => exact workerRaise_books hstep
  | crash =>
    obtain rfl := Option.some.inj hstep
    exact .crashed rfl rfl rfl
  | serve i input =>
    obtain ⟨place', -, rfl⟩ := Option.map_eq_some_iff.mp hstep
    exact .kept rfl (Or.inl rfl)
  | serveFails i =>
    obtain ⟨place', -, rfl⟩ := Option.map_eq_some_iff.mp hstep
    exact .kept rfl (Or.inl rfl)
  | reconcile today now =>
    simp only at hstep
    split at hstep
    · rename_i hidle _
      split at hstep
      · obtain rfl := Option.some.inj hstep
        exact .begins rfl hidle rfl rfl
      · cases hstep
    · cases hstep
  | start | take | poll | sweep expired eventTail | call i call | cancel i jobId =>
    simp only at hstep
    split at hstep
    · obtain rfl := Option.some.inj hstep
      first
        | exact .kept rfl (Or.inl rfl)
        | exact .kept rfl (Or.inr (by simp [JobRunner.working]))
    · cases hstep

end Books

/-! ## What the worker keeps to -/

/-- The idle reconcile has found the workspace free of a completed reconcile today, and its
attempts below the ceiling. -/
def ReconcileAt.past : ReconcileAt → Bool
  | .audience | .books => false
  | .scenario | .tick _ => true

def underCeiling (memory : ReconcileMemory) (w today : String) : Prop :=
  (memory.failures w).1 = today → (memory.failures w).2 < reconcileAttemptsPerDay

structure Paced (r : JobRunner) : Prop where
  ceiling : ∀ w, (r.memory.failures w).2 ≤ reconcileAttemptsPerDay
  under : ∀ scan w epochs place, r.worker = .reconciling scan →
    scan.current = some (w, epochs, place) → place.past = true →
      underCeiling r.memory w scan.today
  spaced : ∀ scan w epochs, r.worker = .reconciling scan →
    scan.current = some (w, epochs, .scenario) →
      ∀ last ∈ r.memory.attemptedAt w, last + attemptBackoff ≤ scan.now

theorem allows_iff {memory : ReconcileMemory} {w today : String} {now : ℚ} :
    memory.allows w today now = true ↔ underCeiling memory w today ∧
      ∀ last ∈ memory.attemptedAt w, last + attemptBackoff ≤ now := by
  unfold ReconcileMemory.allows underCeiling
  simp only [decide_eq_true_eq, not_and, Nat.not_le]
  refine and_congr_right fun _ => forall_congr' fun last => imp_congr_right fun _ => ?_
  rw [not_lt, le_sub_iff_add_le, add_comm]

section Memory

variable {memory : ReconcileMemory} {w v today : String} {now : ℚ}

theorem spend_failures (h : underCeiling memory w today) :
    ((memory.spend w today).failures w).1 = today ∧
      ((memory.spend w today).failures w).2 =
        (if (memory.failures w).1 = today then (memory.failures w).2 else 0) + 1 ∧
      ((memory.spend w today).failures w).2 ≤ reconcileAttemptsPerDay := by
  have hself : (memory.spend w today).failures w =
      (today, if (memory.failures w).1 = today then (memory.failures w).2 + 1 else 1) := by
    simp [ReconcileMemory.spend]
  rw [hself]
  unfold underCeiling at h
  refine ⟨rfl, ?_, ?_⟩
  · split <;> simp
  · split
    · exact h ‹_›
    · exact Nat.succ_le_of_lt (by decide)

theorem spend_other (hv : v ≠ w) : (memory.spend w today).failures v = memory.failures v := by
  simp [ReconcileMemory.spend, hv]

theorem forgive_other (hv : v ≠ w) : (memory.forgive w).failures v = memory.failures v := by
  simp [ReconcileMemory.forgive, hv]

end Memory

/-- The attempt at a workspace goes ahead. -/
def Goes (input : WorkerInput) (scan : ReconcileScan) (w : String) (db : Database)
    (memory : ReconcileMemory) : Prop :=
  ∃ row since, scenario? db w = some row ∧ memory.emptySince w = some since ∧
    eligible input.idleGrace scan.now since row.sceneVersion input.lastFull = true

/-- One step of the scan within a workspace: what it leaves in the books, and where it stands. -/
inductive Scanned (input : WorkerInput) (scan : ReconcileScan) (w : String) (s : RunnerState)
    (memory : ReconcileMemory) : ReconcileAt → ReconcileMemory → Option ReconcileAt → Prop
  | waits {place : ReconcileAt} {memory' : ReconcileMemory} {next : Option ReconcileAt}
      (hfailures : memory'.failures = memory.failures)
      (hattempted : memory'.attemptedAt = memory.attemptedAt)
      (hplace : place.past = false) (hnext : ∀ place' ∈ next, place'.past = false) :
      Scanned input scan w s memory place memory' next
  | allowed (hallows : memory.allows w scan.today scan.now = true)
      (hbooks : (reconcileState w s.reconcile).1 ≠ some scan.today) :
      Scanned input scan w s memory .books memory (some .scenario)
  | ineligible (hstays : ¬ Goes input scan w s.db memory) :
      Scanned input scan w s memory .scenario memory none
  | attempts {next : Option ReconcileAt} (hgoes : Goes input scan w s.db memory)
      (hnext : ∀ place' ∈ next, ∃ at_, place' = .tick at_) :
      Scanned input scan w s memory .scenario (memory.attempt w scan.now) next
  | puts (jobId : String) :
      Scanned input scan w s memory (.tick (.put jobId)) (memory.spend w scan.today) none
  | ticks {at_ : TickAt} {next : Option ReconcileAt} (hat : ∀ jobId, at_ ≠ .put jobId)
      (hnext : ∀ place' ∈ next, ∃ at_, place' = .tick at_) :
      Scanned input scan w s memory (.tick at_) memory next

theorem reconcileStep_scanned (input : WorkerInput) (scan : ReconcileScan) (w : String)
    (epochs : List EpochRow) (s : RunnerState) (memory : ReconcileMemory) (place : ReconcileAt) :
    Scanned input scan w s memory place (reconcileStep input scan w epochs s memory place).2.1
      (reconcileStep input scan w epochs s memory place).2.2 := by
  cases place with
  | audience =>
    simp only [reconcileStep]
    split
    · exact .waits rfl rfl rfl (by simp)
    · split
      · exact .waits rfl rfl rfl (by simp)
      · exact .waits rfl rfl rfl (by simp [ReconcileAt.past])
  | books =>
    simp only [reconcileStep]
    split
    · exact .waits rfl rfl rfl (by simp)
    · split
      · exact .allowed ‹_› ‹_›
      · exact .waits rfl rfl rfl (by simp)
  | scenario =>
    simp only [reconcileStep]
    split
    · rename_i row since hrow hsince
      split
      · exact .attempts ⟨row, since, hrow, hsince, ‹_›⟩ (by simp +contextual)
      · rename_i hnot
        refine .ineligible ?_
        rintro ⟨row', since', hrow', hsince', heligible⟩
        obtain rfl := Option.some.inj (hrow.symm.trans hrow')
        obtain rfl := Option.some.inj (hsince.symm.trans hsince')
        exact hnot heligible
    · rename_i hnone
      refine .ineligible ?_
      rintro ⟨row, since, hrow, hsince, -⟩
      exact hnone row since hrow hsince
  | tick at_ =>
    cases at_ with
    | put jobId => exact .puts jobId
    | _ => exact .ticks (by simp) (by simp +contextual [reconcileStep])

section Runs

variable {r r' : JobRunner} {event : RunnerEvent}

theorem Books.paced (hbooks : Books r event r') (h : Paced r) : Paced r' := by
  have hvacuous : (∀ scan, r'.worker ≠ .reconciling scan) →
      (∀ w, (r'.memory.failures w).2 ≤ reconcileAttemptsPerDay) → Paced r' :=
    fun hworker hceiling => ⟨hceiling, fun scan _ _ _ hw => absurd hw (hworker scan),
      fun scan _ _ hw => absurd hw (hworker scan)⟩
  cases hbooks with
  | kept hmemory hworker =>
    rcases hworker with hworker | hworker
    · exact ⟨hmemory ▸ h.ceiling, by rw [hmemory, hworker]; exact h.under,
        by rw [hmemory, hworker]; exact h.spaced⟩
    · exact hvacuous hworker (hmemory ▸ h.ceiling)
  | crashed hevent hmemory hworker =>
    refine hvacuous (by simp [hworker]) fun w => ?_
    simp [hmemory]
  | begins hevent hidle hmemory hworker =>
    refine ⟨fun w => by simpa [hmemory] using h.ceiling w, ?_, ?_⟩
    · intro scan w epochs place hw hcurrent
      obtain rfl := WorkerAt.reconciling.inj (hworker.symm.trans hw)
      simp [reconcileScan] at hcurrent
    · intro scan w epochs hw hcurrent
      obtain rfl := WorkerAt.reconciling.inj (hworker.symm.trans hw)
      simp [reconcileScan] at hcurrent
  | next hworker hworker' htoday hcurrent hmemory =>
    refine ⟨hmemory ▸ h.ceiling, ?_, ?_⟩
    · intro scan w epochs place hw hplace hpast
      obtain rfl := WorkerAt.reconciling.inj (hworker'.symm.trans hw)
      simp [show place = .audience from hcurrent _ hplace, ReconcileAt.past] at hpast
    · intro scan w epochs hw hplace
      obtain rfl := WorkerAt.reconciling.inj (hworker'.symm.trans hw)
      exact absurd (hcurrent _ hplace) (by simp)
  | @completed job hsettles hmemory hworker =>
    refine hvacuous hworker fun w => ?_
    rw [hmemory]
    by_cases hw : w = job.scenarioId
    · subst hw
      simp [ReconcileMemory.forgive]
    · rw [forgive_other hw]
      exact h.ceiling w
  | @inner input scan w epochs place hevent hworker hcurrent hstep =>
    have hscanned := reconcileStep_scanned input scan w epochs r.state r.memory place
    rcases hreconcile : reconcileStep input scan w epochs r.state r.memory place with
      ⟨s', memory', next⟩
    rw [hreconcile] at hscanned hstep
    subst hstep
    simp only at hscanned
    have hinner : (∀ v, (memory'.failures v).2 ≤ reconcileAttemptsPerDay) →
        (∀ place' ∈ next, place'.past = true → underCeiling memory' w scan.today) →
        (.scenario ∈ next → ∀ last ∈ memory'.attemptedAt w, last + attemptBackoff ≤ scan.now) →
        Paced { r.working s' (.reconciling
          { scan with current := next.map fun place => (w, epochs, place) }) with
          memory := memory' } := by
      intro hceiling hunder hspaced
      refine ⟨hceiling, fun scan' v epochs' place' hscan' hcurrent' hpast => ?_,
        fun scan' v epochs' hscan' hcurrent' => ?_⟩
      all_goals
        obtain rfl := WorkerAt.reconciling.inj hscan'
        obtain ⟨place', hnext, hplace⟩ := Option.map_eq_some_iff.mp hcurrent'
        obtain ⟨rfl, rfl, rfl⟩ := hplace
      · exact hunder _ hnext hpast
      · exact hspaced hnext
    have hunder : place.past = true → underCeiling r.memory w scan.today :=
      h.under scan w epochs place hworker hcurrent
    cases hscanned with
    | waits hfailures hattempted hplace hnext =>
      apply hinner
      · rw [hfailures]
        exact h.ceiling
      · intro place' hmem hpast
        simp [hnext place' hmem] at hpast
      · intro hmem
        exact absurd (hnext _ hmem) (by simp [ReconcileAt.past])
    | allowed hallows hfree =>
      obtain ⟨hunder, hspaced⟩ := allows_iff.mp hallows
      exact hinner h.ceiling (fun _ _ _ => hunder) fun _ => hspaced
    | ineligible => exact hinner h.ceiling (by simp) (by simp)
    | attempts hgoes hnext =>
      refine hinner h.ceiling (fun _ _ _ => hunder rfl) fun hmem => ?_
      obtain ⟨at_, hat⟩ := hnext _ hmem
      cases hat
    | puts jobId =>
      refine hinner (fun v => ?_) (by simp) (by simp)
      by_cases hv : v = w
      · subst hv
        exact (spend_failures (hunder rfl)).2.2
      · rw [spend_other hv]
        exact h.ceiling v
    | ticks hat hnext =>
      refine hinner h.ceiling (fun _ _ _ => hunder rfl) fun hmem => ?_
      obtain ⟨at_, hat⟩ := hnext _ hmem
      cases hat

theorem before_paced (db : Database) : Paced (JobRunner.before db) :=
  ⟨fun _ => Nat.zero_le _, by simp [JobRunner.before], by simp [JobRunner.before]⟩

theorem run_paced {db : Database} {events : List RunnerEvent}
    (hrun : run runnerStep (.before db) events = some r) : Paced r :=
  run_invariant (C := fun _ _ => True) (fun _ _ _ h _ hstep => (runnerStep_books hstep).paced h)
    (before_paced db) (eachStep_of_forall (fun _ _ => trivial) _ _) hrun

/-! ## At most five a day -/

/-- The process stays up, its scans see the day, and no full solve of the workspace completes. -/
def WithinDay (w day : String) (r : JobRunner) : RunnerEvent → Prop
  | .crash => False
  | .reconcile today _ => today = day
  | event => settles? r event ≠ some (w, .completed)

instance (w day : String) (r : JobRunner) (event : RunnerEvent) :
    Decidable (WithinDay w day r event) := by
  cases event <;> unfold WithinDay <;> infer_instance

/-- What the books charge the day with. -/
def charged (w day : String) (memory : ReconcileMemory) : Nat :=
  if (memory.failures w).1 = day then (memory.failures w).2 else 0

/-- The same, but nothing while a scan of another day goes on. -/
def spent (w day : String) (r : JobRunner) : Nat :=
  match r.worker with
  | .reconciling scan => if scan.today = day then charged w day r.memory else 0
  | _ => charged w day r.memory

theorem spent_le_charged (w day : String) (r : JobRunner) :
    spent w day r ≤ charged w day r.memory := by
  unfold spent
  split
  · split <;> simp
  · exact le_refl _

theorem charged_le (h : Paced r) (w day : String) :
    charged w day r.memory ≤ reconcileAttemptsPerDay := by
  have := h.ceiling w
  unfold charged
  split <;> omega

theorem spent_of_not_reconciling {w day : String} (h : ∀ scan, r.worker ≠ .reconciling scan) :
    spent w day r = charged w day r.memory := by
  unfold spent
  split
  · exact absurd ‹_› (h _)
  · rfl

theorem charged_congr {memory memory' : ReconcileMemory} {w : String} (day : String)
    (h : memory'.failures w = memory.failures w) :
    charged w day memory' = charged w day memory := by
  simp [charged, h]

theorem charged_spend {memory : ReconcileMemory} {w day : String}
    (h : underCeiling memory w day) :
    charged w day (memory.spend w day) = charged w day memory + 1 := by
  obtain ⟨hday, hcount, -⟩ := spend_failures h
  rw [charged, if_pos hday, hcount, charged]

theorem mint_spends {w day : String} (h : Paced r) (hmint : idleMint? r event = some (w, day))
    (hstep : runnerStep r event = some r') : spent w day r' = spent w day r + 1 := by
  cases event with
  | work input =>
    simp only [idleMint?] at hmint
    split at hmint
    · rename_i scan hworker
      split at hmint
      · rename_i v epochs jobId hcurrent
        obtain ⟨rfl, rfl⟩ := Prod.mk.inj (Option.some.inj hmint)
        have hunder := h.under scan v epochs _ hworker hcurrent rfl
        unfold runnerStep at hstep
        split at hstep
        · cases hstep
        · simp only [workerStep, hworker, hcurrent, Option.some.injEq] at hstep
          subst hstep
          simpa [spent, hworker, reconcileStep, JobRunner.working] using charged_spend hunder
      · cases hmint
    · cases hmint
  | _ => cases hmint

theorem spent_mono {w day : String} (h : Paced r) (hwithin : WithinDay w day r event)
    (hbooks : Books r event r') : spent w day r ≤ spent w day r' := by
  cases hbooks with
  | kept hmemory hworker =>
    rcases hworker with hworker | hworker
    · simp [spent, hworker, hmemory]
    · rw [spent_of_not_reconciling hworker, hmemory]
      exact spent_le_charged w day r
  | crashed hevent =>
    subst hevent
    exact hwithin.elim
  | begins hevent hidle hmemory hworker =>
    subst hevent
    obtain rfl : _ = day := hwithin
    simp [spent, hidle, hworker, hmemory, reconcileScan, charged]
  | next hworker hworker' htoday hcurrent hmemory =>
    simp [spent, hworker, hworker', htoday, hmemory]
  | @completed job hsettles hmemory hworker =>
    have hw : w ≠ job.scenarioId := by
      rintro rfl
      cases event with
      | work input => exact hwithin hsettles
      | _ => cases hsettles
    rw [spent_of_not_reconciling hworker, hmemory, charged_congr day (forgive_other hw)]
    exact spent_le_charged w day r
  | @inner input scan v epochs place hevent hworker hcurrent hstep =>
    have hscanned := reconcileStep_scanned input scan v epochs r.state r.memory place
    have hunder := h.under scan v epochs place hworker hcurrent
    rcases hreconcile : reconcileStep input scan v epochs r.state r.memory place with
      ⟨s', memory', next⟩
    rw [hreconcile] at hscanned hstep
    subst hstep
    simp only at hscanned
    simp only [spent, hworker, JobRunner.working]
    split
    · rename_i htoday
      cases hscanned with
      | waits hfailures => rw [charged_congr day (congrFun hfailures w)]
      | allowed | ineligible | ticks => exact le_refl _
      | attempts => exact le_of_eq (charged_congr day rfl).symm
      | puts jobId =>
        by_cases hv : w = v
        · subst hv
          rw [← htoday, charged_spend (hunder rfl)]
          exact Nat.le_succ _
        · rw [charged_congr day (spend_other hv)]
    · exact Nat.zero_le _

/-- Whatever state a process has reached, from there on one day sees at most five idle mints of a
workspace, as long as none of them completes. -/
theorem idle_mints_bounded {db : Database} {before events : List RunnerEvent} {w day : String}
    (hrun : run runnerStep (.before db) before = some r)
    (hwithin : EachStep runnerStep (WithinDay w day) r events) :
    ((collect idleMint? r events).filter fun mint => mint = (w, day)).length ≤ 5 := by
  have hcount : ∀ (events : List RunnerEvent) (r : JobRunner), Paced r →
      EachStep runnerStep (WithinDay w day) r events →
      ((collect idleMint? r events).filter fun mint => mint = (w, day)).length + spent w day r ≤
        reconcileAttemptsPerDay := by
    intro events
    induction events with
    | nil =>
      intro r h _
      have := spent_le_charged w day r
      have := charged_le h w day
      simp only [collect, List.filter_nil, List.length_nil]
      omega
    | cons event events ih =>
      rintro r h ⟨hhere, hrest⟩
      simp only [collect]
      cases hstep : runnerStep r event with
      | none =>
        have := spent_le_charged w day r
        have := charged_le h w day
        simp only [List.filter_nil, List.length_nil]
        omega
      | some r' =>
        have hbooks := runnerStep_books hstep
        have hnext := ih r' (hbooks.paced h) (hrest r' hstep)
        simp only [List.filter_append, List.length_append]
        by_cases hmint : idleMint? r event = some (w, day)
        · have hspends := mint_spends h hmint hstep
          simp only [hmint, Option.toList_some, List.filter_cons, decide_true, if_true,
            List.filter_nil, List.length_singleton]
          omega
        · have hmono := spent_mono h hhere hbooks
          have hnone : ((idleMint? r event).toList.filter fun mint => mint = (w, day)) = [] := by
            refine List.filter_eq_nil_iff.mpr fun mint hmem => ?_
            rw [Option.mem_toList] at hmem
            simp only [decide_eq_true_eq]
            rintro rfl
            exact hmint hmem
          rw [hnone, List.length_nil]
          omega
  have := hcount events r (run_paced hrun) hwithin
  have hfive : reconcileAttemptsPerDay = 5 := rfl
  omega

end Runs

/-- A workspace with one committed epoch that no exact job has settled. -/
def quietWorkspace : Database where
  scenarios := [{ scenarioId := "w", sceneVersion := 1, updatedAt := "t0" }]
  epochs := [
    { workspaceId := "w", epochId := 1, status := .fastPlanned, firstSequence := some 1,
      lastSequence := some 1, workspaceRevision := some 1, openedAt := "t0" }]

/-- The id of the job that the idle reconcile mints is taken from then on. -/
def laterWork : RunnerEvent :=
  .work {
    tick := { quietTick with jobId := "x2" }
    solved := none
    today := "d1"
    lastFull := none
    idleGrace := 300 }

/-- One scan starts the clock of the empty workspace, and the one after the grace mints. -/
def idleScans : List RunnerEvent :=
  .reconcile "d1" 0 :: List.replicate 3 quietWork ++ .reconcile "d1" 400 ::
    List.replicate 7 quietWork ++ List.replicate 2 laterWork

/-- The process starts, and its first tick notes the debt of the workspace. -/
def quietStart : List RunnerEvent := .start :: List.replicate 7 quietWork

theorem idle_mints_bounded_quiet :
    ∃ r, run runnerStep (.before quietWorkspace) quietStart = some r ∧
      ((collect idleMint? r idleScans).filter fun mint => mint = ("w", "d1")).length ≤ 5 := by
  have hrun : (run runnerStep (.before quietWorkspace) quietStart).map (fun r =>
      (decide (EachStep runnerStep (WithinDay "w" "d1") r idleScans),
        collect idleMint? r idleScans)) = some (true, [("w", "d1")]) := by decide +kernel
  obtain ⟨r, hr, hwithin⟩ := Option.map_eq_some_iff.mp hrun
  exact ⟨r, hr, idle_mints_bounded hr (of_decide_eq_true (Prod.mk.inj hwithin).1)⟩

/-! ## Ten minutes apart -/

instance (event : RunnerEvent) : Decidable (event ≠ .crash) :=
  match event with
  | .crash => isFalse (by simp)
  | .start | .take | .poll | .reconcile .. | .work .. | .workFails | .sweep .. | .call ..
  | .cancel .. | .serve .. | .serveFails .. => isTrue (by simp)

section Attempts

variable {r r' : JobRunner} {event : RunnerEvent}

theorem attempt_noted {w : String} {now : ℚ} (h : Paced r)
    (hattempt : idleAttempt? r event = some (w, now)) (hstep : runnerStep r event = some r') :
    r'.memory.attemptedAt w = some now ∧
      ∀ last ∈ r.memory.attemptedAt w, last + attemptBackoff ≤ now := by
  cases event with
  | work input =>
    simp only [idleAttempt?] at hattempt
    split at hattempt
    · rename_i scan hworker
      split at hattempt
      · rename_i v epochs hcurrent
        split at hattempt
        · rename_i row since hrow hsince
          split at hattempt
          · obtain ⟨rfl, rfl⟩ := Prod.mk.inj (Option.some.inj hattempt)
            refine ⟨?_, h.spaced scan v epochs hworker hcurrent⟩
            rename_i heligible
            unfold runnerStep at hstep
            split at hstep
            · cases hstep
            · simp only [workerStep, hworker, hcurrent, Option.some.injEq] at hstep
              subst hstep
              simp [reconcileStep, hrow, hsince, heligible, ReconcileMemory.attempt]
          · cases hattempt
        · cases hattempt
      · cases hattempt
    · cases hattempt
  | _ => cases hattempt

theorem attempt_kept {w : String} (hup : event ≠ .crash)
    (hnone : ∀ now, idleAttempt? r event ≠ some (w, now)) (hbooks : Books r event r') :
    r'.memory.attemptedAt w = r.memory.attemptedAt w := by
  cases hbooks with
  | kept hmemory | next _ _ _ _ hmemory => rw [hmemory]
  | crashed hevent => exact absurd hevent hup
  | begins _ _ hmemory => rw [hmemory]
  | completed _ hmemory => rw [hmemory, ReconcileMemory.forgive]
  | @inner input scan v epochs place hevent hworker hcurrent hstep =>
    have hscanned := reconcileStep_scanned input scan v epochs r.state r.memory place
    rcases hreconcile : reconcileStep input scan v epochs r.state r.memory place with
      ⟨s', memory', next⟩
    rw [hreconcile] at hscanned hstep
    subst hstep
    simp only at hscanned
    cases hscanned with
    | waits _ hattempted => rw [hattempted]
    | allowed | ineligible | ticks => rfl
    | puts => simp [ReconcileMemory.spend]
    | attempts hgoes =>
      obtain ⟨row, since, hrow, hsince, heligible⟩ := hgoes
      have hw : w ≠ v := by
        rintro rfl
        exact hnone scan.now (by simp [hevent, idleAttempt?, hworker, hcurrent, hrow, hsince,
          heligible])
      simp [ReconcileMemory.attempt, hw]

/-- In one process, from whatever state it has reached, two attempts at a workspace are at least
ten minutes of its clock apart, whatever becomes of the jobs they mint. -/
theorem idle_attempts_spaced {db : Database} {before events : List RunnerEvent} {w : String}
    (hrun : run runnerStep (.before db) before = some r)
    (hup : EachStep runnerStep (fun _ event => event ≠ .crash) r events) :
    ((collect idleAttempt? r events).filter fun attempt => attempt.1 = w).Pairwise
      fun one other => one.2 + 600 ≤ other.2 := by
  have hspaced : ∀ (events : List RunnerEvent) (r : JobRunner), Paced r →
      EachStep runnerStep (fun _ event => event ≠ .crash) r events →
      (∀ last ∈ r.memory.attemptedAt w, ∀ attempt ∈ (collect idleAttempt? r events).filter
        fun attempt => attempt.1 = w, last + 600 ≤ attempt.2) ∧
      ((collect idleAttempt? r events).filter fun attempt => attempt.1 = w).Pairwise
        fun one other => one.2 + 600 ≤ other.2 := by
    intro events
    induction events with
    | nil => exact fun r _ _ => ⟨by simp [collect], by simp [collect]⟩
    | cons event events ih =>
      rintro r h ⟨hhere, hrest⟩
      simp only [collect]
      cases hstep : runnerStep r event with
      | none => simp
      | some r' =>
        have hbooks := runnerStep_books hstep
        obtain ⟨hlater, hpairs⟩ := ih r' (hbooks.paced h) (hrest r' hstep)
        simp only [List.filter_append]
        by_cases hattempt : ∃ now, idleAttempt? r event = some (w, now)
        · obtain ⟨now, hattempt⟩ := hattempt
          obtain ⟨hnoted, hlast⟩ := attempt_noted h hattempt hstep
          have hfrom := hlater now hnoted
          simp only [hattempt, Option.toList_some, List.filter_cons, decide_true, if_true,
            List.filter_nil, List.singleton_append, List.pairwise_cons]
          refine ⟨fun last hmem attempt hattempt => ?_, hfrom, hpairs⟩
          have hgap := hlast last hmem
          simp only [attemptBackoff] at hgap
          rcases List.mem_cons.mp hattempt with rfl | hattempt
          · exact hgap
          · have := hfrom attempt hattempt
            linarith
        · have hnone : (idleAttempt? r event).toList.filter (fun attempt => attempt.1 = w) = [] := by
            refine List.filter_eq_nil_iff.mpr fun attempt hmem => ?_
            rw [Option.mem_toList] at hmem
            simp only [decide_eq_true_eq]
            rintro rfl
            exact hattempt ⟨attempt.2, hmem⟩
          rw [hnone, List.nil_append,
            ← attempt_kept hhere (fun now h => hattempt ⟨now, h⟩) hbooks]
          exact ⟨hlater, hpairs⟩
  exact (hspaced events r (run_paced hrun) hup).2

end Attempts

theorem idle_attempts_spaced_quiet :
    ∃ r, run runnerStep (.before quietWorkspace) quietStart = some r ∧
      ((collect idleAttempt? r idleScans).filter fun attempt => attempt.1 = "w").Pairwise
        fun one other => one.2 + 600 ≤ other.2 := by
  have hrun : (run runnerStep (.before quietWorkspace) quietStart).map (fun r =>
      (decide (EachStep runnerStep (fun _ event => event ≠ .crash) r idleScans),
        collect idleAttempt? r idleScans)) = some (true, [("w", 400)]) := by decide +kernel
  obtain ⟨r, hr, hup⟩ := Option.map_eq_some_iff.mp hrun
  exact ⟨r, hr, idle_attempts_spaced hr (of_decide_eq_true (Prod.mk.inj hup).1)⟩

end Solweig.Runner
