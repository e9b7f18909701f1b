import Solweig.Runner.Reconcile

/-!
# The books of the reconciliation

The rows of `workspace_reconcile` as accounts: a tick of a workspace that nobody watches enters a
debt, and the settlement of an exact job enters what pays it. Over every run the row of a workspace
is what its own entries come to, and the date of a completion keeps the idle reconcile away.
-/

namespace Solweig.Runner

open Solweig.Lib Solweig.Realtime Solweig.Store Solweig.Jobs

/-! ## Entries -/

/-- What is entered for a workspace. -/
inductive BookEntry where
  | owes
  | completed (date : String)
  | discharged

/-- The date of the last completed reconcile and the debt, after one more entry. -/
def post : Option String × Bool → BookEntry → Option String × Bool
  | (date, _), .owes => (some (date.getD "1970-01-01"), true)
  | _, .completed date => (some date, false)
  | (date, _), .discharged => (date, false)

def tickNoted? (work : TickWork) : Option (String × BookEntry) :=
  match work.current with
  | some (w, .owe) => some (w, .owes)
  | _ => none

/-- The entry that a step makes. -/
def noted? (r : JobRunner) : RunnerEvent → Option (String × BookEntry)
  | .work input =>
    match r.worker with
    | .tick work => tickNoted? work
    | .settling job .completed => some (job.scenarioId, .completed input.today)
    | .settling job .discharged => some (job.scenarioId, .discharged)
    | .reconciling scan =>
      match scan.current with
      | some (w, _, .tick .owe) => some (w, .owes)
      | _ => none
    | _ => none
  | .serve i _ =>
    match r.clients i with
    | .tick _ work => tickNoted? work
    | _ => none
  | _ => none

/-- The table after the statement that makes the entry. -/
def enter (rows : List ReconcileRow) : String × BookEntry → List ReconcileRow
  | (w, .owes) => markReconcileOwed w rows
  | (w, .completed date) => markReconcileCompleted w date rows
  | (w, .discharged) => clearReconcileOwed w rows

/-- The entries of one workspace. -/
def entriesOf (w : String) (entries : List (String × BookEntry)) : List BookEntry :=
  (entries.filter fun entry => entry.1 = w).map (·.2)

/-! ## One entry and the rows -/

section Rows

variable {w v : String} {rows : List ReconcileRow}

theorem find?_of_hasRow (h : hasRow w rows = true) :
    ∃ r, rows.find? (fun r => r.workspaceId = w) = some r ∧ r.workspaceId = w := by
  obtain ⟨r, hr⟩ := Option.isSome_iff_exists.mp (List.find?_isSome.mpr (List.any_eq_true.mp h))
  exact ⟨r, hr, by simpa using List.find?_some hr⟩

theorem find?_of_not_hasRow (h : hasRow w rows = false) :
    rows.find? (fun r => r.workspaceId = w) = none := by
  simpa [hasRow] using h

theorem find?_updateWhere (p : ReconcileRow → Bool) (f : ReconcileRow → ReconcileRow)
    (hid : ∀ r, (f r).workspaceId = r.workspaceId) :
    (updateWhere p f rows).find? (fun r => r.workspaceId = w) =
      (rows.find? fun r => r.workspaceId = w).map fun r => if p r then f r else r := by
  unfold updateWhere
  rw [List.find?_map]
  congr 2
  funext r
  by_cases hp : p r <;> simp [hp, hid]

theorem reconcileState_other {p : ReconcileRow → Bool} {f : ReconcileRow → ReconcileRow}
    (hid : ∀ r, (f r).workspaceId = r.workspaceId) (hp : ∀ r, p r = true → r.workspaceId = v)
    (hw : w ≠ v) : reconcileState w (updateWhere p f rows) = reconcileState w rows := by
  unfold reconcileState
  rw [find?_updateWhere p f hid]
  cases hfind : rows.find? fun r => r.workspaceId = w with
  | none => rfl
  | some r =>
    have hr : r.workspaceId = w := by simpa using List.find?_some hfind
    have hnot : ¬ p r := fun h => hw (hr ▸ hp r h)
    simp [hnot]

theorem reconcileState_append (row : ReconcileRow) (h : hasRow row.workspaceId rows = false) :
    reconcileState w (rows ++ [row]) =
      if w = row.workspaceId then (some row.lastCompletedDate, row.owed)
      else reconcileState w rows := by
  unfold reconcileState
  rw [List.find?_append]
  by_cases hw : w = row.workspaceId
  · subst hw
    simp [find?_of_not_hasRow h]
  · have hrow : List.find? (fun r : ReconcileRow => decide (r.workspaceId = w)) [row] = none := by
      simp [Ne.symm hw]
    rw [hrow, Option.or_none, if_neg hw]

theorem enter_other {entry : BookEntry} (hw : w ≠ v) :
    reconcileState w (enter rows (v, entry)) = reconcileState w rows := by
  cases entry with
  | owes =>
    simp only [enter, markReconcileOwed]
    split
    · exact reconcileState_other (fun _ => rfl) (by simp +contextual) hw
    · rename_i hrow
      rw [Bool.not_eq_true] at hrow
      exact (reconcileState_append _ hrow).trans (if_neg hw)
  | completed date =>
    simp only [enter, markReconcileCompleted]
    split
    · exact reconcileState_other (fun _ => rfl) (by simp) hw
    · rename_i hrow
      rw [Bool.not_eq_true] at hrow
      exact (reconcileState_append _ hrow).trans (if_neg hw)
  | discharged => exact reconcileState_other (fun _ => rfl) (by simp +contextual) hw

theorem enter_self (entry : BookEntry) :
    reconcileState w (enter rows (w, entry)) = post (reconcileState w rows) entry := by
  cases entry with
  | owes =>
    simp only [enter, markReconcileOwed]
    split
    · obtain ⟨r, hfind, hr⟩ := find?_of_hasRow ‹_›
      unfold reconcileState
      rw [find?_updateWhere _ _ (by simp), hfind]
      cases howed : r.owed <;> simp [hr, howed, post]
    · rename_i hrow
      rw [Bool.not_eq_true] at hrow
      rw [reconcileState_append _ hrow, if_pos rfl]
      simp [reconcileState, find?_of_not_hasRow hrow, post]
  | completed date =>
    simp only [enter, markReconcileCompleted]
    split
    · obtain ⟨r, hfind, hr⟩ := find?_of_hasRow ‹_›
      unfold reconcileState
      rw [find?_updateWhere _ _ (by simp), hfind]
      simp [hr, post]
    · rename_i hrow
      rw [Bool.not_eq_true] at hrow
      rw [reconcileState_append _ hrow, if_pos rfl]
      simp [post]
  | discharged =>
    simp only [enter, clearReconcileOwed, reconcileState]
    rw [find?_updateWhere _ _ (by simp)]
    cases hfind : rows.find? fun r => r.workspaceId = w with
    | none => simp [post]
    | some r =>
      have hr : r.workspaceId = w := by simpa using List.find?_some hfind
      cases howed : r.owed <;> simp [hr, howed, post]

theorem enter_state (entries : List (String × BookEntry)) :
    reconcileState w (entries.foldl enter rows) =
      (entriesOf w entries).foldl post (reconcileState w rows) := by
  induction entries generalizing rows with
  | nil => rfl
  | cons entry entries ih =>
    obtain ⟨v, entry⟩ := entry
    rw [List.foldl_cons, ih]
    by_cases hw : w = v
    · subst hw
      simp [enter_self, entriesOf]
    · simp [enter_other hw, entriesOf, Ne.symm hw]

end Rows

/-! ## Steps and runs -/

section Steps

variable {r r' : JobRunner} {event : RunnerEvent}

theorem tickStep_reconcile (w : String) (reconcile : Bool) (input : TickInput) (s : RunnerState)
    (place : TickAt) : (tickStep w reconcile input s place).1.reconcile =
      match place with
      | .owe => markReconcileOwed w s.reconcile
      | _ => s.reconcile := by
  cases place with
  | records newest =>
    simp only [tickStep]
    split
    · rfl
    · split <;> rfl
  | audience records newest =>
    simp only [tickStep]
    split <;> rfl
  | mint records =>
    simp only [tickStep]
    split <;> rfl
  | _ => rfl

theorem TickWork.step_reconcile (work : TickWork) (input : TickInput) (s : RunnerState) :
    (work.step input s).1.reconcile = (tickNoted? work).toList.foldl enter s.reconcile := by
  unfold TickWork.step tickNoted?
  cases hcurrent : work.current with
  | none =>
    simp only [Option.toList_none, List.foldl_nil]
    split <;> rfl
  | some current =>
    obtain ⟨w, place⟩ := current
    simp only [tickStep_reconcile]
    cases place <;> rfl

theorem reconcileStep_reconcile (input : WorkerInput) (scan : ReconcileScan) (w : String)
    (epochs : List EpochRow) (s : RunnerState) (memory : ReconcileMemory) (place : ReconcileAt) :
    (reconcileStep input scan w epochs s memory place).1.reconcile =
      match place with
      | .tick .owe => markReconcileOwed w s.reconcile
      | _ => s.reconcile := by
  cases place with
  | audience =>
    simp only [reconcileStep]
    split
    · rfl
    · split <;> rfl
  | books =>
    simp only [reconcileStep]
    split
    · rfl
    · split <;> rfl
  | scenario =>
    simp only [reconcileStep]
    split
    · split <;> rfl
    · rfl
  | tick place =>
    simp only [reconcileStep, tickStep_reconcile]
    cases place <;> rfl

theorem scanStep_reconcile {jobId now : String} {dispatched : Option JobRow} {s s' : RunnerState}
    {place : ScanAt} {worker : WorkerAt}
    (hstep : scanStep jobId dispatched now s place = some (s', worker)) :
    s'.reconcile = s.reconcile := by
  cases place with
  | job =>
    simp only [scanStep] at hstep
    split at hstep
    · obtain ⟨rfl, -⟩ := Prod.mk.inj (Option.some.inj hstep)
      rfl
    · split at hstep
      · obtain ⟨rfl, -⟩ := Prod.mk.inj (Option.some.inj hstep)
        rfl
      · split at hstep
        all_goals
          obtain ⟨rfl, -⟩ := Prod.mk.inj (Option.some.inj hstep)
          rfl
  | current job =>
    obtain ⟨scenario, -, hstep⟩ := Option.map_eq_some_iff.mp hstep
    split at hstep
    all_goals
      obtain ⟨rfl, -⟩ := Prod.mk.inj hstep
      rfl
  | others job =>
    simp only [scanStep] at hstep
    split at hstep
    all_goals
      obtain ⟨rfl, -⟩ := Prod.mk.inj (Option.some.inj hstep)
      rfl
  | finish job =>
    obtain ⟨rfl, -⟩ := Prod.mk.inj (Option.some.inj hstep)
    rfl

theorem workerStep_reconcile {input : WorkerInput} (hstep : workerStep input r = some r') :
    r'.state.reconcile = (noted? r (.work input)).toList.foldl enter r.state.reconcile := by
  unfold workerStep at hstep
  cases hworker : r.worker with
  | tick work =>
    simp only [hworker, Option.some.injEq] at hstep
    subst hstep
    simp [noted?, hworker, JobRunner.working, TickWork.step_reconcile]
  | settling job settlement =>
    cases settlement
    all_goals
      simp only [hworker, Option.some.injEq] at hstep
      subst hstep
      simp [noted?, hworker, JobRunner.working, enter]
  | reconciling scan =>
    simp only [hworker] at hstep
    cases hcurrent : scan.current with
    | none =>
      simp only [hcurrent] at hstep
      split at hstep
      all_goals
        obtain rfl := Option.some.inj hstep
        simp [noted?, hworker, hcurrent, JobRunner.working]
    | some current =>
      obtain ⟨w, epochs, place⟩ := current
      simp only [hcurrent, Option.some.injEq] at hstep
      subst hstep
      simp only [noted?, hworker, hcurrent, JobRunner.working, reconcileStep_reconcile]
      cases place with
      | tick place => cases place <;> simp [enter]
      | _ => rfl
  | scan jobId dispatched place =>
    simp only [hworker] at hstep
    obtain ⟨⟨s', worker⟩, hscan, rfl⟩ := Option.map_eq_some_iff.mp hstep
    simpa [noted?, hworker, JobRunner.working] using scanStep_reconcile hscan
  | booting rest =>
    cases rest with
    | nil =>
      simp only [hworker, Option.some.injEq] at hstep
      subst hstep
      simp [noted?, hworker, JobRunner.working]
    | cons job rest =>
      simp only [hworker] at hstep
      split at hstep
      all_goals
        obtain rfl := Option.some.inj hstep
        simp [noted?, hworker, JobRunner.working, RunnerState.put]
  | dispatch jobId =>
    simp only [hworker] at hstep
    split at hstep
    all_goals
      obtain rfl := Option.some.inj hstep
      simp [noted?, hworker, JobRunner.working]
  | solving job =>
    simp only [hworker] at hstep
    split at hstep
    all_goals
      obtain rfl := Option.some.inj hstep
      simp [noted?, hworker, JobRunner.working]
  | finalizing call mode place =>
    simp only [hworker] at hstep
    split at hstep
    · obtain rfl := Option.some.inj hstep
      simp [noted?, hworker, JobRunner.working]
    · split at hstep
      all_goals
        obtain rfl := Option.some.inj hstep
        simp [noted?, hworker, JobRunner.working, JobRunner.drop]
  | down | idle | dead => simp [hworker] at hstep
  | _ =>
    simp only [hworker, Option.some.injEq] at hstep
    subst hstep
    simp [noted?, hworker, JobRunner.working, RunnerState.put]

theorem clientStep_reconcile {input : ClientInput} {s s' : RunnerState} {place place' : ClientAt}
    (hstep : clientStep input s place = some (s', place')) :
    s'.reconcile = (match place with
      | .tick _ work => tickNoted? work
      | _ => none).toList.foldl enter s.reconcile := by
  cases place with
  | free => cases hstep
  | tick jobId work =>
    simp only [clientStep, Option.some.injEq, Prod.mk.injEq] at hstep
    obtain ⟨rfl, -⟩ := hstep
    exact work.step_reconcile input.tick s
  | funnel jobId =>
    simp only [clientStep] at hstep
    split at hstep
    all_goals
      obtain ⟨rfl, -⟩ := Prod.mk.inj (Option.some.inj hstep)
      rfl
  | _ =>
    simp only [clientStep, Option.some.injEq, Prod.mk.injEq] at hstep
    obtain ⟨rfl, -⟩ := hstep
    rfl

theorem runnerStep_reconcile (hstep : runnerStep r event = some r') :
    r'.state.reconcile = (noted? r event).toList.foldl enter r.state.reconcile := by
  unfold runnerStep at hstep
  split at hstep
  · cases hstep
  cases event with
  | work input => exact workerStep_reconcile hstep
  | workFails => rw [workerRaise_state hstep]; rfl
  | serve i input =>
    obtain ⟨⟨s', place'⟩, hserve, rfl⟩ := Option.map_eq_some_iff.mp hstep
    exact clientStep_reconcile hserve
  | serveFails i =>
    obtain ⟨place', -, rfl⟩ := Option.map_eq_some_iff.mp hstep
    rfl
  | crash => exact Option.some.inj hstep ▸ rfl
  | start | call i call | cancel i jobId | sweep expired eventTail =>
    simp only at hstep
    split at hstep
    · exact Option.some.inj hstep ▸ rfl
    · cases hstep
  | take | poll =>
    simp only at hstep
    split at hstep
    · exact Option.some.inj hstep ▸ rfl
    · cases hstep
  | reconcile today now =>
    simp only at hstep
    split at hstep
    · split at hstep
      · exact Option.some.inj hstep ▸ rfl
      · cases hstep
    · cases hstep

/-- Over every run, crashes and restarts included, the row of a workspace is what its own entries
make of the row that it began with. -/
theorem books_post_entries {events : List RunnerEvent} {w : String}
    (hrun : run runnerStep r events = some r') :
    reconcileState w r'.state.reconcile =
      (entriesOf w (collect noted? r events)).foldl post (reconcileState w r.state.reconcile) := by
  suffices h : r'.state.reconcile = (collect noted? r events).foldl enter r.state.reconcile by
    rw [h, enter_state]
  induction events generalizing r with
  | nil =>
    obtain rfl := Option.some.inj hrun
    rfl
  | cons event events ih =>
    obtain ⟨next, hstep, hrun⟩ := run_cons hrun
    simp only [collect, hstep, List.foldl_append]
    rw [ih hrun, runnerStep_reconcile hstep]

end Steps

def fullWork : RunnerEvent :=
  .work {
    tick := { quietTick with jobId := "x2" }
    solved := some ({ status := .published, sceneVersion := 1, checksum := "c1" }, some "full")
    today := "d1"
    lastFull := none
    idleGrace := 300 }

/-- The job that the idle reconcile mints is solved, and pays the debt. -/
def idleSolved : List RunnerEvent :=
  quietStart ++ idleScans ++ .take :: List.replicate 20 fullWork

theorem books_post_entries_solved :
    ∃ r, run runnerStep (.before quietWorkspace) idleSolved = some r ∧
      reconcileState "w" r.state.reconcile =
        (entriesOf "w" (collect noted? (.before quietWorkspace) idleSolved)).foldl post
          (reconcileState "w" []) := by
  have hrun : (run runnerStep (.before quietWorkspace) idleSolved).map (fun r =>
      reconcileState "w" r.state.reconcile) = some (some "d1", false) := by decide +kernel
  obtain ⟨r, hr, -⟩ := Option.map_eq_some_iff.mp hrun
  exact ⟨r, hr, books_post_entries hr⟩

/-! ## The day of a completion -/

section Day

variable {r r' : JobRunner} {event : RunnerEvent}

/-- Past the books, the workspace has no completion on the day of the scan. -/
def DayFree (day : String) (r : JobRunner) : Prop :=
  ∀ scan w epochs place, r.worker = .reconciling scan →
    scan.current = some (w, epochs, place) → place.past = true → scan.today = day →
      (reconcileState w r.state.reconcile).1 ≠ some day

theorem post_owes_date {state : Option String × Bool} {day : String} (hday : day ≠ "1970-01-01")
    (h : state.1 ≠ some day) : (post state .owes).1 ≠ some day := by
  obtain ⟨date, owed⟩ := state
  cases date with
  | none => simpa [post] using hday.symm
  | some date => simpa [post] using h

theorem entry_of_reconciling {scan : ReconcileScan} (hworker : r.worker = .reconciling scan) :
    ∀ made ∈ noted? r event, made.2 = .owes := by
  intro made hmade
  have htick : ∀ work, ∀ made ∈ tickNoted? work, made.2 = .owes := by
    intro work made hmade
    simp only [tickNoted?] at hmade
    split at hmade
    · obtain rfl := Option.some.inj hmade
      rfl
    · cases hmade
  cases event with
  | work input =>
    simp only [noted?, hworker] at hmade
    split at hmade
    · obtain rfl := Option.some.inj hmade
      rfl
    · cases hmade
  | serve i input =>
    simp only [noted?] at hmade
    split at hmade
    · exact htick _ _ hmade
    · cases hmade
  | _ => cases hmade

theorem date_stays_free {scan : ReconcileScan} {w day : String} (hday : day ≠ "1970-01-01")
    (hworker : r.worker = .reconciling scan) (hstep : runnerStep r event = some r')
    (h : (reconcileState w r.state.reconcile).1 ≠ some day) :
    (reconcileState w r'.state.reconcile).1 ≠ some day := by
  rw [runnerStep_reconcile hstep, enter_state]
  have howes : ∀ made ∈ noted? r event, made.2 = .owes := entry_of_reconciling hworker
  cases hentry : noted? r event with
  | none => exact h
  | some made =>
    obtain ⟨v, entry⟩ := made
    obtain rfl : entry = .owes := howes _ hentry
    by_cases hv : v = w
    · simpa [entriesOf, hv] using post_owes_date hday h
    · simpa [entriesOf, hv] using h

theorem runnerStep_dayFree {day : String} (hday : day ≠ "1970-01-01") (h : DayFree day r)
    (hstep : runnerStep r event = some r') : DayFree day r' := by
  intro scan w epochs place hworker' hcurrent' hpast htoday'
  cases runnerStep_books hstep with
  | kept hmemory hworker =>
    rcases hworker with hworker | hworker
    · rw [hworker] at hworker'
      exact date_stays_free hday hworker' hstep (h scan w epochs place hworker' hcurrent' hpast htoday')
    · exact absurd hworker' (hworker scan)
  | crashed _ _ hworker => simp [hworker] at hworker'
  | begins _ _ _ hworker =>
    obtain rfl := WorkerAt.reconciling.inj (hworker.symm.trans hworker')
    simp [reconcileScan] at hcurrent'
  | next _ hworker _ hcurrent =>
    obtain rfl := WorkerAt.reconciling.inj (hworker.symm.trans hworker')
    simp [show place = .audience from hcurrent _ hcurrent', ReconcileAt.past] at hpast
  | completed _ _ hworker => exact absurd hworker' (hworker scan)
  | @inner input scan' w' epochs' place' hevent hworker hcurrent hinner =>
    have hscanned := reconcileStep_scanned input scan' w' epochs' r.state r.memory place'
    rcases hreconcile : reconcileStep input scan' w' epochs' r.state r.memory place' with
      ⟨s', memory', next⟩
    rw [hreconcile] at hscanned hinner
    simp only at hscanned
    have hsame : r'.worker = .reconciling
        { scan' with current := next.map fun place => (w', epochs', place) } := by
      rw [hinner]
      rfl
    obtain rfl := WorkerAt.reconciling.inj (hsame.symm.trans hworker')
    obtain ⟨place'', hnext, hplace⟩ := Option.map_eq_some_iff.mp hcurrent'
    obtain ⟨rfl, rfl, rfl⟩ := hplace
    refine date_stays_free hday hworker hstep ?_
    have hbefore : place'.past = true → (reconcileState w r.state.reconcile).1 ≠ some day :=
      fun hpast => h scan' w epochs _ hworker hcurrent hpast htoday'
    cases hscanned with
    | waits _ _ _ hnext' => simp [hnext' _ hnext] at hpast
    | allowed _ hbooks => exact htoday' ▸ hbooks
    | attempts | ticks => exact hbefore rfl
    | ineligible | puts => cases hnext

/-- The entry leaves the date as it is, or sets it to this day. -/
def BookEntry.keeps (day : String) : BookEntry → Bool
  | .completed date => date = day
  | .owes | .discharged => true

theorem idleMint_free {w day : String} (h : DayFree day r) (hmint : idleMint? r event = some (w, day)) :
    (reconcileState w r.state.reconcile).1 ≠ some day := by
  cases event with
  | work input =>
    simp only [idleMint?] at hmint
    split at hmint
    · rename_i scan hworker
      split at hmint
      · rename_i v epochs jobId hcurrent
        obtain ⟨rfl, rfl⟩ := Prod.mk.inj (Option.some.inj hmint)
        exact h scan v epochs _ hworker hcurrent rfl rfl
      · cases hmint
    · cases hmint
  | _ => cases hmint

/-- A completed reconcile owns its day: as long as no later one replaces its date, the idle
reconcile mints no more for the workspace on that day, whatever happens in between, a crash and a
restart included. -/
theorem completion_owns_day {db : Database} {before events : List RunnerEvent} {w day : String}
    (hrun : run runnerStep (.before db) before = some r) (hday : day ≠ "1970-01-01")
    (hdone : (reconcileState w r.state.reconcile).1 = some day)
    (hlater : EachStep runnerStep
      (fun r event => ∀ made ∈ noted? r event, made.1 = w → made.2.keeps day = true) r events) :
    (w, day) ∉ collect idleMint? r events := by
  have hfree : DayFree day r := run_invariant (C := fun _ _ => True)
    (fun _ _ _ h _ hstep => runnerStep_dayFree hday h hstep)
    (fun _ _ _ _ hworker => by simp [JobRunner.before] at hworker)
    (eachStep_of_forall (fun _ _ => trivial) _ _) hrun
  clear hrun
  induction events generalizing r with
  | nil => simp [collect]
  | cons event events ih =>
    simp only [collect]
    cases hstep : runnerStep r event with
    | none => simp
    | some r' =>
      have hmint : idleMint? r event ≠ some (w, day) := fun h => idleMint_free hfree h hdone
      have hdone' : (reconcileState w r'.state.reconcile).1 = some day := by
        rw [runnerStep_reconcile hstep, enter_state]
        cases hentry : noted? r event with
        | none => exact hdone
        | some made =>
          obtain ⟨v, entry⟩ := made
          by_cases hv : v = w
          · subst hv
            cases entry with
            | completed date =>
              have hkeeps := hlater.1 _ hentry rfl
              simp only [BookEntry.keeps, decide_eq_true_eq] at hkeeps
              simp [entriesOf, post, hkeeps]
            | owes => simp [entriesOf, post, hdone]
            | discharged => simpa [entriesOf, post] using hdone
          · simpa [entriesOf, hv] using hdone
      have hrest := ih hdone' (hlater.2 r' hstep) (runnerStep_dayFree hday hfree hstep)
      simpa [hmint] using hrest

end Day

/-- The process ends, and the next one scans again on the same day. -/
def restartAndScan : List RunnerEvent :=
  [.crash, .start, fullWork, fullWork, fullWork, .reconcile "d1" 0, fullWork, .reconcile "d1" 400]

theorem completion_owns_day_solved :
    ∃ r, run runnerStep (.before quietWorkspace) idleSolved = some r ∧
      ("w", "d1") ∉ collect idleMint? r restartAndScan := by
  have hrun : (run runnerStep (.before quietWorkspace) idleSolved).map (fun r =>
      (decide ((reconcileState "w" r.state.reconcile).1 = some "d1"),
        decide (EachStep runnerStep (fun r event => ∀ made ∈ noted? r event, made.1 = "w" →
          made.2.keeps "d1" = true) r restartAndScan))) = some (true, true) := by decide +kernel
  obtain ⟨r, hr, hpair⟩ := Option.map_eq_some_iff.mp hrun
  obtain ⟨hdone, hlater⟩ := Prod.mk.inj hpair
  exact ⟨r, hr, completion_owns_day hr (by decide) (of_decide_eq_true hdone)
    (of_decide_eq_true hlater)⟩

end Solweig.Runner
