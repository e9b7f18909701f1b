import Solweig.Runner.Change

/-!
# No job is left behind

A queued job is in the queue, in the hands of a thread that will put it there, or with the worker;
a running job is with the worker. A crash loses the queue and the threads, but not the rows that
the next start reads. Only the job of a pass that raised waits for that start with nobody at it.
-/

namespace Solweig.Runner

open Solweig.Lib Solweig.Realtime Solweig.Store Solweig.Jobs

/-! ## Who has a job -/

def TickAt.held : TickAt → List String
  | .put jobId => [jobId]
  | _ => []

def TickWork.held (work : TickWork) : List String :=
  (work.current.map fun current => current.2.held).getD []

def ReconcileAt.held : ReconcileAt → List String
  | .tick place => place.held
  | _ => []

def ReconcileScan.held (scan : ReconcileScan) : List String :=
  (scan.current.map fun current => current.2.2.held).getD []

/-- The jobs that a request thread will still put. -/
def ClientAt.held : ClientAt → List String
  | .funnel jobId | .scan jobId | .put jobId => [jobId]
  | .tick jobId work => jobId :: work.held
  | .free | .cancelling _ _ => []

/-- The queued jobs that the worker is at, or will still put. -/
def WorkerAt.held : WorkerAt → List String
  | .booting rest => rest.map (·.jobId)
  | .requeued jobId rest => jobId :: rest.map (·.jobId)
  | .tick work => work.held
  | .scan jobId _ _ | .waiting jobId | .dispatch jobId => [jobId]
  | .scenario job | .missing job | .execute job => [job.jobId]
  | .reconciling candidates => candidates.held
  | _ => []

/-- The running jobs that the worker is at, or will still requeue. -/
def WorkerAt.runs : WorkerAt → List String
  | .booting rest | .requeued _ rest => (rest.filter (·.status = .running)).map (·.jobId)
  | .solving job | .unsolved job => [job.jobId]
  | .finalizing call _ _ => [call.job.jobId]
  | _ => []

/-- Between two processes the next start has every job. -/
def Held (r : JobRunner) (jobId : String) : Prop :=
  r.worker = .down ∨ jobId ∈ r.dropped ∨ jobId ∈ r.state.queue ∨ jobId ∈ r.worker.held ∨
    ∃ i, jobId ∈ (r.clients i).held

def Runs (r : JobRunner) (jobId : String) : Prop :=
  r.worker = .down ∨ jobId ∈ r.dropped ∨ jobId ∈ r.worker.runs

/-! ## What the worker has read -/

def ScanAt.Sound (jobId : String) : ScanAt → Prop
  | .job => True
  | .current row | .others row | .finish row => row.jobId = jobId

def WorkerAt.Sound (db : Database) : WorkerAt → Prop
  | .scan jobId dispatched place =>
    (∀ job ∈ dispatched, job.jobId = jobId ∧ Snapshot db job) ∧ place.Sound jobId
  | .scenario job | .missing job | .execute job | .solving job | .unsolved job => Snapshot db job
  | .finalizing call _ _ => Snapshot db call.job
  | _ => True

structure Kept (r : JobRunner) : Prop where
  unique : UniqueJobs r.state.db
  queued : ∀ job ∈ r.state.db.jobs, job.status = .queued → Held r job.jobId
  running : ∀ job ∈ r.state.db.jobs, job.status = .running → Runs r job.jobId
  sound : r.worker.Sound r.state.db

/-! ## A job that is not so -/

/-- No row of the job has the status. -/
def IsNot (db : Database) (jobId : String) (status : JobStatus) : Prop :=
  ∀ job ∈ db.jobs, job.jobId = jobId → job.status ≠ status

section IsNot

variable {db : Database} {jobId now : String} {status : JobStatus}

theorem isNot_of_missing (h : job? db jobId = none) : IsNot db jobId status := by
  intro job hjob hid
  simpa [hid] using List.find?_eq_none.mp h job hjob

theorem isNot_of_read {job : JobRow} (hunique : UniqueJobs db) (h : job? db jobId = some job)
    (hstatus : job.status ≠ status) : IsNot db jobId status := by
  intro row hrow hid
  have hread := job?_unique hunique hrow
  rw [hid, h, Option.some.injEq] at hread
  exact hread ▸ hstatus

theorem isNot_running (hunique : UniqueJobs db) (h : jobRunning db jobId = false) :
    IsNot db jobId .running := by
  intro row hrow hid hstatus
  have hread : db.jobs.find? (fun r => r.jobId = row.jobId) = some row := job?_unique hunique hrow
  rw [jobRunning, ← hid, hread] at h
  simp [hstatus] at h

theorem isNot_updated {p : JobRow → Bool} {f : JobRow → JobRow}
    (hf : ∀ job, (f job).jobId = job.jobId ∧ (f job).status ≠ status)
    (hp : ∀ job, job.jobId = jobId → job.status = status → p job = true) :
    IsNot (writeJobs (updateWhere p f) db) jobId status := by
  intro job hjob hid hstatus
  obtain ⟨old, -, rfl⟩ := mem_updateWhere.mp hjob
  split at hstatus
  · exact (hf old).2 hstatus
  · rename_i hnot
    rw [if_neg hnot] at hid
    exact hnot (hp old hid hstatus)

theorem isNot_finished {finished : JobStatus} (hstatus : status = .queued ∨ status = .running)
    (hfinished : finished ≠ status) : IsNot (finishJob jobId finished now db).2 jobId status := by
  apply isNot_updated
  · exact fun _ => ⟨rfl, hfinished⟩
  · rcases hstatus with rfl | rfl <;> simp +contextual

theorem isNot_marked : IsNot (markJobRunning jobId db).2 jobId .queued := by
  apply isNot_updated
  · simp
  · simp +contextual

theorem isNot_requeued : IsNot (requeueRunningJob jobId db).2 jobId .running := by
  apply isNot_updated
  · simp
  · simp +contextual

end IsNot

/-! ## The tick -/

/-- One step of a thread from holding `held` to holding `held'`: what was in its hands or in the
queue, and what it mints, is still in one of them. -/
def Passes (s s' : RunnerState) (held held' : List String) : Prop :=
  ∃ new : Option String, Change (core s.db) (new.map (·, .queued)) (core s'.db) ∧
    ∀ jobId, jobId ∈ s.queue ∨ jobId ∈ held ∨ jobId ∈ new → jobId ∈ s'.queue ∨ jobId ∈ held'

section Tick

variable {s s' : RunnerState} {input : TickInput}

theorem passes_same {held held' : List String} (hcore : core s'.db = core s.db)
    (hqueue : s'.queue = s.queue) (hheld : ∀ jobId ∈ held, jobId ∈ held') :
    Passes s s' held held' := by
  refine ⟨none, .of_core hcore, fun jobId => ?_⟩
  rw [hqueue]
  rintro (h | h | h)
  · exact Or.inl h
  · exact Or.inr (hheld jobId h)
  · cases h

theorem passes_put (jobId : String) (held' : List String) :
    Passes s (s.put jobId) (jobId :: held') held' := by
  refine ⟨none, .same, fun other => ?_⟩
  simp only [RunnerState.put, List.mem_append, List.mem_cons, Option.not_mem_none, or_false,
    List.not_mem_nil]
  rintro (h | h | h)
  · exact Or.inl (Or.inl h)
  · exact Or.inl (Or.inr h)
  · exact Or.inr h

theorem tickStep_passes (hnew : job? s.db input.jobId = none) (workspaceId : String)
    (reconcile : Bool) (place : TickAt) :
    Passes s (tickStep workspaceId reconcile input s place).1 place.held
      (((tickStep workspaceId reconcile input s place).2.map TickAt.held).getD []) := by
  cases place with
  | records newest =>
    simp only [tickStep]
    split
    · exact passes_same rfl rfl (by simp [TickAt.held])
    · split <;> exact passes_same rfl rfl (by simp [TickAt.held])
  | audience records newest =>
    simp only [tickStep]
    split <;> exact passes_same rfl rfl (by simp [TickAt.held])
  | owe => exact passes_same rfl rfl (by simp [TickAt.held])
  | churn records newest => exact passes_same rfl rfl (by simp [TickAt.held])
  | bootstrap records =>
    exact passes_same (core_pinBootstrap _ _ _) rfl (by simp [TickAt.held])
  | mint records =>
    simp only [tickStep]
    rcases mintExact_change hnew with ⟨target, db', hrun, hchange⟩ | ⟨hne, hdb⟩
    · rw [hrun]
      exact ⟨some input.jobId, hchange, by simp [TickAt.held, RunnerState.attempt, eq_comm]⟩
    · split
      · rename_i hrun
        exact absurd (congrArg Prod.fst hrun) (hne _)
      all_goals
        rename_i hrun
        obtain rfl := hdb.symm.trans (congrArg Prod.snd hrun)
        exact passes_same rfl rfl (by simp [TickAt.held])
  | put jobId => exact passes_put jobId []

theorem work_passes (hnew : job? s.db input.jobId = none) (work : TickWork) :
    Passes s (work.step input s).1 work.held (((work.step input s).2.map TickWork.held).getD []) := by
  obtain ⟨rest, current⟩ := work
  cases current with
  | some current =>
    obtain ⟨workspaceId, place⟩ := current
    have hpasses := tickStep_passes hnew workspaceId false place
    cases hplace : (tickStep workspaceId false input s place).2 <;>
      simpa [TickWork.step, TickWork.held, hplace] using hpasses
  | none =>
    cases rest with
    | nil => exact passes_same rfl rfl (by simp [TickWork.held])
    | cons first rest => exact passes_same rfl rfl (by simp [TickWork.held])

theorem raise_held {work work' : TickWork} (h : work.raise = some work') : work.held = [] := by
  obtain ⟨rest, _ | ⟨workspaceId, place⟩⟩ := work
  · rfl
  · cases place with
    | put jobId => simp [TickWork.raise] at h
    | _ => rfl

end Tick

/-! ## A request thread -/

section Clients

variable {s s' : RunnerState} {place place' : ClientAt}

theorem Passes.cons {held held' : List String} (jobId : String) (h : Passes s s' held held') :
    Passes s s' (jobId :: held) (jobId :: held') := by
  obtain ⟨new, hchange, hkept⟩ := h
  refine ⟨new, hchange, fun other => ?_⟩
  have hother := hkept other
  simp only [List.mem_cons]
  tauto

theorem clientStep_passes {input : ClientInput} (hnew : job? s.db input.tick.jobId = none)
    (h : clientStep input s place = some (s', place')) : Passes s s' place.held place'.held := by
  cases place with
  | free => cases h
  | funnel jobId =>
    simp only [clientStep] at h
    split at h
    all_goals obtain ⟨rfl, rfl⟩ := Prod.mk.inj (Option.some.inj h)
    · exact passes_same rfl rfl (by simp [ClientAt.held])
    · exact passes_same (core_appendOperations _ _ _) rfl (by simp [ClientAt.held])
  | scan jobId =>
    obtain ⟨rfl, rfl⟩ := Prod.mk.inj (Option.some.inj h)
    exact passes_same rfl rfl (by simp [ClientAt.held])
  | tick jobId work =>
    have hpasses := (work_passes hnew work).cons jobId
    rcases hstep : work.step input.tick s with ⟨s₁, next⟩
    rw [hstep] at hpasses
    simp only [clientStep, hstep, Option.some.injEq, Prod.mk.injEq] at h
    obtain ⟨rfl, rfl⟩ := h
    cases next <;> exact hpasses
  | put jobId =>
    obtain ⟨rfl, rfl⟩ := Prod.mk.inj (Option.some.inj h)
    exact passes_put jobId []
  | cancelling jobId at_ =>
    have hchange : Change (core s.db) none (core (cancelStep jobId input.tick.now s.db at_).1) :=
      cancelStep_change
    rcases hstep : cancelStep jobId input.tick.now s.db at_ with ⟨db, next⟩
    rw [hstep] at hchange
    simp only [clientStep, hstep, Option.some.injEq, Prod.mk.injEq] at h
    obtain ⟨rfl, rfl⟩ := h
    exact ⟨none, hchange, by simp +contextual [ClientAt.held]⟩

theorem clientRaise_held (h : clientRaise place = some place') :
    ∀ jobId ∈ place.held, jobId ∈ place'.held := by
  cases place with
  | free | put jobId => cases h
  | funnel jobId | scan jobId | cancelling jobId at_ =>
    cases h
    simp [ClientAt.held]
  | tick jobId work =>
    obtain ⟨work', hraise, rfl⟩ := Option.map_eq_some_iff.mp h
    simp [ClientAt.held, raise_held hraise]

end Clients

/-! ## Steps that keep the invariant -/

section Keeping

variable {r : JobRunner} {s' : RunnerState} {worker' : WorkerAt}

theorem WorkerAt.Sound.change {worker : WorkerAt} {db db' : Database}
    {new : Option (String × JobStatus)} (h : worker.Sound db)
    (hchange : Change (core db) new (core db')) : worker.Sound db' := by
  cases worker with
  | scan jobId dispatched place =>
    refine ⟨fun job hjob => ?_, h.2⟩
    exact ⟨(h.1 job hjob).1, (h.1 job hjob).2.change hchange⟩
  | scenario job | missing job | execute job | solving job | unsolved job =>
    exact Snapshot.change h hchange
  | finalizing call mode place => exact Snapshot.change h hchange
  | _ => trivial

/-- One step of a run: the invariant goes on, and the tables change in one of the ways. -/
structure Advances (r r' : JobRunner) : Prop where
  kept : Kept r'
  change : ∃ new, Change (core r.state.db) new (core r'.state.db)

theorem Kept.working (h : Kept r) {new : Option (String × JobStatus)} (hup : r.worker ≠ .down)
    (hchange : Change (core r.state.db) new (core s'.db))
    (hqueued : ∀ jobId, jobId ∈ r.state.queue ∨ jobId ∈ r.worker.held ∨
      new = some (jobId, .queued) →
        jobId ∈ s'.queue ∨ jobId ∈ worker'.held ∨ IsNot s'.db jobId .queued)
    (hrunning : ∀ jobId, jobId ∈ r.worker.runs ∨ new = some (jobId, .running) →
      jobId ∈ worker'.runs ∨ IsNot s'.db jobId .running)
    (hsound : worker'.Sound s'.db) : Advances r (r.working s' worker') := by
  refine ⟨⟨hchange.unique h.unique, ?queued, ?running, hsound⟩, new, hchange⟩
  case queued =>
    intro job hjob hstatus
    have hmoved : job.jobId ∈ s'.queue ∨ job.jobId ∈ worker'.held ∨
        IsNot s'.db job.jobId .queued → Held (r.working s' worker') job.jobId := by
      rintro (hmem | hmem | hnot)
      · exact Or.inr (Or.inr (Or.inl hmem))
      · exact Or.inr (Or.inr (Or.inr (Or.inl hmem)))
      · exact absurd hstatus (hnot job hjob rfl)
    rcases hchange.live hjob (by simp [JobRow.live, hstatus]) with ⟨old, hold, hid, hsame⟩ | hnew
    · rcases hid ▸ h.queued old hold (hsame.trans hstatus) with
        hdown | hdropped | hmem | hmem | hclient
      · exact absurd hdown hup
      · exact Or.inr (Or.inl hdropped)
      · exact hmoved (hqueued _ (Or.inl hmem))
      · exact hmoved (hqueued _ (Or.inr (Or.inl hmem)))
      · exact Or.inr (Or.inr (Or.inr (Or.inr hclient)))
    · exact hmoved (hqueued _ (Or.inr (Or.inr (hstatus ▸ hnew))))
  case running =>
    intro job hjob hstatus
    have hmoved : job.jobId ∈ worker'.runs ∨ IsNot s'.db job.jobId .running →
        Runs (r.working s' worker') job.jobId := by
      rintro (hmem | hnot)
      · exact Or.inr (Or.inr hmem)
      · exact absurd hstatus (hnot job hjob rfl)
    rcases hchange.live hjob (by simp [JobRow.live, hstatus]) with ⟨old, hold, hid, hsame⟩ | hnew
    · rcases hid ▸ h.running old hold (hsame.trans hstatus) with hdown | hdropped | hmem
      · exact absurd hdown hup
      · exact Or.inr (Or.inl hdropped)
      · exact hmoved (hrunning _ (Or.inl hmem))
    · exact hmoved (hrunning _ (Or.inr (hstatus ▸ hnew)))

theorem Advances.withMemory {r' : JobRunner} (h : Advances r r') (memory : ReconcileMemory) :
    Advances r { r' with memory } :=
  ⟨⟨h.kept.unique, h.kept.queued, h.kept.running, h.kept.sound⟩, h.change⟩

theorem Kept.passes (h : Kept r) (hup : r.worker ≠ .down)
    (hpasses : Passes r.state s' r.worker.held worker'.held)
    (hruns : ∀ jobId ∈ r.worker.runs, jobId ∈ worker'.runs)
    (hsound : worker'.Sound s'.db) : Advances r (r.working s' worker') := by
  obtain ⟨new, hchange, hkept⟩ := hpasses
  refine h.working hup hchange (fun jobId hmem => ?_) (fun jobId hmem => ?_) hsound
  · have hnew : jobId ∈ r.state.queue ∨ jobId ∈ r.worker.held ∨ jobId ∈ new := by
      simpa using hmem
    rcases hkept jobId hnew with hmem | hmem
    · exact Or.inl hmem
    · exact Or.inr (Or.inl hmem)
  · rcases hmem with hmem | hnew
    · exact Or.inl (hruns jobId hmem)
    · simp at hnew

theorem Kept.moves (h : Kept r) (hup : r.worker ≠ .down)
    (hheld : ∀ jobId ∈ r.worker.held, jobId ∈ worker'.held ∨ IsNot r.state.db jobId .queued)
    (hruns : ∀ jobId ∈ r.worker.runs, jobId ∈ worker'.runs ∨ IsNot r.state.db jobId .running)
    (hsound : worker'.Sound r.state.db) : Advances r (r.working r.state worker') := by
  refine h.working hup .same (fun jobId hmem => ?_) (fun jobId hmem => ?_) hsound
  · rcases hmem with hmem | hmem | hnew
    · exact Or.inl hmem
    · exact Or.inr (hheld jobId hmem)
    · cases hnew
  · rcases hmem with hmem | hnew
    · exact hruns jobId hmem
    · cases hnew

theorem Kept.finishes (h : Kept r) {jobId now : String} {status : JobStatus}
    (hup : r.worker ≠ .down) (hheld : ∀ other ∈ r.worker.held, other = jobId)
    (hruns : ∀ other ∈ r.worker.runs, other = jobId) (hqueued : status ≠ .queued)
    (hrunning : status ≠ .running) (hsound : ∀ db, worker'.Sound db) :
    Advances r
      (r.working { r.state with db := (finishJob jobId status now r.state.db).2 } worker') := by
  refine h.working hup (.finished jobId now hqueued hrunning) (fun other hmem => ?_)
    (fun other hmem => ?_) (hsound _)
  · rcases hmem with hmem | hmem | hnew
    · exact Or.inl hmem
    · obtain rfl := hheld other hmem
      exact Or.inr (Or.inr (isNot_finished (Or.inl rfl) hqueued))
    · cases hnew
  · rcases hmem with hmem | hnew
    · obtain rfl := hruns other hmem
      exact Or.inr (isNot_finished (Or.inr rfl) hrunning)
    · cases hnew

theorem Kept.drop (h : Kept r) {jobId : String} (hup : r.worker ≠ .down)
    (hheld : ∀ other ∈ r.worker.held, other = jobId)
    (hruns : ∀ other ∈ r.worker.runs, other = jobId) : Advances r (r.drop jobId) := by
  refine ⟨⟨h.unique, ?queued, ?running, trivial⟩, none, .same⟩
  case queued =>
    intro job hjob hstatus
    rcases h.queued job hjob hstatus with hdown | hdropped | hmem | hmem | hclient
    · exact absurd hdown hup
    · exact Or.inr (Or.inl (List.mem_cons_of_mem _ hdropped))
    · exact Or.inr (Or.inr (Or.inl hmem))
    · exact Or.inr (Or.inl (List.mem_cons.mpr (Or.inl (hheld _ hmem))))
    · exact Or.inr (Or.inr (Or.inr (Or.inr hclient)))
  case running =>
    intro job hjob hstatus
    rcases h.running job hjob hstatus with hdown | hdropped | hmem
    · exact absurd hdown hup
    · exact Or.inr (Or.inl (List.mem_cons_of_mem _ hdropped))
    · exact Or.inr (Or.inl (List.mem_cons.mpr (Or.inl (hruns _ hmem))))

theorem Kept.client (h : Kept r) {i : Nat} {place' : ClientAt}
    (hpasses : Passes r.state s' (r.clients i).held place'.held) :
    Advances r ({ r with state := s' }.client i place') := by
  obtain ⟨new, hchange, hkept⟩ := hpasses
  have hclients : ∀ jobId, (jobId ∈ s'.queue ∨ jobId ∈ place'.held) →
      Held ({ r with state := s' }.client i place') jobId := by
    rintro jobId (hmem | hmem)
    · exact Or.inr (Or.inr (Or.inl hmem))
    · exact Or.inr (Or.inr (Or.inr (Or.inr ⟨i, by simpa [JobRunner.client] using hmem⟩)))
  refine ⟨⟨hchange.unique h.unique, fun job hjob hstatus => ?_, fun job hjob hstatus => ?_,
    h.sound.change hchange⟩, _, hchange⟩
  · rcases hchange.live hjob (by simp [JobRow.live, hstatus]) with ⟨old, hold, hid, hsame⟩ | hnew
    · rcases hid ▸ h.queued old hold (hsame.trans hstatus) with
        hdown | hdropped | hmem | hmem | ⟨j, hmem⟩
      · exact Or.inl hdown
      · exact Or.inr (Or.inl hdropped)
      · exact hclients _ (hkept _ (Or.inl hmem))
      · exact Or.inr (Or.inr (Or.inr (Or.inl hmem)))
      · by_cases hj : j = i
        · subst hj
          exact hclients _ (hkept _ (Or.inr (Or.inl hmem)))
        · exact Or.inr (Or.inr (Or.inr (Or.inr ⟨j, by simpa [JobRunner.client, hj] using hmem⟩)))
    · exact hclients _ (hkept _ (Or.inr (Or.inr (by simpa [hstatus] using hnew))))
  · rcases hchange.live hjob (by simp [JobRow.live, hstatus]) with ⟨old, hold, hid, hsame⟩ | hnew
    · exact hid ▸ h.running old hold (hsame.trans hstatus)
    · simp [hstatus] at hnew

end Keeping

/-! ## The worker -/

section Worker

variable {r r' : JobRunner}

theorem Kept.scanPassed (h : Kept r) {jobId : String} {dispatched : Option JobRow} {place : ScanAt}
    (hworker : r.worker = .scan jobId dispatched place) :
    Advances r (r.working r.state (scanPassed jobId dispatched)) := by
  have hsound := h.sound
  rw [hworker] at hsound
  cases dispatched with
  | none =>
    apply h.moves <;> simp [hworker, WorkerAt.held, WorkerAt.runs, Runner.scanPassed, WorkerAt.Sound]
  | some job =>
    obtain ⟨hid, hsnapshot⟩ := hsound.1 job rfl
    apply h.moves
    · simp [hworker]
    · simp [hworker, WorkerAt.held, Runner.scanPassed, hid]
    · simp [hworker, WorkerAt.runs]
    · exact hsnapshot

theorem Kept.scanAborted (h : Kept r) {jobId : String} {dispatched : Option JobRow} {place : ScanAt}
    (hworker : r.worker = .scan jobId dispatched place)
    (hnot : IsNot r.state.db jobId .queued) :
    Advances r (r.working r.state (scanAborted dispatched)) := by
  apply h.moves
  · simp [hworker]
  · simp [hworker, WorkerAt.held, hnot]
  · simp [hworker, WorkerAt.runs]
  · cases dispatched <;> trivial

theorem Kept.scanStep (h : Kept r) {jobId now : String} {dispatched : Option JobRow}
    {place : ScanAt} {s' : RunnerState} {worker' : WorkerAt}
    (hworker : r.worker = .scan jobId dispatched place)
    (hstep : scanStep jobId dispatched now r.state place = some (s', worker')) :
    Advances r (r.working s' worker') := by
  have hsound := h.sound
  rw [hworker] at hsound
  have hstays : ∀ place', place'.Sound jobId →
      Advances r (r.working r.state (.scan jobId dispatched place')) := by
    intro place' hplace
    apply h.moves
    · simp [hworker]
    · simp [hworker, WorkerAt.held]
    · simp [hworker, WorkerAt.runs]
    · exact ⟨hsound.1, hplace⟩
  cases place with
  | job =>
    simp only [Runner.scanStep] at hstep
    split at hstep
    · rename_i hmissing
      obtain ⟨rfl, rfl⟩ := Prod.mk.inj (Option.some.inj hstep)
      exact h.scanAborted hworker (isNot_of_missing hmissing)
    · rename_i job hread
      have hid : job.jobId = jobId := by simpa using List.find?_some hread
      split at hstep
      · rename_i hstatus
        obtain ⟨rfl, rfl⟩ := Prod.mk.inj (Option.some.inj hstep)
        exact h.scanAborted hworker (isNot_of_read h.unique hread hstatus)
      · split at hstep
        all_goals obtain ⟨rfl, rfl⟩ := Prod.mk.inj (Option.some.inj hstep)
        · exact hstays _ hid
        · exact hstays _ hid
  | current job =>
    obtain ⟨scenario, -, hstep⟩ := Option.map_eq_some_iff.mp hstep
    split at hstep
    all_goals obtain ⟨rfl, rfl⟩ := Prod.mk.inj hstep
    · exact hstays _ hsound.2
    · exact h.scanPassed hworker
  | others job =>
    simp only [Runner.scanStep] at hstep
    split at hstep
    all_goals obtain ⟨rfl, rfl⟩ := Prod.mk.inj (Option.some.inj hstep)
    · exact hstays _ hsound.2
    · exact h.scanPassed hworker
  | finish job =>
    obtain ⟨rfl, rfl⟩ := Prod.mk.inj (Option.some.inj hstep)
    apply h.finishes
    · simp [hworker]
    · simp [hworker, WorkerAt.held, show job.jobId = jobId from hsound.2]
    · simp [hworker, WorkerAt.runs]
    · simp
    · simp
    · intro db
      cases dispatched <;> trivial

theorem finalizeStep_ended {call : FinalizeCall} {now : String} {db db' : Database}
    {place : FinalizeAt} (hunique : UniqueJobs db)
    (hstep : finalizeStep call now db place = (db', none))
    (hraises : finalizeRaises call db' place = false) : IsNot db' call.job.jobId .running := by
  have hguard : ∀ next : FinalizeAt,
      (db, if jobRunning db call.job.jobId then some next else none) = (db', none) →
        IsNot db' call.job.jobId .running := by
    intro next hnext
    obtain ⟨rfl, hnone⟩ := Prod.mk.inj hnext
    apply isNot_running hunique
    split at hnone
    · cases hnone
    · exact Bool.eq_false_of_not_eq_true ‹_›
  cases place with
  | liveness | mint | markComplete | fence => exact hguard _ hstep
  | version => simp [finalizeRaises] at hraises
  | publish =>
    simp only [finalizeStep] at hstep
    split at hstep
    case h_4 e db₁ _ _ hpublish =>
      obtain ⟨rfl, -⟩ := Prod.mk.inj hstep
      obtain rfl := Txn.atomically_error hpublish
      exact isNot_running hunique hraises
    all_goals simp at hstep
  | compare =>
    simp only [finalizeStep] at hstep
    split at hstep <;> simp at hstep
  | latest =>
    simp only [finalizeStep] at hstep
    split at hstep
    · simp at hstep
    · split at hstep <;> simp at hstep
  | source version => simp [finalizeStep] at hstep
  | republish version source =>
    simp only [finalizeStep] at hstep
    split at hstep <;> simp at hstep
  | consume outcome =>
    simp only [finalizeStep] at hstep
    split at hstep <;> simp at hstep
  | settle rest outcome => cases rest <;> simp [finalizeStep] at hstep
  | finish outcome =>
    obtain ⟨rfl, -⟩ := Prod.mk.inj hstep
    apply isNot_finished (Or.inr rfl)
    cases outcome <;> simp [Outcome.status]

theorem finalizeEnd_plain (call : FinalizeCall) (mode : Option String) (place : FinalizeAt)
    (db : Database) : (finalizeEnd call mode place).held = [] ∧
      (finalizeEnd call mode place).runs = [] ∧ (finalizeEnd call mode place).Sound db := by
  cases place with
  | finish outcome =>
    cases hsettle : settlement? call mode outcome <;>
      simp [finalizeEnd, hsettle, WorkerAt.held, WorkerAt.runs, WorkerAt.Sound]
  | _ => exact ⟨rfl, rfl, trivial⟩

theorem reconcileStep_passes {s : RunnerState} {input : WorkerInput}
    (hnew : job? s.db input.tick.jobId = none) (scan : ReconcileScan) (workspaceId : String)
    (epochs : List EpochRow) (memory : ReconcileMemory) (place : ReconcileAt) :
    Passes s (reconcileStep input scan workspaceId epochs s memory place).1 place.held
      (((reconcileStep input scan workspaceId epochs s memory place).2.2.map
        ReconcileAt.held).getD []) := by
  cases place with
  | audience =>
    simp only [reconcileStep]
    split
    · exact passes_same rfl rfl (by simp [ReconcileAt.held])
    · split <;> exact passes_same rfl rfl (by simp [ReconcileAt.held])
  | books =>
    simp only [reconcileStep]
    split
    · exact passes_same rfl rfl (by simp [ReconcileAt.held])
    · split <;> exact passes_same rfl rfl (by simp [ReconcileAt.held])
  | scenario =>
    simp only [reconcileStep]
    split
    · split <;> exact passes_same rfl rfl (by simp [ReconcileAt.held])
    · exact passes_same rfl rfl (by simp [ReconcileAt.held])
  | tick place =>
    have hpasses := tickStep_passes hnew workspaceId true place
    cases hplace : (tickStep workspaceId true input.tick s place).2 <;>
      simpa [reconcileStep, ReconcileAt.held, hplace] using hpasses

theorem workerStep_advances {input : WorkerInput} (h : Kept r)
    (hnew : job? r.state.db input.tick.jobId = none) (hstep : workerStep input r = some r') :
    Advances r r' := by
  have hsound := h.sound
  unfold workerStep at hstep
  cases hworker : r.worker with
  | down | idle | dead => simp [hworker] at hstep
  | booting rest =>
    cases rest with
    | nil =>
      simp only [hworker, Option.some.injEq] at hstep
      subst hstep
      apply h.moves <;> simp [hworker, WorkerAt.held, WorkerAt.runs, WorkerAt.Sound]
    | cons job rest =>
      simp only [hworker] at hstep
      split at hstep
      all_goals
        rename_i hstatus
        obtain rfl := Option.some.inj hstep
      · refine h.working (by simp [hworker]) (.requeued job.jobId [.running]) ?_ ?_ trivial
        · intro jobId hmem
          simp only [hworker, WorkerAt.held, List.map_cons, List.mem_cons] at hmem ⊢
          simp only [Option.some.injEq, Prod.mk.injEq, and_true] at hmem
          tauto
        · intro jobId hmem
          simp only [hworker, WorkerAt.runs, hstatus, List.filter_cons, decide_true, if_true,
            List.map_cons, List.mem_cons] at hmem ⊢
          rcases hmem with (rfl | hmem) | hmem
          · exact Or.inr isNot_requeued
          · exact Or.inl hmem
          · simp at hmem
      · refine h.passes (by simp [hworker]) ?_ ?_ trivial
        · rw [hworker]
          exact passes_put job.jobId _
        · simp [hworker, WorkerAt.runs, hstatus]
  | requeued jobId rest =>
    simp only [hworker, Option.some.injEq] at hstep
    subst hstep
    refine h.passes (by simp [hworker]) ?_ ?_ trivial
    · rw [hworker]
      exact passes_put jobId _
    · simp [hworker, WorkerAt.runs]
  | scanEpochs cadence =>
    simp only [hworker, Option.some.injEq] at hstep
    subst hstep
    apply h.moves <;> simp [hworker, WorkerAt.held, WorkerAt.runs, WorkerAt.Sound]
  | tick work =>
    have hpasses := work_passes hnew work
    simp only [hworker, Option.some.injEq] at hstep
    subst hstep
    apply h.passes (by simp [hworker])
    · rw [hworker]
      cases hnext : (work.step input.tick r.state).2 <;> simpa [WorkerAt.held, hnext] using hpasses
    · simp [hworker, WorkerAt.runs]
    · cases (work.step input.tick r.state).2 <;> trivial
  | scan jobId dispatched place =>
    simp only [hworker] at hstep
    obtain ⟨⟨s', worker'⟩, hscan, rfl⟩ := Option.map_eq_some_iff.mp hstep
    exact h.scanStep hworker hscan
  | waiting jobId =>
    simp only [hworker, Option.some.injEq] at hstep
    subst hstep
    apply h.moves <;> simp [hworker, WorkerAt.held, WorkerAt.runs, WorkerAt.Sound]
  | dispatch jobId =>
    simp only [hworker] at hstep
    split at hstep
    all_goals
      rename_i hread
      obtain rfl := Option.some.inj hstep
    · apply h.moves <;>
        simp [hworker, WorkerAt.held, WorkerAt.runs, WorkerAt.Sound, isNot_of_missing hread]
    · rename_i job
      have hid : job.jobId = jobId := by simpa using List.find?_some hread
      split
      · apply h.moves
        · simp [hworker]
        · simp [hworker, WorkerAt.held, hid]
        · simp [hworker, WorkerAt.runs]
        · exact ⟨job, List.mem_of_find?_eq_some hread, Continues.refl job⟩
      · rename_i hstatus
        apply h.moves <;> simp [hworker, WorkerAt.held, WorkerAt.runs, WorkerAt.Sound,
          isNot_of_read h.unique hread hstatus]
  | scenario job =>
    rw [hworker] at hsound
    simp only [hworker, Option.some.injEq] at hstep
    subst hstep
    split
    · apply h.moves
      · simp [hworker]
      · simp [hworker, WorkerAt.held]
      · simp [hworker, WorkerAt.runs]
      · refine ⟨?_, trivial⟩
        rintro _ ⟨⟩
        exact ⟨rfl, hsound⟩
    · apply h.moves
      · simp [hworker]
      · simp [hworker, WorkerAt.held]
      · simp [hworker, WorkerAt.runs]
      · exact hsound
  | missing job =>
    simp only [hworker, Option.some.injEq] at hstep
    subst hstep
    apply h.finishes <;> simp [hworker, WorkerAt.held, WorkerAt.runs, WorkerAt.Sound]
  | execute job =>
    rw [hworker] at hsound
    simp only [hworker, Option.some.injEq] at hstep
    subst hstep
    have hchange : Change (core r.state.db) (some (job.jobId, .running))
        (core (markJobRunning job.jobId r.state.db).2) := .marked job.jobId
    refine h.working (by simp [hworker]) hchange ?_ ?_ (hsound.change hchange)
    · intro jobId hmem
      simp only [hworker, WorkerAt.held, List.mem_singleton] at hmem
      rcases hmem with hmem | rfl | hmem
      · exact Or.inl hmem
      · exact Or.inr (Or.inr isNot_marked)
      · simp at hmem
    · intro jobId hmem
      left
      simpa [hworker, WorkerAt.runs, eq_comm] using hmem
  | solving job =>
    rw [hworker] at hsound
    simp only [hworker] at hstep
    split at hstep
    all_goals
      obtain rfl := Option.some.inj hstep
      apply h.moves
      · simp [hworker]
      · simp [hworker, WorkerAt.held]
      · simp [hworker, WorkerAt.runs]
      · exact hsound
  | unsolved job =>
    simp only [hworker, Option.some.injEq] at hstep
    subst hstep
    apply h.finishes <;> simp [hworker, WorkerAt.held, WorkerAt.runs, WorkerAt.Sound]
  | finalizing call mode place =>
    rw [hworker] at hsound
    simp only [hworker] at hstep
    have hchange : Change (core r.state.db) none
        (core (finalizeStep call input.tick.now r.state.db place).1) := finalizeStep_change hsound
    split at hstep
    · rename_i db next hfinalize
      obtain rfl := Option.some.inj hstep
      rw [hfinalize] at hchange
      refine h.working (by simp [hworker]) hchange ?_ ?_ (Snapshot.change hsound hchange)
      · simp +contextual [hworker, WorkerAt.held]
      · simp +contextual [hworker, WorkerAt.runs]
    · rename_i db hfinalize
      rw [hfinalize] at hchange
      split at hstep
      all_goals obtain rfl := Option.some.inj hstep
      · apply h.drop <;> simp [hworker, WorkerAt.held, WorkerAt.runs]
      · rename_i hraises
        obtain ⟨hheld, hruns, hplain⟩ := finalizeEnd_plain call mode place db
        have hended := finalizeStep_ended h.unique hfinalize (Bool.eq_false_of_not_eq_true hraises)
        refine h.working (by simp [hworker]) hchange ?_ ?_ hplain
        · simp +contextual [hworker, WorkerAt.held]
        · intro jobId hmem
          simp only [hworker, WorkerAt.runs, List.mem_singleton] at hmem
          rcases hmem with rfl | hmem
          · exact Or.inr hended
          · cases hmem
  | settling job settlement =>
    have hplain : ∀ s' : RunnerState, s'.db = r.state.db → s'.queue = r.state.queue →
        Advances r (r.working s' (.scanEpochs .served)) := by
      intro s' hdb hqueue
      refine h.passes (by simp [hworker]) ?_ ?_ trivial
      · exact passes_same (by rw [hdb]) hqueue (by simp [hworker, WorkerAt.held])
      · simp [hworker, WorkerAt.runs]
    simp only [hworker] at hstep
    cases settlement with
    | completed =>
      obtain rfl := Option.some.inj hstep
      apply Advances.withMemory
      apply hplain <;> rfl
    | discharged =>
      obtain rfl := Option.some.inj hstep
      exact hplain _ rfl rfl
  | reconciling scan =>
    simp only [hworker] at hstep
    split at hstep
    · rename_i workspaceId epochs place hcurrent
      have hpasses := reconcileStep_passes hnew scan workspaceId epochs r.memory place
      rcases hreconcile : reconcileStep input scan workspaceId epochs r.state r.memory place with
        ⟨s', memory, next⟩
      rw [hreconcile] at hpasses
      simp only [hreconcile, Option.some.injEq] at hstep
      subst hstep
      apply Advances.withMemory
      apply h.passes (by simp [hworker])
      · rw [hworker]
        cases next <;> simpa [WorkerAt.held, ReconcileScan.held, hcurrent] using hpasses
      · simp [hworker, WorkerAt.runs]
      · trivial
    · rename_i hcurrent
      split at hstep
      all_goals
        obtain rfl := Option.some.inj hstep
        apply h.moves <;>
          simp [hworker, WorkerAt.held, WorkerAt.runs, WorkerAt.Sound, ReconcileScan.held, hcurrent]

theorem workerRaise_advances (h : Kept r) (hraise : workerRaise r = some r') : Advances r r' := by
  have hsame : ∀ worker' : WorkerAt, r.worker ≠ .down → r.worker.held = [] → r.worker.runs = [] →
      worker'.Sound r.state.db → Advances r { r with worker := worker' } := by
    intro worker' hup hheld hruns hsound
    refine Kept.moves h hup ?_ ?_ hsound
    · simp [hheld]
    · simp [hruns]
  unfold workerRaise at hraise
  cases hworker : r.worker with
  | tick work =>
    simp only [hworker] at hraise
    obtain ⟨work', hwork, rfl⟩ := Option.map_eq_some_iff.mp hraise
    apply hsame <;> simp [hworker, WorkerAt.held, WorkerAt.runs, WorkerAt.Sound, raise_held hwork]
  | reconciling scan =>
    simp only [hworker] at hraise
    split at hraise
    · cases hraise
    · rename_i current hput hcurrent
      obtain rfl := Option.some.inj hraise
      have hheld : scan.held = [] := by
        obtain ⟨workspaceId, epochs, place⟩ := current
        cases place with
        | tick place =>
          cases place with
          | put jobId => exact absurd rfl (hput _ _ _)
          | _ => simp [ReconcileScan.held, hcurrent, ReconcileAt.held, TickAt.held]
        | _ => simp [ReconcileScan.held, hcurrent, ReconcileAt.held]
      apply hsame <;> simp [hworker, WorkerAt.held, WorkerAt.runs, WorkerAt.Sound, hheld]
    · cases hraise
  | scanEpochs cadence =>
    cases cadence with
    | boot => simp [hworker] at hraise
    | poll | served =>
      simp only [hworker, Option.some.injEq] at hraise
      subst hraise
      apply hsame <;> simp [hworker, WorkerAt.held, WorkerAt.runs, WorkerAt.Sound]
  | _ =>
    simp only [hworker, WorkerAt.job?, Option.map_none, Option.map_some, Option.some.injEq,
      reduceCtorEq] at hraise
    try
      subst hraise
      apply h.drop <;> simp [hworker, WorkerAt.held, WorkerAt.runs]

end Worker

/-! ## The process -/

theorem runnerStep_advances {r r' : JobRunner} {event : RunnerEvent} (h : Kept r)
    (hstep : runnerStep r event = some r') : Advances r r' := by
  unfold runnerStep at hstep
  split at hstep
  · cases hstep
  rename_i hminted
  have hnew : ∀ jobId ∈ event.minted?, job? r.state.db jobId = none := by
    simpa using hminted
  cases event with
  | start =>
    simp only at hstep
    split at hstep
    · obtain rfl := Option.some.inj hstep
      refine ⟨⟨h.unique, fun job hjob hstatus => ?_, fun job hjob hstatus => ?_, trivial⟩,
        none, .same⟩
      · have hread : job ∈ nonterminalJobs r.state.db :=
          List.mem_filter.mpr ⟨hjob, by simp [JobRow.live, hstatus]⟩
        exact Or.inr (Or.inr (Or.inr (Or.inl (List.mem_map_of_mem hread))))
      · have hread : job ∈ (nonterminalJobs r.state.db).filter (·.status = .running) :=
          List.mem_filter.mpr
            ⟨List.mem_filter.mpr ⟨hjob, by simp [JobRow.live, hstatus]⟩, by simp [hstatus]⟩
        exact Or.inr (Or.inr (List.mem_map_of_mem hread))
    · cases hstep
  | take =>
    simp only at hstep
    split at hstep
    · rename_i jobId queue hworker hqueue
      obtain rfl := Option.some.inj hstep
      refine h.passes (by simp [hworker]) ⟨none, .same, fun other => ?_⟩ ?_ ⟨by simp, trivial⟩
      · simp only [hworker, hqueue, WorkerAt.held, List.mem_cons, List.not_mem_nil,
          Option.not_mem_none, or_false]
        tauto
      · simp [hworker, WorkerAt.runs]
    · cases hstep
  | poll =>
    simp only at hstep
    split at hstep
    · rename_i hworker _
      obtain rfl := Option.some.inj hstep
      refine Kept.moves h ?_ ?_ ?_ trivial <;> simp [hworker, WorkerAt.held, WorkerAt.runs]
    · cases hstep
  | reconcile today now =>
    simp only at hstep
    split at hstep
    · rename_i hworker _
      split at hstep
      · obtain rfl := Option.some.inj hstep
        have hscan : Advances r
            (r.working r.state (.reconciling (reconcileScan today now r.state))) := by
          refine h.moves ?_ ?_ ?_ trivial <;> simp [hworker, WorkerAt.held, WorkerAt.runs]
        exact hscan.withMemory _
      · cases hstep
    · cases hstep
  | work input => exact workerStep_advances h (hnew _ rfl) hstep
  | workFails => exact workerRaise_advances h hstep
  | sweep expired eventTail =>
    simp only at hstep
    split at hstep
    · rename_i hworker
      obtain rfl := Option.some.inj hstep
      have hswept : Advances r (r.working
          { r.state with db := (sweepRetention expired eventTail r.state.db).2 } r.worker) := by
        have hchange : Change (core r.state.db) none
            (core (sweepRetention expired eventTail r.state.db).2) := sweepRetention_change
        refine h.working (by simp [hworker]) hchange ?_ ?_ (h.sound.change hchange)
        · simp +contextual [hworker, WorkerAt.held]
        · simp [hworker, WorkerAt.runs]
      exact hswept
    · cases hstep
  | call i call =>
    simp only at hstep
    split at hstep
    · rename_i hfree
      obtain rfl := Option.some.inj hstep
      apply h.client
      refine ⟨(call.run r.state.db).2, call.run_change fun jobId hmem => hnew jobId hmem, ?_⟩
      intro jobId
      rw [hfree]
      cases (call.run r.state.db).2 <;> simp [ClientAt.held, eq_comm]
    · cases hstep
  | cancel i jobId =>
    simp only at hstep
    split at hstep
    · rename_i hfree
      obtain rfl := Option.some.inj hstep
      apply h.client
      rw [hfree]
      exact passes_same rfl rfl (by simp [ClientAt.held])
    · cases hstep
  | serve i input =>
    obtain ⟨⟨s', place'⟩, hclient, rfl⟩ := Option.map_eq_some_iff.mp hstep
    exact h.client (clientStep_passes (hnew _ rfl) hclient)
  | serveFails i =>
    obtain ⟨place', hraise, rfl⟩ := Option.map_eq_some_iff.mp hstep
    exact h.client (passes_same rfl rfl (clientRaise_held hraise))
  | crash =>
    obtain rfl := Option.some.inj hstep
    exact ⟨⟨h.unique, fun _ _ _ => Or.inl rfl, fun _ _ _ => Or.inl rfl, trivial⟩, none, .same⟩

/-- Before the first process: a store that keeps its job ids apart. -/
def JobRunner.before (db : Database) : JobRunner where
  state := { db, reconcile := [], queue := [], attempted := fun _ => 0 }
  worker := .down
  memory := {}
  clients := fun _ => .free
  dropped := []

theorem before_kept {db : Database} (hunique : UniqueJobs db) : Kept (JobRunner.before db) :=
  ⟨hunique, fun _ _ _ => Or.inl rfl, fun _ _ _ => Or.inl rfl, trivial⟩

theorem run_changes {P : Database → Prop}
    (hP : ∀ db new db', UniqueJobs db → P db → Change db new db' → P db') {db : Database}
    {events : List RunnerEvent} {r : JobRunner} (hunique : UniqueJobs db) (hdb : P (core db))
    (hrun : run runnerStep (.before db) events = some r) : Kept r ∧ P (core r.state.db) := by
  have hstep : ∀ s (a : RunnerEvent) t, Kept s ∧ P (core s.state.db) → True →
      runnerStep s a = some t → Kept t ∧ P (core t.state.db) := by
    rintro s a t ⟨hs, hPs⟩ - hstep
    obtain ⟨hkept, new, hchange⟩ := runnerStep_advances hs hstep
    exact ⟨hkept, hP (core s.state.db) new _ hs.unique hPs hchange⟩
  exact run_invariant (C := fun _ _ => True) hstep ⟨before_kept hunique, hdb⟩
    (eachStep_of_forall (fun _ _ => trivial) _ _) hrun

theorem run_kept {db : Database} {events : List RunnerEvent} {r : JobRunner}
    (hunique : UniqueJobs db) (hrun : run runnerStep (.before db) events = some r) : Kept r :=
  (run_changes (P := fun _ => True) (fun _ _ _ _ _ _ => trivial) hunique trivial hrun).1

/-- Whatever the threads do, and wherever processes end and start: while a process is up, every
queued job whose pass has not raised is in the queue or in somebody's hands, and every running one is
with the worker. -/
theorem live_jobs_attended {db : Database} {events : List RunnerEvent} {r : JobRunner}
    (hunique : UniqueJobs db) (hrun : run runnerStep (.before db) events = some r)
    (hup : r.worker ≠ .down) :
    ∀ job ∈ r.state.db.jobs, job.jobId ∉ r.dropped →
      (job.status = .queued → job.jobId ∈ r.state.queue ∨ job.jobId ∈ r.worker.held ∨
        ∃ i, job.jobId ∈ (r.clients i).held) ∧
      (job.status = .running → job.jobId ∈ r.worker.runs) := by
  have hkept := run_kept hunique hrun
  refine fun job hjob hserved => ⟨fun hstatus => ?_, fun hstatus => ?_⟩
  · rcases hkept.queued job hjob hstatus with hdown | hdropped | hheld
    · exact absurd hdown hup
    · exact absurd hdropped hserved
    · exact hheld
  · rcases hkept.running job hjob hstatus with hdown | hdropped | hruns
    · exact absurd hdown hup
    · exact absurd hdropped hserved
    · exact hruns

/-! ### An edit, its job, and a crash -/

def quietTick : TickInput where
  watched := false
  jobId := "x1"
  pin := none
  now := "t2"

def quietWork : RunnerEvent :=
  .work { tick := quietTick, solved := none, today := "d1", lastFull := none, idleGrace := 300 }

def oneEdit : RunnerCall :=
  .commitEdits
    { scenarioId := "w", baseSceneVersion := 0, requested := .obj [], idempotencyKey := none,
      requestFingerprint := none }
    [("e1", { operation := "add", treeId := "t1", oldTree := none, newTree := some (.obj []) })]
    "j1" "t1" respondJob

/-- The process ends while the worker solves, and the next one reads the job. -/
def crashWhileSolving : List RunnerEvent :=
  [.start, quietWork, quietWork, quietWork, .call 0 oneEdit] ++
    List.replicate 4 (.serve 0 { tick := quietTick, funnelled := none }) ++ [.take] ++
    List.replicate 8 quietWork ++ [.crash, .start, quietWork]

/-- The worker solves the job, and after the crash the next process has it in hand. -/
theorem crash_while_solving :
    (run runnerStep (.before oneScenario) (crashWhileSolving.take 18)).map (fun r =>
        (match r.worker with
          | .solving job => some job.jobId
          | _ => none, (job? r.state.db quietTick.jobId).isNone)) = some (some "j1", true) ∧
      (run runnerStep (.before oneScenario) crashWhileSolving).map (fun r =>
        (r.state.db.jobs.map (·.jobId), r.dropped, r.worker.held)) =
          some (["j1"], [], ["j1"]) := by
  decide

theorem live_jobs_attended_after_crash :
    ∃ r, run runnerStep (.before oneScenario) crashWhileSolving = some r ∧
      r.state.db.jobs.map (·.jobId) = ["j1"] ∧ r.dropped = [] ∧
      ∀ job ∈ r.state.db.jobs, job.jobId ∉ r.dropped →
        (job.status = .queued → job.jobId ∈ r.state.queue ∨ job.jobId ∈ r.worker.held ∨
          ∃ i, job.jobId ∈ (r.clients i).held) ∧
        (job.status = .running → job.jobId ∈ r.worker.runs) := by
  obtain ⟨r, hr, hcrashed⟩ := Option.map_eq_some_iff.mp crash_while_solving.2
  obtain ⟨hjobs, hdropped, hheld⟩ : r.state.db.jobs.map (·.jobId) = ["j1"] ∧ r.dropped = [] ∧
      r.worker.held = ["j1"] := by simpa using hcrashed
  refine ⟨r, hr, hjobs, hdropped, live_jobs_attended fresh_unique hr ?_⟩
  rintro hdown
  simp [hdown, WorkerAt.held] at hheld

theorem WorkerAt.runs_single {worker : WorkerAt} (hbooted : ∀ rest, worker ≠ .booting rest)
    (hrequeued : ∀ jobId rest, worker ≠ .requeued jobId rest) :
    ∃ jobId, ∀ other ∈ worker.runs, other = jobId := by
  cases worker with
  | booting rest => exact absurd rfl (hbooted rest)
  | requeued jobId rest => exact absurd rfl (hrequeued jobId rest)
  | solving job | unsolved job => exact ⟨job.jobId, by simp [WorkerAt.runs]⟩
  | finalizing call mode place => exact ⟨call.job.jobId, by simp [WorkerAt.runs]⟩
  | _ => exact ⟨"", by simp [WorkerAt.runs]⟩

/-- The worker runs one job at a time: besides those of passes that raised, and those that a start
has still to requeue, there is only the one that it is at. -/
theorem one_job_runs {db : Database} {events : List RunnerEvent} {r : JobRunner}
    (hunique : UniqueJobs db) (hrun : run runnerStep (.before db) events = some r)
    (hup : r.worker ≠ .down) (hbooted : ∀ rest, r.worker ≠ .booting rest)
    (hrequeued : ∀ jobId rest, r.worker ≠ .requeued jobId rest) :
    (r.state.db.jobs.filter fun job => job.status = .running ∧ job.jobId ∉ r.dropped).length ≤
      1 := by
  have hkept := run_kept hunique hrun
  obtain ⟨jobId, hsingle⟩ := WorkerAt.runs_single hbooted hrequeued
  have hids : ((r.state.db.jobs.filter fun job => job.status = .running ∧
      job.jobId ∉ r.dropped).map (·.jobId)).Nodup :=
    hkept.unique.sublist (List.filter_sublist.map _)
  have hsame : ∀ job ∈ r.state.db.jobs.filter fun job => job.status = .running ∧
      job.jobId ∉ r.dropped, job.jobId = jobId := by
    intro job hjob
    simp only [List.mem_filter, decide_eq_true_eq] at hjob
    obtain ⟨hjob, hstatus, hdropped⟩ := hjob
    rcases hkept.running job hjob hstatus with hdown | hmem | hmem
    · exact absurd hdown hup
    · exact absurd hmem hdropped
    · exact hsingle _ hmem
  generalize r.state.db.jobs.filter _ = rows at hids hsame
  match rows with
  | [] | [_] => simp
  | a :: b :: rows =>
    have ha := hsame a (by simp)
    have hb := hsame b (by simp)
    simp [ha, hb] at hids

theorem one_job_runs_while_solving :
    ∃ r, run runnerStep (.before oneScenario) (crashWhileSolving.take 18) = some r ∧
      (r.state.db.jobs.filter fun job => job.status = .running ∧ job.jobId ∉ r.dropped).length ≤
        1 := by
  obtain ⟨r, hr, hworker⟩ := Option.map_eq_some_iff.mp crash_while_solving.1
  have hsolving := congrArg Prod.fst hworker
  refine ⟨r, hr, one_job_runs fresh_unique hr ?_ ?_ ?_⟩ <;>
    intros <;> intro hworker <;> simp [hworker] at hsolving

/-! ## The start after a crash -/

/-- What a start does to a row that says the job runs. -/
def requeuedRow (job : JobRow) : JobRow :=
  if job.status = .running then { job with status := .queued, finishedAt := none } else job

theorem job?_requeued {db : Database} {jobId other : String} (h : job? db other = none) :
    job? (requeueRunningJob jobId db).2 other = none := by
  refine List.find?_eq_none.mpr fun row hrow => ?_
  obtain ⟨old, hold, rfl⟩ := mem_updateWhere.mp hrow
  have hne : old.jobId ≠ other := by simpa using List.find?_eq_none.mp h old hold
  split <;> simpa using hne

/-- The rows that the recovery loop has still to requeue. -/
def bootedRow (rest : List JobRow) (job : JobRow) : JobRow :=
  if ∃ other ∈ rest, other.status = .running ∧ other.jobId = job.jobId then requeuedRow job else job

theorem bootedRow_skip {job : JobRow} (rest : List JobRow) (hstatus : job.status ≠ .running) :
    bootedRow (job :: rest) = bootedRow rest := by
  funext row
  simp [bootedRow, hstatus]

theorem bootedRow_cons {job : JobRow} (rest : List JobRow) (hstatus : job.status = .running)
    (row : JobRow) :
    bootedRow rest (if row.jobId = job.jobId ∧ row.status ∈ [JobStatus.running] then
      { row with status := .queued, finishedAt := none } else row) =
        bootedRow (job :: rest) row := by
  by_cases hid : row.jobId = job.jobId <;> by_cases hrow : row.status = .running <;>
    simp [bootedRow, requeuedRow, hstatus, hid, hrow, Ne.symm, eq_comm]

theorem boot_recovers {r : JobRunner} {input : WorkerInput} {rest : List JobRow}
    (hworker : r.worker = .booting rest) (hnew : job? r.state.db input.tick.jobId = none) :
    ∃ n r', run runnerStep r (List.replicate n (.work input)) = some r' ∧
      r'.worker = .scanEpochs .boot ∧ r'.state.queue = r.state.queue ++ rest.map (·.jobId) ∧
      r'.state.db = { r.state.db with jobs := r.state.db.jobs.map (bootedRow rest) } := by
  have hstep : ∀ r : JobRunner, job? r.state.db input.tick.jobId = none →
      runnerStep r (.work input) = workerStep input r := by
    intro r hnew
    simp [runnerStep, RunnerEvent.minted?, hnew]
  induction rest generalizing r with
  | nil =>
    refine ⟨1, r.working r.state (.scanEpochs .boot), ?_, rfl, ?_, ?_⟩
    · simp [run, hstep r hnew, workerStep, hworker]
    · simp [JobRunner.working]
    · have hsame : bootedRow [] = id := by
        funext row
        simp [bootedRow]
      simp [JobRunner.working, hsame]
  | cons job rest ih =>
    by_cases hstatus : job.status = .running
    · let requeued : RunnerState := { r.state with
        db := (requeueRunningJob job.jobId r.state.db).2 }
      have hnew' : job? requeued.db input.tick.jobId = none := job?_requeued hnew
      obtain ⟨n, r', hrun, hend, hqueue, hdb⟩ :=
        ih (r := r.working (requeued.put job.jobId) (.booting rest)) rfl hnew'
      refine ⟨n + 2, r', ?_, hend, ?_, ?_⟩
      · have hfirst : workerStep input r =
            some (r.working requeued (.requeued job.jobId rest)) := by
          simp [workerStep, hworker, hstatus, requeued]
        have hsecond : workerStep input (r.working requeued (.requeued job.jobId rest)) =
            some (r.working (requeued.put job.jobId) (.booting rest)) := by
          simp [workerStep, JobRunner.working]
        rw [List.replicate_succ, List.replicate_succ, run, hstep r hnew, hfirst, Option.bind_some,
          run, hstep _ hnew', hsecond, Option.bind_some, hrun]
      · simpa [JobRunner.working, RunnerState.put, requeued] using hqueue
      · rw [hdb]
        simp only [JobRunner.working, RunnerState.put, requeued, requeueRunningJob, requeueJob,
          Txn.modify, writeJobs, updateWhere, List.map_map]
        congr 1
        refine List.map_congr_left fun row _ => ?_
        simpa using bootedRow_cons rest hstatus row
    · obtain ⟨n, r', hrun, hend, hqueue, hdb⟩ :=
        ih (r := r.working (r.state.put job.jobId) (.booting rest)) rfl hnew
      refine ⟨n + 1, r', ?_, hend, ?_, ?_⟩
      · simp [List.replicate_succ, run, hstep r hnew, workerStep, hworker, hstatus, hrun]
      · simpa [JobRunner.working, RunnerState.put] using hqueue
      · rw [hdb, bootedRow_skip rest hstatus]
        rfl

/-- Whatever state a process has died in, the next start puts every live job in the queue, in the
order of the rows, and every job that ran is queued again. -/
theorem restart_recovers {r : JobRunner} {input : WorkerInput}
    (hnew : job? r.state.db input.tick.jobId = none) :
    ∃ n r', run runnerStep r (.crash :: .start :: List.replicate n (.work input)) = some r' ∧
      r'.worker = .scanEpochs .boot ∧
      r'.state.queue = (nonterminalJobs r.state.db).map (·.jobId) ∧
      r'.state.db = { r.state.db with jobs := r.state.db.jobs.map requeuedRow } := by
  let booted : JobRunner := {
    state := { r.state with queue := [], attempted := fun _ => 0 }
    worker := .booting (nonterminalJobs r.state.db)
    memory := {}
    clients := fun _ => .free
    dropped := [] }
  obtain ⟨n, r', hrun, hend, hqueue, hdb⟩ := boot_recovers (r := booted) rfl hnew
  refine ⟨n, r', ?_, hend, ?_, ?_⟩
  · simpa [run, runnerStep, RunnerEvent.minted?] using hrun
  · simpa [booted] using hqueue
  · have hrows : r.state.db.jobs.map (bootedRow (nonterminalJobs r.state.db)) =
        r.state.db.jobs.map requeuedRow := by
      refine List.map_congr_left fun row hrow => ?_
      -- every row that says its job runs has been read
      have hread : row.status = .running → row ∈ nonterminalJobs r.state.db := fun hstatus =>
        List.mem_filter.mpr ⟨hrow, by simp [JobRow.live, hstatus]⟩
      unfold bootedRow
      split
      · rfl
      · rename_i hnot
        rw [requeuedRow, if_neg fun hstatus => hnot ⟨row, hread hstatus, hstatus, rfl⟩]
    rw [hdb, ← hrows]

theorem restart_recovers_solving :
    ∃ r, run runnerStep (.before oneScenario) (crashWhileSolving.take 18) = some r ∧
      ∃ n r', run runnerStep r (.crash :: .start :: List.replicate n (.work
          { tick := quietTick, solved := none, today := "d1", lastFull := none,
            idleGrace := 300 })) = some r' ∧
        r'.worker = .scanEpochs .boot ∧
        r'.state.queue = (nonterminalJobs r.state.db).map (·.jobId) ∧
        r'.state.db = { r.state.db with jobs := r.state.db.jobs.map requeuedRow } := by
  obtain ⟨r, hr, hrows⟩ := Option.map_eq_some_iff.mp crash_while_solving.1
  have hnew := congrArg Prod.snd hrows
  exact ⟨r, hr, restart_recovers (Option.isNone_iff_eq_none.mp hnew)⟩

end Solweig.Runner
