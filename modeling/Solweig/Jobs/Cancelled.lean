import Solweig.Jobs.Finalize
import Solweig.Store.Revisions

/-!
# Cancelled jobs and results

Which steps can leave a cancelled job with a result: the cancel that comes between the publish
transaction and the finish.
-/

namespace Solweig.Jobs

open Solweig.Lib Solweig.Store

/-- No result row names a cancelled job. -/
def Unpublished (db : Database) : Prop :=
  ∀ result ∈ db.results, ∀ jobId, result.jobId = some jobId →
    ∀ job ∈ db.jobs, job.jobId = jobId → job.status ≠ .cancelled

def UniqueJobs (db : Database) : Prop := (db.jobs.map (·.jobId)).Nodup

/-- A cancel that takes effect finds no result of its job. -/
def CancelsFirst (s : JobPlane) (a : Nat × JobEvent) : Prop :=
  ∀ now jobId, a.2 = .step now → s.threads a.1 = .cancelling jobId .finish →
    (∃ job ∈ s.shared.jobs, job.jobId = jobId ∧ (job.status = .queued ∨ job.status = .running)) →
    ∀ result ∈ s.shared.results, result.jobId ≠ some jobId

/-! ## What a write does to jobs and results -/

/-- The results of jobs stay, and no further job is cancelled. -/
structure Spares (db db' : Database) : Prop where
  results : ∀ result ∈ db'.results, result ∈ db.results ∨ result.jobId = none
  cancelled : ∀ job ∈ db'.jobs, job.status = .cancelled → job ∈ db.jobs

section Writes

variable {db db' : Database}

theorem Spares.unpublished (hs : Spares db db') (h : Unpublished db) : Unpublished db' := by
  intro result hresult jobId hjob job hmem hid hcancelled
  rcases hs.results result hresult with hold | hnone
  · exact h result hold jobId hjob job (hs.cancelled job hmem hcancelled) hid hcancelled
  · rw [hnone] at hjob
    simp at hjob

theorem updateWhere_uncancelled {p : JobRow → Bool} {f : JobRow → JobRow} {jobs : List JobRow}
    (hf : ∀ job, (f job).status ≠ .cancelled) {job : JobRow} (h : job ∈ updateWhere p f jobs)
    (hcancelled : job.status = .cancelled) : job ∈ jobs := by
  obtain ⟨old, hold, hupdate⟩ := mem_updateWhere.mp h
  split at hupdate
  · rw [← hupdate] at hcancelled
    exact absurd hcancelled (hf old)
  · exact hupdate ▸ hold

theorem spares_updateWhere {p : JobRow → Bool} {f : JobRow → JobRow}
    (hf : ∀ job, (f job).status ≠ .cancelled) : Spares db (writeJobs (updateWhere p f) db) :=
  ⟨fun _ h => Or.inl h, fun _ h hcancelled => updateWhere_uncancelled hf h hcancelled⟩

theorem UniqueJobs.kept (h : UniqueJobs db) (hjobs : db'.jobs = db.jobs) : UniqueJobs db' := by
  unfold UniqueJobs
  rwa [hjobs]

theorem UniqueJobs.updated {p : JobRow → Bool} {f : JobRow → JobRow} (h : UniqueJobs db)
    (hjobs : db'.jobs = updateWhere p f db.jobs) (hf : ∀ job, (f job).jobId = job.jobId) :
    UniqueJobs db' := by
  unfold UniqueJobs
  rwa [hjobs, map_updateWhere fun job _ => hf job]

theorem UniqueJobs.inserted {p : JobRow → Bool} {f : JobRow → JobRow} {job : JobRow}
    (h : UniqueJobs db) (hnew : job? db job.jobId = none)
    (hjobs : db'.jobs = updateWhere p f (db.jobs ++ [job]))
    (hf : ∀ job, (f job).jobId = job.jobId) : UniqueJobs db' := by
  unfold UniqueJobs
  rw [hjobs, map_updateWhere fun job _ => hf job, List.map_append]
  apply List.nodup_append.mpr
  refine ⟨h, List.nodup_singleton _, ?_⟩
  intro jobId hmem other hother
  obtain ⟨r, hr, rfl⟩ := List.mem_map.mp hmem
  rw [List.map_singleton, List.mem_singleton] at hother
  rw [hother]
  simpa using List.find?_eq_none.mp hnew r hr

/-! ## Store calls -/

theorem keeps_jobs_storeIdempotency (scope : String) (response : StoredResponse)
    (keyed : Option (String × String)) :
    Txn.Keeps (fun d : Database => (d.jobs, d.results)) (storeIdempotency scope response keyed) :=
  keeps_storeIdempotency (fun _ _ => rfl) scope response keyed

theorem commitBatch_jobs {request : EditRequest} {apply : Nat → Write Nat} {carries : Bool}
    {jobId now : String} {respond : ScenarioRow → String → StoredResponse}
    (happly : ∀ n, Txn.Keeps (fun db : Database => (db.jobs, db.results)) (apply n)) :
    (commitBatch request apply carries jobId now respond db).2.results = db.results ∧
      ((commitBatch request apply carries jobId now respond db).2.jobs = db.jobs ∨
        ∃ job : JobRow, job.jobId = jobId ∧ job.status = .queued ∧
          (commitBatch request apply carries jobId now respond db).2.jobs =
            supersede request.scenarioId (some jobId) now (db.jobs ++ [job])) := by
  unfold commitBatch
  rcases Txn.atomically_cases _ db with ⟨o, db', h, hrun⟩ | ⟨e, hrun⟩
  · rw [hrun]
    simp only [Txn.bind_ok, requireScenario, Txn.get_ok, Txn.require_ok, Txn.refuseIf_ok,
      insertJob, supersedeQueued, Txn.modify_ok, Txn.pure_ok] at h
    obtain ⟨_, _, hcheck, row, _, ⟨_, _, ⟨rfl, rfl⟩, hrow, rfl⟩, _, _, ⟨-, rfl⟩, n, dbA, hevents,
      _, _, rfl, _, _, rfl, _, _, rfl, _, _, ⟨_, _, ⟨rfl, rfl⟩, -, rfl⟩, _, dbS, hstore, -, rfl⟩ := h
    obtain rfl := ((keeps_checkIdempotency _ _).ok hcheck).symm
    have hkept : (dbA.jobs, dbA.results) = (db.jobs, db.results) := (happly _).ok hevents
    have hstored : (dbS.jobs, dbS.results) = _ := (keeps_jobs_storeIdempotency _ _ _).ok hstore
    obtain ⟨hjobs, hresults⟩ := Prod.mk.inj hstored
    obtain ⟨hjobsA, hresultsA⟩ := Prod.mk.inj hkept
    simp only [updateScenario, writeJobs, hjobsA] at hjobs
    refine ⟨hresults.trans hresultsA, Or.inr ⟨_, ?_, ?_, hjobs⟩⟩
    · rfl
    · rfl
  · rw [hrun]
    exact ⟨rfl, Or.inl rfl⟩

theorem publishResultLocked_tables {scenarioId checksum now : String} {version : Nat} {exact : Bool}
    {jobId : Option String} {acked : Option Nat}
    (h : publishResultLocked scenarioId version checksum exact jobId acked now db = (.ok (), db')) :
    db'.jobs = db.jobs ∧ ∃ result : ResultRow, result.jobId = jobId ∧
      db'.results = db.results ++ [result] := by
  obtain ⟨row, -, -, -, rfl⟩ := publishResultLocked_ok.mp h
  split <;> exact ⟨rfl, _, rfl, rfl⟩

theorem resetScenario_jobs {request : ResetRequest} {eventId now : String}
    {publisher : String → Nat → Except StoreError String} {respond : ScenarioRow → StoredResponse} :
    (∀ result ∈ (resetScenario request eventId publisher now respond db).2.results,
      result ∈ db.results ∨ result.jobId = none) ∧
    ((resetScenario request eventId publisher now respond db).2.jobs = db.jobs ∨
      (resetScenario request eventId publisher now respond db).2.jobs =
        supersede request.scenarioId none now db.jobs) := by
  rcases hrun : resetScenario request eventId publisher now respond db with ⟨e | r, db'⟩
  · obtain rfl := Txn.atomically_error hrun
    exact ⟨fun _ h => Or.inl h, Or.inl rfl⟩
  · simp only [resetScenario, Txn.atomically_ok, Txn.bind_ok, checkIdempotency_ok, requireScenario,
      Txn.get_ok, Txn.require_ok, Txn.refuseIf_ok, Txn.modify_ok, Txn.ofExcept_ok, supersedeQueued,
      Txn.pure_ok] at hrun
    obtain ⟨_, _, ⟨hkey, rfl⟩, row, _, ⟨_, _, ⟨rfl, rfl⟩, hrow, rfl⟩, _, _, ⟨hbase, rfl⟩, _, _, rfl,
      _, _, rfl, checksum, _, ⟨hchecksum, rfl⟩, _, _, rfl, _, dbP, hpublish, _, _, rfl, r', _,
      ⟨_, _, ⟨rfl, rfl⟩, hr', rfl⟩, _, dbS, hstore, rfl, rfl⟩ := hrun
    have hstored : (dbS.jobs, dbS.results) = _ := (keeps_jobs_storeIdempotency _ _ _).ok hstore
    obtain ⟨hjobs, hresults⟩ := Prod.mk.inj hstored
    obtain ⟨hjobsP, result, hnone, hresultsP⟩ := publishResultLocked_tables hpublish
    refine ⟨fun r hr => ?_, Or.inr (hjobs.trans ?_)⟩
    · have hmem : r ∈ dbP.results := hresults ▸ hr
      rw [hresultsP, List.mem_append, List.mem_singleton] at hmem
      rcases hmem with hold | rfl
      · exact Or.inl hold
      · exact Or.inr hnone
    · show supersede _ _ _ dbP.jobs = _
      rw [hjobsP]
      rfl

theorem storeCall_spares (call : StoreCall) (db : Database) : Spares db (call.run db) := by
  have hbatch : ∀ {request apply carries jobId now respond},
      (∀ n, Txn.Keeps (fun d : Database => (d.jobs, d.results)) (apply n)) →
      Spares db (commitBatch request apply carries jobId now respond db).2 := by
    intro request apply carries jobId now respond happly
    obtain ⟨hresults, hjobs⟩ := commitBatch_jobs happly
    refine ⟨fun _ h => Or.inl (hresults ▸ h), fun job hmem hcancelled => ?_⟩
    rcases hjobs with hjobs | ⟨queued, -, hstatus, hjobs⟩
    · exact hjobs ▸ hmem
    · rw [hjobs] at hmem
      have hold := updateWhere_uncancelled (fun _ h => by cases h) hmem hcancelled
      rw [List.mem_append, List.mem_singleton] at hold
      rcases hold with hold | rfl
      · exact hold
      · rw [hstatus] at hcancelled
        cases hcancelled
  cases call with
  | commitEdits request edits jobId now respond =>
    exact hbatch fun n => keeps_applyTreeEdits (fun _ _ => rfl) (fun _ _ => rfl) _ _ n edits
  | commitUniversalEdits request edits jobId now respond =>
    exact hbatch fun n => keeps_applyFamilyEdits (fun _ _ => rfl) _ _ n edits
  | resetScenario request eventId publisher now respond =>
    obtain ⟨hresults, hjobs⟩ := resetScenario_jobs
    refine ⟨hresults, fun job hmem hcancelled => ?_⟩
    rcases hjobs with hjobs | hjobs
    · exact hjobs ▸ hmem
    · exact updateWhere_uncancelled (fun _ h => by cases h) (hjobs ▸ hmem) hcancelled
  | mintExact jobId scenarioId target marker editWatermark baseEditWatermark now =>
    refine ⟨fun _ h => Or.inl h, fun job hmem hcancelled => ?_⟩
    have hold := updateWhere_uncancelled (fun _ h => by cases h) hmem hcancelled
    rcases List.mem_append.mp hold with hold | hnew
    · exact hold
    · rw [List.mem_singleton.mp hnew] at hcancelled
      cases hcancelled
  | markJobRunning jobId => exact spares_updateWhere fun _ h => by cases h
  | requeueRunningJob jobId => exact spares_updateWhere fun _ h => by cases h
  | requeueFailedJob jobId => exact spares_updateWhere fun _ h => by cases h

theorem storeCall_unique {call : StoreCall} (hdb : UniqueJobs db)
    (hnew : ∀ jobId ∈ call.inserts?, job? db jobId = none) : UniqueJobs (call.run db) := by
  have hbatch : ∀ {request apply carries jobId now respond},
      (∀ n, Txn.Keeps (fun d : Database => (d.jobs, d.results)) (apply n)) →
      job? db jobId = none →
      UniqueJobs (commitBatch request apply carries jobId now respond db).2 := by
    intro request apply carries jobId now respond happly hfree
    rcases (commitBatch_jobs happly).2 with hjobs | ⟨queued, hid, -, hjobs⟩
    · exact hdb.kept hjobs
    · exact hdb.inserted (hid ▸ hfree) hjobs fun _ => rfl
  cases call with
  | commitEdits request edits jobId now respond =>
    exact hbatch (fun n => keeps_applyTreeEdits (fun _ _ => rfl) (fun _ _ => rfl) _ _ n edits)
      (hnew jobId rfl)
  | commitUniversalEdits request edits jobId now respond =>
    exact hbatch (fun n => keeps_applyFamilyEdits (fun _ _ => rfl) _ _ n edits) (hnew jobId rfl)
  | resetScenario request eventId publisher now respond =>
    rcases resetScenario_jobs.2 with hjobs | hjobs
    · exact hdb.kept hjobs
    · exact hdb.updated hjobs fun _ => rfl
  | mintExact jobId scenarioId target marker editWatermark baseEditWatermark now =>
    refine hdb.inserted ?_ rfl fun _ => rfl
    exact hnew jobId rfl
  | markJobRunning jobId => exact hdb.updated rfl fun _ => rfl
  | requeueRunningJob jobId => exact hdb.updated rfl fun _ => rfl
  | requeueFailedJob jobId => exact hdb.updated rfl fun _ => rfl

/-! ## Finalize and cancel -/

/-- A result of a job that runs. -/
structure Publishes (db db' : Database) : Prop where
  jobs : db'.jobs = db.jobs
  result : ∃ result jobId, jobRunning db jobId = true ∧ result.jobId = some jobId ∧
    db'.results = db.results ++ [result]

theorem publishResult_publishes {scenarioId checksum jobId now : String} {version : Nat}
    {exact : Bool} {acked : Option Nat} {o : Except StoreError Unit}
    (h : publishResult scenarioId version checksum exact (some jobId) acked now db = (o, db')) :
    db' = db ∨ Publishes db db' := by
  unfold publishResult at h
  rcases o with e | u
  · exact Or.inl (Txn.atomically_error h)
  · rw [Txn.atomically_ok, Txn.bind_ok] at h
    obtain ⟨_, _, hcheck, hlocked⟩ := h
    obtain ⟨hrunning, rfl⟩ := requireRunning_ok.mp hcheck
    obtain ⟨hjobs, result, hid, hresults⟩ := publishResultLocked_tables hlocked
    exact Or.inr ⟨hjobs, result, jobId, hrunning jobId rfl, hid, hresults⟩

theorem job?_unique {job : JobRow} (h : UniqueJobs db) (hmem : job ∈ db.jobs) :
    job? db job.jobId = some job := by
  unfold UniqueJobs at h
  unfold job?
  generalize db.jobs = jobs at h hmem
  induction jobs with
  | nil => simp at hmem
  | cons r rows ih =>
    rw [List.map_cons, List.nodup_cons] at h
    rcases List.mem_cons.mp hmem with rfl | hrest
    · simp
    · have hne : r.jobId ≠ job.jobId := by
        intro heq
        exact h.1 (heq ▸ List.mem_map_of_mem hrest)
      rw [List.find?_cons_of_neg (by simpa using hne)]
      exact ih h.2 hrest

theorem Publishes.unpublished (hp : Publishes db db') (hunique : UniqueJobs db)
    (h : Unpublished db) : Unpublished db' := by
  obtain ⟨hjobs, result, running, hrunning, hid, hresults⟩ := hp
  intro r hr jobId hjob job hmem hkey hcancelled
  rw [hjobs] at hmem
  rw [hresults, List.mem_append, List.mem_singleton] at hr
  rcases hr with hold | rfl
  · exact h r hold jobId hjob job hmem hkey hcancelled
  · rw [hid, Option.some.injEq] at hjob
    subst hjob hkey
    change (job? db job.jobId).any _ = true at hrunning
    rw [job?_unique hunique hmem] at hrunning
    simp [hcancelled] at hrunning

/-- Jobs stay apart, and no result comes to name a cancelled one. -/
structure Safe (db db' : Database) : Prop where
  unique : UniqueJobs db → UniqueJobs db'
  unpublished : UniqueJobs db → Unpublished db → Unpublished db'

theorem Safe.refl (db : Database) : Safe db db := ⟨fun h => h, fun _ h => h⟩

theorem Safe.elsewhere (hjobs : db'.jobs = db.jobs) (hresults : db'.results = db.results) :
    Safe db db' := by
  refine ⟨fun h => h.kept hjobs, fun _ h => ?_⟩
  apply Spares.unpublished ⟨fun _ hr => Or.inl (hresults ▸ hr), fun _ hr _ => hjobs ▸ hr⟩ h

theorem Publishes.safe (hp : Publishes db db') : Safe db db' :=
  ⟨fun h => h.kept hp.jobs, hp.unpublished⟩

theorem finishJob_safe {jobId now : String} {status : JobStatus} (h : status ≠ .cancelled) :
    Safe db (finishJob jobId status now db).2 :=
  ⟨fun hunique => hunique.updated rfl fun _ => rfl,
    fun _ hdb => (spares_updateWhere fun _ => h).unpublished hdb⟩

theorem outcome_uncancelled (outcome : Outcome) : outcome.status ≠ .cancelled := by
  intro h
  cases outcome <;> cases h

theorem publish_safe {scenarioId checksum jobId now : String} {version : Nat}
    {exact : Bool} {acked : Option Nat} {o : Except StoreError Unit}
    (h : publishResult scenarioId version checksum exact (some jobId) acked now db = (o, db')) :
    Safe db db' := by
  rcases publishResult_publishes h with rfl | hp
  · exact Safe.refl _
  · exact hp.safe

theorem finalizeStep_safe (call : FinalizeCall) (now : String) (db : Database)
    (place : FinalizeAt) : Safe db (finalizeStep call now db place).1 := by
  cases place with
  | liveness | mint | markComplete | fence | source version => exact Safe.refl db
  | version =>
    simp only [finalizeStep]
    split
    · exact Safe.refl db
    · split <;> exact Safe.refl db
  | publish =>
    simp only [finalizeStep]
    split <;> exact publish_safe ‹_›
  | compare =>
    simp only [finalizeStep]
    split <;> exact Safe.refl db
  | latest =>
    simp only [finalizeStep]
    split
    · exact Safe.refl db
    · split <;> exact Safe.refl db
  | republish version source =>
    cases source with
    | none => exact Safe.refl db
    | some row =>
      simp only [finalizeStep, republishResultAtVersion]
      split <;> exact publish_safe ‹_›
  | consume outcome =>
    simp only [finalizeStep]
    split <;> exact Safe.refl db
  | settle rest outcome =>
    cases rest with
    | nil => exact Safe.refl db
    | cons epoch rest => exact Safe.elsewhere rfl rfl
  | finish outcome => exact finishJob_safe (outcome_uncancelled outcome)

theorem cancelled_finish {jobId now : String} {job : JobRow} :
    job ∈ (finishJob jobId .cancelled now db).2.jobs ↔
      ∃ old ∈ db.jobs, (if old.jobId = jobId ∧ (old.status = .queued ∨ old.status = .running) then
        { old with status := .cancelled, finishedAt := some now } else old) = job := by
  simp [finishJob, Txn.modify, writeJobs, updateWhere]

theorem finishCancelled_unpublished {jobId now : String} (h : Unpublished db) :
    Unpublished (finishJob jobId .cancelled now db).2 ↔
      ((∃ job ∈ db.jobs, job.jobId = jobId ∧ (job.status = .queued ∨ job.status = .running)) →
        ∀ result ∈ db.results, result.jobId ≠ some jobId) := by
  constructor
  · rintro hdb ⟨job, hmem, hid, hlive⟩ result hresult hnamed
    exact hdb result hresult jobId hnamed _
      (cancelled_finish.mpr ⟨job, hmem, if_pos ⟨hid, hlive⟩⟩) hid rfl
  · intro hfirst result hresult named hnamed job hmem hid hcancelled
    obtain ⟨old, hold, hupdate⟩ := cancelled_finish.mp hmem
    split at hupdate
    · rename_i hlive
      subst hupdate
      apply hfirst ⟨old, hold, hlive⟩ result hresult
      rw [hnamed, ← hid, hlive.1]
    · subst hupdate
      exact h result hresult named hnamed old hold hid hcancelled

theorem jobAct_safe {thread thread' : JobThread} {event : JobEvent}
    (h : jobAct db thread event = some (db', thread'))
    (hother : ∀ jobId now, thread = .cancelling jobId .finish → event ≠ .step now) :
    Safe db db' := by
  revert h
  fun_cases jobAct db thread event <;> intro h
  case case1 => cases h
  case case2 hnew =>
    obtain ⟨rfl, -⟩ := Prod.mk.inj (Option.some.inj h)
    refine ⟨fun hunique => storeCall_unique hunique fun jobId hmem => ?_,
      fun _ hdb => (storeCall_spares _ _).unpublished hdb⟩
    rw [← Option.not_isSome_iff_eq_none]
    exact fun htaken => hnew ⟨jobId, hmem, htaken⟩
  case case5 call place now db' place' hstep =>
    obtain ⟨rfl, -⟩ := Prod.mk.inj (Option.some.inj h)
    have hsafe := finalizeStep_safe call now db place
    rwa [hstep] at hsafe
  case case6 jobId place now db' place' hstep =>
    obtain ⟨rfl, -⟩ := Prod.mk.inj (Option.some.inj h)
    cases place with
    | read =>
      obtain ⟨rfl, -⟩ := Prod.mk.inj hstep
      exact Safe.refl _
    | finish => exact absurd rfl (hother jobId now rfl)
  case case9 => cases h
  all_goals
    obtain ⟨rfl, -⟩ := Prod.mk.inj (Option.some.inj h)
    exact Safe.refl _

end Writes

/-! ## Runs -/

theorem jobPlaneStep_cases {s t : JobPlane} {a : Nat × JobEvent}
    (hstep : jobPlaneStep s a = some t) :
    (∃ jobId now, s.threads a.1 = .cancelling jobId .finish ∧ a.2 = .step now ∧
      t.shared = (finishJob jobId .cancelled now s.shared).2) ∨
    (Safe s.shared t.shared ∧
      ∀ jobId now, s.threads a.1 = .cancelling jobId .finish → a.2 ≠ .step now) := by
  have hact := (Threads.step_eq hstep).1
  by_cases hfinish : ∃ jobId now, s.threads a.1 = .cancelling jobId .finish ∧ a.2 = .step now
  · obtain ⟨jobId, now, hthread, hevent⟩ := hfinish
    rw [hthread, hevent] at hact
    obtain ⟨hdb, -⟩ := Prod.mk.inj (Option.some.inj hact)
    exact Or.inl ⟨jobId, now, hthread, hevent, hdb.symm⟩
  · have hother : ∀ jobId now, s.threads a.1 = .cancelling jobId .finish → a.2 ≠ .step now :=
      fun jobId now hthread hevent => hfinish ⟨jobId, now, hthread, hevent⟩
    exact Or.inr ⟨jobAct_safe hact hother, hother⟩

theorem jobPlaneStep_unique {s t : JobPlane} {a : Nat × JobEvent} (h : UniqueJobs s.shared)
    (hstep : jobPlaneStep s a = some t) : UniqueJobs t.shared := by
  rcases jobPlaneStep_cases hstep with ⟨jobId, now, -, -, hdb⟩ | ⟨hsafe, -⟩
  · rw [hdb]
    exact h.updated rfl fun _ => rfl
  · exact hsafe.unique h

theorem jobPlaneStep_unpublished {s t : JobPlane} {a : Nat × JobEvent}
    (hunique : UniqueJobs s.shared) (h : Unpublished s.shared) (hstep : jobPlaneStep s a = some t) :
    Unpublished t.shared ↔ CancelsFirst s a := by
  rcases jobPlaneStep_cases hstep with ⟨jobId, now, hthread, hevent, hdb⟩ | ⟨hsafe, hother⟩
  · rw [hdb]
    refine (finishCancelled_unpublished h).trans
      ⟨fun hfirst now' jobId' _ hthread' => ?_, fun hfirst => hfirst now jobId hevent hthread⟩
    obtain ⟨rfl, -⟩ := JobThread.cancelling.inj (hthread.symm.trans hthread')
    exact hfirst
  · refine iff_of_true (hsafe.unpublished hunique h) ?_
    intro now jobId hevent hthread
    exact absurd hevent (hother jobId now hthread)

/-- A run never shows a result of a cancelled job exactly when each of its cancels takes effect
before a result of the job is published. -/
theorem cancelled_unpublished {start plane : JobPlane} {actions : List (Nat × JobEvent)}
    (hunique : UniqueJobs start.shared) (hstart : Unpublished start.shared)
    (hrun : run jobPlaneStep start actions = some plane) :
    (∀ reached, Visits jobPlaneStep start actions reached → Unpublished reached.shared) ↔
      EachStep jobPlaneStep CancelsFirst start actions :=
  always_iff_eachStep (I := fun s => UniqueJobs s.shared)
    (fun _ _ _ h hstep => jobPlaneStep_unique h hstep)
    (fun _ _ _ hI hP hstep => jobPlaneStep_unpublished hI hP hstep) hunique hstart hrun

/-! ### A cancel between the publication and the finish -/

def freshJobPlane : JobPlane := { shared := oneScenario, threads := fun _ => .free }

def publishedJob : FinalizeCall :=
  { job := {
      jobId := "j1", scenarioId := "w", targetSceneVersion := 1, status := .running,
      request := .edits (.obj []), editWatermark := 1, baseEditWatermark := 0, queuedAt := "t1" }
    result := { status := .published, sceneVersion := 1, checksum := "c1" } }

/-- An edit batch whose job runs and is finalized up to its publication. -/
def jobPublishes : List (Nat × JobEvent) :=
  [(0, .call (.commitEdits
      { scenarioId := "w", baseSceneVersion := 0, requested := .obj [], idempotencyKey := none,
        requestFingerprint := none }
      [("e1", { operation := "add", treeId := "t1", oldTree := none, newTree := some (.obj []) })]
      "j1" "t1" respondJob)),
    (0, .call (.markJobRunning "j1")),
    (1, .finalize publishedJob)] ++
  List.replicate 6 (1, .step "t2")

/-- The finish of the cancel comes before the one of the job. -/
def cancelAfterPublish : List (Nat × JobEvent) :=
  jobPublishes ++ [(2, .cancel "j1"), (2, .step "t3"), (2, .step "t3")]

theorem fresh_unique : UniqueJobs freshJobPlane.shared := List.nodup_nil

theorem fresh_unpublished : Unpublished freshJobPlane.shared := by
  intro result hresult
  cases hresult

theorem cancelAfterPublish_publishes :
    ¬ ∀ (start plane : JobPlane) (actions : List (Nat × JobEvent)), UniqueJobs start.shared →
      Unpublished start.shared → run jobPlaneStep start actions = some plane →
      Unpublished plane.shared := by
  intro h
  have hrun : (run jobPlaneStep freshJobPlane cancelAfterPublish).map (fun s =>
      (s.shared.results.map (·.jobId), s.shared.jobs.map fun r => (r.jobId, r.status))) =
      some ([some "j1"], [("j1", .cancelled)]) := by decide
  obtain ⟨plane, hplane, hview⟩ := Option.map_eq_some_iff.mp hrun
  obtain ⟨hresults, hjobs⟩ := Prod.mk.inj hview
  have hsafe := h _ _ _ fresh_unique fresh_unpublished hplane
  obtain ⟨result, hresult, hnamed⟩ := List.map_eq_singleton_iff.mp hresults
  obtain ⟨job, hjob, hstatus⟩ := List.map_eq_singleton_iff.mp hjobs
  obtain ⟨hid, hcancelled⟩ := Prod.mk.inj hstatus
  exact hsafe result (by simp [hresult]) "j1" hnamed job (by simp [hjob]) hid hcancelled

/-- The cancel is through before the job is finalized, which then stops at its first read. -/
def cancelBeforePublish : List (Nat × JobEvent) :=
  jobPublishes.take 2 ++ [(2, .cancel "j1"), (2, .step "t2"), (2, .step "t2"),
    (1, .finalize publishedJob), (1, .step "t3")]

theorem cancelled_unpublished_cancel_first :
    ∃ plane, run jobPlaneStep freshJobPlane cancelBeforePublish = some plane ∧
      ((∀ reached, Visits jobPlaneStep freshJobPlane cancelBeforePublish reached →
        Unpublished reached.shared) ↔
          EachStep jobPlaneStep CancelsFirst freshJobPlane cancelBeforePublish) := by
  have hrun : (run jobPlaneStep freshJobPlane cancelBeforePublish).isSome := by decide
  obtain ⟨plane, hplane⟩ := Option.isSome_iff_exists.mp hrun
  exact ⟨plane, hplane, cancelled_unpublished fresh_unique fresh_unpublished hplane⟩

end Solweig.Jobs
