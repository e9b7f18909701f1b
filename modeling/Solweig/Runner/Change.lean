import Solweig.Jobs.Cancelled
import Solweig.Runner.Plane

/-!
# What a store call of the runner can do

Scenarios, edit events, jobs and results are what the runner decides by. Every store call of its
threads changes them in one of a few ways, and everything that holds of all runs is read off these.
-/

namespace Solweig.Runner

open Solweig.Lib Solweig.Realtime Solweig.Store Solweig.Jobs

/-- The four tables, and nothing else. -/
def core (db : Database) : Database where
  scenarios := db.scenarios
  editEvents := db.editEvents
  jobs := db.jobs
  results := db.results

/-- The events of one batch, numbered on from `sequence`. -/
structure Batch (request : EditRequest) (sequence : Nat) (events : List EditEventRow) : Prop where
  scenario : ∀ e ∈ events, e.scenarioId = request.scenarioId
  base : ∀ e ∈ events, e.baseSceneVersion = request.baseSceneVersion
  numbered : events.map (·.sequence) = List.range' (sequence + 1) events.length

/-- The ways to change the tables. The index is the job that becomes live, and how. -/
inductive Change (db : Database) : Option (String × JobStatus) → Database → Prop
  | same : Change db none db
  | created {scenarioId jobId now : String} {requested : Json}
      (hfree : scenario? db scenarioId = none) (hnew : job? db jobId = none) :
      Change db (some (jobId, .queued)) { db with
        scenarios := db.scenarios ++ [{ scenarioId, updatedAt := now }]
        jobs := db.jobs ++ [
          { jobId, scenarioId, targetSceneVersion := 0, status := .queued,
            request := .edits requested, editWatermark := 0, baseEditWatermark := 0,
            queuedAt := now }] }
  | baseline {scenarioId : String} (checksum now : String) (hfree : scenario? db scenarioId = none) :
      Change db none { db with
        scenarios := db.scenarios ++
          [({ scenarioId, updatedAt := now } : ScenarioRow).published 0 0 now]
        results := db.results ++ [
          { scenarioId, sceneVersion := 0, exact := true, checksum, createdAt := now,
            jobId := none }] }
  | edited {request : EditRequest} {events : List EditEventRow} {row : ScenarioRow}
      {jobId : String} (carries : Bool) (now : String)
      (hrow : scenario? db request.scenarioId = some row)
      (hbase : request.baseSceneVersion = row.sceneVersion)
      (hbatch : Batch request row.editSequence events) (hnew : job? db jobId = none) :
      Change db (some (jobId, .queued)) { updateScenario request.scenarioId
          (·.edited (row.sceneVersion + 1) (row.editSequence + events.length) carries now) db with
        editEvents := db.editEvents ++ events
        jobs := supersede request.scenarioId (some jobId) now (db.jobs ++ [
          { jobId, scenarioId := request.scenarioId, targetSceneVersion := row.sceneVersion + 1,
            status := .queued, request := .edits request.requested,
            editWatermark := row.editSequence + events.length,
            baseEditWatermark := row.ackedSequence, queuedAt := now }]) }
  | reset {row : ScenarioRow} {w : String} {event : EditEventRow} (checksum now : String)
      (hrow : scenario? db w = some row) (hscenario : event.scenarioId = w)
      (hbase : event.baseSceneVersion = row.sceneVersion)
      (hsequence : event.sequence = row.editSequence + 1) :
      Change db none { updateScenario w
          (·.resetTo (row.sceneVersion + 1) (row.editSequence + 1) now) db with
        editEvents := db.editEvents ++ [event]
        jobs := supersede w none now db.jobs
        results := db.results ++ [
          { scenarioId := w, sceneVersion := row.sceneVersion + 1, exact := true, checksum,
            createdAt := now, jobId := none }] }
  | revised {row : ScenarioRow} {w now : String} (hrow : scenario? db w = some row) :
      Change db none (setSceneVersion w (row.sceneVersion + 1) now db)
  | advanced {row : ScenarioRow} {w now : String} {revision observed : Nat}
      (hrow : scenario? db w = some row) (hrevision : revision ≤ row.sceneVersion) :
      Change db none (updateScenario w (·.advance revision observed now) db)
  | minted {row : ScenarioRow} {w jobId now : String} {marker : ExactLane}
      (hrow : scenario? db w = some row) (howned : ownsTarget w row.sceneVersion db.jobs = false)
      (hmarker : marker.consumedRevision < row.sceneVersion) (hnew : job? db jobId = none) :
      Change db (some (jobId, .queued)) { db with
        jobs := supersede w (some jobId) now (db.jobs ++ [
          { jobId, scenarioId := w, targetSceneVersion := row.sceneVersion, status := .queued,
            request := .exactLane marker, editWatermark := row.editSequence,
            baseEditWatermark := row.ackedSequence, queuedAt := now }]) }
  | marked (jobId : String) : Change db (some (jobId, .running)) (markJobRunning jobId db).2
  | finished (jobId : String) {status : JobStatus} (now : String) (hqueued : status ≠ .queued)
      (hrunning : status ≠ .running) : Change db none (finishJob jobId status now db).2
  | requeued (jobId : String) (from_ : List JobStatus) :
      Change db (some (jobId, .queued)) (requeueJob jobId from_ db).2
  | published {job : JobRow} {row : ScenarioRow} {checksum now : String} {acked : Option Nat}
      (hjob : job ∈ db.jobs) (hrunning : jobRunning db job.jobId = true)
      (hrow : scenario? db job.scenarioId = some row)
      (hversion : job.targetSceneVersion = row.sceneVersion)
      (hacked : acked = none ∨ acked = some job.editWatermark)
      (hnewest : row.exactResultVersion ≤ row.sceneVersion) :
      Change db none { updateScenario job.scenarioId
          (·.published row.sceneVersion (acked.getD 0) now) db with
        results := db.results ++ [
          { scenarioId := job.scenarioId, sceneVersion := row.sceneVersion, exact := true,
            checksum, createdAt := now, jobId := some job.jobId }] }
  /-- A result below the exact version of its scenario. -/
  | recorded {job : JobRow} {row : ScenarioRow} (result : ResultRow)
      (hrow : scenario? db job.scenarioId = some row)
      (holder : row.sceneVersion < row.exactResultVersion) :
      Change db none { db with results := db.results ++ [result] }
  | swept (eventTail : Nat) :
      Change db none
        { db with editEvents := db.editEvents.filter fun event => ¬ outlived eventTail db event }

/-! ## Calls that write elsewhere -/

section Elsewhere

variable {db : Database}

theorem Change.of_core {db' : Database} (h : core db' = core db) :
    Change (core db) none (core db') :=
  h ▸ .same

theorem Change.to {new : Option (String × JobStatus)} {a b : Database} (h : Change db new a)
    (hab : a = b) : Change db new b :=
  hab ▸ h

theorem keeps_appendItems {γ : Type} {view : Database → γ}
    (hoperations : ∀ db operations, view { db with operations } = view db)
    (hepochs : ∀ db epochs, view { db with epochs } = view db) (workspaceId now : String)
    (sequence : Nat) (epochId : Option Nat) (items : List OperationItem) :
    Txn.Keeps view (appendItems workspaceId now sequence epochId items) := by
  induction items generalizing sequence epochId with
  | nil => exact Txn.keeps_pure _
  | cons item items ih =>
    refine Txn.keeps_get.bind fun db => ?_
    have hepoch : Txn.Keeps view (chooseEpoch workspaceId now epochId) := by
      cases epochId with
      | some e => exact Txn.keeps_pure e
      | none =>
        refine Txn.keeps_get.bind fun db => ?_
        have hcreate : ∀ e, Txn.Keeps view (createEpoch workspaceId e now) := fun e =>
          Txn.Keeps.bind (fun db => hepochs db _) fun _ => Txn.keeps_pure e
        split
        · split
          · apply Txn.keeps_pure
          · apply hcreate
        · apply hcreate
    split
    · exact Txn.keeps_refuseIf.bind fun _ => (ih _ _).bind fun _ => Txn.keeps_pure _
    · refine Txn.keeps_refuseIf.bind fun _ => hepoch.bind fun e => ?_
      refine Txn.Keeps.bind ?_ fun _ => (ih _ _).bind fun _ => Txn.keeps_pure _
      exact Txn.Keeps.bind (fun db => hoperations db _) fun _ =>
        Txn.Keeps.bind (fun db => hepochs db _) fun _ => Txn.keeps_pure _

theorem keeps_appendOperations {γ : Type} {view : Database → γ}
    (hoperations : ∀ db operations, view { db with operations } = view db)
    (hepochs : ∀ db epochs, view { db with epochs } = view db) (workspaceId : String)
    (items : List OperationItem) (now : String) :
    Txn.Keeps view (appendOperations workspaceId items now) := by
  apply Txn.Keeps.atomically
  refine Txn.Keeps.bind ?_ fun _ => Txn.keeps_get.bind fun _ =>
    keeps_appendItems hoperations hepochs _ _ _ _ _
  exact Txn.keeps_get.bind fun _ => Txn.keeps_require

theorem core_appendOperations (workspaceId : String) (items : List OperationItem) (now : String) :
    core (appendOperations workspaceId items now db).2 = core db :=
  keeps_appendOperations (fun _ _ => rfl) (fun _ _ => rfl) workspaceId items now db

theorem core_markEpochStatus (workspaceId : String) (epochId : Nat) (status : EpochStatus)
    (revision : Option Nat) (now : String) :
    core (markEpochStatus workspaceId epochId status revision now db).2 = core db :=
  rfl

theorem pinBootstrap_keeps {γ : Type} {view : Database → γ}
    (hcanonical : ∀ db canonical, view { db with canonical } = view db) (workspaceId now : String)
    (pin : Option Families) : view (pinBootstrap workspaceId now pin db) = view db := by
  cases pin with
  | none => rfl
  | some families =>
    unfold pinBootstrap
    have hkeeps : Txn.Keeps view (insertCanonicalOrIgnore
        { workspaceId, workspaceRevision := 0, families, createdAt := now }) := by
      refine Txn.keeps_get.bind fun _ => ?_
      split
      · exact Txn.keeps_pure _
      · exact fun db => hcanonical db _
    exact hkeeps db

theorem core_pinBootstrap (workspaceId now : String) (pin : Option Families) :
    core (pinBootstrap workspaceId now pin db) = core db :=
  pinBootstrap_keeps (fun _ _ => rfl) workspaceId now pin

end Elsewhere

/-! ## Edit batches -/

section Batches

variable {request : EditRequest} {now : String} {db : Database}

/-- What a batch writes to the four tables: its events. -/
def Appends (request : EditRequest) (apply : Nat → Write Nat) : Prop :=
  ∀ sequence db n db', apply sequence db = (.ok n, db') → ∃ events, Batch request sequence events ∧
    n = sequence + events.length ∧
    core db' = { core db with editEvents := db.editEvents ++ events }

theorem batch_nil (sequence : Nat) : Batch request sequence [] where
  scenario := by simp
  base := by simp
  numbered := rfl

theorem Batch.cons {sequence : Nat} {event : EditEventRow} {events : List EditEventRow}
    (h : Batch request (sequence + 1) events) (hscenario : event.scenarioId = request.scenarioId)
    (hbase : event.baseSceneVersion = request.baseSceneVersion)
    (hsequence : event.sequence = sequence + 1) : Batch request sequence (event :: events) where
  scenario := by simpa [hscenario] using h.scenario
  base := by simpa [hbase] using h.base
  numbered := by simp [hsequence, h.numbered, List.range'_succ]

theorem appended_cons {event : EditEventRow} {sequence n : Nat}
    {dbT db' : Database} (hrest : ∃ events, Batch request (sequence + 1) events ∧
      n = sequence + 1 + events.length ∧
      core db' = { core dbT with editEvents := dbT.editEvents ++ events })
    (hscenario : event.scenarioId = request.scenarioId)
    (hbase : event.baseSceneVersion = request.baseSceneVersion)
    (hsequence : event.sequence = sequence + 1)
    (hdbT : core dbT = { core db with editEvents := db.editEvents ++ [event] }) :
    ∃ events, Batch request sequence events ∧ n = sequence + events.length ∧
      core db' = { core db with editEvents := db.editEvents ++ events } := by
  obtain ⟨events, hbatch, rfl, hdb'⟩ := hrest
  have hevents : dbT.editEvents = db.editEvents ++ [event] := congrArg Database.editEvents hdbT
  refine ⟨event :: events, hbatch.cons hscenario hbase hsequence, ?_, ?_⟩
  · simp only [List.length_cons]
    omega
  · rw [hdb', hdbT, hevents]
    simp

theorem appends_treeEdits (edits : List (String × AppliedEdit)) :
    Appends request fun sequence => applyTreeEdits request now sequence edits := by
  intro sequence db n db' h
  induction edits generalizing sequence db with
  | nil =>
    obtain ⟨rfl, rfl⟩ := Txn.pure_ok.mp h
    exact ⟨[], batch_nil _, rfl, by simp [core]⟩
  | cons edit edits ih =>
    simp only [applyTreeEdits, Txn.bind_ok, Txn.modify_ok] at h
    obtain ⟨_, _, rfl, h⟩ := h
    -- the tree that the event writes is in none of the four tables
    split at h
    all_goals
      obtain ⟨_, _, hmodify, hrest⟩ := Txn.bind_ok.mp h
      obtain rfl := Txn.modify_ok.mp hmodify
      exact appended_cons (ih _ _ hrest) rfl rfl rfl rfl

theorem appends_familyEdits (edits : List (String × FamilyEdit)) :
    Appends request fun sequence => applyFamilyEdits request now sequence edits := by
  intro sequence db n db' h
  induction edits generalizing sequence db with
  | nil =>
    obtain ⟨rfl, rfl⟩ := Txn.pure_ok.mp h
    exact ⟨[], batch_nil _, rfl, by simp [core]⟩
  | cons edit edits ih =>
    simp only [applyFamilyEdits, Txn.bind_ok, Txn.modify_ok] at h
    obtain ⟨_, _, rfl, hrest⟩ := h
    exact appended_cons (ih _ _ hrest) rfl rfl rfl rfl

theorem core_storeIdempotency {scope : String} {response : StoredResponse}
    {keyed : Option (String × String)} {db' : Database} {u : Unit}
    (h : storeIdempotency scope response keyed db = (.ok u, db')) : core db' = core db := by
  have hkeeps : Txn.Keeps core (storeIdempotency scope response keyed) :=
    keeps_storeIdempotency (fun _ _ => rfl) _ _ _
  exact hkeeps.ok h

theorem commitBatch_change {apply : Nat → Write Nat} {carries : Bool} {jobId : String}
    {respond : ScenarioRow → String → StoredResponse} (happly : Appends request apply)
    (hnew : job? db jobId = none) :
    (∃ row db', commitBatch request apply carries jobId now respond db = (.ok (row, jobId), db') ∧
      Change (core db) (some (jobId, .queued)) (core db')) ∨
    ∃ e, commitBatch request apply carries jobId now respond db = (.error e, db) := by
  unfold commitBatch
  rcases Txn.atomically_cases _ db with ⟨o, db', h, hrun⟩ | ⟨e, hrun⟩
  · rw [hrun]
    simp only [Txn.bind_ok, requireScenario, Txn.get_ok, Txn.require_ok, Txn.refuseIf_ok,
      insertJob, supersedeQueued, Txn.modify_ok, Txn.pure_ok] at h
    obtain ⟨_, _, hcheck, row, _, ⟨_, _, ⟨rfl, rfl⟩, hrow, rfl⟩, _, _, ⟨hbase, rfl⟩, n, dbA,
      hevents, _, _, rfl, _, _, rfl, _, _, rfl, record, _, ⟨_, _, ⟨rfl, rfl⟩, -, rfl⟩, _, dbS,
      hstore, rfl, rfl⟩ := h
    obtain rfl := ((keeps_checkIdempotency _ _).ok hcheck).symm
    obtain ⟨events, hbatch, rfl, hcore⟩ := happly _ _ _ _ hevents
    refine Or.inl ⟨record, dbS, rfl, ?_⟩
    have hchange : Change (core db) (some (jobId, .queued)) _ :=
      .edited carries now hrow (by simpa using hbase) hbatch hnew
    simp only [core, Database.mk.injEq, and_true, true_and] at hcore
    obtain ⟨hscenarios, heditEvents, hjobs, hresults⟩ := hcore
    refine hchange.to ?_
    rw [core_storeIdempotency hstore]
    simp only [core, updateScenario, writeJobs, hscenarios, heditEvents, hjobs, hresults]
  · rw [hrun]
    exact Or.inr ⟨e, rfl⟩

end Batches

/-! ## The other calls -/

section Calls

variable {db : Database} {now : String}

theorem scenarios_append_published {scenarioId : String} {db : Database}
    (hfree : scenario? db scenarioId = none) (row : ScenarioRow) (hid : row.scenarioId = scenarioId)
    (f : ScenarioRow → ScenarioRow) :
    updateWhere (fun r => r.scenarioId = scenarioId) f (db.scenarios ++ [row]) =
      db.scenarios ++ [f row] := by
  refine updateWhere_last (by simp [hid]) fun r hr => ?_
  simpa using List.find?_eq_none.mp hfree r hr

theorem createScenario_change {request : CreateRequest} {jobId : String}
    {publisher : Option (String → Nat → Except StoreError String)}
    {respond : ScenarioRow → Option String → StoredResponse} (hnew : job? db jobId = none) :
    (∃ row new db', createScenario request jobId publisher now respond db =
        (.ok (.created row new), db') ∧
      Change (core db) (new.map (·, .queued)) (core db')) ∨
    ((createScenario request jobId publisher now respond db).2 = db ∧
      ∀ row new, (createScenario request jobId publisher now respond db).1 ≠
        .ok (.created row new)) := by
  unfold createScenario
  rcases Txn.atomically_cases _ db with ⟨o, db', h, hrun⟩ | ⟨e, hrun⟩
  · rw [hrun]
    simp only [Txn.bind_ok, Txn.get_ok] at h
    obtain ⟨_, _, hcheck, _, _, ⟨rfl, rfl⟩, h⟩ := h
    obtain rfl := ((keeps_checkIdempotency _ _).ok hcheck).symm
    split at h
    · obtain ⟨rfl, rfl⟩ := Txn.pure_ok.mp h
      exact Or.inr ⟨rfl, by simp⟩
    · simp only [Txn.bind_ok, insertScenario, Txn.get_ok, Txn.refuseIf_ok, Txn.modify_ok,
        requireScenario, Txn.require_ok, Txn.pure_ok] at h
      obtain ⟨_, _, ⟨_, _, ⟨rfl, rfl⟩, _, _, ⟨hfree, rfl⟩, rfl⟩, new, dbB, hbaseline, record, _,
        ⟨_, _, ⟨rfl, rfl⟩, -, rfl⟩, _, dbS, hstore, rfl, rfl⟩ := h
      rw [Option.not_isSome_iff_eq_none] at hfree
      refine Or.inl ⟨record, new, dbS, rfl, ?_⟩
      rw [core_storeIdempotency hstore]
      cases publisher with
      | none =>
        simp only [createBaseline, insertJob, Txn.bind_ok, Txn.modify_ok, Txn.pure_ok] at hbaseline
        obtain ⟨_, _, rfl, rfl, rfl⟩ := hbaseline
        exact .created hfree hnew
      | some publisher =>
        simp only [createBaseline, Txn.bind_ok, Txn.ofExcept_ok, Txn.pure_ok] at hbaseline
        obtain ⟨checksum, _, ⟨-, rfl⟩, _, _, hpublish, rfl, rfl⟩ := hbaseline
        have hrow : scenario? { db with scenarios := db.scenarios ++
            [{ scenarioId := request.scenarioId, updatedAt := now }] } request.scenarioId =
              some { scenarioId := request.scenarioId, updatedAt := now } := by
          unfold scenario? at hfree ⊢
          simp [List.find?_append, hfree]
        obtain ⟨row, hfound, -, -, rfl⟩ := publishResultLocked_ok.mp hpublish
        obtain rfl := Option.some.inj (hrow.symm.trans hfound)
        rw [if_pos ⟨rfl, le_refl _⟩]
        have hchange : Change (core db) none _ := .baseline checksum now hfree
        have hrows := scenarios_append_published hfree
          { scenarioId := request.scenarioId, updatedAt := now } rfl (·.published 0 0 now)
        refine hchange.to ?_
        simp only [core, updateScenario, addResult, Option.getD_some, hrows]
  · rw [hrun]
    exact Or.inr ⟨rfl, by simp⟩

theorem resetScenario_change {request : ResetRequest} {eventId : String}
    {publisher : String → Nat → Except StoreError String} {respond : ScenarioRow → StoredResponse} :
    Change (core db) none (core (resetScenario request eventId publisher now respond db).2) := by
  rcases hrun : resetScenario request eventId publisher now respond db with ⟨e | r, db'⟩
  · obtain rfl := Txn.atomically_error hrun
    exact .same
  · simp only [resetScenario, Txn.atomically_ok, Txn.bind_ok, checkIdempotency_ok, requireScenario,
      Txn.get_ok, Txn.require_ok, Txn.refuseIf_ok, Txn.modify_ok, Txn.ofExcept_ok, supersedeQueued,
      Txn.pure_ok] at hrun
    obtain ⟨_, _, ⟨hkey, rfl⟩, row, _, ⟨_, _, ⟨rfl, rfl⟩, hrow, rfl⟩, _, _, ⟨hbase, rfl⟩, _, _, rfl,
      _, _, rfl, checksum, _, ⟨hchecksum, rfl⟩, _, _, rfl, _, dbP, hpublish, _, _, rfl, r', _,
      ⟨_, _, ⟨rfl, rfl⟩, hr', rfl⟩, _, dbS, hstore, rfl, rfl⟩ := hrun
    obtain ⟨row', -, -, hresult, -⟩ := publishResultLocked_ok.mp hpublish
    have hrow' : scenario? (updateScenario request.scenarioId
        (·.reset (row.sceneVersion + 1) (row.editSequence + 1) now) db) request.scenarioId =
          some (row.reset (row.sceneVersion + 1) (row.editSequence + 1) now) := by
      rw [scenario?_updateScenario, if_pos rfl, hrow, Option.map_some]
      exact fun _ => rfl
    have heq := hpublish.symm.trans (publishResultLocked_exact hrow' rfl (le_refl _) hresult)
    obtain rfl := (Prod.mk.inj heq).2
    rw [core_storeIdempotency hstore]
    let event : EditEventRow := {
      scenarioId := request.scenarioId, sequence := row.editSequence + 1, eventId,
      baseSceneVersion := row.sceneVersion, operation := "reset", submittedAt := now,
      idempotencyKey := request.idempotencyKey }
    have hchange : Change (core db) none _ :=
      @Change.reset _ row request.scenarioId event checksum now hrow rfl rfl rfl
    refine hchange.to ?_
    have hrows : (resetWrites request row eventId checksum now db).scenarios = _ :=
      resetWrites_scenarios request row eventId checksum now
    simp only [core, Database.mk.injEq]
    exact ⟨hrows.symm, rfl, rfl, rfl, rfl, rfl, rfl, rfl, rfl⟩

theorem commitEpochReduction_change {workspaceId : String} {epochId : Nat} {families : Families}
    {baseline : Option Nat} :
    Change (core db) none
      (core (commitEpochReduction workspaceId epochId families baseline now db).2) := by
  generalize hrun : commitEpochReduction workspaceId epochId families baseline now db = r
  have hspec : Commit workspaceId epochId families baseline now db _ _ := commitEpochReduction_spec
  rw [hrun] at hspec
  obtain ⟨o, db'⟩ := r
  cases hspec with
  | refused | missing | stored | restored => exact .same
  | assigned _ _ hscenario => exact .revised hscenario

theorem advanceFastRevision_change {workspaceId : String} {revision observed : Nat} :
    Change (core db) none
      (core (advanceFastRevision workspaceId revision observed now db).2) := by
  rcases advanceFastRevision_scenarios with ⟨-, hdb⟩ | ⟨row, hrow, hrevision, hdb⟩
  · rw [hdb]
    exact .same
  · rw [hdb]
    exact .advanced hrow hrevision

theorem requeueFailedJob_change {jobId : String} :
    Change (core db) ((if isRetryable db jobId then some jobId else none).map (·, .queued))
      (core (requeueFailedJob jobId db).2) := by
  split
  · exact .requeued jobId _
  · rename_i hretryable
    have hnone : (requeueFailedJob jobId db).2 = db := by
      show { db with jobs := updateWhere _ _ db.jobs } = db
      rw [updateWhere_of_none]
      intro job hjob
      simp only [isRetryable, List.any_eq_true, not_exists, not_and] at hretryable
      simpa using hretryable job hjob
    rw [hnone]
    exact .same

theorem commitBatch_called {request : EditRequest} {apply : Nat → Write Nat} {jobId : String}
    {respond : ScenarioRow → String → StoredResponse} (carries : Bool)
    (happly : Appends request apply) (hnew : job? db jobId = none) :
    let called : Database × Option String :=
      match commitBatch request apply carries jobId now respond db with
      | (.ok (_, jobId), db') => (db', some jobId)
      | (.error _, db') => (db', none)
    Change (core db) (called.2.map (·, .queued)) (core called.1) := by
  rcases commitBatch_change happly hnew with ⟨row, db', hrun, hchange⟩ | ⟨e, hrun⟩
  · rw [hrun]
    exact hchange
  · rw [hrun]
    exact .same

theorem RunnerCall.run_change {call : RunnerCall}
    (hnew : ∀ jobId ∈ call.newJob?, job? db jobId = none) :
    Change (core db) ((call.run db).2.map (·, .queued)) (core (call.run db).1) := by
  cases call with
  | createScenario request jobId publisher now respond =>
    rcases createScenario_change (hnew jobId rfl) with ⟨row, new, db', hrun, hchange⟩ | ⟨hdb, hne⟩
    · simp only [RunnerCall.run]
      rw [hrun]
      exact hchange
    · simp only [RunnerCall.run]
      rw [hdb]
      exact .same
  | commitEdits request edits jobId now respond =>
    exact commitBatch_called _ (appends_treeEdits edits) (hnew jobId rfl)
  | commitUniversalEdits request edits jobId now respond =>
    exact commitBatch_called _ (appends_familyEdits edits) (hnew jobId rfl)
  | resetScenario request eventId publisher now respond => exact resetScenario_change
  | appendOperations workspaceId items now => exact .of_core (core_appendOperations _ _ _)
  | commitEpochReduction workspaceId epochId families baseline now =>
    exact commitEpochReduction_change
  | markEpochStatus workspaceId epochId status revision now =>
    exact .of_core (core_markEpochStatus _ _ _ _ _)
  | advanceFastRevision workspaceId revision observed now => exact advanceFastRevision_change
  | requeueFailedJob jobId => exact requeueFailedJob_change

theorem mintExact_change {workspaceId jobId : String} {reconcile : Bool} {records : List EpochRow}
    {consumed : Consumed} (hnew : job? db jobId = none) :
    (∃ target db', mintExact workspaceId jobId reconcile records consumed now db =
        (.ok (.minted target), db') ∧
      Change (core db) (some (jobId, .queued)) (core db')) ∨
    ((∀ target, (mintExact workspaceId jobId reconcile records consumed now db).1 ≠
        .ok (.minted target)) ∧
      (mintExact workspaceId jobId reconcile records consumed now db).2 = db) := by
  unfold mintExact
  rcases Txn.atomically_cases _ db with ⟨o, db', h, hrun⟩ | ⟨e, hrun⟩
  · rw [hrun]
    obtain ⟨_, _, hget, h⟩ := Txn.bind_ok.mp h
    obtain ⟨rfl, rfl⟩ := Txn.get_ok.mp hget
    cases hrow : scenario? db workspaceId with
    | none =>
      simp only [hrow] at h
      obtain ⟨rfl, rfl⟩ := Txn.pure_ok.mp h
      exact Or.inr ⟨by simp, rfl⟩
    | some row =>
      simp only [hrow] at h
      split at h
      · obtain ⟨rfl, rfl⟩ := Txn.pure_ok.mp h
        exact Or.inr ⟨by simp, rfl⟩
      · rename_i hconsumed
        split at h
        · obtain ⟨rfl, rfl⟩ := Txn.pure_ok.mp h
          exact Or.inr ⟨by simp, rfl⟩
        · rename_i howned
          simp only [insertJob, supersedeQueued, Txn.bind_ok, Txn.modify_ok, Txn.pure_ok] at h
          obtain ⟨_, _, rfl, _, _, rfl, rfl, rfl⟩ := h
          refine Or.inl ⟨_, _, rfl, .minted hrow ?_ ?_ hnew⟩
          · exact Bool.eq_false_of_not_eq_true howned
          · exact Nat.lt_of_not_le hconsumed
  · rw [hrun]
    exact Or.inr ⟨by simp, rfl⟩

theorem cancelStep_change {jobId : String} {place : CancelAt} :
    Change (core db) none (core (cancelStep jobId now db place).1) := by
  cases place with
  | read => exact .same
  | finish => exact .finished jobId now (by simp) (by simp)

/-- What no write to the row of a job changes. -/
structure Continues (job job' : JobRow) : Prop where
  jobId : job'.jobId = job.jobId
  scenarioId : job'.scenarioId = job.scenarioId
  target : job'.targetSceneVersion = job.targetSceneVersion
  request : job'.request = job.request
  watermark : job'.editWatermark = job.editWatermark
  baseWatermark : job'.baseEditWatermark = job.baseEditWatermark

/-- A job as it was read at some time. -/
def Snapshot (db : Database) (job : JobRow) : Prop := ∃ row ∈ db.jobs, Continues job row

theorem publish_change {job : JobRow} {version : Nat} {checksum : String} {acked : Option Nat}
    {o : Except StoreError Unit} {db' : Database} (hjob : Snapshot db job)
    (hversion : version = job.targetSceneVersion)
    (hacked : acked = none ∨ acked = some job.editWatermark)
    (h : publishResult job.scenarioId version checksum true (some job.jobId) acked now db = (o, db')) :
    Change (core db) none (core db') := by
  unfold publishResult at h
  rcases o with e | u
  · obtain rfl := Txn.atomically_error h
    exact .same
  · rw [Txn.atomically_ok, Txn.bind_ok] at h
    obtain ⟨_, _, hcheck, hlocked⟩ := h
    obtain ⟨hrunning, rfl⟩ := requireRunning_ok.mp hcheck
    obtain ⟨row, hrow, rfl, -, rfl⟩ := publishResultLocked_ok.mp hlocked
    obtain ⟨stored, hstored, hcontinues⟩ := hjob
    have hid := hcontinues.jobId
    have hscenario := hcontinues.scenarioId
    have htarget := hcontinues.target
    have hwatermark := hcontinues.watermark
    split
    · rename_i hexact
      rw [← hid, ← hscenario]
      refine Change.published hstored ?_ ?_ (htarget.trans hversion.symm) ?_ hexact.2
      · exact hid ▸ hrunning _ rfl
      · exact hscenario ▸ hrow
      · exact hwatermark ▸ hacked
    · rename_i hexact
      exact @Change.recorded _ stored _ _ (hscenario ▸ hrow) (by simpa using hexact)

theorem finalizeStep_change {call : FinalizeCall} {place : FinalizeAt}
    (hjob : Snapshot db call.job) :
    Change (core db) none (core (finalizeStep call now db place).1) := by
  cases place with
  | liveness | mint | markComplete | fence | source version => exact .same
  | version =>
    simp only [finalizeStep]
    split
    · exact .same
    · split <;> exact .same
  | publish =>
    simp only [finalizeStep]
    split <;> exact publish_change hjob rfl (Or.inr rfl) ‹_›
  | compare =>
    simp only [finalizeStep]
    split <;> exact .same
  | latest =>
    simp only [finalizeStep]
    split
    · exact .same
    · split <;> exact .same
  | republish version source =>
    cases source with
    | none => exact .same
    | some row =>
      simp only [finalizeStep, republishResultAtVersion]
      split <;> exact publish_change hjob rfl (Or.inl rfl) ‹_›
  | consume outcome =>
    simp only [finalizeStep]
    split <;> exact .same
  | settle rest outcome =>
    cases rest with
    | nil => exact .same
    | cons epoch rest => exact .of_core (core_markEpochStatus _ _ _ _ _)
  | finish outcome =>
    apply Change.finished
    all_goals cases outcome <;> simp [Outcome.status]

theorem sweepRetention_change {expired : IdempotencyRow → Bool} {eventTail : Nat} :
    Change (core db) none (core (sweepRetention expired eventTail db).2) :=
  .swept eventTail

end Calls

/-! ## The rows of the jobs -/

section Rows

variable {db db' : Database} {new : Option (String × JobStatus)}

theorem Continues.refl (job : JobRow) : Continues job job := ⟨rfl, rfl, rfl, rfl, rfl, rfl⟩

theorem continues_status (job : JobRow) (status : JobStatus) (finishedAt : Option String) :
    Continues job { job with status, finishedAt } :=
  ⟨rfl, rfl, rfl, rfl, rfl, rfl⟩

theorem Continues.trans {a b c : JobRow} (hab : Continues a b) (hbc : Continues b c) :
    Continues a c where
  jobId := hbc.jobId.trans hab.jobId
  scenarioId := hbc.scenarioId.trans hab.scenarioId
  target := hbc.target.trans hab.target
  request := hbc.request.trans hab.request
  watermark := hbc.watermark.trans hab.watermark
  baseWatermark := hbc.baseWatermark.trans hab.baseWatermark

/-- At most one job comes in, and the rows that change keep all but their status. -/
structure JobWrites (db : Database) (new : Option (String × JobStatus)) (p : JobRow → Bool)
    (f : JobRow → JobRow) (added : List JobRow) : Prop where
  continues : ∀ job, Continues job (f job)
  live : ∀ job, p job = true → JobRow.live (f job) = true →
    new = some (job.jobId, (f job).status)
  fresh : ∀ job ∈ added, job? db job.jobId = none ∧ job.status = .queued ∧
    new = some (job.jobId, .queued)
  single : added.length ≤ 1

theorem jobWrites_none : JobWrites db new (fun _ => false) id [] where
  continues := Continues.refl
  live := by simp
  fresh := by simp
  single := Nat.zero_le 1

theorem jobWrites_supersede {job : JobRow} {p : JobRow → Bool} {jobId now : String}
    (hid : job.jobId = jobId) (hfree : job? db jobId = none) (hstatus : job.status = .queued) :
    JobWrites db (some (jobId, .queued)) p
      (fun r => { r with status := .superseded, finishedAt := some now }) [job] where
  continues job := continues_status job _ _
  live := by simp [JobRow.live]
  fresh := by simp [hid, hfree, hstatus]
  single := by simp

theorem Change.jobs (h : Change db new db') :
    ∃ p f added, db'.jobs = updateWhere p f (db.jobs ++ added) ∧ JobWrites db new p f added := by
  have hkept : ∀ (jobs : List JobRow), jobs = updateWhere (fun _ => false) id (jobs ++ []) :=
    fun jobs => by rw [List.append_nil, updateWhere_of_none fun _ _ => rfl]
  cases h with
  | same | baseline | revised | advanced | published | recorded | swept =>
    exact ⟨_, _, _, hkept _, jobWrites_none⟩
  | created _ hnew =>
    refine ⟨fun _ => false, id, [_], (updateWhere_of_none fun _ _ => rfl).symm, ?_⟩
    exact ⟨Continues.refl, by simp, by simp [hnew], by simp⟩
  | edited _ _ _ _ _ hnew => exact ⟨_, _, _, rfl, jobWrites_supersede rfl hnew rfl⟩
  | minted _ _ _ hnew => exact ⟨_, _, _, rfl, jobWrites_supersede rfl hnew rfl⟩
  | reset =>
    refine ⟨_, _, [], by rw [List.append_nil]; rfl, ?_⟩
    exact ⟨fun job => continues_status job _ _, by simp [JobRow.live], by simp, Nat.zero_le 1⟩
  | marked jobId =>
    refine ⟨_, _, [], by rw [List.append_nil]; rfl, ?_⟩
    exact ⟨fun job => continues_status job _ _, by simp +contextual, by simp, Nat.zero_le 1⟩
  | finished jobId now hqueued hrunning =>
    refine ⟨_, _, [], by rw [List.append_nil]; rfl, ?_⟩
    exact ⟨fun job => continues_status job _ _, by simp [JobRow.live, hqueued, hrunning], by simp,
      Nat.zero_le 1⟩
  | requeued jobId from_ =>
    refine ⟨_, _, [], by rw [List.append_nil]; rfl, ?_⟩
    exact ⟨fun job => continues_status job _ _, by simp +contextual, by simp, Nat.zero_le 1⟩

theorem Change.job_from (h : Change db new db') {job : JobRow} (hjob : job ∈ db'.jobs) :
    (∃ old ∈ db.jobs, Continues old job ∧ (JobRow.live job = true → old.status = job.status ∨
      new = some (job.jobId, job.status))) ∨
    (job? db job.jobId = none ∧ (JobRow.live job = true → new = some (job.jobId, job.status))) := by
  obtain ⟨p, f, added, hjobs, hwrites⟩ := h.jobs
  rw [hjobs] at hjob
  obtain ⟨old, hold, hupdate⟩ := mem_updateWhere.mp hjob
  have hcontinues : Continues old job := by
    rw [← hupdate]
    split
    · exact hwrites.continues old
    · exact Continues.refl old
  have hstatus : JobRow.live job = true → old.status = job.status ∨
      new = some (job.jobId, job.status) := by
    intro hlive
    split at hupdate
    · rename_i hp
      subst hupdate
      exact Or.inr (hcontinues.jobId ▸ hwrites.live old hp hlive)
    · exact Or.inl (congrArg _ hupdate)
  rcases List.mem_append.mp hold with hold | hold
  · exact Or.inl ⟨old, hold, hcontinues, hstatus⟩
  · obtain ⟨hfree, hqueued, hnew⟩ := hwrites.fresh old hold
    refine Or.inr ⟨hcontinues.jobId ▸ hfree, fun hlive => ?_⟩
    rcases hstatus hlive with hsame | hnew'
    · rw [← hsame, hqueued, hcontinues.jobId, hnew]
    · exact hnew'

theorem Change.job_kept (h : Change db new db') {job : JobRow} (hjob : job ∈ db.jobs) :
    ∃ job' ∈ db'.jobs, Continues job job' := by
  obtain ⟨p, f, added, hjobs, hwrites⟩ := h.jobs
  refine ⟨if p job then f job else job, ?_, ?_⟩
  · rw [hjobs]
    exact mem_updateWhere.mpr ⟨job, List.mem_append_left _ hjob, rfl⟩
  · split
    · exact hwrites.continues job
    · exact Continues.refl job

theorem Snapshot.change {job : JobRow} (hjob : Snapshot db job)
    (h : Change (core db) new (core db')) : Snapshot db' job := by
  obtain ⟨row, hrow, hcontinues⟩ := hjob
  obtain ⟨row', hrow', hcontinues'⟩ := h.job_kept hrow
  exact ⟨row', hrow', hcontinues.trans hcontinues'⟩

theorem Change.unique (h : Change db new db') (hunique : UniqueJobs db) : UniqueJobs db' := by
  obtain ⟨p, f, added, hjobs, hwrites⟩ := h.jobs
  have hid : ∀ job, (f job).jobId = job.jobId := fun job => (hwrites.continues job).jobId
  match added, hwrites.single with
  | [], _ => exact hunique.updated (by rw [hjobs, List.append_nil]) hid
  | [job], _ => exact hunique.inserted (hwrites.fresh job (by simp)).1 hjobs hid

theorem Change.live (h : Change db new db') {job : JobRow} (hjob : job ∈ db'.jobs)
    (hlive : JobRow.live job = true) :
    (∃ old ∈ db.jobs, old.jobId = job.jobId ∧ old.status = job.status) ∨
      new = some (job.jobId, job.status) := by
  rcases h.job_from hjob with ⟨old, hold, hcontinues, hstatus⟩ | ⟨-, hnew⟩
  · rcases hstatus hlive with hstatus | hnew
    · exact Or.inl ⟨old, hold, hcontinues.jobId.symm, hstatus⟩
    · exact Or.inr hnew
  · exact Or.inr (hnew hlive)

end Rows

end Solweig.Runner
