import Solweig.Runner.Reconcile

/-!
# Retried mutations

A mutation that carries an idempotency key goes through at most once while its key is kept: the
first that goes through stores its response with the key, and every later one is answered with that
response, or refused where its body differs, and writes nothing.
-/

namespace Solweig.Runner

open Solweig.Lib Solweig.Realtime Solweig.Store Solweig.Jobs

/-! ## Keyed transactions -/

def sameKey (scope key : String) (row : IdempotencyRow) : Bool := row.scope = scope ∧ row.key = key

def keyRow? (db : Database) (scope key : String) : Option IdempotencyRow :=
  db.idempotencyKeys.find? fun r => r.scope = scope ∧ r.key = key

/-- What a call with a stored key is answered. -/
def retryAnswer (row : IdempotencyRow) (fingerprint : String) : StoreError :=
  if row.requestFingerprint = fingerprint then .idempotentReplay row.response
  else .idempotencyConflict row.key

/-- The row that a call with this response adds. -/
def keptRow (scope : String) (response : Option StoredResponse) :
    Option (String × String) → Option IdempotencyRow
  | none => none
  | some (key, requestFingerprint) =>
    response.map fun response => { scope, key, requestFingerprint, response }

/-- A transaction under a key: it stores its response where it goes through, changes nothing where
it does not, and does not run where the key is stored. -/
structure Keyed {α : Type} (scope : String) (keyed : Option (String × String))
    (response : α → Option StoredResponse) (m : Write α) : Prop where
  ok : ∀ {db db' a}, m db = (.ok a, db') → KeyFresh db scope keyed ∧
    db'.idempotencyKeys = db.idempotencyKeys ++ (keptRow scope (response a) keyed).toList
  error : ∀ {db db' e}, m db = (.error e, db') → db' = db
  stored : ∀ {db row key fingerprint}, keyed = some (key, fingerprint) →
    keyRow? db scope key = some row → m db = (.error (retryAnswer row fingerprint), db)

section Keyed

variable {scope : String} {keyed : Option (String × String)} {db db' : Database}

theorem keyRow?_key {key : String} {row : IdempotencyRow} (h : keyRow? db scope key = some row) :
    row.scope = scope ∧ row.key = key := by
  simpa using List.find?_some h

theorem checkIdempotency_stored {key fingerprint : String} {row : IdempotencyRow}
    (h : keyRow? db scope key = some row) :
    checkIdempotency scope (some (key, fingerprint)) db = (.error (retryAnswer row fingerprint), db) := by
  have hfind : db.idempotencyKeys.find? (fun r => r.scope = scope ∧ r.key = key) = some row := h
  have hkey := (keyRow?_key h).2
  simp only [checkIdempotency]
  rw [Txn.bind_of_ok (show Txn.get db = (.ok db, db) from rfl), hfind]
  unfold retryAnswer
  split
  · rename_i hsame
    simp [Txn.refuseIf, hsame, Txn.bind_of_ok (show Txn.ret () db = (.ok (), db) from rfl),
      Txn.throw]
  · rename_i hdiffers
    simp [Txn.refuseIf, hdiffers, hkey,
      Txn.bind_of_error (show Txn.throw _ db = (.error _, db) from rfl)]

theorem storeIdempotency_keys {response : StoredResponse} {u : Unit}
    (h : storeIdempotency scope response keyed db = (.ok u, db')) :
    db'.idempotencyKeys =
      db.idempotencyKeys ++ (keptRow scope (some response) keyed).toList := by
  cases keyed with
  | none =>
    obtain ⟨-, rfl⟩ := Txn.pure_ok.mp h
    simp [keptRow]
  | some kf =>
    obtain ⟨key, fingerprint⟩ := kf
    simp only [storeIdempotency, Txn.modify_ok] at h
    subst h
    simp [keptRow]

theorem keyed_atomically {α : Type} {response : α → Option StoredResponse} {rest : Write α}
    (hrest : ∀ {db db' a}, rest db = (.ok a, db') → db'.idempotencyKeys =
      db.idempotencyKeys ++ (keptRow scope (response a) keyed).toList) :
    Keyed scope keyed response (Txn.atomically do
      checkIdempotency scope keyed
      rest) where
  ok h := by
    simp only [Txn.atomically_ok, Txn.bind_ok, checkIdempotency_ok] at h
    obtain ⟨_, _, ⟨hfresh, rfl⟩, h⟩ := h
    exact ⟨hfresh, hrest h⟩
  error h := Txn.atomically_error h
  stored hkeyed hrow := by
    subst hkeyed
    unfold Txn.atomically
    rw [Txn.bind_of_error (checkIdempotency_stored hrow)]

end Keyed

/-! ## The four mutations -/

section Mutations

variable {db db' : Database}

theorem publishResultLocked_keys {scenarioId checksum now : String} {version : Nat} {exact : Bool}
    {jobId : Option String} {acked : Option Nat} {u : Unit}
    (h : publishResultLocked scenarioId version checksum exact jobId acked now db = (.ok u, db')) :
    db'.idempotencyKeys = db.idempotencyKeys := by
  obtain ⟨row, -, -, -, rfl⟩ := publishResultLocked_ok.mp h
  split <;> rfl

theorem createBaseline_keys {scenarioId jobId now : String} {new : Option String}
    {publisher : Option (String → Nat → Except StoreError String)}
    (h : createBaseline scenarioId jobId publisher now db = (.ok new, db')) :
    db'.idempotencyKeys = db.idempotencyKeys := by
  cases publisher with
  | none =>
    simp only [createBaseline, insertJob, Txn.bind_ok, Txn.modify_ok, Txn.pure_ok] at h
    obtain ⟨_, _, rfl, -, rfl⟩ := h
    rfl
  | some publisher =>
    simp only [createBaseline, Txn.bind_ok, Txn.ofExcept_ok, Txn.pure_ok] at h
    obtain ⟨checksum, _, ⟨-, rfl⟩, _, _, hpublish, -, rfl⟩ := h
    exact publishResultLocked_keys hpublish

def CreateOutcome.response (respond : ScenarioRow → Option String → StoredResponse) :
    CreateOutcome → Option StoredResponse
  | .quotaExceeded => none
  | .created row jobId => some (respond row jobId)

theorem createScenario_keyed {request : CreateRequest} {jobId now : String}
    {publisher : Option (String → Nat → Except StoreError String)}
    {respond : ScenarioRow → Option String → StoredResponse} :
    Keyed "_create" (idempotency? request.idempotencyKey request.requestFingerprint)
      (CreateOutcome.response respond) (createScenario request jobId publisher now respond) := by
  apply keyed_atomically
  intro db db' outcome h
  simp only [Txn.bind_ok, Txn.get_ok] at h
  obtain ⟨_, _, ⟨rfl, rfl⟩, h⟩ := h
  split at h
  · obtain ⟨rfl, rfl⟩ := Txn.pure_ok.mp h
    simp [CreateOutcome.response, keptRow]
    split <;> rfl
  · simp only [Txn.bind_ok, insertScenario, Txn.get_ok, Txn.refuseIf_ok, Txn.modify_ok,
      requireScenario, Txn.require_ok, Txn.pure_ok] at h
    obtain ⟨_, _, ⟨_, _, ⟨rfl, rfl⟩, _, _, ⟨-, rfl⟩, rfl⟩, new, _, hbaseline, record, _,
      ⟨_, _, ⟨rfl, rfl⟩, -, rfl⟩, _, _, hstore, rfl, rfl⟩ := h
    rw [storeIdempotency_keys hstore, createBaseline_keys hbaseline]
    rfl

theorem commitBatch_keyed {request : EditRequest} {apply : Nat → Write Nat} {carries : Bool}
    {jobId now : String} {respond : ScenarioRow → String → StoredResponse}
    (happly : ∀ n, Txn.Keeps Database.idempotencyKeys (apply n)) :
    Keyed request.scenarioId (idempotency? request.idempotencyKey request.requestFingerprint)
      (fun out : ScenarioRow × String => some (respond out.1 out.2))
      (commitBatch request apply carries jobId now respond) := by
  apply keyed_atomically
  intro db db' out h
  simp only [Txn.bind_ok, requireScenario, Txn.get_ok, Txn.require_ok, Txn.refuseIf_ok,
    insertJob, supersedeQueued, Txn.modify_ok, Txn.pure_ok] at h
  obtain ⟨row, _, ⟨_, _, ⟨rfl, rfl⟩, -, rfl⟩, _, _, ⟨-, rfl⟩, n, _, hevents, _, _, rfl, _, _, rfl,
    _, _, rfl, record, _, ⟨_, _, ⟨rfl, rfl⟩, -, rfl⟩, _, _, hstore, rfl, rfl⟩ := h
  have hkept := (happly _).ok hevents
  rw [storeIdempotency_keys hstore, ← hkept]
  rfl

theorem resetScenario_keyed {request : ResetRequest} {eventId now : String}
    {publisher : String → Nat → Except StoreError String}
    {respond : ScenarioRow → StoredResponse} :
    Keyed request.scenarioId (idempotency? request.idempotencyKey request.requestFingerprint)
      (fun row => some (respond row)) (resetScenario request eventId publisher now respond) := by
  apply keyed_atomically
  intro db db' record h
  simp only [Txn.bind_ok, requireScenario, Txn.get_ok, Txn.require_ok, Txn.refuseIf_ok,
    Txn.modify_ok, Txn.ofExcept_ok, supersedeQueued, Txn.pure_ok] at h
  obtain ⟨row, _, ⟨_, _, ⟨rfl, rfl⟩, -, rfl⟩, _, _, ⟨-, rfl⟩, _, _, rfl, _, _, rfl, checksum, _,
    ⟨-, rfl⟩, _, _, rfl, _, _, hpublish, _, _, rfl, record, _, ⟨_, _, ⟨rfl, rfl⟩, -, rfl⟩, _, _,
    hstore, rfl, rfl⟩ := h
  have hkept := publishResultLocked_keys hpublish
  rw [storeIdempotency_keys hstore]
  exact congrArg (· ++ _) hkept

end Mutations

/-! ## Calls -/

/-- The scope, the key and the fingerprint of the body of a mutation that carries a key. -/
def RunnerCall.keyed? : RunnerCall → Option (String × String × String)
  | .createScenario request _ _ _ _ =>
    (idempotency? request.idempotencyKey request.requestFingerprint).map ("_create", ·)
  | .commitEdits request _ _ _ _ | .commitUniversalEdits request _ _ _ _ =>
    (idempotency? request.idempotencyKey request.requestFingerprint).map (request.scenarioId, ·)
  | .resetScenario request _ _ _ _ =>
    (idempotency? request.idempotencyKey request.requestFingerprint).map (request.scenarioId, ·)
  | _ => none

/-- What the caller of a mutation gets: its response, or an error. -/
def RunnerCall.answer (db : Database) : RunnerCall → Except StoreError (Option StoredResponse)
  | .createScenario request jobId publisher now respond =>
    (Store.createScenario request jobId publisher now respond db).1.map
      (CreateOutcome.response respond)
  | .commitEdits request edits jobId now respond =>
    (Store.commitEdits request edits jobId now respond db).1.map
      fun out => some (respond out.1 out.2)
  | .commitUniversalEdits request edits jobId now respond =>
    (Store.commitUniversalEdits request edits jobId now respond db).1.map
      fun out => some (respond out.1 out.2)
  | .resetScenario request eventId publisher now respond =>
    (Store.resetScenario request eventId publisher now respond db).1.map
      fun row => some (respond row)
  | _ => .ok none

/-- The row that the call adds. -/
def RunnerCall.keeps? (db : Database) (call : RunnerCall) : Option IdempotencyRow :=
  match call.keyed?, call.answer db with
  | some (scope, keyed), .ok response => keptRow scope response (some keyed)
  | _, _ => none

section Calls

variable {db : Database} {call : RunnerCall}

/-- What a call does under its key. -/
structure Called (db : Database) (call : RunnerCall) : Prop where
  keys : (call.run db).1.idempotencyKeys = db.idempotencyKeys ++ (call.keeps? db).toList
  fresh : ∀ row ∈ call.keeps? db, keyRow? db row.scope row.key = none
  stored : ∀ {scope key fingerprint row}, call.keyed? = some (scope, key, fingerprint) →
    keyRow? db scope key = some row →
      call.answer db = .error (retryAnswer row fingerprint) ∧ call.run db = (db, none)

theorem keptRow_fresh {scope : String} {response : Option StoredResponse}
    {keyed : Option (String × String)} (hfresh : KeyFresh db scope keyed) {row : IdempotencyRow}
    (hrow : row ∈ keptRow scope response keyed) : keyRow? db row.scope row.key = none := by
  cases keyed with
  | none => cases hrow
  | some kf =>
    obtain ⟨response, -, rfl⟩ := Option.map_eq_some_iff.mp hrow
    exact hfresh kf.1 kf.2 rfl

theorem called_of_keyed {α : Type} {scope : String} {keyed : Option (String × String)}
    {response : α → Option StoredResponse} {m : Write α} (hm : Keyed scope keyed response m)
    (hkeyed : call.keyed? = keyed.map (scope, ·))
    (hanswer : call.answer db = (m db).1.map response) (hrun : (call.run db).1 = (m db).2)
    (herror : ∀ e, (m db).1 = .error e → (call.run db).2 = none) : Called db call := by
  rcases h : m db with ⟨e | a, db'⟩
  · obtain rfl := hm.error h
    rw [h] at hanswer hrun
    have hnone : call.keeps? db' = none := by
      simp only [RunnerCall.keeps?, hanswer, Except.map]
      cases call.keyed? <;> rfl
    refine ⟨by rw [hrun, hnone]; simp, by rw [hnone]; simp, ?_⟩
    intro s key fingerprint row hcall hrow
    rw [hkeyed] at hcall
    obtain ⟨kf, hkf, heq⟩ := Option.map_eq_some_iff.mp hcall
    obtain ⟨rfl, rfl⟩ := Prod.mk.inj heq
    have hstored := hm.stored hkf hrow
    rw [h] at hstored
    obtain rfl := Except.error.inj (Prod.mk.inj hstored).1
    exact ⟨hanswer, Prod.ext hrun (herror _ (by rw [h]))⟩
  · obtain ⟨hfresh, hkeys⟩ := hm.ok h
    rw [h] at hanswer hrun
    have hkeeps : call.keeps? db = keptRow scope (response a) keyed := by
      simp only [RunnerCall.keeps?, hanswer, hkeyed, Except.map]
      cases keyed <;> rfl
    refine ⟨by rw [hrun, hkeeps, hkeys], ?_, ?_⟩
    · rw [hkeeps]
      exact fun row hrow => keptRow_fresh hfresh hrow
    · intro s key fingerprint row hcall hrow
      rw [hkeyed] at hcall
      obtain ⟨kf, hkf, heq⟩ := Option.map_eq_some_iff.mp hcall
      obtain ⟨rfl, rfl⟩ := Prod.mk.inj heq
      have hstored := hm.stored hkf hrow
      rw [h] at hstored
      cases (Prod.mk.inj hstored).1

theorem commitEpochReduction_keys {workspaceId now : String} {epochId : Nat}
    {families : Families} {baseline : Option Nat} :
    (commitEpochReduction workspaceId epochId families baseline now db).2.idempotencyKeys =
      db.idempotencyKeys := by
  have hspec : Commit workspaceId epochId families baseline now db _ _ := commitEpochReduction_spec
  generalize commitEpochReduction workspaceId epochId families baseline now db = out at hspec ⊢
  obtain ⟨o, db'⟩ := out
  cases hspec <;> rfl

theorem advanceFastRevision_keys {workspaceId now : String} {revision observed : Nat} :
    (advanceFastRevision workspaceId revision observed now db).2.idempotencyKeys =
      db.idempotencyKeys := by
  rcases advanceFastRevision_scenarios with ⟨-, hdb⟩ | ⟨row, -, -, hdb⟩
  · rw [hdb]
  · rw [hdb]
    rfl

theorem called_of_unkeyed (hkeyed : call.keyed? = none)
    (hrun : (call.run db).1.idempotencyKeys = db.idempotencyKeys) : Called db call := by
  have hnone : call.keeps? db = none := by simp [RunnerCall.keeps?, hkeyed]
  exact ⟨by simp [hrun, hnone], by simp [hnone], by simp [hkeyed]⟩

theorem RunnerCall.called (db : Database) (call : RunnerCall) : Called db call := by
  cases call with
  | createScenario request jobId publisher now respond =>
    refine called_of_keyed createScenario_keyed rfl rfl ?_ fun e he => ?_
    · simp only [RunnerCall.run]
      split <;> simp [*]
    · simp only [RunnerCall.run]
      split
      · simp_all
      · rfl
  | commitEdits request edits jobId now respond =>
    refine called_of_keyed (commitBatch_keyed fun n =>
      keeps_applyTreeEdits (fun _ _ => rfl) (fun _ _ => rfl) _ _ _ _) rfl rfl ?_ fun e he => ?_
    · simp only [RunnerCall.run]
      split <;> simp_all [Store.commitEdits]
    · simp only [RunnerCall.run]
      split <;> simp_all [Store.commitEdits]
  | commitUniversalEdits request edits jobId now respond =>
    refine called_of_keyed (commitBatch_keyed fun n =>
      keeps_applyFamilyEdits (fun _ _ => rfl) _ _ _ _) rfl rfl ?_ fun e he => ?_
    · simp only [RunnerCall.run]
      split <;> simp_all [Store.commitUniversalEdits]
    · simp only [RunnerCall.run]
      split <;> simp_all [Store.commitUniversalEdits]
  | resetScenario request eventId publisher now respond =>
    exact called_of_keyed resetScenario_keyed rfl rfl rfl fun _ _ => rfl
  | appendOperations workspaceId items now =>
    exact called_of_unkeyed rfl
      (keeps_appendOperations (fun _ _ => rfl) (fun _ _ => rfl) workspaceId items now db)
  | commitEpochReduction workspaceId epochId families baseline now =>
    exact called_of_unkeyed rfl commitEpochReduction_keys
  | advanceFastRevision workspaceId revision observed now =>
    exact called_of_unkeyed rfl advanceFastRevision_keys
  | markEpochStatus _ _ _ _ _ | requeueFailedJob _ => exact called_of_unkeyed rfl rfl

end Calls

/-! ## Steps -/

section Steps

variable {db : Database} {r r' : JobRunner} {event : RunnerEvent}

theorem publishResult_keys {scenarioId checksum now : String} {version : Nat} {exact : Bool}
    {jobId : Option String} {acked : Option Nat} {o : Except StoreError Unit} {db' : Database}
    (h : publishResult scenarioId version checksum exact jobId acked now db = (o, db')) :
    db'.idempotencyKeys = db.idempotencyKeys := by
  unfold publishResult at h
  cases o with
  | error e => rw [Txn.atomically_error h]
  | ok u =>
    rw [Txn.atomically_ok, Txn.bind_ok] at h
    obtain ⟨_, _, hcheck, hlocked⟩ := h
    obtain ⟨-, rfl⟩ := requireRunning_ok.mp hcheck
    exact publishResultLocked_keys hlocked

theorem finalizeStep_keys (call : FinalizeCall) (now : String) (place : FinalizeAt) :
    (finalizeStep call now db place).1.idempotencyKeys = db.idempotencyKeys := by
  cases place with
  | liveness | mint | markComplete | fence | source version | finish outcome => rfl
  | version =>
    simp only [finalizeStep]
    split
    · rfl
    · split <;> rfl
  | publish =>
    simp only [finalizeStep]
    split <;> exact publishResult_keys ‹_›
  | compare =>
    simp only [finalizeStep]
    split <;> rfl
  | latest =>
    simp only [finalizeStep]
    split
    · rfl
    · split <;> rfl
  | republish version source =>
    cases source with
    | none => rfl
    | some row =>
      simp only [finalizeStep, republishResultAtVersion]
      split <;> exact publishResult_keys ‹_›
  | consume outcome =>
    simp only [finalizeStep]
    split <;> rfl
  | settle rest outcome => cases rest <;> rfl

theorem mintExact_keys {workspaceId jobId now : String} {reconcile : Bool}
    {records : List EpochRow} {consumed : Consumed} :
    Txn.Keeps Database.idempotencyKeys
      (mintExact workspaceId jobId reconcile records consumed now) := by
  apply Txn.Keeps.atomically
  refine Txn.keeps_get.bind fun db => ?_
  split
  · exact Txn.keeps_pure _
  · split
    · exact Txn.keeps_pure _
    · split
      · exact Txn.keeps_pure _
      · exact Txn.Keeps.bind (fun _ => rfl) fun _ => Txn.Keeps.bind (fun _ => rfl) fun _ =>
          Txn.keeps_pure _

theorem tickStep_keys (w : String) (reconcile : Bool) (input : TickInput) (s : RunnerState)
    (place : TickAt) :
    (tickStep w reconcile input s place).1.db.idempotencyKeys = s.db.idempotencyKeys := by
  cases place with
  | records newest =>
    simp only [tickStep]
    split
    · rfl
    · split <;> rfl
  | audience records newest =>
    simp only [tickStep]
    split <;> rfl
  | bootstrap records => exact pinBootstrap_keeps (fun _ _ => rfl) w input.now input.pin
  | mint records =>
    have hkeys : Txn.Keeps Database.idempotencyKeys (mintExact w input.jobId reconcile records
      (consumedOf records) input.now) := mintExact_keys
    simp only [tickStep]
    split <;> exact hkeys.ended ‹_›
  | _ => rfl

theorem TickWork.step_keys (work : TickWork) (input : TickInput) (s : RunnerState) :
    (work.step input s).1.db.idempotencyKeys = s.db.idempotencyKeys := by
  unfold TickWork.step
  split
  · exact tickStep_keys _ false input s _
  · split <;> rfl

theorem reconcileStep_keys (input : WorkerInput) (scan : ReconcileScan) (w : String)
    (epochs : List EpochRow) (s : RunnerState) (memory : ReconcileMemory) (place : ReconcileAt) :
    (reconcileStep input scan w epochs s memory place).1.db.idempotencyKeys =
      s.db.idempotencyKeys := by
  cases place with
  | audience =>
    simp only [reconcileStep]
    split
    · rfl
    · split <;> rfl
  | books =>
    simp only [reconcileStep]
    split
    · rfl
    · split <;> rfl
  | scenario =>
    simp only [reconcileStep]
    split
    · split <;> rfl
    · rfl
  | tick place => exact tickStep_keys w true input.tick s place

theorem scanStep_keys {jobId now : String} {dispatched : Option JobRow} {s s' : RunnerState}
    {place : ScanAt} {worker : WorkerAt}
    (hstep : scanStep jobId dispatched now s place = some (s', worker)) :
    s'.db.idempotencyKeys = s.db.idempotencyKeys := by
  cases place with
  | job =>
    simp only [scanStep] at hstep
    split at hstep
    · exact (Prod.mk.inj (Option.some.inj hstep)).1 ▸ rfl
    · split at hstep
      · exact (Prod.mk.inj (Option.some.inj hstep)).1 ▸ rfl
      · split at hstep
        all_goals exact (Prod.mk.inj (Option.some.inj hstep)).1 ▸ rfl
  | current job =>
    obtain ⟨scenario, -, hstep⟩ := Option.map_eq_some_iff.mp hstep
    split at hstep
    all_goals exact (Prod.mk.inj hstep).1 ▸ rfl
  | others job =>
    simp only [scanStep] at hstep
    split at hstep
    all_goals exact (Prod.mk.inj (Option.some.inj hstep)).1 ▸ rfl
  | finish job => exact (Prod.mk.inj (Option.some.inj hstep)).1 ▸ rfl

theorem workerStep_keys {input : WorkerInput} (hstep : workerStep input r = some r') :
    r'.state.db.idempotencyKeys = r.state.db.idempotencyKeys := by
  unfold workerStep at hstep
  cases hworker : r.worker with
  | tick work =>
    simp only [hworker, Option.some.injEq] at hstep
    subst hstep
    exact work.step_keys input.tick r.state
  | settling job settlement =>
    cases settlement
    all_goals
      simp only [hworker, Option.some.injEq] at hstep
      subst hstep
      rfl
  | reconciling scan =>
    simp only [hworker] at hstep
    split at hstep
    · obtain rfl := Option.some.inj hstep
      exact reconcileStep_keys input scan _ _ r.state r.memory _
    · split at hstep
      all_goals
        obtain rfl := Option.some.inj hstep
        rfl
  | scan jobId dispatched place =>
    simp only [hworker] at hstep
    obtain ⟨⟨s', worker⟩, hscan, rfl⟩ := Option.map_eq_some_iff.mp hstep
    exact scanStep_keys hscan
  | booting rest =>
    cases rest with
    | nil =>
      simp only [hworker, Option.some.injEq] at hstep
      subst hstep
      rfl
    | cons job rest =>
      simp only [hworker] at hstep
      split at hstep
      all_goals
        obtain rfl := Option.some.inj hstep
        rfl
  | dispatch jobId =>
    simp only [hworker] at hstep
    split at hstep
    all_goals
      obtain rfl := Option.some.inj hstep
      rfl
  | solving job =>
    simp only [hworker] at hstep
    split at hstep
    all_goals
      obtain rfl := Option.some.inj hstep
      rfl
  | finalizing call mode place =>
    simp only [hworker] at hstep
    have hkeys : (finalizeStep call input.tick.now r.state.db place).1.idempotencyKeys =
        r.state.db.idempotencyKeys := finalizeStep_keys call _ place
    split at hstep
    · rename_i db next hfinalize
      obtain rfl := Option.some.inj hstep
      rwa [hfinalize] at hkeys
    · rename_i db hfinalize
      split at hstep
      all_goals obtain rfl := Option.some.inj hstep
      · rfl
      · rwa [hfinalize] at hkeys
  | down | idle | dead => simp [hworker] at hstep
  | _ =>
    simp only [hworker, Option.some.injEq] at hstep
    subst hstep
    rfl

theorem clientStep_keys {input : ClientInput} {s s' : RunnerState} {place place' : ClientAt}
    (hstep : clientStep input s place = some (s', place')) :
    s'.db.idempotencyKeys = s.db.idempotencyKeys := by
  cases place with
  | free => cases hstep
  | tick jobId work =>
    obtain rfl := (Prod.mk.inj (Option.some.inj hstep)).1
    exact work.step_keys input.tick s
  | funnel jobId =>
    simp only [clientStep] at hstep
    split at hstep
    all_goals obtain rfl := (Prod.mk.inj (Option.some.inj hstep)).1
    · rfl
    · rename_i workspaceId items hfunnelled
      have hkeeps : Txn.Keeps Database.idempotencyKeys
          (appendOperations workspaceId items input.tick.now) :=
        keeps_appendOperations (fun _ _ => rfl) (fun _ _ => rfl) _ _ _
      exact hkeeps s.db
  | cancelling jobId place =>
    obtain rfl := (Prod.mk.inj (Option.some.inj hstep)).1
    cases place <;> rfl
  | scan jobId | put jobId =>
    obtain rfl := (Prod.mk.inj (Option.some.inj hstep)).1
    rfl

/-- The row that a step adds to the keys. -/
def keptBy? (r : JobRunner) : RunnerEvent → Option IdempotencyRow
  | .call _ call => call.keeps? r.state.db
  | _ => none

def expires : RunnerEvent → IdempotencyRow → Bool
  | .sweep expired _ => expired
  | _ => fun _ => false

theorem runnerStep_keys (hstep : runnerStep r event = some r') :
    r'.state.db.idempotencyKeys =
      (r.state.db.idempotencyKeys.filter fun row => ¬ expires event row) ++
        (keptBy? r event).toList := by
  unfold runnerStep at hstep
  split at hstep
  · cases hstep
  cases event with
  | work input => simpa [expires, keptBy?] using workerStep_keys hstep
  | workFails => simp [expires, keptBy?, workerRaise_state hstep]
  | serve i input =>
    obtain ⟨⟨s', place'⟩, hserve, rfl⟩ := Option.map_eq_some_iff.mp hstep
    simpa [expires, keptBy?, JobRunner.client] using clientStep_keys hserve
  | serveFails i =>
    obtain ⟨place', -, rfl⟩ := Option.map_eq_some_iff.mp hstep
    simp [expires, keptBy?, JobRunner.client]
  | crash =>
    obtain rfl := Option.some.inj hstep
    simp [expires, keptBy?]
  | call i call =>
    simp only at hstep
    split at hstep
    · obtain rfl := Option.some.inj hstep
      simpa [expires, keptBy?, JobRunner.client] using (call.called r.state.db).keys
    · cases hstep
  | sweep expired eventTail =>
    simp only at hstep
    split at hstep
    · obtain rfl := Option.some.inj hstep
      simp [expires, keptBy?, sweepRetention, Txn.modify]
    · cases hstep
  | start | cancel i jobId | take | poll =>
    simp only at hstep
    split at hstep
    · obtain rfl := Option.some.inj hstep
      simp [expires, keptBy?, JobRunner.client, JobRunner.working]
    · cases hstep
  | reconcile today now =>
    simp only at hstep
    split at hstep
    · split at hstep
      · obtain rfl := Option.some.inj hstep
        simp [expires, keptBy?]
      · cases hstep
    · cases hstep

end Steps

/-! ## Runs -/

section Runs

variable {r r' : JobRunner} {event : RunnerEvent}

theorem find?_filter_kept {p q : IdempotencyRow → Bool} {rows : List IdempotencyRow}
    {row : IdempotencyRow} (hfind : rows.find? p = some row) (hq : q row = true) :
    (rows.filter q).find? p = some row := by
  induction rows with
  | nil => cases hfind
  | cons first rows ih =>
    rw [List.find?_cons] at hfind
    cases hp : p first with
    | true =>
      rw [hp] at hfind
      obtain rfl := Option.some.inj hfind
      simp [hq, hp]
    | false =>
      rw [hp] at hfind
      have hrest := ih hfind
      cases hfirst : q first <;> simp [hfirst, hp, hrest]

theorem runnerStep_keyRow {scope key : String} {row : IdempotencyRow}
    (hrow : keyRow? r.state.db scope key = some row) (hkept : expires event row = false)
    (hstep : runnerStep r event = some r') : keyRow? r'.state.db scope key = some row := by
  unfold keyRow? at hrow ⊢
  rw [runnerStep_keys hstep, List.find?_append, find?_filter_kept hrow (by simp [hkept])]
  rfl

theorem runnerStep_adds {row : IdempotencyRow} (hadds : keptBy? r event = some row)
    (hstep : runnerStep r event = some r') : keyRow? r'.state.db row.scope row.key = some row := by
  cases event with
  | call i call =>
    have hfresh := (call.called r.state.db).fresh row hadds
    have hkeys := runnerStep_keys hstep
    have hall : (r.state.db.idempotencyKeys.filter fun row => ¬ expires (.call i call) row) =
        r.state.db.idempotencyKeys := by simp [expires]
    unfold keyRow? at hfresh ⊢
    rw [hkeys, hadds, hall, List.find?_append, hfresh]
    simp
  | _ => cases hadds

/-- Once a mutation has gone through under its key, the same key gets its response, and nothing is
written, at any later time: whatever other threads have done in between, through crashes and
restarts, and until a sweep takes the row. -/
theorem retry_replays {i : Nat} {call retry : RunnerCall} {before : JobRunner}
    {events : List RunnerEvent} {row : IdempotencyRow} {fingerprint : String}
    (hcall : call.keeps? before.state.db = some row)
    (hstep : runnerStep before (.call i call) = some r)
    (hkept : EachStep runnerStep (fun _ event => expires event row = false) r events)
    (hrun : run runnerStep r events = some r')
    (hretry : retry.keyed? = some (row.scope, row.key, fingerprint)) :
    retry.answer r'.state.db = .error
        (if row.requestFingerprint = fingerprint then .idempotentReplay row.response
          else .idempotencyConflict row.key) ∧
      retry.run r'.state.db = (r'.state.db, none) := by
  have hadds : keptBy? before (.call i call) = some row := hcall
  have hrow : keyRow? r'.state.db row.scope row.key = some row :=
    run_invariant (fun _ _ _ hrow hkept hstep => runnerStep_keyRow hrow hkept hstep)
      (runnerStep_adds hadds hstep) hkept hrun
  exact (retry.called r'.state.db).stored hretry hrow

/-- No sweep takes a row of this key. -/
def KeepsKey (scope key : String) (r : JobRunner) (event : RunnerEvent) : Prop :=
  ∀ row ∈ r.state.db.idempotencyKeys, sameKey scope key row = true → expires event row = false

instance (scope key : String) (r : JobRunner) (event : RunnerEvent) :
    Decidable (KeepsKey scope key r event) :=
  inferInstanceAs (Decidable (∀ row ∈ _, _ → _))

theorem keptBy?_fresh {row stored : IdempotencyRow} (hadds : keptBy? r event = some row) :
    keyRow? r.state.db row.scope row.key ≠ some stored := by
  cases event with
  | call i call =>
    have hfresh := (call.called r.state.db).fresh row hadds
    rw [hfresh]
    simp
  | _ => cases hadds

/-- At most one mutation of a run goes through under a key, however many carry it, from whatever
state and on whatever threads, as long as no sweep takes the row of the key. -/
theorem keyed_mutation_once {scope key : String} {events : List RunnerEvent}
    (hkept : EachStep runnerStep (KeepsKey scope key) r events) :
    ((collect keptBy? r events).filter (sameKey scope key)).length ≤ 1 := by
  -- none goes through where the key is stored
  have hstored : ∀ (events : List RunnerEvent) (r : JobRunner) (row : IdempotencyRow),
      keyRow? r.state.db scope key = some row →
      EachStep runnerStep (KeepsKey scope key) r events →
      (collect keptBy? r events).filter (sameKey scope key) = [] := by
    intro events
    induction events with
    | nil => exact fun _ _ _ _ => rfl
    | cons event events ih =>
      intro r row hrow hkept
      simp only [collect]
      cases hstep : runnerStep r event with
      | none => rfl
      | some r' =>
        have hsame : sameKey scope key row = true := by
          simpa [sameKey] using keyRow?_key hrow
        have hexpires := hkept.1 row (List.mem_of_find?_eq_some hrow) hsame
        have hnone : (keptBy? r event).toList.filter (sameKey scope key) = [] := by
          refine List.filter_eq_nil_iff.mpr fun added hadds hsame => ?_
          obtain ⟨rfl, rfl⟩ : added.scope = scope ∧ added.key = key := by simpa [sameKey] using hsame
          exact keptBy?_fresh (Option.mem_toList.mp hadds) hrow
        rw [List.filter_append, hnone, List.nil_append]
        exact ih r' row (runnerStep_keyRow hrow hexpires hstep) (hkept.2 r' hstep)
  induction events generalizing r with
  | nil => simp [collect]
  | cons event events ih =>
    simp only [collect]
    cases hstep : runnerStep r event with
    | none => simp
    | some r' =>
      rw [List.filter_append, List.length_append]
      by_cases hadds : ∃ row, keptBy? r event = some row ∧ sameKey scope key row = true
      · obtain ⟨row, hadds, hsame⟩ := hadds
        obtain ⟨rfl, rfl⟩ : row.scope = scope ∧ row.key = key := by simpa [sameKey] using hsame
        rw [hstored events r' row (runnerStep_adds hadds hstep) (hkept.2 r' hstep), hadds]
        simp [hsame]
      · have hnone : (keptBy? r event).toList.filter (sameKey scope key) = [] :=
          List.filter_eq_nil_iff.mpr fun row hrow hsame =>
            hadds ⟨row, Option.mem_toList.mp hrow, hsame⟩
        rw [hnone, List.length_nil, Nat.zero_add]
        exact ih (hkept.2 r' hstep)

end Runs

/-! ### A retry after a crash -/

def keyedEdit (jobId fingerprint : String) : RunnerCall :=
  .commitEdits
    { scenarioId := "w", baseSceneVersion := 0, requested := .obj [], idempotencyKey := some "k",
      requestFingerprint := some fingerprint }
    [("e1", { operation := "add", treeId := "t1", oldTree := none, newTree := some (.obj []) })]
    jobId "t1" respondJob

/-- The edit goes through, the process ends before its job is put, and the client sends it again. -/
def retriedEdit : List RunnerEvent :=
  [.crash, .start, quietWork, quietWork, .call 0 (keyedEdit "j2" "f")]

theorem keyed_mutation_once_retried :
    ((collect keptBy? (.before oneScenario) (.start :: .call 0 (keyedEdit "j1" "f") ::
      retriedEdit)).filter (sameKey "w" "k")).length ≤ 1 :=
  keyed_mutation_once (by decide)

theorem retry_replays_crash :
    ∃ (r r' : JobRunner) (row : IdempotencyRow),
      (keyedEdit "j1" "f").keeps? oneScenario = some row ∧
      runnerStep (.before oneScenario) (.call 0 (keyedEdit "j1" "f")) = some r ∧
      run runnerStep r (retriedEdit.take 4) = some r' ∧
      (keyedEdit "j2" "f").answer r'.state.db = .error
        (if row.requestFingerprint = "f" then .idempotentReplay row.response
          else .idempotencyConflict row.key) ∧
      (keyedEdit "j2" "f").run r'.state.db = (r'.state.db, none) := by
  have hrow : ((keyedEdit "j1" "f").keeps? oneScenario).map (fun row =>
      decide (row.scope = "w" ∧ row.key = "k")) = some true := by decide
  obtain ⟨row, hrow, hsame⟩ := Option.map_eq_some_iff.mp hrow
  obtain ⟨hscope, hkey⟩ : row.scope = "w" ∧ row.key = "k" := of_decide_eq_true hsame
  have hrun : ((runnerStep (.before oneScenario) (.call 0 (keyedEdit "j1" "f"))).bind fun r =>
      run runnerStep r (retriedEdit.take 4)).isSome := by decide
  obtain ⟨r', hr'⟩ := Option.isSome_iff_exists.mp hrun
  obtain ⟨r, hstep, hrun⟩ := Option.bind_eq_some_iff.mp hr'
  refine ⟨r, r', row, hrow, hstep, hrun, retry_replays hrow hstep ?_ hrun ?_⟩
  · simp [retriedEdit, EachStep, expires, quietWork]
  · simp [keyedEdit, RunnerCall.keyed?, idempotency?, hscope, hkey]

end Solweig.Runner
