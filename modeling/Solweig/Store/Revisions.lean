import Solweig.Lib.Run
import Solweig.Store.Commit
import Solweig.Store.Scenarios

/-!
# The revision triple

`exact_result_version ≤ fast_revision ≤ scene_version` over the seven mutators. What each of them
does to the scenario rows is said once, and then which of them can break the order.
-/

namespace Solweig.Store

open Solweig.Lib Solweig.Realtime

/-! ## Scenario rows under an update -/

section Rows

variable {db : Database} {w id : String} {f : ScenarioRow → ScenarioRow}

theorem scenario?_updateScenario (hf : ∀ r, (f r).scenarioId = r.scenarioId) :
    scenario? (updateScenario id f db) w =
      if w = id then (scenario? db w).map f else scenario? db w := by
  unfold scenario? updateScenario
  induction db.scenarios with
  | nil => simp [updateWhere]
  | cons r rows ih =>
    have hkey : (if r.scenarioId = id then f r else r).scenarioId = r.scenarioId := by
      split
      · exact hf r
      · rfl
    simp only [updateWhere, List.map_cons, List.find?_cons, decide_eq_true_eq, hkey] at ih ⊢
    by_cases hr : r.scenarioId = w
    · subst hr
      simp only [decide_true, Option.map_some]
      split <;> rfl
    · simp only [hr, decide_false]
      exact ih

theorem scenario?_congr {db' : Database} (h : db'.scenarios = db.scenarios) (w : String) :
    scenario? db' w = scenario? db w := by
  rw [scenario?, h, scenario?]

end Rows

/-! ## The order of the triple -/

def ScenarioRow.Ordered (row : ScenarioRow) : Prop :=
  row.exactResultVersion ≤ row.fastRevision ∧ row.fastRevision ≤ row.sceneVersion

instance (row : ScenarioRow) : Decidable row.Ordered := inferInstanceAs (Decidable (_ ∧ _))

def RevisionsOrdered (db : Database) : Prop :=
  ∀ w row, scenario? db w = some row → row.Ordered

theorem revisionsOrdered_update {db db' : Database} {id : String} {row : ScenarioRow}
    {f : ScenarioRow → ScenarioRow} (h : RevisionsOrdered db)
    (hrow : scenario? db id = some row)
    (hdb : db'.scenarios = (updateScenario id f db).scenarios)
    (hf : ∀ r, (f r).scenarioId = r.scenarioId) :
    RevisionsOrdered db' ↔ (f row).Ordered := by
  have hfind : ∀ w, scenario? db' w = if w = id then (scenario? db w).map f else scenario? db w :=
    fun w => (scenario?_congr hdb w).trans (scenario?_updateScenario hf)
  constructor
  · intro h'
    exact h' id (f row) (by simp [hfind, hrow])
  · intro hordered w r hr
    rw [hfind] at hr
    split at hr
    · subst w
      rw [hrow, Option.map_some, Option.some.injEq] at hr
      exact hr ▸ hordered
    · exact h w r hr

theorem revisionsOrdered_congr {db db' : Database} (h : RevisionsOrdered db)
    (hdb : db'.scenarios = db.scenarios) : RevisionsOrdered db' :=
  fun w row hrow => h w row ((scenario?_congr hdb w).symm.trans hrow)

/-! ## What each mutator does to the rows -/

section Mutators

variable {db db' : Database}

theorem keeps_checkIdempotency (scope : String) (keyed : Option (String × String)) :
    Txn.Keeps (fun db : Database => db) (checkIdempotency scope keyed) := by
  cases keyed with
  | none => exact Txn.keeps_pure ()
  | some kf =>
    refine Txn.keeps_get.bind fun db => ?_
    split
    · exact Txn.keeps_pure ()
    · refine Txn.Keeps.bind (fun s => ?_) fun _ => Txn.keeps_throw _
      unfold Txn.refuseIf
      split <;> rfl

section Views

variable {γ : Type} {view : Database → γ}

theorem keeps_storeIdempotency
    (hview : ∀ db keys, view { db with idempotencyKeys := keys } = view db) (scope : String)
    (response : StoredResponse) (keyed : Option (String × String)) :
    Txn.Keeps view (storeIdempotency scope response keyed) := by
  cases keyed with
  | none => exact Txn.keeps_pure ()
  | some kf => exact Txn.keeps_modify fun db => hview db _

theorem keeps_applyTreeEdits (htrees : ∀ db trees, view { db with trees } = view db)
    (hevents : ∀ db editEvents, view { db with editEvents } = view db) (request : EditRequest)
    (now : String) (sequence : Nat) (edits : List (String × AppliedEdit)) :
    Txn.Keeps view (applyTreeEdits request now sequence edits) := by
  induction edits generalizing sequence with
  | nil => exact Txn.keeps_pure _
  | cons edit edits ih =>
    refine Txn.Keeps.bind ?_ fun _ => ?_
    · exact Txn.keeps_modify fun db => hevents db _
    · split
      · refine Txn.Keeps.bind ?_ fun _ => ih _
        exact Txn.keeps_modify fun db => htrees db _
      · refine Txn.Keeps.bind ?_ fun _ => ih _
        exact Txn.keeps_modify fun db => htrees db _

theorem keeps_applyFamilyEdits (hevents : ∀ db editEvents, view { db with editEvents } = view db)
    (request : EditRequest) (now : String) (sequence : Nat) (edits : List (String × FamilyEdit)) :
    Txn.Keeps view (applyFamilyEdits request now sequence edits) := by
  induction edits generalizing sequence with
  | nil => exact Txn.keeps_pure _
  | cons edit edits ih =>
    refine Txn.Keeps.bind ?_ fun _ => ih _
    exact Txn.keeps_modify fun db => hevents db _

end Views

theorem commitBatch_scenarios {request : EditRequest} {apply : Nat → Write Nat} {carries : Bool}
    {jobId now : String} {respond : ScenarioRow → String → StoredResponse}
    (happly : ∀ n, Txn.Keeps Database.scenarios (apply n)) :
    (commitBatch request apply carries jobId now respond db).2.scenarios = db.scenarios ∨
      ∃ row n, scenario? db request.scenarioId = some row ∧
        (commitBatch request apply carries jobId now respond db).2.scenarios =
          (updateScenario request.scenarioId
            (·.edited (row.sceneVersion + 1) n carries now) db).scenarios := by
  unfold commitBatch
  rcases Txn.atomically_cases _ db with ⟨o, db', h, hrun⟩ | ⟨e, hrun⟩
  · rw [hrun]
    simp only [Txn.bind_ok, requireScenario, Txn.get_ok, Txn.require_ok, Txn.refuseIf_ok,
      insertJob, supersedeQueued, Txn.modify_ok, Txn.pure_ok] at h
    obtain ⟨_, _, hcheck, row, _, ⟨_, _, ⟨rfl, rfl⟩, hrow, rfl⟩, _, _, ⟨-, rfl⟩, n, dbA, hevents,
      _, _, rfl, _, _, rfl, _, _, rfl, _, _, ⟨_, _, ⟨rfl, rfl⟩, -, rfl⟩, _, _, hstore, -, rfl⟩ := h
    obtain rfl := (keeps_checkIdempotency _ _).ok hcheck
    have hkept := (happly _).ok hevents
    have hstored : _ = Database.scenarios _ :=
      (keeps_storeIdempotency (fun _ _ => rfl) _ _ _).ok hstore
    refine Or.inr ⟨row, n, hrow, hstored.trans ?_⟩
    simp only [updateScenario, writeJobs_scenarios, hkept]
  · rw [hrun]
    exact Or.inl rfl

theorem Commit.scenarios {workspaceId now : String} {epochId : Nat} {families : Families}
    {baselineRevision : Option Nat} {o : Except StoreError (Option CommittedEpoch)}
    (h : Commit workspaceId epochId families baselineRevision now db o db') :
    db'.scenarios = db.scenarios ∨ ∃ row, scenario? db workspaceId = some row ∧
      db'.scenarios = (setSceneVersion workspaceId (row.sceneVersion + 1) now db).scenarios := by
  cases h with
  | refused | missing | stored | restored => exact Or.inl rfl
  | assigned _ _ hscenario => exact Or.inr ⟨_, hscenario, rfl⟩

theorem advanceFastRevision_scenarios {workspaceId now : String} {revision observed : Nat} :
    ((∀ row, scenario? db workspaceId = some row → row.sceneVersion < revision) ∧
      (advanceFastRevision workspaceId revision observed now db).2 = db) ∨
    ∃ row, scenario? db workspaceId = some row ∧ revision ≤ row.sceneVersion ∧
      (advanceFastRevision workspaceId revision observed now db).2 =
        updateScenario workspaceId (·.advance revision observed now) db := by
  cases hrow : scenario? db workspaceId with
  | none =>
    refine Or.inl ⟨by simp, ?_⟩
    simp [advanceFastRevision, Txn.atomically, bind, Txn.andThen, Txn.get, hrow, pure, Txn.ret]
  | some row =>
    by_cases hlt : row.sceneVersion < revision
    · refine Or.inl ⟨by simpa using hlt, ?_⟩
      simp [advanceFastRevision, Txn.atomically, bind, Txn.andThen, Txn.get, hrow, hlt, pure,
        Txn.ret]
    · refine Or.inr ⟨row, rfl, by omega, ?_⟩
      simp [advanceFastRevision, Txn.atomically, bind, Txn.andThen, Txn.get, hrow, hlt, pure,
        Txn.ret, Txn.modify]

theorem requireRunning_ok {jobId : Option String} {u : Unit} :
    requireRunning jobId db = (.ok u, db') ↔
      (∀ id, jobId = some id → jobRunning db id = true) ∧ db = db' := by
  cases jobId with
  | none => simp [requireRunning]
  | some id => simp [requireRunning, Txn.bind_ok, and_comm]

theorem publishResultLocked_ok {scenarioId checksum now : String} {sceneVersion : Nat}
    {exact : Bool} {jobId : Option String} {acked : Option Nat} {u : Unit} :
    publishResultLocked scenarioId sceneVersion checksum exact jobId acked now db = (.ok u, db') ↔
      ∃ row, scenario? db scenarioId = some row ∧ sceneVersion = row.sceneVersion ∧
        result? db scenarioId sceneVersion = none ∧
        db' = (if exact = true ∧ row.exactResultVersion ≤ sceneVersion then
          updateScenario scenarioId (·.published sceneVersion (acked.getD 0) now)
          else id)
          (addResult { scenarioId, sceneVersion, exact, checksum, createdAt := now, jobId } db) := by
  simp only [publishResultLocked, requireScenario, Txn.bind_ok, Txn.get_ok, Txn.require_ok,
    Txn.refuseIf_ok, Txn.modify_ok]
  constructor
  · rintro ⟨row, _, ⟨_, _, ⟨rfl, rfl⟩, hrow, rfl⟩, _, _, ⟨hversion, rfl⟩, _, _, ⟨rfl, rfl⟩, _, _,
      ⟨hresult, rfl⟩, _, _, rfl, h⟩
    refine ⟨row, hrow, by simpa using hversion, by simpa using hresult, ?_⟩
    split at h
    · rw [if_pos ‹_›]
      exact (Txn.modify_ok.mp h).symm
    · rw [if_neg ‹_›]
      exact (Txn.pure_ok.mp h).2.symm
  · rintro ⟨row, hrow, rfl, hresult, rfl⟩
    refine ⟨row, _, ⟨_, _, ⟨rfl, rfl⟩, hrow, rfl⟩, (), _, ⟨by simp, rfl⟩, _, _, ⟨rfl, rfl⟩, (), _,
      ⟨by simp [hresult], rfl⟩, (), _, rfl, ?_⟩
    split
    · exact Txn.modify_ok.mpr rfl
    · exact Txn.pure_ok.mpr ⟨rfl, rfl⟩

theorem publishResultLocked_exact {scenarioId checksum now : String} {sceneVersion : Nat}
    {jobId : Option String} {acked : Option Nat} {row : ScenarioRow}
    (hrow : scenario? db scenarioId = some row) (hversion : sceneVersion = row.sceneVersion)
    (hnewest : row.exactResultVersion ≤ sceneVersion)
    (hresult : result? db scenarioId sceneVersion = none) :
    publishResultLocked scenarioId sceneVersion checksum true jobId acked now db =
      (.ok (), updateScenario scenarioId (·.published sceneVersion (acked.getD 0) now)
        (addResult { scenarioId, sceneVersion, exact := true, checksum, createdAt := now, jobId }
          db)) := by
  refine publishResultLocked_ok.mpr ⟨row, hrow, hversion, hresult, ?_⟩
  rw [if_pos ⟨rfl, hnewest⟩]

/-- The publication of an exact result that moves the exact version of the row. -/
structure Settles (db : Database) (scenarioId : String) (sceneVersion : Nat) (exact : Bool)
    (jobId : Option String) (row : ScenarioRow) : Prop where
  found : scenario? db scenarioId = some row
  current : sceneVersion = row.sceneVersion
  exact : exact = true
  newest : row.exactResultVersion ≤ sceneVersion
  fresh : result? db scenarioId sceneVersion = none
  running : ∀ id, jobId = some id → jobRunning db id = true

theorem publishResult_scenarios {scenarioId checksum now : String} {sceneVersion : Nat}
    {exact : Bool} {jobId : Option String} {acked : Option Nat} :
    (∃ row, Settles db scenarioId sceneVersion exact jobId row ∧
      (publishResult scenarioId sceneVersion checksum exact jobId acked now db).2.scenarios =
        (updateScenario scenarioId (·.published sceneVersion (acked.getD 0) now) db).scenarios) ∨
    ((∀ row, ¬ Settles db scenarioId sceneVersion exact jobId row) ∧
      (publishResult scenarioId sceneVersion checksum exact jobId acked now db).2.scenarios =
        db.scenarios) := by
  have hok : ∀ o db', publishResult scenarioId sceneVersion checksum exact jobId acked now db =
      (.ok o, db') ↔ (∀ id, jobId = some id → jobRunning db id = true) ∧
        publishResultLocked scenarioId sceneVersion checksum exact jobId acked now db =
          (.ok o, db') := by
    intro o db'
    simp only [publishResult, Txn.atomically_ok, Txn.bind_ok, requireRunning_ok]
    constructor
    · rintro ⟨_, _, ⟨hjob, rfl⟩, h⟩
      exact ⟨hjob, h⟩
    · rintro ⟨hjob, h⟩
      exact ⟨(), _, ⟨hjob, rfl⟩, h⟩
  rcases hrun : publishResult scenarioId sceneVersion checksum exact jobId acked now db with
    ⟨e | u, db'⟩
  · obtain rfl := Txn.atomically_error hrun
    refine Or.inr ⟨fun row h => ?_, rfl⟩
    have hrun' := (hok () _).mpr
      ⟨h.running, publishResultLocked_ok.mpr ⟨row, h.found, h.current, h.fresh, rfl⟩⟩
    rw [hrun] at hrun'
    simp at hrun'
  · obtain ⟨hjob, hlocked⟩ := (hok u db').mp hrun
    obtain ⟨row, hrow, hversion, hresult, rfl⟩ := publishResultLocked_ok.mp hlocked
    split
    · rename_i hexact
      exact Or.inl ⟨row, ⟨hrow, hversion, hexact.1, hexact.2, hresult, hjob⟩, rfl⟩
    · rename_i hexact
      refine Or.inr ⟨fun row' h => hexact ⟨h.exact, ?_⟩, rfl⟩
      obtain rfl := Option.some.inj (hrow.symm.trans h.found)
      exact h.newest

def KeyFresh (db : Database) (scope : String) (keyed : Option (String × String)) : Prop :=
  ∀ key fingerprint, keyed = some (key, fingerprint) →
    db.idempotencyKeys.find? (fun r => r.scope = scope ∧ r.key = key) = none

theorem checkIdempotency_ok {scope : String} {keyed : Option (String × String)} {u : Unit} :
    checkIdempotency scope keyed db = (.ok u, db') ↔ KeyFresh db scope keyed ∧ db = db' := by
  rcases keyed with _ | ⟨key, fingerprint⟩
  · simp [checkIdempotency, KeyFresh]
  · simp only [checkIdempotency, Txn.bind_ok, Txn.get_ok]
    constructor
    · rintro ⟨_, _, ⟨rfl, rfl⟩, h⟩
      cases hfind : db.idempotencyKeys.find? fun r => r.scope = scope ∧ r.key = key with
      | none =>
        simp only [hfind, Txn.pure_ok] at h
        refine ⟨fun k f hkf => ?_, h.2⟩
        obtain ⟨rfl, rfl⟩ := Prod.mk.inj (Option.some.inj hkf)
        exact hfind
      | some row =>
        simp only [hfind, Txn.bind_ok] at h
        obtain ⟨_, _, -, hthrow⟩ := h
        exact absurd hthrow Txn.throw_ok
    · rintro ⟨hfresh, rfl⟩
      refine ⟨_, _, ⟨rfl, rfl⟩, ?_⟩
      simp only [hfresh key fingerprint rfl]
      exact Txn.pure_ok.mpr ⟨rfl, rfl⟩

/-- A reset that is not refused. -/
structure ResetAccepted (db : Database) (request : ResetRequest)
    (baselinePublisher : String → Nat → Except StoreError String) (row : ScenarioRow) : Prop where
  found : scenario? db request.scenarioId = some row
  key : KeyFresh db request.scenarioId
    (idempotency? request.idempotencyKey request.requestFingerprint)
  base : ∀ base, request.baseSceneVersion = some base → base = row.sceneVersion
  published : ∃ checksum, baselinePublisher request.scenarioId (row.sceneVersion + 1) = .ok checksum
  fresh : result? db request.scenarioId (row.sceneVersion + 1) = none

/-- The row that a reset leaves. -/
def ScenarioRow.resetTo (row : ScenarioRow) (version sequence : Nat) (now : String) :
    ScenarioRow :=
  (row.reset version sequence now).published version sequence now

/-- What an accepted reset writes before it supersedes the queued jobs. -/
def resetWrites (request : ResetRequest) (row : ScenarioRow) (eventId checksum now : String)
    (db : Database) : Database :=
  updateScenario request.scenarioId
    (·.published (row.sceneVersion + 1) (row.editSequence + 1) now)
    (addResult
      { scenarioId := request.scenarioId, sceneVersion := row.sceneVersion + 1, exact := true,
        checksum, createdAt := now, jobId := none }
      (updateScenario request.scenarioId (·.reset (row.sceneVersion + 1) (row.editSequence + 1) now)
        (deleteEditable request.scenarioId
          (addEvent
            { scenarioId := request.scenarioId, sequence := row.editSequence + 1, eventId,
              baseSceneVersion := row.sceneVersion, operation := "reset", submittedAt := now,
              idempotencyKey := request.idempotencyKey } db))))

theorem resetWrites_scenarios (request : ResetRequest) (row : ScenarioRow)
    (eventId checksum now : String) :
    (resetWrites request row eventId checksum now db).scenarios =
      (updateScenario request.scenarioId
        (·.resetTo (row.sceneVersion + 1) (row.editSequence + 1) now) db).scenarios := by
  exact updateWhere_twice fun _ hr => hr

theorem resetScenario_of_accepted {request : ResetRequest} (eventId now : String)
    {baselinePublisher : String → Nat → Except StoreError String}
    (respond : ScenarioRow → StoredResponse) {row : ScenarioRow}
    (h : ResetAccepted db request baselinePublisher row) :
    ∃ r db', resetScenario request eventId baselinePublisher now respond db = (.ok r, db') := by
  obtain ⟨checksum, hchecksum⟩ := h.published
  have hreset : scenario? (updateScenario request.scenarioId
      (·.reset (row.sceneVersion + 1) (row.editSequence + 1) now) db) request.scenarioId =
        some (row.reset (row.sceneVersion + 1) (row.editSequence + 1) now) := by
    rw [scenario?_updateScenario, if_pos rfl, h.found, Option.map_some]
    exact fun _ => rfl
  have hfinal : scenario? (updateScenario request.scenarioId
      (·.resetTo (row.sceneVersion + 1) (row.editSequence + 1) now) db) request.scenarioId =
        some (row.resetTo (row.sceneVersion + 1) (row.editSequence + 1) now) := by
    rw [scenario?_updateScenario, if_pos rfl, h.found, Option.map_some]
    exact fun _ => rfl
  have hwrites := (scenario?_congr (resetWrites_scenarios request row eventId checksum now)
    request.scenarioId).trans hfinal
  have hstore : ∀ (response : StoredResponse) (keyed : Option (String × String)) (s : Database),
      ∃ s', storeIdempotency request.scenarioId response keyed s = (.ok (), s') := by
    intro response keyed s
    cases keyed with
    | none => exact ⟨s, rfl⟩
    | some kf => exact ⟨_, rfl⟩
  obtain ⟨db', hdb'⟩ := hstore (respond (row.resetTo (row.sceneVersion + 1) (row.editSequence + 1)
    now)) (idempotency? request.idempotencyKey request.requestFingerprint)
    (writeJobs (supersede request.scenarioId none now)
      (resetWrites request row eventId checksum now db))
  refine ⟨row.resetTo (row.sceneVersion + 1) (row.editSequence + 1) now, db', ?_⟩
  simp only [resetScenario, Txn.atomically_ok, Txn.bind_ok, checkIdempotency_ok, requireScenario,
    Txn.get_ok, Txn.require_ok, Txn.refuseIf_ok, Txn.modify_ok, Txn.ofExcept_ok, supersedeQueued,
    Txn.pure_ok]
  exact ⟨(), db, ⟨h.key, rfl⟩, row, db, ⟨db, db, ⟨rfl, rfl⟩, h.found, rfl⟩, (), db,
    ⟨by simpa using h.base, rfl⟩, (), _, rfl, (), _, rfl, checksum, _, ⟨hchecksum, rfl⟩, (), _, rfl,
    (), _, publishResultLocked_exact hreset rfl (le_refl _) h.fresh, (), _, rfl, _, _,
    ⟨_, _, ⟨rfl, rfl⟩, hwrites, rfl⟩, (), _, hdb', rfl, rfl⟩

theorem resetScenario_scenarios {request : ResetRequest} {eventId now : String}
    {baselinePublisher : String → Nat → Except StoreError String}
    {respond : ScenarioRow → StoredResponse} :
    (∃ row, ResetAccepted db request baselinePublisher row ∧
      (resetScenario request eventId baselinePublisher now respond db).2.scenarios =
        (updateScenario request.scenarioId
          (·.resetTo (row.sceneVersion + 1) (row.editSequence + 1) now) db).scenarios) ∨
    ((∀ row, ¬ ResetAccepted db request baselinePublisher row) ∧
      (resetScenario request eventId baselinePublisher now respond db).2.scenarios =
        db.scenarios) := by
  rcases hrun : resetScenario request eventId baselinePublisher now respond db with ⟨e | r, db'⟩
  · obtain rfl := Txn.atomically_error hrun
    refine Or.inr ⟨fun row h => ?_, rfl⟩
    obtain ⟨r, db', hok⟩ := resetScenario_of_accepted eventId now respond h
    rw [hrun] at hok
    simp at hok
  · simp only [resetScenario, Txn.atomically_ok, Txn.bind_ok, checkIdempotency_ok, requireScenario,
      Txn.get_ok, Txn.require_ok, Txn.refuseIf_ok, Txn.modify_ok, Txn.ofExcept_ok, supersedeQueued,
      Txn.pure_ok] at hrun
    obtain ⟨_, _, ⟨hkey, rfl⟩, row, _, ⟨_, _, ⟨rfl, rfl⟩, hrow, rfl⟩, _, _, ⟨hbase, rfl⟩, _, _, rfl,
      _, _, rfl, checksum, _, ⟨hchecksum, rfl⟩, _, _, rfl, _, dbP, hpublish, _, _, rfl, r', _,
      ⟨_, _, ⟨rfl, rfl⟩, hr', rfl⟩, _, _, hstore, rfl, rfl⟩ := hrun
    have hstored : _ = Database.scenarios _ :=
      (keeps_storeIdempotency (fun _ _ => rfl) _ _ _).ok hstore
    obtain ⟨row', -, -, hresult, -⟩ := publishResultLocked_ok.mp hpublish
    have hrow' : scenario? (updateScenario request.scenarioId
        (·.reset (row.sceneVersion + 1) (row.editSequence + 1) now) db) request.scenarioId =
          some (row.reset (row.sceneVersion + 1) (row.editSequence + 1) now) := by
      rw [scenario?_updateScenario, if_pos rfl, hrow, Option.map_some]
      exact fun _ => rfl
    have heq := hpublish.symm.trans (publishResultLocked_exact hrow' rfl (le_refl _) hresult)
    obtain rfl := (Prod.mk.inj heq).2
    refine Or.inl ⟨row, ⟨hrow, hkey, by simpa using hbase, ⟨checksum, hchecksum⟩, hresult⟩, ?_⟩
    exact hstored.trans (resetWrites_scenarios request row eventId checksum now)

end Mutators

/-! ## Runs -/

inductive RevisionAction where
  | commitEdits (request : EditRequest) (edits : List (String × AppliedEdit)) (jobId now : String)
      (respond : ScenarioRow → String → StoredResponse)
  | commitUniversalEdits (request : EditRequest) (edits : List (String × FamilyEdit))
      (jobId now : String) (respond : ScenarioRow → String → StoredResponse)
  | commitEpochReduction (workspaceId : String) (epochId : Nat) (families : Families)
      (baselineRevision : Option Nat) (now : String)
  | advanceFastRevision (workspaceId : String) (revision observedExact : Nat) (now : String)
  | publishResult (scenarioId : String) (sceneVersion : Nat) (checksum : String) (exact : Bool)
      (jobId : Option String) (ackedSequence : Option Nat) (now : String)
  | republishResultAtVersion (source : Option ResultRow) (sourceVersion : Nat)
      (scenarioId : String) (targetVersion : Nat) (jobId : Option String) (now : String)
  | resetScenario (request : ResetRequest) (eventId : String)
      (baselinePublisher : String → Nat → Except StoreError String) (now : String)
      (respond : ScenarioRow → StoredResponse)
  | markJobRunning (jobId : String)
  | finishJob (jobId : String) (status : JobStatus) (now : String)

/-- The seven mutators, and the job statuses that the publications look at. -/
def revisionStep (db : Database) : RevisionAction → Option Database
  | .commitEdits request edits jobId now respond =>
    some (commitEdits request edits jobId now respond db).2
  | .commitUniversalEdits request edits jobId now respond =>
    some (commitUniversalEdits request edits jobId now respond db).2
  | .commitEpochReduction workspaceId epochId families baseline now =>
    some (commitEpochReduction workspaceId epochId families baseline now db).2
  | .advanceFastRevision workspaceId revision observed now =>
    some (advanceFastRevision workspaceId revision observed now db).2
  | .publishResult scenarioId version checksum exact jobId acked now =>
    some (publishResult scenarioId version checksum exact jobId acked now db).2
  | .republishResultAtVersion source sourceVersion scenarioId version jobId now =>
    some (republishResultAtVersion source sourceVersion scenarioId version jobId now db).2
  | .resetScenario request eventId publisher now respond =>
    some (resetScenario request eventId publisher now respond db).2
  | .markJobRunning jobId => some (markJobRunning jobId db).2
  | .finishJob jobId status now => some (finishJob jobId status now db).2

/-- No reset is accepted, an exact result comes after the fast revision has reached its version,
and the exact version that the fast lane has observed is not ahead of the scene. -/
def KeepsOrder (db : Database) : RevisionAction → Prop
  | .advanceFastRevision workspaceId revision observed _ =>
    ∀ row, scenario? db workspaceId = some row → revision ≤ row.sceneVersion →
      observed ≤ row.sceneVersion
  | .publishResult scenarioId version _ exact jobId _ _ =>
    ∀ row, Settles db scenarioId version exact jobId row → version ≤ row.fastRevision
  | .republishResultAtVersion source _ scenarioId version jobId _ =>
    source.isSome → ∀ row, Settles db scenarioId version true jobId row →
      version ≤ row.fastRevision
  | .resetScenario request _ publisher _ _ => ∀ row, ¬ ResetAccepted db request publisher row
  | _ => True

theorem publishResult_ordered {db : Database} {scenarioId checksum now : String}
    {sceneVersion : Nat} {exact : Bool} {jobId : Option String} {acked : Option Nat}
    (h : RevisionsOrdered db) :
    RevisionsOrdered
        (publishResult scenarioId sceneVersion checksum exact jobId acked now db).2 ↔
      ∀ row, Settles db scenarioId sceneVersion exact jobId row →
        sceneVersion ≤ row.fastRevision := by
  rcases publishResult_scenarios with ⟨row, hsettles, hdb⟩ | ⟨hnone, hdb⟩
  · rw [revisionsOrdered_update h hsettles.found hdb fun _ => rfl]
    have hrow := h _ _ hsettles.found
    constructor
    · intro hordered row' hsettles'
      obtain rfl := Option.some.inj (hsettles.found.symm.trans hsettles'.found)
      exact hordered.1
    · intro hall
      exact ⟨hall row hsettles, hrow.2⟩
  · exact iff_of_true (revisionsOrdered_congr h hdb) fun row hrow => absurd hrow (hnone row)

theorem commitBatch_ordered {db : Database} {request : EditRequest} {apply : Nat → Write Nat}
    {carries : Bool} {jobId now : String} {respond : ScenarioRow → String → StoredResponse}
    (happly : ∀ n, Txn.Keeps Database.scenarios (apply n)) (h : RevisionsOrdered db) :
    RevisionsOrdered (commitBatch request apply carries jobId now respond db).2 := by
  rcases commitBatch_scenarios happly with hdb | ⟨row, n, hrow, hdb⟩
  · exact revisionsOrdered_congr h hdb
  · have hordered := h _ _ hrow
    exact (revisionsOrdered_update h hrow hdb fun _ => rfl).mpr
      ⟨hordered.1, Nat.le_succ_of_le hordered.2⟩

theorem revisionStep_ordered {db db' : Database} {action : RevisionAction}
    (h : RevisionsOrdered db) (hstep : revisionStep db action = some db') :
    RevisionsOrdered db' ↔ KeepsOrder db action := by
  cases action <;> obtain rfl := Option.some.inj hstep
  case commitEdits request edits jobId now respond =>
    exact iff_of_true (commitBatch_ordered (fun n =>
      keeps_applyTreeEdits (fun _ _ => rfl) (fun _ _ => rfl) _ _ n edits) h) trivial
  case commitUniversalEdits request edits jobId now respond =>
    exact iff_of_true (commitBatch_ordered (fun n =>
      keeps_applyFamilyEdits (fun _ _ => rfl) _ _ n edits) h) trivial
  case commitEpochReduction workspaceId epochId families baseline now =>
    refine iff_of_true ?_ trivial
    rcases commitEpochReduction_spec.scenarios with hdb | ⟨row, hrow, hdb⟩
    · exact revisionsOrdered_congr h hdb
    · have hordered := h _ _ hrow
      exact (revisionsOrdered_update h hrow hdb fun _ => rfl).mpr
        ⟨hordered.1, Nat.le_succ_of_le hordered.2⟩
  case advanceFastRevision workspaceId revision observed now =>
    rcases advanceFastRevision_scenarios with ⟨hlag, hdb⟩ | ⟨row, hrow, hle, hdb⟩
    · rw [hdb]
      refine iff_of_true h fun row hrow hle => ?_
      have := hlag row hrow
      omega
    · rw [revisionsOrdered_update h hrow (congrArg Database.scenarios hdb) fun _ => rfl]
      have hordered := h _ _ hrow
      simp only [KeepsOrder, hrow, Option.some.injEq, forall_eq', ScenarioRow.Ordered,
        ScenarioRow.advance] at hordered ⊢
      omega
  case publishResult scenarioId version checksum exact jobId acked now =>
    exact publishResult_ordered h
  case republishResultAtVersion source sourceVersion scenarioId version jobId now =>
    cases source with
    | none => exact iff_of_true h fun hnone => by simp at hnone
    | some row =>
      exact (publishResult_ordered h).trans ⟨fun hall _ => hall, fun hall => hall rfl⟩
  case resetScenario request eventId publisher now respond =>
    rcases resetScenario_scenarios with ⟨row, haccepted, hdb⟩ | ⟨hnone, hdb⟩
    · rw [revisionsOrdered_update h haccepted.found hdb fun _ => rfl]
      have hordered := h _ _ haccepted.found
      refine iff_of_false (fun hreset => ?_) fun hall => hall row haccepted
      have hfast : row.sceneVersion + 1 ≤ row.fastRevision := hreset.1
      have := hordered.2
      omega
    · exact iff_of_true (revisionsOrdered_congr h hdb) hnone
  case markJobRunning jobId => exact iff_of_true (revisionsOrdered_congr h rfl) trivial
  case finishJob jobId status now => exact iff_of_true (revisionsOrdered_congr h rfl) trivial

/-- A run keeps the triple in order throughout exactly when each of its steps meets the
condition. -/
theorem revision_triple_ordered {start db : Database} {actions : List RevisionAction}
    (hstart : RevisionsOrdered start) (hrun : run revisionStep start actions = some db) :
    (∀ reached, Visits revisionStep start actions reached → RevisionsOrdered reached) ↔
      EachStep revisionStep KeepsOrder start actions :=
  always_iff_eachStep (I := fun _ => True) (fun _ _ _ _ _ => trivial)
    (fun _ _ _ _ h hstep => revisionStep_ordered h hstep) trivial hstart hrun

/-! ### A result before the fast lane -/

def respondJob (_ : ScenarioRow) (jobId : String) : StoredResponse :=
  { statusCode := 202, body := .str jobId }

/-- A tree edit whose exact result is published while the fast revision is still zero. -/
def exactBeforeFast : List RevisionAction :=
  [.commitEdits
      { scenarioId := "w", baseSceneVersion := 0, requested := .obj [], idempotencyKey := none,
        requestFingerprint := none }
      [("e1", { operation := "add", treeId := "t1", oldTree := none, newTree := some (.obj []) })]
      "j1" "t1" respondJob,
    .markJobRunning "j1",
    .publishResult "w" 1 "c1" true (some "j1") (some 1) "t2"]

theorem oneScenario_ordered : RevisionsOrdered oneScenario := by
  intro w row hrow
  obtain rfl : row = { scenarioId := "w", updatedAt := "t0" } := by
    simpa [oneScenario] using List.mem_of_find?_eq_some hrow
  exact ⟨le_refl _, le_refl _⟩

theorem exactBeforeFast_breaks_order :
    ¬ ∀ (start db : Database) (actions : List RevisionAction), RevisionsOrdered start →
      run revisionStep start actions = some db → RevisionsOrdered db := by
  intro h
  have hrun : (run revisionStep oneScenario exactBeforeFast).map (fun db =>
      (scenario? db "w").map fun r => (r.exactResultVersion, r.fastRevision, r.sceneVersion)) =
      some (some (1, 0, 1)) := by decide
  obtain ⟨db, hdb, hview⟩ := Option.map_eq_some_iff.mp hrun
  obtain ⟨row, hrow, htriple⟩ := Option.map_eq_some_iff.mp hview
  simp only [Prod.mk.injEq] at htriple
  have hordered := h _ _ _ oneScenario_ordered hdb "w" row hrow
  have := hordered.1
  omega

/-- The fast lane publishes first. -/
def fastBeforeExact : List RevisionAction :=
  exactBeforeFast.take 2 ++
    [.advanceFastRevision "w" 1 0 "t2", .publishResult "w" 1 "c1" true (some "j1") (some 1) "t3"]

theorem revision_triple_ordered_fast_first :
    ∃ db, run revisionStep oneScenario fastBeforeExact = some db ∧
      ((∀ reached, Visits revisionStep oneScenario fastBeforeExact reached →
        RevisionsOrdered reached) ↔ EachStep revisionStep KeepsOrder oneScenario fastBeforeExact) := by
  have hrun : (run revisionStep oneScenario fastBeforeExact).isSome := by decide
  obtain ⟨db, hdb⟩ := Option.isSome_iff_exists.mp hrun
  exact ⟨db, hdb, revision_triple_ordered oneScenario_ordered hdb⟩

end Solweig.Store
