import Solweig.Store.OperationLog

/-!
# Marks, commits and what they leave alone

What `markEpochStatus` and `commitEpochReduction` do, said once for each, and what no step of the
store does to an epoch that is not open.
-/

namespace Solweig.Store

open Solweig.Lib Solweig.Realtime

/-! ## What a commit does -/

/-- The ways a commit can end. -/
inductive Commit (workspaceId : String) (epochId : Nat) (families : Families)
    (baselineRevision : Option Nat) (now : String) (db : Database) :
    Except StoreError (Option CommittedEpoch) → Database → Prop
  | refused (e : StoreError) :
      Commit workspaceId epochId families baselineRevision now db (.error e) db
  | missing :
      Commit workspaceId epochId families baselineRevision now db (.ok none) db
  | stored {row : EpochRow} {revision : Nat}
      (hrow : epoch? db workspaceId epochId = some row)
      (hrevision : row.workspaceRevision = some revision)
      (hcanonical : ∃ r ∈ canonical db workspaceId, r.workspaceRevision = revision) :
      Commit workspaceId epochId families baselineRevision now db
        (.ok (some { workspaceRevision := revision, firstTime := false })) db
  | restored {row : EpochRow} {revision : Nat}
      (hrow : epoch? db workspaceId epochId = some row)
      (hrevision : row.workspaceRevision = some revision)
      (hcanonical : ∀ r ∈ canonical db workspaceId, r.workspaceRevision ≠ revision) :
      Commit workspaceId epochId families baselineRevision now db
        (.ok (some { workspaceRevision := revision, firstTime := false }))
        { db with
          canonical := db.canonical ++
            [{ workspaceId, workspaceRevision := revision, families, createdAt := now }] }
  | assigned {row : EpochRow} {scenario : ScenarioRow}
      (hrow : epoch? db workspaceId epochId = some row)
      (hrevision : row.workspaceRevision = none)
      (hscenario : scenario? db workspaceId = some scenario)
      (hbaseline : ∀ expected, baselineRevision = some expected →
        latestRevision db workspaceId = expected)
      (hcanonical : ∀ r ∈ canonical db workspaceId,
        r.workspaceRevision ≠ scenario.sceneVersion + 1) :
      Commit workspaceId epochId families baselineRevision now db
        (.ok (some { workspaceRevision := scenario.sceneVersion + 1, firstTime := true }))
        (updateEpoch workspaceId epochId (·.assign (scenario.sceneVersion + 1) now)
          (setSceneVersion workspaceId (scenario.sceneVersion + 1) now
            { db with
              canonical := db.canonical ++
                [{ workspaceId, workspaceRevision := scenario.sceneVersion + 1, families,
                   createdAt := now }] }))

section Commit

variable {workspaceId now : String} {epochId : Nat} {families : Families}
  {baselineRevision : Option Nat} {db : Database}

theorem checkBaseline_ok {db' : Database} {u : Unit}
    (h : checkBaseline workspaceId baselineRevision db = (.ok u, db')) :
    db' = db ∧ ∀ expected, baselineRevision = some expected →
      latestRevision db workspaceId = expected := by
  cases baselineRevision with
  | none =>
    obtain ⟨-, rfl⟩ := Txn.pure_ok.mp h
    exact ⟨rfl, by simp⟩
  | some expected =>
    simp only [checkBaseline, Txn.bind_ok, Txn.get_ok, Txn.refuseIf_ok] at h
    obtain ⟨_, _, ⟨rfl, rfl⟩, hlatest, rfl⟩ := h
    exact ⟨rfl, by simpa using hlatest⟩

theorem commitEpochReduction_spec :
    Commit workspaceId epochId families baselineRevision now db
      (commitEpochReduction workspaceId epochId families baselineRevision now db).1
      (commitEpochReduction workspaceId epochId families baselineRevision now db).2 := by
  unfold commitEpochReduction
  rcases Txn.atomically_cases _ db with ⟨o, db', h, hrun⟩ | ⟨e, hrun⟩
  · rw [hrun]
    simp only [Txn.bind_ok, Txn.get_ok] at h
    obtain ⟨_, _, ⟨rfl, rfl⟩, h⟩ := h
    cases hrow : epoch? db workspaceId epochId with
    | none =>
      simp only [hrow, Txn.pure_ok] at h
      obtain ⟨rfl, rfl⟩ := h
      exact .missing
    | some row =>
      simp only [hrow] at h
      cases hrevision : row.workspaceRevision with
      | some revision =>
        simp only [hrevision, insertCanonicalOrIgnore, Txn.bind_ok, Txn.get_ok, Txn.pure_ok] at h
        obtain ⟨_, _, ⟨_, _, ⟨rfl, rfl⟩, h⟩, rfl, rfl⟩ := h
        split at h
        · obtain ⟨-, rfl⟩ := Txn.pure_ok.mp h
          exact .stored hrow hrevision ‹_›
        · obtain rfl := Txn.modify_ok.mp h
          rename_i hfresh
          exact .restored hrow hrevision fun r hr heq => hfresh ⟨r, hr, heq⟩
      | none =>
        simp only [hrevision, assignRevision, Txn.bind_ok, Txn.get_ok] at h
        obtain ⟨_, _, ⟨rfl, rfl⟩, h⟩ := h
        cases hscenario : scenario? db workspaceId with
        | none =>
          simp only [hscenario, Txn.pure_ok] at h
          obtain ⟨rfl, rfl⟩ := h
          exact .missing
        | some scenario =>
          simp only [hscenario, Txn.bind_ok, insertCanonical, Txn.get_ok, Txn.refuseIf_ok,
            Txn.modify_ok, Txn.pure_ok] at h
          obtain ⟨_, _, hcheck, _, _, ⟨_, _, ⟨rfl, rfl⟩, _, _, ⟨hfresh, rfl⟩, rfl⟩, _, _, rfl,
            _, _, rfl, rfl, rfl⟩ := h
          obtain ⟨rfl, hbaseline⟩ := checkBaseline_ok hcheck
          exact .assigned hrow hrevision hscenario hbaseline (by simpa using hfresh)
  · rw [hrun]
    exact .refused e

end Commit

/-! ## What stays -/

theorem markEpochStatus_eq (workspaceId : String) (epochId : Nat) (status : EpochStatus)
    (workspaceRevision : Option Nat) (now : String) (db : Database) :
    (markEpochStatus workspaceId epochId status workspaceRevision now db).2 =
      updateEpoch workspaceId epochId (·.mark status workspaceRevision now) db :=
  rfl

/-- An epoch that no longer takes operations. -/
def Sealed (db : Database) (w : String) (e : Nat) : Prop :=
  ∃ row ∈ epochs db w, row.epochId = e ∧ row.status ≠ .opened

/-- The log only grows at its end, and a sealed epoch stays sealed and keeps its operations. -/
structure Grows (db db' : Database) : Prop where
  log : ∀ w, log db w <+: log db' w
  sealed : ∀ w e, Sealed db w e →
    Sealed db' w e ∧ operationsForEpoch db' w e = operationsForEpoch db w e

theorem Grows.refl (db : Database) : Grows db db :=
  ⟨fun _ => List.prefix_refl _, fun _ _ h => ⟨h, rfl⟩⟩

theorem Grows.trans {a b c : Database} (hab : Grows a b) (hbc : Grows b c) : Grows a c := by
  refine ⟨fun w => (hab.log w).trans (hbc.log w), fun w e h => ?_⟩
  obtain ⟨hb, hab'⟩ := hab.sealed w e h
  obtain ⟨hc, hbc'⟩ := hbc.sealed w e hb
  exact ⟨hc, hbc'.trans hab'⟩

section Update

variable {workspaceId : String} {epochId : Nat} {f : EpochRow → EpochRow} {db : Database}

/-- An update of one epoch that keeps its interval and opens nothing. -/
structure Quiet (f : EpochRow → EpochRow) : Prop where
  workspaceId : ∀ r, (f r).workspaceId = r.workspaceId
  epochId : ∀ r, (f r).epochId = r.epochId
  firstSequence : ∀ r, (f r).firstSequence = r.firstSequence
  lastSequence : ∀ r, (f r).lastSequence = r.lastSequence
  status : ∀ r, (f r).status ≠ .opened

theorem quiet_mark {status : EpochStatus} (h : status ≠ .opened) (revision : Option Nat)
    (now : String) : Quiet (·.mark status revision now) :=
  ⟨fun _ => rfl, fun _ => rfl, fun _ => rfl, fun _ => rfl, fun _ => h⟩

theorem quiet_assign (revision : Nat) (now : String) : Quiet (·.assign revision now) := by
  constructor <;> intro r <;> unfold EpochRow.assign <;> split
  case status.isTrue h => rcases h with h | h <;> simp [h]
  all_goals simp

theorem Quiet.logLaw (hf : Quiet f) (h : LogLaw db) :
    LogLaw (updateEpoch workspaceId epochId f db) := by
  refine ⟨fun w => ?_, h.ids⟩
  have hw := h.partition w
  show Partition (log db w) _
  rw [epochs_updateEpoch w epochId f hf.workspaceId]
  refine ⟨hw.sequences, ?_, ?_, ?_, ?_⟩
  · rw [map_updateWhere fun r _ => hf.epochId r, updateWhere_length]
    exact hw.epochIds
  · exact hw.consecutive.congr (map_updateWhere fun r _ => hf.firstSequence r)
      (map_updateWhere fun r _ => hf.lastSequence r)
  · intro op hop r' hr'
    obtain ⟨r, hr, rfl⟩ := mem_updateWhere.mp hr'
    have hassigned := hw.assigned op hop r hr
    split
    · simpa [EpochRow.Holds, hf.epochId, hf.firstSequence, hf.lastSequence] using hassigned
    · exact hassigned
  · intro r' hr' hopen
    obtain ⟨r, hr, rfl⟩ := mem_updateWhere.mp hr'
    rw [updateWhere_length]
    split at hopen
    · exact absurd hopen (hf.status r)
    · rw [if_neg ‹_›]
      exact hw.openLast r hr hopen

theorem Quiet.grows (hf : Quiet f) : Grows db (updateEpoch workspaceId epochId f db) := by
  refine ⟨fun _ => List.prefix_refl _, fun w e h => ⟨?_, rfl⟩⟩
  obtain ⟨row, hrow, rfl, hstatus⟩ := h
  refine ⟨if isEpoch workspaceId epochId row then f row else row, ?_, ?_, ?_⟩
  · rw [epochs_updateEpoch w epochId f hf.workspaceId]
    exact mem_updateWhere.mpr ⟨row, hrow, rfl⟩
  · split
    · exact hf.epochId row
    · rfl
  · split
    · exact hf.status row
    · exact hstatus

end Update

theorem Commit.quiet {workspaceId now : String} {epochId : Nat} {families : Families}
    {baselineRevision : Option Nat} {db db' : Database}
    {o : Except StoreError (Option CommittedEpoch)}
    (h : Commit workspaceId epochId families baselineRevision now db o db') :
    db'.operations = db.operations ∧ (db'.epochs = db.epochs ∨
      ∃ f, Quiet f ∧ db'.epochs = (updateEpoch workspaceId epochId f db).epochs) := by
  cases h with
  | refused | missing | stored | restored => exact ⟨rfl, Or.inl rfl⟩
  | assigned => exact ⟨rfl, Or.inr ⟨_, quiet_assign _ _, rfl⟩⟩

theorem logLaw_congr {db db' : Database} (ho : db'.operations = db.operations)
    (he : db'.epochs = db.epochs) (h : LogLaw db) : LogLaw db' := by
  refine ⟨fun w => ?_, ho ▸ h.ids⟩
  have hw := h.partition w
  unfold log epochs at hw ⊢
  rwa [ho, he]

theorem grows_congr {db db' dbQ : Database} (ho : db'.operations = dbQ.operations)
    (he : db'.epochs = dbQ.epochs) (h : Grows db dbQ) : Grows db db' := by
  have hlog : ∀ w, log db' w = log dbQ w := fun w => by rw [log, ho, log]
  have hepochs : ∀ w, epochs db' w = epochs dbQ w := fun w => by rw [epochs, he, epochs]
  refine ⟨fun w => hlog w ▸ h.log w, fun w e hs => ?_⟩
  simp only [Sealed, operationsForEpoch, hlog, hepochs]
  exact h.sealed w e hs

theorem commit_logLaw {workspaceId now : String} {epochId : Nat} {families : Families}
    {baselineRevision : Option Nat} {db : Database} (h : LogLaw db) :
    LogLaw (commitEpochReduction workspaceId epochId families baselineRevision now db).2 ∧
      Grows db (commitEpochReduction workspaceId epochId families baselineRevision now db).2 := by
  obtain ⟨ho, he | ⟨f, hf, he⟩⟩ := commitEpochReduction_spec.quiet
  · exact ⟨logLaw_congr ho he h, grows_congr ho he (Grows.refl db)⟩
  · have hlaw : LogLaw (updateEpoch workspaceId epochId f db) := hf.logLaw h
    have hgrows : Grows db (updateEpoch workspaceId epochId f db) := hf.grows
    have hops : (commitEpochReduction workspaceId epochId families baselineRevision now db).2.operations
        = (updateEpoch workspaceId epochId f db).operations := ho
    exact ⟨logLaw_congr hops he hlaw, grows_congr hops he hgrows⟩

end Solweig.Store
