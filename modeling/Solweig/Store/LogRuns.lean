import Solweig.Lib.Run
import Solweig.Store.Commit

/-!
# Runs of the operation log

Any interleaving of batches, status marks and commits, from a store without operations, keeps the
law of the log.
-/

namespace Solweig.Store

open Solweig.Lib Solweig.Realtime

/-! ## Batches -/

section Batches

variable {workspaceId : String} {db db' : Database} {row : OperationRow}

theorem Appended.epoch_kept (h : Appended workspaceId db row db') {w : String} {r : EpochRow}
    (hr : r ∈ epochs db w) : ∃ r' ∈ epochs db' w, r'.epochId = r.epochId ∧ r'.status = r.status ∧
      r'.workspaceRevision = r.workspaceRevision := by
  by_cases hw : w = workspaceId
  · subst hw
    rcases h.ownEpochs with ⟨before, last, hepochs, _, _, hnew⟩ |
      ⟨added, _, _, _, _, _, _, _, _, hnew⟩
    · rw [hepochs, List.mem_append, List.mem_singleton] at hr
      rcases hr with hr | rfl
      · exact ⟨r, by simp [hnew, hr], rfl, rfl, rfl⟩
      · exact ⟨r.extend row.serverSequence, by simp [hnew], rfl, rfl, rfl⟩
    · exact ⟨r, by simp [hnew, hr], rfl, rfl, rfl⟩
  · exact ⟨r, by rwa [h.otherEpochs w hw], rfl, rfl, rfl⟩

theorem Appended.epoch_origin (h : Appended workspaceId db row db') {w : String} {r' : EpochRow}
    (hr' : r' ∈ epochs db' w) : r'.workspaceRevision = none ∨ ∃ r ∈ epochs db w,
      r.epochId = r'.epochId ∧ r.workspaceRevision = r'.workspaceRevision := by
  by_cases hw : w = workspaceId
  · subst hw
    rcases h.ownEpochs with ⟨before, last, hepochs, _, _, hnew⟩ |
      ⟨added, _, _, hrevision, _, _, _, _, _, hnew⟩
    · rw [hnew, List.mem_append, List.mem_singleton] at hr'
      rcases hr' with hr | rfl
      · exact Or.inr ⟨r', by simp [hepochs, hr], rfl, rfl⟩
      · exact Or.inr ⟨last, by simp [hepochs], rfl, rfl⟩
    · rw [hnew, List.mem_append, List.mem_singleton] at hr'
      rcases hr' with hr | rfl
      · exact Or.inr ⟨r', hr, rfl, rfl⟩
      · exact Or.inl hrevision
  · exact Or.inr ⟨r', by rwa [h.otherEpochs w hw] at hr', rfl, rfl⟩

theorem Appended.joins_open (h : Appended workspaceId db row db') :
    ∃ r ∈ epochs db' workspaceId, r.epochId = row.epochId ∧ r.status = .opened := by
  rcases h.ownEpochs with ⟨before, last, _, hopen, hid, hnew⟩ |
    ⟨added, _, hopen, _, _, hid, _, _, _, hnew⟩
  · exact ⟨last.extend row.serverSequence, by simp [hnew], hid.symm, hopen⟩
  · exact ⟨added, by simp [hnew], hid.symm, hopen⟩

theorem Appended.not_sealed (h : Appended workspaceId db row db') (hlaw : LogLaw db) {e : Nat}
    (hsealed : Sealed db workspaceId e) : row.epochId ≠ e := by
  obtain ⟨r, hr, rfl, hstatus⟩ := hsealed
  obtain ⟨r', hr', hid', hstatus', -⟩ := h.epoch_kept hr
  obtain ⟨r'', hr'', hid, hopen⟩ := h.joins_open
  intro heq
  have hsame := ((h.logLaw hlaw).partition workspaceId).epoch_unique hr' hr''
    (by rw [hid', hid, heq])
  exact hstatus (by rw [← hstatus', hsame, hopen])

theorem Appended.grows (h : Appended workspaceId db row db') (hlaw : LogLaw db) : Grows db db' := by
  refine ⟨fun w => ?_, fun w e hsealed => ⟨?_, ?_⟩⟩
  · by_cases hw : w = workspaceId
    · subst hw
      exact h.log_own ▸ List.prefix_append _ _
    · exact h.log_other hw ▸ List.prefix_refl _
  · obtain ⟨r, hr, rfl, hstatus⟩ := hsealed
    obtain ⟨r', hr', hid, hstatus', -⟩ := h.epoch_kept hr
    exact ⟨r', hr', hid, hstatus' ▸ hstatus⟩
  · by_cases hw : w = workspaceId
    · subst hw
      have hne := h.not_sealed hlaw hsealed
      simp [operationsForEpoch, h.log_own, hne]
    · rw [operationsForEpoch, h.log_other hw, operationsForEpoch]

theorem appendSteps_law (h : Relation.ReflTransGen (AppendStep workspaceId) db db')
    (hlaw : LogLaw db) : LogLaw db' ∧ Grows db db' ∧ ∀ w, ∀ op ∈ log db' w, op ∉ log db w →
      ∃ r ∈ epochs db' w, r.epochId = op.epochId ∧ r.status = .opened := by
  induction h with
  | refl => exact ⟨hlaw, Grows.refl db, fun w op hop hnew => absurd hop hnew⟩
  | @tail mid last _ hstep ih =>
    obtain ⟨row, happ⟩ := hstep
    obtain ⟨hmid, hgrows, hopen⟩ := ih
    refine ⟨happ.logLaw hmid, hgrows.trans (happ.grows hmid), fun w op hop hnew => ?_⟩
    by_cases hold : op ∈ log mid w
    · obtain ⟨r, hr, hid, hstatus⟩ := hopen w op hold hnew
      obtain ⟨r', hr', hid', hstatus', -⟩ := happ.epoch_kept hr
      exact ⟨r', hr', hid'.trans hid, hstatus'.trans hstatus⟩
    · by_cases hw : w = workspaceId
      · subst hw
        rw [happ.log_own, List.mem_append, List.mem_singleton] at hop
        rcases hop with hop | rfl
        · exact absurd hop hold
        · exact happ.joins_open
      · rw [happ.log_other hw] at hop
        exact absurd hop hold

end Batches

/-! ## Runs -/

inductive LogAction where
  | append (workspaceId : String) (items : List OperationItem) (now : String)
  | mark (workspaceId : String) (epochId : Nat) (status : EpochStatus)
      (workspaceRevision : Option Nat) (now : String)
  | commit (workspaceId : String) (epochId : Nat) (families : Families)
      (baselineRevision : Option Nat) (now : String)

/-- One transaction. Nothing marks an epoch open. -/
def logStep (db : Database) : LogAction → Option Database
  | .append workspaceId items now => some (appendOperations workspaceId items now db).2
  | .mark workspaceId epochId status revision now =>
    if status = .opened then none
    else some (markEpochStatus workspaceId epochId status revision now db).2
  | .commit workspaceId epochId families baseline now =>
    some (commitEpochReduction workspaceId epochId families baseline now db).2

theorem logStep_law {db db' : Database} {action : LogAction} (hlaw : LogLaw db)
    (h : logStep db action = some db') : LogLaw db' ∧ Grows db db' ∧
      ∀ w, ∀ op ∈ log db' w, op ∉ log db w →
        ∃ r ∈ epochs db' w, r.epochId = op.epochId ∧ r.status = .opened := by
  cases action with
  | append workspaceId items now =>
    obtain rfl := Option.some.inj h
    exact appendSteps_law (appendOperations_steps hlaw) hlaw
  | mark workspaceId epochId status revision now =>
    simp only [logStep, Option.ite_none_left_eq_some, Option.some.injEq] at h
    obtain ⟨hstatus, rfl⟩ := h
    rw [markEpochStatus_eq]
    have hf := quiet_mark hstatus revision now
    exact ⟨hf.logLaw hlaw, hf.grows, fun w op hop hnew => absurd hop hnew⟩
  | commit workspaceId epochId families baseline now =>
    obtain rfl := Option.some.inj h
    obtain ⟨hlaw', hgrows⟩ := commit_logLaw hlaw
    refine ⟨hlaw', hgrows, fun w op hop hnew => absurd ?_ hnew⟩
    rwa [log, commitEpochReduction_spec.quiet.1] at hop

theorem logLaw_start {db : Database} (ho : db.operations = []) (he : db.epochs = []) :
    LogLaw db := by
  refine ⟨fun w => ?_, by simp [ho]⟩
  have hlog : log db w = [] := by simp [log, ho]
  have hepochs : epochs db w = [] := by simp [epochs, he]
  rw [hlog, hepochs]
  exact ⟨rfl, rfl, rfl, by simp, by simp⟩

theorem logLaw_run {start db : Database} {actions : List LogAction} (hstart : LogLaw start)
    (hrun : run logStep start actions = some db) : LogLaw db :=
  run_invariant (C := fun _ _ => True) (fun _ _ _ hI _ h => (logStep_law hI h).1) hstart
    (eachStep_of_forall (fun _ _ => trivial) _ _) hrun

theorem operationsForEpoch_eq {db : Database} (hlaw : LogLaw db) (w : String) (e : Nat) :
    operationsForEpoch db w e = (log db w).filter fun r => r.epochId = e :=
  sorted_of_ascending ((hlaw.partition w).log_ascending.filter _)

/-- The log and its epochs in every reachable state, and what each further transaction does. -/
theorem operation_log_partition {start db : Database} {actions : List LogAction}
    (hoperations : start.operations = []) (hepochs : start.epochs = [])
    (hrun : run logStep start actions = some db) :
    (db.operations.map (·.operationId)).Nodup ∧
    (∀ w, (log db w).map (·.serverSequence) = List.range' 1 (log db w).length ∧
      (epochs db w).map (·.epochId) = List.range (epochs db w).length ∧
      Consecutive 1 (epochs db w) ((log db w).length + 1) ∧
      (∀ row ∈ epochs db w, ∃ first last, row.firstSequence = some first ∧
        row.lastSequence = some last ∧
        (operationsForEpoch db w row.epochId).map (·.serverSequence) =
          List.range' first (last + 1 - first)) ∧
      ∀ row ∈ epochs db w, row.status = .opened → ∀ r ∈ epochs db w, r.epochId ≤ row.epochId) ∧
    (∀ action db', logStep db action = some db' → Grows db db' ∧
      ∀ w, ∀ op ∈ log db' w, op ∉ log db w →
        ∃ r ∈ epochs db' w, r.epochId = op.epochId ∧ r.status = .opened) ∧
    ∀ w items now e db', appendOperations w items now db = (.error e, db') → db' = db := by
  have hlaw := logLaw_run (logLaw_start hoperations hepochs) hrun
  refine ⟨hlaw.ids, fun w => ?_, fun action db' h => (logStep_law hlaw h).2, ?_⟩
  · have hw := hlaw.partition w
    refine ⟨hw.sequences, hw.epochIds, hw.consecutive, fun row hrow => ?_,
      fun row hrow hopen r hr => ?_⟩
    · rw [operationsForEpoch_eq hlaw]
      exact hw.interval hrow
    · have hlast := hw.openLast row hrow hopen
      have hlt := hw.epochId_lt hr
      omega
  · intro w items now e db' h
    exact Txn.atomically_error h

/-! ### A run with two epochs -/

def plantTree (operationId : String) : OperationItem where
  operationId
  actorId := "alice"
  clientSequence := none
  baseRevision := none
  sourceFamily := "vegetation_geometry"
  entityId := some operationId
  verb := "add"
  payload := .obj []
  receivedAt := "t1"

/-- A retried id in the first batch, a reused id in the last. -/
def twoEpochs : List LogAction :=
  [.append "w" [plantTree "a", plantTree "b", plantTree "a"] "t1",
    .mark "w" 0 .closed none "t2",
    .append "w" [plantTree "c"] "t3",
    .commit "w" 0 .empty (some 0) "t4",
    .append "w" [plantTree "d", { plantTree "a" with verb := "delete" }] "t5"]

theorem operation_log_partition_two_epochs : ∃ db, run logStep oneScenario twoEpochs = some db ∧
    (db.operations.map (·.operationId)) = ["a", "b", "c"] ∧
    (epochs db "w").map (·.epochId) = [0, 1] ∧ Consecutive 1 (epochs db "w") 4 := by
  have hrun : (run logStep oneScenario twoEpochs).map (fun db =>
      (db.operations.map (·.operationId), (epochs db "w").map (·.epochId), (log db "w").length)) =
      some (["a", "b", "c"], [0, 1], 3) := by decide
  obtain ⟨db, hdb, hview⟩ := Option.map_eq_some_iff.mp hrun
  simp only [Prod.mk.injEq] at hview
  obtain ⟨hoperations, hids, hlength⟩ := hview
  refine ⟨db, hdb, hoperations, hids, ?_⟩
  have hw := (operation_log_partition rfl rfl hdb).2.1 "w"
  rw [hlength] at hw
  exact hw.2.2.1

end Solweig.Store
