import Solweig.Bridge.Rebuild
import Solweig.Retention.Replay

/-!
# The replay window of a rebuild

A family edit is in the snapshot that a rebuild restores or in the window that it replays, exactly
as long as no rebuild drops a snapshot that covers one, and none takes an edit for a reset.
-/

namespace Solweig.Bridge

open Solweig.Lib Solweig.Retention Solweig.Store

/-! ## Standing edits -/

/-- A family edit that no reset has voided. -/
def Standing (events : List EditEvent) (event : EditEvent) : Prop :=
  isFamily event = true ∧
    ∀ reset ∈ events, isReset reset = true → reset.sequence < event.sequence

instance (events : List EditEvent) (event : EditEvent) : Decidable (Standing events event) :=
  inferInstanceAs (Decidable (_ ∧ _))

/-- The sequences have every standing edit up to `covered`. -/
def Reflects (events : List EditEvent) (covered : Nat) (sequences : List Nat) : Prop :=
  ∀ event ∈ events, Standing events event → event.sequence ≤ covered →
    event.sequence ∈ sequences

/-- Each standing edit of the request is in the restored snapshot or in the replay window. -/
def LosesNone (request : SolveRequest) (rebuilt : Rebuilt) : Prop :=
  ∀ event ∈ request.events, Standing request.events event →
    event.sequence ≤ request.editWatermark →
    event.sequence ∈ rebuilt.restored ∨ rebuilt.window.covered < event.sequence

instance (request : SolveRequest) (rebuilt : Rebuilt) : Decidable (LosesNone request rebuilt) :=
  inferInstanceAs (Decidable (∀ event ∈ _, _ → _ → _))

/-- The snapshot can be restored, or no standing edit of the request lies at or below its coverage
or an event that is called reset. -/
def Keeps (coverage : Coverage) (file : SnapshotFile) (request : SolveRequest) : Prop :=
  Promotable coverage file request ∨
    ∀ event ∈ request.events, Standing request.events event →
      event.sequence ≤ request.editWatermark →
      max coverage.coveredSequence (lastReset request.events) < event.sequence

instance (coverage : Coverage) (file : SnapshotFile) (request : SolveRequest) :
    Decidable (Keeps coverage file request) :=
  inferInstanceAs (Decidable (_ ∨ _))

/-! ## One rebuild -/

theorem window_of_not_promotable {coverage : Coverage} {file : SnapshotFile}
    {request : SolveRequest} (h : ¬ Promotable coverage file request) :
    (ledgerReplayWindow coverage file request).snapshotRestored = false ∧
      (ledgerReplayWindow coverage file request).covered =
        max coverage.coveredSequence (lastReset request.events) := by
  unfold ledgerReplayWindow
  rw [if_neg h]
  split
  · refine ⟨rfl, ?_⟩
    simp only
    omega
  · exact ⟨rfl, rfl⟩

theorem buildExecutor_promotable {coverage : Coverage} {file : SnapshotFile}
    {request : SolveRequest} {rebuilt : Rebuilt} (h : Promotable coverage file request)
    (hok : buildExecutor coverage file request = .ok rebuilt) :
    ∃ snapshot, file = .readable snapshot ∧ rebuilt.restored = snapshot.reflects ∧
      rebuilt.window.covered = coverage.coveredSequence := by
  unfold buildExecutor ledgerReplayWindow at hok
  simp only [if_pos h, if_true] at hok
  obtain ⟨restored, hrestore, hpure⟩ := except_bind_ok.mp hok
  obtain rfl := Except.ok.inj hpure
  unfold restoreSnapshot at hrestore
  split at hrestore
  · rename_i snapshot
    split at hrestore
    · exact ⟨snapshot, rfl, (Except.ok.inj hrestore).symm, rfl⟩
    · cases hrestore
  · cases hrestore

theorem buildExecutor_fresh {coverage : Coverage} {file : SnapshotFile} {request : SolveRequest}
    (h : ¬ Promotable coverage file request) :
    ∃ rebuilt, buildExecutor coverage file request = .ok rebuilt ∧ rebuilt.restored = [] ∧
      rebuilt.window.covered = max coverage.coveredSequence (lastReset request.events) := by
  obtain ⟨hrestored, hcovered⟩ := window_of_not_promotable h
  refine ⟨⟨[], ledgerReplayWindow coverage file request⟩, ?_, rfl, hcovered⟩
  unfold buildExecutor
  simp [hrestored]

/-- With a snapshot that has what its coverage says, a rebuild loses nothing exactly when it keeps
the snapshot or does not need it. -/
theorem losesNone_iff {coverage : Coverage} {file : SnapshotFile} {request : SolveRequest}
    (hfile : ∀ snapshot, file = .readable snapshot →
      Reflects request.events coverage.coveredSequence snapshot.reflects) :
    (∀ rebuilt ∈ (buildExecutor coverage file request).toOption, LosesNone request rebuilt) ↔
      Keeps coverage file request := by
  by_cases h : Promotable coverage file request
  · refine iff_of_true (fun rebuilt hok event hmem hevent _ => ?_) (Or.inl h)
    obtain ⟨snapshot, hsnapshot, hrestored, hcovered⟩ :=
      buildExecutor_promotable h (except_toOption_some.mp hok)
    rw [hrestored, hcovered]
    rcases Nat.lt_or_ge coverage.coveredSequence event.sequence with hlt | hge
    · exact Or.inr hlt
    · exact Or.inl (hfile snapshot hsnapshot event hmem hevent hge)
  · obtain ⟨rebuilt, hok, hrestored, hcovered⟩ := buildExecutor_fresh h
    constructor
    · intro hall
      refine Or.inr fun event hmem hevent hle => ?_
      have hkept := hall rebuilt (except_toOption_some.mpr hok) event hmem hevent hle
      rw [hrestored, hcovered] at hkept
      exact hkept.resolve_left List.not_mem_nil
    · intro hkeeps built hbuilt event hmem hevent hle
      obtain rfl := Except.ok.inj (hok.symm.trans (except_toOption_some.mp hbuilt))
      rw [hcovered]
      exact Or.inr (hkeeps.resolve_left h event hmem hevent hle)

/-! ## The ledger -/

theorem ledgerStep_events {grid : Geometry} {s t : Scenario} {op : LedgerOp}
    (hstep : ledgerStep grid s op = some t) :
    (∃ bodies, t.events = s.events ++ s.newEvents bodies ∧
      t.editSequence = s.editSequence + bodies.length) ∨
    (t.editSequence = s.editSequence ∧
      (t.events = s.events ∨ ∃ eventTail, t.events = (s.sweepRetention eventTail).events)) := by
  cases op with
  | commit base items =>
    obtain ⟨applied, -, hcommit⟩ := except_bind_ok.mp (except_toOption_some.mp hstep)
    obtain ⟨_, -, hpure⟩ := except_bind_ok.mp hcommit
    obtain rfl := Except.ok.inj hpure
    exact Or.inl ⟨_, rfl, rfl⟩
  | universal base operations =>
    obtain ⟨_, -, hpure⟩ := except_bind_ok.mp (except_toOption_some.mp hstep)
    obtain rfl := Except.ok.inj hpure
    exact Or.inl ⟨_, rfl, rfl⟩
  | reset base =>
    obtain ⟨_, -, hpure⟩ := except_bind_ok.mp (except_toOption_some.mp hstep)
    obtain rfl := Except.ok.inj hpure
    exact Or.inl ⟨[.reset], rfl, rfl⟩
  | publish watermark =>
    simp only [ledgerStep, Option.ite_none_right_eq_some, Option.some.injEq] at hstep
    obtain ⟨-, rfl⟩ := hstep
    exact Or.inr ⟨rfl, Or.inl rfl⟩
  | sweep eventTail =>
    obtain rfl := Option.some.inj hstep
    exact Or.inr ⟨rfl, Or.inr ⟨eventTail, rfl⟩⟩

/-- The events have the sequences that were handed out. -/
def Numbered (s : Scenario) : Prop :=
  ∀ event ∈ s.events, 0 < event.sequence ∧ event.sequence ≤ s.editSequence

section Ledger

variable {grid : Geometry} {s t : Scenario} {op : LedgerOp}

theorem Numbered.step (h : Numbered s) (hstep : ledgerStep grid s op = some t) :
    Numbered t ∧ s.editSequence ≤ t.editSequence := by
  rcases ledgerStep_events hstep with ⟨bodies, hevents, hlast⟩ | ⟨hlast, hevents | ⟨tail, hevents⟩⟩
  · refine ⟨fun event hevent => ?_, by omega⟩
    rw [hevents, List.mem_append] at hevent
    rcases hevent with hold | hnew
    · have := h event hold
      omega
    · have := mem_newEvents hnew
      omega
  · refine ⟨fun event hevent => ?_, by omega⟩
    rw [hlast]
    exact h event (hevents ▸ hevent)
  · refine ⟨fun event hevent => ?_, by omega⟩
    rw [hlast]
    rw [hevents] at hevent
    exact h event (List.mem_filter.mp hevent).1

/-- An edit that stands after a step is new, or it stood before. A sweep takes a reset only with
everything before it. -/
theorem standing_step {event : EditEvent} (hstep : ledgerStep grid s op = some t)
    (hmem : event ∈ t.events) (hstands : Standing t.events event)
    (hle : event.sequence ≤ s.editSequence) : event ∈ s.events ∧ Standing s.events event := by
  obtain ⟨hfamily, hresets⟩ := hstands
  rcases ledgerStep_events hstep with ⟨bodies, hevents, -⟩ | ⟨-, hevents | ⟨tail, hevents⟩⟩
  · rw [hevents, List.mem_append] at hmem
    rcases hmem with hold | hnew
    · refine ⟨hold, hfamily, fun reset hreset => hresets reset ?_⟩
      rw [hevents]
      exact List.mem_append_left _ hreset
    · have := (mem_newEvents hnew).1
      omega
  · exact hevents ▸ ⟨hmem, hfamily, hresets⟩
  · rw [hevents] at hmem
    obtain ⟨hold, hkept⟩ := List.mem_filter.mp hmem
    refine ⟨hold, hfamily, fun reset hreset his => ?_⟩
    by_cases hprunable : s.Prunable tail reset
    · have hout : ¬ s.Prunable tail event := of_decide_eq_true hkept
      unfold Scenario.Prunable at hprunable hout
      omega
    · apply hresets reset _ his
      rw [hevents]
      exact List.mem_filter.mpr ⟨hreset, by simpa using hprunable⟩

end Ledger

/-! ## What the host keeps -/

/-- The sequences have the standing edits up to a sequence that the ledger has reached. -/
def Recorded (s : Scenario) (covered : Nat) (sequences : List Nat) : Prop :=
  covered ≤ s.editSequence ∧ Reflects s.events covered sequences

theorem Recorded.step {grid : Geometry} {s t : Scenario} {op : LedgerOp} {covered : Nat}
    {sequences : List Nat} (hnumbered : Numbered s) (h : Recorded s covered sequences)
    (hstep : ledgerStep grid s op = some t) : Recorded t covered sequences := by
  refine ⟨le_trans h.1 (hnumbered.step hstep).2, fun event hmem hevent hle => ?_⟩
  obtain ⟨hold, hstood⟩ := standing_step hstep hmem hevent (le_trans hle h.1)
  exact h.2 event hold hstood hle

/-- Snapshots and executors have the edits that they claim to have. -/
structure Truthful (s : Host) : Prop where
  numbered : Numbered s.scenario
  jobs : ∀ (jobId : String) (job : SolveJob), s.jobs[jobId]? = some job →
    job.editWatermark ≤ s.scenario.editSequence
  sidecar : ∀ snapshot, s.dir.snapshotFile s.dir.readCoverage = .readable snapshot →
    Recorded s.scenario s.dir.readCoverage.coveredSequence snapshot.reflects
  pending : ∀ info snapshot, s.dir.pending = some ⟨some info, .readable snapshot⟩ →
    Recorded s.scenario info.coveredSequence snapshot.reflects
  solving : ∀ solving, s.solving = some solving →
    Recorded s.scenario solving.request.editWatermark solving.applied

theorem truthful_initial : Truthful .initial where
  numbered := fun event hevent => by cases hevent
  jobs := fun jobId job hjob => by simp [Host.initial] at hjob
  sidecar := fun snapshot hsnapshot => by cases hsnapshot
  pending := fun info snapshot hpending => by cases hpending
  solving := fun solving hsolving => by cases hsolving

theorem reconcileCoverage_spec (dir : StateDir) (status : String → Option JobStatus)
    (request : SolveRequest) :
    (dir.reconcileCoverage status request).1.pending = none ∧
      (dir.reconcileCoverage status request).1.readCoverage =
        (dir.reconcileCoverage status request).2 ∧
      (dir.reconcileCoverage status request = (dir.discardPending, dir.readCoverage) ∨
        ∃ info snapshot, dir.pending = some ⟨some info, .readable snapshot⟩ ∧
          dir.reconcileCoverage status request =
            dir.promotePending info (.readable snapshot)) := by
  have hkept : dir.discardPending.pending = none ∧
      dir.discardPending.readCoverage = dir.readCoverage := ⟨rfl, rfl⟩
  unfold StateDir.reconcileCoverage
  split
  · rename_i info file hpending
    split
    · rename_i hadopt
      unfold adoptable at hadopt
      split at hadopt
      · refine ⟨rfl, ?_, Or.inr ⟨info, _, hpending, rfl⟩⟩
        simp [StateDir.promotePending, StateDir.readCoverage]
      · cases hadopt
    · exact ⟨hkept.1, hkept.2, Or.inl rfl⟩
  · exact ⟨hkept.1, hkept.2, Or.inl rfl⟩

theorem promotePending_file (dir : StateDir) (info : PendingMeta) (file : SnapshotFile) :
    (dir.promotePending info file).1.snapshotFile (dir.promotePending info file).2 = file := by
  simp [StateDir.promotePending, StateDir.snapshotFile]

theorem recorded_zero {s : Scenario} (h : Numbered s) (sequences : List Nat) :
    Recorded s 0 sequences := by
  refine ⟨Nat.zero_le _, fun event hmem _ hle => ?_⟩
  have := (h event hmem).1
  omega

theorem sidecar_of_fewer {s : Host} (h : Truthful s) {generations : Dict String SnapshotFile}
    (hfewer : ∀ (id : String) (snapshot : Snapshot), generations[id]? = some (.readable snapshot) →
      s.dir.generations[id]? = some (.readable snapshot)) {snapshot : Snapshot}
    (hfile : ({ s.dir with generations } : StateDir).snapshotFile
      ({ s.dir with generations } : StateDir).readCoverage = .readable snapshot) :
    Recorded s.scenario ({ s.dir with generations } : StateDir).readCoverage.coveredSequence
      snapshot.reflects := by
  have hbefore := h.sidecar snapshot
  unfold StateDir.readCoverage StateDir.snapshotFile at hfile hbefore
  unfold StateDir.readCoverage
  rcases hsidecar : s.dir.sidecar with _ | ⟨covered, _ | generation⟩
  · exact recorded_zero h.numbered _
  · simp only [hsidecar] at hfile hbefore ⊢
    exact hbefore hfile
  · simp only [hsidecar] at hfile hbefore ⊢
    by_cases hnow : generation ∈ generations
    · simp only [hnow, if_true] at hfile ⊢
      have hfound : generations[generation]? = some (.readable snapshot) := by
        rw [Std.ExtTreeMap.mem_iff_isSome_getElem?] at hnow
        obtain ⟨file, hsome⟩ := Option.isSome_iff_exists.mp hnow
        rw [hsome] at hfile
        rw [hsome]
        exact congrArg some hfile
      have hold := hfewer generation snapshot hfound
      have hmem : generation ∈ s.dir.generations :=
        Std.ExtTreeMap.mem_iff_isSome_getElem?.mpr (by simp [hold])
      simp only [hmem, if_true, hold] at hbefore
      exact hbefore rfl
    · simp only [hnow, if_false]
      exact recorded_zero h.numbered _

section Steps

variable {grid : Geometry} {s t : Host} {op : HostOp}

theorem Truthful.promoted (h : Truthful s) (request : SolveRequest) {snapshot : Snapshot}
    (hfile : s.promoted request = .readable snapshot) :
    Recorded s.scenario (s.reconciled request).2.coveredSequence snapshot.reflects := by
  unfold Host.promoted at hfile
  unfold Host.reconciled at hfile ⊢
  rcases (reconcileCoverage_spec s.dir s.jobStatus request).2.2 with
    heq | ⟨info, staged, hpending, heq⟩
  · rw [heq] at hfile ⊢
    exact h.sidecar snapshot hfile
  · rw [heq] at hfile ⊢
    rw [promotePending_file, SnapshotFile.readable.injEq] at hfile
    exact h.pending info snapshot (hfile ▸ hpending)

theorem guard_solve {request : SolveRequest} {solving : Solving}
    (hok : s.solve request = .ok solving) :
    ∃ rebuilt, s.rebuild request = .ok rebuilt ∧ solving.request = request ∧
      ∀ sequence, sequence ∈ solving.applied ↔ sequence ∈ rebuilt.restored ∨
        ∃ event ∈ request.events, isFamily event = true ∧
          rebuilt.window.covered < event.sequence ∧ event.sequence ≤ request.editWatermark ∧
          event.sequence = sequence := by
  obtain ⟨rebuilt, hrebuilt, hrest⟩ := except_bind_ok.mp hok
  obtain ⟨_, -, hpure⟩ := except_bind_ok.mp hrest
  obtain rfl := Except.ok.inj hpure
  refine ⟨rebuilt, hrebuilt, rfl, fun sequence => ?_⟩
  simp only [pendingEvents, List.mem_append, List.mem_map, List.mem_filter, decide_eq_true_eq]
  refine or_congr_right (exists_congr fun event => ?_)
  tauto

/-- The rebuild of the step, if it is one, loses nothing. -/
def LosesNoneAt (s : Host) : HostOp → Prop
  | .dispatch jobId => ∀ job ∈ s.jobs[jobId]?,
    ∀ rebuilt ∈ (s.rebuild (s.requestOf jobId job)).toOption,
      LosesNone (s.requestOf jobId job) rebuilt
  | _ => True

def KeepsAt (s : Host) : HostOp → Prop
  | .dispatch jobId => ∀ job ∈ s.jobs[jobId]?,
    Keeps (s.reconciled (s.requestOf jobId job)).2 (s.promoted (s.requestOf jobId job))
      (s.requestOf jobId job)
  | _ => True

instance (s : Host) : (op : HostOp) → Decidable (LosesNoneAt s op)
  | .dispatch jobId => inferInstanceAs (Decidable (∀ job ∈ s.jobs[jobId]?,
      ∀ rebuilt ∈ (s.rebuild (s.requestOf jobId job)).toOption, LosesNone _ rebuilt))
  | .ledger _ | .submit .. | .stage _ | .abandon | .settle .. | .loseSidecar | .loseGeneration _
  | .damageGeneration .. => inferInstanceAs (Decidable True)

instance (s : Host) : (op : HostOp) → Decidable (KeepsAt s op)
  | .dispatch jobId => inferInstanceAs (Decidable (∀ job ∈ s.jobs[jobId]?, Keeps _ _ _))
  | .ledger _ | .submit .. | .stage _ | .abandon | .settle .. | .loseSidecar | .loseGeneration _
  | .damageGeneration .. => inferInstanceAs (Decidable True)

theorem losesNoneAt_iff (h : Truthful s) : LosesNoneAt s op ↔ KeepsAt s op := by
  cases op with
  | dispatch jobId =>
    refine forall_congr' fun job => imp_congr_right fun _ => ?_
    apply losesNone_iff
    exact fun snapshot hfile => (h.promoted _ hfile).2
  | _ => exact Iff.rfl

theorem recorded_solve {request : SolveRequest} {solving : Solving}
    (hevents : request.events = s.scenario.events)
    (hreached : request.editWatermark ≤ s.scenario.editSequence)
    (hnone : ∀ rebuilt ∈ (s.rebuild request).toOption, LosesNone request rebuilt)
    (hok : s.solve request = .ok solving) :
    Recorded s.scenario solving.request.editWatermark solving.applied := by
  obtain ⟨rebuilt, hrebuilt, rfl, happlied⟩ := guard_solve hok
  refine ⟨hreached, fun event hmem hevent hle => (happlied _).mpr ?_⟩
  rw [← hevents] at hmem hevent
  refine (hnone rebuilt (except_toOption_some.mpr hrebuilt) event hmem hevent hle).imp id fun hlt => ?_
  exact ⟨event, hmem, hevent.1, hlt, hle, rfl⟩

theorem Truthful.step (h : Truthful s) (hnone : LosesNoneAt s op)
    (hstep : hostStep grid s op = some t) : Truthful t := by
  unfold hostStep at hstep
  cases op with
  | ledger op =>
    obtain ⟨scenario, hscenario, rfl⟩ := Option.map_eq_some_iff.mp hstep
    have hnext := h.numbered.step hscenario
    constructor
    · exact hnext.1
    · exact fun jobId job hjob => le_trans (h.jobs jobId job hjob) hnext.2
    · exact fun snapshot hfile => (h.sidecar snapshot hfile).step h.numbered hscenario
    · exact fun info snapshot hfile => (h.pending info snapshot hfile).step h.numbered hscenario
    · exact fun solving hsolving => (h.solving solving hsolving).step h.numbered hscenario
  | submit jobId exactLane editWatermark =>
    simp only [Option.ite_none_right_eq_some, Option.some.injEq] at hstep
    obtain ⟨⟨-, hle⟩, rfl⟩ := hstep
    refine ⟨h.numbered, fun id job hjob => ?_, h.sidecar, h.pending, h.solving⟩
    rcases Dict.of_getElem?_insert hjob with ⟨-, rfl⟩ | hold
    · exact hle
    · exact h.jobs id job hold
  | dispatch jobId =>
    simp only at hstep
    split at hstep
    · rename_i job hjob hidle
      simp only [Option.ite_none_right_eq_some, Option.some.injEq] at hstep
      obtain ⟨-, rfl⟩ := hstep
      obtain ⟨hpending, hread, -⟩ :=
        reconcileCoverage_spec s.dir s.jobStatus (s.requestOf jobId job)
      refine ⟨h.numbered, fun id row hrow => ?_, fun snapshot hfile => ?_,
        fun info snapshot hstaged => ?_, fun solving hsolving => ?_⟩
      · rcases Dict.of_getElem?_insert hrow with ⟨-, rfl⟩ | hold
        · exact h.jobs jobId job hjob
        · exact h.jobs id row hold
      · change (s.reconciled _).1.snapshotFile (s.reconciled _).1.readCoverage = _ at hfile
        change Recorded _ (s.reconciled _).1.readCoverage.coveredSequence _
        unfold Host.reconciled at hfile ⊢
        rw [hread] at hfile ⊢
        exact h.promoted _ hfile
      · change (s.reconciled _).1.pending = _ at hstaged
        unfold Host.reconciled at hstaged
        rw [hpending] at hstaged
        cases hstaged
      · change (s.solve _).toOption = _ at hsolving
        cases hsolve : s.solve (s.requestOf jobId job) with
        | error e =>
          rw [hsolve] at hsolving
          cases hsolving
        | ok built =>
          rw [hsolve] at hsolving
          obtain rfl := Option.some.inj hsolving
          have hsolved := recorded_solve (s := s) rfl (h.jobs jobId job hjob) (hnone job hjob) hsolve
          exact hsolved
    · cases hstep
  | stage accepted =>
    simp only at hstep
    split at hstep
    · rename_i solving hsolving
      obtain rfl := Option.some.inj hstep
      refine ⟨h.numbered, h.jobs, h.sidecar, fun info snapshot hstaged => ?_,
        fun _ hnone => by cases hnone⟩
      simp only [Option.some.injEq, Pending.mk.injEq, SnapshotFile.readable.injEq] at hstaged
      obtain ⟨rfl, rfl⟩ := hstaged
      exact h.solving solving hsolving
    · cases hstep
  | abandon =>
    obtain rfl := Option.some.inj hstep
    exact ⟨h.numbered, h.jobs, h.sidecar, h.pending, fun _ hnone => by cases hnone⟩
  | settle jobId status =>
    simp only at hstep
    split at hstep
    · rename_i job hjob
      obtain rfl := Option.some.inj hstep
      refine ⟨h.numbered, fun id row hrow => ?_, h.sidecar, h.pending, h.solving⟩
      rcases Dict.of_getElem?_insert hrow with ⟨-, rfl⟩ | hold
      · exact h.jobs jobId job hjob
      · exact h.jobs id row hold
    · cases hstep
  | loseSidecar =>
    obtain rfl := Option.some.inj hstep
    exact ⟨h.numbered, h.jobs, fun snapshot _ => recorded_zero h.numbered _, h.pending, h.solving⟩
  | loseGeneration generation =>
    obtain rfl := Option.some.inj hstep
    refine ⟨h.numbered, h.jobs, fun snapshot hfile => ?_, h.pending, h.solving⟩
    exact sidecar_of_fewer h (fun id file hfound => Dict.of_getElem?_erase hfound) hfile
  | damageGeneration generation gone =>
    simp only [Option.ite_none_right_eq_some, Option.some.injEq] at hstep
    obtain ⟨-, rfl⟩ := hstep
    refine ⟨h.numbered, h.jobs, fun snapshot hfile => ?_, h.pending, h.solving⟩
    refine sidecar_of_fewer h (fun id file hfound => ?_) hfile
    rcases Dict.of_getElem?_insert hfound with ⟨-, hdamaged⟩ | hold
    · cases gone <;> cases hdamaged
    · exact hold

end Steps

/-- In every run of jobs, edits, resets, sweeps and losses on disk from a truthful host, no rebuild
loses a standing family edit exactly when each of them keeps the snapshot or does not need it. -/
theorem rebuilds_lose_none_iff (grid : Geometry) {s : Host} (hstart : Truthful s)
    (ops : List HostOp) :
    EachStep (hostStep grid) LosesNoneAt s ops ↔ EachStep (hostStep grid) KeepsAt s ops := by
  refine eachStep_congr_while (fun s op t (h : Truthful s) hkeeps hstep => ?_)
    (fun s op h => losesNoneAt_iff h) hstart
  exact h.step ((losesNoneAt_iff h).mpr hkeeps) hstep

/-! ## A snapshot of the other lane -/

def exactMarker : ExactLane := ⟨1, 0, 0, 1, false⟩

/-- Two legacy jobs: the second adopts the snapshot of the first, which has the first edit. -/
def legacyJobs : List HostOp :=
  [.ledger (.universal 0 ["paint"]), .submit "a" none 1, .dispatch "a", .stage true,
    .settle "a" .complete, .ledger (.universal 1 ["paint"]), .submit "b" none 2, .dispatch "b",
    .stage true, .settle "b" .complete, .submit "c" (some exactMarker) 2]

theorem legacy_jobs_lose_none :
    EachStep (hostStep unitSite) LosesNoneAt .initial legacyJobs :=
  (rebuilds_lose_none_iff unitSite truthful_initial legacyJobs).mpr (by decide +kernel)

/-- A job of the exact lane drops the snapshot and keeps its coverage. -/
theorem exact_lane_loses_edit : ¬ ∀ ops : List HostOp,
    EachStep (hostStep unitSite) LosesNoneAt .initial ops := by
  intro h
  exact absurd (h (legacyJobs ++ [.dispatch "c"])) (by decide +kernel)

/-- A reset of the model parameters is an edit, and stands as the last reset of the window. -/
example : ¬ EachStep (hostStep unitSite) LosesNoneAt .initial
    [.ledger (.universal 0 ["paint"]), .ledger (.universal 1 ["reset"]), .submit "a" none 2,
      .dispatch "a"] := by
  decide +kernel

end Solweig.Bridge
