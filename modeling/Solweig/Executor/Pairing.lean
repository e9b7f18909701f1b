import Mathlib.Algebra.Order.Ring.Rat
import Solweig.Executor.Restore
import Solweig.Executor.Supersession

/-!
# The watermark and the applied overlays

A snapshot is refused when the worker's watermark and the overlays that the executor has applied
do not describe one published batch. After a batch, whatever its end, they do.
-/

namespace Solweig.Executor

open Solweig.Lib Solweig.Planner

variable {P B G : Type}

/-! ## What a snapshot asks for -/

/-- The sources on which the worker and the executor disagree. No parameters are empty ones. -/
def pairingProblems [DecidableEq P] (s : PlanExecutor P B G) : List String :=
  let watermarks := s.worker.published
  (if watermarks.forcingOverlay ≠ s.appliedForcingOverlay then ["forcing overlay"] else []) ++
    (if watermarks.landcoverOverlay ≠ s.appliedLandcoverOverlay then ["land-cover overlay"] else []) ++
    (if watermarks.modelParameters.getD ∅ ≠ s.appliedModelParameters.getD ∅ then
      ["model parameters"] else [])

/-- The overlays that a worker has staged are those of the batch. -/
def Staged (worker : Worker P) (p : Prepared P B) : Prop :=
  worker.forcingOverlay = p.forcingOverlay ∧ worker.landcoverOverlay = p.landcoverOverlay ∧
    worker.modelParameters.getD ∅ = p.modelParameters.getD ∅

/-- The watermark describes the batch. -/
def Depicts (published : PublicationWatermarks P) (p : Prepared P B) : Prop :=
  published.forcingOverlay = p.forcingOverlay ∧ published.landcoverOverlay = p.landcoverOverlay ∧
    published.modelParameters.getD ∅ = p.modelParameters.getD ∅

/-- The watermark describes what is applied. -/
def Paired (s : PlanExecutor P B G) : Prop :=
  s.worker.published.forcingOverlay = s.appliedForcingOverlay ∧
    s.worker.published.landcoverOverlay = s.appliedLandcoverOverlay ∧
    s.worker.published.modelParameters.getD ∅ = s.appliedModelParameters.getD ∅

theorem pairingProblems_nil [DecidableEq P] {s : PlanExecutor P B G} :
    pairingProblems s = [] ↔ Paired s := by
  simp only [pairingProblems, Paired, List.append_eq_nil_iff, ite_eq_right_iff, List.cons_ne_nil,
    imp_false, not_not, and_assoc]

theorem paired_of_settled {s t : PlanExecutor P B G} (h : settled t = settled s) (hs : Paired s) :
    Paired t := by
  have hsame : Paired (settled t) := h ▸ hs
  exact hsame

/-! ## What is staged -/

section Staging

variable {site : Site P B G} {env : Env} {worker worker' : Worker P} {s t : PlanExecutor P B G}
  {p : Prepared P B}

theorem stageWorker_ok {stage : Worker P → Except Raised (Worker P)} {u : Unit}
    (h : stageWorker stage s = (.ok u, t)) :
    ∃ worker, stage s.worker = .ok worker ∧ t = { s with worker } := by
  unfold stageWorker at h
  split at h
  · next worker hstage =>
    cases h
    exact ⟨worker, hstage, rfl⟩
  · cases h

theorem stageLandcoverOverlay_ok {overlay : Option LandCoverOverlay} {dirty : List RasterWindow}
    (h : worker.stageLandcoverOverlay site overlay dirty = .ok worker') :
    worker'.landcoverOverlay = overlay ∧ worker'.forcingOverlay = worker.forcingOverlay ∧
      worker'.modelParameters = worker.modelParameters := by
  simp only [Worker.stageLandcoverOverlay, except_bind_ok, pure, Except.pure, Except.ok.injEq] at h
  obtain ⟨-, -, -, -, -, -, rfl⟩ := h
  exact ⟨rfl, rfl, rfl⟩

theorem getD_filter_nonempty (parameters : Option (ModelParameters P)) :
    (parameters.filter fun values => ¬ values.isEmpty).getD ∅ = parameters.getD ∅ := by
  cases parameters with
  | none => rfl
  | some values =>
    by_cases hempty : values.isEmpty
    · simp [Option.filter, Std.ExtTreeMap.isEmpty_iff.mp hempty]
    · simp [Option.filter, hempty]

theorem stageModelParameters_ok {parameters : Option (ModelParameters P)}
    (h : worker.stageModelParameters site parameters = .ok worker') :
    worker'.modelParameters.getD ∅ = parameters.getD ∅ ∧
      worker'.forcingOverlay = worker.forcingOverlay := by
  simp only [Worker.stageModelParameters, except_bind_ok, pure, Except.pure,
    Except.ok.injEq] at h
  obtain ⟨-, -, rfl⟩ := h
  exact ⟨getD_filter_nonempty parameters, rfl⟩

theorem stageOverlays_ok {committed : Committed P B} {overlay : Option LandCoverOverlay}
    (h : stageOverlays site committed s = (.ok overlay, t)) :
    t.worker.landcoverOverlay = overlay ∧ t.worker.forcingOverlay = s.worker.forcingOverlay ∧
      t.worker.modelParameters = s.worker.modelParameters := by
  unfold stageOverlays at h
  obtain ⟨current, _, hget, h⟩ := Txn.bind_ok.mp h
  obtain ⟨rfl, rfl⟩ := Txn.get_ok.mp hget
  obtain ⟨fold, _, hfold, h⟩ := Txn.bind_ok.mp h
  obtain ⟨-, rfl⟩ := Txn.ofExcept_ok.mp hfold
  obtain ⟨strokes, _, hstrokes, h⟩ := Txn.bind_ok.mp h
  obtain ⟨-, rfl⟩ := Txn.ofExcept_ok.mp hstrokes
  cases fold with
  | none =>
    obtain ⟨_, _, hmodify, h⟩ := Txn.bind_ok.mp h
    obtain rfl := Txn.modify_ok.mp hmodify
    obtain ⟨_, _, hstage, h⟩ := Txn.bind_ok.mp h
    obtain ⟨worker, hworker, rfl⟩ := stageWorker_ok hstage
    obtain ⟨rfl, rfl⟩ := Txn.pure_ok.mp h
    exact stageLandcoverOverlay_ok hworker
  | some patches =>
    obtain ⟨resolved, _, hresolved, h⟩ := Txn.bind_ok.mp h
    obtain ⟨-, rfl⟩ := Txn.ofExcept_ok.mp hresolved
    obtain ⟨_, _, hmodify, h⟩ := Txn.bind_ok.mp h
    obtain rfl := Txn.modify_ok.mp hmodify
    obtain ⟨_, _, hstage, h⟩ := Txn.bind_ok.mp h
    obtain ⟨worker, hworker, rfl⟩ := stageWorker_ok hstage
    obtain ⟨rfl, rfl⟩ := Txn.pure_ok.mp h
    exact stageLandcoverOverlay_ok hworker

theorem prepare_staged [DecidableEq P] {request : Request P B} {committed : Committed P B}
    (h : prepare site env request committed s = (.ok (some p), t)) : Staged t.worker p := by
  unfold prepare at h
  iterate 4 obtain ⟨_, _, -, h⟩ := Txn.bind_ok.mp h
  obtain ⟨_, _, hforcing, h⟩ := Txn.bind_ok.mp h
  obtain rfl := Txn.modify_ok.mp hforcing
  obtain ⟨parameters, _, hread, h⟩ := Txn.bind_ok.mp h
  obtain ⟨-, rfl⟩ := Txn.ofExcept_ok.mp hread
  obtain ⟨_, _, hstage, h⟩ := Txn.bind_ok.mp h
  obtain ⟨worker, hworker, rfl⟩ := stageWorker_ok hstage
  obtain ⟨hparameters, hkept⟩ := stageModelParameters_ok hworker
  obtain ⟨overlay, _, hoverlays, h⟩ := Txn.bind_ok.mp h
  obtain ⟨hlandcover, hforcing, hsame⟩ := stageOverlays_ok hoverlays
  obtain ⟨edits, _, hedits, h⟩ := Txn.bind_ok.mp h
  obtain ⟨-, rfl⟩ := Txn.ofExcept_ok.mp hedits
  obtain ⟨building, _, hbuilding, h⟩ := Txn.bind_ok.mp h
  obtain ⟨-, rfl⟩ := Txn.ofExcept_ok.mp hbuilding
  obtain ⟨_, _, hget, h⟩ := Txn.bind_ok.mp h
  obtain ⟨rfl, rfl⟩ := Txn.get_ok.mp hget
  split at h
  · obtain ⟨_, _, -, h⟩ := Txn.bind_ok.mp h
    cases (Txn.pure_ok.mp h).1
  · obtain ⟨hp, rfl⟩ := Txn.pure_ok.mp h
    cases hp
    exact ⟨hforcing.trans hkept, hlandcover, (congrArg (·.getD ∅) hsame).trans hparameters⟩

end Staging

/-! ## What a published batch depicts -/

section Published

variable {site : Site P B G} {env : Env} {s t : PlanExecutor P B G} {p : Prepared P B}
  {target : Nat} {outcome : JobOutcome}

theorem workerRun_published [DecidableEq P] {layer : TreeLayer} {revision : Moment → Int} {fraction : Rat}
    {worker worker' : Worker P}
    (h : Worker.run site env layer revision target fraction worker = (.ok outcome, worker'))
    (hstatus : outcome.status = .published) :
    ∃ batch, worker'.published = (worker.consume batch).published := by
  unfold Worker.run at h
  obtain ⟨current, _, hget, h⟩ := Txn.bind_ok.mp h
  obtain ⟨rfl, rfl⟩ := Txn.get_ok.mp hget
  obtain ⟨batch, _, hbatch, h⟩ := Txn.bind_ok.mp h
  obtain ⟨-, rfl⟩ := Txn.ofExcept_ok.mp hbatch
  split at h
  · cases (Txn.pure_ok.mp h).1
    cases hstatus
  · rcases hjob : publishJob site env worker layer.live batch revision target fraction with
      (_ | ⟨_, error⟩) | (_ | published)
    all_goals rw [hjob] at h
    · obtain ⟨_, _, -, h⟩ := Txn.bind_ok.mp h
      cases (Txn.pure_ok.mp h).1
      cases hstatus
    · obtain ⟨_, _, -, h⟩ := Txn.bind_ok.mp h
      cases Txn.throw_ok h
    · cases (Txn.pure_ok.mp h).1
      cases hstatus
    · obtain ⟨_, _, hmodify, h⟩ := Txn.bind_ok.mp h
      obtain rfl := Txn.modify_ok.mp hmodify
      obtain ⟨-, rfl⟩ := Txn.pure_ok.mp h
      exact ⟨batch, rfl⟩

/-- The worker has adopted the batch, or the commit has it adopt it. -/
def Adopted (p : Prepared P B) (metPublished : Bool) (worker : Worker P) : Prop :=
  (¬ p.massingFold.isEmpty ∨ metPublished) ∨ Depicts worker.published p

theorem dispatch_adopted [DecidableEq P] {metPublished : Bool} (hstaged : Staged s.worker p)
    (h : dispatch site env p target s = (.ok (outcome, metPublished), t))
    (hstatus : outcome.status = .published) : Adopted p metPublished t.worker := by
  unfold dispatch at h
  obtain ⟨current, _, hget, h⟩ := Txn.bind_ok.mp h
  obtain ⟨rfl, rfl⟩ := Txn.get_ok.mp hget
  obtain ⟨taken, _, hpath, h⟩ := Txn.bind_ok.mp h
  obtain ⟨-, rfl⟩ := Txn.ofExcept_ok.mp hpath
  cases taken with
  | some taken =>
    obtain ⟨_, _, -, h⟩ := Txn.bind_ok.mp h
    cases (Txn.pure_ok.mp h).1
    exact Or.inl (Or.inr (decide_eq_true hstatus))
  | none =>
    dsimp only at h
    split at h
    · obtain ⟨_, _, hwork, h⟩ := Txn.bind_ok.mp h
      obtain ⟨hresult, rfl⟩ := Txn.pure_ok.mp h
      cases hresult
      unfold runWorker at hwork
      rw [Prod.mk.injEq] at hwork
      obtain ⟨hrun, rfl⟩ := hwork
      obtain ⟨batch, hconsumed⟩ := workerRun_published (Prod.ext hrun rfl) hstatus
      exact Or.inr ((congrArg (Depicts · p) hconsumed).mpr hstaged)
    · next hmassing => exact Or.inl (Or.inl hmassing)

theorem attempt_adopted [DecidableEq P] {result : ExecutedPlan × Bool} (hstaged : Staged s.worker p)
    (h : attemptBatch site env p target s = (.ok result, t))
    (hstatus : result.1.status = .published) : Adopted p result.2 t.worker := by
  obtain ⟨outcome, u, hdispatch, hrecord⟩ := attemptBatch_ok.mp h
  have hadopted := dispatch_adopted hstaged hdispatch (recordOutcome_published hrecord hstatus).1
  rcases recordOutcome_cases site env p outcome u with
    ⟨_, store, hrecorded, -⟩ | ⟨_, hrecorded, -⟩ | ⟨_, hrecorded⟩
  all_goals
    rw [hrecord] at hrecorded
    cases hrecorded
  · exact hadopted
  · exact hadopted

theorem commitBatch_paired {ackedSequence : Nat} {metPublished : Bool} (hsound : s.layer.Sound)
    (hadopted : Adopted p metPublished s.worker) :
    Paired (commitBatch p ackedSequence metPublished s).2 := by
  obtain ⟨pending, hpending⟩ := pendingBatch_total s.worker hsound
  unfold commitBatch
  rw [Txn.bind_of_ok (Txn.modify_ok (u := ()).mpr rfl)]
  split
  · rw [Txn.bind_of_ok (Txn.get_ok.mpr ⟨rfl, rfl⟩),
      Txn.bind_of_ok (Txn.ofExcept_ok.mpr ⟨hpending, rfl⟩)]
    exact ⟨rfl, rfl, rfl⟩
  · next hworker => exact hadopted.resolve_left hworker

end Published

/-! ## Runs -/

variable [DecidableEq P]

theorem executePrepared_paired (site : Site P B G) (env : Env) {p : Prepared P B}
    {before : PlanExecutor P B G} (hsound : before.layer.Sound) (hpaired : Paired before)
    (hstaged : Staged before.worker p) : Paired (executePrepared site env p before).2 := by
  unfold executePrepared
  rcases before.state.advance site.graph p.plan.changedSources with error | state
  · exact hpaired
  have hreplay := replayTreeEdits_sound hsound p.batchEdits
  dsimp only [replayBatch]
  rcases hrun : replayTreeEdits before.layer p.batchEdits with ⟨layer, error | ⟨⟩⟩
  · exact hpaired
  rw [hrun] at hreplay
  dsimp only [Except.mapError]
  rcases attempt_cases site env p state.sceneRevision { before with state, layer } with
    ⟨result, worker, store, hattempt, hstatus⟩ | ⟨result, worker, hattempt, hstatus⟩ |
      ⟨error, worker, hattempt⟩
  all_goals
    rw [hattempt]
    dsimp only
  · rw [if_pos hstatus]
    have hadopted :=
      attempt_adopted (s := { before with state, layer }) hstaged hattempt hstatus
    have hcommitted : Paired (commitBatch p before.worker.published.ackedSequence result.2
        { before with state, layer, worker, store }).2 := commitBatch_paired hreplay hadopted
    apply Txn.bind_elim (Q := fun ended => Paired ended.2)
    · intro error t h
      rwa [h] at hcommitted
    · intro _ t h
      rwa [h] at hcommitted
  · rw [if_neg hstatus]
    unfold rollbackFailedBatch
    rcases undoTreeEdits layer p.batchEdits with ⟨undone, failure | ⟨⟩⟩
    all_goals exact hpaired
  · exact hpaired

variable [DecidableEq B]

theorem executePlan_paired (site : Site P B G) (env : Env) (request : Request P B)
    {s : PlanExecutor P B G} (hsound : s.layer.Sound) (hpaired : Paired s) :
    Paired (executePlan site env request s).2 := by
  rcases executePlan_dispatched site env request s with ⟨hsettled, -⟩ |
    ⟨committed, p, t, -, hprepare, hexecute⟩
  · exact paired_of_settled hsettled hpaired
  · have hsettled := (keeps_prepare site env request committed).ended hprepare
    rw [hexecute]
    apply executePrepared_paired site env _ (paired_of_settled hsettled hpaired)
      (prepare_staged hprepare)
    rwa [layer_of_settled hsettled]

/-- In every run, a snapshot taken between two batches finds no contradiction. -/
theorem snapshots_are_paired {site : Site P B G} {ops : List (ExecutorOp P B)}
    {s : PlanExecutor P B G} (hrun : run (executorStep site) (.initial site) ops = some s) :
    pairingProblems s = [] := by
  rw [pairingProblems_nil]
  refine (run_invariant (I := fun s : PlanExecutor P B G => s.layer.Sound ∧ Paired s)
    (C := fun _ _ => True) ?_ ⟨TreeLayer.empty_sound, rfl, rfl, rfl⟩
    (eachStep_of_forall (fun _ _ => trivial) _ _) hrun).2
  rintro s (tree | ⟨env, request⟩) t ⟨hsound, hpaired⟩ - hstep
  · obtain rfl := Option.some.inj hstep
    exact ⟨TreeLayer.mutateAll_sound hsound _, hpaired⟩
  · obtain rfl := Option.some.inj hstep
    exact ⟨executePlan_sound site env request hsound, executePlan_paired site env request hsound hpaired⟩

theorem snapshots_are_paired_idle : ∃ s, run (executorStep (cellSite false)) (.initial (cellSite false))
    idleOps = some s ∧ pairingProblems s = [] := by
  have hsome : (run (executorStep (cellSite false)) (.initial (cellSite false)) idleOps).isSome =
      true := rfl
  obtain ⟨s, hrun⟩ := Option.isSome_iff_exists.mp hsome
  exact ⟨s, hrun, snapshots_are_paired hrun⟩

end Solweig.Executor
