import Mathlib.Algebra.Order.Ring.Rat
import Solweig.Executor.Execute
import Solweig.Lib.Run

/-!
# Atomic batches

A batch that raises, is superseded or folds to a no-op leaves the scene as it was, and a
published batch leaves each edited tree in its new state, where every edit starts in the live
tree. The replay looks at tree ids only, so without that the undo restores what the batch says
was there.
-/

namespace Solweig.Executor

open Solweig.Lib Solweig.Planner

variable {P B G : Type}

/-- What a batch may change. -/
structure Scene (P B : Type) where
  state : SceneState
  live : Dict String TreeSpec
  watermarks : PublicationWatermarks P
  store : Incremental.TemporalResultStore
  forcingOverlay : Option Incremental.ForcingOverlay
  landcoverOverlay : Option LandCoverOverlay
  modelParameters : Option (ModelParameters P)
  massingEdits : MassingFold B

def PlanExecutor.scene (s : PlanExecutor P B G) : Scene P B where
  state := s.state
  live := s.layer.live
  watermarks := s.worker.published
  store := s.store
  forcingOverlay := s.appliedForcingOverlay
  landcoverOverlay := s.appliedLandcoverOverlay
  modelParameters := s.appliedModelParameters
  massingEdits := s.appliedMassingEdits

/-! ## Staging -/

/-- What the staging seams leave alone. -/
def settled (s : PlanExecutor P B G) : PlanExecutor P B G :=
  { s with
    worker :=
      { Worker.initial with
        published := s.worker.published
        resultsRoot := s.worker.resultsRoot }
    stagedLandcoverResolved := none
    stagedLandcoverValueDiff := [] }

theorem layer_of_settled {s t : PlanExecutor P B G} (h : settled t = settled s) :
    t.layer = s.layer := by
  show (settled t).layer = (settled s).layer
  rw [h]

theorem resultsRoot_of_settled {s t : PlanExecutor P B G} (h : settled t = settled s) :
    t.worker.resultsRoot = s.worker.resultsRoot := by
  show (settled t).worker.resultsRoot = (settled s).worker.resultsRoot
  rw [h]

theorem scene_of_settled {s t : PlanExecutor P B G} (h : settled t = settled s) :
    t.scene = s.scene := by
  show (settled t).scene = (settled s).scene
  rw [h]

theorem keeps_stageWorker {stage : Worker P → Except Raised (Worker P)}
    (h : ∀ worker worker', stage worker = .ok worker' →
      worker'.published = worker.published ∧ worker'.resultsRoot = worker.resultsRoot) :
    Txn.Keeps settled (stageWorker stage : Exec P B G Unit) := by
  intro s
  unfold stageWorker
  split
  · next worker hstage =>
    obtain ⟨hpublished, hroot⟩ := h s.worker worker hstage
    unfold settled
    rw [hpublished, hroot]
  · rfl

theorem stageLandcoverOverlay_settled {site : Site P B G} {worker worker' : Worker P}
    {overlay : Option LandCoverOverlay} {dirty : List RasterWindow}
    (h : worker.stageLandcoverOverlay site overlay dirty = .ok worker') :
    worker'.published = worker.published ∧ worker'.resultsRoot = worker.resultsRoot := by
  simp only [Worker.stageLandcoverOverlay, except_bind_ok, pure, Except.pure, Except.ok.injEq] at h
  obtain ⟨-, -, -, -, -, -, rfl⟩ := h
  exact ⟨rfl, rfl⟩

theorem stageModelParameters_settled {site : Site P B G} {worker worker' : Worker P}
    {modelParameters : Option (ModelParameters P)}
    (h : worker.stageModelParameters site modelParameters = .ok worker') :
    worker'.published = worker.published ∧ worker'.resultsRoot = worker.resultsRoot := by
  simp only [Worker.stageModelParameters, except_bind_ok, pure, Except.pure,
    Except.ok.injEq] at h
  obtain ⟨-, -, rfl⟩ := h
  exact ⟨rfl, rfl⟩

theorem keeps_stageOverlays (site : Site P B G) (committed : Committed P B) :
    Txn.Keeps settled (stageOverlays site committed) := by
  unfold stageOverlays
  refine Txn.keeps_get.bind fun s => Txn.keeps_ofExcept.bind fun fold =>
    Txn.keeps_ofExcept.bind fun strokes => ?_
  cases fold with
  | none =>
    refine Txn.Keeps.bind (Txn.keeps_modify fun _ => rfl) fun _ => ?_
    exact (keeps_stageWorker fun _ _ => stageLandcoverOverlay_settled).bind fun _ =>
      Txn.keeps_pure _
  | some patches =>
    refine Txn.keeps_ofExcept.bind fun resolved => ?_
    refine Txn.Keeps.bind (Txn.keeps_modify fun _ => rfl) fun _ => ?_
    exact (keeps_stageWorker fun _ _ => stageLandcoverOverlay_settled).bind fun _ =>
      Txn.keeps_pure _

theorem keeps_prepare [DecidableEq P] (site : Site P B G) (env : Env) (request : Request P B)
    (committed : Committed P B) : Txn.Keeps settled (prepare site env request committed) := by
  unfold prepare
  refine Txn.Keeps.bind (Txn.keeps_modify fun _ => rfl) fun _ => Txn.keeps_get.bind fun s =>
    Txn.keeps_ofExcept.bind fun forcingOverlay => Txn.keeps_ofExcept.bind fun _ => ?_
  refine Txn.Keeps.bind (Txn.keeps_modify fun _ => rfl) fun _ => Txn.keeps_ofExcept.bind fun _ =>
    (keeps_stageWorker fun _ _ => stageModelParameters_settled).bind fun _ =>
    (keeps_stageOverlays site committed).bind fun _ => Txn.keeps_ofExcept.bind fun _ =>
    Txn.keeps_ofExcept.bind fun _ => Txn.keeps_get.bind fun _ => ?_
  split
  · exact Txn.Keeps.bind (Txn.keeps_modify fun _ => rfl) fun _ => Txn.keeps_pure _
  · exact Txn.keeps_pure _

/-! ## The edits of a batch -/

/-- The edits that a batch makes; none when it cannot be read. -/
def Request.edits [DecidableEq P] [DecidableEq B] (request : Request P B) : List TreeEdit :=
  match groupDeltas request.committedDeltas with
  | .error _ => []
  | .ok committed =>
    match prepareVegetationBatch committed with
    | .error _ => []
    | .ok edits => edits

/-- The preflight refuses the edits, or each of them starts in the live tree. -/
def Agrees (live : Dict String TreeSpec) (edits : List TreeEdit) : Prop :=
  (∃ error, edits.foldlM preflightEdit live = .error error) ∨
    ∀ edit ∈ edits, live[edit.treeId]? = edit.oldTree

theorem validateEdit_ok {edit : TreeEdit} (h : validateEdit edit = .ok ()) : edit.Valid := by
  unfold validateEdit at h
  intro tree htree
  exact except_mapError_ok.mp (forM_ok.mp h tree htree)

theorem prepareVegetationBatch_ok {committed : Committed P B} {edits : List TreeEdit}
    (h : prepareVegetationBatch committed = .ok edits) :
    (edits.map (·.treeId)).Nodup ∧ ∀ edit ∈ edits, edit.Valid := by
  unfold prepareVegetationBatch at h
  dsimp only at h
  split at h
  · cases h
    simp
  · rw [except_bind_ok] at h
    obtain ⟨batch?, hbatch, h⟩ := h
    cases batch? with
    | none => cases h
    | some batch =>
      simp only [except_bind_ok, pure, Except.pure, Except.ok.injEq] at h
      obtain ⟨_, hvalid, rfl⟩ := h
      refine ⟨?_, fun edit hedit => validateEdit_ok (forM_ok.mp hvalid edit hedit)⟩
      unfold coalescedBatchFromDeltas at hbatch
      rw [except_bind_ok] at hbatch
      obtain ⟨edits, -, hbatch⟩ := hbatch
      split at hbatch
      · cases hbatch
      · simp only [except_bind_ok, except_mapError_ok, pure, Except.pure, Except.ok.injEq] at hbatch
        obtain ⟨made, hmade, hsome⟩ := hbatch
        split at hsome
        · cases hsome
        · cases hsome
          exact coalesceTreeEdits_nodup hmade

theorem Request.edits_ok [DecidableEq P] [DecidableEq B] (request : Request P B) :
    (request.edits.map (·.treeId)).Nodup ∧ ∀ edit ∈ request.edits, edit.Valid := by
  unfold Request.edits
  split
  · simp
  · split
    · simp
    · next edits hedits => exact prepareVegetationBatch_ok hedits

theorem prepare_edits [DecidableEq P] [DecidableEq B] {site : Site P B G} {env : Env}
    {request : Request P B} {committed : Committed P B} {s t : PlanExecutor P B G} {p : Prepared P B}
    (hcommitted : groupDeltas request.committedDeltas = .ok committed)
    (h : prepare site env request committed s = (.ok (some p), t)) :
    p.batchEdits = request.edits := by
  unfold prepare at h
  iterate 8 obtain ⟨_, _, -, h⟩ := Txn.bind_ok.mp h
  obtain ⟨edits, _, hedits, h⟩ := Txn.bind_ok.mp h
  iterate 2 obtain ⟨_, _, -, h⟩ := Txn.bind_ok.mp h
  rw [Request.edits, hcommitted]
  dsimp only
  rw [(Txn.ofExcept_ok.mp hedits).1]
  split at h
  · obtain ⟨_, _, -, h⟩ := Txn.bind_ok.mp h
    cases (Txn.pure_ok.mp h).1
  · obtain ⟨hp, -⟩ := Txn.pure_ok.mp h
    cases hp
    rfl

/-! ## The attempt -/

/-- What a solve path leaves alone. -/
def unworked (s : PlanExecutor P B G) : PlanExecutor P B G := { s with worker := .initial }

theorem keeps_dispatch [DecidableEq P] (site : Site P B G) (env : Env) (p : Prepared P B)
    (target : Nat) : Txn.Keeps unworked (dispatch site env p target) := by
  unfold dispatch
  refine Txn.keeps_get.bind fun s => Txn.keeps_ofExcept.bind fun outcome => ?_
  cases outcome with
  | some outcome => exact Txn.Keeps.bind (Txn.keeps_modify fun _ => rfl) fun _ => Txn.keeps_pure _
  | none =>
    dsimp only
    split
    · exact Txn.Keeps.bind (fun _ => rfl) fun _ => Txn.keeps_pure _
    · refine Txn.keeps_ofExcept.bind fun _ => ?_
      exact Txn.Keeps.bind (Txn.keeps_modify fun _ => rfl) fun _ => Txn.keeps_pure _

theorem recordTemporalEntries_cases (site : Site P B G) (outcome : JobOutcome)
    (s : PlanExecutor P B G) :
    (∃ keys store, recordTemporalEntries site outcome s = (.ok keys, { s with store })) ∨
      ∃ error, recordTemporalEntries site outcome s = (.error error, s) := by
  unfold recordTemporalEntries
  split
  · exact Or.inl ⟨[], s.store, rfl⟩
  · split
    · next store keys _ => exact Or.inl ⟨keys, store, rfl⟩
    · next error _ => exact Or.inr ⟨.store error, rfl⟩

theorem recordOutcome_cases (site : Site P B G) (env : Env) (p : Prepared P B)
    (outcome : JobOutcome) (s : PlanExecutor P B G) :
    (∃ executed store, recordOutcome site env p outcome s = (.ok executed, { s with store }) ∧
        executed.status = .published) ∨
      (∃ executed, recordOutcome site env p outcome s = (.ok executed, s) ∧
        executed.status ≠ .published) ∨
      ∃ error, recordOutcome site env p outcome s = (.error error, s) := by
  rcases hstatus : outcome.status with _ | _ | _ <;> simp only [recordOutcome, hstatus]
  · rcases reconcileScope p.plan outcome with error | ⟨⟩
    · exact Or.inr (Or.inr ⟨error, rfl⟩)
    rcases outcome.patches.zipIdx.forM fun x => env.call (.patchMetadata x.2) with error | ⟨⟩
    · exact Or.inr (Or.inr ⟨error, rfl⟩)
    rcases recordTemporalEntries_cases site outcome s with ⟨keys, store, hrecord⟩ | ⟨error, hrecord⟩
    · refine Or.inl ⟨_, store, (Txn.bind_of_ok rfl).trans
        ((Txn.bind_of_ok rfl).trans (Txn.bind_of_ok hrecord)), ?_⟩
      rfl
    · refine Or.inr (Or.inr ⟨error, ?_⟩)
      exact (Txn.bind_of_ok rfl).trans ((Txn.bind_of_ok rfl).trans (Txn.bind_of_error hrecord))
  · exact Or.inr (Or.inl ⟨_, rfl, by simp [ExecutedPlan.unpublished]⟩)
  · exact Or.inr (Or.inr ⟨_, rfl⟩)

/-! ## One batch -/

/-- What one batch must leave: the scene as it was, or each edited tree in its new state. -/
def Atomic (before : PlanExecutor P B G) (edits : List TreeEdit)
    (result : Except Raised ExecutedPlan × PlanExecutor P B G) : Prop :=
  match result.1 with
  | .error _ => result.2.scene = before.scene
  | .ok executed =>
    if executed.status = .published then
      ∀ edit ∈ edits, result.2.layer.live[edit.treeId]? = edit.newTree
    else result.2.scene = before.scene

theorem Atomic.of_scene {before before' : PlanExecutor P B G} {edits : List TreeEdit}
    {result : Except Raised ExecutedPlan × PlanExecutor P B G} (h : Atomic before edits result)
    (hscene : before.scene = before'.scene) : Atomic before' edits result := by
  unfold Atomic at *
  rwa [← hscene]

theorem attemptBatch_ok [DecidableEq P] {site : Site P B G} {env : Env} {p : Prepared P B}
    {target : Nat} {s t : PlanExecutor P B G} {result : ExecutedPlan × Bool} :
    attemptBatch site env p target s = (.ok result, t) ↔
      ∃ outcome u, dispatch site env p target s = (.ok (outcome, result.2), u) ∧
        recordOutcome site env p outcome u = (.ok result.1, t) := by
  unfold attemptBatch
  rcases dispatch site env p target s with ⟨error | ⟨outcome, metPublished⟩, u⟩
  · simp
  dsimp only
  rcases hrecord : recordOutcome site env p outcome u with ⟨error | executed, v⟩
  · constructor
    · nofun
    · rintro ⟨_, _, hdispatch, hrecorded⟩
      cases hdispatch
      rw [hrecord] at hrecorded
      cases hrecorded
  · constructor
    · intro h
      cases h
      exact ⟨outcome, u, rfl, hrecord⟩
    · rintro ⟨_, _, hdispatch, hrecorded⟩
      cases hdispatch
      rw [hrecord] at hrecorded
      cases hrecorded
      rfl

/-- The outcome of the attempt, and what it may have changed: the worker, and the store when it
published. -/
theorem attempt_cases [DecidableEq P] (site : Site P B G) (env : Env) (p : Prepared P B) (target : Nat)
    (s : PlanExecutor P B G) :
    (∃ result worker store, attemptBatch site env p target s = (.ok result, { s with worker, store }) ∧
        result.1.status = .published) ∨
      (∃ result worker, attemptBatch site env p target s = (.ok result, { s with worker }) ∧
        result.1.status ≠ .published) ∨
      ∃ error worker, attemptBatch site env p target s = (.error error, { s with worker }) := by
  have hkept := keeps_dispatch site env p target s
  rcases hdispatch : dispatch site env p target s with ⟨error | ⟨outcome, metPublished⟩, t⟩
  all_goals
    rw [hdispatch] at hkept
    have ht : t = { s with worker := t.worker } := by
      unfold unworked at hkept
      cases t
      cases s
      simpa using hkept
    rw [ht] at hdispatch
  · exact Or.inr (Or.inr ⟨(error, []), t.worker, by rw [attemptBatch, hdispatch]⟩)
  rcases recordOutcome_cases site env p outcome { s with worker := t.worker } with
    ⟨executed, store, hrecord, hstatus⟩ | ⟨executed, hrecord, hstatus⟩ | ⟨error, hrecord⟩
  · refine Or.inl ⟨(executed, metPublished), t.worker, store, ?_, hstatus⟩
    rw [attemptBatch, hdispatch]
    dsimp only
    rw [hrecord]
  · refine Or.inr (Or.inl ⟨(executed, metPublished), t.worker, ?_, hstatus⟩)
    rw [attemptBatch, hdispatch]
    dsimp only
    rw [hrecord]
  · refine Or.inr (Or.inr ⟨(error, outcome.patchPaths), t.worker, ?_⟩)
    rw [attemptBatch, hdispatch]
    dsimp only
    rw [hrecord]

theorem keeps_commitBatch (p : Prepared P B) (ackedSequence : Nat) (metPublished : Bool) :
    Txn.Keeps (·.layer) (commitBatch p ackedSequence metPublished : Exec P B G Unit) := by
  unfold commitBatch
  refine Txn.Keeps.bind (Txn.keeps_modify fun _ => rfl) fun _ => ?_
  split
  · exact Txn.keeps_get.bind fun s => Txn.keeps_ofExcept.bind fun _ => Txn.keeps_modify fun _ => rfl
  · exact Txn.keeps_pure _

theorem pendingBatch_total (worker : Worker P) {layer : TreeLayer} (hsound : layer.Sound) :
    ∃ pending, worker.pendingBatch layer = .ok pending := by
  unfold Worker.pendingBatch
  dsimp only
  split
  · exact ⟨none, rfl⟩
  · next hne =>
    obtain ⟨batch, hbatch⟩ := hsound.pending_total _ hne
    rw [hbatch]
    exact ⟨some batch, rfl⟩

theorem commitBatch_total (p : Prepared P B) (ackedSequence : Nat) (metPublished : Bool)
    {s : PlanExecutor P B G} (hsound : s.layer.Sound) :
    Txn.Succeeds (commitBatch p ackedSequence metPublished) s := by
  obtain ⟨pending, hpending⟩ := pendingBatch_total s.worker hsound
  have hread : ∀ t : PlanExecutor P B G, (Txn.ofExcept (s.worker.pendingBatch s.layer) :
      Exec P B G _) t = (.ok pending, t) := fun t => by
    rw [hpending]
    rfl
  unfold commitBatch
  refine Txn.succeeds_bind rfl ?_
  split
  · exact Txn.succeeds_bind rfl (Txn.succeeds_bind (hread _) ⟨(), _, rfl⟩)
  · exact ⟨(), _, rfl⟩

theorem rollback_scene {env : Env} {edits : List TreeEdit} {patchPaths : List String}
    {s : PlanExecutor P B G} (before : PlanExecutor P B G) (layer : TreeLayer) (worker : Worker P)
    (hundo : undoTreeEdits s.layer edits = (layer, .ok ())) (hlive : layer.live = before.layer.live)
    (hs : s = { before with state := s.state, layer := s.layer, worker }) :
    (rollbackFailedBatch env edits patchPaths before s).1.scene = before.scene ∧
      (rollbackFailedBatch env edits patchPaths before s).2 = none := by
  unfold rollbackFailedBatch
  rw [hundo]
  refine ⟨?_, rfl⟩
  rw [hs]
  simp only [PlanExecutor.scene, Worker.rollbackPending, Worker.discardPublishedPatches, hlive]

theorem executePrepared_atomic [DecidableEq P] (site : Site P B G) (env : Env) {p : Prepared P B}
    {before : PlanExecutor P B G} (hsound : before.layer.Sound)
    (hids : (p.batchEdits.map (·.treeId)).Nodup) (hvalid : ∀ edit ∈ p.batchEdits, edit.Valid)
    (hagrees : Agrees before.layer.live p.batchEdits) :
    Atomic before p.batchEdits (executePrepared site env p before) := by
  unfold executePrepared
  rcases hadvance : before.state.advance site.graph p.plan.changedSources with error | state
  · rfl
  dsimp only
  rcases hagrees with ⟨refusal, hpreflight⟩ | hlive
  · have hreplay : replayTreeEdits before.layer p.batchEdits = (before.layer, .error refusal) := by
      rw [replayTreeEdits, hpreflight]
    rw [replayBatch, hreplay]
    exact (rollback_scene before before.layer before.worker rfl rfl rfl).1
  have hchained := chained_of_live hids hlive
  obtain ⟨layer, hreplay, hend⟩ := replayTreeEdits_chained hvalid hchained
  have hreplayed : replayBatch p.batchEdits { before with state } =
      (.ok (), { before with state, layer }) := by
    rw [replayBatch, hreplay]
    rfl
  rw [hreplayed]
  obtain ⟨undone, hundo, hback⟩ := undoTreeEdits_chained hvalid hchained hend
  have hlayer : layer.Sound := by
    have := replayTreeEdits_sound hsound p.batchEdits
    rwa [hreplay] at this
  dsimp only
  rcases attempt_cases site env p state.sceneRevision { before with state, layer } with
    ⟨result, worker, store, hattempt, hstatus⟩ | ⟨result, worker, hattempt, hstatus⟩ |
      ⟨error, worker, hattempt⟩
  all_goals
    rw [hattempt]
    dsimp only
  · rw [if_pos hstatus]
    obtain ⟨_, t, hcommit⟩ := commitBatch_total p before.worker.published.ackedSequence result.2
      (s := { before with state, layer, worker, store }) hlayer
    have hkept := (keeps_commitBatch p before.worker.published.ackedSequence result.2).ok hcommit
    rw [Txn.bind_of_ok hcommit]
    unfold Atomic
    dsimp only [pure, Txn.ret]
    rw [if_pos hstatus]
    intro edit hedit
    rw [hkept, hend]
    exact getElem?_applyEdits hids hedit
  · rw [if_neg hstatus]
    obtain ⟨hscene, hnone⟩ := rollback_scene before _ _
      (s := { before with state, layer, worker }) hundo hback rfl
    rcases hrollback : rollbackFailedBatch env p.batchEdits result.1.patchPaths before
      { before with state, layer, worker } with ⟨t, failure⟩
    rw [hrollback] at hscene hnone
    cases hnone
    unfold Atomic
    dsimp only
    rw [if_neg hstatus]
    exact hscene
  · exact (rollback_scene _ _ _ (s := { before with state, layer, worker }) hundo hback rfl).1

theorem executePrepared_sound [DecidableEq P] (site : Site P B G) (env : Env) (p : Prepared P B)
    {before : PlanExecutor P B G} (hsound : before.layer.Sound) :
    (executePrepared site env p before).2.layer.Sound := by
  unfold executePrepared
  rcases before.state.advance site.graph p.plan.changedSources with error | state
  · exact hsound
  have hreplay := replayTreeEdits_sound hsound p.batchEdits
  dsimp only [replayBatch]
  rcases hrun : replayTreeEdits before.layer p.batchEdits with ⟨layer, error | ⟨⟩⟩
  all_goals rw [hrun] at hreplay
  · exact undoTreeEdits_sound hreplay []
  dsimp only [Except.mapError]
  rcases attempt_cases site env p state.sceneRevision { before with state, layer } with
    ⟨result, worker, store, hattempt, hstatus⟩ | ⟨result, worker, hattempt, hstatus⟩ |
      ⟨error, worker, hattempt⟩
  all_goals
    rw [hattempt]
    dsimp only
  · rw [if_pos hstatus]
    have hkept := (keeps_commitBatch p before.worker.published.ackedSequence result.2).bind
      (fun _ => Txn.keeps_pure (ε := Raised) result.1) { before with state, layer, worker, store }
    rw [hkept]
    exact hreplay
  · rw [if_neg hstatus]
    have hundo := undoTreeEdits_sound hreplay p.batchEdits
    unfold rollbackFailedBatch
    rcases hback : undoTreeEdits layer p.batchEdits with ⟨undone, failure | ⟨⟩⟩
    all_goals
      rw [hback] at hundo
      exact hundo
  · exact undoTreeEdits_sound hreplay p.batchEdits

/-! ## Runs -/

variable [DecidableEq P] [DecidableEq B]

/-- Either the batch ended before it was dispatched and the settled state stays, or it was
prepared and executed. -/
def Dispatched (site : Site P B G) (env : Env) (request : Request P B) (s : PlanExecutor P B G)
    (result : Except Raised ExecutedPlan × PlanExecutor P B G) : Prop :=
  (settled result.2 = settled s ∧
    ∀ executed, result.1 = .ok executed → executed.status ≠ .published) ∨
  ∃ committed p t, groupDeltas request.committedDeltas = .ok committed ∧
    prepare site env request committed s = (.ok (some p), t) ∧ result = executePrepared site env p t

theorem executePlan_dispatched (site : Site P B G) (env : Env) (request : Request P B)
    (s : PlanExecutor P B G) : Dispatched site env request s (executePlan site env request s) := by
  have hfails : ∀ (error : Raised) (t : PlanExecutor P B G), settled t = settled s →
      Dispatched site env request s (.error error, t) := fun error t ht => Or.inl ⟨ht, nofun⟩
  have hnoop : ∀ (t : PlanExecutor P B G) revision names, settled t = settled s →
      Dispatched site env request s (.ok (.unpublished none .noop none revision names), t) := by
    intro t revision names ht
    refine Or.inl ⟨ht, fun executed hexecuted => ?_⟩
    cases hexecuted
    simp [ExecutedPlan.unpublished]
  unfold executePlan
  apply Txn.bind_elim
  · intro error t h
    exact hfails error t (Txn.keeps_ofExcept.ended h)
  intro _ t h
  obtain ⟨-, rfl⟩ := Txn.ofExcept_ok.mp h
  apply Txn.bind_elim
  · intro error t h
    exact hfails error t (Txn.keeps_get.ended h)
  intro current t h
  obtain ⟨rfl, rfl⟩ := Txn.get_ok.mp h
  apply Txn.bind_elim
  · intro error t h
    exact hfails error t (Txn.keeps_refuseIf.ended h)
  intro _ t h
  obtain ⟨-, rfl⟩ := Txn.refuseIf_ok.mp h
  apply Txn.bind_elim
  · intro error t h
    exact hfails error t (Txn.keeps_ofExcept.ended h)
  intro committed t h
  obtain ⟨hcommitted, rfl⟩ := Txn.ofExcept_ok.mp h
  by_cases hview : scientificSources site.graph request.plan = []
  · rw [if_pos hview]
    exact hnoop s _ _ rfl
  rw [if_neg hview]
  apply Txn.bind_elim
  · intro error t h
    exact hfails error t ((keeps_prepare site env request committed).ended h)
  intro prepared t h
  have ht := (keeps_prepare site env request committed).ended h
  cases prepared with
  | none => exact hnoop t _ _ ht
  | some p => exact Or.inr ⟨committed, p, t, hcommitted, h, rfl⟩

/-- One batch of the caller. -/
def executeBatch (site : Site P B G) (s : PlanExecutor P B G) (batch : Env × Request P B) :
    Option (PlanExecutor P B G) := some (executePlan site batch.1 batch.2 s).2

theorem executePlan_sound (site : Site P B G) (env : Env) (request : Request P B)
    {s : PlanExecutor P B G} (hsound : s.layer.Sound) :
    (executePlan site env request s).2.layer.Sound := by
  rcases executePlan_dispatched site env request s with ⟨hsettled, -⟩ |
    ⟨committed, p, t, -, hprepare, hrun⟩
  · rwa [layer_of_settled hsettled]
  · rw [hrun]
    apply executePrepared_sound
    rwa [layer_of_settled ((keeps_prepare site env request committed).ended hprepare)]

theorem run_sound (site : Site P B G) {batches : List (Env × Request P B)} {s : PlanExecutor P B G}
    (hrun : run (executeBatch site) (.initial site) batches = some s) : s.layer.Sound := by
  refine run_invariant (I := fun s : PlanExecutor P B G => s.layer.Sound) (C := fun _ _ => True)
    ?_ TreeLayer.empty_sound (eachStep_of_forall (fun _ _ => trivial) _ _) hrun
  intro s batch t hsound _ hstep
  rw [← Option.some.inj hstep]
  exact executePlan_sound site batch.1 batch.2 hsound

/-- From any executor that batches reach, a batch whose edits start in the live trees is atomic,
whatever its calls answer and wherever it stops. -/
theorem batches_are_atomic (site : Site P B G) {batches : List (Env × Request P B)}
    {s : PlanExecutor P B G} (hrun : run (executeBatch site) (.initial site) batches = some s)
    (env : Env) (request : Request P B) (hagrees : Agrees s.layer.live request.edits) :
    Atomic s request.edits (executePlan site env request s) := by
  have hsound := run_sound site hrun
  rcases executePlan_dispatched site env request s with ⟨hsettled, hunpublished⟩ |
    ⟨committed, p, t, hcommitted, hprepare, hexecute⟩
  · unfold Atomic
    split
    · exact scene_of_settled hsettled
    · next executed hexecuted =>
      rw [if_neg (hunpublished executed hexecuted)]
      exact scene_of_settled hsettled
  · obtain ⟨hids, hvalid⟩ := request.edits_ok
    have ht := (keeps_prepare site env request committed).ended hprepare
    rw [hexecute]
    rw [← prepare_edits hcommitted hprepare] at hids hvalid hagrees ⊢
    rw [← layer_of_settled ht] at hsound hagrees
    exact (executePrepared_atomic site env hsound hids hvalid hagrees).of_scene (scene_of_settled ht)

/-! ## An edit of a tree that is not as the batch says -/

/-- One cell, two sources, no physics. -/
def cellSite (externalProvider : Bool) : Site Unit Unit Unit where
  grid := ⟨1, 1, 1, Nat.one_pos, Nat.one_pos⟩
  graph :=
    { nodes := [⟨vegetationSourceNode, .source⟩, ⟨buildingSourceNode, .source⟩]
      edges := []
      named := by decide
      distinct := by decide
      endpoints := by decide
      noSelfEdge := by decide
      noDuplicate := by decide
      acyclic := by decide }
  timeSteps := 1
  writerId := "writer"
  patchPath := fun _ jobId => jobId
  externalProvider
  fullRecomputeFraction := 2
  writeMarginPixels := 0
  baselineMet := ⟨1, 0, fun _ _ => .notFinite⟩
  hasLandcover := false
  baselineLandcover := ()
  parameterValue := fun _ value => .ok value
  buildingSpec := fun _ _ => .ok ()
  checkPaint := fun _ => .ok ()
  resolveLandcover := fun _ => .ok ()
  coalesceOverlay := fun _ _ => none
  diffWindows := fun _ _ => []
  treeWindows := fun _ => [⟨0, 1, 0, 1, Int.one_nonneg, Int.one_nonneg⟩]
  readWindow := fun _ window => window

def oakState (heightM : Rat) : SourceValue Unit Unit :=
  .tree { xM := 0, yM := 0, heightM, canopyRadiusM := 1, trunkRatio := 1 / 4 }

/-- A change of one tree, planned at a revision. -/
def oakRequest (sceneRevision : Nat) (before after : Option (SourceValue Unit Unit))
    (present : ¬ (before = none ∧ after = none)) : Request Unit Unit where
  plan := ⟨[vegetationSourceNode], [], [], [], 0, 0, sceneRevision, none⟩
  committedDeltas :=
    [⟨vegetationSourceNode, vegetationAdapterId,
      .vegetationObject [⟨"oak", before, after, present⟩] []⟩]
  requestedVariables := none

/-- Every call returns. -/
def returning (jobId : String) : Env := ⟨jobId, fun _ => .returns, fun _ => 0⟩

/-- The solve of the window raises. -/
def failing (jobId : String) : Env :=
  { returning jobId with answer := fun call => if call = .solveLocal 0 then .raises "" else .returns }

/-- The executor after a batch that adds an oak of 5 m. -/
def planted : PlanExecutor Unit Unit Unit :=
  (executePlan (cellSite false) (returning "add")
    (oakRequest 0 none (some (oakState 5)) (by decide)) (.initial (cellSite false))).2

/-- The oak grows from 5 m, and the solve raises. -/
theorem failing_growth_is_atomic :
    Atomic planted (oakRequest 1 (some (oakState 5)) (some (oakState 9)) (by decide)).edits
      (executePlan (cellSite false) (failing "grow")
        (oakRequest 1 (some (oakState 5)) (some (oakState 9)) (by decide)) planted) :=
  batches_are_atomic (cellSite false)
    (show run (executeBatch (cellSite false)) (.initial (cellSite false))
      [(returning "add", oakRequest 0 none (some (oakState 5)) (by decide))] = some planted from rfl)
    _ _ (Or.inr (by decide +kernel))

/-- The batch says that the oak of 5 m has 7 m, and its solve raises: the oak has 7 m then. -/
theorem mismatched_growth_is_not_atomic :
    ¬ ∀ (site : Site Unit Unit Unit) (batches : List (Env × Request Unit Unit))
      (s : PlanExecutor Unit Unit Unit) (env : Env) (request : Request Unit Unit),
      run (executeBatch site) (.initial site) batches = some s →
        Atomic s request.edits (executePlan site env request s) := by
  intro hall
  have hatomic := hall (cellSite false)
    [(returning "add", oakRequest 0 none (some (oakState 5)) (by decide))] planted (failing "grow")
    (oakRequest 1 (some (oakState 7)) (some (oakState 9)) (by decide)) rfl
  unfold Atomic at hatomic
  split at hatomic
  · have hheight := congrArg (fun scene => scene.live["oak"]?.map (·.heightM)) hatomic
    exact absurd hheight (by decide +kernel)
  · next executed hexecuted =>
    have hfails : (executePlan (cellSite false) (failing "grow")
        (oakRequest 1 (some (oakState 7)) (some (oakState 9)) (by decide)) planted).1.isOk = false := by
      decide +kernel
    rw [hexecuted] at hfails
    cases hfails

end Solweig.Executor
