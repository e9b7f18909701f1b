import Mathlib.Algebra.Order.Ring.Rat
import Solweig.Executor.Restore
import Solweig.Lib.Alike

/-!
# What staging leaves behind

A batch that is refused, or that folds to the published state, leaves what it had staged. The
staging of the next batch writes all of it anew, so no later result depends on it.
-/

namespace Solweig.Executor

open Solweig.Lib Solweig.Planner

variable {P B G : Type}

section Staging

variable {α : Type} {E : PlanExecutor P B G → PlanExecutor P B G → Prop}
  {R : α → PlanExecutor P B G → PlanExecutor P B G → Prop} {site : Site P B G}
  {s t : PlanExecutor P B G}

theorem alike_stageWorker {δ : Type} {stage : Worker P → Except Raised (Worker P)}
    {check : Except Raised δ} {put : Worker P → δ → Worker P} {f g : Unit → Exec P B G α}
    (hstage : ∀ worker, stage worker = check.map (put worker)) (hE : E s t)
    (h : ∀ value, Txn.Alike E R (f ()) (g ()) { s with worker := put s.worker value }
      { t with worker := put t.worker value }) :
    Txn.Alike E R (stageWorker stage >>= f) (stageWorker stage >>= g) s t := by
  cases check with
  | error error =>
    have hfails : ∀ u : PlanExecutor P B G, stageWorker stage u = (.error error, u) := by
      intro u
      simp only [stageWorker, hstage, Except.map]
    exact Or.inl
      ⟨error, s, t, Txn.bind_of_error (hfails s), Txn.bind_of_error (hfails t), hE⟩
  | ok value =>
    have hstaged : ∀ u : PlanExecutor P B G,
        stageWorker stage u = (.ok (), { u with worker := put u.worker value }) := by
      intro u
      simp only [stageWorker, hstage, Except.map]
    unfold Txn.Alike
    rw [Txn.bind_of_ok (hstaged s), Txn.bind_of_ok (hstaged t)]
    exact h value

theorem stageModelParameters_eq (parameters : Option (ModelParameters P)) (worker : Worker P) :
    worker.stageModelParameters site parameters =
      ((Worker.initial.stageModelParameters site parameters).map (·.modelParameters)).map
        fun modelParameters => { worker with modelParameters } := by
  unfold Worker.stageModelParameters
  simp only [except_map_bind]
  rfl

theorem stageLandcoverOverlay_eq (overlay : Option LandCoverOverlay) (dirty : List RasterWindow)
    (worker : Worker P) :
    worker.stageLandcoverOverlay site overlay dirty =
      ((Worker.initial.stageLandcoverOverlay site overlay dirty).map
        (·.landcoverDirtyOverride)).map fun landcoverDirtyOverride =>
          { worker with landcoverOverlay := overlay, landcoverDirtyOverride } := by
  unfold Worker.stageLandcoverOverlay
  simp only [except_map_bind]
  rfl

/-- What the staging of the land cover writes. -/
def PlanExecutor.withLandcover (s : PlanExecutor P B G) (overlay : Option LandCoverOverlay)
    (dirty : Option (List RasterWindow)) (resolved : Option G) (diff : List RasterWindow) :
    PlanExecutor P B G :=
  { s with
    stagedLandcoverResolved := resolved
    stagedLandcoverValueDiff := diff
    worker := { s.worker with landcoverOverlay := overlay, landcoverDirtyOverride := dirty } }

/-- An executor with the same settled state, and anything else staged. -/
def PlanExecutor.restaged (s : PlanExecutor P B G) (worker : Worker P) (resolved : Option G)
    (diff : List RasterWindow) : PlanExecutor P B G :=
  { s with
    worker :=
      { worker with
        published := s.worker.published
        resultsRoot := s.worker.resultsRoot }
    stagedLandcoverResolved := resolved
    stagedLandcoverValueDiff := diff }

/-- The settled states are the same. -/
def SameSettled (s t : PlanExecutor P B G) : Prop := settled s = settled t

theorem SameSettled.restaged (h : SameSettled s t) :
    ∃ worker resolved diff, t = s.restaged worker resolved diff := by
  refine ⟨t.worker, t.stagedLandcoverResolved, t.stagedLandcoverValueDiff, ?_⟩
  obtain ⟨_, _, ⟨_, _, _, _, _, _, _, _⟩, _, _, _, _, _, _, _, _⟩ := t
  obtain ⟨_, _, ⟨_, _, _, _, _, _, _, _⟩, _, _, _, _, _, _, _, _⟩ := s
  simp only [SameSettled, settled, PlanExecutor.mk.injEq, Worker.mk.injEq] at h
  simp only [PlanExecutor.restaged, PlanExecutor.mk.injEq, Worker.mk.injEq]
  tauto

theorem stageOverlays_alike (committed : Committed P B) (h : SameSettled s t) :
    Txn.Alike SameSettled (fun overlay s' t' => ∃ dirty resolved diff,
        s' = s.withLandcover overlay dirty resolved diff ∧
        t' = t.withLandcover overlay dirty resolved diff)
      (stageOverlays site committed) (stageOverlays site committed) s t := by
  have hoverlay : t.appliedLandcoverOverlay = s.appliedLandcoverOverlay :=
    (congrArg (·.appliedLandcoverOverlay) h).symm
  have hresolved : t.appliedLandcoverResolved = s.appliedLandcoverResolved :=
    (congrArg (·.appliedLandcoverResolved) h).symm
  unfold stageOverlays
  apply Txn.alike_get
  rw [hoverlay, hresolved]
  refine Txn.alike_ofExcept h fun fold _ => Txn.alike_ofExcept h fun strokes _ => ?_
  cases fold with
  | none =>
    refine Txn.alike_modify (alike_stageWorker (stageLandcoverOverlay_eq _ _) h fun dirty => ?_)
    refine Txn.alike_pure ⟨dirty, s.appliedLandcoverResolved, [], rfl, ?_⟩
    rw [← hresolved]
    rfl
  | some patches =>
    refine Txn.alike_ofExcept h fun grid _ => Txn.alike_modify
      (alike_stageWorker (stageLandcoverOverlay_eq _ _) h fun dirty => ?_)
    exact Txn.alike_pure ⟨dirty, _, _, rfl, rfl⟩

theorem prepare_alike [DecidableEq P] (env : Env) (request : Request P B) (committed : Committed P B)
    (worker : Worker P) (resolved : Option G) (diff : List RasterWindow) :
    Txn.Alike SameSettled (fun p s' t' => SameSettled s' t' ∧ (p.isSome → s' = t'))
      (prepare site env request committed) (prepare site env request committed) s
      (s.restaged worker resolved diff) := by
  unfold prepare
  refine Txn.alike_modify (Txn.alike_get (Txn.alike_ofExcept rfl fun forcing _ =>
    Txn.alike_ofExcept rfl fun _ _ => Txn.alike_modify (Txn.alike_ofExcept rfl fun parameters _ =>
      alike_stageWorker (stageModelParameters_eq _) rfl fun staged => ?_)))
  refine Txn.Alike.bind (stageOverlays_alike committed rfl) ?_
  rintro overlay _ _ ⟨dirty, resolved', diff', rfl, rfl⟩
  refine Txn.alike_ofExcept rfl fun edits _ => Txn.alike_ofExcept rfl fun building _ =>
    Txn.alike_get (Txn.alike_ite ?_ ?_)
  · exact Txn.alike_modify (Txn.alike_pure ⟨rfl, nofun⟩)
  · exact Txn.alike_pure ⟨rfl, fun _ => rfl⟩

end Staging

/-! ## Runs -/

section Runs

variable [DecidableEq P] [DecidableEq B] {site : Site P B G} {s t : PlanExecutor P B G}
  {ops : List (ExecutorOp P B)}

theorem executePlan_alike (env : Env) (request : Request P B) (h : SameSettled s t) :
    Txn.Alike SameSettled (fun _ => SameSettled) (executePlan site env request)
      (executePlan site env request) s t := by
  obtain ⟨worker, resolved, diff, rfl⟩ := h.restaged
  unfold executePlan
  refine Txn.alike_ofExcept h fun _ _ => Txn.alike_get (Txn.alike_refuseIf h
    (Txn.alike_ofExcept h fun committed _ => Txn.alike_ite (Txn.alike_pure h) ?_))
  refine (prepare_alike env request committed worker resolved diff).bind ?_
  rintro (_ | p) s' t' ⟨hsettled, hsame⟩
  · exact Txn.alike_pure hsettled
  · obtain rfl := hsame rfl
    exact Txn.alike_refl _ _ (fun _ => rfl) fun _ _ => rfl

theorem executePlan_same (env : Env) (request : Request P B) (h : SameSettled s t) :
    (executePlan site env request s).1 = (executePlan site env request t).1 ∧
      SameSettled (executePlan site env request s).2 (executePlan site env request t).2 := by
  rcases executePlan_alike env request h with ⟨_, _, _, hs, ht, hsettled⟩ | ⟨_, _, _, hs, ht, hsettled⟩
  all_goals
    rw [hs, ht]
    exact ⟨rfl, hsettled⟩

theorem run_same (h : SameSettled s t) : ∃ s' t', run (executorStep site) s ops = some s' ∧
    run (executorStep site) t ops = some t' ∧ SameSettled s' t' := by
  induction ops generalizing s t with
  | nil => exact ⟨s, t, rfl, rfl, h⟩
  | cons op ops ih =>
    cases op with
    | seed tree =>
      obtain ⟨worker, resolved, diff, rfl⟩ := h.restaged
      exact ih rfl
    | batch env request => exact ih (executePlan_same env request h).2

/-- The batch is stale, or its staging refuses it or finds the published state. -/
def Undispatched (site : Site P B G) (env : Env) (request : Request P B) (s : PlanExecutor P B G) :
    Prop :=
  request.plan.sceneRevision ≠ s.state.sceneRevision ∨
    ∀ committed, groupDeltas request.committedDeltas = .ok committed →
      ∀ p t, prepare site env request committed s ≠ (.ok (some p), t)

theorem executePlan_stale (env : Env) {request : Request P B}
    (h : request.plan.sceneRevision ≠ s.state.sceneRevision) :
    (executePlan site env request s).2 = s := by
  unfold executePlan
  cases checkIntegrable site.graph request.plan with
  | error error => rfl
  | ok _ =>
    have hstops : Txn.refuseIf (request.plan.sceneRevision ≠ s.state.sceneRevision)
        (Raised.stalePlan request.plan.sceneRevision s.state.sceneRevision) s =
        (.error (.stalePlan request.plan.sceneRevision s.state.sceneRevision), s) := by
      rw [Txn.refuseIf, if_pos h]
      rfl
    exact congrArg Prod.snd (Txn.bind_of_error hstops)

theorem settled_of_undispatched {env : Env} {request : Request P B}
    (h : Undispatched site env request s) : SameSettled (executePlan site env request s).2 s := by
  rcases h with hstale | hrefused
  · rw [executePlan_stale env hstale]
    rfl
  · rcases executePlan_dispatched site env request s with ⟨hsettled, -⟩ |
      ⟨committed, p, t, hcommitted, hprepare, -⟩
    · exact hsettled
    · exact absurd hprepare (hrefused committed hcommitted p t)

/-- A batch that is not dispatched changes no result of any batch after it, whatever it had
staged. -/
theorem undispatched_batch_leaves_no_trace {env : Env} {request : Request P B}
    (hundispatched : Undispatched site env request s) (ops : List (ExecutorOp P B)) :
    ∃ s' t', run (executorStep site) s (.batch env request :: ops) = some s' ∧
      run (executorStep site) s ops = some t' ∧
      ∀ later next, (executePlan site later next s').1 = (executePlan site later next t').1 := by
  obtain ⟨s', t', hs, ht, hsame⟩ :=
    @run_same _ _ _ _ _ site _ _ ops (settled_of_undispatched hundispatched)
  exact ⟨s', t', hs, ht, fun later next => (executePlan_same later next hsame).1⟩

end Runs

/-- The removal was planned one revision later. -/
theorem stale_removal_leaves_no_trace : ∃ s' t',
    run (executorStep (cellSite false)) (.initial (cellSite false))
      [.batch (returning "stale") (oakRequest 1 (some (oakState 5)) none fun absent =>
        Option.some_ne_none _ absent.1), plantingOp] = some s' ∧
      run (executorStep (cellSite false)) (.initial (cellSite false)) [plantingOp] = some t' ∧
      ∀ later next, (executePlan (cellSite false) later next s').1 =
        (executePlan (cellSite false) later next t').1 :=
  undispatched_batch_leaves_no_trace (Or.inl (by decide)) [plantingOp]

end Solweig.Executor
