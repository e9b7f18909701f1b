import Mathlib.Algebra.Order.Ring.Rat
import Solweig.Executor.Atomicity
import Solweig.Executor.LogReplay

/-!
# Trees and pending edits after a restart

A snapshot saves the log of the layer and the watermark of the worker. The restore checks every
spec of the log, replays the log into an empty layer and finds the watermark by its position.
-/

namespace Solweig.Executor

open Solweig.Lib Solweig.Planner

/-! ## The restore -/

inductive ScenarioStateError where
  /-- The spec cannot be made, or an edit or a mutation of the replay is refused. -/
  | tree (error : TreeError)
  /-- The spec is not one that a live add takes. -/
  | schema (treeId : String) (error : TreeError)

/-- `_spec_from_dict` -/
def specFromDict (tree : TreeSpec) : Except ScenarioStateError TreeSpec := do
  (postInit tree).mapError .tree
  (validateTreeSpec tree).mapError (.schema tree.treeId)
  pure tree

def editFromDict (item : TreeEdit) : Except ScenarioStateError TreeEdit := do
  let oldTree ← item.oldTree.mapM specFromDict
  let newTree ← item.newTree.mapM specFromDict
  (TreeEdit.make item.sequence item.treeId oldTree newTree).mapError .tree

/-- `_replay_tree_log` -/
def replayTreeLog (layer : TreeLayer) (treeEdits : List TreeEdit) :
    TreeLayer × Except ScenarioStateError Unit :=
  match treeEdits.mapM editFromDict with
  | .error error => (layer, .error error)
  | .ok edits =>
    let replayed := replayTreeEdits layer edits
    (replayed.1, replayed.2.mapError .tree)

/-- The position, from 1, of the last saved edit at or below the watermark. -/
def replayedAckedSequence (ackedSequence : Nat) (treeEdits : List TreeEdit) : Nat :=
  (treeEdits.zipIdx 1).foldl
    (fun acked item => if item.1.sequence ≤ ackedSequence then item.2 else acked) 0

section Log

variable {layer : TreeLayer} {edit : TreeEdit} {edits : List TreeEdit}

theorem specFromDict_valid {tree : TreeSpec} (h : validateTreeSpec tree = .ok ()) :
    specFromDict tree = .ok tree := by
  obtain ⟨hheight, hradius, hratio, htransmissivity⟩ := validateTreeSpec_ok.mp h
  have hpost : postInit tree = .ok () :=
    postInit_ok.mpr ⟨hheight, hradius, ⟨hratio.1, hratio.2.le⟩, htransmissivity⟩
  simp [specFromDict, hpost, h, Except.mapError, bind, Except.bind, pure, Except.pure]

theorem mapM_specFromDict {tree? : Option TreeSpec}
    (h : ∀ tree ∈ tree?, validateTreeSpec tree = .ok ()) :
    tree?.mapM specFromDict = .ok tree? := by
  cases tree? with
  | none => rfl
  | some tree => simp [specFromDict_valid (h tree rfl), Functor.map, Except.map]

theorem editFromDict_valid (h : edit.Valid) : editFromDict edit = .ok edit := by
  have hold := mapM_specFromDict fun tree htree =>
    h tree (List.mem_append_left _ (Option.mem_toList.mpr htree))
  have hnew := mapM_specFromDict fun tree htree =>
    h tree (List.mem_append_right _ (Option.mem_toList.mpr htree))
  have hmake : TreeEdit.make edit.sequence edit.treeId edit.oldTree edit.newTree = .ok edit :=
    TreeEdit.make_ok.mpr ⟨rfl, rfl, rfl, rfl⟩
  simp [editFromDict, hold, hnew, hmake, Except.mapError, bind, Except.bind]

theorem mapM_editFromDict (h : ∀ edit ∈ edits, edit.Valid) :
    edits.mapM editFromDict = .ok edits := by
  induction edits with
  | nil => rfl
  | cons edit edits ih =>
    rw [List.mapM_cons, editFromDict_valid (h edit (List.mem_cons_self ..)),
      ih fun later hlater => h later (List.mem_cons_of_mem _ hlater)]
    rfl

theorem replay_empty (hsound : layer.Sound) (hlogged : layer.Logged) :
    TreeLayer.empty.mutateAll (layer.edits.flatMap replayMutations) =
      ((layer.edits.filter fun edit => ¬ edit.Idle).foldl TreeLayer.recorded .empty, .ok ()) :=
  replay_log hlogged.records hsound.chained

theorem replayTreeLog_eq (hsound : layer.Sound) (hlogged : layer.Logged) :
    replayTreeLog .empty layer.edits =
      ((layer.edits.filter fun edit => ¬ edit.Idle).foldl TreeLayer.recorded .empty, .ok ()) := by
  obtain ⟨live, hpreflight⟩ := preflight_chained hsound.chained
  have hreplay := replay_empty hsound hlogged
  unfold replayTreeLog
  rw [mapM_editFromDict fun edit hedit => (hlogged.records edit hedit).1]
  simp only [replayTreeEdits, TreeLayer.empty] at hpreflight hreplay ⊢
  rw [hpreflight]
  simp only [hreplay, Except.mapError]

theorem replayTreeLog_live (hsound : layer.Sound) (hlogged : layer.Logged) :
    (replayTreeLog .empty layer.edits).1.live = layer.live := by
  obtain ⟨t, hrun, hlive⟩ := @mutateAll_chained .empty _
    (fun edit hedit => (hlogged.records edit hedit).1) hsound.chained
  have hreplay := replay_empty hsound hlogged
  rw [replayTreeLog_eq hsound hlogged, hsound.ends, ← show (TreeLayer.empty).live = ∅ from rfl,
    ← hlive]
  exact congrArg (fun result => result.1.live) (hreplay.symm.trans hrun)

theorem foldl_acked {acked : Nat} (edits : List TreeEdit) (start : Nat)
    (hnumbered : edits.map (·.sequence) = List.range' (start + 1) edits.length) :
    (edits.zipIdx (start + 1)).foldl
        (fun best item => if item.1.sequence ≤ acked then item.2 else best) (min acked start) =
      min acked (start + edits.length) := by
  induction edits generalizing start with
  | nil => rfl
  | cons edit edits ih =>
    simp only [List.map_cons, List.length_cons, List.range'_succ, List.cons.injEq] at hnumbered
    obtain ⟨hsequence, hrest⟩ := hnumbered
    have hbest : (if edit.sequence ≤ acked then start + 1 else min acked start) =
        min acked (start + 1) := by
      rw [hsequence]
      split <;> omega
    rw [List.zipIdx_cons, List.foldl_cons]
    dsimp only
    rw [hbest, ih (start + 1) hrest, List.length_cons]
    congr 1
    omega

theorem replayedAckedSequence_eq (hsound : layer.Sound) (acked : Nat) :
    replayedAckedSequence acked layer.edits = min acked layer.edits.length := by
  have h := @foldl_acked acked layer.edits 0 hsound.numbered
  simpa [replayedAckedSequence] using h

theorem pending_at_position (hsound : layer.Sound) (acked : Nat) :
    (layer.edits.filter fun edit => replayedAckedSequence acked layer.edits < edit.sequence) =
      layer.edits.filter fun edit => acked < edit.sequence := by
  rw [replayedAckedSequence_eq hsound]
  apply List.filter_congr
  intro edit hedit
  have hmem : edit.sequence ∈ layer.edits.map (·.sequence) := List.mem_map_of_mem hedit
  rw [hsound.numbered, List.mem_range'_1] at hmem
  apply decide_eq_decide.mpr
  omega

end Log

/-! ## Records that change nothing -/

section Busy

variable {layer layer' : TreeLayer} {mutation : Mutation} {edit : TreeEdit} {edits : List TreeEdit}

/-- No record leaves its tree as it was. -/
def TreeLayer.Busy (layer : TreeLayer) : Prop := ∀ edit ∈ layer.edits, ¬ edit.Idle

theorem TreeLayer.Busy.mutate (hbusy : layer.Busy) (h : layer.mutate mutation = .ok layer')
    (hchanges : mutation.after layer.live[mutation.treeId]? ≠ layer.live[mutation.treeId]?) :
    layer'.Busy := by
  obtain ⟨edit, rfl, -, hold, hnew, -⟩ := TreeLayer.mutate_recorded h
  intro record hrecord
  rcases List.mem_append.mp hrecord with hrecord | hrecord
  · exact hbusy record hrecord
  · rw [List.mem_singleton.mp hrecord]
    intro hidle
    unfold TreeEdit.Idle at hidle
    dsimp only at hidle
    rw [hold, hnew] at hidle
    exact hchanges hidle.symm

theorem TreeLayer.Busy.mutateOne (hbusy : layer.Busy)
    (hchanges : mutation.after layer.live[mutation.treeId]? ≠ layer.live[mutation.treeId]?) :
    (layer.mutateAll [mutation]).1.Busy := by
  simp only [TreeLayer.mutateAll]
  split
  · next layer' h => exact hbusy.mutate h hchanges
  · exact hbusy

theorem changeMutations_busy {before after : TreeSpec} (hbusy : layer.Busy)
    (hbefore : before.treeId = edit.treeId) (hafter : after.treeId = edit.treeId)
    (hlive : layer.live[edit.treeId]? = some before) :
    (layer.mutateAll (changeMutations edit.treeId before after)).1.Busy := by
  have hid : after.treeId = before.treeId := hafter.trans hbefore.symm
  have hupdate : ∀ (layer : TreeLayer) (current : TreeSpec), layer.Busy →
      layer.live[edit.treeId]? = some current →
      current = { before with xM := after.xM, yM := after.yM } →
      (layer.mutateAll (if changesBetween before after ≠ .none then
          [.updateTree edit.treeId (changesBetween before after)] else [])).1.Busy := by
    intro layer current hbusy hcurrent heq
    split
    · next hchanges =>
      apply hbusy.mutateOne
      simp only [Mutation.treeId, Mutation.after, hcurrent, Option.map_some, ne_eq,
        Option.some.injEq]
      rw [applyTo_changesBetween heq hid]
      intro hsame
      apply hchanges
      rw [hsame, heq]
      exact changesBetween_moved before _ _
    · exact hbusy
  unfold changeMutations
  split
  · next hplace =>
    obtain ⟨moved, hmove, hmoved⟩ := TreeLayer.move_total after.xM after.yM hbefore hlive
    rw [List.singleton_append, TreeLayer.mutateAll_cons hmove]
    refine hupdate moved _ ?_ (by rw [hmoved, getElem?_setTree, if_pos rfl]) rfl
    apply hbusy.mutate hmove
    simp only [Mutation.treeId, Mutation.after, hlive, Option.map_some, ne_eq, Option.some.injEq]
    intro hsame
    apply hplace
    rw [← hsame]
  · next hplace =>
    simp only [ne_eq, not_not, Prod.mk.injEq] at hplace
    rw [List.nil_append]
    exact hupdate layer before hbusy hlive (by rw [hplace.1, hplace.2])

theorem replayMutations_busy (hbusy : layer.Busy)
    (hlive : layer.live[edit.treeId]? = edit.oldTree) :
    (layer.mutateAll (replayMutations edit)).1.Busy := by
  have hsame := edit.sameTree
  unfold replayMutations
  split
  · next new hold hnew =>
    have hid : new.treeId = edit.treeId := hsame new (by simp [hnew])
    apply hbusy.mutateOne
    simp [Mutation.treeId, Mutation.after, hid, hlive, hold]
  · next old hold hnew =>
    apply hbusy.mutateOne
    simp [Mutation.treeId, Mutation.after, hlive, hold]
  · next old new hold hnew =>
    exact changeMutations_busy hbusy (hsame old (by simp [hold])) (hsame new (by simp [hnew]))
      (hlive.trans hold)
  · exact hbusy

theorem mutateAll_busy (hbusy : layer.Busy) (hvalid : ∀ edit ∈ edits, edit.Valid)
    (hchained : Chained layer.live edits) :
    (layer.mutateAll (edits.flatMap replayMutations)).1.Busy := by
  induction edits generalizing layer with
  | nil => exact hbusy
  | cons edit edits ih =>
    obtain ⟨hlive, hchained⟩ := hchained
    obtain ⟨first, hfirst, hset⟩ :=
      replayMutations_total (hvalid edit (List.mem_cons_self ..)) hlive
    have hnext := replayMutations_busy hbusy hlive
    rw [hfirst] at hnext
    rw [List.flatMap_cons, TreeLayer.mutateAll_append hfirst]
    apply ih hnext (fun later hlater => hvalid later (List.mem_cons_of_mem _ hlater))
    rwa [hset]

end Busy

/-! ## What a batch does to the layer -/

section Step

variable {P B G : Type} [DecidableEq P]

/-- The batch leaves the layer, or replays its edits into it, or undoes them when all were
replayed. -/
def Batched (layer : TreeLayer) (edits : List TreeEdit) (layer' : TreeLayer) : Prop :=
  layer' = layer ∨ layer' = (replayTreeEdits layer edits).1 ∨
    (replayTreeEdits layer edits).2 = .ok () ∧
      layer' = (undoTreeEdits (replayTreeEdits layer edits).1 edits).1

theorem executePrepared_layer (site : Site P B G) (env : Env) (p : Prepared P B)
    (before : PlanExecutor P B G) :
    Batched before.layer p.batchEdits (executePrepared site env p before).2.layer := by
  unfold executePrepared Batched
  rcases before.state.advance site.graph p.plan.changedSources with error | state
  · exact Or.inl rfl
  dsimp only [replayBatch]
  rcases hrun : replayTreeEdits before.layer p.batchEdits with ⟨layer, error | ⟨⟩⟩
  · exact Or.inr (Or.inl rfl)
  dsimp only [Except.mapError]
  rcases attempt_cases site env p state.sceneRevision { before with state, layer } with
    ⟨result, worker, store, hattempt, hstatus⟩ | ⟨result, worker, hattempt, hstatus⟩ |
      ⟨error, worker, hattempt⟩
  all_goals
    rw [hattempt]
    dsimp only
  · rw [if_pos hstatus]
    have hkept := (keeps_commitBatch p before.worker.published.ackedSequence result.2).bind
      (fun _ => Txn.keeps_pure (ε := Raised) result.1) { before with state, layer, worker, store }
    exact Or.inr (Or.inl hkept)
  · rw [if_neg hstatus]
    unfold rollbackFailedBatch
    rcases undoTreeEdits layer p.batchEdits with ⟨undone, failure | ⟨⟩⟩
    all_goals exact Or.inr (Or.inr ⟨rfl, rfl⟩)
  · exact Or.inr (Or.inr ⟨rfl, rfl⟩)

variable [DecidableEq B]

theorem executePlan_layer (site : Site P B G) (env : Env) (request : Request P B)
    (s : PlanExecutor P B G) :
    Batched s.layer request.edits (executePlan site env request s).2.layer := by
  rcases executePlan_dispatched site env request s with ⟨hsettled, -⟩ |
    ⟨committed, p, t, hcommitted, hprepare, hexecute⟩
  · exact Or.inl (layer_of_settled hsettled)
  · rw [hexecute, ← prepare_edits hcommitted hprepare,
      ← layer_of_settled ((keeps_prepare site env request committed).ended hprepare)]
    exact executePrepared_layer site env p t

end Step

/-! ## Runs -/

section Runs

variable {P B G : Type} [DecidableEq P] [DecidableEq B]

inductive ExecutorOp (P B : Type) where
  /-- A tree of the request or of the baseline is added when the executor is built. -/
  | seed (tree : TreeSpec)
  | batch (env : Env) (request : Request P B)

def executorStep (site : Site P B G) (s : PlanExecutor P B G) :
    ExecutorOp P B → Option (PlanExecutor P B G)
  | .seed tree => some { s with layer := (s.layer.mutateAll [.addTree tree]).1 }
  | .batch env request => some (executePlan site env request s).2

variable {site : Site P B G} {s t : PlanExecutor P B G} {op : ExecutorOp P B}
  {ops : List (ExecutorOp P B)}

theorem executorStep_logged (h : s.layer.Sound ∧ s.layer.Logged)
    (hstep : executorStep site s op = some t) : t.layer.Sound ∧ t.layer.Logged := by
  obtain ⟨hsound, hlogged⟩ := h
  cases op with
  | seed tree =>
    obtain rfl := Option.some.inj hstep
    exact ⟨TreeLayer.mutateAll_sound hsound _, hlogged.mutateAll (by simp [Mutation.Trunk])⟩
  | batch env request =>
    obtain rfl := Option.some.inj hstep
    have hvalid := request.edits_ok.2
    have hreplayed := replayTreeEdits_logged hlogged hvalid
    refine ⟨executePlan_sound site env request hsound, ?_⟩
    rcases executePlan_layer site env request s with h | h | ⟨-, h⟩
    all_goals rw [h]
    · exact hlogged
    · exact hreplayed
    · exact undoTreeEdits_logged hreplayed hvalid

theorem executorRun_logged (hrun : run (executorStep site) (.initial site) ops = some s) :
    s.layer.Sound ∧ s.layer.Logged := by
  refine run_invariant (I := fun s : PlanExecutor P B G => s.layer.Sound ∧ s.layer.Logged)
    (C := fun _ _ => True) (fun s op t h _ hstep => executorStep_logged h hstep)
    ⟨TreeLayer.empty_sound, TreeLayer.empty_logged⟩ (eachStep_of_forall (fun _ _ => trivial) _ _) hrun

/-- In every run, the saved log is replayed to its end, gives the live trees back, and gives the
log back exactly when none of its records leaves its tree as it was. -/
theorem trees_restored (hrun : run (executorStep site) (.initial site) ops = some s) :
    ∃ restored, replayTreeLog .empty s.layer.edits = (restored, .ok ()) ∧
      restored.live = s.layer.live ∧
      (restored = s.layer ↔ ∀ edit ∈ s.layer.edits, edit.oldTree ≠ edit.newTree) := by
  obtain ⟨hsound, hlogged⟩ := executorRun_logged hrun
  have heq := replayTreeLog_eq hsound hlogged
  refine ⟨_, heq, ?_, hsound.log_returns hlogged⟩
  have hlive := replayTreeLog_live hsound hlogged
  rwa [heq] at hlive

/-- The edits of a batch start in the live trees, unless its preflight refuses them. -/
def StartsLive (s : PlanExecutor P B G) : ExecutorOp P B → Prop
  | .seed _ => True
  | .batch _ request => Agrees s.layer.live request.edits

theorem executorStep_busy (hbusy : s.layer.Busy) (hstarts : StartsLive s op)
    (hstep : executorStep site s op = some t) : t.layer.Busy := by
  cases op with
  | seed tree =>
    obtain rfl := Option.some.inj hstep
    simp only [TreeLayer.mutateAll]
    split
    · next layer hmutate =>
      obtain ⟨-, -, -, -, -, -, habsent⟩ := TreeLayer.mutate_recorded hmutate
      apply hbusy.mutate hmutate
      rw [habsent]
      simp [Mutation.after]
    · exact hbusy
  | batch env request =>
    obtain rfl := Option.some.inj hstep
    obtain ⟨hids, hvalid⟩ := request.edits_ok
    rcases hstarts with ⟨refusal, hpreflight⟩ | hlive
    · have hreplay : replayTreeEdits s.layer request.edits = (s.layer, .error refusal) := by
        rw [replayTreeEdits, hpreflight]
      rcases executePlan_layer site env request s with h | h | ⟨hok, -⟩
      · rwa [h]
      · rwa [h, hreplay]
      · rw [hreplay] at hok
        cases hok
    · have hchained := chained_of_live hids hlive
      obtain ⟨live, hpreflight⟩ := preflight_chained hchained
      obtain ⟨replayed, hrun, hend⟩ := mutateAll_chained hvalid hchained
      have hreplay : (replayTreeEdits s.layer request.edits).1 = replayed := by
        rw [replayTreeEdits, hpreflight, hrun]
      have hreplayed : replayed.Busy := by
        have := mutateAll_busy hbusy hvalid hchained
        rwa [hrun] at this
      rcases executePlan_layer site env request s with h | h | ⟨-, h⟩
      all_goals rw [h]
      · exact hbusy
      · rwa [hreplay]
      · rw [hreplay]
        obtain ⟨hback, -⟩ := chained_reversed hchained
        have hundo : undoTreeEdits replayed request.edits =
            replayed.mutateAll ((request.edits.reverse.map TreeEdit.reversed).flatMap
              replayMutations) := by
          unfold undoTreeEdits
          rw [List.flatMap_map]
          congr 1
          exact List.flatMap_congr fun edit _ => undoMutations_eq edit
        rw [hundo]
        apply mutateAll_busy hreplayed
        · intro edit hedit
          obtain ⟨original, horiginal, rfl⟩ := List.mem_map.mp hedit
          exact (hvalid original (List.mem_reverse.mp horiginal)).reversed
        · rwa [hend]

theorem executorRun_busy (hstarts : EachStep (executorStep site) StartsLive (.initial site) ops)
    (hrun : run (executorStep site) (.initial site) ops = some s) : s.layer.Busy := by
  refine run_invariant (I := fun s : PlanExecutor P B G => s.layer.Busy)
    (fun s op t hbusy hstarts hstep => executorStep_busy hbusy hstarts hstep) ?_ hstarts hrun
  simp [TreeLayer.Busy, PlanExecutor.initial, TreeLayer.empty]

/-- The worker of a new executor, with the watermark of the saved one at its place in the log. -/
def restoredWorker (s : PlanExecutor P B G) : Worker P :=
  Worker.initial.adoptPublishedState { s.worker.published with
    ackedSequence := replayedAckedSequence s.worker.published.ackedSequence s.layer.edits }

/-- Where every batch starts in the live trees, the log and the pending edits come back. -/
theorem pending_restored (hstarts : EachStep (executorStep site) StartsLive (.initial site) ops)
    (hrun : run (executorStep site) (.initial site) ops = some s) :
    ∃ restored, replayTreeLog .empty s.layer.edits = (restored, .ok ()) ∧ restored = s.layer ∧
      (restoredWorker s).pendingBatch restored = s.worker.pendingBatch s.layer := by
  obtain ⟨restored, hrestored, -, hlog⟩ := trees_restored hrun
  have hsame : restored = s.layer := hlog.mpr fun edit hedit => executorRun_busy hstarts hrun edit hedit
  refine ⟨restored, hrestored, hsame, ?_⟩
  have hpending := pending_at_position (executorRun_logged hrun).1 s.worker.published.ackedSequence
  unfold Worker.pendingBatch restoredWorker Worker.adoptPublishedState
  simp only [Worker.initial, Nat.zero_max, hsame, hpending]

end Runs

/-! ## A record that changes nothing -/

def elmState : SourceValue Unit Unit :=
  .tree { xM := 1, yM := 1, heightM := 3, canopyRadiusM := 1, trunkRatio := 1 / 4 }

/-- The oak shrinks from 7 m to 5 m, and an elm is planted. -/
def oakAndElm : Request Unit Unit where
  plan := ⟨[vegetationSourceNode], [], [], [], 0, 0, 1, none⟩
  committedDeltas :=
    [⟨vegetationSourceNode, vegetationAdapterId,
      .vegetationObject
        [⟨"oak", some (oakState 7), some (oakState 5), fun absent => Option.some_ne_none _ absent.1⟩,
          ⟨"elm", none, some elmState, fun absent => Option.some_ne_none _ absent.2⟩] []⟩]
  requestedVariables := none

def ash : TreeSpec := ⟨"ash", 2, 2, 4, 1, 1 / 4, 3 / 100⟩

def plantingOp : ExecutorOp Unit Unit :=
  .batch (returning "add")
    (oakRequest 0 none (some (oakState 5)) fun absent => Option.some_ne_none _ absent.2)

/-- The oak has 5 m before the second batch. -/
def idleOps : List (ExecutorOp Unit Unit) :=
  [plantingOp, .batch (returning "elm") oakAndElm, .seed ash]

theorem trees_restored_idle : ∃ s, run (executorStep (cellSite false)) (.initial (cellSite false))
      idleOps = some s ∧
    ∃ restored, replayTreeLog .empty s.layer.edits = (restored, .ok ()) ∧
      restored.live = s.layer.live ∧
      (restored = s.layer ↔ ∀ edit ∈ s.layer.edits, edit.oldTree ≠ edit.newTree) := by
  have hsome : (run (executorStep (cellSite false)) (.initial (cellSite false)) idleOps).isSome =
      true := rfl
  obtain ⟨s, hrun⟩ := Option.isSome_iff_exists.mp hsome
  exact ⟨s, hrun, trees_restored hrun⟩

theorem pending_restored_seed : ∃ s, run (executorStep (cellSite false))
      (.initial (cellSite false)) [plantingOp, .seed ash] = some s ∧
    ∃ restored, replayTreeLog .empty s.layer.edits = (restored, .ok ()) ∧ restored = s.layer ∧
      (restoredWorker s).pendingBatch restored = s.worker.pendingBatch s.layer := by
  have hsome : (run (executorStep (cellSite false)) (.initial (cellSite false))
      [plantingOp, .seed ash]).isSome = true := rfl
  obtain ⟨s, hrun⟩ := Option.isSome_iff_exists.mp hsome
  have hstarts : EachStep (executorStep (cellSite false)) StartsLive (.initial (cellSite false))
      [plantingOp, .seed ash] :=
    ⟨Or.inr (by decide +kernel), fun _ _ => ⟨trivial, fun _ _ => trivial⟩⟩
  exact ⟨s, hrun, pending_restored hstarts hrun⟩

def hasPending (worker : Worker Unit) (layer : TreeLayer) : Option Bool :=
  (worker.pendingBatch layer).toOption.map Option.isSome

/-- The replay makes no record of the oak that already had 5 m, so the watermark, which counts
it, passes the ash that is pending. -/
theorem idle_record_loses_pending : ∃ s, run (executorStep (cellSite false))
      (.initial (cellSite false)) idleOps = some s ∧
    hasPending s.worker s.layer = some true ∧
    hasPending (restoredWorker s) (replayTreeLog .empty s.layer.edits).1 = some false := by
  have hlost : ((run (executorStep (cellSite false)) (.initial (cellSite false)) idleOps).map fun s =>
      (hasPending s.worker s.layer,
        hasPending (restoredWorker s) (replayTreeLog .empty s.layer.edits).1)) =
      some (some true, some false) := by
    decide +kernel
  obtain ⟨s, hrun, hs⟩ := Option.map_eq_some_iff.mp hlost
  exact ⟨s, hrun, congrArg Prod.fst hs, congrArg Prod.snd hs⟩

end Solweig.Executor
