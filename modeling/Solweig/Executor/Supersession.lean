import Solweig.Executor.Atomicity

/-!
# Superseded batches

A batch that the revision provider overtakes publishes nothing on the worker and on the paths of
the forcing: each rename follows a look at the provider. The building chain looks at the
executor's own revision, which is the target all the time.
-/

namespace Solweig.Executor

open Solweig.Lib Solweig.Planner

variable {P B G : Type}

/-! ## The last checks -/

/-- Where a path looks last before it renames its patches. -/
def lastChecks : SolvePath → Nat → List Moment
  | .worker, patches => (List.range patches).map .beforeRename
  | .metFast, _ | .metWarm, _ | .building, _ => [.staged]

/-- A published outcome saw its target at the last checks and made new directories only, and any
other has no patch. -/
structure JobOutcome.Checked (resultsRoot : List String) (revision : Moment → Int) (target : Nat)
    (outcome : JobOutcome) : Prop where
  sceneRevision : outcome.sceneRevision = target
  checks : outcome.status = .published →
    ∀ moment ∈ lastChecks outcome.path outcome.patches.length, revision moment = target
  fresh : ∀ path ∈ outcome.patchPaths, path ∉ resultsRoot
  unpublished : outcome.status ≠ .published → outcome.patchPaths = []

theorem superseded_checked (resultsRoot : List String) (path : SolvePath) (jobId : String)
    (revision : Moment → Int) (target : Nat) :
    (JobOutcome.superseded path jobId target).Checked resultsRoot revision target :=
  ⟨rfl, nofun, nofun, fun _ => rfl⟩

theorem noop_checked (resultsRoot : List String) (path : SolvePath) (jobId : String)
    (revision : Moment → Int) (target : Nat) :
    (JobOutcome.noop path jobId target).Checked resultsRoot revision target :=
  ⟨rfl, nofun, nofun, fun _ => rfl⟩

theorem publishPatch_fresh {site : Site P B G} {env : Env} {resultsRoot : List String}
    {index : Nat} {patch : ResultPatch} {published : String × ResultPatch}
    (h : publishPatch site env resultsRoot index patch = .ok published) :
    published.1 ∉ resultsRoot := by
  unfold publishPatch at h
  obtain ⟨_, hfresh, h⟩ := except_bind_ok.mp h
  obtain ⟨_, -, h⟩ := except_bind_ok.mp h
  cases h
  exact refuseIf_ok.mp hfresh

theorem publishStaged_checked {site : Site P B G} {env : Env} {resultsRoot : List String}
    {path : SolvePath} {revision : Moment → Int} {target : Nat} {patch : ResultPatch}
    {outcome : JobOutcome} (hpath : path ≠ .worker)
    (h : publishStaged site env resultsRoot path revision target patch = .ok outcome) :
    outcome.Checked resultsRoot revision target := by
  unfold publishStaged at h
  rw [except_bind_ok] at h
  obtain ⟨_, -, h⟩ := h
  split at h
  · cases h
    exact superseded_checked ..
  · next hseen =>
    rw [except_bind_ok] at h
    obtain ⟨published, hpublish, h⟩ := h
    cases h
    refine ⟨rfl, fun _ moment hmoment => ?_, fun name hname => ?_, fun hstatus => absurd rfl hstatus⟩
    swap
    · rw [List.mem_singleton.mp hname]
      exact publishPatch_fresh hpublish
    have hstaged : moment = .staged := by
      cases path
      · exact absurd rfl hpath
      all_goals exact List.mem_singleton.mp hmoment
    rw [hstaged]
    exact not_not.mp hseen

/-! ## The renames of a job -/

section Renames

variable {site : Site P B G} {env : Env} {resultsRoot patchPaths renamed : List String}
  {revision : Moment → Int} {target index : Nat} {patches : List ResultPatch}

/-- The provider overtakes a job when it has renamed this many patches. -/
def Overtakes (revision : Moment → Int) (target count : Nat) : Prop :=
  revision (.beforeRename count) ≠ target ∧
    ∀ index < count, revision (.beforeRename index) = target

theorem publishPatches_checked {published : List (String × ResultPatch)}
    (h : publishPatches site env resultsRoot revision target patchPaths (patches.zipIdx index) =
      .ok published) :
    (∀ path ∈ published.map (·.1), path ∉ resultsRoot) ∧
      ∀ i, index ≤ i → i < index + patches.length → revision (.beforeRename i) = target := by
  induction patches generalizing index patchPaths published with
  | nil =>
    cases h
    exact ⟨nofun, fun i hle hlt => absurd hlt (by simpa using hle)⟩
  | cons patch patches ih =>
    rw [List.zipIdx_cons, publishPatches] at h
    obtain ⟨_, hcheck, h⟩ := except_bind_ok.mp h
    obtain ⟨first, hfirst, h⟩ := except_bind_ok.mp h
    obtain ⟨others, hothers, h⟩ := except_bind_ok.mp h
    cases h
    obtain ⟨hfresh, hchecks⟩ := ih hothers
    have hnew := publishPatch_fresh (except_mapError_ok.mp hfirst)
    have hsees : revision (.beforeRename index) = target := not_not.mp (refuseIf_ok.mp hcheck)
    refine ⟨?_, fun i hle hlt => ?_⟩
    · rw [List.map_cons, List.forall_mem_cons]
      exact ⟨fun hroot => hnew (List.mem_append_left _ hroot), hfresh⟩
    · rw [List.length_cons] at hlt
      rcases Nat.eq_or_lt_of_le hle with rfl | hlater
      · exact hsees
      · exact hchecks i hlater (by omega)

/-- A stopped job has made new directories only, and where it was superseded between two renames
the provider overtook it there. -/
structure JobStop.Checked (resultsRoot : List String) (revision : Moment → Int) (target : Nat)
    (stop : JobStop) : Prop where
  fresh : ∀ path ∈ stop.patchPaths, path ∉ resultsRoot
  overtaken : ∀ renamed, stop = .superseded renamed →
    renamed = [] ∨ Overtakes revision target renamed.length

theorem JobStop.Checked.of_none {stop : JobStop} (h : stop.patchPaths = []) :
    stop.Checked resultsRoot revision target := by
  constructor
  · rw [h]
    nofun
  · rintro renamed rfl
    exact Or.inl h

theorem publishPatches_stopped {stop : JobStop}
    (h : publishPatches site env resultsRoot revision target patchPaths (patches.zipIdx index) =
      .error stop)
    (hcount : patchPaths.length = index) (hfresh : ∀ path ∈ patchPaths, path ∉ resultsRoot)
    (hseen : ∀ i < index, revision (.beforeRename i) = target) :
    stop.Checked resultsRoot revision target := by
  induction patches generalizing index patchPaths with
  | nil => cases h
  | cons patch patches ih =>
    rw [List.zipIdx_cons, publishPatches] at h
    rcases except_bind_error.mp h with hcheck | ⟨_, hcheck, h⟩
    · obtain ⟨hother, rfl⟩ := refuseIf_error.mp hcheck
      refine ⟨hfresh, fun renamed hrenamed => Or.inr ?_⟩
      cases hrenamed
      rw [hcount]
      exact ⟨hother, hseen⟩
    rcases except_bind_error.mp h with hraised | ⟨first, hfirst, h⟩
    · obtain ⟨_, -, rfl⟩ := except_mapError_error.mp hraised
      refine ⟨hfresh, fun renamed hrenamed => ?_⟩
      cases hrenamed
    rcases except_bind_error.mp h with hothers | ⟨_, -, h⟩
    · have hnew := publishPatch_fresh (except_mapError_ok.mp hfirst)
      have hsees : revision (.beforeRename index) = target := not_not.mp (refuseIf_ok.mp hcheck)
      refine ih hothers (by simp [hcount]) (fun path hpath => ?_) fun i hi => ?_
      · rcases List.mem_append.mp hpath with hmade | hlast
        · exact hfresh path hmade
        · rw [List.mem_singleton.mp hlast]
          exact fun hroot => hnew (List.mem_append_left _ hroot)
      · rcases Nat.lt_succ_iff_lt_or_eq.mp hi with hbefore | rfl
        · exact hseen i hbefore
        · exact hsees
    · cases h

/-- The removals of what was renamed before the provider overtook the job return. -/
def Discards (env : Env) (revision : Moment → Int) (target : Nat) : Prop :=
  ∀ count, Overtakes revision target count →
    ∀ index < count, env.call (.discardPatch index) = .ok ()

theorem leftovers_nil (h : ∀ i < renamed.length, env.call (.discardPatch i) = .ok ()) :
    leftovers env renamed = [] := by
  unfold leftovers
  rw [List.map_eq_nil_iff, List.filter_eq_nil_iff]
  rintro ⟨path, i⟩ hmem
  have hreturns := h i (List.snd_lt_of_mem_zipIdx hmem)
  simp [hreturns, Except.isOk, Except.toBool]

theorem discard_renamed {worker : Worker P}
    (hroot : worker.resultsRoot = resultsRoot ++ renamed)
    (hdiscards : ∀ i < renamed.length, env.call (.discardPatch i) = .ok ())
    (hfresh : ∀ path ∈ renamed, path ∉ resultsRoot) :
    (worker.discardPublishedPatches env renamed).resultsRoot = resultsRoot := by
  unfold Worker.discardPublishedPatches
  dsimp only
  rw [hroot, leftovers_nil hdiscards, List.filter_append, List.filter_eq_self.mpr,
    List.filter_eq_nil_iff.mpr, List.append_nil]
  · intro path hpath
    simp [hpath]
  · intro path hpath
    simp only [List.not_mem_nil, or_false, decide_eq_true_eq]
    exact fun hrenamed => hfresh path hrenamed hpath

theorem discard_none (worker : Worker P) (env : Env) :
    worker.discardPublishedPatches env [] = worker := by
  unfold Worker.discardPublishedPatches
  simp

end Renames

/-! ## The worker -/

section Job

variable [DecidableEq P] {site : Site P B G} {env : Env} {worker : Worker P}
  {live : Dict String TreeSpec} {batch : Option CoalescedEditBatch} {revision : Moment → Int}
  {target : Nat} {fraction : Rat}

theorem publishJob_checked {outcome : JobOutcome}
    (h : publishJob site env worker live batch revision target fraction = .ok (some outcome)) :
    outcome.Checked worker.resultsRoot revision target := by
  unfold publishJob at h
  iterate 2 obtain ⟨_, -, h⟩ := except_bind_ok.mp h
  split at h
  · cases h
  iterate 4 obtain ⟨_, -, h⟩ := except_bind_ok.mp h
  obtain ⟨⟨mode, patches⟩, -, h⟩ := except_bind_ok.mp h
  iterate 2 obtain ⟨_, -, h⟩ := except_bind_ok.mp h
  obtain ⟨published, hpublished, h⟩ := except_bind_ok.mp h
  cases h
  obtain ⟨hfresh, hchecks⟩ := publishPatches_checked hpublished
  have hlength := congrArg List.length (publishPatches_patches hpublished)
  rw [List.length_map, List.length_map, List.length_zipIdx] at hlength
  refine ⟨rfl, fun _ moment hmoment => ?_, hfresh, fun hstatus => absurd rfl hstatus⟩
  obtain ⟨index, hindex, rfl⟩ := List.mem_map.mp hmoment
  apply hchecks index (Nat.zero_le index)
  rw [Nat.zero_add, ← hlength]
  exact List.mem_range.mp hindex

theorem checkNotSuperseded_stopped {moment : Moment} {stop : JobStop}
    (h : checkNotSuperseded revision target [] moment = .error stop) : stop.patchPaths = [] := by
  rw [← (refuseIf_error.mp h).2]
  rfl

theorem mapError_stopped {α : Type} {x : Except Raised α} {stop : JobStop}
    (h : x.mapError (.raised []) = .error stop) : stop.patchPaths = [] := by
  obtain ⟨_, -, rfl⟩ := except_mapError_error.mp h
  rfl

theorem publishJob_stopped {stop : JobStop}
    (h : publishJob site env worker live batch revision target fraction = .error stop) :
    stop.Checked worker.resultsRoot revision target := by
  unfold publishJob at h
  rcases except_bind_error.mp h with h | ⟨_, -, h⟩
  · exact .of_none (checkNotSuperseded_stopped h)
  rcases except_bind_error.mp h with h | ⟨_, -, h⟩
  · exact .of_none (mapError_stopped h)
  split at h
  · cases h
  rcases except_bind_error.mp h with h | ⟨_, -, h⟩
  · exact .of_none (mapError_stopped h)
  rcases except_bind_error.mp h with h | ⟨_, -, h⟩
  · exact .of_none (checkNotSuperseded_stopped h)
  iterate 4
    rcases except_bind_error.mp h with h | ⟨_, -, h⟩
    · exact .of_none (mapError_stopped h)
  rcases except_bind_error.mp h with h | ⟨_, -, h⟩
  · exact .of_none (checkNotSuperseded_stopped h)
  rcases except_bind_error.mp h with h | ⟨_, -, h⟩
  · exact publishPatches_stopped h rfl nofun nofun
  · cases h

theorem workerRun_checked {layer : TreeLayer} {worker' : Worker P} {outcome : JobOutcome}
    (hdiscards : Discards env revision target)
    (h : Worker.run site env layer revision target fraction worker = (.ok outcome, worker')) :
    outcome.Checked worker.resultsRoot revision target ∧
      worker'.resultsRoot = worker.resultsRoot ++ outcome.patchPaths := by
  unfold Worker.run at h
  obtain ⟨current, _, hget, h⟩ := Txn.bind_ok.mp h
  obtain ⟨rfl, rfl⟩ := Txn.get_ok.mp hget
  obtain ⟨batch, _, hbatch, h⟩ := Txn.bind_ok.mp h
  obtain ⟨-, rfl⟩ := Txn.ofExcept_ok.mp hbatch
  split at h
  · obtain ⟨rfl, rfl⟩ := Txn.pure_ok.mp h
    exact ⟨noop_checked .., (List.append_nil _).symm⟩
  · rcases hjob : publishJob site env worker layer.live batch revision target fraction with
      (renamed | ⟨renamed, error⟩) | (_ | published)
    all_goals rw [hjob] at h
    · obtain ⟨_, _, hmodify, h⟩ := Txn.bind_ok.mp h
      obtain rfl := Txn.modify_ok.mp hmodify
      obtain ⟨rfl, rfl⟩ := Txn.pure_ok.mp h
      obtain ⟨hfresh, hovertaken⟩ := publishJob_stopped hjob
      refine ⟨superseded_checked .., ?_⟩
      refine (discard_renamed rfl (fun i hi => ?_) hfresh).trans (List.append_nil _).symm
      rcases hovertaken renamed rfl with hnone | hovertakes
      · rw [hnone] at hi
        exact absurd hi (Nat.not_lt_zero i)
      · exact hdiscards _ hovertakes i hi
    · obtain ⟨_, _, -, h⟩ := Txn.bind_ok.mp h
      cases Txn.throw_ok h
    · obtain ⟨rfl, rfl⟩ := Txn.pure_ok.mp h
      exact ⟨noop_checked .., (List.append_nil _).symm⟩
    · obtain ⟨_, _, hmodify, h⟩ := Txn.bind_ok.mp h
      obtain rfl := Txn.modify_ok.mp hmodify
      obtain ⟨rfl, rfl⟩ := Txn.pure_ok.mp h
      exact ⟨publishJob_checked hjob, rfl⟩

theorem workerRun_raised {layer : TreeLayer} {worker' : Worker P} {error : Raised}
    (hdiscards : ∀ index, env.call (.discardPatch index) = .ok ())
    (h : Worker.run site env layer revision target fraction worker = (.error error, worker')) :
    worker'.resultsRoot = worker.resultsRoot := by
  unfold Worker.run at h
  rcases Txn.bind_error.mp h with h | ⟨current, _, hget, h⟩
  · cases h
  obtain ⟨rfl, rfl⟩ := Txn.get_ok.mp hget
  rcases Txn.bind_error.mp h with h | ⟨batch, _, hbatch, h⟩
  · rw [(Txn.ofExcept_error.mp h).2]
  obtain ⟨-, rfl⟩ := Txn.ofExcept_ok.mp hbatch
  split at h
  · cases h
  · rcases hjob : publishJob site env worker layer.live batch revision target fraction with
      (renamed | ⟨renamed, error'⟩) | (_ | published)
    all_goals rw [hjob] at h
    · cases h
    · cases h
      exact discard_renamed rfl (fun i _ => hdiscards i) (publishJob_stopped hjob).fresh
    · cases h
    · cases h

end Job

/-! ## The paths of the forcing -/

theorem raising_ok {α : Type} {x : Except Raised α} {a : α} : raising x = .ok a ↔ x = .ok a :=
  except_mapError_ok

variable {site : Site P B G} {env : Env} {s t : PlanExecutor P B G} {p : Prepared P B}
  {target : Nat} {outcome : JobOutcome}

theorem metUtciFastPath_checked [DecidableEq P] (h : metUtciFastPath site env s p target = .ok outcome) :
    outcome.Checked s.worker.resultsRoot (currentRevision site env s) target := by
  unfold metUtciFastPath at h
  split at h
  · cases h
  iterate 5 obtain ⟨_, -, h⟩ := except_bind_ok.mp h
  split at h
  · cases h
  · cases h
  · exact publishStaged_checked (by decide) (raising_ok.mp h)

theorem metWarmSparsePath_checked [DecidableEq P] (h : metWarmSparsePath site env s p target = .ok outcome) :
    outcome.Checked s.worker.resultsRoot (currentRevision site env s) target := by
  unfold metWarmSparsePath at h
  split at h
  · cases h
  iterate 3 obtain ⟨_, -, h⟩ := except_bind_ok.mp h
  split at h
  · cases h
  iterate 3 obtain ⟨_, -, h⟩ := except_bind_ok.mp h
  exact publishStaged_checked (by decide) (raising_ok.mp h)

theorem metPath_checked [DecidableEq P] (h : metPath site env s p target = .ok (some outcome)) :
    outcome.Checked s.worker.resultsRoot (currentRevision site env s) target := by
  unfold metPath at h
  split at h
  · cases h
  dsimp only at h
  split at h
  · next outcome' hpath =>
    cases h
    split at hpath
    · exact metUtciFastPath_checked hpath
    · split at hpath
      · exact metWarmSparsePath_checked hpath
      · cases hpath
  · cases h
  · cases h

/-! ## Dispatch -/

/-- What the provider of the caller says while a batch runs; without one, the executor's own
revision, which is the target. -/
def providerValue (site : Site P B G) (env : Env) (target : Nat) (moment : Moment) : Int :=
  if site.externalProvider then env.revision moment else target

theorem currentRevision_eq (hs : s.state.sceneRevision = target) :
    currentRevision site env s = providerValue site env target := by
  funext moment
  unfold currentRevision providerValue
  rw [hs]

theorem regenerateBuildingChain_checked
    (h : regenerateBuildingChain site env s target = .ok outcome) :
    outcome.Checked s.worker.resultsRoot (fun _ => s.state.sceneRevision) target := by
  unfold regenerateBuildingChain at h
  iterate 2 obtain ⟨_, -, h⟩ := except_bind_ok.mp h
  split at h
  · cases h
    exact superseded_checked ..
  · exact publishStaged_checked (by decide) h

/-- The path that takes the batch leaves its patches under the results root and nothing else. The
building chain takes it only when there is massing. -/
theorem dispatch_checked [DecidableEq P] (hs : s.state.sceneRevision = target)
    (hcondition : site.externalProvider = false ∨ p.massingFold = [])
    (hdiscards : Discards env (providerValue site env target) target) {met : Bool}
    (h : dispatch site env p target s = (.ok (outcome, met), t)) :
    outcome.Checked s.worker.resultsRoot (providerValue site env target) target ∧
      t.worker.resultsRoot = s.worker.resultsRoot ++ outcome.patchPaths := by
  unfold dispatch at h
  obtain ⟨current, s', hget, h⟩ := Txn.bind_ok.mp h
  obtain ⟨rfl, rfl⟩ := Txn.get_ok.mp hget
  obtain ⟨taken, s', hrun, h⟩ := Txn.bind_ok.mp h
  obtain ⟨hpath, rfl⟩ := Txn.ofExcept_ok.mp hrun
  cases taken with
  | some taken =>
    obtain ⟨_, _, hmodify, h⟩ := Txn.bind_ok.mp h
    obtain rfl := Txn.modify_ok.mp hmodify
    obtain ⟨houtcome, rfl⟩ := Txn.pure_ok.mp h
    cases houtcome
    rw [← currentRevision_eq hs]
    exact ⟨metPath_checked hpath, rfl⟩
  | none =>
    dsimp only at h
    split at h
    · obtain ⟨_, _, hwork, h⟩ := Txn.bind_ok.mp h
      obtain ⟨houtcome, rfl⟩ := Txn.pure_ok.mp h
      cases houtcome
      unfold runWorker at hwork
      rw [Prod.mk.injEq] at hwork
      obtain ⟨hrun, rfl⟩ := hwork
      rw [← currentRevision_eq hs] at hdiscards ⊢
      exact workerRun_checked hdiscards (Prod.ext hrun rfl)
    · next hmassing =>
      have hinternal : site.externalProvider = false :=
        hcondition.resolve_right fun hnone => hmassing (by rw [hnone]; rfl)
      have hfixed : providerValue site env target = fun _ => (s.state.sceneRevision : Int) := by
        funext moment
        rw [providerValue, hinternal, hs]
        rfl
      obtain ⟨_, _, hchain, h⟩ := Txn.bind_ok.mp h
      obtain ⟨hregenerated, rfl⟩ := Txn.ofExcept_ok.mp hchain
      obtain ⟨_, _, hmodify, h⟩ := Txn.bind_ok.mp h
      obtain rfl := Txn.modify_ok.mp hmodify
      obtain ⟨houtcome, rfl⟩ := Txn.pure_ok.mp h
      cases houtcome
      rw [hfixed]
      exact ⟨regenerateBuildingChain_checked hregenerated, rfl⟩

theorem dispatch_raised [DecidableEq P] {error : Raised}
    (hdiscards : ∀ index, env.call (.discardPatch index) = .ok ())
    (h : dispatch site env p target s = (.error error, t)) :
    t.worker.resultsRoot = s.worker.resultsRoot := by
  unfold dispatch at h
  rcases Txn.bind_error.mp h with h | ⟨current, s', hget, h⟩
  · cases h
  obtain ⟨rfl, rfl⟩ := Txn.get_ok.mp hget
  rcases Txn.bind_error.mp h with h | ⟨taken, s', hrun, h⟩
  · rw [(Txn.ofExcept_error.mp h).2]
  obtain ⟨-, rfl⟩ := Txn.ofExcept_ok.mp hrun
  cases taken with
  | some taken => cases h
  | none =>
    dsimp only at h
    split at h
    · rcases Txn.bind_error.mp h with h | ⟨_, _, -, h⟩
      · unfold runWorker at h
        rw [Prod.mk.injEq] at h
        obtain ⟨hrun, rfl⟩ := h
        exact workerRun_raised hdiscards (Prod.ext hrun rfl)
      · cases h
    · rcases Txn.bind_error.mp h with h | ⟨_, _, -, h⟩
      · rw [(Txn.ofExcept_error.mp h).2]
      · cases h

theorem recordOutcome_published {executed : ExecutedPlan}
    (h : recordOutcome site env p outcome s = (.ok executed, t))
    (hstatus : executed.status = .published) :
    outcome.status = .published ∧ executed.path = some outcome.path ∧
      executed.sceneRevision = outcome.sceneRevision ∧
      executed.patchPaths.length = outcome.patches.length := by
  rcases hpublished : outcome.status with _ | _ | _
  all_goals simp only [recordOutcome, hpublished] at h
  · iterate 3 obtain ⟨_, _, -, h⟩ := Txn.bind_ok.mp h
    cases (Txn.pure_ok.mp h).1
    exact ⟨rfl, rfl, rfl, List.length_map ..⟩
  · cases (Txn.pure_ok.mp h).1
    cases hstatus
  · cases Txn.throw_ok h

theorem recordOutcome_unpublished {executed : ExecutedPlan}
    (h : recordOutcome site env p outcome s = (.ok executed, t))
    (hstatus : executed.status ≠ .published) :
    outcome.status ≠ .published ∧ executed.patchPaths = [] ∧ t = s := by
  rcases hpublished : outcome.status with _ | _ | _
  all_goals simp only [recordOutcome, hpublished] at h
  · iterate 3 obtain ⟨_, _, -, h⟩ := Txn.bind_ok.mp h
    cases (Txn.pure_ok.mp h).1
    exact absurd rfl hstatus
  · obtain ⟨hexecuted, rfl⟩ := Txn.pure_ok.mp h
    cases hexecuted
    exact ⟨by simp, rfl, rfl⟩
  · cases Txn.throw_ok h

/-- Every rename of a published plan followed a look that found the target. -/
def ExecutedPlan.Checked (site : Site P B G) (env : Env) (target : Nat) (executed : ExecutedPlan) :
    Prop :=
  executed.sceneRevision = target ∧ ∃ path, executed.path = some path ∧
    ∀ moment ∈ lastChecks path executed.patchPaths.length,
      providerValue site env target moment = target

section Attempt

variable [DecidableEq P] (hs : s.state.sceneRevision = target)
  (hcondition : site.externalProvider = false ∨ p.massingFold = [])
include hs hcondition

theorem attemptBatch_checked {result : ExecutedPlan × Bool}
    (hdiscards : Discards env (providerValue site env target) target)
    (h : attemptBatch site env p target s = (.ok result, t))
    (hstatus : result.1.status = .published) : result.1.Checked site env target := by
  obtain ⟨outcome, u, hdispatch, hrecord⟩ := attemptBatch_ok.mp h
  obtain ⟨hpublished, hpath, hrevision, hlength⟩ := recordOutcome_published hrecord hstatus
  obtain ⟨hchecked, -⟩ := dispatch_checked hs hcondition hdiscards hdispatch
  refine ⟨hrevision.trans hchecked.sceneRevision, outcome.path, hpath, ?_⟩
  rw [hlength]
  exact hchecked.checks hpublished

theorem attemptBatch_unpublished {result : ExecutedPlan × Bool}
    (hdiscards : Discards env (providerValue site env target) target)
    (h : attemptBatch site env p target s = (.ok result, t))
    (hstatus : result.1.status ≠ .published) :
    result.1.patchPaths = [] ∧ t.worker.resultsRoot = s.worker.resultsRoot := by
  obtain ⟨outcome, u, hdispatch, hrecord⟩ := attemptBatch_ok.mp h
  obtain ⟨hunpublished, hnone, rfl⟩ := recordOutcome_unpublished hrecord hstatus
  obtain ⟨hchecked, hroot⟩ := dispatch_checked hs hcondition hdiscards hdispatch
  rw [hchecked.unpublished hunpublished, List.append_nil] at hroot
  exact ⟨hnone, hroot⟩

theorem attemptBatch_raised {error : Raised} {renamed : List String}
    (hdiscards : ∀ index, env.call (.discardPatch index) = .ok ())
    (h : attemptBatch site env p target s = (.error (error, renamed), t)) :
    t.worker.resultsRoot = s.worker.resultsRoot ++ renamed ∧
      ∀ path ∈ renamed, path ∉ s.worker.resultsRoot := by
  unfold attemptBatch at h
  rcases hdispatch : dispatch site env p target s with ⟨raised | ⟨outcome, metPublished⟩, u⟩
  all_goals
    rw [hdispatch] at h
    dsimp only at h
  · cases h
    exact ⟨(dispatch_raised hdiscards hdispatch).trans (List.append_nil _).symm, nofun⟩
  · obtain ⟨hchecked, hroot⟩ := dispatch_checked hs hcondition
      (fun _ _ index _ => hdiscards index) hdispatch
    rcases recordOutcome_cases site env p outcome u with
      ⟨_, _, hrecord, -⟩ | ⟨_, hrecord, -⟩ | ⟨_, hrecord⟩
    all_goals
      rw [hrecord] at h
      cases h
    exact ⟨hroot, hchecked.fresh⟩

end Attempt

/-! ## Batches -/

/-- No patch of the batch stands under the results root, and the store and the scene stay. -/
structure Unpublished (before after : PlanExecutor P B G) : Prop where
  resultsRoot : after.worker.resultsRoot = before.worker.resultsRoot
  store : after.store = before.store
  state : after.state = before.state

/-- A batch publishes only what the provider let through at the last checks, and a superseded one
leaves nothing. One that raises leaves the store and the scene, and no patch either where the
removals return. -/
def Honoured (site : Site P B G) (env : Env) (before : PlanExecutor P B G)
    (result : Except Raised ExecutedPlan × PlanExecutor P B G) : Prop :=
  match result.1 with
  | .ok executed =>
    if executed.status = .published then
      executed.Checked site env (before.state.sceneRevision + 1)
    else Unpublished before result.2
  | .error _ =>
    result.2.store = before.store ∧ result.2.state = before.state ∧
      ((∀ index, env.call (.discardPatch index) = .ok ()) →
        result.2.worker.resultsRoot = before.worker.resultsRoot)

theorem Unpublished.honoured {before : PlanExecutor P B G}
    {result : Except Raised ExecutedPlan × PlanExecutor P B G} (h : Unpublished before result.2)
    (hresult : ∀ executed, result.1 = .ok executed → executed.status ≠ .published) :
    Honoured site env before result := by
  unfold Honoured
  split
  · next executed hexecuted =>
    rw [if_neg (hresult executed hexecuted)]
    exact h
  · exact ⟨h.store, h.state, fun _ => h.resultsRoot⟩

theorem advance_revision {graph : EditGraph} {state advanced : SceneState} {changed : List String}
    (h : state.advance graph changed = .ok advanced) :
    advanced.sceneRevision = state.sceneRevision + 1 := by
  unfold SceneState.advance at h
  split at h
  · cases h
  · cases h
    rfl

theorem executePrepared_honoured [DecidableEq P] {before : PlanExecutor P B G}
    (hsound : before.layer.Sound)
    (hcondition : site.externalProvider = false ∨ p.massingFold = [])
    (hdiscards : Discards env (providerValue site env (before.state.sceneRevision + 1))
      (before.state.sceneRevision + 1)) :
    Honoured site env before (executePrepared site env p before) := by
  unfold executePrepared
  rcases hadvance : before.state.advance site.graph p.plan.changedSources with error | state
  · exact Unpublished.honoured ⟨rfl, rfl, rfl⟩ nofun
  rw [← advance_revision hadvance] at hdiscards
  have hreplay := replayTreeEdits_sound hsound p.batchEdits
  dsimp only [replayBatch]
  rcases hrun : replayTreeEdits before.layer p.batchEdits with ⟨layer, error | ⟨⟩⟩
  all_goals rw [hrun] at hreplay
  · have hroot : ((before.worker.rollbackPending before.worker.published).discardPublishedPatches env
        []).resultsRoot = before.worker.resultsRoot := by
      rw [discard_none]
      rfl
    exact Unpublished.honoured ⟨hroot, rfl, rfl⟩ nofun
  dsimp only [Except.mapError]
  rcases attempt_cases site env p state.sceneRevision { before with state, layer } with
    ⟨result, worker, store, hattempt, hstatus⟩ | ⟨result, worker, hattempt, hstatus⟩ |
      ⟨⟨error, renamed⟩, worker, hattempt⟩
  all_goals
    rw [hattempt]
    dsimp only
  · rw [if_pos hstatus]
    obtain ⟨_, t, hcommit⟩ := commitBatch_total p before.worker.published.ackedSequence result.2
      (s := { before with state, layer, worker, store }) hreplay
    rw [Txn.bind_of_ok hcommit]
    unfold Honoured
    dsimp only [pure, Txn.ret]
    rw [if_pos hstatus, ← advance_revision hadvance]
    exact attemptBatch_checked (s := { before with state, layer }) rfl hcondition hdiscards hattempt
      hstatus
  · rw [if_neg hstatus]
    obtain ⟨hnone, hroot⟩ := attemptBatch_unpublished (s := { before with state, layer }) rfl
      hcondition hdiscards hattempt hstatus
    unfold rollbackFailedBatch
    rw [hnone, discard_none]
    rcases undoTreeEdits layer p.batchEdits with ⟨undone, failure | ⟨⟩⟩
    · exact Unpublished.honoured ⟨hroot, rfl, rfl⟩ nofun
    · refine Unpublished.honoured ⟨hroot, rfl, rfl⟩ fun executed hexecuted => ?_
      cases hexecuted
      exact hstatus
  · refine ⟨rfl, rfl, fun hreturn => ?_⟩
    obtain ⟨hroot, hfresh⟩ := attemptBatch_raised (s := { before with state, layer }) rfl hcondition
      hreturn hattempt
    unfold rollbackFailedBatch
    exact discard_renamed hroot (fun index _ => hreturn index) hfresh

/-- The massing that a batch leaves staged over what is applied. -/
def Request.massing [DecidableEq P] [DecidableEq B] (request : Request P B) (site : Site P B G)
    (applied : MassingFold B) : MassingFold B :=
  match groupDeltas request.committedDeltas with
  | .error _ => []
  | .ok committed =>
    match prepareBuildingBatch site committed with
    | .error _ => []
    | .ok edits => edits.foldl foldMassing applied

variable [DecidableEq P] [DecidableEq B] {request : Request P B}

omit [DecidableEq B] in
theorem prepare_folds {committed : Committed P B}
    (h : prepare site env request committed s = (.ok (some p), t)) :
    ∃ edits, prepareBuildingBatch site committed = .ok edits ∧
      p.massingFold = edits.foldl foldMassing s.appliedMassingEdits := by
  have ht := (keeps_prepare site env request committed).ended h
  have happlied : t.appliedMassingEdits = s.appliedMassingEdits := by
    show (settled t).appliedMassingEdits = (settled s).appliedMassingEdits
    rw [ht]
  unfold prepare at h
  iterate 9 obtain ⟨_, _, -, h⟩ := Txn.bind_ok.mp h
  obtain ⟨edits, _, hedits, h⟩ := Txn.bind_ok.mp h
  obtain ⟨current, _, hget, h⟩ := Txn.bind_ok.mp h
  obtain ⟨rfl, rfl⟩ := Txn.get_ok.mp hget
  refine ⟨edits, (Txn.ofExcept_ok.mp hedits).1, ?_⟩
  split at h
  · obtain ⟨_, _, -, h⟩ := Txn.bind_ok.mp h
    cases (Txn.pure_ok.mp h).1
  · obtain ⟨hp, rfl⟩ := Txn.pure_ok.mp h
    cases hp
    rw [← happlied]

theorem prepare_massing {committed : Committed P B}
    (hcommitted : groupDeltas request.committedDeltas = .ok committed)
    (h : prepare site env request committed s = (.ok (some p), t)) :
    p.massingFold = request.massing site s.appliedMassingEdits := by
  obtain ⟨edits, hedits, hfold⟩ := prepare_folds h
  rw [Request.massing, hcommitted]
  dsimp only
  rw [hedits]
  exact hfold

/-- From any executor that batches reach, supersession is honoured where the provider is the
executor's own, or where no massing is staged, and where the removals return of what was renamed
before the provider overtook the batch. -/
theorem batches_honour_supersession {site : Site P B G} {batches : List (Env × Request P B)}
    {s : PlanExecutor P B G} (hrun : run (executeBatch site) (.initial site) batches = some s)
    (env : Env) (request : Request P B)
    (hcondition : site.externalProvider = false ∨ request.massing site s.appliedMassingEdits = [])
    (hdiscards : Discards env (providerValue site env (s.state.sceneRevision + 1))
      (s.state.sceneRevision + 1)) :
    Honoured site env s (executePlan site env request s) := by
  rcases executePlan_dispatched site env request s with ⟨hsettled, hunpublished⟩ |
    ⟨committed, p, t, hcommitted, hprepare, hexecute⟩
  · exact Unpublished.honoured ⟨resultsRoot_of_settled hsettled,
      congrArg Scene.store (scene_of_settled hsettled),
      congrArg Scene.state (scene_of_settled hsettled)⟩ hunpublished
  · have ht := (keeps_prepare site env request committed).ended hprepare
    have hscene := scene_of_settled ht
    rw [← prepare_massing hcommitted hprepare] at hcondition
    have hsound := run_sound site hrun
    rw [← layer_of_settled ht] at hsound
    have hroot := resultsRoot_of_settled ht
    have hstore : t.store = s.store := congrArg Scene.store hscene
    have hstate : t.state = s.state := congrArg Scene.state hscene
    rw [← hstate] at hdiscards
    have hhonoured : Honoured site env t (executePrepared site env p t) :=
      executePrepared_honoured hsound hcondition hdiscards
    rw [hexecute]
    unfold Honoured at hhonoured ⊢
    rw [hstate] at hhonoured
    split
    · next executed hexecuted =>
      rw [hexecuted] at hhonoured
      dsimp only at hhonoured
      split
      · next hstatus => rwa [if_pos hstatus] at hhonoured
      · next hstatus =>
        rw [if_neg hstatus] at hhonoured
        exact ⟨hhonoured.resultsRoot.trans hroot, hhonoured.store.trans hstore,
          hhonoured.state.trans hstate⟩
    · next error herror =>
      rw [herror] at hhonoured
      dsimp only at hhonoured
      rwa [hstore, hroot] at hhonoured

/-- The revision of the caller is 99 all the time. -/
def overtaken (jobId : String) : Env := { returning jobId with revision := fun _ => 99 }

/-- Two cells, both of which every change of a tree makes dirty. -/
def twoCellSite : Site Unit Unit Unit :=
  { cellSite true with
    grid := ⟨1, 2, 1, Nat.one_pos, Nat.two_pos⟩
    treeWindows := fun _ =>
      [⟨0, 1, 0, 1, Int.one_nonneg, Int.one_nonneg⟩, ⟨0, 1, 1, 2, Int.one_nonneg, one_le_two⟩] }

/-- The caller overtakes the batch when it has renamed the first of its patches. -/
def overtakenBetween (jobId : String) (removal : Answer) : Env where
  jobId
  answer := fun call => if call = .discardPatch 0 then removal else .returns
  revision := fun moment => if moment = .beforeRename 1 then 99 else 1

/-- A tree batch of two windows whose caller overtakes it between the renames. -/
theorem overtaken_oak_is_honoured :
    Honoured twoCellSite (overtakenBetween "add" .returns) (.initial twoCellSite)
      (executePlan twoCellSite (overtakenBetween "add" .returns)
        (oakRequest 0 none (some (oakState 5)) (by decide)) (.initial twoCellSite)) :=
  batches_honour_supersession
    (show run (executeBatch twoCellSite) (.initial twoCellSite) [] =
      some (.initial twoCellSite) from rfl)
    _ _ (Or.inr (by decide)) fun _ _ index _ => by simp [Env.call, overtakenBetween]

/-- The first patch stays when its removal raises. -/
example : (executePlan twoCellSite (overtakenBetween "add" (.raises "busy"))
    (oakRequest 0 none (some (oakState 5)) (by decide)) (.initial twoCellSite)).2.worker.resultsRoot =
      ["add-w0"] := by decide +kernel

def massingRequest : Request Unit Unit where
  plan := ⟨[buildingSourceNode], [], [], [], 0, 0, 0, none⟩
  committedDeltas :=
    [⟨buildingSourceNode, buildingAdapterId,
      .buildingMassing [⟨"block", none, some (.building ()), by decide⟩] []⟩]
  requestedVariables := none

/-- A building batch of a caller that overtook it is published. -/
theorem overtaken_massing_is_not_honoured :
    ¬ ∀ (site : Site Unit Unit Unit) (batches : List (Env × Request Unit Unit))
      (s : PlanExecutor Unit Unit Unit) (env : Env) (request : Request Unit Unit),
      run (executeBatch site) (.initial site) batches = some s →
        Honoured site env s (executePlan site env request s) := by
  intro hall
  have hhonoured := hall (cellSite true) [] (.initial (cellSite true)) (overtaken "build")
    massingRequest rfl
  have hpublished : ((executePlan (cellSite true) (overtaken "build") massingRequest
      (.initial (cellSite true))).1.toOption.map fun executed =>
        (executed.status, executed.path)) = some (.published, some .building) := by
    decide
  unfold Honoured at hhonoured
  split at hhonoured
  · next executed hexecuted =>
    rw [hexecuted] at hpublished
    obtain ⟨hstatus, hbuilding⟩ := Prod.mk.inj (Option.some.inj hpublished)
    rw [if_pos hstatus] at hhonoured
    obtain ⟨-, path, hpath, hchecks⟩ := hhonoured
    obtain rfl : path = .building := Option.some.inj (hpath.symm.trans hbuilding)
    exact absurd (hchecks .staged (List.mem_singleton_self _)) (by decide)
  · next error herror =>
    rw [herror] at hpublished
    cases hpublished

end Solweig.Executor
