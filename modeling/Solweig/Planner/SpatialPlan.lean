import Solweig.Planner.Scopes

/-!
# Spatial scopes of a plan

What a plan says of its stages: which they are and their order, the windows that they write, and
what a stage takes over from its dirty parents.
-/

namespace Solweig.Planner.EditPlanner

open Solweig.Lib RasterWindow

variable {V : Type} {planner : EditPlanner V} {nodeId : String}

/-! ## What a plan says -/

variable (planner) (edits : List (ValidatedEdit V)) (changed : List (SourceDelta V))

/-- Some changed source reaches the node. -/
def Dirty (nodeId : String) : Prop :=
  ∃ source ∈ planner.scientificSources changed, planner.graph.Reaches source nodeId

/-- The output is asked for, or another output that needs it. Without a request every output is. -/
def Requested (nodeId : String) : Prop :=
  nodeId ∉ neverPlannedOutputs ∧ ((∀ edit ∈ edits, edit.command.requestedOutputs = []) ∨
    ∃ edit ∈ edits, ∃ output ∈ edit.command.requestedOutputs,
      planner.graph.kind? output = some .output ∧ planner.graph.Reaches nodeId output)

/-- A dirty executable node that is no unrequested output. -/
def Stage (nodeId : String) : Prop :=
  planner.Dirty changed nodeId ∧ planner.graph.isExecutable nodeId ∧
    (planner.graph.kind? nodeId = some .output → planner.Requested edits nodeId)

/-- The scope that the plan has for a dirty node: that of its impact, or that of the changed
source. -/
def HasScope (result : ImpactPlan) (nodeId : String) (scope : NodeScope) : Prop :=
  (∃ impact ∈ result.nodeImpacts, impact.nodeId = nodeId ∧ scopeOf impact = scope) ∨
  (nodeId ∉ result.nodeImpacts.map (·.nodeId) ∧ nodeId ∈ planner.scientificSources changed ∧
    ∃ reasons, planner.resolveSourceScope nodeId (deltasOf changed nodeId) = .ok (scope, reasons))

/-- The stages of the plan, the windows that they write, and what stays reusable. -/
structure SpatialPlan (result : ImpactPlan) : Prop where
  listed : ∀ nodeId, nodeId ∈ result.nodeImpacts.map (·.nodeId) ↔
    planner.Stage edits changed nodeId
  once : (result.nodeImpacts.map (·.nodeId)).Nodup
  ordered : ∀ before impact after, result.nodeImpacts = before ++ impact :: after →
    ∀ parent, (parent, impact.nodeId) ∈ planner.graph.edges →
      parent ∈ result.nodeImpacts.map (·.nodeId) → parent ∈ before.map (·.nodeId)
  windows : ∀ impact ∈ result.nodeImpacts, impact.spatialScope = .windows →
    impact.writeWindows ≠ [] ∧ impact.writeWindows.Pairwise Apart ∧
      ∀ w ∈ impact.writeWindows, w.Occupied ∧ w.Within planner.grid.fullWindow
  reusable : ∀ nodeId, nodeId ∈ result.reusableNodes ↔ nodeId ∈ planner.graph.nodeIds ∧
    ¬ planner.Dirty changed nodeId ∧
    ¬ (nodeId ∈ changedNodes changed ∧ planner.graph.kind? nodeId = some .view)
  transport : ∀ impact ∈ result.nodeImpacts, ∀ w ∈ impact.writeWindows,
    ∃ box, result.transportWindow = some box ∧ w.Within box

/-- What a stage takes over from its dirty parents: their full scope, and the cells that they
write. -/
structure Inherits (result : ImpactPlan) (impact : NodeImpact) : Prop where
  known : ∀ parent, (parent, impact.nodeId) ∈ planner.graph.edges → planner.Dirty changed parent →
    ∃ scope, planner.HasScope changed result parent scope
  full : ∀ parent, (parent, impact.nodeId) ∈ planner.graph.edges → planner.Dirty changed parent →
    ∀ scope, planner.HasScope changed result parent scope → scope.spatialScope = .full →
      impact.spatialScope = .full
  covers : impact.spatialScope = .windows → ∀ parent, (parent, impact.nodeId) ∈ planner.graph.edges →
    planner.Dirty changed parent → ∀ scope, planner.HasScope changed result parent scope →
      ∀ cell, (∃ w ∈ scope.windows, w.Holds cell) → ∃ m ∈ impact.writeWindows, m.Holds cell

/-- The batch is narrowed to the comfort plan. -/
def Narrows : Prop :=
  planner.scientificSources changed = ["meteorology"] ∧
    (∃ changes, utciOnlyChanges? (deltasOf changed "meteorology") = some changes ∧ changes ≠ []) ∧
    "utci" ∉ planner.policy.fullOnlyNodes ∧
    ∃ keep, planner.neededOutputs (sortedSet (edits.flatMap (·.command.requestedOutputs))) =
      .ok keep ∧ "utci" ∈ keep

variable {planner edits changed}

/-! ## The pieces of a plan -/

theorem sourceWalk_spec {walk : Walk}
    (h : planner.sourceWalk (planner.scientificSources changed) changed = .ok walk) :
    walk.impacts = [] ∧
      (∀ id scope, walk.resolved id = some scope ↔
        id ∈ planner.scientificSources changed ∧ ∃ reasons,
          planner.resolveSourceScope id (deltasOf changed id) = .ok (scope, reasons)) ∧
      ∀ id ∈ planner.scientificSources changed, ∃ scope, walk.resolved id = some scope := by
  unfold sourceWalk at h
  refine foldlM_invariant (I := fun done w => w.impacts = [] ∧
    (∀ id scope, w.resolved id = some scope ↔ id ∈ done ∧ ∃ reasons,
      planner.resolveSourceScope id (deltasOf changed id) = .ok (scope, reasons)) ∧
    ∀ id ∈ done, ∃ scope, w.resolved id = some scope) ?_ ?_ h
  · intro done source rest w w' _ hw hstep
    rw [except_bind_ok] at hstep
    obtain ⟨⟨found, reasons⟩, hfound, hpure⟩ := hstep
    obtain rfl := Except.ok.inj hpure
    obtain ⟨himpacts, hscopes, hall⟩ := hw
    refine ⟨himpacts, fun id scope => ?_, fun id hid => ?_⟩ <;> dsimp only <;>
      by_cases heq : id = source
    · subst heq
      rw [Function.update_self, Option.some.injEq]
      constructor
      · rintro rfl
        exact ⟨by simp, reasons, hfound⟩
      · rintro ⟨-, reasons', hsame⟩
        exact (Prod.mk.inj (Except.ok.inj (hfound.symm.trans hsame))).1
    · rw [Function.update_of_ne heq, hscopes id scope]
      simp [heq]
    · subst heq
      rw [Function.update_self]
      exact ⟨found, rfl⟩
    · rw [Function.update_of_ne heq]
      exact hall id (by simpa [heq] using hid)
  · exact ⟨rfl, by simp, by simp⟩

theorem mem_of_kind? {kind : NodeKind} (h : planner.graph.kind? nodeId = some kind) :
    nodeId ∈ planner.graph.nodeIds := by
  unfold EditGraph.kind? at h
  obtain ⟨node, hnode, -⟩ := Option.map_eq_some_iff.mp h
  have hid : node.nodeId = nodeId := by simpa using List.find?_some hnode
  exact List.mem_map.mpr ⟨node, List.mem_of_find?_eq_some hnode, hid⟩

theorem mem_of_isExecutable (h : planner.graph.isExecutable nodeId = true) :
    nodeId ∈ planner.graph.nodeIds := by
  unfold EditGraph.isExecutable at h
  obtain ⟨kind, hkind, -⟩ := (Option.any_eq_true _ _).mp h
  exact mem_of_kind? hkind

theorem neededOutputs_spec {keep : List String}
    (h : planner.neededOutputs (sortedSet (edits.flatMap (·.command.requestedOutputs))) = .ok keep)
    (houtput : planner.graph.kind? nodeId = some .output) :
    nodeId ∈ keep ↔ planner.Requested edits nodeId := by
  have hmem := mem_of_kind? houtput
  unfold neededOutputs at h
  dsimp only at h
  split at h
  · cases h
  · split at h
    · rename_i hnone
      obtain rfl := Except.ok.inj h
      have hnothing : ∀ edit ∈ edits, edit.command.requestedOutputs = [] := by
        intro edit hedit
        rw [List.eq_nil_iff_forall_not_mem] at hnone ⊢
        exact fun output hout => hnone output
          (mem_sortedSet.mpr (List.mem_flatMap.mpr ⟨edit, hedit, hout⟩))
      unfold Requested
      simp only [List.mem_filter, hmem, houtput, decide_true, decide_eq_true_eq, and_self, true_and]
      exact ⟨fun hnever => ⟨hnever, Or.inl hnothing⟩, And.left⟩
    · rename_i hsome
      obtain rfl := Except.ok.inj h
      have hrequests : ¬ ∀ edit ∈ edits, edit.command.requestedOutputs = [] := by
        intro hnothing
        refine hsome (List.eq_nil_iff_forall_not_mem.mpr fun output hout => ?_)
        obtain ⟨edit, hedit, hout⟩ := List.mem_flatMap.mp (mem_sortedSet.mp hout)
        simp [hnothing edit hedit] at hout
      have hseeds : (sortedSet (edits.flatMap (·.command.requestedOutputs))).filter
          (fun name => name ∈ planner.graph.nodeIds.filter
            fun id => planner.graph.kind? id = some .output) ⊆ planner.graph.nodeIds :=
        fun name hname => (List.mem_filter.mp (of_decide_eq_true (List.mem_filter.mp hname).2)).1
      have hparents : ∀ id ∈ planner.graph.nodeIds,
          planner.graph.parents id ⊆ planner.graph.nodeIds :=
        fun id _ parent hparent => (planner.graph.endpoints _ (mem_parents.mp hparent)).1
      have hreaches : ∀ output, Relation.ReflTransGen
          (fun x y => y ∈ planner.graph.parents x) output nodeId ↔
          planner.graph.Reaches nodeId output := by
        intro output
        unfold EditGraph.Reaches
        rw [← Relation.reflTransGen_swap]
        simp only [mem_parents]
      rw [List.mem_filter, mem_closure hseeds hparents, decide_eq_true_eq]
      unfold Requested
      simp only [hreaches, hrequests, false_or, List.mem_filter, mem_sortedSet, List.mem_flatMap,
        decide_eq_true_eq, hmem, houtput, and_self, true_and]
      constructor
      · rintro ⟨⟨output, ⟨⟨edit, hedit, hout⟩, -, hkind⟩, hreach⟩, hnever⟩
        exact ⟨hnever, edit, hedit, output, hout, hkind, hreach⟩
      · rintro ⟨hnever, edit, hedit, output, hout, hkind, hreach⟩
        exact ⟨⟨output, ⟨⟨edit, hedit, hout⟩, mem_of_kind? hkind, hkind⟩, hreach⟩, hnever⟩

theorem metUtciFastPlan_narrows {keep : List String} {requestedTimes : List Nat}
    {reasons : List String} {state : PlannedState} {context : Option SiteContext}
    {result : ImpactPlan}
    (hkeep : planner.neededOutputs (sortedSet (edits.flatMap (·.command.requestedOutputs))) =
      .ok keep)
    (h : planner.metUtciFastPlan changed (planner.scientificSources changed) keep requestedTimes
      reasons state context = .ok (.plan result)) : planner.Narrows edits changed := by
  unfold metUtciFastPlan at h
  split at h
  · cases h
  · rename_i hsources
    split at h
    · cases h
    · rename_i changes hchanges
      split at h
      · cases h
      · rename_i hpolicy
        split at h
        · cases h
        · rename_i hsome
          split at h
          · cases h
          · rename_i hutci
            exact ⟨not_not.mp hsources, ⟨changes, hchanges, hsome⟩, hpolicy, keep, hkeep,
              not_not.mp hutci⟩

theorem transportWindow_holds {impacts : List NodeImpact} {impact : NodeImpact}
    (himpact : impact ∈ impacts) {w : RasterWindow} (hw : w ∈ impact.writeWindows)
    (hoccupied : ∀ impact ∈ impacts, ∀ w ∈ impact.writeWindows, w.Occupied) :
    ∃ box, transportWindow impacts = some box ∧ w.Within box := by
  have hall : ∀ w ∈ impacts.flatMap (·.writeWindows), w.Occupied := by
    intro w hw
    obtain ⟨impact, himpact, hw⟩ := List.mem_flatMap.mp hw
    exact hoccupied impact himpact w hw
  have hmem : w ∈ impacts.flatMap (·.writeWindows) := List.mem_flatMap.mpr ⟨impact, himpact, hw⟩
  have hfold : ∀ (windows : List RasterWindow) (box : RasterWindow),
      (∀ w ∈ windows, w.Occupied) → (box.Occupied → box.Within (windows.foldl union box)) ∧
        ∀ w ∈ windows, w.Within (windows.foldl union box) := by
    intro windows
    induction windows with
    | nil => exact fun box _ => ⟨fun _ => Within.refl box, by simp⟩
    | cons first rest ih =>
      intro box hoccupied
      obtain ⟨hfirst, hrest⟩ := List.forall_mem_cons.mp hoccupied
      have hinside : first.Within (box.union first) := within_union_right hfirst
      obtain ⟨hgrows, hwithin⟩ := ih (box.union first) hrest
      have hgrown := hgrows (hfirst.mono hinside)
      exact ⟨fun hbox => (within_union_left hbox).trans hgrown,
        List.forall_mem_cons.mpr ⟨hinside.trans hgrown, hwithin⟩⟩
  unfold transportWindow
  split
  · rename_i hnone
    simp [hnone] at hmem
  · rename_i hsome
    exact ⟨_, rfl, (hfold _ RasterWindow.empty hall).2 w hmem⟩

/-! ## The whole plan -/

theorem dirty_iff (hsources : planner.scientificSources changed ⊆ planner.graph.nodeIds) :
    nodeId ∈ planner.graph.downstream (planner.scientificSources changed) ↔
      planner.Dirty changed nodeId :=
  EditGraph.mem_downstream hsources

theorem stage_iff {data : WalkData}
    (hsources : planner.scientificSources changed ⊆ planner.graph.nodeIds)
    (hdirty : data.dirty = planner.graph.downstream (planner.scientificSources changed))
    (hkeep : planner.neededOutputs (sortedSet (edits.flatMap (·.command.requestedOutputs))) =
      .ok data.keepOutputs) :
    planner.isStage data nodeId = true ↔ planner.Stage edits changed nodeId := by
  rw [isStage_iff, hdirty, dirty_iff hsources]
  unfold Stage
  refine and_congr_right fun _ => and_congr_right fun _ => ?_
  exact forall_congr' fun houtput => neededOutputs_spec hkeep houtput

/-- A changed source that has no dirty parent. -/
def Rooted (planner : EditPlanner V) (changed : List (SourceDelta V)) (nodeId : String) : Prop :=
  nodeId ∈ planner.scientificSources changed →
    ∀ parent, (parent, nodeId) ∈ planner.graph.edges → ¬ planner.Dirty changed parent

/-- A changed source has the scope of its own deltas, or all of the grid. -/
def KeepsOwn (planner : EditPlanner V) (changed : List (SourceDelta V)) (impact : NodeImpact) :
    Prop :=
  impact.nodeId ∈ planner.scientificSources changed → ∃ scope reasons,
    planner.resolveSourceScope impact.nodeId (deltasOf changed impact.nodeId) =
      .ok (scope, reasons) ∧ (scopeOf impact = scope ∨ impact.spatialScope = .full)

/-- A changed source behind a dirty parent has all of the grid by its own deltas. -/
def Settled (planner : EditPlanner V) (changed : List (SourceDelta V)) : Prop :=
  ∀ nodeId ∈ planner.scientificSources changed,
    (∃ parent, (parent, nodeId) ∈ planner.graph.edges ∧ planner.Dirty changed parent) →
      ∀ scope reasons, planner.resolveSourceScope nodeId (deltasOf changed nodeId) =
        .ok (scope, reasons) → scope.spatialScope = .full

theorem Settled.rooted_or_full (h : planner.Settled changed) {impact : NodeImpact}
    (hkeeps : planner.KeepsOwn changed impact) :
    planner.Rooted changed impact.nodeId ∨ impact.spatialScope = .full := by
  by_cases hrooted : planner.Rooted changed impact.nodeId
  · exact Or.inl hrooted
  · unfold Rooted at hrooted
    push Not at hrooted
    obtain ⟨hsource, parent, hedge, hdirty⟩ := hrooted
    obtain ⟨scope, reasons, hscope, hown⟩ := hkeeps hsource
    have hfull := h impact.nodeId hsource ⟨parent, hedge, hdirty⟩ scope reasons hscope
    exact Or.inr (hown.elim (fun heq => (congrArg NodeScope.spatialScope heq).trans hfull) id)

section Whole

variable {data : WalkData} {start : Resolved} {walk : Walk} {result : ImpactPlan}

theorem hasScope_iff (hstart : ∀ id scope, start id = some scope ↔
      id ∈ planner.scientificSources changed ∧ ∃ reasons,
        planner.resolveSourceScope id (deltasOf changed id) = .ok (scope, reasons))
    (hwalked : planner.Walked data start planner.graph.topologicalOrder walk)
    (himpacts : result.nodeImpacts = walk.impacts) {scope : NodeScope} :
    planner.HasScope changed result nodeId scope ↔ walk.resolved nodeId = some scope := by
  unfold HasScope
  rw [himpacts]
  by_cases hlisted : nodeId ∈ walk.impacts.map (·.nodeId)
  · obtain ⟨impact, himpact, rfl⟩ := List.mem_map.mp hlisted
    rw [hwalked.known impact himpact, Option.some.injEq]
    constructor
    · rintro (⟨other, hother, hid, rfl⟩ | ⟨hunlisted, -⟩)
      · have hknown := hwalked.known other hother
        rw [hid, hwalked.known impact himpact] at hknown
        exact Option.some.inj hknown
      · exact absurd hlisted hunlisted
    · exact fun hscope => Or.inl ⟨impact, himpact, rfl, hscope⟩
  · rw [hwalked.others nodeId hlisted, hstart]
    constructor
    · rintro (⟨impact, himpact, rfl, -⟩ | ⟨-, hsource⟩)
      · exact absurd (List.mem_map_of_mem himpact) hlisted
      · exact hsource
    · exact fun hsource => Or.inr ⟨hlisted, hsource⟩

theorem inherits_of_walked (hsources : planner.scientificSources changed ⊆ planner.graph.nodeIds)
    (hdirty : data.dirty = planner.graph.downstream (planner.scientificSources changed))
    (hstart : ∀ id scope, start id = some scope ↔
      id ∈ planner.scientificSources changed ∧ ∃ reasons,
        planner.resolveSourceScope id (deltasOf changed id) = .ok (scope, reasons))
    (hwalked : planner.Walked data start planner.graph.topologicalOrder walk)
    (himpacts : result.nodeImpacts = walk.impacts) {impact : NodeImpact}
    (himpact : impact ∈ result.nodeImpacts) (hrooted : planner.Rooted changed impact.nodeId) :
    planner.Inherits changed result impact := by
  have hscopes : ∀ id scope, planner.HasScope changed result id scope ↔
      walk.resolved id = some scope := fun _ _ => hasScope_iff hstart hwalked himpacts
  have hparent : ∀ parent, (parent, impact.nodeId) ∈ planner.graph.edges →
      planner.Dirty changed parent → ∃ scope, walk.resolved parent = some scope ∧
        (scopeOf impact).Includes scope := by
    intro parent hedge hparent
    have hnone : start impact.nodeId = none := by
      by_contra hsome
      obtain ⟨scope, hscope⟩ := Option.ne_none_iff_exists'.mp hsome
      exact hrooted ((hstart _ _).mp hscope).1 parent hedge hparent
    refine hwalked.inherits impact (himpacts ▸ himpact) hnone parent ?_
    rw [mem_dirtyParents, hdirty, dirty_iff hsources]
    exact ⟨hedge, hparent⟩
  refine ⟨?_, ?_, ?_⟩
  · intro parent hedge hdirtyParent
    obtain ⟨scope, hscope, -⟩ := hparent parent hedge hdirtyParent
    exact ⟨scope, (hscopes parent scope).mpr hscope⟩
  · intro parent hedge hdirtyParent scope hscope hfull
    obtain ⟨scope', hscope', hincludes⟩ := hparent parent hedge hdirtyParent
    rw [(hscopes parent scope).mp hscope, Option.some.injEq] at hscope'
    exact hincludes.1 (hscope' ▸ hfull)
  · intro hwindows parent hedge hdirtyParent scope hscope cell hcell
    obtain ⟨scope', hscope', hincludes⟩ := hparent parent hedge hdirtyParent
    rw [(hscopes parent scope).mp hscope, Option.some.injEq] at hscope'
    obtain ⟨w, hw, hholds⟩ := hcell
    have hoccupied : w.Occupied := by
      unfold Holds at hholds
      unfold Occupied
      omega
    obtain ⟨m, hm, hwithin⟩ := hincludes.2 hwindows w (hscope' ▸ hw) hoccupied
    exact ⟨m, hm, hwithin.holds hholds⟩

theorem walked_start (hstart : ∀ id scope, start id = some scope ↔
      id ∈ planner.scientificSources changed ∧ ∃ reasons,
        planner.resolveSourceScope id (deltasOf changed id) = .ok (scope, reasons))
    (himpacts : walk.impacts = []) (hresolved : walk.resolved = start) :
    planner.Walked data start [] walk where
  listed := by simp [himpacts]
  sound := by
    intro id scope hscope
    rw [hresolved, hstart] at hscope
    obtain ⟨-, reasons, hsource⟩ := hscope
    exact resolveSourceScope_sound hsource
  others := fun _ _ => congrFun hresolved _
  known := by simp [himpacts]
  own := by simp [himpacts]
  inherits := by simp [himpacts]

theorem walk_walked {walk' : Walk} (h : planner.Walked data start [] walk)
    (hwalk : planner.graph.topologicalOrder.foldlM (planner.walkNode data) walk = .ok walk') :
    planner.Walked data start planner.graph.topologicalOrder walk' := by
  obtain ⟨hnodup, -, hfirst⟩ := planner.graph.topologicalOrder_spec
  refine foldlM_invariant (I := planner.Walked data start) ?_ h hwalk
  exact fun done id rest w w' hsplit hw hstep => hw.step hnodup hfirst hsplit hstep

theorem spatialPlan_of_walked
    (hsources : planner.scientificSources changed ⊆ planner.graph.nodeIds)
    (hdirty : data.dirty = planner.graph.downstream (planner.scientificSources changed))
    (hkeep : planner.neededOutputs (sortedSet (edits.flatMap (·.command.requestedOutputs))) =
      .ok data.keepOutputs)
    (hwalked : planner.Walked data start planner.graph.topologicalOrder walk)
    (himpacts : result.nodeImpacts = walk.impacts)
    (hreusable : result.reusableNodes = sortedSet (planner.graph.nodeIds.filter fun id =>
      id ∉ data.dirty ∧ id ∉ (changedNodes changed).filter fun id =>
        planner.graph.kind? id = some .view))
    (htransport : result.transportWindow = transportWindow walk.impacts) :
    planner.SpatialPlan edits changed result := by
  obtain ⟨hnodup, -, hfirst⟩ := planner.graph.topologicalOrder_spec
  have hsound : ∀ impact ∈ walk.impacts, (scopeOf impact).Sound planner.grid :=
    fun impact himpact => hwalked.sound _ _ (hwalked.known impact himpact)
  have hstages : ∀ id, id ∈ walk.impacts.map (·.nodeId) ↔ planner.Stage edits changed id := by
    intro id
    rw [hwalked.listed, List.mem_filter, EditGraph.mem_topologicalOrder,
      stage_iff hsources hdirty hkeep]
    exact ⟨And.right, fun hstage => ⟨mem_of_isExecutable hstage.2.1, hstage⟩⟩
  refine ⟨?_, ?_, ?_, ?_, ?_, ?_⟩
  · rw [himpacts]
    exact hstages
  · rw [himpacts, hwalked.listed]
    exact hnodup.filter _
  · intro before impact after hsplit parent hedge hlisted
    rw [himpacts] at hsplit hlisted
    -- the list of stages is cut where the order is
    have hcut : planner.graph.topologicalOrder.filter (planner.isStage data) =
        before.map (·.nodeId) ++ impact.nodeId :: after.map (·.nodeId) := by
      rw [← hwalked.listed, hsplit, List.map_append, List.map_cons]
    obtain ⟨left, right, horder, hleft, hright⟩ := List.filter_eq_append_iff.mp hcut
    obtain ⟨skipped, rest, rfl, hskipped, -, -⟩ := List.filter_eq_cons_iff.mp hright
    have hparent := hfirst (left ++ skipped) impact.nodeId rest (by simpa using horder) parent hedge
    rw [hwalked.listed] at hlisted
    rw [List.nil_append, List.mem_append] at hparent
    rcases hparent with hin | hin
    · rw [← hleft]
      exact List.mem_filter.mpr ⟨hin, (List.mem_filter.mp hlisted).2⟩
    · exact absurd (List.mem_filter.mp hlisted).2 (by simpa using hskipped parent hin)
  · intro impact himpact hwindows
    have h := hsound impact (himpacts ▸ himpact)
    refine ⟨?_, h.apart, fun w hw => ⟨h.occupied w hw, h.inside w hw⟩⟩
    rcases h.kind with ⟨hfull, -⟩ | ⟨-, hne⟩
    · exact absurd (hwindows.symm.trans hfull) nofun
    · exact hne
  · intro id
    rw [hreusable, mem_sortedSet, List.mem_filter, decide_eq_true_eq, hdirty, dirty_iff hsources,
      List.mem_filter, decide_eq_true_eq]
  · intro impact himpact w hw
    rw [htransport]
    exact transportWindow_holds (himpacts ▸ himpact) hw fun other hother => (hsound other hother).occupied

end Whole

section Plan

variable {state : PlannedState} {context : Option SiteContext} {result : ImpactPlan}

theorem planSources_spatial (hsources : planner.scientificSources changed ⊆ planner.graph.nodeIds)
    (hwide : ¬ planner.Narrows edits changed)
    (h : planner.planSources edits state context changed (planner.scientificSources changed) =
      .ok result) :
    planner.SpatialPlan edits changed result ∧
      (∀ impact ∈ result.nodeImpacts, planner.Rooted changed impact.nodeId →
        planner.Inherits changed result impact) ∧
      ∀ impact ∈ result.nodeImpacts, planner.KeepsOwn changed impact := by
  unfold planSources at h
  simp only [except_bind_ok] at h
  obtain ⟨walk, hsource, _, -, keep, hkeep, fast, hfast, h⟩ := h
  obtain ⟨himpacts, hstart, hall⟩ := sourceWalk_spec hsource
  cases fast with
  | plan narrow => exact absurd (metUtciFastPlan_narrows hkeep hfast) hwide
  | none reasons =>
    simp only [except_bind_ok] at h
    obtain ⟨walk', hwalk, _, -, hpure⟩ := h
    obtain rfl := Except.ok.inj hpure
    have hwalked := walk_walked (by exact walked_start hstart himpacts rfl) hwalk
    refine ⟨spatialPlan_of_walked hsources rfl hkeep hwalked rfl rfl rfl, ?_, ?_⟩
    · intro impact himpact hrooted
      exact inherits_of_walked hsources rfl hstart hwalked rfl himpact hrooted
    · intro impact himpact hmem
      obtain ⟨scope, hresolved⟩ := hall impact.nodeId hmem
      obtain ⟨-, reasons, hscope⟩ := (hstart _ _).mp hresolved
      refine ⟨scope, reasons, hscope, ?_⟩
      rcases hwalked.own impact himpact scope hresolved with hown | hfull
      · exact Or.inl hown
      · exact Or.inr (congrArg NodeScope.spatialScope hfull)

theorem spatialPlan_of_none (hnone : planner.scientificSources changed = [])
    (himpacts : result.nodeImpacts = [])
    (hreusable : result.reusableNodes = sortedSet (planner.graph.nodeIds.filter fun id =>
      id ∉ changedNodes changed)) : planner.SpatialPlan edits changed result := by
  have hclean : ∀ id, ¬ planner.Dirty changed id := by
    rintro id ⟨source, hsource, -⟩
    simp [hnone] at hsource
  have hviews : ∀ id ∈ changedNodes changed, planner.graph.kind? id = some .view := by
    intro id hid
    by_contra hkind
    have hsource : id ∈ planner.scientificSources changed :=
      List.mem_filter.mpr ⟨hid, decide_eq_true hkind⟩
    simp [hnone] at hsource
  refine ⟨fun id => ?_, ?_, ?_, ?_, fun id => ?_, ?_⟩
  · simpa [himpacts] using fun hstage : planner.Stage edits changed id => hclean id hstage.1
  · simp [himpacts]
  · simp [himpacts]
  · simp [himpacts]
  · rw [hreusable, mem_sortedSet, List.mem_filter, decide_eq_true_eq]
    refine and_congr_right fun _ => ⟨fun hid => ⟨hclean id, fun hview => hid hview.1⟩, ?_⟩
    exact fun hid hmem => hid.2 ⟨hmem, hviews id hmem⟩
  · simp [himpacts]

theorem checkRegistryFacts_owned (h : planner.checkRegistryFacts edits = .ok ())
    {edit : ValidatedEdit V} (hedit : edit ∈ edits) : ∃ metadata,
      planner.registry.getMetadata edit.adapterId = .ok metadata ∧
      edit.sourceNodeId ∈ metadata.sourceNodes := by
  unfold checkRegistryFacts at h
  have hchecks := forM_ok.mp h edit hedit
  simp only [except_bind_ok, refuseIf_ok, not_not, except_mapError_ok] at hchecks
  obtain ⟨metadata, hmetadata, _, -, _, -, _, -, _, howned, -⟩ := hchecks
  exact ⟨metadata, hmetadata, howned⟩

variable [DecidableEq V]

theorem builtin_roots : ∀ metadata ∈ builtinMetadata, ∀ source ∈ metadata.sourceNodes,
    ∀ edge ∈ graphEdges, edge.2 ≠ source := by
  decide

theorem rooted_of_builtin (hgraph : planner.graph = defaultEditGraph)
    (hbuiltin : ∀ id metadata, planner.registry.getMetadata id = .ok metadata →
      metadata ∈ builtinMetadata)
    (hchanged : changedDeltas edits = .ok changed)
    (hfacts : planner.checkRegistryFacts edits = .ok ()) (nodeId : String) :
    planner.Rooted changed nodeId := by
  intro hsource parent hedge _
  obtain ⟨⟨delta, hdelta, rfl⟩, -⟩ := mem_scientificSources.mp hsource
  obtain ⟨edit, hedit, hid⟩ := changedDeltas_source hchanged hdelta
  obtain ⟨metadata, hmetadata, howned⟩ := checkRegistryFacts_owned hfacts hedit
  rw [hgraph] at hedge
  exact builtin_roots metadata (hbuiltin _ _ hmetadata) _ (hid ▸ howned) _ hedge rfl

/-- Every accepted batch that is not narrowed: the plan of its stages, what a stage takes over from
its dirty parents, and what a changed source keeps. Where no changed source keeps windows behind a
dirty parent, each stage takes over or is full. With the built-in adapters on the canonical graph no
changed source has a parent. -/
theorem spatial_soundness (hplan : planner.plan edits state context = .ok result)
    (hchanged : changedDeltas edits = .ok changed) (hwide : ¬ planner.Narrows edits changed) :
    planner.SpatialPlan edits changed result ∧
      (∀ impact ∈ result.nodeImpacts, planner.Rooted changed impact.nodeId →
        planner.Inherits changed result impact) ∧
      (∀ impact ∈ result.nodeImpacts, planner.KeepsOwn changed impact) ∧
      (planner.Settled changed → ∀ impact ∈ result.nodeImpacts,
        planner.Inherits changed result impact ∨ impact.spatialScope = .full) ∧
      (planner.graph = defaultEditGraph →
        (∀ id metadata, planner.registry.getMetadata id = .ok metadata →
          metadata ∈ builtinMetadata) →
        ∀ impact ∈ result.nodeImpacts, planner.Inherits changed result impact) := by
  unfold plan at hplan
  simp only [except_bind_ok] at hplan
  obtain ⟨_, -, _, -, _, -, _, hfacts, _, -, changed', hchanged', h⟩ := hplan
  obtain rfl := Except.ok.inj (hchanged.symm.trans hchanged')
  split at h
  · rename_i hnone
    obtain rfl := Except.ok.inj h
    refine ⟨?_, by simp, by simp, by simp, by simp⟩
    exact spatialPlan_of_none (List.isEmpty_iff.mp hnone) rfl rfl
  · have hsources : planner.scientificSources changed ⊆ planner.graph.nodeIds := by
      intro source hsource
      obtain ⟨⟨delta, hdelta, rfl⟩, -⟩ := mem_scientificSources.mp hsource
      obtain ⟨edit, hedit, hid⟩ := changedDeltas_source hchanged hdelta
      exact hid ▸ checkRegistryFacts_ok hfacts hedit
    obtain ⟨hspatial, hinherits, hown⟩ := planSources_spatial hsources hwide h
    refine ⟨hspatial, hinherits, hown, fun hsettled impact himpact => ?_,
      fun hgraph hbuiltin impact himpact => ?_⟩
    · exact (hsettled.rooted_or_full (hown impact himpact)).imp (hinherits impact himpact) id
    exact hinherits impact himpact (rooted_of_builtin hgraph hbuiltin hchanged hfacts _)

end Plan

/-! ### A changed source below another one -/

/-- The built-in adapters, and one that patches a stage. -/
def patchedPlanner : EditPlanner Nat :=
  { smallPlanner with
    registry := Registry.ofMetadata
      (builtinMetadata ++ [{
        id := "svf_patch"
        status := .adapterRequired
        sourceNodes := ["svf"]
        operations := ["update"]
        nominalSpatialScope := "windows" }])
      (fun _ _ => .ok ()) (fun _ _ => .ok ()) }

def patchedSvf : ValidatedEdit Nat where
  command := {
    editId := "e3", scenarioId := "s", baseSceneRevision := 0, operation := "update"
    oldState := some 1, newState := some 2, requestedOutputs := ["utci"], requestedTimes := none }
  adapterId := "svf_patch"
  sourceNodeId := "svf"
  delta := {
    sourceNodeId := "svf", adapterId := "svf_patch"
    content := .vegetationObject [⟨"p1", some 1, some 2, by decide⟩]
      [⟨0, 1, 0, 1, Int.one_nonneg, Int.one_nonneg⟩] }
  sourceMatches := rfl
  adapterMatches := rfl

/-- The plan gives the node the scope. -/
def plansScope (nodeId : String) (scope : SpatialScope) (result : ImpactPlan) : Bool :=
  result.nodeImpacts.any fun impact => impact.nodeId = nodeId ∧ impact.spatialScope = scope

/-- The building edit makes the visibility full, and the patched stage behind it stays local. -/
theorem patchedSvf_local : ¬ ∀ (planner : EditPlanner Nat) (edits : List (ValidatedEdit Nat))
    (state : PlannedState) (context : Option SiteContext) (result : ImpactPlan)
    (changed : List (SourceDelta Nat)), planner.plan edits state context = .ok result →
      changedDeltas edits = .ok changed → ¬ planner.Narrows edits changed →
      planner.SpatialPlan edits changed result ∧
        ∀ impact ∈ result.nodeImpacts, planner.Inherits changed result impact := by
  intro h
  have hplanned : ((patchedPlanner.plan [raisedBuilding none, patchedSvf] ⟨true, 0⟩
      none).toOption.any fun result => plansScope "svf" .windows result ∧
        plansScope "building_visibility" .full result) = true := by decide +kernel
  have hdeltas : ((changedDeltas [raisedBuilding none, patchedSvf]).toOption.any fun changed =>
      patchedPlanner.scientificSources changed = ["building_dsm", "svf"]) = true := by
    decide
  obtain ⟨result, hresult, hscopes⟩ := (Option.any_eq_true _ _).mp hplanned
  obtain ⟨changed, hchanged, hsources⟩ := (Option.any_eq_true _ _).mp hdeltas
  have hsources := of_decide_eq_true hsources
  obtain ⟨hlocal, hfull⟩ := of_decide_eq_true hscopes
  obtain ⟨svf, hsvf, hsvfScope⟩ := List.any_eq_true.mp hlocal
  obtain ⟨visibility, hvisibility, hvisibilityScope⟩ := List.any_eq_true.mp hfull
  obtain ⟨hsvfId, hsvfWindows⟩ := of_decide_eq_true hsvfScope
  obtain ⟨hvisibilityId, hvisibilityFull⟩ := of_decide_eq_true hvisibilityScope
  have hwide : ¬ patchedPlanner.Narrows [raisedBuilding none, patchedSvf] changed := by
    rintro ⟨hnarrow, -⟩
    rw [hsources] at hnarrow
    exact absurd hnarrow (by decide)
  have hinherits := (h _ _ _ _ _ _ (except_toOption_some.mp hresult) (except_toOption_some.mp hchanged)
    hwide).2 svf hsvf
  have hedge : ("building_visibility", svf.nodeId) ∈ patchedPlanner.graph.edges := by
    rw [hsvfId]
    decide
  have hdirty : patchedPlanner.Dirty changed "building_visibility" := by
    refine ⟨"building_dsm", by simp [hsources], Relation.ReflTransGen.single ?_⟩
    decide
  have hsvfFull := hinherits.full "building_visibility" hedge hdirty (scopeOf visibility)
    (Or.inl ⟨visibility, hvisibility, hvisibilityId, rfl⟩) hvisibilityFull
  rw [hsvfWindows] at hsvfFull
  cases hsvfFull

/-! ### A tree -/

def movedTree : ValidatedEdit Nat where
  command := {
    editId := "e4", scenarioId := "s", baseSceneRevision := 0, operation := "move"
    oldState := some 1, newState := some 2, requestedOutputs := ["utci"], requestedTimes := none }
  adapterId := "vegetation_geometry"
  sourceNodeId := "vegetation_dsm"
  delta := {
    sourceNodeId := "vegetation_dsm", adapterId := "vegetation_geometry"
    content := .vegetationObject [⟨"t1", some 1, some 2, by decide⟩]
      [⟨0, 1, 0, 1, Int.one_nonneg, Int.one_nonneg⟩, ⟨2, 3, 2, 3, by decide, by decide⟩] }
  sourceMatches := rfl
  adapterMatches := rfl

theorem spatial_soundness_tree : ∃ result changed,
    smallPlanner.plan [movedTree] ⟨true, 0⟩ none = .ok result ∧
      changedDeltas [movedTree] = .ok changed ∧ plansScope "utci" .windows result = true ∧
      smallPlanner.SpatialPlan [movedTree] changed result ∧
      (∀ impact ∈ result.nodeImpacts, smallPlanner.Rooted changed impact.nodeId →
        smallPlanner.Inherits changed result impact) ∧
      (∀ impact ∈ result.nodeImpacts, smallPlanner.KeepsOwn changed impact) ∧
      (smallPlanner.Settled changed → ∀ impact ∈ result.nodeImpacts,
        smallPlanner.Inherits changed result impact ∨ impact.spatialScope = .full) ∧
      (smallPlanner.graph = defaultEditGraph →
        (∀ id metadata, smallPlanner.registry.getMetadata id = .ok metadata →
          metadata ∈ builtinMetadata) →
        ∀ impact ∈ result.nodeImpacts, smallPlanner.Inherits changed result impact) := by
  have hplanned : ((smallPlanner.plan [movedTree] ⟨true, 0⟩ none).toOption.any
      (plansScope "utci" .windows)) = true := by decide +kernel
  have hdeltas : ((changedDeltas [movedTree]).toOption.any fun changed =>
      smallPlanner.scientificSources changed = ["vegetation_dsm"]) = true := by decide
  obtain ⟨result, hresult, hscope⟩ := (Option.any_eq_true _ _).mp hplanned
  obtain ⟨changed, hchanged, hsources⟩ := (Option.any_eq_true _ _).mp hdeltas
  have hsources := of_decide_eq_true hsources
  have hwide : ¬ smallPlanner.Narrows [movedTree] changed := by
    rintro ⟨hnarrow, -⟩
    rw [hsources] at hnarrow
    exact absurd hnarrow (by decide)
  have hplan := except_toOption_some.mp hresult
  have hdeltas' := except_toOption_some.mp hchanged
  exact ⟨result, changed, hplan, hdeltas', hscope, spatial_soundness hplan hdeltas' hwide⟩

end Solweig.Planner.EditPlanner
