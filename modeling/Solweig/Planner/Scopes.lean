import Solweig.Planner.Coverage
import Solweig.Planner.Merging
import Solweig.Planner.Order

/-!
# The scopes of the walk

The scope of a changed source, what a derived node takes over from its dirty parents, and what the
walk over the topological order has found so far.
-/

namespace Solweig.Planner.EditPlanner

open Solweig.Lib RasterWindow

/-! ## Scopes -/

/-- A scope that a stage can carry: full without windows, or windows of the grid that stay
apart. -/
structure NodeScope.Sound (grid : RasterGrid) (scope : NodeScope) : Prop where
  kind : scope.spatialScope = .full ∧ scope.windows = [] ∨
    scope.spatialScope = .windows ∧ scope.windows ≠ []
  occupied : ∀ w ∈ scope.windows, w.Occupied
  apart : scope.windows.Pairwise Apart
  inside : ∀ w ∈ scope.windows, w.Within grid.fullWindow

/-- What a scope takes over from another one. -/
def NodeScope.Includes (scope other : NodeScope) : Prop :=
  (other.spatialScope = .full → scope.spatialScope = .full) ∧
    (scope.spatialScope = .windows → ∀ w ∈ other.windows, w.Occupied →
      ∃ m ∈ scope.windows, w.Within m)

section Scopes

variable {grid : RasterGrid} {windows : List RasterWindow}

theorem NodeScope.sound_full (grid : RasterGrid) : NodeScope.Sound grid ⟨.full, []⟩ :=
  ⟨Or.inl ⟨rfl, rfl⟩, by simp, List.Pairwise.nil, by simp⟩

theorem NodeScope.sound_merge (hinside : ∀ w ∈ windows, w.Within grid.fullWindow)
    (hne : merge windows ≠ []) : NodeScope.Sound grid ⟨.windows, merge windows⟩ := by
  have hmerge := merge_merges windows
  refine ⟨Or.inr ⟨rfl, hne⟩, hmerge.occupied, hmerge.apart, ?_⟩
  exact hmerge.bounded grid.fullWindow fun w hw => hinside w (List.mem_filter.mp hw).1

theorem merge_ne_nil (h : ∃ w ∈ windows, w.isEmpty = false) : merge windows ≠ [] := by
  obtain ⟨w, hw, hoccupied⟩ := h
  obtain ⟨m, hm, -⟩ := (merge_merges windows).covers w (List.mem_filter.mpr ⟨hw, by simp [hoccupied]⟩)
  exact List.ne_nil_of_mem hm

end Scopes

variable {V : Type} {planner : EditPlanner V} {nodeId : String}

theorem resolveSourceScope_sound {deltas : List (SourceDelta V)} {scope : NodeScope}
    {reasons : List String}
    (h : planner.resolveSourceScope nodeId deltas = .ok (scope, reasons)) :
    scope.Sound planner.grid := by
  unfold resolveSourceScope at h
  rw [except_bind_ok] at h
  obtain ⟨metadatas, -, h⟩ := h
  dsimp only at h
  split at h
  · obtain ⟨rfl, -⟩ := Prod.mk.inj (Except.ok.inj h)
    exact NodeScope.sound_full _
  · split at h
    · obtain ⟨rfl, -⟩ := Prod.mk.inj (Except.ok.inj h)
      exact NodeScope.sound_full _
    · split at h
      · obtain ⟨rfl, -⟩ := Prod.mk.inj (Except.ok.inj h)
        exact NodeScope.sound_full _
      · rename_i hsome
        obtain ⟨rfl, -⟩ := Prod.mk.inj (Except.ok.inj h)
        rw [Bool.not_eq_true, List.all_eq_false] at hsome
        obtain ⟨w, hw, hoccupied⟩ := hsome
        refine NodeScope.sound_merge ?_ (merge_ne_nil ⟨w, hw, by simpa using hoccupied⟩)
        intro w hw
        obtain ⟨window, -, rfl⟩ := List.mem_map.mp hw
        exact clamp_within window planner.grid

/-! ## Derived scopes -/

variable {dirty : List String} {resolved : Resolved}

theorem mem_parents {parent : String} :
    parent ∈ planner.graph.parents nodeId ↔ (parent, nodeId) ∈ planner.graph.edges := by
  unfold EditGraph.parents parentsOf
  simp [List.mem_insertionSort]

theorem mem_dirtyParents {parent : String} :
    parent ∈ planner.dirtyParents dirty nodeId ↔
      (parent, nodeId) ∈ planner.graph.edges ∧ parent ∈ dirty := by
  unfold dirtyParents
  rw [List.mem_filter, mem_parents, decide_eq_true_eq]

theorem parentScopes_ok {scopes : List (String × NodeScope)}
    (h : planner.parentScopes dirty resolved nodeId = .ok scopes) :
    (∀ entry ∈ scopes, entry.1 ∈ planner.dirtyParents dirty nodeId ∧
      resolved entry.1 = some entry.2) ∧
    ∀ parent ∈ planner.dirtyParents dirty nodeId, ∃ scope, resolved parent = some scope ∧
      (parent, scope) ∈ scopes := by
  unfold parentScopes at h
  constructor
  · intro entry hentry
    obtain ⟨parent, hparent, hlook⟩ := mem_of_mapM_ok h hentry
    split at hlook
    · cases hlook
    · rename_i scope hscope
      obtain rfl := Except.ok.inj hlook
      exact ⟨hparent, hscope⟩
  · intro parent hparent
    obtain ⟨entry, hentry, hlook⟩ := mapM_ok_mem h hparent
    split at hlook
    · cases hlook
    · rename_i scope hscope
      obtain rfl := Except.ok.inj hlook
      exact ⟨scope, hscope, hentry⟩

theorem resolveDerivedScope_spec {scope : NodeScope}
    (hresolved : ∀ parent s, resolved parent = some s → s.Sound planner.grid)
    (h : planner.resolveDerivedScope dirty resolved nodeId = .ok scope) :
    scope.Sound planner.grid ∧
      ∀ parent ∈ planner.dirtyParents dirty nodeId, ∃ s, resolved parent = some s ∧
        scope.Includes s := by
  unfold resolveDerivedScope at h
  rw [except_bind_ok] at h
  obtain ⟨scopes, hscopes, h⟩ := h
  obtain ⟨hentries, hparents⟩ := parentScopes_ok hscopes
  have hfull : NodeScope.Sound planner.grid ⟨.full, []⟩ ∧
      ∀ parent ∈ planner.dirtyParents dirty nodeId, ∃ s, resolved parent = some s ∧
        NodeScope.Includes ⟨.full, []⟩ s := by
    refine ⟨NodeScope.sound_full _, fun parent hparent => ?_⟩
    obtain ⟨s, hs, -⟩ := hparents parent hparent
    exact ⟨s, hs, fun _ => rfl, nofun⟩
  split at h
  · obtain rfl := Except.ok.inj h
    exact hfull
  · rename_i hnofull
    dsimp only at h
    split at h
    · obtain rfl := Except.ok.inj h
      exact hfull
    · rename_i hsome
      obtain rfl := Except.ok.inj h
      constructor
      · refine NodeScope.sound_merge (fun w hw => ?_) (by simpa using hsome)
        obtain ⟨entry, hentry, hw⟩ := List.mem_flatMap.mp hw
        exact (hresolved _ _ (hentries entry hentry).2).inside w hw
      · intro parent hparent
        obtain ⟨s, hs, hentry⟩ := hparents parent hparent
        refine ⟨s, hs, fun hparentFull => ?_, fun _ w hw hoccupied => ?_⟩
        · exact absurd (List.any_eq_true.mpr ⟨_, hentry, by simpa using hparentFull⟩) hnofull
        · apply (merge_merges _).covers w
          refine List.mem_filter.mpr ⟨List.mem_flatMap.mpr ⟨_, hentry, hw⟩, ?_⟩
          simp [occupied_iff.mp hoccupied]

/-! ## Impacts -/

theorem buildImpact_scope {nodeScope : NodeScope} {driven : Bool}
    {requestedTimes explicitTimes : List Nat} {impact : NodeImpact} {reasons : List String}
    (h : planner.buildImpact nodeId nodeScope dirty resolved driven requestedTimes explicitTimes =
      .ok (impact, reasons)) :
    impact.nodeId = nodeId ∧
      ((⟨impact.spatialScope, impact.writeWindows⟩ : NodeScope) = nodeScope ∨
        (⟨impact.spatialScope, impact.writeWindows⟩ : NodeScope) = ⟨.full, []⟩) := by
  unfold buildImpact at h
  simp only [except_bind_ok] at h
  obtain ⟨decision, hdecision, built, hmake, hpure⟩ := h
  obtain ⟨rfl, -⟩ := Prod.mk.inj (Except.ok.inj hpure)
  have hfields := NodeImpact_make_ok hmake
  rw [hfields]
  refine ⟨rfl, ?_⟩
  show decision.scope = nodeScope ∨ decision.scope = ⟨.full, []⟩
  unfold decideSpatial at hdecision
  split at hdecision
  · dsimp only at hdecision
    split at hdecision <;> obtain rfl := Except.ok.inj hdecision
    · exact Or.inr rfl
    · exact Or.inl rfl
  · rw [except_bind_ok] at hdecision
    obtain ⟨scopes, -, hpure⟩ := hdecision
    obtain rfl := Except.ok.inj hpure
    exact Or.inl rfl

/-! ## The walk -/

/-- The scope of a stage, as the walk keeps it. -/
def scopeOf (impact : NodeImpact) : NodeScope := ⟨impact.spatialScope, impact.writeWindows⟩

/-- The nodes that get an impact. -/
def isStage (planner : EditPlanner V) (data : WalkData) (nodeId : String) : Bool :=
  nodeId ∈ data.dirty ∧ planner.graph.isExecutable nodeId ∧
    (planner.graph.kind? nodeId = some .output → nodeId ∈ data.keepOutputs)

theorem isStage_iff {data : WalkData} : planner.isStage data nodeId = true ↔
    nodeId ∈ data.dirty ∧ planner.graph.isExecutable nodeId ∧
      (planner.graph.kind? nodeId = some .output → nodeId ∈ data.keepOutputs) :=
  decide_eq_true_iff

theorem walkNode_cases {data : WalkData} {walk walk' : Walk}
    (h : planner.walkNode data walk nodeId = .ok walk') :
    (planner.isStage data nodeId = false ∧ walk'.impacts = walk.impacts ∧
      walk'.resolved = walk.resolved) ∨
    (planner.isStage data nodeId = true ∧ ∃ nodeScope impact,
      planner.nodeScopeOf data.dirty walk.resolved nodeId = .ok nodeScope ∧
      impact.nodeId = nodeId ∧ (scopeOf impact = nodeScope ∨ scopeOf impact = ⟨.full, []⟩) ∧
      walk'.impacts = walk.impacts ++ [impact] ∧
      walk'.resolved = Function.update walk.resolved nodeId (some (scopeOf impact))) := by
  rw [← Bool.not_eq_true, isStage_iff]
  unfold walkNode at h
  split at h
  · rename_i hclean
    obtain rfl := Except.ok.inj h
    exact Or.inl ⟨fun hstage => hclean hstage.1, rfl, rfl⟩
  · rename_i hdirty
    split at h
    · rename_i hskipped
      obtain rfl := Except.ok.inj h
      exact Or.inl ⟨fun hstage => hskipped.2 (hstage.2.2 hskipped.1), rfl, rfl⟩
    · rename_i hkept
      rw [except_bind_ok] at h
      obtain ⟨nodeScope, hscope, h⟩ := h
      split at h
      · rename_i hsource
        obtain rfl := Except.ok.inj h
        exact Or.inl ⟨fun hstage => hsource hstage.2.1, rfl, rfl⟩
      · rename_i hexecutable
        rw [except_bind_ok] at h
        obtain ⟨⟨impact, reasons⟩, hbuild, hpure⟩ := h
        obtain rfl := Except.ok.inj hpure
        obtain ⟨hid, hcases⟩ := buildImpact_scope hbuild
        refine Or.inr ⟨⟨not_not.mp hdirty, not_not.mp hexecutable, ?_⟩, nodeScope, impact, hscope,
          hid, hcases, rfl, rfl⟩
        intro houtput
        by_contra hnot
        exact hkept ⟨houtput, hnot⟩

/-- What the walk has found when it is through with `done`. `start` has the changed sources. -/
structure Walked (planner : EditPlanner V) (data : WalkData) (start : Resolved)
    (done : List String) (walk : Walk) : Prop where
  listed : walk.impacts.map (·.nodeId) = done.filter (planner.isStage data)
  sound : ∀ id scope, walk.resolved id = some scope → scope.Sound planner.grid
  others : ∀ id, id ∉ walk.impacts.map (·.nodeId) → walk.resolved id = start id
  known : ∀ impact ∈ walk.impacts, walk.resolved impact.nodeId = some (scopeOf impact)
  own : ∀ impact ∈ walk.impacts, ∀ scope, start impact.nodeId = some scope →
    scopeOf impact = scope ∨ scopeOf impact = ⟨.full, []⟩
  inherits : ∀ impact ∈ walk.impacts, start impact.nodeId = none →
    ∀ parent ∈ planner.dirtyParents data.dirty impact.nodeId, ∃ scope,
      walk.resolved parent = some scope ∧ (scopeOf impact).Includes scope

theorem parents_done {order done rest : List String}
    (hfirst : ParentsFirst planner.graph.edges [] order) (hsplit : order = done ++ rest) {id : String}
    (hid : id ∈ done) {parent : String} (hedge : (parent, id) ∈ planner.graph.edges) :
    parent ∈ done := by
  obtain ⟨before, after, rfl⟩ := List.append_of_mem hid
  have hparent := hfirst before id (after ++ rest) (by simpa using hsplit) parent hedge
  exact List.mem_append_left _ (by simpa using hparent)

theorem NodeScope.includes_full (scope : NodeScope) : NodeScope.Includes ⟨.full, []⟩ scope :=
  ⟨fun _ => rfl, nofun⟩

theorem Walked.step {data : WalkData} {start : Resolved} {order done rest : List String}
    {walk walk' : Walk} (hnodup : order.Nodup)
    (hfirst : ParentsFirst planner.graph.edges [] order) (hsplit : order = done ++ nodeId :: rest)
    (h : planner.Walked data start done walk)
    (hstep : planner.walkNode data walk nodeId = .ok walk') :
    planner.Walked data start (done ++ [nodeId]) walk' := by
  rcases walkNode_cases hstep with ⟨hskip, himpacts, hresolved⟩ |
    ⟨hstage, nodeScope, impact, hscope, rfl, hcases, himpacts, hresolved⟩
  · refine ⟨?_, ?_, ?_, ?_, ?_, ?_⟩
    · rw [himpacts, h.listed, List.filter_append]
      simp [hskip]
    · exact hresolved ▸ h.sound
    · exact hresolved ▸ himpacts ▸ h.others
    · exact hresolved ▸ himpacts ▸ h.known
    · exact himpacts ▸ h.own
    · exact hresolved ▸ himpacts ▸ h.inherits
  · have hnew : impact.nodeId ∉ done := by
      rw [hsplit] at hnodup
      exact fun hmem => (List.disjoint_of_nodup_append hnodup) hmem List.mem_cons_self
    have hdone : ∀ other ∈ walk.impacts, other.nodeId ∈ done := by
      intro other hother
      have hmem := List.mem_map_of_mem (f := fun i : NodeImpact => i.nodeId) hother
      rw [h.listed] at hmem
      exact (List.mem_filter.mp hmem).1
    have hunknown : impact.nodeId ∉ walk.impacts.map (·.nodeId) := by
      rw [h.listed]
      exact fun hmem => hnew (List.mem_filter.mp hmem).1
    have hbefore : walk.resolved impact.nodeId = start impact.nodeId := h.others _ hunknown
    have hkept : ∀ id ∈ done, walk'.resolved id = walk.resolved id := by
      intro id hid
      rw [hresolved, Function.update_of_ne]
      rintro rfl
      exact hnew hid
    have hself : walk'.resolved impact.nodeId = some (scopeOf impact) := by
      rw [hresolved, Function.update_self]
    have hparents : ∀ parent ∈ planner.dirtyParents data.dirty impact.nodeId, parent ∈ done := by
      intro parent hparent
      have hin := hfirst done impact.nodeId rest hsplit parent (mem_dirtyParents.mp hparent).1
      simpa using hin
    have hderived : start impact.nodeId = none → nodeScope.Sound planner.grid ∧
        ∀ parent ∈ planner.dirtyParents data.dirty impact.nodeId, ∃ scope,
          walk.resolved parent = some scope ∧ nodeScope.Includes scope := by
      intro hnone
      unfold nodeScopeOf at hscope
      rw [hbefore, hnone] at hscope
      exact resolveDerivedScope_spec h.sound hscope
    have hgiven : ∀ scope, start impact.nodeId = some scope → nodeScope = scope := by
      intro scope hsome
      unfold nodeScopeOf at hscope
      rw [hbefore, hsome] at hscope
      exact (Except.ok.inj hscope).symm
    have hsound : (scopeOf impact).Sound planner.grid := by
      rcases hcases with hsame | hfull
      · rw [hsame]
        cases hstart : start impact.nodeId with
        | none => exact (hderived hstart).1
        | some scope =>
          rw [hgiven scope hstart]
          exact h.sound impact.nodeId scope (hbefore.trans hstart)
      · rw [hfull]
        exact NodeScope.sound_full _
    refine ⟨?_, ?_, ?_, ?_, ?_, ?_⟩
    · rw [himpacts, List.map_append, h.listed, List.filter_append]
      simp [hstage]
    · intro id scope hid
      rw [hresolved] at hid
      by_cases heq : id = impact.nodeId
      · rw [heq, Function.update_self] at hid
        exact Option.some.inj hid ▸ hsound
      · rw [Function.update_of_ne heq] at hid
        exact h.sound id scope hid
    · intro id hid
      rw [himpacts, List.map_append, List.mem_append, not_or] at hid
      rw [hresolved, Function.update_of_ne (by simpa using hid.2)]
      exact h.others id hid.1
    · rw [himpacts]
      refine List.forall_mem_append.mpr ⟨fun other hother => ?_, by simpa using hself⟩
      rw [hkept _ (hdone other hother)]
      exact h.known other hother
    · rw [himpacts]
      refine List.forall_mem_append.mpr ⟨h.own, ?_⟩
      simp only [List.mem_singleton, forall_eq]
      intro scope hsome
      exact hgiven scope hsome ▸ hcases
    · rw [himpacts]
      refine List.forall_mem_append.mpr ⟨fun other hother hnone parent hparent => ?_, ?_⟩
      · obtain ⟨scope, hscope', hincludes⟩ := h.inherits other hother hnone parent hparent
        refine ⟨scope, ?_, hincludes⟩
        rw [hkept parent ?_]
        · exact hscope'
        · exact parents_done hfirst hsplit (hdone other hother) (mem_dirtyParents.mp hparent).1
      · simp only [List.mem_singleton, forall_eq]
        intro hnone parent hparent
        obtain ⟨scope, hparentScope, hincludes⟩ := (hderived hnone).2 parent hparent
        refine ⟨scope, (hkept parent (hparents parent hparent)).trans hparentScope, ?_⟩
        rcases hcases with hsame | hfull
        · exact hsame ▸ hincludes
        · exact hfull ▸ NodeScope.includes_full scope

end Solweig.Planner.EditPlanner
