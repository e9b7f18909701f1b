import Solweig.Lib.Dict
import Solweig.Planner.Construction

/-!
# Versions of a scene

The version of a node counts the edits whose change reaches it.
-/

namespace Solweig.Planner

open Solweig.Lib

/-! ## States -/

/-- `downstream`, which raises for a node that the graph does not have. -/
def EditGraph.closureOf (graph : EditGraph) (changed : List String) :
    Except EditGraphError (List String) :=
  match changed.find? fun nodeId => graph.kind? nodeId = none with
  | some nodeId => .error (.unknownNode nodeId)
  | none => .ok (graph.downstream changed)

def bump (versions : Dict String Nat) (nodeId : String) : Dict String Nat :=
  versions.insert nodeId (versions[nodeId]?.getD 0 + 1)

/-- The versions are of nodes of the graph. -/
structure SceneGraphState where
  graph : EditGraph
  sceneRevision : Nat
  nodeVersions : Dict String Nat
  known : ∀ nodeId ∈ nodeVersions, nodeId ∈ graph.nodeIds

section Closure

variable {graph : EditGraph} {changed reached : List String} {nodeId : String}

theorem EditGraph.kind?_eq_none : graph.kind? nodeId = none ↔ nodeId ∉ graph.nodeIds := by
  unfold EditGraph.kind? EditGraph.nodeIds
  rw [Option.map_eq_none_iff, List.find?_eq_none, List.mem_map]
  simp

theorem EditGraph.closureOf_ok : graph.closureOf changed = .ok reached ↔
    changed ⊆ graph.nodeIds ∧ reached = graph.downstream changed := by
  unfold EditGraph.closureOf
  split
  · rename_i unknown hfind
    refine iff_of_false (by simp) ?_
    rintro ⟨hknown, -⟩
    have hkind := List.find?_some hfind
    rw [decide_eq_true_eq, EditGraph.kind?_eq_none] at hkind
    exact hkind (hknown (List.mem_of_find?_eq_some hfind))
  · rename_i hfind
    rw [List.find?_eq_none] at hfind
    rw [Except.ok.injEq, eq_comm]
    refine (and_iff_right fun nodeId hmem => ?_).symm
    have hkind := hfind nodeId hmem
    rwa [decide_eq_true_eq, EditGraph.kind?_eq_none, not_not] at hkind

theorem EditGraph.Reaches.known {source : String} (h : graph.Reaches source nodeId)
    (hsource : source ∈ graph.nodeIds) : nodeId ∈ graph.nodeIds := by
  induction h with
  | refl => exact hsource
  | tail _ hedge _ => exact (graph.endpoints _ hedge).2

theorem EditGraph.closureOf_known (h : graph.closureOf changed = .ok reached) :
    reached ⊆ graph.nodeIds := by
  obtain ⟨hknown, rfl⟩ := EditGraph.closureOf_ok.mp h
  intro nodeId hmem
  obtain ⟨source, hsource, hreaches⟩ := (EditGraph.mem_downstream hknown).mp hmem
  exact hreaches.known (hknown hsource)

end Closure

theorem mem_foldl_bump {versions : Dict String Nat} {nodeIds : List String} {nodeId : String} :
    nodeId ∈ nodeIds.foldl bump versions ↔ nodeId ∈ versions ∨ nodeId ∈ nodeIds := by
  induction nodeIds generalizing versions with
  | nil => simp
  | cons first nodeIds ih =>
    rw [List.foldl_cons, ih, bump, Std.ExtTreeMap.mem_insert, compare_eq_iff_eq, List.mem_cons,
      eq_comm, or_left_comm, or_assoc]

theorem getElem?_foldl_bump {versions : Dict String Nat} {nodeIds : List String}
    (h : nodeIds.Nodup) (nodeId : String) :
    ((nodeIds.foldl bump versions)[nodeId]?).getD 0 =
      versions[nodeId]?.getD 0 + if nodeId ∈ nodeIds then 1 else 0 := by
  induction nodeIds generalizing versions with
  | nil => simp
  | cons first nodeIds ih =>
    obtain ⟨hfirst, hrest⟩ := List.nodup_cons.mp h
    rw [List.foldl_cons, ih hrest, bump]
    by_cases hid : nodeId = first
    · subst hid
      simp [hfirst]
    · rw [Dict.getElem?_insert_of_ne _ _ (Ne.symm hid)]
      simp [hid]

namespace SceneGraphState

def initial (graph : EditGraph) : SceneGraphState where
  graph := graph
  sceneRevision := 0
  nodeVersions := ∅
  known := by simp

def version (state : SceneGraphState) (nodeId : String) : Except EditGraphError Nat :=
  if state.graph.kind? nodeId = none then .error (.unknownNode nodeId)
  else .ok (state.nodeVersions[nodeId]?.getD 0)

def advance (state : SceneGraphState) (changedNodes : List String) :
    Except EditGraphError SceneGraphState :=
  match h : state.graph.closureOf changedNodes with
  | .error error => .error error
  | .ok reached => .ok
    { graph := state.graph
      sceneRevision := state.sceneRevision + 1
      nodeVersions := (reached.insertionSort (· ≤ ·)).foldl bump state.nodeVersions
      known := by
        intro nodeId hmem
        rcases mem_foldl_bump.mp hmem with hold | hnew
        · exact state.known nodeId hold
        · exact EditGraph.closureOf_known h ((List.mem_insertionSort (· ≤ ·)).mp hnew) }

end SceneGraphState

/-! ## Versions -/

theorem EditGraph.reaches_unknown {graph : EditGraph} {source nodeId : String}
    (h : source ∉ graph.nodeIds) : graph.Reaches source nodeId ↔ nodeId = source := by
  constructor
  · intro hreaches
    rcases Relation.ReflTransGen.cases_head hreaches with rfl | ⟨_, hedge, -⟩
    · rfl
    · exact absurd (graph.endpoints _ hedge).1 h
  · rintro rfl
    exact Relation.ReflTransGen.refl

instance (graph : EditGraph) (source nodeId : String) : Decidable (graph.Reaches source nodeId) :=
  if h : source ∈ graph.nodeIds then
    decidable_of_iff (nodeId ∈ graph.downstream [source]) (by
      rw [EditGraph.mem_downstream (by simpa using h)]
      simp)
  else decidable_of_iff (nodeId = source) (EditGraph.reaches_unknown h).symm

section Versions

variable {graph : EditGraph}

theorem SceneGraphState.advance_ok {state next : SceneGraphState}
    {changed : List String} (h : state.advance changed = .ok next) : next.graph = state.graph ∧
      next.sceneRevision = state.sceneRevision + 1 ∧
      ∀ nodeId, next.nodeVersions[nodeId]?.getD 0 = state.nodeVersions[nodeId]?.getD 0 +
        if ∃ source ∈ changed, state.graph.Reaches source nodeId then 1 else 0 := by
  unfold advance at h
  split at h
  · cases h
  · rename_i reached hclosure
    cases h
    refine ⟨rfl, rfl, fun nodeId => ?_⟩
    obtain ⟨hknown, rfl⟩ := EditGraph.closureOf_ok.mp hclosure
    have hnodup : ((state.graph.downstream changed).insertionSort (· ≤ ·)).Nodup :=
      (List.perm_insertionSort _ _).nodup_iff.mpr (nodup_closure _ _ _)
    dsimp only
    rw [getElem?_foldl_bump hnodup]
    simp only [List.mem_insertionSort, EditGraph.mem_downstream hknown]

theorem SceneGraphState.version_run {calls : List (List String)} {state : SceneGraphState}
    (h : calls.foldlM advance (initial graph) = .ok state) :
    state.graph = graph ∧
      state.sceneRevision = calls.length ∧
      ∀ nodeId, state.nodeVersions[nodeId]?.getD 0 =
        calls.countP fun changed => ∃ source ∈ changed, graph.Reaches source nodeId := by
  refine foldlM_invariant (I := fun done state => state.graph = graph ∧
    state.sceneRevision = done.length ∧ ∀ nodeId, state.nodeVersions[nodeId]?.getD 0 =
      done.countP fun changed => ∃ source ∈ changed, graph.Reaches source nodeId) ?_ ?_ h
  · rintro done changed rest state next - ⟨rfl, hrevision, hversions⟩ hadvance
    obtain ⟨hgraph, hnext, hbump⟩ := advance_ok hadvance
    refine ⟨hgraph, by simp [hnext, hrevision], fun nodeId => ?_⟩
    rw [hbump, hversions, List.countP_append, List.countP_singleton]
    simp
  · exact ⟨rfl, rfl, fun nodeId => by simp [initial]⟩

theorem SceneGraphState.version_ok {state : SceneGraphState} {nodeId : String}
    (h : nodeId ∈ state.graph.nodeIds) :
    state.version nodeId = .ok (state.nodeVersions[nodeId]?.getD 0) := by
  unfold version
  rw [if_neg]
  rw [EditGraph.kind?_eq_none, not_not]
  exact h

end Versions

/-! ## Declared graphs -/

section Graphs

variable {nodes : List GraphNode} {edges : Edges}

theorem hasCycle_perm {edges' : Edges} (h : edges.Perm edges') :
    HasCycle edges ↔ HasCycle edges' := by
  unfold HasCycle
  simp only [h.mem_iff]

/-- Nodes and edges with distinct ids and ends are refused for an empty id or a cycle only. Else
each node has one place in the order, behind its parents, whatever the order of declaration, and
its version in any run is the number of calls whose change reaches it. -/
theorem EditGraph.make_spec (hdistinct : (nodes.map (·.nodeId)).Nodup)
    (hendpoints : ∀ edge ∈ edges,
      edge.1 ∈ nodes.map (·.nodeId) ∧ edge.2 ∈ nodes.map (·.nodeId))
    (hself : ∀ edge ∈ edges, edge.1 ≠ edge.2) (hdup : edges.Nodup) :
    ((∃ error, EditGraph.make nodes edges = .error error) ↔
      (∃ node ∈ nodes, node.nodeId = "") ∨ HasCycle edges) ∧
    ∀ graph, EditGraph.make nodes edges = .ok graph →
      graph.topologicalOrder.Nodup ∧
      (∀ nodeId, nodeId ∈ graph.topologicalOrder ↔ nodeId ∈ nodes.map (·.nodeId)) ∧
      ParentsFirst edges [] graph.topologicalOrder ∧
      (∀ nodes' edges', nodes.Perm nodes' → edges.Perm edges' → ∃ graph',
        EditGraph.make nodes' edges' = .ok graph' ∧
          graph'.topologicalOrder = graph.topologicalOrder) ∧
      ∀ (calls : List (List String)) (state : SceneGraphState),
        calls.foldlM SceneGraphState.advance (.initial graph) = .ok state →
        ∀ nodeId ∈ nodes.map (·.nodeId), state.version nodeId = .ok (calls.countP fun changed =>
          ∃ source ∈ changed, graph.Reaches source nodeId) := by
  constructor
  · constructor
    · rintro ⟨error, herror⟩
      by_contra hneither
      push Not at hneither
      have hdeclared : Declared nodes edges :=
        ⟨hneither.1, hdistinct, hendpoints, hself, hdup⟩
      obtain ⟨graph, hgraph, -, -⟩ := hdeclared.make.2 hneither.2
      rw [hgraph] at herror
      cases herror
    · intro hbad
      cases hmake : EditGraph.make nodes edges with
      | error error => exact ⟨error, rfl⟩
      | ok graph =>
        have hdeclared := (EditGraph.make_ok hmake).1
        rcases hbad with ⟨node, hnode, hname⟩ | hcycle
        · exact absurd hname (hdeclared.named node hnode)
        · rw [hdeclared.make.1 hcycle] at hmake
          cases hmake
  · intro graph hmake
    obtain ⟨hdeclared, rfl, rfl⟩ := EditGraph.make_ok hmake
    obtain ⟨hnodup, -, hfirst⟩ := graph.topologicalOrder_spec
    refine ⟨hnodup, fun nodeId => EditGraph.mem_topologicalOrder, hfirst, ?_, ?_⟩
    · intro nodes' edges' hnodes hedges
      have hacyclic : ¬ HasCycle edges' := by
        intro hcycle
        rw [hdeclared.make.1 ((hasCycle_perm hedges).mpr hcycle)] at hmake
        cases hmake
      obtain ⟨graph', hmake', rfl, rfl⟩ := (hdeclared.perm hnodes hedges).make.2 hacyclic
      exact ⟨graph', hmake', (kahnOrder_perm hedges (hnodes.map _)).symm⟩
    · intro calls state hrun nodeId hknown
      obtain ⟨hgraph, -, hversions⟩ := SceneGraphState.version_run hrun
      rw [SceneGraphState.version_ok (by rw [hgraph]; exact hknown), hversions]

end Graphs

theorem EditGraph.make_default : ∃ graph, EditGraph.make graphNodes graphEdges = .ok graph ∧
    graph.topologicalOrder.Nodup ∧ ParentsFirst graphEdges [] graph.topologicalOrder := by
  have hdeclared : Declared graphNodes graphEdges :=
    ⟨defaultEditGraph.named, defaultEditGraph.distinct, defaultEditGraph.endpoints,
      defaultEditGraph.noSelfEdge, defaultEditGraph.noDuplicate⟩
  have hacyclic : ¬ HasCycle graphEdges := fun hcycle =>
    hdeclared.stuck_iff.mpr hcycle defaultEditGraph.acyclic
  obtain ⟨graph, hmake, -, -⟩ := hdeclared.make.2 hacyclic
  have hspec := (EditGraph.make_spec hdeclared.distinct hdeclared.endpoints hdeclared.noSelfEdge
    hdeclared.noDuplicate).2 graph hmake
  exact ⟨graph, hmake, hspec.1, hspec.2.2.1⟩

/-- A graph without an edge is refused where its node has no name. -/
theorem EditGraph.make_nameless :
    EditGraph.make [⟨"", .source⟩] [] = .error .emptyNodeId ∧ ¬ HasCycle [] := by
  refine ⟨rfl, not_cyclic_of_rank (fun _ => 0) ?_⟩
  intro producer consumer hedge
  cases hedge

end Solweig.Planner
