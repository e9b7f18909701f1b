import Solweig.Lib.Acyclic
import Solweig.Lib.Fold
import Solweig.Planner.Order

/-!
# Construction of a graph

A declared graph is refused where its edges have a cycle, and its order does not depend on the
order in which it was declared.
-/

namespace Solweig.Planner

open Solweig.Lib

inductive EditGraphError where
  | emptyNodeId
  | duplicateNode (nodeId : String)
  | unknownEndpoint (edge : String × String) (endpoint : String)
  | selfEdge (nodeId : String)
  | duplicateEdge (edge : String × String)
  | cycle (among : List String)
  | unknownNode (nodeId : String)
  deriving DecidableEq

def checkNode (kinds : List String) (node : GraphNode) : Except EditGraphError (List String) := do
  refuseIf (node.nodeId = "") .emptyNodeId
  refuseIf (node.nodeId ∈ kinds) (.duplicateNode node.nodeId)
  pure (kinds ++ [node.nodeId])

def checkEdge (kinds : List String) (seenEdges : Edges) (edge : String × String) :
    Except EditGraphError Edges := do
  refuseIf (edge.1 ∉ kinds) (.unknownEndpoint edge edge.1)
  refuseIf (edge.2 ∉ kinds) (.unknownEndpoint edge edge.2)
  refuseIf (edge.1 = edge.2) (.selfEdge edge.1)
  refuseIf (edge ∈ seenEdges) (.duplicateEdge edge)
  pure (seenEdges ++ [edge])

def checkGraph (nodes : List GraphNode) (edges : Edges) : Except EditGraphError Unit := do
  let kinds ← nodes.foldlM checkNode []
  let _ ← edges.foldlM (checkEdge kinds) []
  pure ()

/-- The parents that are not placed when the loop is at its end. -/
def kahnRemaining (edges : Edges) : Nat → List String → (String → Nat) → (String → Nat)
  | 0, _, remaining => remaining
  | fuel + 1, ready, remaining =>
    match ready.insertionSort (· ≤ ·) with
    | [] => remaining
    | nodeId :: rest =>
      let children := childrenOf edges nodeId
      let left := fun id => if id ∈ children then remaining id - 1 else remaining id
      kahnRemaining edges fuel (rest ++ children.filter fun child => left child = 0) left

/-- The nodes that still wait, which the refusal names. -/
def cyclicNodes (nodeIds : List String) (edges : Edges) : List String :=
  let remaining := kahnRemaining edges nodeIds.length
    (nodeIds.filter fun id => (parentsOf edges id).length = 0)
    fun id => (parentsOf edges id).length
  (nodeIds.filter fun id => 0 < remaining id).insertionSort (· ≤ ·)

/-! ## The checks -/

/-- What the checks of the nodes and edges let pass. -/
structure Declared (nodes : List GraphNode) (edges : Edges) : Prop where
  named : ∀ node ∈ nodes, node.nodeId ≠ ""
  distinct : (nodes.map (·.nodeId)).Nodup
  endpoints : ∀ edge ∈ edges, edge.1 ∈ nodes.map (·.nodeId) ∧ edge.2 ∈ nodes.map (·.nodeId)
  noSelfEdge : ∀ edge ∈ edges, edge.1 ≠ edge.2
  noDuplicate : edges.Nodup

section Checks

variable {nodes : List GraphNode} {edges : Edges} {kinds kinds' : List String}

theorem checkNode_ok {node : GraphNode} : checkNode kinds node = .ok kinds' ↔
    node.nodeId ≠ "" ∧ node.nodeId ∉ kinds ∧ kinds ++ [node.nodeId] = kinds' := by
  unfold checkNode
  simp [except_bind_ok, refuseIf_ok, pure, Except.pure]

theorem checkEdge_ok {seenEdges seenEdges' : Edges} {edge : String × String} :
    checkEdge kinds seenEdges edge = .ok seenEdges' ↔ (edge.1 ∈ kinds ∧ edge.2 ∈ kinds) ∧
      edge.1 ≠ edge.2 ∧ edge ∉ seenEdges ∧ seenEdges ++ [edge] = seenEdges' := by
  unfold checkEdge
  simp [except_bind_ok, refuseIf_ok, pure, Except.pure, and_assoc]

theorem checkNodes_ok (hkinds : kinds.Nodup) : nodes.foldlM checkNode kinds = .ok kinds' ↔
    (∀ node ∈ nodes, node.nodeId ≠ "") ∧ (kinds ++ nodes.map (·.nodeId)).Nodup ∧
      kinds ++ nodes.map (·.nodeId) = kinds' := by
  induction nodes generalizing kinds with
  | nil => simp [hkinds, pure, Except.pure]
  | cons node nodes ih =>
    rw [foldlM_cons_ok]
    simp only [checkNode_ok, List.forall_mem_cons, List.map_cons]
    constructor
    · rintro ⟨_, ⟨hname, hnew, rfl⟩, hrest⟩
      rw [ih (List.nodup_append'.mpr ⟨hkinds, List.nodup_singleton _, by simpa using hnew⟩)] at hrest
      obtain ⟨hnames, hnodup, rfl⟩ := hrest
      exact ⟨⟨hname, hnames⟩, by simpa using hnodup, by simp⟩
    · rintro ⟨⟨hname, hnames⟩, hnodup, rfl⟩
      rw [← List.singleton_append, ← List.append_assoc] at hnodup
      have hfirst := (List.nodup_append'.mp hnodup).1
      refine ⟨_, ⟨hname, ?_, rfl⟩, (ih hfirst).mpr ⟨hnames, hnodup, by simp⟩⟩
      intro hmem
      exact (List.nodup_append'.mp hfirst).2.2 hmem (List.mem_singleton_self _)

theorem checkEdges_ok {seenEdges seenEdges' : Edges} (hseen : seenEdges.Nodup) :
    edges.foldlM (checkEdge kinds) seenEdges = .ok seenEdges' ↔
      (∀ edge ∈ edges, edge.1 ∈ kinds ∧ edge.2 ∈ kinds) ∧ (∀ edge ∈ edges, edge.1 ≠ edge.2) ∧
        (seenEdges ++ edges).Nodup ∧ seenEdges ++ edges = seenEdges' := by
  induction edges generalizing seenEdges with
  | nil => simp [hseen, pure, Except.pure]
  | cons edge edges ih =>
    rw [foldlM_cons_ok]
    simp only [checkEdge_ok, List.forall_mem_cons]
    constructor
    · rintro ⟨_, ⟨hknown, hself, hnew, rfl⟩, hrest⟩
      rw [ih (List.nodup_append'.mpr ⟨hseen, List.nodup_singleton _, by simpa using hnew⟩)] at hrest
      obtain ⟨hknowns, hselfs, hnodup, rfl⟩ := hrest
      exact ⟨⟨hknown, hknowns⟩, ⟨hself, hselfs⟩, by simpa using hnodup, by simp⟩
    · rintro ⟨⟨hknown, hknowns⟩, ⟨hself, hselfs⟩, hnodup, rfl⟩
      rw [← List.singleton_append, ← List.append_assoc] at hnodup
      have hfirst := (List.nodup_append'.mp hnodup).1
      refine ⟨_, ⟨hknown, hself, ?_, rfl⟩, (ih hfirst).mpr ⟨hknowns, hselfs, hnodup, by simp⟩⟩
      intro hmem
      exact (List.nodup_append'.mp hfirst).2.2 hmem (List.mem_singleton_self _)

theorem checkGraph_ok : checkGraph nodes edges = .ok () ↔ Declared nodes edges := by
  unfold checkGraph
  simp only [except_bind_ok, checkNodes_ok List.nodup_nil, checkEdges_ok List.nodup_nil,
    List.nil_append]
  constructor
  · rintro ⟨_, ⟨hnamed, hdistinct, rfl⟩, _, ⟨hendpoints, hself, hnodup, -⟩, -⟩
    exact ⟨hnamed, hdistinct, hendpoints, hself, hnodup⟩
  · rintro ⟨hnamed, hdistinct, hendpoints, hself, hnodup⟩
    exact ⟨_, ⟨hnamed, hdistinct, rfl⟩, _, ⟨hendpoints, hself, hnodup, rfl⟩, rfl⟩

end Checks

def EditGraph.make (nodes : List GraphNode) (edges : Edges) : Except EditGraphError EditGraph :=
  match h : checkGraph nodes edges with
  | .error error => .error error
  | .ok () =>
    if hall : (kahnOrder (nodes.map (·.nodeId)) edges).length = nodes.length then
      have declared := checkGraph_ok.mp h
      .ok ⟨nodes, edges, declared.named, declared.distinct, declared.endpoints,
        declared.noSelfEdge, declared.noDuplicate, hall⟩
    else .error (.cycle (cyclicNodes (nodes.map (·.nodeId)) edges))

/-! ## The order of declaration -/

section Permuted

variable {edges edges' : Edges}

theorem childrenOf_perm (h : edges.Perm edges') : childrenOf edges = childrenOf edges' := by
  funext nodeId
  exact insertionSort_perm ((h.filter _).map _)

theorem parentsOf_perm (h : edges.Perm edges') : parentsOf edges = parentsOf edges' := by
  funext nodeId
  exact insertionSort_perm ((h.filter _).map _)

theorem kahnLoop_perm (h : edges.Perm edges') (fuel : Nat) {ready ready' : List String}
    (hready : ready.Perm ready') (remaining : String → Nat) :
    kahnLoop edges fuel ready remaining = kahnLoop edges' fuel ready' remaining := by
  induction fuel generalizing ready ready' remaining with
  | zero => rfl
  | succ fuel ih =>
    rw [kahnLoop, kahnLoop, insertionSort_perm hready, childrenOf_perm h]
    cases ready'.insertionSort (· ≤ ·) with
    | nil => rfl
    | cons nodeId rest =>
      dsimp only
      rw [ih (List.Perm.refl _)]

theorem kahnOrder_perm (h : edges.Perm edges') {nodeIds nodeIds' : List String}
    (hids : nodeIds.Perm nodeIds') : kahnOrder nodeIds edges = kahnOrder nodeIds' edges' := by
  unfold kahnOrder
  rw [hids.length_eq, parentsOf_perm h]
  exact kahnLoop_perm h _ (hids.filter _) _

end Permuted

theorem Declared.perm {nodes nodes' : List GraphNode} {edges edges' : Edges}
    (h : Declared nodes edges) (hnodes : nodes.Perm nodes') (hedges : edges.Perm edges') :
    Declared nodes' edges' where
  named := fun node hnode => h.named node (hnodes.mem_iff.mpr hnode)
  distinct := (hnodes.map _).nodup_iff.mp h.distinct
  endpoints := fun edge hedge => by
    have hknown := h.endpoints edge (hedges.mem_iff.mpr hedge)
    rwa [(hnodes.map _).mem_iff, (hnodes.map _).mem_iff] at hknown
  noSelfEdge := fun edge hedge => h.noSelfEdge edge (hedges.mem_iff.mpr hedge)
  noDuplicate := hedges.nodup_iff.mp h.noDuplicate

/-! ## Cycles -/

def HasCycle (edges : Edges) : Prop := Cyclic fun producer consumer => (producer, consumer) ∈ edges

section Stuck

variable {nodeIds : List String} {edges : Edges}

/-- What waits for nobody is placed or on the heap. -/
def Complete (nodeIds : List String) (edges : Edges) (placed ready : List String) : Prop :=
  ∀ id ∈ nodeIds, id ∉ placed ++ ready → waiting edges placed id ≠ 0

theorem complete_start (nodeIds : List String) (edges : Edges) : Complete nodeIds edges []
    (nodeIds.filter fun id => (parentsOf edges id).length = 0) := by
  intro id hid hnot
  rw [← length_parentsOf]
  intro hzero
  exact hnot (List.mem_filter.mpr ⟨hid, decide_eq_true hzero⟩)

theorem Complete.place {placed rest : List String} {nodeId : String} {remaining : String → Nat}
    (hedges : edges.Nodup) (hplacing : Placing nodeIds edges placed (nodeId :: rest) remaining)
    (h : Complete nodeIds edges placed (nodeId :: rest)) {left : String → Nat}
    (hleft : ∀ id, left id =
      if id ∈ childrenOf edges nodeId then remaining id - 1 else remaining id) :
    Complete nodeIds edges (placed ++ [nodeId])
      (rest ++ (childrenOf edges nodeId).filter fun child => left child = 0) := by
  intro id hid hnot
  have hnew : nodeId ∉ placed := fun hmem =>
    (List.disjoint_of_nodup_append hplacing.nodup) hmem List.mem_cons_self
  simp only [List.mem_append, List.mem_singleton, List.mem_filter, decide_eq_true_eq, not_or,
    not_and] at hnot
  obtain ⟨⟨hplaced, hself⟩, hrest, hchild⟩ := hnot
  rw [waiting_placed hedges hnew]
  split
  · rename_i hmem
    have hzero := hchild hmem
    rw [hleft, if_pos hmem, hplacing.count] at hzero
    exact hzero
  · exact h id hid (by simp [hplaced, hself, hrest])

theorem kahnLoop_stuck (hedges : edges.Nodup) (hknown : ∀ edge ∈ edges, edge.2 ∈ nodeIds)
    (fuel : Nat) {placed ready : List String} {remaining : String → Nat}
    (h : Placing nodeIds edges placed ready remaining) (hplaced : placed ⊆ nodeIds)
    (hcomplete : Complete nodeIds edges placed ready)
    (hfuel : nodeIds.length ≤ placed.length + fuel) :
    (∀ id ∈ nodeIds, id ∉ placed ++ kahnLoop edges fuel ready remaining →
      waiting edges (placed ++ kahnLoop edges fuel ready remaining) id ≠ 0) ∧
    ∀ id, kahnRemaining edges fuel ready remaining id =
      waiting edges (placed ++ kahnLoop edges fuel ready remaining) id := by
  induction fuel generalizing placed ready remaining with
  | zero =>
    -- As many nodes are placed as there are.
    have hall : placed.Perm nodeIds :=
      (List.subperm_of_subset (List.nodup_append'.mp h.nodup).1 hplaced).perm_of_length_le hfuel
    rw [kahnLoop, List.append_nil]
    exact ⟨fun id hid hnot => absurd (hall.mem_iff.mpr hid) hnot, h.count⟩
  | succ fuel ih =>
    rw [kahnLoop, kahnRemaining]
    have hperm := List.perm_insertionSort (· ≤ ·) ready
    have hsorted := h.perm hperm
    have hcomplete : Complete nodeIds edges placed (ready.insertionSort (· ≤ ·)) :=
      fun id hid hnot => hcomplete id hid ((hperm.append_left placed).mem_iff.not.mp hnot)
    generalize ready.insertionSort (· ≤ ·) = sorted at hsorted hcomplete
    cases sorted with
    | nil =>
      dsimp only
      rw [List.append_nil]
      unfold Complete at hcomplete
      rw [List.append_nil] at hcomplete
      exact ⟨hcomplete, h.count⟩
    | cons nodeId rest =>
      dsimp only
      have hnext := hsorted.place hedges hknown (fun _ => rfl)
      have hcomplete' := hcomplete.place hedges hsorted (fun _ => rfl)
      have hsub : placed ++ [nodeId] ⊆ nodeIds :=
        List.append_subset.mpr ⟨hplaced, List.cons_subset.mpr
          ⟨hsorted.known List.mem_cons_self, List.nil_subset _⟩⟩
      have hrest := ih hnext hsub hcomplete' (by simp; omega)
      rwa [List.append_assoc, List.singleton_append] at hrest

end Stuck

section Cycles

variable {nodes : List GraphNode} {edges : Edges}

theorem Declared.order_spec (h : Declared nodes edges) :
    (kahnOrder (nodes.map (·.nodeId)) edges).Nodup ∧
      kahnOrder (nodes.map (·.nodeId)) edges ⊆ nodes.map (·.nodeId) ∧
      ParentsFirst edges [] (kahnOrder (nodes.map (·.nodeId)) edges) :=
  kahnOrder_spec h.distinct h.noDuplicate fun edge hedge => (h.endpoints edge hedge).2

theorem Declared.mem_order (h : Declared nodes edges)
    (hall : (kahnOrder (nodes.map (·.nodeId)) edges).length = nodes.length) {id : String} :
    id ∈ kahnOrder (nodes.map (·.nodeId)) edges ↔ id ∈ nodes.map (·.nodeId) := by
  obtain ⟨hnodup, hsub, -⟩ := h.order_spec
  refine ((List.subperm_of_subset hnodup hsub).perm_of_length_le ?_).mem_iff
  rw [hall, List.length_map]

theorem Declared.stuck (h : Declared nodes edges) :
    (∀ id ∈ nodes.map (·.nodeId), id ∉ kahnOrder (nodes.map (·.nodeId)) edges →
      waiting edges (kahnOrder (nodes.map (·.nodeId)) edges) id ≠ 0) ∧
    ∀ id, kahnRemaining edges (nodes.map (·.nodeId)).length
        ((nodes.map (·.nodeId)).filter fun id => (parentsOf edges id).length = 0)
        (fun id => (parentsOf edges id).length) id =
      waiting edges (kahnOrder (nodes.map (·.nodeId)) edges) id :=
  kahnLoop_stuck h.noDuplicate (fun edge hedge => (h.endpoints edge hedge).2) _
    (placing_start h.distinct) (List.nil_subset _) (complete_start _ _) (by simp)

theorem Declared.mem_cyclicNodes (h : Declared nodes edges) {id : String} :
    id ∈ cyclicNodes (nodes.map (·.nodeId)) edges ↔
      id ∈ nodes.map (·.nodeId) ∧ ∃ parent, (parent, id) ∈ edges ∧
        parent ∉ kahnOrder (nodes.map (·.nodeId)) edges := by
  unfold cyclicNodes
  dsimp only
  rw [List.mem_insertionSort, List.mem_filter, decide_eq_true_eq, h.stuck.2 id,
    Nat.pos_iff_ne_zero, ne_eq, waiting_eq_zero_iff]
  push Not
  rfl

theorem Declared.unplaced (h : Declared nodes edges) {id : String}
    (hid : id ∈ nodes.map (·.nodeId)) (hnot : id ∉ kahnOrder (nodes.map (·.nodeId)) edges) :
    id ∈ cyclicNodes (nodes.map (·.nodeId)) edges := by
  have hwaits := h.stuck.1 id hid hnot
  rw [ne_eq, waiting_eq_zero_iff] at hwaits
  push Not at hwaits
  exact h.mem_cyclicNodes.mpr ⟨hid, hwaits⟩

theorem Declared.stuck_iff (h : Declared nodes edges) :
    (kahnOrder (nodes.map (·.nodeId)) edges).length ≠ nodes.length ↔ HasCycle edges := by
  obtain ⟨hnodup, hsub, hfirst⟩ := h.order_spec
  constructor
  · intro hless
    -- The nodes that are named each have a parent among them.
    refine cyclic_of_predecessors (l := cyclicNodes (nodes.map (·.nodeId)) edges) ?_ ?_
    · intro hnone
      refine hless (le_antisymm ?_ ?_)
      · have hle := (List.subperm_of_subset hnodup hsub).length_le
        rwa [List.length_map] at hle
      · have hall : nodes.map (·.nodeId) ⊆ kahnOrder (nodes.map (·.nodeId)) edges := by
          intro id hid
          by_contra hnot
          have hmem := h.unplaced hid hnot
          rw [hnone] at hmem
          cases hmem
        have hle := (List.subperm_of_subset h.distinct hall).length_le
        rwa [List.length_map] at hle
    · intro id hid
      obtain ⟨-, parent, hedge, hnot⟩ := h.mem_cyclicNodes.mp hid
      exact ⟨parent, h.unplaced (h.endpoints _ hedge).1 hnot, hedge⟩
  · rintro hcycle hall
    -- The place in the order goes up along each edge.
    refine not_cyclic_of_rank
      (fun id => (kahnOrder (nodes.map (·.nodeId)) edges).idxOf id) ?_ hcycle
    intro producer consumer hedge
    have hmem := (h.mem_order hall).mpr (h.endpoints _ hedge).2
    obtain ⟨before, after, horder⟩ := List.append_of_mem hmem
    have hbefore : producer ∈ before := by
      simpa using hfirst before consumer after horder producer hedge
    rw [horder] at hnodup ⊢
    have hfresh : consumer ∉ before := fun hmem =>
      (List.nodup_append'.mp hnodup).2.2 hmem List.mem_cons_self
    rw [List.idxOf_append_of_mem hbefore, List.idxOf_append_of_notMem hfresh,
      List.idxOf_cons_self, Nat.add_zero]
    exact List.idxOf_lt_length_of_mem hbefore

end Cycles

theorem Declared.make {nodes : List GraphNode} {edges : Edges} (h : Declared nodes edges) :
    (HasCycle edges → EditGraph.make nodes edges =
      .error (.cycle (cyclicNodes (nodes.map (·.nodeId)) edges))) ∧
    (¬ HasCycle edges → ∃ graph, EditGraph.make nodes edges = .ok graph ∧
      graph.nodes = nodes ∧ graph.edges = edges) := by
  have hcheck := checkGraph_ok.mpr h
  rw [← h.stuck_iff]
  unfold EditGraph.make
  split
  · rename_i error herror
    rw [hcheck] at herror
    cases herror
  · constructor
    · intro hstuck
      rw [dif_neg hstuck]
    · intro hall
      rw [dif_pos (not_not.mp hall)]
      exact ⟨_, rfl, rfl, rfl⟩

theorem EditGraph.make_ok {nodes : List GraphNode} {edges : Edges} {graph : EditGraph}
    (h : EditGraph.make nodes edges = .ok graph) :
    Declared nodes edges ∧ graph.nodes = nodes ∧ graph.edges = edges := by
  unfold EditGraph.make at h
  split at h
  · cases h
  · rename_i hcheck
    split at h
    · cases h
      exact ⟨checkGraph_ok.mp hcheck, rfl, rfl⟩
    · cases h

end Solweig.Planner
