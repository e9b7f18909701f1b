import Mathlib.Data.List.Nodup
import Solweig.Planner.Graph

/-!
# The topological order

Kahn's algorithm places each node of an acyclic graph once, behind its parents.
-/

namespace Solweig.Planner

/-! ## Edges -/

/-- How many parents of a node are not placed yet. -/
def waiting (edges : Edges) (placed : List String) (nodeId : String) : Nat :=
  (edges.filter fun edge => edge.2 = nodeId ∧ edge.1 ∉ placed).length

section Edges

variable {edges : Edges} {placed : List String} {nodeId child : String}

theorem nodup_childrenOf (h : edges.Nodup) : (childrenOf edges nodeId).Nodup := by
  unfold childrenOf
  rw [(List.perm_insertionSort _ _).nodup_iff]
  refine (h.filter _).map_on ?_
  rintro ⟨p, c⟩ hp ⟨q, d⟩ hq heq
  simp only [List.mem_filter, decide_eq_true_eq] at hp hq
  simp_all

theorem length_parentsOf : (parentsOf edges nodeId).length = waiting edges [] nodeId := by
  unfold parentsOf waiting
  simp [List.length_insertionSort]

theorem waiting_eq_zero_iff :
    waiting edges placed nodeId = 0 ↔ ∀ parent, (parent, nodeId) ∈ edges → parent ∈ placed := by
  unfold waiting
  rw [List.length_eq_zero_iff, List.filter_eq_nil_iff]
  constructor
  · intro h parent hedge
    by_contra hparent
    exact h _ hedge (by simpa using hparent)
  · rintro h ⟨parent, other⟩ hedge
    simp only [decide_eq_true_eq, not_and, not_not]
    rintro rfl
    exact h parent hedge

theorem waiting_placed (hedges : edges.Nodup) (hnew : nodeId ∉ placed) (id : String) :
    waiting edges (placed ++ [nodeId]) id =
      if id ∈ childrenOf edges nodeId then waiting edges placed id - 1
      else waiting edges placed id := by
  have hsplit : (edges.filter fun edge => edge.2 = id ∧ edge.1 ∉ placed ++ [nodeId]) =
      (edges.filter fun edge => edge.2 = id ∧ edge.1 ∉ placed).filter
        fun edge => edge ≠ (nodeId, id) := by
    rw [List.filter_filter]
    refine List.filter_congr fun edge _ => ?_
    obtain ⟨p, c⟩ := edge
    simp only [List.mem_append, List.mem_singleton, not_or, ne_eq, Prod.mk.injEq, Bool.decide_and,
      decide_not]
    by_cases hc : c = id <;> simp [hc, Bool.and_comm]
  unfold waiting
  rw [hsplit]
  split
  · rename_i hchild
    have hedge := mem_childrenOf.mp hchild
    rw [← List.length_erase_of_mem (a := (nodeId, id)), (hedges.filter _).erase_eq_filter]
    · congr 1
      exact List.filter_congr fun edge _ => by simp [bne, beq_eq_decide]
    · simp [hedge, hnew]
  · rename_i hchild
    congr 1
    rw [List.filter_eq_self]
    intro edge hmem
    have hedge := (List.mem_filter.mp hmem).1
    rw [decide_eq_true_eq]
    rintro rfl
    exact hchild (mem_childrenOf.mpr hedge)

end Edges

/-! ## The loop -/

/-- `placed` is behind the heap, and what is on the heap waits for nobody. -/
structure Placing (nodeIds : List String) (edges : Edges) (placed ready : List String)
    (remaining : String → Nat) : Prop where
  nodup : (placed ++ ready).Nodup
  known : ready ⊆ nodeIds
  count : ∀ id, remaining id = waiting edges placed id
  parents : ∀ id ∈ placed ++ ready, ∀ parent, (parent, id) ∈ edges → parent ∈ placed

/-- Every node of the list comes behind its parents. -/
def ParentsFirst (edges : Edges) (placed order : List String) : Prop :=
  ∀ before nodeId after, order = before ++ nodeId :: after →
    ∀ parent, (parent, nodeId) ∈ edges → parent ∈ placed ++ before

section Loop

variable {nodeIds : List String} {edges : Edges}

theorem Placing.place {placed rest : List String} {nodeId : String} {remaining : String → Nat}
    (hedges : edges.Nodup) (hknown : ∀ edge ∈ edges, edge.2 ∈ nodeIds)
    (h : Placing nodeIds edges placed (nodeId :: rest) remaining)
    {left : String → Nat} (hleft : ∀ id, left id =
      if id ∈ childrenOf edges nodeId then remaining id - 1 else remaining id) :
    Placing nodeIds edges (placed ++ [nodeId])
      (rest ++ (childrenOf edges nodeId).filter fun child => left child = 0) left := by
  have hnodup := h.nodup
  rw [← List.singleton_append, ← List.append_assoc] at hnodup
  have hnew : nodeId ∉ placed := fun hmem =>
    (List.disjoint_of_nodup_append h.nodup) hmem List.mem_cons_self
  have hcount : ∀ id, left id = waiting edges (placed ++ [nodeId]) id := by
    intro id
    rw [waiting_placed hedges hnew, hleft, h.count]
  -- a child waits for the node, so it is neither placed nor on the heap
  have hfresh : ∀ child ∈ childrenOf edges nodeId, child ∉ placed ++ nodeId :: rest :=
    fun child hchild hmem => hnew (h.parents child hmem nodeId (mem_childrenOf.mp hchild))
  refine ⟨?_, ?_, hcount, ?_⟩
  · rw [← List.append_assoc]
    refine List.nodup_append'.mpr ⟨hnodup, (nodup_childrenOf hedges).filter _, ?_⟩
    intro id hold hchild
    refine hfresh id (List.mem_filter.mp hchild).1 ?_
    simpa [or_assoc] using hold
  · refine List.append_subset.mpr ⟨fun id hid => h.known (List.mem_cons_of_mem _ hid), ?_⟩
    intro child hchild
    exact hknown _ (mem_childrenOf.mp (List.mem_filter.mp hchild).1)
  · intro id hid parent hedge
    rw [← List.append_assoc, List.mem_append] at hid
    rcases hid with hold | hchild
    · refine List.mem_append_left _ (h.parents id ?_ parent hedge)
      simpa [or_assoc] using hold
    · have hzero := of_decide_eq_true (List.mem_filter.mp hchild).2
      rw [hcount] at hzero
      exact waiting_eq_zero_iff.mp hzero parent hedge

theorem Placing.perm {placed ready sorted : List String} {remaining : String → Nat}
    (hperm : sorted.Perm ready) (h : Placing nodeIds edges placed ready remaining) :
    Placing nodeIds edges placed sorted remaining where
  nodup := (hperm.append_left placed).nodup_iff.mpr h.nodup
  known := fun _ hid => h.known (hperm.mem_iff.mp hid)
  count := h.count
  parents := fun id hid => h.parents id ((hperm.append_left placed).mem_iff.mp hid)

theorem kahn_nil {placed ready : List String} {remaining : String → Nat}
    (h : Placing nodeIds edges placed ready remaining) :
    (placed ++ []).Nodup ∧ ([] : List String) ⊆ nodeIds ∧ ParentsFirst edges placed [] := by
  refine ⟨?_, by simp, ?_⟩
  · rw [List.append_nil]
    exact (List.nodup_append'.mp h.nodup).1
  · intro before nodeId after heq
    simp at heq

theorem kahnLoop_places (hedges : edges.Nodup) (hknown : ∀ edge ∈ edges, edge.2 ∈ nodeIds)
    (fuel : Nat) {placed ready : List String} {remaining : String → Nat}
    (h : Placing nodeIds edges placed ready remaining) :
    (placed ++ kahnLoop edges fuel ready remaining).Nodup ∧
      kahnLoop edges fuel ready remaining ⊆ nodeIds ∧
      ParentsFirst edges placed (kahnLoop edges fuel ready remaining) := by
  induction fuel generalizing placed ready remaining with
  | zero => exact kahn_nil h
  | succ fuel ih =>
    rw [kahnLoop]
    have hsorted := h.perm (List.perm_insertionSort (· ≤ ·) ready)
    generalize ready.insertionSort (· ≤ ·) = sorted at hsorted
    cases sorted with
    | nil => exact kahn_nil h
    | cons nodeId rest =>
      dsimp only
      have hnext := hsorted.place hedges hknown (fun _ => rfl)
      obtain ⟨hnodup, hsub, hfirst⟩ := ih hnext
      refine ⟨by simpa using hnodup, ?_, ?_⟩
      · exact List.cons_subset.mpr ⟨hsorted.known List.mem_cons_self, hsub⟩
      · intro before id after heq parent hedge
        rcases before with _ | ⟨first, before⟩
        · obtain ⟨rfl, -⟩ := List.cons.inj heq
          rw [List.append_nil]
          exact hsorted.parents _ (List.mem_append_right _ List.mem_cons_self) parent hedge
        · obtain ⟨rfl, hrest⟩ := List.cons.inj heq
          simpa using hfirst before id after hrest parent hedge

theorem placing_start (hids : nodeIds.Nodup) : Placing nodeIds edges []
    (nodeIds.filter fun id => (parentsOf edges id).length = 0)
    fun id => (parentsOf edges id).length where
  nodup := hids.filter _
  known := List.filter_subset_self _
  count := fun _ => length_parentsOf
  parents := by
    intro id hid parent hedge
    have hzero := of_decide_eq_true (List.mem_filter.mp hid).2
    rw [length_parentsOf] at hzero
    exact waiting_eq_zero_iff.mp hzero parent hedge

theorem kahnOrder_spec (hids : nodeIds.Nodup) (hedges : edges.Nodup)
    (hknown : ∀ edge ∈ edges, edge.2 ∈ nodeIds) : (kahnOrder nodeIds edges).Nodup ∧
      kahnOrder nodeIds edges ⊆ nodeIds ∧ ParentsFirst edges [] (kahnOrder nodeIds edges) :=
  kahnLoop_places hedges hknown nodeIds.length (placing_start hids)

end Loop

/-! ## Acyclic graphs -/

namespace EditGraph

variable {graph : EditGraph}

theorem topologicalOrder_spec (graph : EditGraph) : graph.topologicalOrder.Nodup ∧
    graph.topologicalOrder ⊆ graph.nodeIds ∧
    ParentsFirst graph.edges [] graph.topologicalOrder :=
  kahnOrder_spec graph.distinct graph.noDuplicate fun edge hedge => (graph.endpoints edge hedge).2

theorem mem_topologicalOrder {nodeId : String} :
    nodeId ∈ graph.topologicalOrder ↔ nodeId ∈ graph.nodeIds := by
  obtain ⟨hnodup, hsub, -⟩ := graph.topologicalOrder_spec
  have hlength : graph.nodeIds.length ≤ graph.topologicalOrder.length := by
    unfold nodeIds
    rw [List.length_map]
    exact graph.acyclic.ge
  exact ((List.subperm_of_subset hnodup hsub).perm_of_length_le hlength).mem_iff

end EditGraph

end Solweig.Planner
