import Mathlib.Data.List.Sort
import Mathlib.Data.String.Basic
import Solweig.Lib.Closure

/-!
# The edit graph

The acyclic graph of sources, stages, outputs and views that edits invalidate.
-/

namespace Solweig.Planner

open Solweig.Lib

inductive NodeKind where
  | source
  | derived
  | stateful
  | output
  | view
  deriving DecidableEq

structure GraphNode where
  nodeId : String
  kind : NodeKind
  deriving DecidableEq

abbrev Edges := List (String × String)

def childrenOf (edges : Edges) (nodeId : String) : List String :=
  ((edges.filter fun edge => edge.1 = nodeId).map (·.2)).insertionSort (· ≤ ·)

def parentsOf (edges : Edges) (nodeId : String) : List String :=
  ((edges.filter fun edge => edge.2 = nodeId).map (·.1)).insertionSort (· ≤ ·)

theorem mem_childrenOf {edges : Edges} {nodeId child : String} :
    child ∈ childrenOf edges nodeId ↔ (nodeId, child) ∈ edges := by
  unfold childrenOf
  simp [List.mem_insertionSort]

/-! ## The order -/

/-- Kahn's algorithm. `ready` is the heap, `remaining` the parents that are not placed yet. -/
def kahnLoop (edges : Edges) : Nat → List String → (String → Nat) → List String
  | 0, _, _ => []
  | fuel + 1, ready, remaining =>
    match ready.insertionSort (· ≤ ·) with
    | [] => []
    | nodeId :: rest =>
      let children := childrenOf edges nodeId
      let left := fun id => if id ∈ children then remaining id - 1 else remaining id
      nodeId :: kahnLoop edges fuel (rest ++ children.filter fun child => left child = 0) left

/-- `_kahn_order`: each turn places a node, so there are no more turns than nodes. -/
def kahnOrder (nodeIds : List String) (edges : Edges) : List String :=
  kahnLoop edges nodeIds.length (nodeIds.filter fun id => (parentsOf edges id).length = 0)
    fun id => (parentsOf edges id).length

/-! ## Graphs -/

structure EditGraph where
  nodes : List GraphNode
  edges : Edges
  named : ∀ node ∈ nodes, node.nodeId ≠ ""
  distinct : (nodes.map (·.nodeId)).Nodup
  endpoints : ∀ edge ∈ edges, edge.1 ∈ nodes.map (·.nodeId) ∧ edge.2 ∈ nodes.map (·.nodeId)
  noSelfEdge : ∀ edge ∈ edges, edge.1 ≠ edge.2
  noDuplicate : edges.Nodup
  acyclic : (kahnOrder (nodes.map (·.nodeId)) edges).length = nodes.length

namespace EditGraph

variable (graph : EditGraph)

def nodeIds : List String := graph.nodes.map (·.nodeId)

/-- `none` for an unknown node, which raises. -/
def kind? (nodeId : String) : Option NodeKind :=
  (graph.nodes.find? fun node => node.nodeId = nodeId).map (·.kind)

def isExecutable (nodeId : String) : Bool :=
  (graph.kind? nodeId).any fun kind => kind ≠ .source ∧ kind ≠ .view

def parents (nodeId : String) : List String := parentsOf graph.edges nodeId

def children (nodeId : String) : List String := childrenOf graph.edges nodeId

def topologicalOrder : List String := kahnOrder graph.nodeIds graph.edges

/-- The consumers of the nodes, and theirs, with the nodes. -/
def downstream (nodeIds : List String) : List String :=
  closure graph.children graph.nodeIds.length nodeIds

/-- There is a path from one node to another. -/
def Reaches (source nodeId : String) : Prop :=
  Relation.ReflTransGen (fun producer consumer => (producer, consumer) ∈ graph.edges) source nodeId

variable {graph} {nodeId child : String}

theorem mem_children : child ∈ graph.children nodeId ↔ (nodeId, child) ∈ graph.edges :=
  mem_childrenOf

theorem mem_downstream {sources : List String} (hsources : sources ⊆ graph.nodeIds) :
    nodeId ∈ graph.downstream sources ↔ ∃ source ∈ sources, graph.Reaches source nodeId := by
  have hchildren : ∀ id ∈ graph.nodeIds, graph.children id ⊆ graph.nodeIds :=
    fun id _ child hchild => (graph.endpoints _ (mem_children.mp hchild)).2
  unfold downstream Reaches
  rw [mem_closure hsources hchildren]
  simp only [mem_children]

end EditGraph

/-! ## The canonical graph -/

def graphNodes : List GraphNode := [
  ⟨"dem", .source⟩,
  ⟨"building_dsm", .source⟩,
  ⟨"vegetation_dsm", .source⟩,
  ⟨"landcover", .source⟩,
  ⟨"meteorology", .source⟩,
  ⟨"selected_date_time", .source⟩,
  ⟨"wind_coefficients", .source⟩,
  ⟨"model_parameters", .source⟩,
  ⟨"output_selection", .view⟩,
  ⟨"relative_geometry", .derived⟩,
  ⟨"walls", .derived⟩,
  ⟨"wall_aspect", .derived⟩,
  ⟨"building_visibility", .derived⟩,
  ⟨"vegetation_visibility", .derived⟩,
  ⟨"svf", .derived⟩,
  ⟨"solar_atmospheric_state", .derived⟩,
  ⟨"time_shadow", .derived⟩,
  ⟨"radiation", .derived⟩,
  ⟨"surface_thermal_state", .stateful⟩,
  ⟨"tmrt", .output⟩,
  ⟨"utci", .output⟩,
  ⟨"wbgt", .output⟩]

def graphEdges : Edges := [
  ("dem", "relative_geometry"),
  ("building_dsm", "relative_geometry"),
  ("vegetation_dsm", "relative_geometry"),
  ("building_dsm", "walls"),
  ("building_dsm", "wall_aspect"),
  ("building_dsm", "building_visibility"),
  ("dem", "vegetation_visibility"),
  ("relative_geometry", "vegetation_visibility"),
  ("vegetation_dsm", "vegetation_visibility"),
  ("building_visibility", "svf"),
  ("vegetation_visibility", "svf"),
  ("meteorology", "solar_atmospheric_state"),
  ("selected_date_time", "solar_atmospheric_state"),
  ("solar_atmospheric_state", "time_shadow"),
  ("building_visibility", "time_shadow"),
  ("vegetation_visibility", "time_shadow"),
  ("walls", "time_shadow"),
  ("wall_aspect", "time_shadow"),
  ("svf", "radiation"),
  ("time_shadow", "radiation"),
  ("landcover", "radiation"),
  ("meteorology", "radiation"),
  ("model_parameters", "radiation"),
  ("landcover", "surface_thermal_state"),
  ("meteorology", "surface_thermal_state"),
  ("radiation", "surface_thermal_state"),
  ("radiation", "tmrt"),
  ("surface_thermal_state", "tmrt"),
  ("meteorology", "tmrt"),
  ("tmrt", "utci"),
  ("meteorology", "utci"),
  ("wind_coefficients", "utci"),
  ("tmrt", "wbgt"),
  ("meteorology", "wbgt"),
  ("wind_coefficients", "wbgt"),
  ("time_shadow", "wbgt")]

def defaultEditGraph : EditGraph where
  nodes := graphNodes
  edges := graphEdges
  named := by decide +kernel
  distinct := by decide +kernel
  endpoints := by decide +kernel
  noSelfEdge := by decide +kernel
  noDuplicate := by decide +kernel
  acyclic := by decide +kernel

end Solweig.Planner
