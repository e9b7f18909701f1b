import Mathlib.Algebra.Order.Ring.Rat
import Solweig.Lib.Dict
import Solweig.Lib.Fold
import Solweig.Planner.Deltas

/-!
# The tree layer

The edited trees of a scenario with the log of their edits, how edits are coalesced, and how a
batch is replayed into the layer and undone.
-/

namespace Solweig.Executor

open Solweig.Lib Solweig.Planner

structure TreeSpec where
  treeId : String
  xM : Rat
  yM : Rat
  heightM : Rat
  canopyRadiusM : Rat
  trunkRatio : Rat
  transmissivity : Rat
  deriving DecidableEq

inductive TreeError where
  | height (value : Rat)
  | canopyRadius (value : Rat)
  | trunkRatio (value : Rat)
  | transmissivity (value : Rat)
  | alreadyExists (treeId : String)
  | unknownTree (treeId : String)
  | noFields
  | emptyEdits
  | repeatedSequence
  | notAnEdit (treeId : String)
  | chain (error : DeltaError)
  /-- Preflight: an add of a live tree, a delete or a change of one that is not there. -/
  | readd (treeId : String)
  | deleteUnknown (treeId : String)
  | notContiguous (treeId : String)

/-- `validate_tree_spec`; exact values are finite. -/
def validateTreeSpec (tree : TreeSpec) : Except TreeError Unit := do
  refuseIf (tree.heightM ≤ 0) (.height tree.heightM)
  refuseIf (tree.canopyRadiusM ≤ 0) (.canopyRadius tree.canopyRadiusM)
  refuseIf (¬ (0 ≤ tree.trunkRatio ∧ tree.trunkRatio < 1)) (.trunkRatio tree.trunkRatio)
  refuseIf (¬ (0 ≤ tree.transmissivity ∧ tree.transmissivity ≤ 1))
    (.transmissivity tree.transmissivity)

/-- What a spec checks when it is made: the trunk may reach the top of the canopy here. -/
def postInit (tree : TreeSpec) : Except TreeError Unit := do
  refuseIf (tree.heightM ≤ 0) (.height tree.heightM)
  refuseIf (tree.canopyRadiusM ≤ 0) (.canopyRadius tree.canopyRadiusM)
  refuseIf (¬ (0 ≤ tree.trunkRatio ∧ tree.trunkRatio ≤ 1)) (.trunkRatio tree.trunkRatio)
  refuseIf (¬ (0 ≤ tree.transmissivity ∧ tree.transmissivity ≤ 1))
    (.transmissivity tree.transmissivity)

theorem postInit_ok {tree : TreeSpec} {u : Unit} : postInit tree = .ok u ↔
    0 < tree.heightM ∧ 0 < tree.canopyRadiusM ∧ (0 ≤ tree.trunkRatio ∧ tree.trunkRatio ≤ 1) ∧
      0 ≤ tree.transmissivity ∧ tree.transmissivity ≤ 1 := by
  unfold postInit
  simp only [except_bind_ok, refuseIf_ok, not_le, not_not, exists_const]

theorem validateTreeSpec_ok {tree : TreeSpec} {u : Unit} : validateTreeSpec tree = .ok u ↔
    0 < tree.heightM ∧ 0 < tree.canopyRadiusM ∧ (0 ≤ tree.trunkRatio ∧ tree.trunkRatio < 1) ∧
      0 ≤ tree.transmissivity ∧ tree.transmissivity ≤ 1 := by
  unfold validateTreeSpec
  simp only [except_bind_ok, refuseIf_ok, not_le, not_not, exists_const]

/-! ## Edits -/

structure TreeEdit where
  sequence : Nat
  treeId : String
  oldTree : Option TreeSpec
  newTree : Option TreeSpec
  present : ¬ (oldTree = none ∧ newTree = none)
  sameTree : ∀ tree ∈ oldTree.toList ++ newTree.toList, tree.treeId = treeId
  deriving DecidableEq

def TreeEdit.make (sequence : Nat) (treeId : String) (oldTree newTree : Option TreeSpec) :
    Except TreeError TreeEdit :=
  if h : ¬ (oldTree = none ∧ newTree = none) ∧
      ∀ tree ∈ oldTree.toList ++ newTree.toList, tree.treeId = treeId then
    .ok ⟨sequence, treeId, oldTree, newTree, h.1, h.2⟩
  else .error (.notAnEdit treeId)

theorem TreeEdit.make_ok {sequence : Nat} {treeId : String} {oldTree newTree : Option TreeSpec}
    {edit : TreeEdit} : TreeEdit.make sequence treeId oldTree newTree = .ok edit ↔
      edit.sequence = sequence ∧ edit.treeId = treeId ∧ edit.oldTree = oldTree ∧
        edit.newTree = newTree := by
  unfold TreeEdit.make
  constructor
  · intro h
    split at h
    · cases h
      exact ⟨rfl, rfl, rfl, rfl⟩
    · cases h
  · rintro ⟨rfl, rfl, rfl, rfl⟩
    rw [dif_pos ⟨edit.present, edit.sameTree⟩]

/-- The states of an edit, as a change of an object. -/
def TreeEdit.change (edit : TreeEdit) : ObjectStateChange TreeSpec :=
  ⟨edit.treeId, edit.oldTree, edit.newTree, edit.present⟩

structure CoalescedEditBatch where
  firstSequence : Nat
  lastSequence : Nat
  edits : List TreeEdit

/-- The net edit of one tree, if there is one. -/
def netEdit (merged : String × (Option TreeSpec × Nat) × Option TreeSpec × Nat) :
    Option TreeEdit :=
  if merged.2.1.1 = none ∧ merged.2.2.1 = none then none
  else if merged.2.1.1 = merged.2.2.1 then none
  else (TreeEdit.make merged.2.2.2 merged.1 merged.2.1.1 merged.2.2.1).toOption

/-- First and last state of each tree of some edits in order. -/
def mergedStates (edits : List TreeEdit) :
    List (String × (Option TreeSpec × Nat) × Option TreeSpec × Nat) :=
  firstAndLast (edits.map fun edit =>
    (edit.treeId, (edit.oldTree, edit.sequence), (edit.newTree, edit.sequence)))

def coalesceTreeEdits (edits : List TreeEdit) : Except TreeError CoalescedEditBatch := do
  let ordered := edits.insertionSort fun a b => a.sequence ≤ b.sequence
  refuseIf (ordered = []) .emptyEdits
  refuseIf (¬ (ordered.map (·.sequence)).Nodup) .repeatedSequence
  (contiguous [] (ordered.map (·.change))).mapError .chain
  pure
    { firstSequence := ((ordered.head?).map (·.sequence)).getD 0
      lastSequence := ((ordered.getLast?).map (·.sequence)).getD 0
      edits := ((mergedStates ordered).filterMap netEdit).insertionSort
        fun a b => a.sequence ≤ b.sequence }

/-! ## The layer -/

structure TreeLayer where
  edits : List TreeEdit
  live : Dict String TreeSpec
  sequence : Nat

def TreeLayer.empty : TreeLayer := ⟨[], ∅, 0⟩

/-- The live trees after an edit. -/
def setTree (live : Dict String TreeSpec) (treeId : String) (tree : Option TreeSpec) :
    Dict String TreeSpec :=
  match tree with
  | some tree => live.insert treeId tree
  | none => live.erase treeId

/-- The editable properties that `update_tree` takes, those that change. -/
structure TreeChanges where
  heightM : Option Rat
  canopyRadiusM : Option Rat
  trunkRatio : Option Rat
  transmissivity : Option Rat
  deriving DecidableEq

def TreeChanges.none : TreeChanges := ⟨.none, .none, .none, .none⟩

/-- `replace(tree, **changes)` -/
def TreeChanges.applyTo (changes : TreeChanges) (tree : TreeSpec) : TreeSpec :=
  { tree with
    heightM := changes.heightM.getD tree.heightM
    canopyRadiusM := changes.canopyRadiusM.getD tree.canopyRadiusM
    trunkRatio := changes.trunkRatio.getD tree.trunkRatio
    transmissivity := changes.transmissivity.getD tree.transmissivity }

/-- The properties that differ, as they are after. -/
def changesBetween (before after : TreeSpec) : TreeChanges where
  heightM := if after.heightM ≠ before.heightM then some after.heightM else none
  canopyRadiusM := if after.canopyRadiusM ≠ before.canopyRadiusM then some after.canopyRadiusM else none
  trunkRatio := if after.trunkRatio ≠ before.trunkRatio then some after.trunkRatio else none
  transmissivity :=
    if after.transmissivity ≠ before.transmissivity then some after.transmissivity else none

/-- The public mutators of the layer. -/
inductive Mutation where
  | addTree (tree : TreeSpec)
  | moveTree (treeId : String) (xM yM : Rat)
  | updateTree (treeId : String) (changes : TreeChanges)
  | deleteTree (treeId : String)
  deriving DecidableEq

namespace TreeLayer

def record (layer : TreeLayer) (treeId : String) (oldTree newTree : Option TreeSpec) :
    Except TreeError TreeLayer :=
  (TreeEdit.make (layer.sequence + 1) treeId oldTree newTree).map fun edit =>
    ⟨layer.edits ++ [edit], setTree layer.live treeId newTree, layer.sequence + 1⟩

def requireTree (layer : TreeLayer) (treeId : String) : Except TreeError TreeSpec :=
  match layer.live[treeId]? with
  | some tree => .ok tree
  | none => .error (.unknownTree treeId)

def mutate (layer : TreeLayer) : Mutation → Except TreeError TreeLayer
  | .addTree tree => do
    validateTreeSpec tree
    refuseIf (layer.live[tree.treeId]? ≠ none) (.alreadyExists tree.treeId)
    layer.record tree.treeId none (some tree)
  | .moveTree treeId xM yM => do
    let current ← layer.requireTree treeId
    layer.record treeId (some current) (some { current with xM := xM, yM := yM })
  | .updateTree treeId changes => do
    let current ← layer.requireTree treeId
    refuseIf (changes = .none) .noFields
    postInit (changes.applyTo current)
    layer.record treeId (some current) (some (changes.applyTo current))
  | .deleteTree treeId => do
    let current ← layer.requireTree treeId
    layer.record treeId (some current) none

/-- Mutations one after another, up to the first that raises. -/
def mutateAll : TreeLayer → List Mutation → TreeLayer × Except TreeError Unit
  | layer, [] => (layer, .ok ())
  | layer, mutation :: mutations =>
    match layer.mutate mutation with
    | .ok layer => layer.mutateAll mutations
    | .error error => (layer, .error error)

end TreeLayer

/-! ## Replay and undo -/

/-- A move where the position differs, then an update where another property does. -/
def changeMutations (treeId : String) (before after : TreeSpec) : List Mutation :=
  (if (after.xM, after.yM) ≠ (before.xM, before.yM) then [.moveTree treeId after.xM after.yM] else []) ++
  (if changesBetween before after ≠ .none then [.updateTree treeId (changesBetween before after)] else [])

def replayMutations (edit : TreeEdit) : List Mutation :=
  match edit.oldTree, edit.newTree with
  | none, some new => [.addTree new]
  | some _, none => [.deleteTree edit.treeId]
  | some old, some new => changeMutations edit.treeId old new
  | none, none => []

def undoMutations (edit : TreeEdit) : List Mutation :=
  match edit.oldTree, edit.newTree with
  | none, some _ => [.deleteTree edit.treeId]
  | some old, none => [.addTree old]
  | some old, some new => changeMutations edit.treeId new old
  | none, none => []

/-- One edit of the preflight, on a scratch map. It looks at which trees are there, not at
their states. -/
def preflightEdit (live : Dict String TreeSpec) (edit : TreeEdit) :
    Except TreeError (Dict String TreeSpec) :=
  match edit.oldTree, edit.newTree with
  | none, some new =>
    if live[edit.treeId]? ≠ none then .error (.readd edit.treeId)
    else .ok (live.insert edit.treeId new)
  | some _, none =>
    if live[edit.treeId]? = none then .error (.deleteUnknown edit.treeId)
    else .ok (live.erase edit.treeId)
  | some _, some new =>
    if live[edit.treeId]? = none then .error (.notContiguous edit.treeId)
    else .ok (live.insert edit.treeId new)
  | none, none => .ok live

/-- `_replay_tree_edits` -/
def replayTreeEdits (layer : TreeLayer) (edits : List TreeEdit) : TreeLayer × Except TreeError Unit :=
  match edits.foldlM preflightEdit layer.live with
  | .error error => (layer, .error error)
  | .ok _ => layer.mutateAll (edits.flatMap replayMutations)

/-- `_undo_tree_edits` -/
def undoTreeEdits (layer : TreeLayer) (edits : List TreeEdit) : TreeLayer × Except TreeError Unit :=
  layer.mutateAll (edits.reverse.flatMap undoMutations)

end Solweig.Executor
