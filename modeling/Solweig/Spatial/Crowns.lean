import Mathlib.Tactic.Linarith
import Mathlib.Tactic.Positivity
import Solweig.Executor.Coalescing
import Solweig.Lib.Greatest
import Solweig.Spatial.Footprints
import Solweig.Spatial.Geometry

/-!
# Tree crowns

The canopy and the trunk plane of a window: the base vegetation and the crown discs of the live
trees, which combine with `maximum`. Lengths are exact.
-/

namespace Solweig.Spatial

open Solweig.Lib Solweig.Executor
open Solweig.Planner (RasterWindow)

/-- A canopy and a trunk plane, above ground. -/
structure VegetationRasters where
  rows : Nat
  cols : Nat
  canopy : Nat → Nat → Rat
  trunk : Nat → Nat → Rat

/-- `BASE_TRUNK_FRACTION` -/
def baseTrunkFraction : Rat := 1 / 4

def crownBounds (tree : TreeSpec) (grid : RasterGrid) : RawBounds where
  colLo := ⌊(tree.xM - tree.canopyRadiusM - grid.originXM) / grid.pixelSize - 1 / 2⌋ - 1
  colHi := ⌈(tree.xM + tree.canopyRadiusM - grid.originXM) / grid.pixelSize - 1 / 2⌉ + 1
  rowLo := ⌊(grid.originYM - tree.yM - tree.canopyRadiusM) / grid.pixelSize - 1 / 2⌋ - 1
  rowHi := ⌈(grid.originYM - tree.yM + tree.canopyRadiusM) / grid.pixelSize - 1 / 2⌉ + 1

/-- The crown as a set of points. -/
def InDisc (tree : TreeSpec) (c : Point Rat) : Prop := InCrown tree c.1 c.2

instance (tree : TreeSpec) (c : Point Rat) : Decidable (InDisc tree c) :=
  inferInstanceAs (Decidable (_ ≤ _))

def rasterizeTreePatch (tree : TreeSpec) (grid : RasterGrid) (window : RasterWindow) :
    VegetationRasters :=
  let raw := crownBounds tree grid
  let colLo := max raw.colLo window.colStart
  let colHi := min raw.colHi window.colStop
  let rowLo := max raw.rowLo window.rowStart
  let rowHi := min raw.rowHi window.rowStop
  let rows := (window.rowStop - window.rowStart).toNat
  let cols := (window.colStop - window.colStart).toNat
  if colLo ≥ colHi ∨ rowLo ≥ rowHi then
    { rows, cols, canopy := fun _ _ => 0, trunk := fun _ _ => 0 }
  else
    let inside (row col : Int) : Bool :=
      ((rowLo ≤ row ∧ row < rowHi) ∧ colLo ≤ col ∧ col < colHi) ∧
        InDisc tree (grid.centre row col)
    { rows, cols
      canopy := fun i j =>
        if inside (window.rowStart + i) (window.colStart + j) then tree.heightM else 0
      trunk := fun i j =>
        if inside (window.rowStart + i) (window.colStart + j) then tree.trunkRatio * tree.heightM
        else 0 }

inductive RasterizeError where
  | outsideGrid (window : RasterWindow)
  deriving DecidableEq

/-- `_check_window` -/
def checkWindow (grid : RasterGrid) (window : RasterWindow) : Except RasterizeError Unit :=
  refuseIf (¬ ((0 ≤ window.rowStart ∧ window.rowStart ≤ window.rowStop ∧
        window.rowStop ≤ grid.rows) ∧
      0 ≤ window.colStart ∧ window.colStart ≤ window.colStop ∧ window.colStop ≤ grid.cols))
    (.outsideGrid window)

/-- The base vegetation of a layer, on its grid. -/
abbrev BaseVegetation := Nat → Nat → Rat

/-- `current_trees`: the live trees in the order of their ids -/
def currentTrees (layer : TreeLayer) : List TreeSpec := layer.live.toList.map (·.2)

/-- One tree painted over what is there. -/
def paintTree (grid : RasterGrid) (window : RasterWindow) (planes : VegetationRasters)
    (tree : TreeSpec) : VegetationRasters :=
  let patch := rasterizeTreePatch tree grid window
  { planes with
    canopy := fun i j => max (planes.canopy i j) (patch.canopy i j)
    trunk := fun i j => max (planes.trunk i j) (patch.trunk i j) }

def vegetationRastersWindow (base : BaseVegetation) (grid : RasterGrid) (layer : TreeLayer)
    (window : RasterWindow) : Except RasterizeError VegetationRasters := do
  checkWindow grid window
  let crop : BaseVegetation := fun i j =>
    base (window.rowStart + i).toNat (window.colStart + j).toNat
  pure ((currentTrees layer).foldl (paintTree grid window)
    { rows := (window.rowStop - window.rowStart).toNat
      cols := (window.colStop - window.colStart).toNat
      canopy := crop
      trunk := fun i j => crop i j * baseTrunkFraction })

/-! ## The box of a crown -/

section Box

variable {tree : TreeSpec} {grid : RasterGrid} {window : RasterWindow}

theorem between_floor_ceil {k : Int} {lo hi pixel : Rat} (hpixel : 0 < pixel)
    (hlo : lo ≤ (k + 1 / 2) * pixel) (hhi : (k + 1 / 2) * pixel ≤ hi) :
    ⌊lo / pixel - 1 / 2⌋ - 1 ≤ k ∧ k < ⌈hi / pixel - 1 / 2⌉ + 1 := by
  have hlow : lo / pixel - 1 / 2 ≤ k := by
    rw [sub_le_iff_le_add, div_le_iff₀ hpixel]
    exact hlo
  have hhigh : (k : Rat) ≤ hi / pixel - 1 / 2 := by
    rw [le_sub_iff_add_le, le_div_iff₀ hpixel]
    exact hhi
  have hfloor := Int.floor_le_floor hlow
  have hceil := Int.ceil_le_ceil hhigh
  rw [Int.floor_intCast] at hfloor
  rw [Int.ceil_intCast] at hceil
  omega

theorem crownBounds_of_inDisc (hradius : 0 ≤ tree.canopyRadiusM) {row col : Int}
    (h : InDisc tree (grid.centre row col)) :
    ((crownBounds tree grid).rowLo ≤ row ∧ row < (crownBounds tree grid).rowHi) ∧
      (crownBounds tree grid).colLo ≤ col ∧ col < (crownBounds tree grid).colHi := by
  have hx := abs_le.mp (abs_le_of_sq hradius h)
  have hy := abs_le.mp (abs_le_of_sq hradius (by rwa [add_comm]))
  unfold RasterGrid.centre at hx hy
  constructor
  · apply between_floor_ceil grid.pixelPos
    · linarith only [hy.2]
    · linarith only [hy.1]
  · apply between_floor_ceil grid.pixelPos
    · linarith only [hx.1]
    · linarith only [hx.2]

variable (grid) in
theorem rasterizeTreePatch_eq (hradius : 0 ≤ tree.canopyRadiusM) {i j : Nat}
    (hi : i < (window.rowStop - window.rowStart).toNat)
    (hj : j < (window.colStop - window.colStart).toNat) :
    let crown := InDisc tree (grid.centre (window.rowStart + i) (window.colStart + j))
    (rasterizeTreePatch tree grid window).canopy i j = (if crown then tree.heightM else 0) ∧
      (rasterizeTreePatch tree grid window).trunk i j =
        (if crown then tree.trunkRatio * tree.heightM else 0) := by
  intro crown
  have hbox : crown → _ := crownBounds_of_inDisc hradius
  unfold rasterizeTreePatch
  by_cases hcrown : crown
  · obtain ⟨hrow, hcol⟩ := hbox hcrown
    rw [if_neg (by omega)]
    simp only [decide_eq_true_eq]
    rw [if_pos hcrown, if_pos hcrown, if_pos, if_pos]
    · exact ⟨rfl, rfl⟩
    all_goals exact ⟨by omega, hcrown⟩
  · rw [if_neg hcrown, if_neg hcrown]
    dsimp only
    split
    · exact ⟨rfl, rfl⟩
    · simp only [decide_eq_true_eq]
      rw [if_neg (fun h => hcrown h.2), if_neg (fun h => hcrown h.2)]
      exact ⟨rfl, rfl⟩

end Box

/-! ## The planes of a window -/

section Planes

variable {base : BaseVegetation} {grid : RasterGrid} {layer layer' : TreeLayer}
  {window : RasterWindow} {planes : VegetationRasters} {i j : Nat}

/-- The centre of a cell of a window. -/
def centreIn (grid : RasterGrid) (window : RasterWindow) (i j : Nat) : Point Rat :=
  grid.centre (window.rowStart + i) (window.colStart + j)

def baseIn (base : BaseVegetation) (window : RasterWindow) (i j : Nat) : Rat :=
  base (window.rowStart + i).toNat (window.colStart + j).toNat

/-- The cells of a window, by their place in it. -/
def CellIn (window : RasterWindow) (i j : Nat) : Prop :=
  i < (window.rowStop - window.rowStart).toNat ∧ j < (window.colStop - window.colStart).toNat

instance (window : RasterWindow) (i j : Nat) : Decidable (CellIn window i j) :=
  inferInstanceAs (Decidable (_ ∧ _))

theorem mem_currentTrees {tree : TreeSpec} :
    tree ∈ currentTrees layer ↔ ∃ treeId : String, layer.live[treeId]? = some tree := by
  unfold currentTrees
  rw [List.mem_map]
  constructor
  · rintro ⟨entry, hentry, rfl⟩
    exact ⟨entry.1, Std.ExtTreeMap.mem_toList_iff_getElem?_eq_some.mp hentry⟩
  · rintro ⟨treeId, htree⟩
    exact ⟨(treeId, tree), Std.ExtTreeMap.mem_toList_iff_getElem?_eq_some.mpr htree, rfl⟩

/-- The trees that the constructor let through. -/
def LiveValid (layer : TreeLayer) : Prop :=
  ∀ tree ∈ currentTrees layer, postInit tree = .ok ()

theorem LiveValid.record {treeId : String} {old new : Option TreeSpec} (h : LiveValid layer)
    (hnew : ∀ tree ∈ new, postInit tree = .ok ())
    (hrecord : layer.record treeId old new = .ok layer') : LiveValid layer' := by
  obtain ⟨-, -, -, -, -, rfl⟩ := TreeLayer.record_ok hrecord
  intro tree htree
  obtain ⟨id, hid⟩ := mem_currentTrees.mp htree
  rw [getElem?_setTree] at hid
  split at hid
  · exact hnew tree hid
  · exact h tree (mem_currentTrees.mpr ⟨id, hid⟩)

theorem LiveValid.mutate {mutation : Mutation} (h : LiveValid layer)
    (hmutate : layer.mutate mutation = .ok layer') : LiveValid layer' := by
  have hlive {treeId : String} {tree : TreeSpec} (hid : layer.live[treeId]? = some tree) :=
    h tree (mem_currentTrees.mpr ⟨treeId, hid⟩)
  unfold TreeLayer.mutate at hmutate
  cases mutation with
  | addTree tree =>
    simp only [except_bind_ok] at hmutate
    obtain ⟨u, hvalid, -, -, hrecord⟩ := hmutate
    obtain ⟨hheight, hradius, hratio, htransmissivity⟩ := validateTreeSpec_ok.mp hvalid
    apply h.record _ hrecord
    rintro _ ⟨⟩
    exact postInit_ok.mpr ⟨hheight, hradius, ⟨hratio.1, hratio.2.le⟩, htransmissivity⟩
  | moveTree treeId xM yM =>
    simp only [except_bind_ok, TreeLayer.requireTree_ok] at hmutate
    obtain ⟨current, hcurrent, hrecord⟩ := hmutate
    have hvalid := postInit_ok.mp (hlive hcurrent)
    apply h.record _ hrecord
    rintro _ ⟨⟩
    exact postInit_ok.mpr hvalid
  | updateTree treeId changes =>
    simp only [except_bind_ok] at hmutate
    obtain ⟨current, -, -, -, u, hpost, hrecord⟩ := hmutate
    apply h.record _ hrecord
    rintro _ ⟨⟩
    exact hpost
  | deleteTree treeId =>
    simp only [except_bind_ok] at hmutate
    obtain ⟨current, -, hrecord⟩ := hmutate
    apply h.record _ hrecord
    rintro _ ⟨⟩

theorem LiveValid.mutateAll (h : LiveValid layer) (mutations : List Mutation) :
    LiveValid (layer.mutateAll mutations).1 := by
  induction mutations generalizing layer with
  | nil => exact h
  | cons mutation mutations ih =>
    unfold TreeLayer.mutateAll
    split
    · next next hmutate => exact ih (h.mutate hmutate)
    · exact h

theorem liveValid_after (mutations : List Mutation) (n : Nat) :
    LiveValid (TreeLayer.after mutations n) := by
  apply LiveValid.mutateAll
  intro tree htree
  obtain ⟨treeId, hid⟩ := mem_currentTrees.mp htree
  simp [TreeLayer.empty] at hid

theorem foldl_paintTree (trees : List TreeSpec) (planes : VegetationRasters) :
    trees.foldl (paintTree grid window) planes =
      { planes with
        canopy := fun i j => trees.foldl
          (fun m tree => max m ((rasterizeTreePatch tree grid window).canopy i j))
          (planes.canopy i j)
        trunk := fun i j => trees.foldl
          (fun m tree => max m ((rasterizeTreePatch tree grid window).trunk i j))
          (planes.trunk i j) } := by
  induction trees generalizing planes with
  | nil => rfl
  | cons tree trees ih =>
    rw [List.foldl_cons, ih]
    rfl

theorem checkWindow_ok {u : Unit} : checkWindow grid window = .ok u ↔
    (0 ≤ window.rowStart ∧ window.rowStop ≤ grid.rows) ∧
      0 ≤ window.colStart ∧ window.colStop ≤ grid.cols := by
  unfold checkWindow
  simp only [refuseIf_ok, not_not, window.rows, window.cols, true_and]

/-- The planes that are painted: at each cell, the maximum of the base and of what each live tree
puts there. -/
structure Painted (base : BaseVegetation) (grid : RasterGrid) (layer : TreeLayer)
    (window : RasterWindow) (planes : VegetationRasters) : Prop where
  rows : planes.rows = (window.rowStop - window.rowStart).toNat
  cols : planes.cols = (window.colStop - window.colStart).toNat
  canopy : ∀ i j, CellIn window i j → planes.canopy i j =
    overBackground (InDisc · (centreIn grid window i j)) TreeSpec.heightM 0 (currentTrees layer)
      (baseIn base window i j)
  trunk : ∀ i j, CellIn window i j → planes.trunk i j =
    overBackground (InDisc · (centreIn grid window i j))
      (fun tree => tree.trunkRatio * tree.heightM) 0 (currentTrees layer)
      (baseIn base window i j * baseTrunkFraction)

theorem vegetationRastersWindow_ok (base : BaseVegetation) (hvalid : LiveValid layer)
    (hwindow : checkWindow grid window = .ok ()) :
    ∃ planes, vegetationRastersWindow base grid layer window = .ok planes ∧
      Painted base grid layer window planes := by
  unfold vegetationRastersWindow
  rw [hwindow]
  refine ⟨_, rfl, ?_⟩
  rw [foldl_paintTree]
  have hpatch (tree : TreeSpec) (htree : tree ∈ currentTrees layer) {i j : Nat}
      (hcell : CellIn window i j) :=
    rasterizeTreePatch_eq grid (postInit_ok.mp (hvalid tree htree)).2.1.le
      hcell.1 hcell.2
  constructor
  · rfl
  · rfl
  · intro i j hcell
    apply List.foldl_ext
    intro m tree htree
    exact congrArg (max m) (hpatch tree htree hcell).1
  · intro i j hcell
    apply List.foldl_ext
    intro m tree htree
    exact congrArg (max m) (hpatch tree htree hcell).2

theorem Painted.crop {full : VegetationRasters} (hwindow : checkWindow grid window = .ok ())
    (h : Painted base grid layer window planes)
    (hfull : Painted base grid layer grid.fullWindow full) (hcell : CellIn window i j) :
    planes.canopy i j = full.canopy (window.rowStart + i).toNat (window.colStart + j).toNat ∧
      planes.trunk i j = full.trunk (window.rowStart + i).toNat (window.colStart + j).toNat := by
  obtain ⟨⟨hrow, hrows⟩, hcol, hcols⟩ := checkWindow_ok.mp hwindow
  obtain ⟨hi, hj⟩ := hcell
  have hplace : CellIn grid.fullWindow (window.rowStart + i).toNat (window.colStart + j).toNat := by
    unfold CellIn Planner.RasterGrid.fullWindow
    dsimp only
    omega
  have hrowStart : (0 : Int) + ((window.rowStart + i).toNat : Int) = window.rowStart + i := by
    omega
  have hcolStart : (0 : Int) + ((window.colStart + j).toNat : Int) = window.colStart + j := by
    omega
  have hcentre : centreIn grid grid.fullWindow (window.rowStart + i).toNat
      (window.colStart + j).toNat = centreIn grid window i j := by
    unfold centreIn Planner.RasterGrid.fullWindow
    rw [hrowStart, hcolStart]
  have hbase : baseIn base grid.fullWindow (window.rowStart + i).toNat
      (window.colStart + j).toNat = baseIn base window i j := by
    unfold baseIn Planner.RasterGrid.fullWindow
    rw [hrowStart, hcolStart]
  rw [h.canopy i j ⟨hi, hj⟩, h.trunk i j ⟨hi, hj⟩, hfull.canopy _ _ hplace,
    hfull.trunk _ _ hplace, hcentre, hbase]
  exact ⟨rfl, rfl⟩

/-- The live trees whose crown has the cell centre, with a quantity of theirs. -/
def crownValues (layer : TreeLayer) (c : Point Rat) (quantity : TreeSpec → Rat) : Set Rat :=
  {value | ∃ tree ∈ currentTrees layer, InDisc tree c ∧ quantity tree = value}

theorem seen_currentTrees (first : Rat) (c : Point Rat) (quantity : TreeSpec → Rat) :
    seen first (currentTrees layer) (InDisc · c) quantity =
      insert first (crownValues layer c quantity) := by
  unfold seen crownValues
  congr 1
  ext value
  simp only [Set.mem_image, Set.mem_ofPred_eq, and_assoc]

/-- What the planes should carry at a cell. -/
def ExactCell (base : BaseVegetation) (grid : RasterGrid) (layer : TreeLayer)
    (window : RasterWindow) (planes : VegetationRasters) (i j : Nat) : Prop :=
  IsGreatest (insert (baseIn base window i j)
      (crownValues layer (centreIn grid window i j) TreeSpec.heightM)) (planes.canopy i j) ∧
    IsGreatest (insert (baseIn base window i j * baseTrunkFraction)
      (crownValues layer (centreIn grid window i j) fun tree => tree.trunkRatio * tree.heightM))
      (planes.trunk i j)

/-- A live crown has the centre. -/
def Covered (layer : TreeLayer) (c : Point Rat) : Prop :=
  ∃ tree ∈ currentTrees layer, InDisc tree c

theorem trunkFraction_nonneg_iff (b : Rat) : 0 ≤ b * baseTrunkFraction ↔ 0 ≤ b := by
  unfold baseTrunkFraction
  constructor <;> intro h <;> linarith only [h]

theorem LiveValid.heights (h : LiveValid layer) {tree : TreeSpec}
    (htree : tree ∈ currentTrees layer) :
    0 ≤ tree.heightM ∧ 0 ≤ tree.trunkRatio * tree.heightM := by
  obtain ⟨hheight, -, hratio, -⟩ := postInit_ok.mp (h tree htree)
  exact ⟨hheight.le, mul_nonneg hratio.1 hheight.le⟩

/-- The zero background of the patches shows at the cells with a negative base and no crown, if
there is a live tree at all. -/
theorem Painted.exact_iff (hvalid : LiveValid layer) (h : Painted base grid layer window planes)
    (hcell : CellIn window i j) : ExactCell base grid layer window planes i j ↔
      0 ≤ baseIn base window i j ∨ currentTrees layer = [] ∨
        Covered layer (centreIn grid window i j) := by
  unfold ExactCell
  rw [h.canopy i j hcell, h.trunk i j hcell, ← seen_currentTrees, ← seen_currentTrees,
    isGreatest_overBackground_iff _ (fun tree htree _ => (hvalid.heights htree).1),
    isGreatest_overBackground_iff _ (fun tree htree _ => (hvalid.heights htree).2),
    trunkFraction_nonneg_iff, and_self]
  rfl

/-- The planes of two layers whose trees have the same crowns over a cell agree there where the
background does not show, or shows for both or for neither. -/
theorem Painted.agree_iff {planes' : VegetationRasters} (hvalid : LiveValid layer')
    (h : Painted base grid layer window planes) (h' : Painted base grid layer' window planes')
    (hcell : CellIn window i j)
    (hsame : ∀ tree, InDisc tree (centreIn grid window i j) →
      (tree ∈ currentTrees layer ↔ tree ∈ currentTrees layer')) :
    planes.canopy i j = planes'.canopy i j ∧ planes.trunk i j = planes'.trunk i j ↔
      0 ≤ baseIn base window i j ∨ Covered layer' (centreIn grid window i j) ∨
        (currentTrees layer = [] ↔ currentTrees layer' = []) := by
  rw [h.canopy i j hcell, h.trunk i j hcell, h'.canopy i j hcell, h'.trunk i j hcell,
    overBackground_eq_iff (fun tree htree _ => (hvalid.heights htree).1) hsame,
    overBackground_eq_iff (fun tree htree _ => (hvalid.heights htree).2) hsame,
    trunkFraction_nonneg_iff, and_self]
  rfl

end Planes

/-! ## Edits of the layer -/

section Edits

variable {mutations : List Mutation} {layer : TreeLayer} {start stop : Nat}

/-- The centre lies in the old or the new crown of a tree of the coalesced batch. -/
def InBatch (edits : List TreeEdit) (c : Point Rat) : Prop :=
  ∃ batch, coalesceTreeEdits edits = .ok batch ∧
    ∃ edit ∈ batch.edits, ∃ tree ∈ edit.oldTree.toList ++ edit.newTree.toList, InDisc tree c

theorem mem_currentTrees_iff (h : TreeLayer.empty.mutateAll mutations = (layer, .ok ()))
    (hcuts : start ≤ stop) (hstop : stop ≤ mutations.length) {c : Point Rat}
    (hout : ¬ InBatch (slice layer.edits start stop) c) {tree : TreeSpec} (htree : InDisc tree c) :
    tree ∈ currentTrees (TreeLayer.after mutations start) ↔
      tree ∈ currentTrees (TreeLayer.after mutations stop) := by
  rcases hcuts.eq_or_lt with rfl | hlt
  · rfl
  obtain ⟨batch, hbatch, -, hnet⟩ := slice_coalesces h hlt hstop
  rw [mem_currentTrees, mem_currentTrees]
  apply exists_congr
  intro treeId
  by_cases hne : (TreeLayer.after mutations start).live[treeId]? =
    (TreeLayer.after mutations stop).live[treeId]?
  · rw [hne]
  · -- the tree has a net edit between its two states, and neither of them has this crown
    obtain ⟨edit, hedit, htriple⟩ := List.mem_map.mp ((hnet.triples treeId _ _).mpr ⟨rfl, rfl, hne⟩)
    simp only [TreeEdit.triple, Prod.mk.injEq] at htriple
    obtain ⟨-, hold, hnew⟩ := htriple
    have hnot (state : Option TreeSpec) (hstate : state = edit.oldTree ∨ state = edit.newTree) :
        state ≠ some tree := by
      rintro rfl
      refine hout ⟨batch, hbatch, edit, hedit, tree, ?_, htree⟩
      rw [List.mem_append, Option.mem_toList, Option.mem_toList]
      exact hstate.imp Eq.symm Eq.symm
    exact iff_of_false (hnot _ (Or.inl hold.symm)) (hnot _ (Or.inr hnew.symm))

/-- A window of the grid is painted before and after any edits of a layer, and it is the crop of
the full raster. Each of its cells has the maximum of the base and of the live crowns over it, and
outside of the crowns of the coalesced batch the planes stay, exactly if each cell with a negative
base is under a live crown, or no tree is left and none was there before outside of these crowns.
-/
theorem vegetationRastersWindow_exact_iff
    (h : TreeLayer.empty.mutateAll mutations = (layer, .ok ())) (hcuts : start ≤ stop)
    (hstop : stop ≤ mutations.length) (base : BaseVegetation) {grid : RasterGrid}
    {window : RasterWindow} (hwindow : checkWindow grid window = .ok ()) :
    ∃ before after full,
      vegetationRastersWindow base grid (TreeLayer.after mutations start) window = .ok before ∧
      vegetationRastersWindow base grid (TreeLayer.after mutations stop) window = .ok after ∧
      vegetationRastersWindow base grid (TreeLayer.after mutations stop) grid.fullWindow =
        .ok full ∧
      (after.rows = (window.rowStop - window.rowStart).toNat ∧
        after.cols = (window.colStop - window.colStart).toNat ∧
        ∀ i j, CellIn window i j →
          after.canopy i j =
            full.canopy (window.rowStart + i).toNat (window.colStart + j).toNat ∧
          after.trunk i j =
            full.trunk (window.rowStart + i).toNat (window.colStart + j).toNat) ∧
      ((∀ i j, CellIn window i j →
          ExactCell base grid (TreeLayer.after mutations stop) window after i j ∧
          (¬ InBatch (slice layer.edits start stop) (centreIn grid window i j) →
            before.canopy i j = after.canopy i j ∧ before.trunk i j = after.trunk i j)) ↔
        ∀ i j, CellIn window i j →
          0 ≤ baseIn base window i j ∨
          Covered (TreeLayer.after mutations stop) (centreIn grid window i j) ∨
          currentTrees (TreeLayer.after mutations stop) = [] ∧
            (InBatch (slice layer.edits start stop) (centreIn grid window i j) ∨
              currentTrees (TreeLayer.after mutations start) = [])) := by
  have hfullWindow : checkWindow grid grid.fullWindow = .ok () :=
    checkWindow_ok.mpr ⟨⟨le_refl _, le_refl _⟩, le_refl _, le_refl _⟩
  have hvalid := liveValid_after mutations stop
  obtain ⟨before, hbefore, hpaintedBefore⟩ :=
    vegetationRastersWindow_ok base (liveValid_after mutations start) hwindow
  obtain ⟨after, hafter, hpainted⟩ := vegetationRastersWindow_ok base hvalid hwindow
  obtain ⟨full, hfull, hpaintedFull⟩ := vegetationRastersWindow_ok base hvalid hfullWindow
  refine ⟨before, after, full, hbefore, hafter, hfull, ⟨hpainted.rows, hpainted.cols, ?_⟩, ?_⟩
  · exact fun i j hcell => hpainted.crop hwindow hpaintedFull hcell
  · apply forall₂_congr
    intro i j
    apply forall_congr'
    intro hcell
    rw [hpainted.exact_iff hvalid hcell]
    by_cases hout : InBatch (slice layer.edits start stop) (centreIn grid window i j)
    · simp only [hout, not_true_eq_false, false_imp_iff, and_true, true_or]
      rw [or_comm (b := Covered _ _)]
    · rw [hpaintedBefore.agree_iff hvalid hpainted hcell fun tree htree =>
        mem_currentTrees_iff h hcuts hstop hout htree]
      simp only [hout, not_false_eq_true, true_imp_iff, false_or]
      tauto

theorem three_pos : 0 < 3 := by decide

/-- Three rows of three cells. -/
def courtyard : RasterGrid where
  rows := 3
  cols := 3
  pixelSize := 1
  rowsPos := three_pos
  colsPos := three_pos
  originXM := 0
  originYM := 3
  pixelPos := by decide

theorem one_le_three : (1 : Int) ≤ 3 := by decide

/-- The last two rows and columns. -/
def corner : RasterWindow := ⟨1, 3, 1, 3, one_le_three, one_le_three⟩

theorem courtyard_window : checkWindow courtyard corner = .ok () := by decide

/-- Two trees in opposite corners: the first moves to the middle, and the second is felled. -/
def replanting : List Mutation :=
  [.addTree ⟨"oak", 1 / 2, 5 / 2, 10, 1 / 4, 1 / 4, 1 / 10⟩,
    .addTree ⟨"elm", 5 / 2, 1 / 2, 8, 1 / 4, 1 / 4, 1 / 10⟩, .moveTree "oak" (3 / 2) (3 / 2),
    .deleteTree "elm"]

/-- Below zero in the middle, and a hedge in the corner. -/
def sunkenMiddle : BaseVegetation := fun row col =>
  if (row, col) = (1, 1) then -1 else if (row, col) = (2, 2) then 2 else 0

theorem vegetationRastersWindow_exact_replanted : ∃ layer before after full,
    TreeLayer.empty.mutateAll replanting = (layer, .ok ()) ∧
      vegetationRastersWindow sunkenMiddle courtyard (TreeLayer.after replanting 2) corner =
        .ok before ∧
      vegetationRastersWindow sunkenMiddle courtyard (TreeLayer.after replanting 4) corner =
        .ok after ∧
      vegetationRastersWindow sunkenMiddle courtyard (TreeLayer.after replanting 4)
        courtyard.fullWindow = .ok full ∧
      ∀ i j, CellIn corner i j →
        ExactCell sunkenMiddle courtyard (TreeLayer.after replanting 4) corner after i j ∧
        (¬ InBatch (slice layer.edits 2 4) (centreIn courtyard corner i j) →
          before.canopy i j = after.canopy i j ∧ before.trunk i j = after.trunk i j) := by
  have hrun := mutateAll_isOk replanting (by decide +kernel)
  have hmiddle : Covered (TreeLayer.after replanting 4) (centreIn courtyard corner 0 0) := by
    unfold Covered
    decide +kernel
  have hbase : ∀ i < 2, ∀ j < 2, ¬ (i = 0 ∧ j = 0) → 0 ≤ baseIn sunkenMiddle corner i j := by
    unfold baseIn
    decide
  obtain ⟨before, after, full, hbefore, hafter, hfull, -, hiff⟩ :=
    vegetationRastersWindow_exact_iff hrun (show 2 ≤ 4 by decide) (by decide) sunkenMiddle
      courtyard_window
  refine ⟨_, before, after, full, hrun, hbefore, hafter, hfull, hiff.mpr fun i j hcell => ?_⟩
  by_cases hzero : i = 0 ∧ j = 0
  · obtain ⟨rfl, rfl⟩ := hzero
    exact Or.inr (Or.inl hmiddle)
  · exact Or.inl (hbase i hcell.1 j hcell.2 hzero)

/-- Two cells in a row. -/
def pair : RasterGrid where
  rows := 1
  cols := 2
  pixelSize := 1
  rowsPos := Nat.one_pos
  colsPos := Nat.succ_pos _
  originXM := 0
  originYM := 1
  pixelPos := by decide

/-- An oak over the first cell. -/
def oakPlanting : List Mutation := [.addTree ⟨"oak", 1 / 2, 1 / 2, 10, 1 / 4, 1 / 4, 1 / 10⟩]

theorem pair_window : checkWindow pair pair.fullWindow = .ok () := by decide

/-- The second cell lies below zero and no crown is over it: it is raised to zero. -/
theorem pit_raised : ∃ planes,
    vegetationRastersWindow (fun _ _ => -1) pair (TreeLayer.after oakPlanting 1)
      pair.fullWindow = .ok planes ∧
    ¬ ExactCell (fun _ _ => -1) pair (TreeLayer.after oakPlanting 1) pair.fullWindow planes 0 1 := by
  have hvalid := liveValid_after oakPlanting 1
  obtain ⟨planes, hplanes, hpainted⟩ :=
    vegetationRastersWindow_ok (fun _ _ => -1) hvalid pair_window
  refine ⟨planes, hplanes, ?_⟩
  rw [hpainted.exact_iff hvalid (by decide)]
  unfold baseIn Covered
  decide +kernel

end Edits

end Solweig.Spatial
