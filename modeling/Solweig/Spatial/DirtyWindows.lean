import Solweig.Planner.Merging
import Solweig.Spatial.Footprints
import Solweig.Spatial.Geometry

/-!
# Dirty windows of trees

The windows of a site in which a coalesced batch of tree edits can change a result: the influence
bounds of its old and new trees, merged, and the cells whose march a tree of the batch can flip.
-/

namespace Solweig.Spatial

open Solweig.Lib Solweig.Executor
open Solweig.Planner (RasterWindow)

theorem align_le {a b : Int} (h : a ≤ b) (block : Nat) :
    a / (block : Int) * block ≤ -(-b / (block : Int)) * block := by
  have hle (x : Int) : x / (block : Int) * block ≤ x ∨ block = 0 := by
    rcases Nat.eq_zero_or_pos block with hzero | hpos
    · exact Or.inr hzero
    · exact Or.inl (Int.ediv_mul_le x (by omega))
  rcases hle a with ha | rfl
  · rcases hle (-b) with hb | rfl
    · rw [neg_mul]
      omega
    · simp
  · simp

/-- Out to whole blocks. -/
def alignWindow (w : RasterWindow) (blockSize : Nat) : RasterWindow where
  rowStart := w.rowStart / blockSize * blockSize
  rowStop := -(-w.rowStop / blockSize) * blockSize
  colStart := w.colStart / blockSize * blockSize
  colStop := -(-w.colStop / blockSize) * blockSize
  rows := align_le w.rows blockSize
  cols := align_le w.cols blockSize

theorem floor_le_ceil_div {a b pixel : Rat} (hpixel : 0 < pixel) (h : a ≤ b) :
    ⌊a / pixel⌋ ≤ ⌈b / pixel⌉ :=
  (Int.floor_le_floor (div_le_div_of_nonneg_right h hpixel.le)).trans (Int.floor_le_ceil _)

def worldBoundsToWindow (grid : RasterGrid) (bounds : Bounds) :
    Except GeometryError RasterWindow :=
  if h : bounds.minXM ≤ bounds.maxXM ∧ bounds.minYM ≤ bounds.maxYM then
    .ok <| RasterWindow.clamp
      { rowStart := ⌊(grid.originYM - bounds.maxYM) / grid.pixelSize⌋
        rowStop := ⌈(grid.originYM - bounds.minYM) / grid.pixelSize⌉
        colStart := ⌊(bounds.minXM - grid.originXM) / grid.pixelSize⌋
        colStop := ⌈(bounds.maxXM - grid.originXM) / grid.pixelSize⌉
        rows := floor_le_ceil_div grid.pixelPos (sub_le_sub_left h.2 _)
        cols := floor_le_ceil_div grid.pixelPos (sub_le_sub_right h.1 _) }
      grid.rows grid.cols
  else .error .maximumBelowMinimum

def Bounds.join (bounds other : Bounds) : Bounds where
  minXM := min bounds.minXM other.minXM
  minYM := min bounds.minYM other.minYM
  maxXM := max bounds.maxXM other.maxXM
  maxYM := max bounds.maxYM other.maxYM

/-- What the worker plans its windows with. -/
structure InfluenceSite where
  grid : RasterGrid
  influenceConfig : InfluenceConfig
  blockSizePixels : Nat
  fullRecomputeFraction : Rat
  block_pos : 0 < blockSizePixels
  fraction_range : 0 < fullRecomputeFraction ∧ fullRecomputeFraction ≤ 1
  buildingDsm : Nat → Nat → Rat
  dem : Nat → Nat → Rat
  treeBase : Nat → Nat → Rat
  solar : List SunPosition

/-- The greatest value in some rows and columns, from that of their first cell on. -/
def regionMax (rowStart rowStop colStart colStop : Nat) (raster : Nat → Nat → Rat) : Rat :=
  (List.range' rowStart (rowStop - rowStart)).foldl (fun m row =>
    (List.range' colStart (colStop - colStart)).foldl (fun m col => max m (raster row col)) m)
    (raster rowStart colStart)

def regionMin (rowStart rowStop colStart colStop : Nat) (raster : Nat → Nat → Rat) : Rat :=
  -regionMax rowStart rowStop colStart colStop fun row col => -raster row col

namespace InfluenceSite

variable (site : InfluenceSite) (trig : Trig)

def minimumPositiveSunAltitudeDeg : Option Rat :=
  ((site.solar.map (·.altitudeDeg)).filter fun altitude => 0 < altitude).min?

/-- The policy with the reach of the marches on this site. -/
def siteInfluenceConfig : Except GeometryError InfluenceConfig := do
  let config := site.influenceConfig
  let baselineAmaxvalue := max (regionMax 0 site.grid.rows 0 site.grid.cols site.buildingDsm)
    (regionMax 0 site.grid.rows 0 site.grid.cols fun row col =>
      max (site.treeBase row col) 0 + site.dem row col)
  let sunFloor := site.minimumPositiveSunAltitudeDeg.getD config.minimumDirectSunAltitudeDeg
  let shadowBound ← divided baselineAmaxvalue (trig.tan sunFloor)
  let svfBound ← divided baselineAmaxvalue (trig.tan config.lowestSkyPatchAltitudeDeg)
  if h : 0 < sunFloor ∧ sunFloor < 90 then
    pure { config with
      minimumDirectSunAltitudeDeg := sunFloor
      maximumShadowLengthM := max (max config.maximumShadowLengthM shadowBound) svfBound
      minimum_range := h
      length_pos := config.length_pos.trans_le ((le_max_left _ _).trans (le_max_left _ _)) }
  else .error (.minimumAltitude sunFloor)

/-- The cell of the tree centre, if it is on the site. -/
def treeCell (tree : TreeSpec) : Option (Nat × Nat) :=
  let col := ⌊(tree.xM - site.grid.originXM) / site.grid.pixelSize⌋
  let row := ⌊(site.grid.originYM - tree.yM) / site.grid.pixelSize⌋
  if (0 ≤ row ∧ row < site.grid.rows) ∧ 0 ≤ col ∧ col < site.grid.cols then
    some (row.toNat, col.toNat)
  else none

/-! ## Local relief -/

/-- The search of `local_elevation_offset_m` from a window on; `none` when it is not stable. -/
def localOffsetFrom (baseElevationM : Rat) (boundsForOffset : Rat → Except GeometryError RasterWindow)
    (regionMinimumM : RasterWindow → Rat) : Nat → RasterWindow → Rat →
    Except GeometryError (Option Rat)
  | 0, _, _ => .ok none
  | iterations + 1, window, offset =>
    let candidate := max 0 (baseElevationM - regionMinimumM window)
    if candidate ≤ offset then .ok (some offset)
    else do
      let window ← boundsForOffset candidate
      localOffsetFrom baseElevationM boundsForOffset regionMinimumM iterations window candidate

def localElevationOffsetM (baseElevationM : Rat)
    (boundsForOffset : Rat → Except GeometryError RasterWindow)
    (regionMinimumM : RasterWindow → Rat) : Except GeometryError (Option Rat) := do
  let window ← boundsForOffset 0
  localOffsetFrom baseElevationM boundsForOffset regionMinimumM 3 window 0

def influenceElevationOffset (tree : TreeSpec) (config : InfluenceConfig) :
    Except GeometryError Rat :=
  match site.treeCell tree with
  | none => .ok config.elevationOffsetM
  | some (row, col) =>
    let base := site.buildingDsm row col
    let globalOffset :=
      max 0 (base - regionMin 0 site.grid.rows 0 site.grid.cols site.buildingDsm)
    if globalOffset = 0 then .ok 0
    else do
      let offset ← localElevationOffsetM base
        (fun offset => do
          let bounds ← treeInfluenceBoundsM trig tree site.solar config (some offset)
          worldBoundsToWindow site.grid bounds)
        (fun window => regionMin window.rowStart.toNat window.rowStop.toNat
          window.colStart.toNat window.colStop.toNat site.buildingDsm)
      pure (offset.getD globalOffset)

/-- `_tree_position_key` -/
def treePositionKey (tree : TreeSpec) : String × Rat × Rat := (tree.treeId, tree.xM, tree.yM)

def editTrees (edit : TreeEdit) : List TreeSpec := edit.oldTree.toList ++ edit.newTree.toList

/-- `_batch_elevation_offsets`: the first tree at a position says for the later ones. -/
def batchElevationOffsets (trees : List TreeSpec) (config : InfluenceConfig) :
    Except GeometryError (List ((String × Rat × Rat) × Rat)) :=
  trees.foldlM (fun offsets tree =>
    if offsets.any fun entry => entry.1 = treePositionKey tree then pure offsets
    else do
      let offset ← site.influenceElevationOffset trig tree config
      pure (offsets ++ [(treePositionKey tree, offset)])) []

/-! ## The windows of a batch -/

/-- The bounds of the old and of the new tree, together. -/
def editBounds (boundsOf : TreeSpec → Except GeometryError Bounds) :
    TreeEdit → Except GeometryError Bounds
  | ⟨_, _, some old, some new, _, _⟩ => do
    let oldBounds ← boundsOf old
    let newBounds ← boundsOf new
    pure (oldBounds.join newBounds)
  | ⟨_, _, some old, none, _, _⟩ => boundsOf old
  | ⟨_, _, none, some new, _, _⟩ => boundsOf new
  | ⟨_, _, none, none, present, _⟩ => absurd ⟨rfl, rfl⟩ present

def dirtyWindowForEdit (config : InfluenceConfig) (offsetForTree : TreeSpec → Option Rat)
    (edit : TreeEdit) : Except GeometryError RasterWindow := do
  let bounds ← editBounds
    (fun tree => treeInfluenceBoundsM trig tree site.solar config (offsetForTree tree)) edit
  let window ← worldBoundsToWindow site.grid bounds
  pure ((alignWindow window site.blockSizePixels).clamp site.grid.rows site.grid.cols)

def dirtyWindowsForBatch (config : InfluenceConfig) (offsetForTree : TreeSpec → Option Rat)
    (edits : List TreeEdit) : Except GeometryError (List RasterWindow) := do
  let windows ← edits.mapM (site.dirtyWindowForEdit trig config offsetForTree)
  pure ((RasterWindow.mergeWindows (windows.length + 1) 8 windows).getD [])

/-! ## The exact backstop -/

/-- A tree at a cell can flip the march at another cell, or covers it. -/
def flips (config : InfluenceConfig) (tanMin : Rat) (tree : TreeSpec) (row0 col0 row col : Nat) :
    Bool :=
  let pixel := site.grid.pixelSize
  let reachPx := ⌈(tree.canopyRadiusM + config.safetyMarginM) / pixel⌉.toNat
  let base := regionMax (row0 - reachPx) (min site.grid.rows (row0 + reachPx + 1))
    (col0 - reachPx) (min site.grid.cols (col0 + reachPx + 1)) site.buildingDsm
  let chebM : Rat :=
    (max ((row : Int) - row0).natAbs ((col : Int) - col0).natAbs : Nat) * pixel
  base + tree.heightM - site.buildingDsm row col > chebM * tanMin - 1 / 100 ∨
    chebM ≤ tree.canopyRadiusM + config.safetyMarginM

/-- The rectangle of the cells that some tree on the site can flip, in whole blocks. -/
def exactInfluenceWindow (trees : List TreeSpec) (config : InfluenceConfig) :
    Option RasterWindow :=
  let tanMin := trig.tan (site.minimumPositiveSunAltitudeDeg.elim
    config.lowestSkyPatchAltitudeDeg (min config.lowestSkyPatchAltitudeDeg))
  let onGrid := trees.filterMap fun tree => (site.treeCell tree).map fun cell => (tree, cell)
  let combined (row col : Nat) : Bool := onGrid.any fun (tree, cell) =>
    site.flips config tanMin tree cell.1 cell.2 row col
  let rowsTrue := (List.range site.grid.rows).filter fun row =>
    (List.range site.grid.cols).any fun col => combined row col
  let colsTrue := (List.range site.grid.cols).filter fun col =>
    (List.range site.grid.rows).any fun row => combined row col
  match rowsTrue.head?, rowsTrue.getLast?, colsTrue.head?, colsTrue.getLast? with
  | some rowMin, some rowMax, some colMin, some colMax =>
    -- the cells are in order, so no stop is before its start
    some ((alignWindow
      { rowStart := rowMin
        rowStop := max rowMin (rowMax + 1)
        colStart := colMin
        colStop := max colMin (colMax + 1)
        rows := le_max_left _ _
        cols := le_max_left _ _ } site.blockSizePixels).clamp site.grid.rows site.grid.cols)
  | _, _, _, _ => none

/-- `dirty_windows` of a batch with edits -/
def dirtyWindows (edits : List TreeEdit) : Except GeometryError (List RasterWindow) := do
  let config ← site.siteInfluenceConfig trig
  let trees := edits.flatMap editTrees
  let offsets ← site.batchElevationOffsets trig trees config
  let scalar ← site.dirtyWindowsForBatch trig config
    (fun tree => (offsets.find? fun entry => entry.1 = treePositionKey tree).map (·.2)) edits
  pure (match site.exactInfluenceWindow trig trees config with
    | none => scalar
    | some exact => RasterWindow.merge (scalar ++ [exact]))

end InfluenceSite

end Solweig.Spatial
