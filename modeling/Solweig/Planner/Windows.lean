import Mathlib.Data.List.Lex
import Mathlib.Data.List.Sort
import Mathlib.Data.Rat.Defs
import Mathlib.Order.MinMax
import Solweig.Lib.Clusters

/-!
# Raster windows

Half-open windows of a raster grid.
-/

namespace Solweig.Planner

structure RasterWindow where
  rowStart : Int
  rowStop : Int
  colStart : Int
  colStop : Int
  rows : rowStart ≤ rowStop
  cols : colStart ≤ colStop
  deriving DecidableEq

namespace RasterWindow

def empty : RasterWindow := ⟨0, 0, 0, 0, le_refl 0, le_refl 0⟩

def area (w : RasterWindow) : Int := (w.colStop - w.colStart) * (w.rowStop - w.rowStart)

def isEmpty (w : RasterWindow) : Bool := w.colStart = w.colStop ∨ w.rowStart = w.rowStop

/-- `intersects` with a gap: windows that are no further apart do. -/
def intersectsWithin (gapPixels : Nat) (w other : RasterWindow) : Bool :=
  ¬ (w.rowStop + gapPixels < other.rowStart ∨ other.rowStop + gapPixels < w.rowStart ∨
    w.colStop + gapPixels < other.colStart ∨ other.colStop + gapPixels < w.colStart)

/-- Without a gap, windows that touch do. -/
def intersects (w other : RasterWindow) : Bool := w.intersectsWithin 0 other

def union (w other : RasterWindow) : RasterWindow :=
  if w.isEmpty then other
  else if other.isEmpty then w
  else
    { rowStart := min w.rowStart other.rowStart
      rowStop := max w.rowStop other.rowStop
      colStart := min w.colStart other.colStart
      colStop := max w.colStop other.colStop
      rows := (min_le_left _ _).trans (w.rows.trans (le_max_left _ _))
      cols := (min_le_left _ _).trans (w.cols.trans (le_max_left _ _)) }

def clamp (w : RasterWindow) (rows cols : Nat) : RasterWindow where
  rowStart := max 0 (min rows w.rowStart)
  rowStop := max 0 (min rows w.rowStop)
  colStart := max 0 (min cols w.colStart)
  colStop := max 0 (min cols w.colStop)
  rows := max_le_max (le_refl 0) (min_le_min (le_refl _) w.rows)
  cols := max_le_max (le_refl 0) (min_le_min (le_refl _) w.cols)

def Holds (w : RasterWindow) (cell : Int × Int) : Prop :=
  (w.rowStart ≤ cell.1 ∧ cell.1 < w.rowStop) ∧ w.colStart ≤ cell.2 ∧ cell.2 < w.colStop

instance (w : RasterWindow) (cell : Int × Int) : Decidable (w.Holds cell) :=
  inferInstanceAs (Decidable (_ ∧ _))

/-! ## Merging -/

/-- `merge_windows`; `none` when its inner loop outlasts the fuel. -/
def mergeWindows (fuel gapPixels : Nat) (windows : List RasterWindow) :
    Option (List RasterWindow) :=
  (Lib.clusterAll (intersectsWithin gapPixels) union fuel
    ((windows.filter fun w => ¬ w.isEmpty).insertionSort fun a b =>
      [a.rowStart, a.colStart, a.rowStop, a.colStop] ≤
        [b.rowStart, b.colStart, b.rowStop, b.colStop])).map fun merged =>
    merged.insertionSort fun a b => [a.rowStart, a.colStart] ≤ [b.rowStart, b.colStart]

/-- `merge_windows` without a gap. A look for each window is enough. -/
def merge (windows : List RasterWindow) : List RasterWindow :=
  (mergeWindows (windows.length + 1) 0 windows).getD []

end RasterWindow

structure RasterGrid where
  rows : Nat
  cols : Nat
  pixelSize : Rat
  rowsPos : 0 < rows
  colsPos : 0 < cols
  deriving DecidableEq

namespace RasterGrid

def fullWindow (grid : RasterGrid) : RasterWindow :=
  ⟨0, grid.rows, 0, grid.cols, Int.natCast_nonneg _, Int.natCast_nonneg _⟩

def areaPixels (grid : RasterGrid) : Nat := grid.rows * grid.cols

end RasterGrid

end Solweig.Planner
