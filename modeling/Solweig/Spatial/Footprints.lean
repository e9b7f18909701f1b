import Mathlib.Algebra.Order.Ring.Rat
import Mathlib.Data.Rat.Floor
import Solweig.Lib.Rings
import Solweig.Planner.Windows

/-!
# Building footprints

The cells of a raster whose centres a footprint covers. One bit for each cell is toggled by the
edges that its ray crosses and set by the edges that it is on, in the order of the ring.
-/

namespace Solweig.Spatial

open Solweig.Lib
open Solweig.Planner (RasterWindow)

/-- A ring of vertices, which may repeat the first one at the end. -/
structure Footprint where
  vertices : List (Point Rat)
  three : 3 ≤ vertices.length

/-- The outer upper-left corner is the origin; rows go south. -/
structure RasterGrid extends Planner.RasterGrid where
  originXM : Rat
  originYM : Rat
  pixelPos : 0 < pixelSize

namespace Footprint

variable (f : Footprint)

theorem ne_nil : f.vertices ≠ [] := by
  have h := f.three
  intro hnil
  simp [hnil] at h

def first : Point Rat := f.vertices.head f.ne_nil

def last : Point Rat := f.vertices.getLast f.ne_nil

def closedRing : List (Point Rat) :=
  if f.first = f.last then f.vertices else f.vertices ++ [f.first]

def edges : List (Edge Rat) := neighbours f.closedRing

/-- `min(coord of each vertex)` -/
def least (coord : Point Rat → Rat) : Rat :=
  f.vertices.foldl (fun m v => min m (coord v)) (coord f.first)

/-- `max(coord of each vertex)` -/
def greatest (coord : Point Rat → Rat) : Rat :=
  f.vertices.foldl (fun m v => max m (coord v)) (coord f.first)

end Footprint

/-! ## The candidate window -/

structure RawBounds where
  rowLo : Int
  rowHi : Int
  colLo : Int
  colHi : Int

def rawBounds (f : Footprint) (grid : RasterGrid) : RawBounds where
  colLo := ⌊(f.least Prod.fst - grid.originXM) / grid.pixelSize - 1 / 2⌋ - 1
  colHi := ⌈(f.greatest Prod.fst - grid.originXM) / grid.pixelSize - 1 / 2⌉ + 1
  rowLo := ⌊(grid.originYM - f.greatest Prod.snd) / grid.pixelSize - 1 / 2⌋ - 1
  rowHi := ⌈(grid.originYM - f.least Prod.snd) / grid.pixelSize - 1 / 2⌉ + 1

def footprintWindow (f : Footprint) (grid : RasterGrid) (window : RasterWindow) : RasterWindow :=
  let raw := rawBounds f grid
  let rowStart := max (max raw.rowLo window.rowStart) 0
  let rowStop := max (min (min raw.rowHi window.rowStop) grid.rows) rowStart
  let colStart := max (max raw.colLo window.colStart) 0
  let colStop := max (min (min raw.colHi window.colStop) grid.cols) colStart
  { rowStart, rowStop, colStart, colStop, rows := le_max_right .., cols := le_max_right .. }

/-! ## The tests of a cell centre -/

/-- The hair around an edge that counts as on it. -/
def tolerance (e : Edge Rat) : Rat := 1 / 10 ^ 9 * (|e.2.1 - e.1.1| + |e.2.2 - e.1.2| + 1)

def onSegment (e : Edge Rat) (c : Point Rat) : Bool :=
  let tol := tolerance e
  let cross := (e.2.1 - e.1.1) * (c.2 - e.1.2) - (e.2.2 - e.1.2) * (c.1 - e.1.1)
  |cross| ≤ tol ∧ (min e.1.1 e.2.1 - tol ≤ c.1 ∧ c.1 ≤ max e.1.1 e.2.1 + tol) ∧
    min e.1.2 e.2.2 - tol ≤ c.2 ∧ c.2 ≤ max e.1.2 e.2.2 + tol

/-- `straddle & (cx < x_cross)` -/
def crossesRay (e : Edge Rat) (c : Point Rat) : Bool :=
  let dy := e.2.2 - e.1.2
  let straddle := decide (c.2 < e.1.2) != decide (c.2 < e.2.2)
  let safeDy := if dy = 0 then 1 else dy
  let xCross := (e.2.1 - e.1.1) * (c.2 - e.1.2) / safeDy + e.1.1
  straddle && c.1 < xCross

/-- The bit of one cell after all edges. -/
def insideBit (f : Footprint) (c : Point Rat) : Bool :=
  f.edges.foldl (fun inside e => (inside ^^ crossesRay e c) || onSegment e c) false

/-! ## The mask -/

def RasterGrid.centre (grid : RasterGrid) (row col : Int) : Point Rat :=
  (grid.originXM + (col + 1 / 2) * grid.pixelSize, grid.originYM - (row + 1 / 2) * grid.pixelSize)

/-- The windows that a layer rasterizes lie in its grid. -/
abbrev GridWindow (grid : RasterGrid) :=
  { w : RasterWindow // (0 ≤ w.rowStart ∧ w.rowStop ≤ grid.rows) ∧
    0 ≤ w.colStart ∧ w.colStop ≤ grid.cols }

structure Mask where
  rows : Nat
  cols : Nat
  cell : Nat → Nat → Bool

def candidate (f : Footprint) (grid : RasterGrid) : RasterWindow :=
  footprintWindow f grid grid.fullWindow

def RasterGrid.onBorder (grid : RasterGrid) (row col : Nat) : Bool :=
  row = 0 ∨ row + 1 = grid.rows ∨ col = 0 ∨ col + 1 = grid.cols

/-- The mask of the window, and whether a marked cell lies on the border of the grid. -/
def polygonCellMask (f : Footprint) (grid : RasterGrid) (window : GridWindow grid) :
    Mask × Bool :=
  let rows := (window.val.rowStop - window.val.rowStart).toNat
  let cols := (window.val.colStop - window.val.colStart).toNat
  if (candidate f grid).isEmpty then ({ rows, cols, cell := fun _ _ => false }, false)
  else
    let full (row col : Int) : Bool :=
      (candidate f grid).Holds (row, col) ∧ insideBit f (grid.centre row col)
    let edgeTouching := (List.range grid.rows).any fun row =>
      (List.range grid.cols).any fun col => full row col && grid.onBorder row col
    ({ rows, cols, cell := fun i j => full (window.val.rowStart + i) (window.val.colStart + j) },
      edgeTouching)

/-! ## The tests at exact values -/

theorem crossesRay_iff {e : Edge Rat} {c : Point Rat} : crossesRay e c = true ↔ Crosses e c := by
  rw [crosses_iff]
  unfold crossesRay
  rw [Bool.and_eq_true, decide_eq_true_iff]
  apply and_congr_right
  intro hs
  have hne : e.2.2 - e.1.2 ≠ 0 := Straddles.ne hs
  simp only [if_neg hne]
  rfl

theorem onSegment_of_onSegment {e : Edge Rat} {c : Point Rat} (h : OnSegment e c) :
    onSegment e c = true := by
  have htol : 0 ≤ tolerance e := by
    unfold tolerance
    positivity
  have hx := h.coord_mem (Or.inl rfl) ⟨min_le_left e.1.1 e.2.1, le_max_left e.1.1 e.2.1⟩
    ⟨min_le_right _ _, le_max_right _ _⟩
  have hy := h.coord_mem (Or.inr rfl) ⟨min_le_left e.1.2 e.2.2, le_max_left e.1.2 e.2.2⟩
    ⟨min_le_right _ _, le_max_right _ _⟩
  have hcross : (e.2.1 - e.1.1) * (c.2 - e.1.2) - (e.2.2 - e.1.2) * (c.1 - e.1.1) = 0 := by
    obtain ⟨t, _, rfl⟩ := h
    ring
  unfold onSegment
  rw [decide_eq_true_iff]
  simp only [hcross, abs_zero]
  refine ⟨htol, ⟨?_, ?_⟩, ?_, ?_⟩ <;> linarith [hx.1, hx.2, hy.1, hy.2]

/-! ## The ring of a footprint -/

namespace Footprint

variable (f : Footprint)

theorem exists_edges : ∃ ring, f.edges = cyclicPairs ring ∧ SameRegion f.vertices ring := by
  obtain ⟨a, l, hl⟩ := List.exists_cons_of_ne_nil f.ne_nil
  have hfirst : f.first = a := by simp [first, hl]
  unfold edges closedRing
  split
  · rename_i hclosed
    -- the ring ends with its first vertex: there are others between the two
    have hsplit := List.dropLast_append_getLast f.ne_nil
    have hlast : f.vertices.getLast f.ne_nil = a := hclosed.symm.trans hfirst
    have hthree := f.three
    rw [hlast] at hsplit
    rcases hmid : f.vertices.dropLast with _ | ⟨b, middle⟩
    · rw [hmid] at hsplit
      simp [← hsplit] at hthree
    · rw [hmid, hl] at hsplit
      obtain ⟨rfl, hrest⟩ := List.cons.inj hsplit
      rw [hl, ← hrest]
      exact ⟨_, neighbours_closed b middle, sameRegion_closed b middle⟩
  · rw [hl, hfirst]
    exact ⟨_, neighbours_closed a l, fun _ => ⟨Iff.rfl, Iff.rfl⟩⟩

/-- The centre passes the on-edge test of some edge. -/
def NearEdge (c : Point Rat) : Prop := ∃ e ∈ f.edges, onSegment e c = true

/-- The edges that are visited after the last one that the centre is on. -/
def behind (c : Point Rat) : List (Edge Rat) := f.edges.rtakeWhile fun e => !onSegment e c

instance (c : Point Rat) : Decidable (f.NearEdge c) := inferInstanceAs (Decidable (∃ e ∈ _, _))

/-- The centre is on the ring, or inside it by the even-odd rule. -/
def Covers (c : Point Rat) : Prop := OnBoundary f.vertices c ∨ Inside f.vertices c

variable {f} {c : Point Rat}

theorem nearEdge_of_onBoundary (h : OnBoundary f.vertices c) : f.NearEdge c := by
  obtain ⟨ring, hedges, hsame⟩ := f.exists_edges
  obtain ⟨e, he, hon⟩ := (hsame c).1.mp h
  exact ⟨e, hedges ▸ he, onSegment_of_onSegment hon⟩

theorem inside_iff : Inside f.vertices c ↔ Odd (f.edges.countP (crossesRay · c)) := by
  obtain ⟨ring, hedges, hsame⟩ := f.exists_edges
  rw [(hsame c).2, hedges]
  unfold Inside
  rw [List.countP_congr (q := (crossesRay · c))]
  intro e _
  rw [decide_eq_true_iff, crossesRay_iff]

theorem insideBit_of_not_near (h : ¬ f.NearEdge c) :
    insideBit f c = true ↔ Inside f.vertices c := by
  rw [inside_iff]
  apply sweep_of_never
  intro e he
  by_contra hon
  exact h ⟨e, he, by simpa using hon⟩

theorem insideBit_of_near (h : f.NearEdge c) :
    insideBit f c = true ↔ Even ((f.behind c).countP (crossesRay · c)) :=
  sweep_of_set h

/-! ## Bounds -/

theorem foldl_min_le (coord : Point Rat → Rat) (l : List (Point Rat)) (m : Rat) :
    l.foldl (fun m v => min m (coord v)) m ≤ m ∧
      ∀ v ∈ l, l.foldl (fun m v => min m (coord v)) m ≤ coord v := by
  induction l generalizing m with
  | nil => simp
  | cons first l ih =>
    obtain ⟨hstart, hrest⟩ := ih (min m (coord first))
    rw [List.foldl_cons]
    refine ⟨hstart.trans (min_le_left _ _), ?_⟩
    rw [List.forall_mem_cons]
    exact ⟨hstart.trans (min_le_right _ _), hrest⟩

theorem le_foldl_max (coord : Point Rat → Rat) (l : List (Point Rat)) (m : Rat) :
    m ≤ l.foldl (fun m v => max m (coord v)) m ∧
      ∀ v ∈ l, coord v ≤ l.foldl (fun m v => max m (coord v)) m := by
  induction l generalizing m with
  | nil => simp
  | cons first l ih =>
    obtain ⟨hstart, hrest⟩ := ih (max m (coord first))
    rw [List.foldl_cons]
    refine ⟨(le_max_left _ _).trans hstart, ?_⟩
    rw [List.forall_mem_cons]
    exact ⟨(le_max_right _ _).trans hstart, hrest⟩

theorem inBox (f : Footprint) : InBox (f.least Prod.fst, f.least Prod.snd)
    (f.greatest Prod.fst, f.greatest Prod.snd) f.vertices where
  x q hq := ⟨(foldl_min_le _ _ _).2 q hq, (le_foldl_max _ _ _).2 q hq⟩
  y q hq := ⟨(foldl_min_le _ _ _).2 q hq, (le_foldl_max _ _ _).2 q hq⟩

theorem Covers.holds {grid : RasterGrid} {row col : Int} (hrow : 0 ≤ row ∧ row < grid.rows)
    (hcol : 0 ≤ col ∧ col < grid.cols) (h : f.Covers (grid.centre row col)) :
    (candidate f grid).Holds (row, col) := by
  have hbounds := h.elim (fun h => h.bounds f.inBox) fun h => h.bounds f.inBox
  obtain ⟨⟨hx, hx'⟩, hy, hy'⟩ := hbounds
  have hpixel := grid.pixelPos
  simp only [RasterGrid.centre] at hx hx' hy hy'
  have hcolLo : (f.least Prod.fst - grid.originXM) / grid.pixelSize - 1 / 2 ≤ col := by
    rw [sub_le_iff_le_add, div_le_iff₀ hpixel]
    linarith
  have hcolHi : (col : Rat) ≤ (f.greatest Prod.fst - grid.originXM) / grid.pixelSize - 1 / 2 := by
    rw [le_sub_iff_add_le, le_div_iff₀ hpixel]
    linarith
  have hrowLo : (grid.originYM - f.greatest Prod.snd) / grid.pixelSize - 1 / 2 ≤ row := by
    rw [sub_le_iff_le_add, div_le_iff₀ hpixel]
    linarith
  have hrowHi : (row : Rat) ≤ (grid.originYM - f.least Prod.snd) / grid.pixelSize - 1 / 2 := by
    rw [le_sub_iff_add_le, le_div_iff₀ hpixel]
    linarith
  have hbelow : ∀ {v : Rat} {n : Int}, v ≤ n → ⌊v⌋ - 1 ≤ n := fun {v n} hv => by
    have hfloor := Int.floor_mono hv
    rw [Int.floor_intCast] at hfloor
    omega
  have habove : ∀ {v : Rat} {n : Int}, (n : Rat) ≤ v → n < ⌈v⌉ + 1 := fun {v n} hv => by
    have hceil := Int.ceil_mono hv
    rw [Int.ceil_intCast] at hceil
    omega
  have hrowStart := hbelow hrowLo
  have hrowStop := habove hrowHi
  have hcolStart := hbelow hcolLo
  have hcolStop := habove hcolHi
  unfold RasterWindow.Holds candidate footprintWindow rawBounds Planner.RasterGrid.fullWindow
  simp only [max_le_iff, lt_max_iff, lt_min_iff]
  exact ⟨⟨⟨⟨hrowStart, hrow.1⟩, hrow.1⟩, Or.inl ⟨⟨hrowStop, hrow.2⟩, hrow.2⟩⟩,
    ⟨⟨hcolStart, hcol.1⟩, hcol.1⟩, Or.inl ⟨⟨hcolStop, hcol.2⟩, hcol.2⟩⟩

end Footprint

/-! ## What the mask shows -/

section Shows

variable (f : Footprint) (grid : RasterGrid) (window : GridWindow grid)

/-- The centre of the cell of the grid behind a cell of the mask. -/
def RasterGrid.centreIn (grid : RasterGrid) (window : GridWindow grid) (i j : Nat) : Point Rat :=
  grid.centre (window.val.rowStart + i) (window.val.colStart + j)

/-- The mask of the window marks exactly the cells whose centres are in a region. -/
def MaskShows (region : Point Rat → Prop) : Prop :=
  ∀ i < (polygonCellMask f grid window).1.rows, ∀ j < (polygonCellMask f grid window).1.cols,
    (polygonCellMask f grid window).1.cell i j = true ↔ region (grid.centreIn window i j)

/-- A cell of the candidate window, after whose last on-edge test an even number of edges is
crossed. -/
def StaysSet (row col : Int) : Prop :=
  (candidate f grid).Holds (row, col) ∧
    Even ((f.behind (grid.centre row col)).countP (crossesRay · (grid.centre row col)))

/-- The cells of the window whose centre passes some on-edge test are those of the region that
stay set. -/
def NearCells (region : Point Rat → Prop) : Prop :=
  ∀ i < (polygonCellMask f grid window).1.rows, ∀ j < (polygonCellMask f grid window).1.cols,
    f.NearEdge (grid.centreIn window i j) →
      (region (grid.centreIn window i j) ↔
        StaysSet f grid (window.val.rowStart + i) (window.val.colStart + j))

variable {f grid window}

theorem polygonCellMask_cell (i j : Nat) :
    (polygonCellMask f grid window).1.cell i j = true ↔
      (candidate f grid).Holds (window.val.rowStart + i, window.val.colStart + j) ∧
        insideBit f (grid.centreIn window i j) = true := by
  unfold polygonCellMask RasterGrid.centreIn
  split
  · rename_i hempty
    have hnone : ¬ (candidate f grid).Holds (window.val.rowStart + i, window.val.colStart + j) := by
      unfold RasterWindow.isEmpty at hempty
      unfold RasterWindow.Holds
      rw [decide_eq_true_iff] at hempty
      omega
    simp [hnone]
  · simp

theorem polygonCellMask_shape : (polygonCellMask f grid window).1.rows =
    (window.val.rowStop - window.val.rowStart).toNat ∧
      (polygonCellMask f grid window).1.cols =
        (window.val.colStop - window.val.colStart).toNat := by
  unfold polygonCellMask
  split <;> exact ⟨rfl, rfl⟩

theorem cell_of_near {i j : Nat} (h : f.NearEdge (grid.centreIn window i j)) :
    (polygonCellMask f grid window).1.cell i j = true ↔
      StaysSet f grid (window.val.rowStart + i) (window.val.colStart + j) := by
  rw [polygonCellMask_cell, Footprint.insideBit_of_near h]
  rfl

theorem cell_of_not_near {i j : Nat} (hi : i < (polygonCellMask f grid window).1.rows)
    (hj : j < (polygonCellMask f grid window).1.cols)
    (h : ¬ f.NearEdge (grid.centreIn window i j)) :
    (polygonCellMask f grid window).1.cell i j = true ↔
      Inside f.vertices (grid.centreIn window i j) := by
  rw [polygonCellMask_cell, Footprint.insideBit_of_not_near h]
  rw [polygonCellMask_shape.1] at hi
  rw [polygonCellMask_shape.2] at hj
  have hwindow := window.property
  apply and_iff_right_of_imp
  intro hinside
  apply Footprint.Covers.holds _ _ (Or.inr hinside)
  · omega
  · omega

/-- A region between the boundary and the tolerance around it: only the cells near an edge can
be marked wrongly. -/
theorem maskShows_iff {boundary : Point Rat → Prop} (hnear : ∀ c, boundary c → f.NearEdge c) :
    MaskShows f grid window (fun c => boundary c ∨ Inside f.vertices c) ↔
      NearCells f grid window fun c => boundary c ∨ Inside f.vertices c := by
  unfold MaskShows NearCells
  apply forall₄_congr
  intro i hi j hj
  by_cases h : f.NearEdge (grid.centreIn window i j)
  · rw [cell_of_near h]
    exact ⟨fun hcell _ => hcell.symm, fun hcell => (hcell h).symm⟩
  · rw [cell_of_not_near hi hj h]
    have hnot : ¬ boundary (grid.centreIn window i j) := fun hb => h (hnear _ hb)
    simp [h, hnot]

end Shows

/-! ## Spellings of a ring -/

/-- Another vertex first, the other direction, or the first vertex repeated at the end. -/
def Respelled (f g : Footprint) : Prop :=
  (∃ n, g.vertices = f.vertices.rotate n) ∨ g.vertices = f.vertices.reverse ∨
    g.vertices = f.vertices ++ [f.first]

theorem Respelled.sameRegion {f g : Footprint} (h : Respelled f g) :
    SameRegion g.vertices f.vertices := by
  rcases h with ⟨n, h⟩ | h | h
  · rw [h]
    exact sameRegion_rotate f.vertices n
  · rw [h]
    exact sameRegion_reverse f.vertices
  · obtain ⟨a, l, hl⟩ := List.exists_cons_of_ne_nil f.ne_nil
    have hfirst : f.first = a := by simp [Footprint.first, hl]
    rw [h, hfirst, hl]
    exact sameRegion_closed a l

theorem Respelled.covers_iff {f g : Footprint} (h : Respelled f g) (c : Point Rat) :
    g.Covers c ↔ f.Covers c :=
  or_congr (h.sameRegion c).1 (h.sameRegion c).2

/-- The mask shows the ring with its inside exactly when, of the cells whose centre passes some
on-edge test, those that the ring covers are those that stay set. Where the tolerance counts as
boundary, all of them must stay set. Spellings that both meet the condition have one mask. -/
theorem polygonCellMask_shows_iff (f : Footprint) (grid : RasterGrid) (window : GridWindow grid) :
    (MaskShows f grid window f.Covers ↔ NearCells f grid window f.Covers) ∧
      (MaskShows f grid window (fun c => f.NearEdge c ∨ Inside f.vertices c) ↔
        NearCells f grid window fun _ => True) ∧
      ∀ g : Footprint, Respelled f g → NearCells f grid window f.Covers →
        NearCells g grid window g.Covers →
        ∀ i < (polygonCellMask f grid window).1.rows, ∀ j < (polygonCellMask f grid window).1.cols,
          (polygonCellMask g grid window).1.cell i j =
            (polygonCellMask f grid window).1.cell i j := by
  have hexact : ∀ f : Footprint,
      MaskShows f grid window f.Covers ↔ NearCells f grid window f.Covers :=
    fun f => maskShows_iff fun _ => Footprint.nearEdge_of_onBoundary
  refine ⟨hexact f, ?_, ?_⟩
  · rw [maskShows_iff fun _ h => h]
    unfold NearCells
    apply forall₄_congr
    intro i _ j _
    apply forall_congr'
    intro h
    simp [h]
  · intro g hspelled hf hg i hi j hj
    have hshape : (polygonCellMask g grid window).1.rows = (polygonCellMask f grid window).1.rows ∧
        (polygonCellMask g grid window).1.cols = (polygonCellMask f grid window).1.cols := by
      simp only [polygonCellMask_shape, and_self]
    rw [Bool.eq_iff_iff, (hexact g).mpr hg i (hshape.1 ▸ hi) j (hshape.2 ▸ hj),
      hspelled.covers_iff, (hexact f).mpr hf i hi j hj]

/-- Three rows and columns of two metres, with the centres at the even numbers. -/
def evenCentres : RasterGrid where
  rows := 3
  cols := 3
  pixelSize := 2
  rowsPos := by decide
  colsPos := by decide
  originXM := -1
  originYM := 5
  pixelPos := by norm_num

def evenCentres.full : GridWindow evenCentres :=
  ⟨evenCentres.fullWindow, by decide⟩

/-- A block whose west wall, which comes first, runs through the centres of a column. -/
def westFirst : Footprint where
  vertices := [(0, 0), (0, 4), (3, 4), (3, 0)]
  three := by decide

def westLast : Footprint where
  vertices := westFirst.vertices.reverse
  three := by decide

/-- The centre of the second row is on the west wall, and the east wall unmarks it. The ring
the other way round marks it. -/
theorem polygonCellMask_unmarks_wall :
    OnBoundary westFirst.vertices (evenCentres.centreIn evenCentres.full 1 0) ∧
      (polygonCellMask westFirst evenCentres evenCentres.full).1.cell 1 0 = false ∧
      (polygonCellMask westLast evenCentres evenCentres.full).1.cell 1 0 = true ∧
      ¬ MaskShows westFirst evenCentres evenCentres.full westFirst.Covers := by
  have hwall : OnBoundary westFirst.vertices (evenCentres.centreIn evenCentres.full 1 0) := by
    refine ⟨((0, 0), (0, 4)), by decide, 1 / 2, by norm_num, ?_⟩
    decide +kernel
  have hunmarked : (polygonCellMask westFirst evenCentres evenCentres.full).1.cell 1 0 = false := by
    decide +kernel
  refine ⟨hwall, hunmarked, by decide +kernel, ?_⟩
  intro h
  have hmarked := (h 1 (by decide +kernel) 0 (by decide +kernel)).mpr (Or.inl hwall)
  rw [hunmarked] at hmarked
  cases hmarked

end Solweig.Spatial
