import Mathlib.Algebra.Order.Ring.Rat
import Mathlib.Data.List.ProdSigma
import Mathlib.Tactic.Linarith
import Solweig.Lib.Fold

/-!
# March inputs

The planes that a shadow march reads, composed of a surface, a terrain and a canopy, with the
amplitude that bounds the march. All values are exact.
-/

namespace Solweig.Sparse

open Solweig.Lib

/-- A cell by its row and its column. -/
abbrev Cell := Int × Int

abbrev Mask := Cell → Bool

def inGrid (rows cols : Nat) (cell : Cell) : Prop :=
  0 ≤ cell.1 ∧ cell.1 < rows ∧ 0 ≤ cell.2 ∧ cell.2 < cols

instance (rows cols : Nat) (cell : Cell) : Decidable (inGrid rows cols cell) :=
  inferInstanceAs (Decidable (_ ∧ _))

/-- The cells, row by row. -/
def gridCells (rows cols : Nat) : List Cell :=
  (List.range rows ×ˢ List.range cols).map fun cell => ((cell.1 : Int), (cell.2 : Int))

theorem mem_gridCells {rows cols : Nat} {cell : Cell} :
    cell ∈ gridCells rows cols ↔ inGrid rows cols cell := by
  obtain ⟨row, col⟩ := cell
  unfold gridCells inGrid
  simp only [List.mem_map, List.mem_product, List.mem_range, Prod.exists, Prod.mk.injEq]
  constructor
  · rintro ⟨i, j, ⟨hi, hj⟩, rfl, rfl⟩
    omega
  · rintro ⟨hrow, hrows, hcol, hcols⟩
    exact ⟨row.toNat, col.toNat, by omega, by omega, by omega⟩

/-! ## Extremes of a plane -/

def planeMax (rows cols : Nat) (plane : Cell → Rat) : Rat :=
  ((gridCells rows cols).map plane).foldl max (plane (0, 0))

def planeMin (rows cols : Nat) (plane : Cell → Rat) : Rat :=
  ((gridCells rows cols).map plane).foldl min (plane (0, 0))

theorem le_foldl_max (values : List Rat) (first : Rat) :
    first ≤ values.foldl max first ∧ ∀ value ∈ values, value ≤ values.foldl max first := by
  induction values generalizing first with
  | nil => simp
  | cons value values ih =>
    obtain ⟨hfirst, hrest⟩ := ih (max first value)
    rw [List.foldl_cons]
    refine ⟨(le_max_left _ _).trans hfirst, fun x hx => ?_⟩
    rcases List.mem_cons.mp hx with rfl | hx
    · exact (le_max_right _ _).trans hfirst
    · exact hrest x hx

theorem foldl_min_le (values : List Rat) (first : Rat) :
    values.foldl min first ≤ first ∧ ∀ value ∈ values, values.foldl min first ≤ value := by
  induction values generalizing first with
  | nil => simp
  | cons value values ih =>
    obtain ⟨hfirst, hrest⟩ := ih (min first value)
    rw [List.foldl_cons]
    refine ⟨hfirst.trans (min_le_left _ _), fun x hx => ?_⟩
    rcases List.mem_cons.mp hx with rfl | hx
    · exact hfirst.trans (min_le_right _ _)
    · exact hrest x hx

section Extremes

variable {rows cols : Nat} {cell : Cell}

theorem le_planeMax (plane : Cell → Rat) (hcell : inGrid rows cols cell) :
    plane cell ≤ planeMax rows cols plane :=
  (le_foldl_max _ _).2 _ (List.mem_map_of_mem (mem_gridCells.mpr hcell))

theorem planeMin_le (plane : Cell → Rat) (hcell : inGrid rows cols cell) :
    planeMin rows cols plane ≤ plane cell :=
  (foldl_min_le _ _).2 _ (List.mem_map_of_mem (mem_gridCells.mpr hcell))

theorem planeMin_le_planeMax (rows cols : Nat) (plane : Cell → Rat) :
    planeMin rows cols plane ≤ planeMax rows cols plane :=
  (foldl_min_le _ _).1.trans (le_foldl_max _ _).1

theorem planeMax_congr {plane : Cell → Rat} (plane' : Cell → Rat) (hrows : 0 < rows) (hcols : 0 < cols)
    (h : ∀ cell, inGrid rows cols cell → plane cell = plane' cell) :
    planeMax rows cols plane = planeMax rows cols plane' := by
  have horigin : inGrid rows cols (0, 0) := by unfold inGrid; omega
  unfold planeMax
  rw [h (0, 0) horigin, List.map_congr_left fun cell hcell => h cell (mem_gridCells.mp hcell)]

theorem planeMin_congr {plane plane' : Cell → Rat} (hrows : 0 < rows) (hcols : 0 < cols)
    (h : ∀ cell, inGrid rows cols cell → plane cell = plane' cell) :
    planeMin rows cols plane = planeMin rows cols plane' := by
  have horigin : inGrid rows cols (0, 0) := by unfold inGrid; omega
  unfold planeMin
  rw [h (0, 0) horigin, List.map_congr_left fun cell hcell => h cell (mem_gridCells.mp hcell)]

end Extremes

/-! ## The composed scene -/

/-- A raster of the scene. -/
structure Plane where
  rows : Nat
  cols : Nat
  value : Cell → Rat

def Plane.shape (plane : Plane) : Nat × Nat := (plane.rows, plane.cols)

structure MarchInputs where
  rows : Nat
  cols : Nat
  a : Cell → Rat
  canopy : Cell → Rat
  dem : Cell → Rat
  vegdem : Cell → Rat
  vegdem2 : Cell → Rat
  bush : Cell → Rat
  vegdsm : Cell → Rat
  vegdsm2 : Cell → Rat
  amaxvalue : Rat

inductive ComposeError where
  | shapeMismatch (a dem canopy : Nat × Nat)
  | zeroSize
  deriving DecidableEq

/-- `bush` where `logical_not(vegdem2 * vegdem)` holds. -/
def bushOf (vegdem vegdem2 : Rat) : Rat := (if vegdem2 * vegdem = 0 then 1 else 0) * vegdem

/-- A canopy plane over the surface; a cell where it adds nothing is 0. -/
def overSurface (height surface : Rat) : Rat :=
  if height + surface = surface then 0 else height + surface

def composeMarchInputs (a dem canopy : Plane) : Except ComposeError MarchInputs := do
  refuseIf (¬ (a.shape = dem.shape ∧ dem.shape = canopy.shape))
    (.shapeMismatch a.shape dem.shape canopy.shape)
  -- the maximum of an array without cells raises
  refuseIf (a.rows = 0 ∨ a.cols = 0) .zeroSize
  let temp1 := fun cell => if canopy.value cell < 0 then 0 else canopy.value cell
  let vegdem := fun cell => temp1 cell + dem.value cell
  let vegdem2 := fun cell => temp1 cell * (1 / 4) + dem.value cell
  pure
    { rows := a.rows
      cols := a.cols
      a := a.value
      canopy := temp1
      dem := dem.value
      vegdem := vegdem
      vegdem2 := vegdem2
      bush := fun cell => bushOf (vegdem cell) (vegdem2 cell)
      vegdsm := fun cell => overSurface (temp1 cell) (a.value cell)
      vegdsm2 := fun cell => overSurface (temp1 cell * (1 / 4)) (a.value cell)
      amaxvalue := max (planeMax a.rows a.cols a.value) (planeMax a.rows a.cols vegdem) }

theorem composeMarchInputs_pos {a dem canopy : Plane} {scene : MarchInputs}
    (h : composeMarchInputs a dem canopy = .ok scene) : 0 < scene.rows ∧ 0 < scene.cols := by
  unfold composeMarchInputs at h
  simp only [except_bind_ok, refuseIf_ok] at h
  obtain ⟨_, -, _, hsize, h⟩ := h
  cases h
  dsimp only
  omega

namespace MarchInputs

def shape (scene : MarchInputs) : Nat × Nat := (scene.rows, scene.cols)

/-- The highest of the three planes that a step reads. -/
def top (scene : MarchInputs) : Rat :=
  max (max (planeMax scene.rows scene.cols scene.a) (planeMax scene.rows scene.cols scene.vegdsm))
    (planeMax scene.rows scene.cols scene.vegdsm2)

end MarchInputs

def sceneRelativeBound (scene : MarchInputs) : Rat :=
  scene.top - planeMin scene.rows scene.cols scene.a

def effectiveAmplitude (scene : MarchInputs) : Rat :=
  min (max (sceneRelativeBound scene) 0) scene.amaxvalue

theorem sceneRelativeBound_nonneg (scene : MarchInputs) : 0 ≤ sceneRelativeBound scene := by
  unfold sceneRelativeBound MarchInputs.top
  have hle := planeMin_le_planeMax scene.rows scene.cols scene.a
  rw [sub_nonneg]
  exact hle.trans ((le_max_left _ _).trans (le_max_left _ _))

theorem effectiveAmplitude_eq (scene : MarchInputs) :
    effectiveAmplitude scene = min (sceneRelativeBound scene) scene.amaxvalue := by
  unfold effectiveAmplitude
  rw [max_eq_left (sceneRelativeBound_nonneg scene)]

/-- Each value that a step reads lies below the surface of any cell, once the step is as high as
the bound. -/
theorem read_lt {scene : MarchInputs} {cell source : Cell} {dz : Rat}
    (hcell : inGrid scene.rows scene.cols cell) (hsource : inGrid scene.rows scene.cols source)
    (hdz : sceneRelativeBound scene < dz) : scene.a source - dz < scene.a cell ∧
      scene.vegdsm source - dz < scene.a cell ∧ scene.vegdsm2 source - dz < scene.a cell := by
  have hmin := planeMin_le scene.a hcell
  have ha := le_planeMax scene.a hsource
  have hveg := le_planeMax scene.vegdsm hsource
  have hveg2 := le_planeMax scene.vegdsm2 hsource
  unfold sceneRelativeBound MarchInputs.top at hdz
  have hmax := le_max_left (max (planeMax scene.rows scene.cols scene.a)
    (planeMax scene.rows scene.cols scene.vegdsm)) (planeMax scene.rows scene.cols scene.vegdsm2)
  have hmax2 := le_max_right (max (planeMax scene.rows scene.cols scene.a)
    (planeMax scene.rows scene.cols scene.vegdsm)) (planeMax scene.rows scene.cols scene.vegdsm2)
  have hleft := le_max_left (planeMax scene.rows scene.cols scene.a)
    (planeMax scene.rows scene.cols scene.vegdsm)
  have hright := le_max_right (planeMax scene.rows scene.cols scene.a)
    (planeMax scene.rows scene.cols scene.vegdsm)
  refine ⟨?_, ?_, ?_⟩ <;> linarith

/-! ## The changed cells -/

inductive MaskError where
  /-- The candidate mask missed some changed cells. -/
  | missed (cells : Nat)
  deriving DecidableEq

/-- Some plane that the march reads differs. -/
def inputsDiffer (pre post : MarchInputs) : Mask := fun cell =>
  pre.a cell ≠ post.a cell ∨ pre.vegdsm cell ≠ post.vegdsm cell ∨
    pre.vegdsm2 cell ≠ post.vegdsm2 cell ∨ pre.bush cell ≠ post.bush cell

theorem inputsDiffer_eq_false {pre post : MarchInputs} {cell : Cell} :
    inputsDiffer pre post cell = false ↔ pre.a cell = post.a cell ∧
      pre.vegdsm cell = post.vegdsm cell ∧ pre.vegdsm2 cell = post.vegdsm2 cell ∧
      pre.bush cell = post.bush cell := by
  unfold inputsDiffer
  simp

def composedChangeMask (pre post : MarchInputs) (restrict : Option Mask) (verifyRestrict : Bool) :
    Except MaskError Mask :=
  match restrict with
  | none => .ok (inputsDiffer pre post)
  | some restrict =>
    let missed := (gridCells pre.rows pre.cols).countP fun cell =>
      inputsDiffer pre post cell && !restrict cell
    if verifyRestrict = true ∧ 0 < missed then .error (.missed missed)
    else .ok fun cell => inputsDiffer pre post cell && restrict cell

end Solweig.Sparse
