import Mathlib.Data.Rat.Floor
import Solweig.Incremental.Rectangles
import Solweig.Sparse.TorchShadow

/-!
# March windows of a sky patch

The extent that the march of one sky patch runs on: the accumulate window, carried as far as the
march reads in the directions that it reads toward, and clamped to the read window.
-/

namespace Solweig.Sparse

open Solweig.Lib Solweig.Planner Solweig.Incremental

/-- The trigonometry of an angle in degrees. -/
structure Trigonometry where
  sin : Rat → Rat
  cos : Rat → Rat
  tan : Rat → Rat

/-- Between the horizon and the zenith the tangent is positive and never falls. -/
structure Trigonometry.TanRises (t : Trigonometry) : Prop where
  pos : ∀ altitude, 0 < altitude → altitude < 90 → 0 < t.tan altitude
  mono : ∀ low high, 0 < low → low ≤ high → high < 90 → t.tan low ≤ t.tan high

/-! ## Reach and direction -/

/-- The altitude that the reach takes the tangent of. -/
def reachAltitude (altitude : Rat) : Rat := min altitude (89999 / 1000)

def patchMarchReachPixels (t : Trigonometry) (heightAmplitude scale altitude : Rat) : Int :=
  if 90 ≤ altitude then 1
  else if altitude ≤ 0 then 0
  else
    let tanAlt := t.tan (reachAltitude altitude)
    if tanAlt ≤ 0 then 0 else ⌈heightAmplitude * scale / tanAlt⌉ + 1

/-- `math.fmod`, which keeps the sign of `x`. -/
def fmod (x y : Rat) : Rat := x - y * (if 0 ≤ x / y then ⌊x / y⌋ else ⌈x / y⌉ : Int)

/-- The sign of a sine or cosine, 0 where it is as good as zero. -/
def trigSign (v : Rat) : Int :=
  if v > 1 / 10 ^ 12 then 1 else if v < -(1 / 10 ^ 12) then -1 else 0

def quadrantReadDirection (t : Trigonometry) (azimuth : Rat) : Int × Int :=
  let az := fmod azimuth 360
  let az := if az < 0 then az + 360 else az
  (-trigSign (t.cos az), trigSign (t.sin az))

/-! ## The window -/

def marchStart (dir reach start readStart : Int) : Int :=
  max (start - if dir < 0 then reach else 0) readStart

def marchStop (dir reach stop readStop : Int) : Int :=
  min (stop + if dir > 0 then reach else 0) readStop

/-- `RasterWindow(..)`, which refuses stops below their starts. -/
def rasterWindow? (rowStart rowStop colStart colStop : Int) : Option RasterWindow :=
  if h : rowStart ≤ rowStop ∧ colStart ≤ colStop then
    some ⟨rowStart, rowStop, colStart, colStop, h.1, h.2⟩
  else none

def patchMarchWindow (t : Trigonometry) (accumulate read : RasterWindow) (azimuth : Rat)
    (reach : Int) : Option RasterWindow :=
  let dir := quadrantReadDirection t azimuth
  rasterWindow?
    (marchStart dir.1 reach accumulate.rowStart read.rowStart)
    (marchStop dir.1 reach accumulate.rowStop read.rowStop)
    (marchStart dir.2 reach accumulate.colStart read.colStart)
    (marchStop dir.2 reach accumulate.colStop read.colStop)

/-! ## The planes -/

/-- The slices of a window. -/
def crop (scene : MarchInputs) (window : RasterWindow) : MarchInputs :=
  let sliced (plane : Cell → Rat) : Cell → Rat := fun cell =>
    plane (cell.1 + window.rowStart, cell.2 + window.colStart)
  { rows := windowHeight window
    cols := windowWidth window
    a := sliced scene.a
    canopy := sliced scene.canopy
    dem := sliced scene.dem
    vegdem := sliced scene.vegdem
    vegdem2 := sliced scene.vegdem2
    bush := sliced scene.bush
    vegdsm := sliced scene.vegdsm
    vegdsm2 := sliced scene.vegdsm2
    amaxvalue := scene.amaxvalue }

/-- A window counted from the corner of another. -/
def relativeTo (window other : RasterWindow) : RasterWindow where
  rowStart := window.rowStart - other.rowStart
  rowStop := window.rowStop - other.rowStart
  colStart := window.colStart - other.colStart
  colStop := window.colStop - other.colStart
  rows := by have := window.rows; omega
  cols := by have := window.cols; omega

def cellIn (window : RasterWindow) (cell : Cell) : Cell :=
  (cell.1 - window.rowStart, cell.2 - window.colStart)

section PatchGrid

variable (t : Trigonometry) (scene : MarchInputs) (window accumulate : RasterWindow)
  (azimuth altitude scale amplitude : Rat) (sequence : Nat → Step)

/-- `_patch_grid`: the march is narrowed where no bush stands. -/
def patchGrid : Option RasterWindow :=
  if bushFreeMarches (crop scene window) then
    patchMarchWindow t accumulate window azimuth (patchMarchReachPixels t amplitude scale altitude)
  else some window

/-- The march on the whole read window, at a cell of the site. -/
def fullMarch (cell : Cell) : MarchOutputs :=
  shadow (crop scene window) amplitude sequence (cellIn window cell)

/-- The march on the grid of the patch, sliced from the planes of the read window. -/
def gridMarch (march : RasterWindow) (cell : Cell) : MarchOutputs :=
  shadow (crop (crop scene window) (relativeTo march window)) amplitude sequence (cellIn march cell)

/-- Each cell of the accumulate window gets from the grid of the patch what the march on the whole
read window gives it. -/
def WindowExact : Prop :=
  ∀ cell, holds accumulate cell = true →
    ∃ march, patchGrid t scene window accumulate azimuth altitude scale amplitude = some march ∧
      holds march cell = true ∧
      gridMarch scene window amplitude sequence march cell =
        fullMarch scene window amplitude sequence cell

end PatchGrid

/-! ## Marches -/

/-- An axis that moves one way only. -/
def OneWay (dir : Int) (shift : Nat → Int) : Prop :=
  ∃ n : Nat → Nat, Monotone n ∧ ∀ k, shift k = dir * n k

/-- Step `k + 1` shifts by `k + 1` cells on the dominant axis and by no more on the other. -/
structure MarchesToward (dir : Int × Int) (sequence : Nat → Step) : Prop where
  dominant : (∀ k : Nat, |(sequence k).dx| = k + 1 ∧ |(sequence k).dy| ≤ k + 1) ∨
    ∀ k : Nat, |(sequence k).dy| = k + 1 ∧ |(sequence k).dx| ≤ k + 1
  rows : OneWay dir.1 fun k => (sequence k).dx
  cols : OneWay dir.2 fun k => (sequence k).dy

/-- Step `k + 1` lies at least that many tangents up. At the zenith no amplitude comes so high. -/
def Climbs (t : Trigonometry) (altitude scale amplitude : Rat) (sequence : Nat → Step) : Prop :=
  ∀ k : Nat, if altitude < 90 then (k + 1) * t.tan altitude / scale ≤ (sequence k).dz
    else amplitude < (sequence k).dz

/-! ## One axis -/

section Axis

variable {dir reach accStart accStop readStart readStop x n n' : Int}

theorem trigSign_cases (v : Rat) : trigSign v = -1 ∨ trigSign v = 0 ∨ trigSign v = 1 := by
  unfold trigSign
  split_ifs <;> simp

theorem MarchesToward.short {dir : Int × Int} {sequence : Nat → Step}
    (h : MarchesToward dir sequence) (k : Nat) :
    |(sequence k).dx| ≤ k + 1 ∧ |(sequence k).dy| ≤ k + 1 := by
  rcases h.dominant with h | h
  · exact ⟨(h k).1.le, (h k).2⟩
  · exact ⟨(h k).2, (h k).1.le⟩

theorem OneWay.eq_abs {shift : Nat → Int} (hdir : dir = -1 ∨ dir = 0 ∨ dir = 1)
    (h : OneWay dir shift) (k : Nat) : shift k = dir * |shift k| := by
  obtain ⟨n, -, hn⟩ := h
  rw [hn k]
  rcases hdir with rfl | rfl | rfl <;> simp

theorem OneWay.moves {shift : Nat → Int} (hdir : dir = -1 ∨ dir = 0 ∨ dir = 1)
    (h : OneWay dir shift) {k : Nat} (hk : 0 < |shift k|) : dir = -1 ∨ dir = 1 := by
  rw [h.eq_abs hdir k] at hk
  rcases hdir with hdir | hdir | hdir
  · exact Or.inl hdir
  · simp [hdir] at hk
  · exact Or.inr hdir

theorem OneWay.abs_mono {shift : Nat → Int} (hdir : dir = -1 ∨ dir = 0 ∨ dir = 1)
    (h : OneWay dir shift) {k l : Nat} (hkl : k ≤ l) : |shift k| ≤ |shift l| := by
  obtain ⟨n, hmono, hn⟩ := h
  have hle := hmono hkl
  rw [hn k, hn l]
  rcases hdir with rfl | rfl | rfl <;> simp [hle]

variable (readStart readStop) in
theorem axis_inside (hdir : dir = -1 ∨ dir = 0 ∨ dir = 1) (hx : accStart ≤ x ∧ x < accStop)
    (hn : 0 ≤ n ∧ n ≤ reach) :
    (marchStart dir reach accStart readStart ≤ x + dir * n ∧
      x + dir * n < marchStop dir reach accStop readStop) ↔
      readStart ≤ x + dir * n ∧ x + dir * n < readStop := by
  unfold marchStart marchStop
  rcases hdir with rfl | rfl | rfl <;> simp <;> omega

theorem axis_holds (hdir : dir = -1 ∨ dir = 0 ∨ dir = 1) (hx : accStart ≤ x ∧ x < accStop)
    (hread : readStart ≤ accStart ∧ accStop ≤ readStop) (hreach : 0 ≤ reach) :
    marchStart dir reach accStart readStart ≤ x ∧ x < marchStop dir reach accStop readStop := by
  have hinside := axis_inside readStart readStop hdir hx ⟨le_refl 0, hreach⟩
  rw [mul_zero, add_zero] at hinside
  exact hinside.mpr (by omega)

theorem axis_outside (hdir : dir = -1 ∨ dir = 0 ∨ dir = 1) (hx : accStart ≤ x ∧ x < accStop)
    (hread : readStart ≤ accStart ∧ accStop ≤ readStop) (hn : n ≤ reach) (hlonger : n ≤ n')
    (hsize : marchStop dir reach accStop readStop - marchStart dir reach accStart readStart ≤
      |dir * n|) (hpos : 0 ≤ n) :
    ¬ (readStart ≤ x + dir * n' ∧ x + dir * n' < readStop) := by
  unfold marchStart marchStop at hsize
  rcases hdir with rfl | rfl | rfl <;> simp [abs_of_nonneg hpos] at hsize ⊢ <;> omega

variable (readStart readStop) in
theorem axis_short (hdir : dir = -1 ∨ dir = 1) (hacc : accStart < accStop) (hreach : reach < 0) :
    ∃ x, (accStart ≤ x ∧ x < accStop) ∧ ¬ (marchStart dir reach accStart readStart ≤ x ∧
      x < marchStop dir reach accStop readStop) := by
  unfold marchStart marchStop
  rcases hdir with rfl | rfl
  · exact ⟨accStart, by omega, by simp; omega⟩
  · exact ⟨accStop - 1, by omega, by simp; omega⟩

/-- One cell thick, at the edge of the read axis that the shift goes over. -/
def OnEdge (shift accStart accStop readStart readStop : Int) : Prop :=
  accStop = accStart + 1 ∧ (shift = -1 ∧ accStart = readStart ∨ shift = 1 ∧ accStop = readStop)

theorem axis_edge (hdir : dir = -1 ∨ dir = 0 ∨ dir = 1) (hacc : accStart < accStop)
    (hread : readStart ≤ accStart ∧ accStop ≤ readStop) (hreach : 1 ≤ reach) (hn : 0 ≤ n ∧ n ≤ 1) :
    marchStop dir reach accStop readStop - marchStart dir reach accStart readStart ≤ |dir * n| ↔
      OnEdge (dir * n) accStart accStop readStart readStop := by
  have hcases : n = 0 ∨ n = 1 := by omega
  unfold marchStart marchStop OnEdge
  rcases hcases with rfl | rfl <;> rcases hdir with rfl | rfl | rfl <;> simp <;> omega

end Axis

end Solweig.Sparse
