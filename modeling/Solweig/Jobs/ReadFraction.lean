import Mathlib.Algebra.Order.BigOperators.Group.List
import Mathlib.Algebra.Order.Field.Rat
import Mathlib.Algebra.Order.Floor.Ring
import Mathlib.Data.Finset.Prod
import Mathlib.Data.Int.Range
import Mathlib.Data.Rat.Floor
import Mathlib.Tactic.FieldSimp
import Mathlib.Tactic.Linarith
import Solweig.Lib.Doubles
import Solweig.Planner.Merging

/-!
# The fraction of the site that was read

A metric of a job: how much of the site the windows hold that its solve has touched. It adds up
the areas of the merged windows, which are bounding boxes.
-/

namespace Solweig.Jobs

open Solweig.Lib Solweig.Lib.Doubles Solweig.Planner RasterWindow

/-- `round(x, 6)`: the nearest number of six decimals, as a double. -/
def roundSix (x : Rat) : Rat := toDouble (roundHalfEven (x * 1000000) / 1000000)

/-- `/` rounds the quotient to a double before `round` sees it. -/
def unionWindowAreaFraction (windows : List RasterWindow) (grid : RasterGrid) : Option Rat :=
  if windows.isEmpty then none
  else some (roundSix (toDouble
    (((merge windows).map area).sum / (grid.rows * grid.cols : Nat))))

/-! ## Cells -/

def cells (w : RasterWindow) : Finset (Int × Int) :=
  (Int.range w.rowStart w.rowStop).toFinset ×ˢ (Int.range w.colStart w.colStop).toFinset

/-- The cells that lie in one of the windows. -/
def coveredCells (windows : List RasterWindow) : Finset (Int × Int) :=
  windows.toFinset.biUnion cells

/-- The cells that merging takes in, and that lie in none of the windows. -/
def addedCells (windows : List RasterWindow) : Finset (Int × Int) :=
  coveredCells (merge windows) \ coveredCells windows

theorem mem_cells {w : RasterWindow} {cell : Int × Int} : cell ∈ cells w ↔ w.Holds cell := by
  unfold cells Holds
  rw [Finset.mem_product, List.mem_toFinset, List.mem_toFinset, Int.mem_range_iff,
    Int.mem_range_iff, and_assoc]

theorem mem_coveredCells {windows : List RasterWindow} {cell : Int × Int} :
    cell ∈ coveredCells windows ↔ ∃ w ∈ windows, w.Holds cell := by
  simp [coveredCells, mem_cells]

theorem card_range (start stop : Int) :
    (Int.range start stop).toFinset.card = (stop - start).toNat := by
  unfold Int.range
  rw [List.toFinset_card_of_nodup, List.length_map, List.length_range]
  exact List.nodup_range.map fun a b h => by simpa using h

theorem card_cells (w : RasterWindow) : ((cells w).card : Int) = w.area := by
  have hrows := w.rows
  have hcols := w.cols
  unfold cells area
  rw [Finset.card_product, card_range, card_range, Nat.cast_mul,
    Int.toNat_of_nonneg (by omega), Int.toNat_of_nonneg (by omega), mul_comm]

theorem disjoint_cells {a b : RasterWindow} (h : a.Apart b) : Disjoint (cells a) (cells b) := by
  rw [Finset.disjoint_left]
  intro cell ha hb
  rw [mem_cells] at ha hb
  unfold RasterWindow.Apart intersects intersectsWithin at h
  simp only [decide_eq_false_iff_not, not_not] at h
  unfold Holds at ha hb
  omega

theorem sum_area {merged : List RasterWindow} (hnodup : merged.Nodup)
    (h : merged.Pairwise RasterWindow.Apart) : (merged.map area).sum = (coveredCells merged).card := by
  induction merged with
  | nil => simp [coveredCells]
  | cons w merged ih =>
    obtain ⟨hw, hrest⟩ := List.pairwise_cons.mp h
    have hdisjoint : Disjoint (cells w) (coveredCells merged) := by
      unfold coveredCells
      rw [Finset.disjoint_biUnion_right]
      exact fun other hother => disjoint_cells (hw other (List.mem_toFinset.mp hother))
    have hcons : coveredCells (w :: merged) = cells w ∪ coveredCells merged := by
      simp [coveredCells]
    rw [List.map_cons, List.sum_cons, ih hnodup.of_cons hrest, hcons,
      Finset.card_union_of_disjoint hdisjoint, Nat.cast_add, card_cells]

theorem coveredCells_subset (windows : List RasterWindow) :
    coveredCells windows ⊆ coveredCells (merge windows) := by
  intro cell hcell
  obtain ⟨w, hw, hholds⟩ := mem_coveredCells.mp hcell
  have hoccupied : w.Occupied := by
    unfold Holds at hholds
    unfold Occupied
    omega
  obtain ⟨m, hm, hwm⟩ := (merge_merges windows).covers w
    (List.mem_filter.mpr ⟨hw, by simp [occupied_iff.mp hoccupied]⟩)
  exact mem_coveredCells.mpr ⟨m, hm, hwm.holds hholds⟩

theorem sum_area_merge (windows : List RasterWindow) :
    ((merge windows).map area).sum =
      ((coveredCells windows).card + (addedCells windows).card : Nat) := by
  have h := merge_clustered windows
  rw [sum_area (h.separate.nodup (joins_union 0) h.good) (merge_merges windows).apart]
  have hsub := coveredCells_subset windows
  have hcard := Finset.card_sdiff_add_card_eq_card hsub
  unfold addedCells
  norm_cast
  omega

/-! ## Exactness -/

/-- The number of covered cells by the number of cells. -/
def coveredFraction (windows : List RasterWindow) (grid : RasterGrid) : Rat :=
  toDouble ((coveredCells windows).card / grid.areaPixels)

/-- The part of the site that the merged windows hold. -/
def heldFraction (windows : List RasterWindow) (grid : RasterGrid) : Rat :=
  ((coveredCells windows).card + (addedCells windows).card : Nat) / grid.areaPixels

/-- The held part is rounded to `m` millionths, and the covered part is the double of as many. -/
def RoundsTo (windows : List RasterWindow) (grid : RasterGrid) (m : Int) : Prop :=
  toDouble (m / 1000000) = coveredFraction windows grid ∧
    IsNearest (toDouble (heldFraction windows grid) * 1000000) m

/-- The covered cells are `k` millionths of the site, and merging adds fewer cells than round
away. Half a millionth goes the way the double of the quotient does. -/
def RoundsAway (windows : List RasterWindow) (grid : RasterGrid) (k : Nat) : Prop :=
  (coveredCells windows).card * 1000000 = k * grid.areaPixels ∧
    (2000000 * (addedCells windows).card < grid.areaPixels ∨
      2000000 * (addedCells windows).card = grid.areaPixels ∧
        (toDouble (heldFraction windows grid) < heldFraction windows grid ∨
          toDouble (heldFraction windows grid) = heldFraction windows grid ∧ k % 2 = 0))

theorem unionWindowAreaFraction_eq {windows : List RasterWindow} (grid : RasterGrid)
    (hne : windows ≠ []) :
    unionWindowAreaFraction windows grid =
      some (roundSix (toDouble (heldFraction windows grid))) := by
  unfold unionWindowAreaFraction heldFraction
  rw [if_neg (by simpa using hne), sum_area_merge]
  rfl

theorem exact_iff_roundsTo (windows : List RasterWindow) (grid : RasterGrid) :
    unionWindowAreaFraction windows grid = some (coveredFraction windows grid) ↔
      windows ≠ [] ∧ ∃ m, RoundsTo windows grid m := by
  by_cases hne : windows = []
  · simp [hne, unionWindowAreaFraction]
  rw [unionWindowAreaFraction_eq grid hne, Option.some.injEq]
  unfold roundSix
  constructor
  · intro h
    exact ⟨hne, _, h, isNearest_roundHalfEven _⟩
  · rintro ⟨-, m, hcovered, hnearest⟩
    rw [roundHalfEven_eq_iff.mpr hnearest]
    exact hcovered

/-! ### Windows of the site -/

theorem card_held_le {windows : List RasterWindow} {grid : RasterGrid}
    (h : ∀ w ∈ windows, w.Within grid.fullWindow) :
    (coveredCells windows).card + (addedCells windows).card ≤ grid.areaPixels := by
  have hsub : coveredCells (merge windows) ⊆ cells grid.fullWindow := by
    intro cell hcell
    obtain ⟨m, hm, hholds⟩ := mem_coveredCells.mp hcell
    have hbounded := (merge_merges windows).bounded grid.fullWindow
      (fun w hw => h w (List.mem_filter.mp hw).1) m hm
    exact mem_cells.mpr (hbounded.holds hholds)
  have hheld := Finset.card_le_card hsub
  have hcard := Finset.card_sdiff_add_card_eq_card (coveredCells_subset windows)
  have hfull : ((cells grid.fullWindow).card : Int) = grid.areaPixels := by
    rw [card_cells]
    simp [area, RasterGrid.fullWindow, RasterGrid.areaPixels, mul_comm]
  unfold addedCells
  have hfull' : (cells grid.fullWindow).card = grid.areaPixels := by exact_mod_cast hfull
  omega

section Fractions

variable {c u n k : Nat} {m : Int} {held : Rat}

theorem millionths_eq (hn : 0 < n) (hsmall : n ≤ 2 ^ 33) (hc : c ≤ n) (hm : 0 ≤ m)
    (hmle : m ≤ 1000000) (h : toDouble (m / 1000000) = toDouble (c / n)) :
    m * n = c * 1000000 := by
  have hpos : (0 : Rat) < n := by exact_mod_cast hn
  have hcle : (c : Rat) ≤ n := by exact_mod_cast hc
  have hm' : (0 : Rat) ≤ m := by exact_mod_cast hm
  have hmle' : (m : Rat) ≤ 1000000 := by exact_mod_cast hmle
  have hmillionths := abs_toDouble_sub_le_of_fraction
    (div_nonneg hm' (by norm_num)) ((div_le_one (by norm_num)).mpr hmle')
  have hcovered := abs_toDouble_sub_le_of_fraction
    (div_nonneg (Nat.cast_nonneg c) hpos.le) ((div_le_one hpos).mpr hcle)
  rw [h] at hmillionths
  have hclose : |(m : Rat) / 1000000 - c / n| ≤ 1 / 2 ^ 53 := by
    rw [abs_le] at *
    constructor <;> linarith [hmillionths.1, hmillionths.2, hcovered.1, hcovered.2]
  have hdiff : (m : Rat) / 1000000 - c / n = (m * n - c * 1000000) / (1000000 * n) := by
    rw [div_sub_div _ _ (by norm_num) hpos.ne', mul_comm (1000000 : Rat) c]
  rw [hdiff, abs_div, abs_of_pos (by positivity : (0 : Rat) < 1000000 * n),
    div_le_iff₀ (by positivity)] at hclose
  have hsmall' : (n : Rat) ≤ 2 ^ 33 := by exact_mod_cast hsmall
  have hlt : |(m : Rat) * n - c * 1000000| < 1 := by
    refine hclose.trans_lt ?_
    linarith
  have hint : |m * n - c * 1000000| < 1 := by exact_mod_cast hlt
  exact sub_eq_zero.mp (Int.abs_lt_one_iff.mp hint)

/-- The double of `k` millionths and `u` cells is nearest to `k` when the cells are less than half
a millionth. -/
theorem isNearest_toDouble_iff (hn : 0 < n) (hsmall : n ≤ 2 ^ 33) (hle : c + u ≤ n)
    (hk : c * 1000000 = k * n) (hheld : held = (c + u : Nat) / n) :
    IsNearest (toDouble held * 1000000) k ↔
      2000000 * u < n ∨ 2000000 * u = n ∧
        (toDouble held < held ∨ toDouble held = held ∧ k % 2 = 0) := by
  have hpos : (0 : Rat) < n := by exact_mod_cast hn
  have hsmall' : (n : Rat) ≤ 2 ^ 33 := by exact_mod_cast hsmall
  have hvalue : held * 1000000 = k + u * 1000000 / n := by
    have hk' : (c : Rat) * 1000000 = k * n := by exact_mod_cast hk
    rw [hheld, Nat.cast_add]
    field_simp
    linarith
  have hfraction : held ≤ 1 := by
    rw [hheld, div_le_one hpos]
    exact_mod_cast hle
  have herror := abs_toDouble_sub_le_of_fraction (by rw [hheld]; positivity) hfraction
  rw [abs_le] at herror
  have hrest : (0 : Rat) ≤ u * 1000000 / n := by positivity
  have hparity : (k : Int) % 2 = 0 ↔ k % 2 = 0 := by omega
  unfold IsNearest
  rw [hparity, Int.cast_natCast]
  generalize toDouble held = double at *
  have hlow : -(1 / 2) < double * 1000000 - k := by linarith [herror.1]
  -- the cells in twos of a millionth, one cell more or less than half of it
  rcases lt_trichotomy (2000000 * u) n with hless | hhalf | hmore
  · have hgap : (2000000 * u + 1 : Rat) ≤ n := by exact_mod_cast hless
    have hrestLe : (u : Rat) * 1000000 / n ≤ 1 / 2 - 1 / 2 ^ 34 := by
      rw [div_le_iff₀ hpos]
      linarith
    refine iff_of_true (Or.inl ?_) (Or.inl hless)
    rw [abs_lt]
    constructor <;> linarith [herror.2]
  · have hhalf' : (2000000 * u : Rat) = n := by exact_mod_cast hhalf
    have hrestEq : (u : Rat) * 1000000 / n = 1 / 2 := by
      rw [div_eq_iff hpos.ne']
      linarith
    rw [or_iff_right hhalf.not_lt, and_iff_right hhalf]
    rcases lt_trichotomy double held with hbelow | heq | habove
    · exact iff_of_true (Or.inl (abs_lt.mpr ⟨by linarith, by linarith⟩)) (Or.inl hbelow)
    · have hy : double * 1000000 - k = 1 / 2 := by linarith
      rw [hy, abs_of_pos (by norm_num)]
      simp [heq]
    · have hbig : 1 / 2 < double * 1000000 - k := by linarith
      rw [abs_of_pos (by linarith)]
      refine iff_of_false ?_ ?_
      · rintro (h | ⟨h, -⟩) <;> linarith
      · rintro (h | ⟨h, -⟩) <;> linarith
  · have hgap : (n + 1 : Rat) ≤ 2000000 * u := by exact_mod_cast hmore
    have hrestGe : 1 / 2 + 1 / 2 ^ 34 ≤ (u : Rat) * 1000000 / n := by
      rw [le_div_iff₀ hpos]
      linarith
    refine iff_of_false ?_ (by omega)
    have hbig : 1 / 2 < double * 1000000 - k := by linarith [herror.1]
    rw [abs_of_pos (by linarith)]
    rintro (h | ⟨h, -⟩) <;> linarith

end Fractions

theorem roundsTo_iff_roundsAway {windows : List RasterWindow} {grid : RasterGrid}
    (hwithin : ∀ w ∈ windows, w.Within grid.fullWindow) (hsmall : grid.areaPixels ≤ 2 ^ 33) :
    (∃ m, RoundsTo windows grid m) ↔ ∃ k, RoundsAway windows grid k := by
  have hn : 0 < grid.areaPixels := Nat.mul_pos grid.rowsPos grid.colsPos
  have hheld := card_held_le hwithin
  constructor
  · rintro ⟨m, hcovered, hnearest⟩
    have hpos : (0 : Rat) < grid.areaPixels := by exact_mod_cast hn
    have hnonneg : 0 ≤ heldFraction windows grid := by
      unfold heldFraction
      positivity
    have hone : heldFraction windows grid ≤ 1 := by
      unfold heldFraction
      rw [div_le_one hpos]
      exact_mod_cast hheld
    have herror := abs_le.mp (abs_toDouble_sub_le_of_fraction hnonneg hone)
    have hwhole := abs_le.mp hnearest.within
    -- the part of a site rounds to between none and all of the millionths
    have hm : 0 ≤ m := by
      have : (-1 : Rat) < m := by linarith [hwhole.2, herror.1]
      have : -1 < m := by exact_mod_cast this
      omega
    have hmle : m ≤ 1000000 := by
      have : (m : Rat) < 1000001 := by linarith [hwhole.1, herror.2]
      have : m < 1000001 := by exact_mod_cast this
      omega
    have hmillionths := millionths_eq hn hsmall (by omega) hm hmle hcovered
    obtain ⟨k, rfl⟩ := Int.eq_ofNat_of_zero_le hm
    have hk : (coveredCells windows).card * 1000000 = k * grid.areaPixels := by
      exact_mod_cast hmillionths.symm
    exact ⟨k, hk, (isNearest_toDouble_iff hn hsmall hheld hk rfl).mp hnearest⟩
  · rintro ⟨k, hk, hadded⟩
    refine ⟨k, ?_, (isNearest_toDouble_iff hn hsmall hheld hk rfl).mpr hadded⟩
    have hk' : ((coveredCells windows).card : Rat) * 1000000 = k * grid.areaPixels := by
      exact_mod_cast hk
    have hpos : (0 : Rat) < grid.areaPixels := by exact_mod_cast hn
    unfold coveredFraction
    rw [Int.cast_natCast, (div_eq_div_iff (by norm_num) hpos.ne').mpr hk'.symm]

/-- The metric is the covered fraction exactly when the double of the held part rounds to a number
of millionths that has the double of the covered part. On a site, whose cells are fewer than the
doubles between two millionths, the covered cells are then that many millionths, and what merging
adds is rounded away. Otherwise the metric is the part that the merged windows hold. -/
theorem unionWindowAreaFraction_exact_iff (windows : List RasterWindow) (grid : RasterGrid) :
    (unionWindowAreaFraction windows grid = some (coveredFraction windows grid) ↔
      windows ≠ [] ∧ ∃ m, RoundsTo windows grid m) ∧
    ((∀ w ∈ windows, w.Within grid.fullWindow) → grid.areaPixels ≤ 2 ^ 33 →
      (unionWindowAreaFraction windows grid = some (coveredFraction windows grid) ↔
        windows ≠ [] ∧ ∃ k, RoundsAway windows grid k)) ∧
    (windows ≠ [] → unionWindowAreaFraction windows grid =
      some (roundSix (toDouble (heldFraction windows grid)))) := by
  refine ⟨exact_iff_roundsTo windows grid, fun hwithin hsmall => ?_,
    unionWindowAreaFraction_eq grid⟩
  rw [exact_iff_roundsTo, roundsTo_iff_roundsAway hwithin hsmall]

/-- The window of one cell. -/
def cellWindow (row col : Int) : RasterWindow :=
  ⟨row, row + 1, col, col + 1, Int.le_add_one row.le_refl, Int.le_add_one col.le_refl⟩

def smallGrid : RasterGrid := ⟨10, 10, 1, by decide, by decide⟩

/-- Three cells in a row, one of them twice. -/
def rowCells : List RasterWindow :=
  [cellWindow 0 2, cellWindow 0 0, cellWindow 0 1, cellWindow 0 0]

def wideGrid : RasterGrid := ⟨1000, 2000, 1, by decide, by decide⟩

/-- Eight cells of a box of nine. -/
def notchedBox : List RasterWindow :=
  [(cellWindow 0 0).union (cellWindow 2 1), (cellWindow 1 2).union (cellWindow 2 2)]

/-- Three hundredths are three hundredths. Of two million cells the ninth is half a millionth, and
`9 / 2000000` is a double above four and a half of them: the metric says five. -/
theorem unionWindowAreaFraction_exact_iff_sites :
    unionWindowAreaFraction rowCells smallGrid = some (coveredFraction rowCells smallGrid) ∧
      coveredFraction rowCells smallGrid = toDouble (3 / 100) ∧
      unionWindowAreaFraction notchedBox wideGrid ≠ some (coveredFraction notchedBox wideGrid) ∧
      unionWindowAreaFraction notchedBox wideGrid = some (toDouble (5 / 1000000)) := by
  have hrow := (unionWindowAreaFraction_exact_iff rowCells smallGrid).2.1
    (by unfold Within; decide) (by decide)
  obtain ⟨-, hbox, hvalue⟩ := unionWindowAreaFraction_exact_iff notchedBox wideGrid
  have hadded : (addedCells notchedBox).card = 1 := by decide
  refine ⟨hrow.mpr ⟨by decide, 30000, by decide, Or.inl (by decide)⟩,
    by decide +kernel, fun h => ?_, (hvalue (by decide)).trans (by decide +kernel)⟩
  obtain ⟨-, k, -, hless | ⟨-, hround⟩⟩ := (hbox (by unfold Within; decide) (by decide)).mp h
  · rw [hadded] at hless
    exact absurd hless (by decide)
  · have habove : heldFraction notchedBox wideGrid < toDouble (heldFraction notchedBox wideGrid) := by
      decide +kernel
    rcases hround with hbelow | ⟨heq, -⟩
    · exact absurd hbelow (not_lt.mpr habove.le)
    · exact absurd heq habove.ne'

/-! ### Two cells that touch at a corner -/

def cornerCells : List RasterWindow := [cellWindow 0 0, cellWindow 1 1]

/-- Two cells of a hundred, and the metric says four hundredths. -/
theorem corner_cells_overcounted : ¬ ∀ (windows : List RasterWindow) (grid : RasterGrid),
    windows ≠ [] → (∀ w ∈ windows, w.Within grid.fullWindow) →
      unionWindowAreaFraction windows grid = some (coveredFraction windows grid) := by
  intro h
  have heq := h cornerCells smallGrid (by decide) (by
    unfold Within
    decide)
  revert heq
  decide +kernel

end Solweig.Jobs
