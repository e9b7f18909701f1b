import Solweig.Landcover.PaintOverlay

/-!
# Coalescing is canonical

Two overlays coalesce to the same patches exactly when they paint the same cells with the same
classes. The windows of a difference hold the cells that resolve differently, and no others.
-/

namespace Solweig.Landcover

open Solweig.Lib Solweig.Planner Solweig.Incremental

/-! ## The patches are a function of the painted cells -/

section Congruence

variable {mask mask' : Mask} {values values' : Nat → Nat → Int} {rows cols : Nat}

theorem marked_of_span {row : Nat} {span : Nat × Nat}
    (hspan : span ∈ rowRuns ((List.range cols).map (mask row))) {col : Nat}
    (hcol : inSpan span col = true) : col < cols ∧ mask row col = true := by
  have hmarked := (rowRuns_tile _).holds_iff.mp ⟨span, hspan, hcol⟩
  by_cases hlt : col < cols
  · simpa [hlt] using hmarked
  · simp [hlt] at hmarked

theorem valuesRun_congr {row : Nat} {span : Nat × Nat}
    (hspan : span ∈ rowRuns ((List.range cols).map (mask row)))
    (hvalues : ∀ col < cols, mask row col = true → values row col = values' row col) :
    valuesRun (some values) row span = valuesRun (some values') row span := by
  unfold valuesRun
  refine congrArg some (List.map_congr_left fun col hcol => ?_)
  rw [List.mem_range'_1] at hcol
  have hin : inSpan span col = true := by
    unfold inSpan
    rw [decide_eq_true_eq]
    omega
  obtain ⟨hlt, hmask⟩ := marked_of_span hspan hin
  exact hvalues col hlt hmask

theorem maskRunPatches_congr
    (hmask : ∀ row < rows, ∀ col < cols, mask row col = mask' row col)
    (hvalues : ∀ row < rows, ∀ col < cols, mask row col = true →
      values row col = values' row col) :
    maskRunPatches mask (some values) rows cols = maskRunPatches mask' (some values') rows cols := by
  have hrow : ∀ s, ∀ row ∈ List.range rows,
      nextMaskRow mask (some values) cols s row = nextMaskRow mask' (some values') cols s row := by
    intro s row hrow
    rw [List.mem_range] at hrow
    have hline : (List.range cols).map (mask row) = (List.range cols).map (mask' row) :=
      List.map_congr_left fun col hcol => hmask row hrow col (List.mem_range.mp hcol)
    have hspans : (rowRuns ((List.range cols).map (mask row))).foldl (carryRun (some values) row)
        { s with carried := [] } =
        (rowRuns ((List.range cols).map (mask row))).foldl (carryRun (some values') row)
          { s with carried := [] } := by
      refine List.foldl_ext _ _ _ fun t span hspan => ?_
      unfold carryRun
      rw [valuesRun_congr hspan (hvalues row hrow)]
    unfold nextMaskRow
    rw [hspans, hline]
  unfold maskRunPatches maskRuns
  rw [List.foldl_ext _ _ _ hrow]

end Congruence

/-! ## Overlays, or none -/

/-- No overlay paints nothing. -/
def patchesOf : Option LandCoverOverlay → List LandCoverPaintPatch
  | none => []
  | some o => o.patches

def paintedCells (o : Option LandCoverOverlay) (baseline : ClassGrid) : Mask :=
  match o with
  | none => fun _ _ => false
  | some o => o.changedCellMask baseline.rows baseline.cols

def ClassGrid.Contains (baseline : ClassGrid) (cell : Cell) : Prop :=
  (0 ≤ cell.1 ∧ cell.1 < baseline.rows) ∧ 0 ≤ cell.2 ∧ cell.2 < baseline.cols

section Options

variable {o : Option LandCoverOverlay} {baseline grid : ClassGrid} {resolved : Option ClassGrid}

theorem resolvedGrid_ok : resolvedGrid o baseline none = .ok grid ↔
    (∀ patch ∈ patchesOf o, patch.window.rowStop ≤ baseline.rows ∧
      patch.window.colStop ≤ baseline.cols) ∧
    { baseline with classes := (patchesOf o).foldl LandCoverPaintPatch.apply baseline.classes } =
      grid := by
  rcases o with - | o
  · constructor
    · exact fun h => ⟨fun patch hpatch => (List.not_mem_nil hpatch).elim, Except.ok.inj h⟩
    · exact fun h => congrArg Except.ok h.2
  · exact LandCoverOverlay.resolve_ok

theorem resolvedGrid_given (h : resolvedGrid o baseline none = .ok grid)
    (hgiven : ∀ given ∈ resolved, given = grid) : resolvedGrid o baseline resolved = .ok grid := by
  rcases resolved with - | given
  · exact h
  rw [hgiven given rfl]
  rcases o with - | o
  · exact h
  · rfl

theorem resolved_class (h : resolvedGrid o baseline none = .ok grid) (cell : Cell) :
    grid.classes cell = (paintedClass (patchesOf o) cell).getD (baseline.classes cell) := by
  rw [← (resolvedGrid_ok.mp h).2]
  exact foldl_apply _ _ _

theorem paintedOn_paintedCells (h : resolvedGrid o baseline none = .ok grid) (cell : Cell) :
    paintedOn (paintedCells o baseline) baseline.rows baseline.cols cell =
      (paintedClass (patchesOf o) cell).isSome := by
  rcases o with - | o
  · simp [paintedOn, paintedCells, patchesOf, paintedClass, overlay]
  · exact LandCoverOverlay.paintedOn_eq (resolvedGrid_ok.mp h).1 cell

theorem paintedCells_eq (h : resolvedGrid o baseline none = .ok grid) (row col : Nat) :
    paintedCells o baseline row col = (paintedClass (patchesOf o) (row, col)).isSome := by
  rcases o with - | o
  · rfl
  · exact LandCoverOverlay.changedCellMask_eq (resolvedGrid_ok.mp h).1 row col

theorem code_of_painted (h : resolvedGrid o baseline none = .ok grid) {cell : Cell}
    (hcell : (paintedClass (patchesOf o) cell).isSome = true) :
    some (grid.code cell.1.toNat cell.2.toNat) = paintedClass (patchesOf o) cell := by
  have hin := paintedOn_paintedCells h cell
  rw [hcell, paintedOn, Bool.and_eq_true, Bool.and_eq_true, decide_eq_true_eq,
    decide_eq_true_eq] at hin
  have hcast : ((cell.1.toNat : Int), (cell.2.toNat : Int)) = cell :=
    Prod.ext (Int.toNat_of_nonneg hin.1.1) (Int.toNat_of_nonneg hin.1.2)
  obtain ⟨code, hcode⟩ := Option.isSome_iff_exists.mp hcell
  unfold ClassGrid.code
  rw [hcast, resolved_class h, hcode]
  rfl

theorem paintableOn_resolved (h : resolvedGrid o baseline none = .ok grid) :
    PaintableOn (paintedCells o baseline) grid.code baseline.rows baseline.cols := by
  intro cell hcell
  rw [paintedOn_paintedCells h] at hcell
  have hclass := code_of_painted h hcell
  rcases o with - | o
  · cases hclass
  · exact (LandCoverOverlay.paintedClass_paintable hclass.symm).2

/-- The patches that an overlay coalesces to. -/
def canonicalPatches (o : Option LandCoverOverlay) (baseline grid : ClassGrid) :
    List LandCoverPaintPatch :=
  maskRunPatches (paintedCells o baseline) (some grid.code) baseline.rows baseline.cols

theorem canonicalPatches_class (h : resolvedGrid o baseline none = .ok grid) :
    paintedClass (canonicalPatches o baseline grid) = paintedClass (patchesOf o) := by
  funext cell
  unfold canonicalPatches
  rw [maskRunPatches_class (paintableOn_resolved h), paintedOn_paintedCells h]
  cases hclass : paintedClass (patchesOf o) cell with
  | none => rfl
  | some code =>
    have hsome : (paintedClass (patchesOf o) cell).isSome = true := by rw [hclass]; rfl
    have hcode := code_of_painted h hsome
    rw [← hclass, ← hcode]
    rfl

theorem overlayOf_ok {patches : List LandCoverPaintPatch} (h : ∀ patch ∈ patches, Fenced patch) :
    overlayOf patches = .ok ⟨patches, h⟩ := by
  have hchecks := checkPatches_ok.mpr h
  unfold overlayOf
  split
  · rfl
  · rename_i herror
    rw [hchecks] at herror
    cases herror

theorem coalesceOverlay_spec (h : resolvedGrid o baseline none = .ok grid)
    (hgiven : ∀ given ∈ resolved, given = grid) :
    ∃ coalesced, coalesceOverlay o baseline resolved = .ok coalesced ∧
      patchesOf coalesced = canonicalPatches o baseline grid ∧
      (coalesced = none ↔ patchesOf coalesced = []) := by
  have hnil : canonicalPatches o baseline grid = [] ↔
      anyCell (paintedCells o baseline) baseline.rows baseline.cols = false := maskRunPatches_eq_nil
  rcases o with - | o
  · have hnone : anyCell (paintedCells none baseline) baseline.rows baseline.cols = false := by
      simp [anyCell, paintedCells]
    exact ⟨none, rfl, (hnil.mpr hnone).symm, iff_of_true rfl rfl⟩
  have hfenced : ∀ patch ∈ canonicalPatches (some o) baseline grid, Fenced patch := fun _ =>
    maskRunPatches_fenced (paintableOn_resolved h)
  unfold coalesceOverlay
  dsimp only
  rw [resolvedGrid_given h hgiven, except_ok_bind]
  cases hany : anyCell (o.changedCellMask baseline.rows baseline.cols) baseline.rows
      baseline.cols with
  | false =>
    exact ⟨none, rfl, (hnil.mpr hany).symm, iff_of_true rfl rfl⟩
  | true =>
    have hoverlay := overlayOf_ok hfenced
    unfold canonicalPatches paintedCells at hoverlay
    dsimp only at hoverlay
    rw [if_pos rfl, hoverlay]
    refine ⟨some ⟨canonicalPatches (some o) baseline grid, hfenced⟩, rfl, rfl,
      iff_of_false (by simp) fun hempty => ?_⟩
    have hfalse := hnil.mp hempty
    rw [show paintedCells (some o) baseline = o.changedCellMask baseline.rows baseline.cols from rfl,
      hany] at hfalse
    cases hfalse

/-- The coalesced overlay paints and resolves like the overlay, each cell by one patch. -/
structure Coalesces (o : Option LandCoverOverlay) (baseline grid : ClassGrid)
    (coalesced : Option LandCoverOverlay) : Prop where
  resolves : resolvedGrid coalesced baseline none = .ok grid
  paints : ∀ row col, paintedCells coalesced baseline row col = paintedCells o baseline row col
  disjoint : (patchesOf coalesced).Pairwise (Apart patchHolds)

theorem coalesces_of_canonical {coalesced : Option LandCoverOverlay}
    (h : resolvedGrid o baseline none = .ok grid)
    (hpatches : patchesOf coalesced = canonicalPatches o baseline grid) :
    Coalesces o baseline grid coalesced := by
  have hclass : paintedClass (patchesOf coalesced) = paintedClass (patchesOf o) :=
    hpatches ▸ canonicalPatches_class h
  have hresolves : resolvedGrid coalesced baseline none = .ok grid := by
    refine resolvedGrid_ok.mpr ⟨fun patch hpatch => maskRunPatches_fits (hpatches ▸ hpatch), ?_⟩
    rw [← (resolvedGrid_ok.mp h).2]
    congr 1
    funext cell
    rw [foldl_apply, foldl_apply, hclass]
  refine ⟨hresolves, fun row col => ?_, ?_⟩
  · rw [paintedCells_eq hresolves, paintedCells_eq h, hclass]
  · rw [hpatches]
    exact (maskRunPatches_tile _ _ _ _).apart

theorem patchesOf_inj {a b : Option LandCoverOverlay} (ha : a = none ↔ patchesOf a = [])
    (hb : b = none ↔ patchesOf b = []) : a = b ↔ patchesOf a = patchesOf b := by
  constructor
  · exact congrArg patchesOf
  · intro h
    rcases a with - | ⟨patches, hfenced⟩
    · exact (hb.mpr (h ▸ rfl)).symm
    rcases b with - | ⟨patches', hfenced'⟩
    · exact ha.mpr h
    · cases h
      rfl

end Options

section Pairs

variable {a b : Option LandCoverOverlay} {baseline gridA gridB : ClassGrid}
  {resolvedA resolvedB : Option ClassGrid}

theorem canonicalPatches_inj (ha : resolvedGrid a baseline none = .ok gridA)
    (hb : resolvedGrid b baseline none = .ok gridB) :
    canonicalPatches a baseline gridA = canonicalPatches b baseline gridB ↔
      ∀ row col, paintedCells a baseline row col = paintedCells b baseline row col ∧
        (paintedCells a baseline row col = true → gridA.code row col = gridB.code row col) := by
  constructor
  · intro h row col
    have hclass : paintedClass (patchesOf a) = paintedClass (patchesOf b) := by
      rw [← canonicalPatches_class ha, h, canonicalPatches_class hb]
    refine ⟨by rw [paintedCells_eq ha, paintedCells_eq hb, hclass], fun hcell => ?_⟩
    rw [paintedCells_eq ha] at hcell
    have hcodeA := code_of_painted ha hcell
    rw [hclass] at hcell hcodeA
    exact Option.some.inj (hcodeA.trans (code_of_painted hb hcell).symm)
  · intro h
    exact maskRunPatches_congr (fun row _ col _ => (h row col).1) fun row _ col _ => (h row col).2

theorem overlayDiffWindows_spec (ha : resolvedGrid a baseline none = .ok gridA)
    (hb : resolvedGrid b baseline none = .ok gridB) (hgivenA : ∀ given ∈ resolvedA, given = gridA)
    (hgivenB : ∀ given ∈ resolvedB, given = gridB) :
    ∃ windows, overlayDiffWindows a b baseline resolvedA resolvedB = .ok windows ∧
      ∀ cell, (∃ window ∈ windows, holds window cell = true) ↔
        baseline.Contains cell ∧ gridA.classes cell ≠ gridB.classes cell := by
  unfold overlayDiffWindows
  rw [resolvedGrid_given ha hgivenA, resolvedGrid_given hb hgivenB, except_ok_bind, except_ok_bind]
  dsimp only
  generalize hdiff : (fun row col => decide (row < baseline.rows) && decide (col < baseline.cols) &&
    decide (gridA.code row col ≠ gridB.code row col) : Mask) = diff
  have hwindows : ∀ cell, (∃ window ∈ (maskRunPatches diff none baseline.rows baseline.cols).map
      (·.window), holds window cell = true) ↔
      baseline.Contains cell ∧ gridA.classes cell ≠ gridB.classes cell := by
    intro cell
    have htile := (maskRunPatches_tile diff none baseline.rows baseline.cols).holds_iff (k := cell)
    have hmem : (∃ window ∈ (maskRunPatches diff none baseline.rows baseline.cols).map
        (·.window), holds window cell = true) ↔
        ∃ patch ∈ maskRunPatches diff none baseline.rows baseline.cols,
          patchHolds patch cell = true := by
      simp only [List.mem_map, exists_exists_and_eq_and, patchHolds]
    rw [hmem, htile, ← hdiff]
    unfold paintedOn ClassGrid.Contains
    simp only [Bool.and_eq_true, decide_eq_true_eq]
    constructor
    · rintro ⟨⟨hrow0, hcol0⟩, -, -, ⟨hrow, hcol⟩, hne⟩
      have hcast : ((cell.1.toNat : Int), (cell.2.toNat : Int)) = cell :=
        Prod.ext (Int.toNat_of_nonneg hrow0) (Int.toNat_of_nonneg hcol0)
      unfold ClassGrid.code at hne
      rw [hcast] at hne
      exact ⟨by omega, hne⟩
    · rintro ⟨⟨⟨hrow0, hrow⟩, hcol0, hcol⟩, hne⟩
      have hcast : ((cell.1.toNat : Int), (cell.2.toNat : Int)) = cell :=
        Prod.ext (Int.toNat_of_nonneg hrow0) (Int.toNat_of_nonneg hcol0)
      unfold ClassGrid.code
      rw [hcast]
      exact ⟨⟨hrow0, hcol0⟩, by omega, by omega, ⟨by omega, by omega⟩, hne⟩
  cases hany : anyCell diff baseline.rows baseline.cols with
  | true => exact ⟨_, rfl, hwindows⟩
  | false =>
    have hnil : maskRunPatches diff none baseline.rows baseline.cols = [] :=
      maskRunPatches_eq_nil.mpr hany
    rw [hnil] at hwindows
    exact ⟨[], rfl, hwindows⟩

theorem coalesceOverlay_canonical (ha : resolvedGrid a baseline none = .ok gridA)
    (hb : resolvedGrid b baseline none = .ok gridB) (hgivenA : ∀ given ∈ resolvedA, given = gridA)
    (hgivenB : ∀ given ∈ resolvedB, given = gridB) :
    ∃ coalescedA coalescedB,
      coalesceOverlay a baseline resolvedA = .ok coalescedA ∧
      coalesceOverlay b baseline resolvedB = .ok coalescedB ∧
      Coalesces a baseline gridA coalescedA ∧ Coalesces b baseline gridB coalescedB ∧
      (coalescedA = coalescedB ↔
        ∀ row col, paintedCells a baseline row col = paintedCells b baseline row col ∧
          (paintedCells a baseline row col = true → gridA.code row col = gridB.code row col)) ∧
      ∃ windows, overlayDiffWindows a b baseline resolvedA resolvedB = .ok windows ∧
        ∀ cell, (∃ window ∈ windows, holds window cell = true) ↔
          baseline.Contains cell ∧ gridA.classes cell ≠ gridB.classes cell := by
  obtain ⟨coalescedA, hokA, hpatchesA, hnoneA⟩ := coalesceOverlay_spec ha hgivenA
  obtain ⟨coalescedB, hokB, hpatchesB, hnoneB⟩ := coalesceOverlay_spec hb hgivenB
  refine ⟨coalescedA, coalescedB, hokA, hokB, coalesces_of_canonical ha hpatchesA,
    coalesces_of_canonical hb hpatchesB, ?_, overlayDiffWindows_spec ha hb hgivenA hgivenB⟩
  rw [patchesOf_inj hnoneA hnoneB, hpatchesA, hpatchesB]
  exact canonicalPatches_inj ha hb

end Pairs

/-! ## A session of strokes -/

def lawn : ClassGrid := ⟨3, 3, fun _ => 5⟩

/-- A square, and a second stroke that repaints its corner and goes on past it. -/
def strokes : LandCoverOverlay where
  patches :=
    [⟨⟨0, 2, 0, 2, by decide, by decide⟩, [-1, -1, -1, -1], [2, 2, 2, 2]⟩,
      ⟨⟨1, 2, 1, 3, by decide, by decide⟩, [-1, -1], [6, 6]⟩]
  fenced := checkPatches_ok.mp rfl

/-- The same paint, stroke by stroke in another order. -/
def restroked : LandCoverOverlay where
  patches :=
    [⟨⟨1, 2, 0, 3, by decide, by decide⟩, [-1, -1, -1], [1, 6, 6]⟩,
      ⟨⟨0, 2, 0, 2, by decide, by decide⟩, [-1, -1, -1, -1], [2, 2, 2, -1]⟩]
  fenced := checkPatches_ok.mp rfl

def LandCoverOverlay.grid (o : LandCoverOverlay) : ClassGrid :=
  { lawn with classes := o.patches.foldl LandCoverPaintPatch.apply lawn.classes }

theorem strokes_canonical :
    ∃ coalescedA coalescedB,
      coalesceOverlay (some strokes) lawn none = .ok coalescedA ∧
      coalesceOverlay (some restroked) lawn (some restroked.grid) = .ok coalescedB ∧
      Coalesces (some strokes) lawn strokes.grid coalescedA ∧
      Coalesces (some restroked) lawn restroked.grid coalescedB ∧
      (coalescedA = coalescedB ↔ ∀ row col,
        paintedCells (some strokes) lawn row col = paintedCells (some restroked) lawn row col ∧
          (paintedCells (some strokes) lawn row col = true →
            strokes.grid.code row col = restroked.grid.code row col)) ∧
      ∃ windows, overlayDiffWindows (some strokes) (some restroked) lawn none
          (some restroked.grid) = .ok windows ∧
        ∀ cell, (∃ window ∈ windows, holds window cell = true) ↔
          lawn.Contains cell ∧ strokes.grid.classes cell ≠ restroked.grid.classes cell :=
  coalesceOverlay_canonical rfl rfl (fun given hgiven => by cases hgiven)
    fun given hgiven => (Option.some.inj hgiven).symm

end Solweig.Landcover
