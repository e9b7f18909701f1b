import Solweig.Lib.Overlay
import Solweig.Landcover.MaskRuns

/-!
# Coalesced overlays

The land-cover overlay of a scenario: its paint patches in order, what they resolve to, and the
patches it coalesces to, which depend on the painted cells and their final classes alone.
-/

namespace Solweig.Landcover

open Solweig.Lib Solweig.Planner Solweig.Incremental

/-! ## The fence -/

def paintableClasses : List Int := [1, 2, 5, 6]

def fencedClasses : List Int := [7]

/-- A refused overlay, with the index of the patch. -/
inductive OverlayError where
  | lengths (patch : Nat) (area : Int) (before after : Nat)
  | negativeIndices (patch : Nat) (window : RasterWindow)
  | emptyWindow (patch : Nat) (window : RasterWindow)
  | water (patch : Nat)
  | invalidClasses (patch : Nat) (codes : List Int)
  | outsideGrid (patch : Nat) (window : RasterWindow) (rows cols : Nat)

/-- `_check_paintable`: negative codes never paint, and are let through. -/
def checkPaintable (codes : List Int) (index : Nat) : Except OverlayError Unit := do
  refuseIf (∃ code ∈ codes, code ∈ fencedClasses) (.water index)
  let invalid := codes.filter fun code => 0 ≤ code ∧ code ∉ paintableClasses
  refuseIf (invalid ≠ []) (.invalidClasses index (invalid.dedup.insertionSort (· ≤ ·)))

/-- `_check_patch_window` -/
def checkPatchWindow (window : RasterWindow) (index : Nat) : Except OverlayError Unit := do
  refuseIf (window.rowStart < 0 ∨ window.colStart < 0 ∨ window.rowStop < 0 ∨ window.colStop < 0)
    (.negativeIndices index window)
  refuseIf window.isEmpty (.emptyWindow index window)

/-- The patch has a code for each cell of its window, which the record checks itself. -/
def checkLengths (patch : LandCoverPaintPatch) (index : Nat) : Except OverlayError Unit :=
  refuseIf (patch.beforeClasses.length ≠ patch.window.area ∨
      patch.afterClasses.length ≠ patch.window.area)
    (.lengths index patch.window.area patch.beforeClasses.length patch.afterClasses.length)

def checkPatch (entry : LandCoverPaintPatch × Nat) : Except OverlayError Unit := do
  checkLengths entry.1 entry.2
  checkPatchWindow entry.1.window entry.2
  checkPaintable entry.1.afterClasses entry.2

/-- What the checks let through. -/
structure Fenced (patch : LandCoverPaintPatch) : Prop where
  beforeLength : (patch.beforeClasses.length : Int) = patch.window.area
  afterLength : (patch.afterClasses.length : Int) = patch.window.area
  corner : 0 ≤ patch.window.rowStart ∧ 0 ≤ patch.window.colStart
  nonempty : patch.window.isEmpty = false
  classes : ∀ code ∈ patch.afterClasses, 0 ≤ code → code ∈ paintableClasses

theorem not_fenced_of_paintable {code : Int} (h : 0 ≤ code → code ∈ paintableClasses) :
    code ∉ fencedClasses := by
  intro hfenced
  rw [fencedClasses, List.mem_singleton] at hfenced
  subst hfenced
  exact absurd (h (by decide)) (by decide)

theorem checkPaintable_ok {codes : List Int} {index : Nat} :
    checkPaintable codes index = .ok () ↔ ∀ code ∈ codes, 0 ≤ code → code ∈ paintableClasses := by
  unfold checkPaintable
  simp only [except_bind_ok, refuseIf_ok, ne_eq, not_not, List.filter_eq_nil_iff,
    decide_eq_true_eq, not_and, not_exists, exists_const]
  constructor
  · exact fun h => h.2
  · exact fun h => ⟨fun code hcode => not_fenced_of_paintable (h code hcode), h⟩

theorem checkPatch_ok {patch : LandCoverPaintPatch} {index : Nat} :
    checkPatch (patch, index) = .ok () ↔ Fenced patch := by
  have hrows := patch.window.rows
  have hcols := patch.window.cols
  unfold checkPatch checkLengths checkPatchWindow
  simp only [except_bind_ok, refuseIf_ok, checkPaintable_ok, exists_const, ne_eq, not_or, not_not,
    not_lt, Bool.not_eq_true]
  constructor
  · rintro ⟨⟨hbefore, hafter⟩, ⟨⟨hrow, hcol, -, -⟩, hempty⟩, hclasses⟩
    exact ⟨hbefore, hafter, ⟨hrow, hcol⟩, hempty, hclasses⟩
  · rintro ⟨hbefore, hafter, ⟨hrow, hcol⟩, hempty, hclasses⟩
    exact ⟨⟨hbefore, hafter⟩, ⟨⟨hrow, hcol, by omega, by omega⟩, hempty⟩, hclasses⟩

theorem forM_zipIdx_ok {α ε : Type} {check : α × Nat → Except ε Unit} {p : α → Prop} {l : List α}
    (hcheck : ∀ a i, check (a, i) = .ok () ↔ p a) :
    l.zipIdx.forM check = .ok () ↔ ∀ a ∈ l, p a := by
  rw [forM_ok]
  constructor
  · intro h a ha
    obtain ⟨i, hi, rfl⟩ := List.getElem_of_mem ha
    exact (hcheck _ i).mp (h (_, i) (List.mk_mem_zipIdx_iff_getElem?.mpr
      (List.getElem?_eq_getElem hi)))
  · rintro h ⟨a, i⟩ hmem
    exact (hcheck a i).mpr (h a (List.mem_of_getElem? (List.mk_mem_zipIdx_iff_getElem?.mp hmem)))

theorem checkPatches_ok {patches : List LandCoverPaintPatch} :
    patches.zipIdx.forM checkPatch = .ok () ↔ ∀ patch ∈ patches, Fenced patch :=
  forM_zipIdx_ok fun _ _ => checkPatch_ok

/-! ## The overlay -/

structure LandCoverOverlay where
  patches : List LandCoverPaintPatch
  fenced : ∀ patch ∈ patches, Fenced patch

/-- `LandCoverOverlay.__post_init__` -/
def overlayOf (patches : List LandCoverPaintPatch) : Except OverlayError LandCoverOverlay :=
  match h : patches.zipIdx.forM checkPatch with
  | .ok () => .ok ⟨patches, checkPatches_ok.mp h⟩
  | .error e => .error e

/-- A class grid of the site. -/
structure ClassGrid where
  rows : Nat
  cols : Nat
  classes : Cell → Int

def ClassGrid.code (grid : ClassGrid) (row col : Nat) : Int := grid.classes (row, col)

def checkFits (baseline : ClassGrid) (entry : LandCoverPaintPatch × Nat) :
    Except OverlayError Unit :=
  let window := entry.1.window
  refuseIf (window.rowStop > baseline.rows ∨ window.colStop > baseline.cols)
    (.outsideGrid entry.2 window baseline.rows baseline.cols)

namespace LandCoverOverlay

/-- A copy of the baseline under the patches, in order. -/
def resolve (o : LandCoverOverlay) (baseline : ClassGrid) : Except OverlayError ClassGrid := do
  o.patches.zipIdx.forM (checkFits baseline)
  pure { baseline with classes := o.patches.foldl LandCoverPaintPatch.apply baseline.classes }

/-- A patch paints the cell where its code is not negative. -/
def changedCellMask (o : LandCoverOverlay) (rows cols : Nat) : Mask := fun row col =>
  row < rows && col < cols && o.patches.any fun patch => (patch.code? (row, col)).isSome

end LandCoverOverlay

def anyCell (mask : Mask) (rows cols : Nat) : Bool :=
  (List.range rows).any fun row => (List.range cols).any fun col => mask row col

/-- What an overlay makes of the baseline, resolved here unless it is given. -/
def resolvedGrid (o : Option LandCoverOverlay) (baseline : ClassGrid) (resolved : Option ClassGrid) :
    Except OverlayError ClassGrid :=
  match o with
  | none => pure baseline
  | some o => match resolved with
    | none => o.resolve baseline
    | some grid => pure grid

def coalesceOverlay (o : Option LandCoverOverlay) (baseline : ClassGrid)
    (resolved : Option ClassGrid) : Except OverlayError (Option LandCoverOverlay) :=
  match o with
  | none => pure none
  | some o => do
    let grid ← resolvedGrid (some o) baseline resolved
    let painted := o.changedCellMask baseline.rows baseline.cols
    if anyCell painted baseline.rows baseline.cols then
      let o' ← overlayOf (maskRunPatches painted (some grid.code) baseline.rows baseline.cols)
      pure (some o')
    else pure none

def overlayDiffWindows (new old : Option LandCoverOverlay) (baseline : ClassGrid)
    (resolvedNew resolvedOld : Option ClassGrid) : Except OverlayError (List RasterWindow) := do
  let newGrid ← resolvedGrid new baseline resolvedNew
  let oldGrid ← resolvedGrid old baseline resolvedOld
  let diff : Mask := fun row col =>
    row < baseline.rows && col < baseline.cols && newGrid.code row col ≠ oldGrid.code row col
  if anyCell diff baseline.rows baseline.cols then
    pure ((maskRunPatches diff none baseline.rows baseline.cols).map (·.window))
  else pure []

/-! ## The class that the patches paint -/

/-- The code of the last patch that paints the cell. -/
def paintedClass (patches : List LandCoverPaintPatch) : Cell → Option Int :=
  overlay (fun _ => none) (patches.map (·.code?))

theorem overlay_agreeing {κ α : Type} {layers : List (κ → Option α)} {k : κ} {x : α}
    (h : ∀ layer ∈ layers, ∀ v, layer k = some v → v = x) :
    overlay (fun _ => none) layers k =
      if layers.any (fun layer => (layer k).isSome) then some x else none := by
  split
  · rename_i hany
    obtain ⟨layer, hlayer, hsome⟩ := List.any_eq_true.mp hany
    obtain ⟨below, top, above, rfl, htop, habove⟩ :=
      exists_topmost (f := fun layer : κ → Option α => layer k) ⟨layer, hlayer, hsome⟩
    obtain ⟨v, hv⟩ := Option.isSome_iff_exists.mp htop
    rw [overlay_topmost hv habove, h top (by simp) v hv]
  · rename_i hnone
    have hempty : laidOn layers k = [] := by
      refine List.filterMap_eq_nil_iff.mpr fun layer hlayer => ?_
      by_contra hsome
      exact hnone (List.any_eq_true.mpr ⟨layer, hlayer, Option.isSome_iff_ne_none.mpr hsome⟩)
    rw [overlay_apply, hempty]
    rfl

theorem paintedClass_isSome (patches : List LandCoverPaintPatch) (cell : Cell) :
    (paintedClass patches cell).isSome = patches.any fun patch => (patch.code? cell).isSome := by
  induction patches using List.reverseRecOn with
  | nil => rfl
  | append_singleton patches patch ih =>
    unfold paintedClass at ih ⊢
    rw [List.map_append, overlay_append, List.any_append, ← ih]
    show ((patch.code? cell).or _).isSome = _
    rw [Option.isSome_or, Bool.or_comm]
    simp

theorem foldl_apply (classes : Cell → Int) (patches : List LandCoverPaintPatch) (cell : Cell) :
    patches.foldl LandCoverPaintPatch.apply classes cell =
      (paintedClass patches cell).getD (classes cell) := by
  induction patches using List.reverseRecOn with
  | nil => rfl
  | append_singleton patches patch ih =>
    unfold paintedClass at ih ⊢
    rw [List.foldl_append, List.map_append, overlay_append]
    show (patch.code? cell).getD (patches.foldl LandCoverPaintPatch.apply classes cell) =
      ((patch.code? cell).or _).getD _
    rw [ih]
    cases patch.code? cell <;> rfl

theorem code?_some {patch : LandCoverPaintPatch} {cell : Cell} {code : Int}
    (h : patch.code? cell = some code) :
    patchHolds patch cell = true ∧ code ∈ patch.afterClasses ∧ 0 ≤ code := by
  unfold LandCoverPaintPatch.code? at h
  dsimp only at h
  split at h
  · rename_i hwindow
    obtain ⟨hget, hcode⟩ := Option.filter_eq_some_iff.mp h
    exact ⟨holds_iff.mpr hwindow, List.mem_of_getElem? hget, of_decide_eq_true hcode⟩
  · cases h

namespace LandCoverOverlay

variable {o : LandCoverOverlay} {baseline grid : ClassGrid} {cell : Cell}

theorem resolve_ok : o.resolve baseline = .ok grid ↔
    (∀ patch ∈ o.patches, patch.window.rowStop ≤ baseline.rows ∧
      patch.window.colStop ≤ baseline.cols) ∧
    { baseline with classes := o.patches.foldl LandCoverPaintPatch.apply baseline.classes } =
      grid := by
  have hfits : o.patches.zipIdx.forM (checkFits baseline) = .ok () ↔
      ∀ patch ∈ o.patches, patch.window.rowStop ≤ baseline.rows ∧
        patch.window.colStop ≤ baseline.cols := by
    refine forM_zipIdx_ok fun patch index => ?_
    unfold checkFits
    simp only [refuseIf_ok, gt_iff_lt, not_or, not_lt]
  unfold resolve
  rw [except_bind_ok, ← hfits]
  constructor
  · rintro ⟨u, hu, h⟩
    exact ⟨hu, Except.ok.inj h⟩
  · rintro ⟨hu, rfl⟩
    exact ⟨(), hu, rfl⟩

theorem inGrid_of_painted (hfits : ∀ patch ∈ o.patches, patch.window.rowStop ≤ baseline.rows ∧
      patch.window.colStop ≤ baseline.cols)
    (h : (paintedClass o.patches cell).isSome = true) :
    0 ≤ cell.1 ∧ 0 ≤ cell.2 ∧ cell.1.toNat < baseline.rows ∧ cell.2.toNat < baseline.cols := by
  rw [paintedClass_isSome] at h
  obtain ⟨patch, hpatch, hcode⟩ := List.any_eq_true.mp h
  obtain ⟨code, hcode⟩ := Option.isSome_iff_exists.mp hcode
  obtain ⟨hrow, hrow', hcol, hcol'⟩ := holds_iff.mp (code?_some hcode).1
  have hcorner := (o.fenced patch hpatch).corner
  have hstop := hfits patch hpatch
  omega

theorem paintedClass_paintable {code : Int} (h : paintedClass o.patches cell = some code) :
    0 ≤ code ∧ code ∈ paintableClasses := by
  unfold paintedClass at h
  rw [overlay_apply, Option.or_none] at h
  obtain ⟨layer, hlayer, hcode⟩ := List.mem_filterMap.mp (List.mem_of_getLast? h)
  obtain ⟨patch, hpatch, rfl⟩ := List.mem_map.mp hlayer
  obtain ⟨-, hmem, hnonneg⟩ := code?_some hcode
  exact ⟨hnonneg, (o.fenced patch hpatch).classes code hmem hnonneg⟩

theorem changedCellMask_eq (hfits : ∀ patch ∈ o.patches, patch.window.rowStop ≤ baseline.rows ∧
      patch.window.colStop ≤ baseline.cols) (row col : Nat) :
    o.changedCellMask baseline.rows baseline.cols row col =
      (paintedClass o.patches (row, col)).isSome := by
  unfold changedCellMask
  rw [← paintedClass_isSome]
  cases hpainted : (paintedClass o.patches (row, col)).isSome with
  | false => simp
  | true =>
    obtain ⟨-, -, hrow, hcol⟩ := inGrid_of_painted hfits hpainted
    simp only [Int.toNat_natCast] at hrow hcol
    simp [hrow, hcol]

theorem paintedOn_eq (hfits : ∀ patch ∈ o.patches, patch.window.rowStop ≤ baseline.rows ∧
      patch.window.colStop ≤ baseline.cols) (cell : Cell) :
    paintedOn (o.changedCellMask baseline.rows baseline.cols) baseline.rows baseline.cols cell =
      (paintedClass o.patches cell).isSome := by
  unfold paintedOn
  rw [changedCellMask_eq hfits]
  by_cases hcell : 0 ≤ cell.1 ∧ 0 ≤ cell.2
  · have hcast : ((cell.1.toNat : Int), (cell.2.toNat : Int)) = cell :=
      Prod.ext (Int.toNat_of_nonneg hcell.1) (Int.toNat_of_nonneg hcell.2)
    rw [hcast]
    cases hpainted : (paintedClass o.patches cell).isSome with
    | false => simp
    | true =>
      obtain ⟨-, -, hrow, hcol⟩ := inGrid_of_painted hfits hpainted
      simp [hcell.1, hcell.2, hrow, hcol]
  · cases hpainted : (paintedClass o.patches cell).isSome with
    | false =>
      rcases not_and_or.mp hcell with h | h <;> simp [h]
    | true =>
      obtain ⟨hrow, hcol, -, -⟩ := inGrid_of_painted hfits hpainted
      exact absurd ⟨hrow, hcol⟩ hcell

end LandCoverOverlay

/-! ## The coalesced patches -/

section Coalesced

variable {mask : Mask} {values : Nat → Nat → Int} {rows cols : Nat} {r : OpenRun} {cell : Cell}
  {patch : LandCoverPaintPatch}

/-- The values under a mask are classes that may be painted. -/
def PaintableOn (mask : Mask) (values : Nat → Nat → Int) (rows cols : Nat) : Prop :=
  ∀ cell, paintedOn mask rows cols cell = true →
    values cell.1.toNat cell.2.toNat ∈ paintableClasses

theorem nonneg_of_paintable {code : Int} (h : code ∈ paintableClasses) : 0 ≤ code := by
  simp only [paintableClasses, List.mem_cons, List.not_mem_nil, or_false] at h
  omega

theorem painted_of_holds {values : Option (Nat → Nat → Int)}
    (hpatch : patch ∈ maskRunPatches mask values rows cols) (h : patchHolds patch cell = true) :
    paintedOn mask rows cols cell = true :=
  (maskRunPatches_tile mask values rows cols).holds_iff.mp ⟨patch, hpatch, h⟩

theorem closeRun_holds_of_run (row col : Nat) (hrow : r.run.rowStart ≤ row ∧ row < r.run.rowStop)
    (hcol : r.run.colStart ≤ col ∧ col < r.run.colStop) :
    patchHolds (closeRun r) (row, col) = true := by
  rw [closeRun_holds, Bool.and_eq_true, Run.holds_iff]
  simp [hrow, hcol]

theorem maskRunPatches_class (hvalues : PaintableOn mask values rows cols) (cell : Cell) :
    paintedClass (maskRunPatches mask (some values) rows cols) cell =
      if paintedOn mask rows cols cell then some (values cell.1.toNat cell.2.toNat) else none := by
  have hcode : ∀ patch ∈ maskRunPatches mask (some values) rows cols, patch.code? cell =
      if patchHolds patch cell then some (values cell.1.toNat cell.2.toNat) else none := by
    intro patch hpatch
    obtain ⟨r, hr, rfl⟩ := mem_maskRunPatches.mp hpatch
    rw [closeRun_code? (maskRuns_sound hr)]
    by_cases hholds : patchHolds (closeRun r) cell = true
    · have hclass := nonneg_of_paintable (hvalues cell (painted_of_holds hpatch hholds))
      simp [hholds, hclass]
    · simp [hholds]
  have hany : (maskRunPatches mask (some values) rows cols).any
      (fun patch => (patch.code? cell).isSome) = paintedOn mask rows cols cell := by
    rw [Bool.eq_iff_iff, ← (maskRunPatches_tile mask (some values) rows cols).holds_iff,
      List.any_eq_true]
    refine exists_congr fun patch => and_congr_right fun hpatch => ?_
    rw [hcode patch hpatch]
    by_cases hholds : patchHolds patch cell = true <;> simp [hholds]
  have hagree : paintedClass (maskRunPatches mask (some values) rows cols) cell = _ :=
    overlay_agreeing (x := values cell.1.toNat cell.2.toNat) fun layer hlayer v hv => by
      obtain ⟨patch, hpatch, rfl⟩ := List.mem_map.mp hlayer
      rw [hcode patch hpatch] at hv
      split at hv
      · exact (Option.some.inj hv).symm
      · cases hv
  rw [List.any_map] at hagree
  rw [← hany]
  exact hagree

theorem maskRunPatches_fenced (hvalues : PaintableOn mask values rows cols)
    (hpatch : patch ∈ maskRunPatches mask (some values) rows cols) : Fenced patch := by
  obtain ⟨r, hr, rfl⟩ := mem_maskRunPatches.mp hpatch
  have hsound := maskRuns_sound hr
  have hrows := hsound.rows
  have hcols := hsound.cols
  have hfirst := hsound.values r.run.rowStart (le_refl _) hrows
  obtain ⟨htop, hbottom, hleft, hright⟩ := hsound.window
  have harea : (closeRun r).window.area =
      ((r.run.rowStop - r.run.rowStart) * (r.run.colStop - r.run.colStart) : Nat) := by
    unfold RasterWindow.area
    rw [htop, hbottom, hleft, hright, Int.natCast_mul, Int.ofNat_sub hrows.le, Int.ofNat_sub hcols.le,
      Int.mul_comm]
  refine ⟨?_, ?_, ?_, ?_, ?_⟩
  · rw [harea]
    simp [closeRun]
  · rw [harea]
    simp [closeRun, hfirst, valuesRun]
  · omega
  · unfold RasterWindow.isEmpty
    rw [decide_eq_false_iff_not]
    omega
  · intro code hcode _
    unfold closeRun at hcode
    dsimp only at hcode
    rw [hfirst] at hcode
    simp only [valuesRun, Option.map_some, List.mem_flatten, List.mem_replicate] at hcode
    obtain ⟨line, ⟨-, rfl⟩, hcode⟩ := hcode
    obtain ⟨col, hcol, rfl⟩ := List.mem_map.mp hcode
    rw [List.mem_range'_1] at hcol
    have hholds := closeRun_holds_of_run (r := r) r.run.rowStart col ⟨le_refl _, hrows⟩ (by omega)
    simpa using hvalues _ (painted_of_holds hpatch hholds)

theorem maskRunPatches_fits {values : Option (Nat → Nat → Int)}
    (hpatch : patch ∈ maskRunPatches mask values rows cols) :
    patch.window.rowStop ≤ rows ∧ patch.window.colStop ≤ cols := by
  obtain ⟨r, hr, rfl⟩ := mem_maskRunPatches.mp hpatch
  have hsound := maskRuns_sound hr
  have hrows := hsound.rows
  have hcols := hsound.cols
  have hlast := painted_of_holds hpatch (closeRun_holds_of_run (r := r) (r.run.rowStop - 1)
    (r.run.colStop - 1) (by omega) (by omega))
  simp only [paintedOn, Bool.and_eq_true, decide_eq_true_eq, Int.toNat_natCast] at hlast
  obtain ⟨-, hbottom, -, hright⟩ := hsound.window
  omega

theorem maskRunPatches_eq_nil {values : Option (Nat → Nat → Int)} :
    maskRunPatches mask values rows cols = [] ↔ anyCell mask rows cols = false := by
  have hany : anyCell mask rows cols = true ↔ ∃ cell, paintedOn mask rows cols cell = true := by
    simp only [anyCell, List.any_eq_true, List.mem_range, paintedOn, Bool.and_eq_true,
      decide_eq_true_eq]
    constructor
    · rintro ⟨row, hrow, col, hcol, hmask⟩
      exact ⟨(row, col), by simp [hrow, hcol, hmask]⟩
    · rintro ⟨cell, -, hrow, hcol, hmask⟩
      exact ⟨cell.1.toNat, hrow, cell.2.toNat, hcol, hmask⟩
  have htile := maskRunPatches_tile mask values rows cols
  constructor
  · intro hnil
    rw [Bool.eq_false_iff]
    intro htrue
    obtain ⟨cell, hcell⟩ := hany.mp htrue
    obtain ⟨patch, hpatch, -⟩ := htile.holds_iff.mpr hcell
    rw [hnil] at hpatch
    cases hpatch
  · intro hfalse
    refine List.eq_nil_iff_forall_not_mem.mpr fun patch hpatch => ?_
    obtain ⟨r, hr, rfl⟩ := mem_maskRunPatches.mp hpatch
    have hsound := maskRuns_sound hr
    have hfirst := painted_of_holds hpatch (closeRun_holds_of_run (r := r) r.run.rowStart
      r.run.colStart ⟨le_refl _, hsound.rows⟩ ⟨le_refl _, hsound.cols⟩)
    rw [hany.mpr ⟨_, hfirst⟩] at hfalse
    cases hfalse

end Coalesced

end Solweig.Landcover
