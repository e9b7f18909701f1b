import Solweig.Executor.Supersession
import Solweig.Spatial.DirtyWindows
import Solweig.Spatial.Index

/-!
# The windows of a job

What the dirty windows of the trees become before a job publishes: they are expanded by the write
margin and clamped to the grid, and the mode is chosen by the first of the merged windows.
-/

namespace Solweig.Executor

open Solweig.Lib Solweig.Planner Solweig.Spatial

variable {P B G : Type}

/-! ## Dirty windows -/

section Dirty

variable {site : InfluenceSite} {trig : Trig} {edits : List TreeEdit} {config : InfluenceConfig}
  {offsetForTree : TreeSpec → Option Rat}

/-- The windows that a job plans with. -/
def OnSite (grid : Planner.RasterGrid) (windows : List RasterWindow) : Prop :=
  ∀ w ∈ windows, w.Occupied ∧ w.Within grid.fullWindow

theorem onSite_of_clustered {grid : Planner.RasterGrid} {gapPixels : Nat}
    {windows merged : List RasterWindow}
    (hgrid : ∀ w ∈ windows, w.isEmpty = false → w.Within grid.fullWindow)
    (h : Clustered RasterWindow.Occupied RasterWindow.Within
      (RasterWindow.intersectsWithin gapPixels) (windows.filter fun w => ¬ w.isEmpty) merged) :
    OnSite grid merged := by
  intro w hw
  refine ⟨h.good w hw, ?_⟩
  obtain ⟨box, hbox, hwithin⟩ := h.least [grid.fullWindow] (List.pairwise_singleton _ _)
    (by
      intro other hother
      obtain ⟨hmem, hoccupied⟩ := List.mem_filter.mp hother
      exact ⟨_, List.mem_singleton_self _, hgrid other hmem (by simpa using hoccupied)⟩) w hw
  rwa [List.mem_singleton.mp hbox] at hwithin

theorem dirtyWindowForEdit_within {edit : TreeEdit} {window : RasterWindow}
    (h : site.dirtyWindowForEdit trig config offsetForTree edit = .ok window) :
    window.Within site.grid.fullWindow := by
  unfold InfluenceSite.dirtyWindowForEdit at h
  simp only [except_bind_ok, pure, Except.pure, Except.ok.injEq] at h
  obtain ⟨-, -, -, -, rfl⟩ := h
  exact RasterWindow.clamp_within _ _

theorem dirtyWindowsForBatch_onSite {windows : List RasterWindow}
    (h : site.dirtyWindowsForBatch trig config offsetForTree edits = .ok windows) :
    OnSite site.grid.toRasterGrid windows := by
  unfold InfluenceSite.dirtyWindowsForBatch at h
  simp only [except_bind_ok, pure, Except.pure, Except.ok.injEq] at h
  obtain ⟨found, hfound, rfl⟩ := h
  obtain ⟨merged, hmerged, -, hclustered⟩ :=
    @RasterWindow.mergeWindows_clustered (found.length + 1) 8 found (Nat.lt_succ_self _)
  rw [hmerged, Option.getD_some]
  apply onSite_of_clustered _ hclustered
  intro window hwindow _
  obtain ⟨edit, -, hedit⟩ := mem_of_mapM_ok hfound hwindow
  exact dirtyWindowForEdit_within hedit

theorem exactInfluenceWindow_within {trees : List TreeSpec} {window : RasterWindow}
    (h : site.exactInfluenceWindow trig trees config = some window) :
    window.Within site.grid.fullWindow := by
  unfold InfluenceSite.exactInfluenceWindow at h
  dsimp only at h
  split at h
  · rw [Option.some.injEq] at h
    rw [← h]
    exact RasterWindow.clamp_within _ _
  · cases h

theorem dirtyWindows_onSite {windows : List RasterWindow}
    (h : site.dirtyWindows trig edits = .ok windows) :
    OnSite site.grid.toRasterGrid windows := by
  unfold InfluenceSite.dirtyWindows at h
  simp only [except_bind_ok, pure, Except.pure, Except.ok.injEq] at h
  obtain ⟨config, -, offsets, -, scalar, hscalar, rfl⟩ := h
  have hbatch := dirtyWindowsForBatch_onSite hscalar
  split
  · exact hbatch
  · next exact hexact =>
    apply onSite_of_clustered _ (RasterWindow.merge_clustered _)
    intro window hwindow _
    rcases List.mem_append.mp hwindow with hmem | hmem
    · exact (hbatch window hmem).2
    · rw [List.mem_singleton.mp hmem]
      exact exactInfluenceWindow_within hexact

end Dirty

/-! ## Write windows -/

section Write

variable {site : Site P B G} {a b : RasterWindow} {dirty : List RasterWindow}

/-- The window that is written for a dirty window. -/
def writeWindow (site : Site P B G) (window : RasterWindow) : RasterWindow :=
  (expandWindow window site.writeMarginPixels).clamp site.grid.rows site.grid.cols

theorem writeWindowsOf_eq : writeWindowsOf site dirty = dirty.map (writeWindow site) := rfl

/-- The windows share no cell. -/
def CellsApart (a b : RasterWindow) : Prop := ∀ cell, ¬ (a.Holds cell ∧ b.Holds cell)

/-- The windows are so many cells apart, down or across. -/
def Spaced (gapPixels : Nat) (a b : RasterWindow) : Prop :=
  (a.rowStop + gapPixels ≤ b.rowStart ∨ b.rowStop + gapPixels ≤ a.rowStart) ∨
    a.colStop + gapPixels ≤ b.colStart ∨ b.colStop + gapPixels ≤ a.colStart

instance (gapPixels : Nat) (a b : RasterWindow) : Decidable (Spaced gapPixels a b) :=
  inferInstanceAs (Decidable (_ ∨ _))

theorem writeWindow_covers (hgrid : a.Within site.grid.fullWindow) :
    a.Within (writeWindow site a) := by
  unfold RasterWindow.Within RasterGrid.fullWindow at hgrid
  unfold writeWindow expandWindow RasterWindow.clamp RasterWindow.Within
  dsimp only at *
  omega

theorem exists_clamped_iff {start stop start' stop' : Int} {size margin : Nat}
    (h : start < stop ∧ 0 ≤ start ∧ stop ≤ size) (h' : start' < stop' ∧ 0 ≤ start' ∧ stop' ≤ size) :
    (∃ x, (max 0 (min (size : Int) (start - margin)) ≤ x ∧
        x < max 0 (min (size : Int) (stop + margin))) ∧
      max 0 (min (size : Int) (start' - margin)) ≤ x ∧
        x < max 0 (min (size : Int) (stop' + margin))) ↔
      ¬ (stop + (2 * margin : Nat) ≤ start' ∨ stop' + (2 * margin : Nat) ≤ start) := by
  constructor
  · rintro ⟨x, hx⟩
    omega
  · intro hnear
    refine ⟨max 0 (max (start - margin) (start' - margin)), ?_⟩
    omega

/-- Written windows share no cell if there are two margins between the dirty ones, and only then.
-/
theorem cellsApart_writeWindow_iff (ha : a.Occupied ∧ a.Within site.grid.fullWindow)
    (hb : b.Occupied ∧ b.Within site.grid.fullWindow) :
    CellsApart (writeWindow site a) (writeWindow site b) ↔
      Spaced (2 * site.writeMarginPixels) a b := by
  obtain ⟨⟨hacols, harows⟩, ⟨har, har'⟩, hac, hac'⟩ := ha
  obtain ⟨⟨hbcols, hbrows⟩, ⟨hbr, hbr'⟩, hbc, hbc'⟩ := hb
  have hrows := @exists_clamped_iff a.rowStart a.rowStop b.rowStart b.rowStop site.grid.rows
    site.writeMarginPixels ⟨harows, har, har'⟩ ⟨hbrows, hbr, hbr'⟩
  have hcols := @exists_clamped_iff a.colStart a.colStop b.colStart b.colStop site.grid.cols
    site.writeMarginPixels ⟨hacols, hac, hac'⟩ ⟨hbcols, hbc, hbc'⟩
  unfold CellsApart Spaced
  rw [← not_iff_not, not_or, ← hrows, ← hcols]
  push Not
  constructor
  · rintro ⟨cell, ⟨hrow, hcol⟩, hrow', hcol'⟩
    exact ⟨⟨cell.1, hrow, hrow'⟩, cell.2, hcol, hcol'⟩
  · rintro ⟨⟨row, hrow, hrow'⟩, col, hcol, hcol'⟩
    exact ⟨(row, col), ⟨hrow, hcol⟩, hrow', hcol'⟩

theorem pairwise_writeWindows_iff (hdirty : OnSite site.grid dirty) :
    (writeWindowsOf site dirty).Pairwise CellsApart ↔
      dirty.Pairwise (Spaced (2 * site.writeMarginPixels)) := by
  rw [writeWindowsOf_eq, List.pairwise_map]
  apply List.Pairwise.iff_of_mem
  intro a b ha hb
  exact cellsApart_writeWindow_iff (hdirty a ha) (hdirty b hb)

end Write

/-! ## The mode -/

/-- The share of the grid that the windows hold together. -/
def unionShare (grid : Planner.RasterGrid) (windows : List RasterWindow) : Rat :=
  (((List.range grid.rows).flatMap fun row =>
    (List.range grid.cols).filter fun col =>
      windows.any fun w => decide ((w.rowStart ≤ row ∧ (row : Int) < w.rowStop) ∧
        w.colStart ≤ col ∧ (col : Int) < w.colStop)).length : Rat) / grid.areaPixels

/-- The share of the first of the merged windows. -/
def firstShare (grid : Planner.RasterGrid) (windows : List RasterWindow) : Rat :=
  match RasterWindow.merge windows with
  | [] => 0
  | union :: _ => union.area / grid.areaPixels

theorem choosesFull_iff (site : Site P B G) {fraction : Rat} (hfraction : 0 < fraction)
    (windows : List RasterWindow) :
    choosesFull site fraction windows = true ↔ fraction ≤ firstShare site.grid windows := by
  unfold choosesFull firstShare
  rcases RasterWindow.merge windows with _ | ⟨union, rest⟩
  · exact iff_of_false Bool.false_ne_true (not_le.mpr hfraction)
  · exact decide_eq_true_iff

/-- A local solve stops because its input is refused. -/
def LocalRefused (site : Site P B G) (env : Env) (live : Dict String TreeSpec) (target : Nat)
    (variableNames : List String) (windows : List RasterWindow) : Prop :=
  solveLocal site env live target variableNames windows = .error .inputRefused

theorem solveLocal_writeWindows {site : Site P B G} {env : Env} {live : Dict String TreeSpec}
    {target : Nat} {variableNames : List String} {windows : List RasterWindow}
    {patches : List ResultPatch}
    (h : solveLocal site env live target variableNames windows = .ok patches) :
    patches.map (·.writeWindow) = windows := by
  unfold solveLocal at h
  rw [map_of_mapM_ok (k := Prod.fst) _ h, List.zipIdx_map_fst]
  rintro ⟨window, index⟩ patch hpatch
  simp only [except_bind_ok, pure, Except.pure, Except.ok.injEq] at hpatch
  obtain ⟨-, -, -, -, -, -, -, -, -, -, rfl⟩ := hpatch
  rfl

theorem solveFull_writeWindows {site : Site P B G} {env : Env} {target : Nat}
    {variableNames : List String} {patches : List ResultPatch}
    (h : solveFull site env target variableNames = .ok patches) :
    patches.map (·.writeWindow) = [site.grid.fullWindow] := by
  unfold solveFull at h
  simp only [except_bind_ok, pure, Except.pure, Except.ok.injEq] at h
  obtain ⟨-, -, -, -, rfl⟩ := h
  rfl

theorem solveJob_ok {site : Site P B G} {env : Env} {live : Dict String TreeSpec} {target : Nat}
    {variableNames : List String} {full : Bool} {windows : List RasterWindow} {mode : String}
    {patches : List ResultPatch}
    (h : solveJob site env live target variableNames full windows = .ok (mode, patches)) :
    ((full = true ∨ LocalRefused site env live target variableNames windows) ∧ mode = "full" ∧
        patches.map (·.writeWindow) = [site.grid.fullWindow]) ∨
      (¬ (full = true ∨ LocalRefused site env live target variableNames windows) ∧
        mode = "local" ∧ patches.map (·.writeWindow) = windows) := by
  unfold solveJob at h
  unfold LocalRefused
  split at h
  · next hfull =>
    rw [except_map_ok] at h
    obtain ⟨found, hfound, heq⟩ := h
    cases heq
    exact Or.inl ⟨Or.inl hfull, rfl, solveFull_writeWindows hfound⟩
  · next hfull =>
    split at h
    · next hlocal =>
      cases h
      rw [hlocal]
      exact Or.inr ⟨by simpa using hfull, rfl, solveLocal_writeWindows hlocal⟩
    · next hrefused =>
      rw [except_map_ok] at h
      obtain ⟨found, hfound, heq⟩ := h
      cases heq
      exact Or.inl ⟨Or.inr hrefused, rfl, solveFull_writeWindows hfound⟩
    · cases h

/-! ## The job -/

section Job

variable [DecidableEq P] {site : Site P B G} {env : Env} {worker : Worker P}
  {live : Dict String TreeSpec} {batch : CoalescedEditBatch} {revision : Moment → Int}
  {target : Nat} {fraction : Rat} {outcome : JobOutcome}

/-- No pending work but that of the trees. -/
structure TreesOnly (worker : Worker P) : Prop where
  forcing : worker.forcingPending = false
  parameters : worker.parametersPending = false
  landcover : worker.landcoverPending = false
  override : worker.landcoverDirtyOverride.getD [] = []

theorem dirtyOf_treesOnly (honly : TreesOnly worker) {dirty : List RasterWindow}
    (h : dirtyOf site env worker (some batch) = .ok dirty) (hne : dirty ≠ []) :
    dirty = site.treeWindows batch := by
  unfold dirtyOf at h
  rw [honly.forcing, honly.parameters, honly.landcover, honly.override] at h
  by_cases hedits : batch.edits = []
  · simp [hedits, Option.filter, pure, Except.pure] at h
    exact absurd h hne
  · simp only [Bool.or_self, Bool.false_eq_true, ↓reduceIte, Option.filter, hedits,
      not_false_eq_true, decide_true, ne_eq, not_true_eq_false, except_bind_ok, pure, Except.pure,
      Except.ok.injEq] at h
    obtain ⟨_, -, found, rfl, heq⟩ := h
    simpa using heq.symm

theorem publishJob_solved (honly : TreesOnly worker)
    (h : publishJob site env worker live (some batch) revision target fraction =
      .ok (some outcome)) :
    ∃ mode patches, solveJob site env live target worker.requestedVariables
        (choosesFull site fraction (writeWindowsOf site (site.treeWindows batch)))
        (writeWindowsOf site (site.treeWindows batch)) = .ok (mode, patches) ∧
      outcome.mode = some mode ∧ outcome.writeWindows = patches.map (·.writeWindow) := by
  unfold publishJob at h
  obtain ⟨_, -, h⟩ := except_bind_ok.mp h
  obtain ⟨dirty, hdirty, h⟩ := except_bind_ok.mp h
  split at h
  · cases h
  next hne =>
  obtain rfl := dirtyOf_treesOnly honly (except_mapError_ok.mp hdirty) hne
  iterate 4 obtain ⟨_, -, h⟩ := except_bind_ok.mp h
  obtain ⟨⟨mode, patches⟩, hsolved, h⟩ := except_bind_ok.mp h
  iterate 2 obtain ⟨_, -, h⟩ := except_bind_ok.mp h
  obtain ⟨published, hpublished, h⟩ := except_bind_ok.mp h
  cases h
  refine ⟨mode, patches, except_mapError_ok.mp hsolved, rfl, ?_⟩
  have hpatches : published.map (·.2) = patches := by
    rw [publishPatches_patches hpublished, List.zipIdx_map_fst]
  unfold JobOutcome.publishedAs JobOutcome.writeWindows
  rw [← hpatches, List.map_map]
  rfl

/-- `gvf_march_pixels` -/
def gvfMarchPixels (pixelSizeM : Rat) : Nat := ⌈22 / pixelSizeM⌉.toNat

/-- The site of a job is the one that its windows are planned on. -/
structure Plans (influence : InfluenceSite) (trig : Trig) (site : Site P B G)
    (batch : CoalescedEditBatch) : Prop where
  grid : site.grid = influence.grid.toRasterGrid
  margin : site.writeMarginPixels = gvfMarchPixels influence.grid.pixelSize + 1
  dirty : influence.dirtyWindows trig batch.edits = .ok (site.treeWindows batch)

/-- The written windows of a local job share no cell, all lie on the grid and cover the dirty
ones, and the job is full exactly if the windows to write hold their share of the grid. -/
structure Publishable (site : Site P B G) (batch : CoalescedEditBatch) (fraction : Rat)
    (outcome : JobOutcome) : Prop where
  apart : outcome.mode = some "local" → outcome.writeWindows.Pairwise CellsApart
  inside : ∀ w ∈ outcome.writeWindows, w.Within site.grid.fullWindow
  covers : ∀ d ∈ site.treeWindows batch, ∃ w ∈ outcome.writeWindows, d.Within w
  mode : outcome.mode = some "full" ↔
    fraction ≤ unionShare site.grid (writeWindowsOf site (site.treeWindows batch))

/-- Where the plan of a job is right: a local job has two write margins between its dirty
windows, and the first merged window is on the side of the threshold on which all are together. -/
structure WellPlanned (site : Site P B G) (batch : CoalescedEditBatch) (fraction : Rat)
    (refused : Prop) : Prop where
  spaced : firstShare site.grid (writeWindowsOf site (site.treeWindows batch)) < fraction →
    ¬ refused → (site.treeWindows batch).Pairwise (Spaced (2 * site.writeMarginPixels))
  below : unionShare site.grid (writeWindowsOf site (site.treeWindows batch)) < fraction →
    firstShare site.grid (writeWindowsOf site (site.treeWindows batch)) < fraction ∧ ¬ refused
  above : fraction ≤ unionShare site.grid (writeWindowsOf site (site.treeWindows batch)) →
    fraction ≤ firstShare site.grid (writeWindowsOf site (site.treeWindows batch)) ∨ refused

end Job

/-! ## Shrubs beside a site -/

/-- A flat square of 19 cells of 1.75 m a side, at night. -/
def flatSquare : InfluenceSite where
  grid :=
    { rows := 19
      cols := 19
      pixelSize := 7 / 4
      rowsPos := by decide
      colsPos := by decide
      originXM := 0
      originYM := 133 / 4
      pixelPos := by norm_num }
  influenceConfig := halfSky
  blockSizePixels := 1
  fullRecomputeFraction := 1
  block_pos := Nat.one_pos
  fraction_range := by norm_num
  buildingDsm := fun _ _ => 0
  dem := fun _ _ => 0
  treeBase := fun _ _ => 0
  solar := [⟨-10, 90⟩]

def squareSite : Site Unit Unit Unit :=
  { cellSite false with
    grid := flatSquare.grid.toRasterGrid
    writeMarginPixels := gvfMarchPixels flatSquare.grid.pixelSize + 1
    treeWindows := fun batch =>
      (flatSquare.dirtyWindows quarterTurns batch.edits).toOption.getD [] }

/-- A shrub of one metre, half a cell west of the square. -/
def plantShrub (sequence : Nat) (treeId : String) (yM : Rat) : TreeEdit where
  sequence
  treeId
  oldTree := none
  newTree := some
    { treeId, xM := -7 / 8, yM, heightM := 1, canopyRadiusM := 1, trunkRatio := 1 / 4,
      transmissivity := 3 / 100 }
  present := by simp
  sameTree := by simp

def oneShrub : CoalescedEditBatch := ⟨1, 1, [plantShrub 1 "north" (259 / 8)]⟩

def twoShrubs : CoalescedEditBatch :=
  ⟨1, 2, [plantShrub 1 "north" (259 / 8), plantShrub 2 "south" (7 / 8)]⟩

theorem squareSite_plans {batch : CoalescedEditBatch}
    (h : (flatSquare.dirtyWindows quarterTurns batch.edits).isOk = true) :
    Plans flatSquare quarterTurns squareSite batch := by
  obtain ⟨windows, hwindows⟩ := except_of_isOk h
  refine ⟨rfl, rfl, ?_⟩
  unfold squareSite
  dsimp only
  rw [hwindows]
  rfl

theorem initial_treesOnly : TreesOnly (Worker.initial : Worker Unit) :=
  ⟨by decide, by decide, by decide, by decide⟩

/-- All but the last column. -/
def squareStrip : RasterWindow := ⟨0, 19, 0, 18, by decide, by decide⟩

/-- The job of a batch on the square. -/
def squareJob (batch : CoalescedEditBatch) : Except JobStop (Option JobOutcome) :=
  publishJob squareSite (returning "job") .initial ∅ (some batch) (fun _ => 0) 0
    flatSquare.fullRecomputeFraction

theorem squareJob_shows {batch : CoalescedEditBatch} {shown : Option String × List RasterWindow}
    (h : ((squareJob batch).toOption.join.map fun outcome =>
      (outcome.mode, outcome.writeWindows)) = some shown) :
    ∃ outcome, squareJob batch = .ok (some outcome) ∧ outcome.mode = shown.1 ∧
      outcome.writeWindows = shown.2 := by
  obtain ⟨outcome, hjoin, rfl⟩ := Option.map_eq_some_iff.mp h
  exact ⟨outcome, except_toOption_some.mp (Option.join_eq_some_iff.mp hjoin), rfl, rfl⟩

end Solweig.Executor
