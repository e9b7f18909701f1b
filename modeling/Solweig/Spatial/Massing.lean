import Solweig.Executor.Site
import Solweig.Spatial.Footprints

/-!
# The building layer

The surface of a scenario: the base with the edits of its blocks in order, each of which resets
its old footprint to the ground and paints its new one.
-/

namespace Solweig.Spatial

open Solweig.Lib Solweig.Executor
open Solweig.Planner (RasterWindow)

deriving instance DecidableEq for Footprint

/-- `HEIGHT_MIN_M` is excluded, `HEIGHT_MAX_M` is not. -/
structure BuildingSpec where
  buildingId : String
  footprint : Footprint
  heightM : Rat
  height_range : 0 < heightM ∧ heightM ≤ 1000
  deriving DecidableEq

/-- The arithmetic of the elevations, whatever it rounds. -/
structure Elevations (V : Type) where
  fmax : V → V → V
  /-- `ground + height_m` -/
  above : V → Rat → V
  isFinite : V → Bool

inductive MassingError where
  | noop (buildingId : String)
  | alreadyExists (buildingId : String)
  | staleBefore (buildingId : String)
  | undefinedGround (buildingId : String) (cells : Nat) (role : String)
  deriving DecidableEq

/-- What one edit did to the raster. -/
structure MassingRasterRecord where
  buildingId : String
  operation : String
  cellsPainted : Nat
  cellsReset : Nat
  wallsExpected : Bool
  edgeTouching : Bool

/-- `WALL_LIMIT_M` -/
def wallLimitM : Rat := 3

namespace Mask

/-- The cells of a mask that pass a test. -/
def count (mask : Mask) (p : Nat → Nat → Bool) : Nat :=
  ((List.range mask.rows).flatMap fun i =>
    (List.range mask.cols).filter fun j => mask.cell i j && p i j).length

def size (mask : Mask) : Nat := mask.count fun _ _ => true

theorem count_pos_iff {mask : Mask} {p : Nat → Nat → Bool} : mask.count p ≠ 0 ↔
    ∃ i < mask.rows, ∃ j < mask.cols, mask.cell i j = true ∧ p i j = true := by
  unfold count
  rw [ne_eq, List.length_eq_zero_iff, List.flatMap_eq_nil_iff]
  simp only [List.filter_eq_nil_iff, List.mem_range, Bool.and_eq_true]
  push Not
  rfl

end Mask

variable {V : Type}

/-- A raster with the cells of a window. -/
abbrev Cells (V : Type) := Nat → Nat → V

section Rasterize

variable (ops : Elevations V)

def requireFiniteGround (ground : Cells V) (mask : Mask) (buildingId role : String) :
    Except MassingError Unit :=
  refuseIf (mask.count (fun i j => ! ops.isFinite (ground i j)) ≠ 0)
    (.undefinedGround buildingId (mask.count fun i j => ! ops.isFinite (ground i j)) role)

/-- The cells of a mask get new values, where their ground is defined. -/
def overwrite (ground : Cells V) (mask : Mask) (buildingId role : String)
    (value : Nat → Nat → V → V) (raster : Cells V) : Except MassingError (Cells V) :=
  if mask.size ≠ 0 then do
    requireFiniteGround ops ground mask buildingId role
    pure fun i j => if mask.cell i j then value i j (raster i j) else raster i j
  else pure raster

/-- `_apply_edit` of the rasterizer -/
def paintEdit (grid : RasterGrid) (window : GridWindow grid) (ground raster : Cells V)
    (edit : MassingEdit BuildingSpec) : Except MassingError (Cells V × MassingRasterRecord) := do
  let resetMask := edit.before.map fun spec => polygonCellMask spec.footprint grid window
  let paintMask := edit.after.map fun spec => polygonCellMask spec.footprint grid window
  let reset ← match resetMask with
    | none => pure raster
    | some mask =>
      overwrite ops ground mask.1 edit.buildingId "before" (fun i j _ => ground i j) raster
  let painted ← match edit.after, paintMask with
    | some spec, some mask =>
      overwrite ops ground mask.1 edit.buildingId "after"
        (fun i j v => ops.fmax v (ops.above (ground i j) spec.heightM)) reset
    | _, _ => pure reset
  pure (painted,
    { buildingId := edit.buildingId
      operation := if edit.before = none then "add" else if edit.after = none then "delete"
        else "update"
      cellsPainted := paintMask.elim 0 (·.1.size)
      cellsReset := resetMask.elim 0 (·.1.size)
      wallsExpected := edit.after.any fun spec => wallLimitM ≤ spec.heightM
      edgeTouching := resetMask.any (·.2) || paintMask.any (·.2) })

structure BuildingRasterResult (V : Type) where
  raster : Cells V
  records : List MassingRasterRecord

structure BuildingLayer (V : Type) where
  base : Cells V
  dem : Cells V
  grid : RasterGrid
  edits : List (MassingEdit BuildingSpec)
  live : Dict String BuildingSpec

namespace BuildingLayer

def make (base dem : Cells V) (grid : RasterGrid) : BuildingLayer V := ⟨base, dem, grid, [], ∅⟩

def applyEdit (layer : BuildingLayer V) (edit : MassingEdit BuildingSpec) :
    Except MassingError (BuildingLayer V) := do
  refuseIf (edit.before ≠ none ∧ edit.before = edit.after) (.noop edit.buildingId)
  let live := layer.live[edit.buildingId]?
  refuseIf (edit.after ≠ none ∧ edit.before = none ∧ live ≠ none) (.alreadyExists edit.buildingId)
  refuseIf (edit.before ≠ none ∧ live ≠ none ∧ live ≠ edit.before) (.staleBefore edit.buildingId)
  pure { layer with
    edits := layer.edits ++ [edit]
    live := match edit.after with
      | none => layer.live.erase edit.buildingId
      | some spec => layer.live.insert edit.buildingId spec }

def applyEdits (layer : BuildingLayer V) (edits : List (MassingEdit BuildingSpec)) :
    Except MassingError (BuildingLayer V) :=
  edits.foldlM applyEdit layer

def rasterizeWindowWithRecords (layer : BuildingLayer V) (window : GridWindow layer.grid) :
    Except MassingError (BuildingRasterResult V) :=
  let crop (raster : Cells V) : Cells V := fun i j =>
    raster (window.val.rowStart + i).toNat (window.val.colStart + j).toNat
  layer.edits.foldlM (fun (result : BuildingRasterResult V) edit => do
    let painted ← paintEdit ops layer.grid window (crop layer.dem) result.raster edit
    pure ⟨painted.1, result.records ++ [painted.2]⟩) ⟨crop layer.base, []⟩

def fullGridWindow (grid : RasterGrid) : GridWindow grid :=
  ⟨grid.fullWindow, ⟨le_refl _, le_refl _⟩, le_refl _, le_refl _⟩

def rasterizeWithRecords (layer : BuildingLayer V) :
    Except MassingError (BuildingRasterResult V) :=
  layer.rasterizeWindowWithRecords ops (fullGridWindow layer.grid)

end BuildingLayer

/-- `write_scenario_building_dsm`: what a batch of edits makes of the staged surface -/
def writeScenarioBuildingDsm (base dem : Cells V) (grid : RasterGrid)
    (edits : List (MassingEdit BuildingSpec)) : Except MassingError (BuildingRasterResult V) := do
  let layer ← (BuildingLayer.make base dem grid).applyEdits edits
  layer.rasterizeWithRecords ops

end Rasterize

/-! ## One cell -/

def specsOf (edit : MassingEdit BuildingSpec) : List BuildingSpec :=
  edit.before.toList ++ edit.after.toList

/-- The footprint holds the cell of the whole raster. -/
def covers (grid : RasterGrid) (cell : Nat × Nat) (spec : BuildingSpec) : Bool :=
  (polygonCellMask spec.footprint grid (BuildingLayer.fullGridWindow grid)).1.cell cell.1 cell.2

/-- What a change from one state to another does to a cell with this ground. -/
def paintStates (ops : Elevations V) (covered : BuildingSpec → Bool) (ground : V)
    (before after : Option BuildingSpec) (value : V) : V :=
  let reset := if before.any covered then ground else value
  match after with
  | none => reset
  | some spec => if covered spec then ops.fmax reset (ops.above ground spec.heightM) else reset

def paintCell (ops : Elevations V) (covered : BuildingSpec → Bool) (ground : V) (value : V)
    (edit : MassingEdit BuildingSpec) : V :=
  paintStates ops covered ground edit.before edit.after value

/-- The ground is defined under the footprint. -/
def Grounded (ops : Elevations V) (dem : Cells V) (grid : RasterGrid) (spec : BuildingSpec) : Prop :=
  ∀ i < grid.rows, ∀ j < grid.cols, covers grid (i, j) spec = true → ops.isFinite (dem i j) = true

section OneCell

variable {ops : Elevations V} {grid : RasterGrid} {ground raster raster' : Cells V}
  {edit : MassingEdit BuildingSpec} {mask : Mask} {value : Nat → Nat → V → V}
  {buildingId role : String}

theorem overwrite_ok
    (h : overwrite ops ground mask buildingId role value raster = .ok raster') :
    (∀ i < mask.rows, ∀ j < mask.cols, mask.cell i j = true →
        ops.isFinite (ground i j) = true) ∧
      ∀ i < mask.rows, ∀ j < mask.cols,
        raster' i j = if mask.cell i j then value i j (raster i j) else raster i j := by
  unfold overwrite at h
  split at h
  · simp only [except_bind_ok, requireFiniteGround, refuseIf_ok, Mask.count_pos_iff, pure,
      Except.pure, Except.ok.injEq] at h
    obtain ⟨-, hfinite, rfl⟩ := h
    refine ⟨fun i hi j hj hcell => ?_, fun _ _ _ _ => rfl⟩
    by_contra hbad
    exact hfinite ⟨i, hi, j, hj, hcell, by simpa using hbad⟩
  · next hnone =>
    cases h
    have hempty : ∀ i < mask.rows, ∀ j < mask.cols, ¬ mask.cell i j = true := by
      intro i hi j hj hcell
      exact hnone (Mask.count_pos_iff.mpr ⟨i, hi, j, hj, hcell, rfl⟩)
    refine ⟨fun i hi j hj hcell => absurd hcell (hempty i hi j hj), fun i hi j hj => ?_⟩
    rw [if_neg (hempty i hi j hj)]

variable (buildingId role value raster) in
theorem overwrite_total (h : ∀ i < mask.rows, ∀ j < mask.cols, mask.cell i j = true →
    ops.isFinite (ground i j) = true) :
    ∃ raster', overwrite ops ground mask buildingId role value raster = .ok raster' := by
  unfold overwrite
  split
  · simp only [except_bind_ok, requireFiniteGround, refuseIf_ok, Mask.count_pos_iff]
    refine ⟨_, (), ?_, rfl⟩
    rintro ⟨i, hi, j, hj, hcell, hbad⟩
    simp [h i hi j hj hcell] at hbad
  · exact ⟨_, rfl⟩

theorem fullMask_shape (f : Footprint) (grid : RasterGrid) :
    (polygonCellMask f grid (BuildingLayer.fullGridWindow grid)).1.rows = grid.rows ∧
      (polygonCellMask f grid (BuildingLayer.fullGridWindow grid)).1.cols = grid.cols := by
  rw [polygonCellMask_shape.1, polygonCellMask_shape.2]
  unfold BuildingLayer.fullGridWindow Planner.RasterGrid.fullWindow
  simp

variable (grid raster) in
theorem crop_fullGridWindow : (fun i j : Nat =>
    raster ((BuildingLayer.fullGridWindow grid).val.rowStart + i).toNat
      ((BuildingLayer.fullGridWindow grid).val.colStart + j).toNat) = raster := by
  funext i j
  simp [BuildingLayer.fullGridWindow, Planner.RasterGrid.fullWindow]

theorem paintEdit_ok {painted : Cells V × MassingRasterRecord}
    (h : paintEdit ops grid (BuildingLayer.fullGridWindow grid) ground raster edit =
      .ok painted) :
    (∀ spec ∈ specsOf edit, Grounded ops ground grid spec) ∧
      ∀ i < grid.rows, ∀ j < grid.cols,
        painted.1 i j = paintCell ops (covers grid (i, j)) (ground i j) (raster i j) edit := by
  unfold paintEdit at h
  unfold specsOf paintCell paintStates Grounded covers
  rcases hbefore : edit.before with _ | before <;> rcases hafter : edit.after with _ | after
  · exact absurd ⟨hbefore, hafter⟩ edit.present
  all_goals
    simp only [hbefore, hafter, Option.map_none, Option.map_some, except_bind_ok, pure,
      Except.pure, Except.ok.injEq, exists_eq_left'] at h
  · obtain ⟨painted, hpaint, rfl⟩ := h
    obtain ⟨hfinite, hvalue⟩ := overwrite_ok hpaint
    rw [(fullMask_shape _ _).1, (fullMask_shape _ _).2] at hfinite hvalue
    refine ⟨by simpa using hfinite, fun i hi j hj => (hvalue i hi j hj).trans ?_⟩
    simp
  · obtain ⟨reset, hreset, rfl⟩ := h
    obtain ⟨hfinite, hvalue⟩ := overwrite_ok hreset
    rw [(fullMask_shape _ _).1, (fullMask_shape _ _).2] at hfinite hvalue
    refine ⟨by simpa using hfinite, fun i hi j hj => (hvalue i hi j hj).trans ?_⟩
    simp
  · obtain ⟨reset, hreset, painted, hpaint, rfl⟩ := h
    obtain ⟨hfinite, hvalue⟩ := overwrite_ok hreset
    obtain ⟨hfinite', hvalue'⟩ := overwrite_ok hpaint
    rw [(fullMask_shape _ _).1, (fullMask_shape _ _).2] at hfinite hvalue hfinite' hvalue'
    refine ⟨?_, fun i hi j hj => (hvalue' i hi j hj).trans ?_⟩
    · simp only [Option.toList_some, List.singleton_append, List.mem_cons, List.not_mem_nil,
        or_false, forall_eq_or_imp, forall_eq]
      exact ⟨hfinite, hfinite'⟩
    · rw [hvalue i hi j hj]
      simp

variable (raster) in
theorem paintEdit_total (h : ∀ spec ∈ specsOf edit, Grounded ops ground grid spec) :
    ∃ painted, paintEdit ops grid (BuildingLayer.fullGridWindow grid) ground raster edit =
      .ok painted := by
  have htotal (role : String) (value : Nat → Nat → V → V) (raster : Cells V) (spec : BuildingSpec)
      (hspec : spec ∈ specsOf edit) := by
    have hground := h spec hspec
    unfold Grounded covers at hground
    rw [← (fullMask_shape spec.footprint grid).1, ← (fullMask_shape spec.footprint grid).2]
      at hground
    exact overwrite_total raster value edit.buildingId role hground
  unfold paintEdit
  unfold specsOf at htotal
  rcases hbefore : edit.before with _ | before <;> rcases hafter : edit.after with _ | after
  · exact absurd ⟨hbefore, hafter⟩ edit.present
  all_goals
    simp only [Option.map_none, Option.map_some, except_bind_ok, pure, Except.pure,
      Except.ok.injEq, exists_eq_left']
  · obtain ⟨painted, hpaint⟩ := htotal "after" _ raster after (by simp [hafter])
    exact ⟨_, painted, hpaint, rfl⟩
  · obtain ⟨reset, hreset⟩ := htotal "before" _ raster before (by simp [hbefore])
    exact ⟨_, reset, hreset, rfl⟩
  · obtain ⟨reset, hreset⟩ := htotal "before" _ raster before (by simp [hbefore])
    obtain ⟨painted, hpaint⟩ := htotal "after" _ reset after (by simp [hafter])
    exact ⟨_, reset, hreset, painted, hpaint, rfl⟩

/-- What is rasterized: every footprint has defined ground, and each cell goes through all
edits. -/
theorem rasterizeWithRecords_ok {layer : BuildingLayer V} {result : BuildingRasterResult V}
    (h : layer.rasterizeWithRecords ops = .ok result) :
    (∀ edit ∈ layer.edits, ∀ spec ∈ specsOf edit, Grounded ops layer.dem layer.grid spec) ∧
      ∀ i < layer.grid.rows, ∀ j < layer.grid.cols, result.raster i j =
        layer.edits.foldl (paintCell ops (covers layer.grid (i, j)) (layer.dem i j))
          (layer.base i j) := by
  unfold BuildingLayer.rasterizeWithRecords BuildingLayer.rasterizeWindowWithRecords at h
  simp only [crop_fullGridWindow] at h
  refine foldlM_invariant (I := fun done (result : BuildingRasterResult V) =>
    (∀ edit ∈ done, ∀ spec ∈ specsOf edit, Grounded ops layer.dem layer.grid spec) ∧
      ∀ i < layer.grid.rows, ∀ j < layer.grid.cols, result.raster i j =
        done.foldl (paintCell ops (covers layer.grid (i, j)) (layer.dem i j)) (layer.base i j))
    ?_ ⟨by simp, by simp⟩ h
  rintro done edit - result next - ⟨hground, hvalue⟩ hstep
  obtain ⟨painted, hpaint, hnext⟩ := except_bind_ok.mp hstep
  cases hnext
  obtain ⟨hground', hvalue'⟩ := paintEdit_ok hpaint
  refine ⟨fun other hother => ?_, fun i hi j hj => ?_⟩
  · rcases List.mem_append.mp hother with hmem | hmem
    · exact hground other hmem
    · rw [List.mem_singleton.mp hmem]
      exact hground'
  · rw [List.foldl_append, ← hvalue i hi j hj]
    exact hvalue' i hi j hj

theorem rasterizeWithRecords_total {layer : BuildingLayer V}
    (h : ∀ edit ∈ layer.edits, ∀ spec ∈ specsOf edit, Grounded ops layer.dem layer.grid spec) :
    ∃ result, layer.rasterizeWithRecords ops = .ok result := by
  unfold BuildingLayer.rasterizeWithRecords BuildingLayer.rasterizeWindowWithRecords
  simp only [crop_fullGridWindow]
  generalize BuildingRasterResult.mk _ [] = result
  generalize layer.edits = edits at h ⊢
  induction edits generalizing result with
  | nil => exact ⟨result, rfl⟩
  | cons edit edits ih =>
    rw [List.forall_mem_cons] at h
    obtain ⟨painted, hpaint⟩ := paintEdit_total result.raster h.1
    obtain ⟨last, hlast⟩ := ih ⟨painted.1, result.records ++ [painted.2]⟩ h.2
    refine ⟨last, foldlM_cons_ok.mpr ⟨_, ?_, hlast⟩⟩
    rw [hpaint]
    rfl

end OneCell

/-! ## The edits of a layer -/

/-- The states of the blocks after some edits. -/
def stateAfter (state : String → Option BuildingSpec) (edits : List (MassingEdit BuildingSpec)) :
    String → Option BuildingSpec :=
  edits.foldl (fun state edit => Function.update state edit.buildingId edit.after) state

/-- Each edit is a change that starts in the state of its block. -/
def Follows (state : String → Option BuildingSpec) : List (MassingEdit BuildingSpec) → Prop
  | [] => True
  | edit :: edits => (edit.before = state edit.buildingId ∧ edit.before ≠ edit.after) ∧
      Follows (Function.update state edit.buildingId edit.after) edits

/-- No edit changes nothing, and one of a block that earlier edits left standing starts there. -/
def Accepted (live : String → Option BuildingSpec) : List (MassingEdit BuildingSpec) → Prop
  | [] => True
  | edit :: edits =>
    (edit.before ≠ edit.after ∧
        (live edit.buildingId = none ∨ edit.before = live edit.buildingId)) ∧
      Accepted (Function.update live edit.buildingId edit.after) edits

section Edits

variable {state live : String → Option BuildingSpec}
  {edits later : List (MassingEdit BuildingSpec)}

theorem stateAfter_append : stateAfter state (edits ++ later) =
    stateAfter (stateAfter state edits) later := by
  unfold stateAfter
  rw [List.foldl_append]

theorem follows_append : Follows state (edits ++ later) ↔
    Follows state edits ∧ Follows (stateAfter state edits) later := by
  induction edits generalizing state with
  | nil => simp [Follows, stateAfter]
  | cons edit edits ih =>
    simp only [List.cons_append, Follows, ih, and_assoc]
    rfl

theorem accepted_append : Accepted live (edits ++ later) ↔
    Accepted live edits ∧ Accepted (stateAfter live edits) later := by
  induction edits generalizing live with
  | nil => simp [Accepted, stateAfter]
  | cons edit edits ih =>
    simp only [List.cons_append, Accepted, ih, and_assoc]
    rfl

/-- Edits that follow the states of the blocks are accepted, whichever of the blocks are known. -/
theorem Follows.accepted (h : Follows state edits)
    (hlive : ∀ id, live id = none ∨ live id = state id) : Accepted live edits := by
  induction edits generalizing state live with
  | nil => trivial
  | cons edit edits ih =>
    obtain ⟨⟨hbefore, hne⟩, hrest⟩ := h
    refine ⟨⟨hne, ?_⟩, ih hrest fun id => ?_⟩
    · rw [hbefore]
      exact (hlive edit.buildingId).imp_right Eq.symm
    · by_cases hid : id = edit.buildingId
      · subst hid
        simp
      · rw [Function.update_of_ne hid, Function.update_of_ne hid]
        exact hlive id

theorem applyEdit_ok_iff {layer next : BuildingLayer V} {edit : MassingEdit BuildingSpec} :
    layer.applyEdit edit = .ok next ↔
      (edit.before ≠ edit.after ∧
        (layer.live[edit.buildingId]? = none ∨ edit.before = layer.live[edit.buildingId]?)) ∧
      next = { layer with
        edits := layer.edits ++ [edit]
        live := match edit.after with
          | none => layer.live.erase edit.buildingId
          | some spec => layer.live.insert edit.buildingId spec } := by
  unfold BuildingLayer.applyEdit
  simp only [except_bind_ok, refuseIf_ok, pure, Except.pure, Except.ok.injEq]
  have hpresent := edit.present
  constructor
  · rintro ⟨-, hnoop, -, hexists, -, hstale, rfl⟩
    refine ⟨⟨?_, ?_⟩, rfl⟩
    · intro heq
      refine hnoop ⟨fun hnone => hpresent ⟨hnone, heq ▸ hnone⟩, heq⟩
    · by_cases hlive : layer.live[edit.buildingId]? = none
      · exact Or.inl hlive
      right
      by_cases hbefore : edit.before = none
      · refine absurd ⟨fun hafter => hpresent ⟨hbefore, hafter⟩, hbefore, hlive⟩ hexists
      · by_contra hne
        exact hstale ⟨hbefore, hlive, Ne.symm hne⟩
  · rintro ⟨⟨hne, hlive⟩, rfl⟩
    refine ⟨(), fun hnoop => hne hnoop.2, (), ?_, (), ?_, rfl⟩
    · rintro ⟨-, habsent, hstands⟩
      rcases hlive with hnone | heq
      · exact hstands hnone
      · exact hstands (heq ▸ habsent)
    · rintro ⟨-, hstands, hstale⟩
      rcases hlive with hnone | heq
      · exact hstands hnone
      · exact hstale heq.symm

theorem applyEdits_ok_iff (layer : BuildingLayer V)
    (hlive : ∀ id : String, layer.live[id]? = live id) :
    (∃ layer', layer.applyEdits edits = .ok layer') ↔ Accepted live edits := by
  induction edits generalizing layer live with
  | nil => exact iff_of_true ⟨layer, rfl⟩ trivial
  | cons edit edits ih =>
    have hnext (next : BuildingLayer V) (hstep : layer.applyEdit edit = .ok next) (id : String) :
        next.live[id]? = Function.update live edit.buildingId edit.after id := by
      rw [(applyEdit_ok_iff.mp hstep).2]
      by_cases hid : id = edit.buildingId
      · subst hid
        rw [Function.update_self]
        rcases edit.after with _ | spec <;> simp
      · rw [Function.update_of_ne hid, ← hlive id]
        rcases edit.after with _ | spec
        · exact Dict.getElem?_erase_of_ne _ (Ne.symm hid)
        · exact Dict.getElem?_insert_of_ne _ _ (Ne.symm hid)
    unfold BuildingLayer.applyEdits Accepted
    simp only [foldlM_cons_ok]
    constructor
    · rintro ⟨layer', next, hstep, hrest⟩
      refine ⟨?_, (ih next (hnext next hstep)).mp ⟨layer', hrest⟩⟩
      rw [← hlive]
      exact (applyEdit_ok_iff.mp hstep).1
    · rintro ⟨haccepts, hrest⟩
      rw [← hlive] at haccepts
      obtain ⟨next, hstep⟩ : ∃ next, layer.applyEdit edit = .ok next :=
        ⟨_, applyEdit_ok_iff.mpr ⟨haccepts, rfl⟩⟩
      obtain ⟨layer', hlayer'⟩ := (ih next (hnext next hstep)).mpr hrest
      exact ⟨layer', next, hstep, hlayer'⟩

theorem applyEdits_keeps {layer layer' : BuildingLayer V}
    (h : layer.applyEdits edits = .ok layer') :
    layer'.edits = layer.edits ++ edits ∧ layer'.base = layer.base ∧ layer'.dem = layer.dem ∧
      layer'.grid = layer.grid := by
  refine foldlM_invariant (I := fun done (next : BuildingLayer V) =>
    next.edits = layer.edits ++ done ∧ next.base = layer.base ∧ next.dem = layer.dem ∧
      next.grid = layer.grid) ?_ (by simp) h
  rintro done edit - s t - ⟨hedits, hrest⟩ hstep
  obtain rfl := (applyEdit_ok_iff.mp hstep).2
  exact ⟨by rw [← List.append_assoc, ← hedits], hrest⟩

variable {ops : Elevations V} {base dem : Cells V} {grid : RasterGrid}

theorem writeScenarioBuildingDsm_ok {result : BuildingRasterResult V}
    (h : writeScenarioBuildingDsm ops base dem grid edits = .ok result) :
    (∀ edit ∈ edits, ∀ spec ∈ specsOf edit, Grounded ops dem grid spec) ∧
      ∀ i < grid.rows, ∀ j < grid.cols, result.raster i j =
        edits.foldl (paintCell ops (covers grid (i, j)) (dem i j)) (base i j) := by
  obtain ⟨layer, hlayer, hresult⟩ := except_bind_ok.mp h
  obtain ⟨hedits, hbase, hdem, hgrid⟩ := applyEdits_keeps hlayer
  have hok := rasterizeWithRecords_ok hresult
  rw [hedits, hbase, hdem, hgrid] at hok
  exact hok

theorem writeScenarioBuildingDsm_ok_iff :
    (∃ result, writeScenarioBuildingDsm ops base dem grid edits = .ok result) ↔
      Accepted (fun _ => none) edits ∧
        ∀ edit ∈ edits, ∀ spec ∈ specsOf edit, Grounded ops dem grid spec := by
  have haccepts := @applyEdits_ok_iff V (fun _ => none) edits (BuildingLayer.make base dem grid)
    fun id => Std.ExtTreeMap.getElem?_empty
  constructor
  · rintro ⟨result, hresult⟩
    refine ⟨haccepts.mp ?_, (writeScenarioBuildingDsm_ok hresult).1⟩
    obtain ⟨layer, hlayer, -⟩ := except_bind_ok.mp hresult
    exact ⟨layer, hlayer⟩
  · rintro ⟨haccepted, hground⟩
    obtain ⟨layer, hlayer⟩ := haccepts.mpr haccepted
    obtain ⟨hedits, -, hdem, hgrid⟩ := applyEdits_keeps hlayer
    have hground' : ∀ edit ∈ layer.edits, ∀ spec ∈ specsOf edit,
        Grounded ops layer.dem layer.grid spec := by
      rw [hedits, hdem, hgrid]
      exact hground
    obtain ⟨result, hresult⟩ := rasterizeWithRecords_total hground'
    exact ⟨result, except_bind_ok.mpr ⟨layer, hlayer, hresult⟩⟩

end Edits

end Solweig.Spatial
