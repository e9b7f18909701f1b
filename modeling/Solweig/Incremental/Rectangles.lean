import Solweig.Lib.Tiling
import Solweig.Planner.Windows

/-!
# Rectangles

Which cells of a window others cover, and the rectangles that the uncovered cells fall into:
the runs of each row, carried down while their columns stay the same.
-/

namespace Solweig.Incremental

open Solweig.Lib Solweig.Planner

/-- A cell by its row and its column. -/
abbrev Cell := Int × Int

def holds (window : RasterWindow) (cell : Cell) : Bool :=
  window.rowStart ≤ cell.1 ∧ cell.1 < window.rowStop ∧
    window.colStart ≤ cell.2 ∧ cell.2 < window.colStop

theorem holds_iff {window : RasterWindow} {cell : Cell} : holds window cell = true ↔
    window.rowStart ≤ cell.1 ∧ cell.1 < window.rowStop ∧
      window.colStart ≤ cell.2 ∧ cell.2 < window.colStop :=
  decide_eq_true_iff

/-! ## The mask -/

/-- A mask of rows and columns, counted from the start of its window. -/
abbrev Mask := Nat → Nat → Bool

def windowHeight (window : RasterWindow) : Nat := (window.rowStop - window.rowStart).toNat

def windowWidth (window : RasterWindow) : Nat := (window.colStop - window.colStart).toNat

/-- The slice of the mask that one window fills. -/
def maskSlice (window other : RasterWindow) : Mask := fun row col =>
  max window.rowStart other.rowStart - window.rowStart ≤ row ∧
    row < min window.rowStop other.rowStop - window.rowStart ∧
    max window.colStart other.colStart - window.colStart ≤ col ∧
    col < min window.colStop other.colStop - window.colStart

theorem maskSlice_iff {window other : RasterWindow} {row col : Nat} :
    maskSlice window other row col = true ↔
      max window.rowStart other.rowStart - window.rowStart ≤ row ∧
        row < min window.rowStop other.rowStop - window.rowStart ∧
        max window.colStart other.colStart - window.colStart ≤ col ∧
        col < min window.colStop other.colStop - window.colStart :=
  decide_eq_true_iff

theorem intersects_iff {window other : RasterWindow} : window.intersects other = true ↔
    ¬ (window.rowStop < other.rowStart ∨ other.rowStop < window.rowStart ∨
      window.colStop < other.colStart ∨ other.colStop < window.colStart) := by
  unfold RasterWindow.intersects RasterWindow.intersectsWithin
  simp

def coveredMask (window : RasterWindow) (covering : List RasterWindow) : Mask := fun row col =>
  covering.any fun other => other.intersects window && maskSlice window other row col

/-! ## Runs of a row -/

/-- Where the differences of the padded row are 1. -/
def runStarts (prev : Bool) (i : Nat) : List Bool → List Nat
  | [] => []
  | b :: bs => (if b && !prev then [i] else []) ++ runStarts b (i + 1) bs

/-- Where the differences of the padded row are -1. -/
def runStops (prev : Bool) (i : Nat) : List Bool → List Nat
  | [] => if prev then [i] else []
  | b :: bs => (if prev && !b then [i] else []) ++ runStops b (i + 1) bs

def rowRuns (row : List Bool) : List (Nat × Nat) := (runStarts false 0 row).zip (runStops false 0 row)

/-! ## Runs carried down -/

structure Run where
  rowStart : Nat
  rowStop : Nat
  colStart : Nat
  colStop : Nat

def Run.hasSpan (span : Nat × Nat) (run : Run) : Bool :=
  run.colStart = span.1 ∧ run.colStop = span.2

/-- One span of a row: the open run of the same columns goes on, or a new one starts. -/
def carrySpan (row : Nat) (s : List Run × List Run) (span : Nat × Nat) : List Run × List Run :=
  match s.1.find? (Run.hasSpan span) with
  | some run => (s.1.eraseP (Run.hasSpan span), s.2 ++ [{ run with rowStop := row + 1 }])
  | none => (s.1, s.2 ++ [⟨row, row + 1, span.1, span.2⟩])

/-- One row, on the open and the emitted runs. Those that it does not carry on are closed. -/
def nextRow (covered : Mask) (cols : Nat) (s : List Run × List Run) (row : Nat) :
    List Run × List Run :=
  let carried := (rowRuns ((List.range cols).map fun col => !covered row col)).foldl
    (carrySpan row) (s.1, [])
  (carried.2, s.2 ++ carried.1)

def missingRuns (covered : Mask) (rows cols : Nat) : List Run :=
  let walked := (List.range rows).foldl (nextRow covered cols) ([], [])
  walked.2 ++ walked.1

/-- The window of a run, in the coordinates of the grid. -/
def Run.window (window : RasterWindow) (run : Run) : RasterWindow where
  rowStart := window.rowStart + run.rowStart
  rowStop := window.rowStart + max run.rowStart run.rowStop
  colStart := window.colStart + run.colStart
  colStop := window.colStart + max run.colStart run.colStop
  rows := by omega
  cols := by omega

def windowBefore (a b : RasterWindow) : Prop :=
  a.rowStart < b.rowStart ∨ a.rowStart = b.rowStart ∧ a.colStart ≤ b.colStart

instance : DecidableRel windowBefore := fun _ _ => inferInstanceAs (Decidable (_ ∨ _))

/-- `_missing_rectangles` -/
def missingRectangles (covered : Mask) (window : RasterWindow) : List RasterWindow :=
  ((missingRuns covered (windowHeight window) (windowWidth window)).map
    (Run.window window)).insertionSort windowBefore

/-- `_subtract_windows` -/
def subtractWindows (target : RasterWindow) (cuts : List RasterWindow) : List RasterWindow :=
  if cuts = [] then [target] else missingRectangles (coveredMask target cuts) target

/-! ## The runs tile a row -/

/-- A column lies between the start and the stop. -/
def inSpan (span : Nat × Nat) (col : Nat) : Bool := span.1 ≤ col ∧ col < span.2

/-- The columns from `i` on that a row marks. -/
def rowFrom (i : Nat) (row : List Bool) (col : Nat) : Bool := i ≤ col && (row[col - i]?).getD false

theorem rowFrom_cons (i : Nat) (b : Bool) (row : List Bool) (col : Nat) :
    rowFrom i (b :: row) col = ((col = i && b) || rowFrom (i + 1) row col) := by
  unfold rowFrom
  rcases Nat.lt_trichotomy col i with hlt | rfl | hlt
  · have hle : ¬ i ≤ col := by omega
    have hle' : ¬ i + 1 ≤ col := by omega
    simp [hle, hle', Nat.ne_of_lt hlt]
  · simp
  · obtain ⟨k, rfl⟩ := Nat.exists_eq_add_of_lt hlt
    have hle : i ≤ i + k + 1 := by omega
    have hle' : i + 1 ≤ i + k + 1 := by omega
    have hsub : i + k + 1 - i = k + 1 := by omega
    have hsub' : i + k + 1 - (i + 1) = k := by omega
    have hne : i + k + 1 ≠ i := by omega
    simp [hle, hle', hsub, hsub', hne]

theorem runs_tile (row : List Bool) (i : Nat) :
    (∀ start ≤ i, Tiles inSpan ((start :: runStarts true i row).zip (runStops true i row))
      fun col => inSpan (start, i) col || rowFrom i row col) ∧
    Tiles inSpan ((runStarts false i row).zip (runStops false i row)) (rowFrom i row) := by
  induction row generalizing i with
  | nil =>
    refine ⟨fun start _ col => ?_, fun col => by simp [runStarts, rowFrom]⟩
    have hnone : rowFrom i [] col = false := by simp [rowFrom]
    simp [runStops, runStarts, List.countP_cons, hnone]
  | cons b row ih =>
    obtain ⟨hopen, hclosed⟩ := ih (i + 1)
    cases b with
    | true =>
      refine ⟨fun start hstart => ?_, ?_⟩
      · refine (hopen start (by omega)).congr fun col => ?_
        rw [rowFrom_cons, ← Bool.or_assoc]
        congr 1
        rw [Bool.eq_iff_iff]
        simp only [inSpan, Bool.or_eq_true, decide_eq_true_eq, Bool.and_true]
        omega
      · refine (hopen i (by omega)).congr fun col => ?_
        rw [rowFrom_cons]
        congr 1
        rw [Bool.eq_iff_iff]
        simp only [inSpan, decide_eq_true_eq, Bool.and_true]
        omega
    | false =>
      refine ⟨fun start hstart => ?_, ?_⟩
      · have hfirst : Tiles inSpan [(start, i)] (inSpan (start, i)) := fun col => by
          simp [List.countP_cons]
        refine (hfirst.append hclosed fun col hcol => ?_).congr fun col => ?_
        · simp only [inSpan, decide_eq_true_eq] at hcol
          have hle : ¬ i + 1 ≤ col := by omega
          simp [rowFrom, hle]
        · rw [rowFrom_cons]
          simp
      · refine hclosed.congr fun col => ?_
        rw [rowFrom_cons]
        simp

theorem rowRuns_tile (row : List Bool) :
    Tiles inSpan (rowRuns row) fun col => (row[col]?).getD false :=
  (runs_tile row 0).2.congr fun col => by simp [rowFrom]

theorem runs_nonempty (row : List Bool) (i : Nat) :
    (∀ start < i, ∀ span ∈ (start :: runStarts true i row).zip (runStops true i row),
      span.1 < span.2) ∧
    ∀ span ∈ (runStarts false i row).zip (runStops false i row), span.1 < span.2 := by
  induction row generalizing i with
  | nil =>
    refine ⟨fun start hstart span hspan => ?_, fun span hspan => by cases hspan⟩
    rw [List.mem_singleton.mp hspan]
    exact hstart
  | cons b row ih =>
    obtain ⟨hopen, hclosed⟩ := ih (i + 1)
    cases b with
    | true => exact ⟨fun start hstart => hopen start (by omega), hopen i (by omega)⟩
    | false =>
      refine ⟨fun start hstart span hspan => ?_, hclosed⟩
      rcases List.mem_cons.mp hspan with rfl | hspan
      · exact hstart
      · exact hclosed span hspan

theorem rowRuns_nonempty (row : List Bool) : ∀ span ∈ rowRuns row, span.1 < span.2 :=
  (runs_nonempty row 0).2

/-! ## The rectangles tile the mask -/

def Run.holds (run : Run) (cell : Nat × Nat) : Bool :=
  run.rowStart ≤ cell.1 ∧ cell.1 < run.rowStop ∧ inSpan (run.colStart, run.colStop) cell.2

theorem Run.holds_iff {run : Run} {cell : Nat × Nat} : run.holds cell = true ↔
    run.rowStart ≤ cell.1 ∧ cell.1 < run.rowStop ∧ run.colStart ≤ cell.2 ∧ cell.2 < run.colStop := by
  simp [Run.holds, inSpan]

/-- The run ends before the row, having started no later. -/
def Run.EndsAt (row : Nat) (run : Run) : Prop := run.rowStart ≤ run.rowStop ∧ run.rowStop = row

section Carry

variable {row : Nat}

/-- How many runs hold a cell. -/
def runCount (runs : List Run) (cell : Nat × Nat) : Nat := runs.countP fun run => run.holds cell

theorem runCount_append (runs other : List Run) (cell : Nat × Nat) :
    runCount (runs ++ other) cell = runCount runs cell + runCount other cell :=
  List.countP_append

theorem runCount_singleton (run : Run) (cell : Nat × Nat) :
    runCount [run] cell = if run.holds cell then 1 else 0 := by
  simp [runCount, List.countP_cons]

theorem eraseP_perm {α : Type} {p : α → Bool} {l : List α} {a : α} (h : l.find? p = some a) :
    l.Perm (a :: l.eraseP p) := by
  obtain ⟨ha, before, after, rfl, hbefore⟩ := List.find?_eq_some_iff_append.mp h
  rw [List.eraseP_append_right _ fun b hb => by simpa using hbefore b hb,
    List.eraseP_cons_of_pos ha]
  exact List.perm_middle

theorem longer_count {run : Run} {span : Nat × Nat} (hspan : run.hasSpan span = true)
    (hends : run.EndsAt row) (cell : Nat × Nat) :
    runCount [{ run with rowStop := row + 1 }] cell =
      runCount [run] cell + if (cell.1 = row && inSpan span cell.2) then 1 else 0 := by
  simp only [Run.hasSpan, decide_eq_true_eq] at hspan
  simp only [Run.EndsAt] at hends
  simp only [runCount_singleton, Run.holds, hspan.1, hspan.2, hends.2, Prod.mk.eta,
    decide_eq_true_eq, Bool.and_eq_true]
  generalize inSpan span cell.2 = inside
  cases inside with
  | false => simp
  | true =>
    simp only [and_true]
    split_ifs <;> omega

theorem newRun_count (span : Nat × Nat) (cell : Nat × Nat) :
    runCount [⟨row, row + 1, span.1, span.2⟩] cell =
      if (cell.1 = row && inSpan span cell.2) then 1 else 0 := by
  simp only [runCount_singleton, Run.holds, Prod.mk.eta, decide_eq_true_eq, Bool.and_eq_true]
  generalize inSpan span cell.2 = inside
  cases inside with
  | false => simp
  | true =>
    simp only [and_true]
    split_ifs <;> omega

theorem carrySpan_count {s : List Run × List Run} (hopen : ∀ run ∈ s.1, run.EndsAt row)
    (span : Nat × Nat) (cell : Nat × Nat) :
    runCount ((carrySpan row s span).1 ++ (carrySpan row s span).2) cell =
      runCount (s.1 ++ s.2) cell + if (cell.1 = row && inSpan span cell.2) then 1 else 0 := by
  unfold carrySpan
  cases hfind : s.1.find? (Run.hasSpan span) with
  | some run =>
    have hends := hopen run (List.mem_of_find?_eq_some hfind)
    have hcount : runCount s.1 cell =
        runCount (s.1.eraseP (Run.hasSpan span)) cell + runCount [run] cell := by
      rw [runCount_singleton]
      unfold runCount
      rw [(eraseP_perm hfind).countP_eq, List.countP_cons]
    dsimp only
    simp only [runCount_append, hcount, longer_count (List.find?_some hfind) hends]
    omega
  | none =>
    dsimp only
    simp only [runCount_append, newRun_count]
    omega

theorem carrySpan_ends {s : List Run × List Run} (hopen : ∀ run ∈ s.1, run.EndsAt row)
    (span : Nat × Nat) :
    (∀ run ∈ (carrySpan row s span).1, run.EndsAt row) ∧
      ∀ run ∈ (carrySpan row s span).2, run ∈ s.2 ∨ run.EndsAt (row + 1) := by
  unfold carrySpan
  cases hfind : s.1.find? (Run.hasSpan span) with
  | some run =>
    have hends := hopen run (List.mem_of_find?_eq_some hfind)
    refine ⟨fun other hother => hopen other (List.mem_of_mem_eraseP hother), fun other hother => ?_⟩
    rcases List.mem_append.mp hother with hother | hother
    · exact Or.inl hother
    · rw [List.mem_singleton.mp hother]
      exact Or.inr ⟨by have := hends.1; have := hends.2; dsimp only; omega, rfl⟩
  | none =>
    refine ⟨hopen, fun other hother => ?_⟩
    rcases List.mem_append.mp hother with hother | hother
    · exact Or.inl hother
    · rw [List.mem_singleton.mp hother]
      exact Or.inr ⟨Nat.le_succ row, rfl⟩

theorem carrySpans_count (spans : List (Nat × Nat)) {s : List Run × List Run}
    (hopen : ∀ run ∈ s.1, run.EndsAt row) :
    (∀ cell, runCount ((spans.foldl (carrySpan row) s).1 ++ (spans.foldl (carrySpan row) s).2) cell =
      runCount (s.1 ++ s.2) cell +
        if cell.1 = row then spans.countP (fun span => inSpan span cell.2) else 0) ∧
      (∀ run ∈ (spans.foldl (carrySpan row) s).1, run.EndsAt row) ∧
      ∀ run ∈ (spans.foldl (carrySpan row) s).2, run ∈ s.2 ∨ run.EndsAt (row + 1) := by
  induction spans generalizing s with
  | nil => exact ⟨fun cell => by simp, hopen, fun run hrun => Or.inl hrun⟩
  | cons span spans ih =>
    obtain ⟨hends, hcarried⟩ := carrySpan_ends hopen span
    obtain ⟨hcount, hfinal, hrest⟩ := ih hends
    refine ⟨fun cell => ?_, hfinal, fun run hrun => ?_⟩
    · rw [List.foldl_cons, hcount cell, carrySpan_count hopen, List.countP_cons]
      by_cases hrow : cell.1 = row
      · cases inSpan span cell.2 with
        | false => simp [hrow]
        | true =>
          simp only [hrow, decide_true, Bool.and_true, if_true]
          omega
      · simp [hrow]
    · rcases hrest run hrun with hrun | hrun
      · exact hcarried run hrun
      · exact Or.inr hrun

end Carry

section Walk

variable {covered : Mask} {cols : Nat}

/-- What the walk has after some rows: their uncovered cells, tiled. -/
structure Walked (covered : Mask) (cols row : Nat) (s : List Run × List Run) : Prop where
  tiles : Tiles Run.holds (s.2 ++ s.1) fun cell =>
    cell.1 < row && (cell.2 < cols && !covered cell.1 cell.2)
  ends : ∀ run ∈ s.1, run.EndsAt row

theorem nextRow_walked {row : Nat} {s : List Run × List Run} (h : Walked covered cols row s) :
    Walked covered cols (row + 1) (nextRow covered cols s row) := by
  unfold nextRow
  dsimp only
  generalize hspans : rowRuns ((List.range cols).map fun col => !covered row col) = spans
  obtain ⟨hcount, -, hcarried⟩ := carrySpans_count spans (s := (s.1, [])) h.ends
  have hrow : ∀ col, spans.countP (fun span => inSpan span col) =
      if (col < cols && !covered row col) then 1 else 0 := by
    intro col
    rw [← hspans, rowRuns_tile _ col]
    by_cases hcol : col < cols <;> simp [hcol]
  refine ⟨fun cell => ?_, fun run hrun => ?_⟩
  · have htiles : runCount (s.2 ++ s.1) cell =
        if (cell.1 < row && (cell.2 < cols && !covered cell.1 cell.2)) then 1 else 0 := h.tiles cell
    have hsum := hcount cell
    rw [hrow] at hsum
    show runCount _ cell = if (cell.1 < row + 1 && (cell.2 < cols && !covered cell.1 cell.2)) then
      1 else 0
    simp only [runCount_append, List.append_nil] at htiles hsum ⊢
    have hsplit : (if (cell.1 < row + 1 && (cell.2 < cols && !covered cell.1 cell.2)) then 1 else 0) =
        (if (cell.1 < row && (cell.2 < cols && !covered cell.1 cell.2)) then 1 else 0) +
          if cell.1 = row then (if (cell.2 < cols && !covered row cell.2) then 1 else 0) else 0 := by
      rcases Nat.lt_trichotomy cell.1 row with hlt | heq | hlt
      · simp [hlt, Nat.lt_succ_of_lt hlt, Nat.ne_of_lt hlt]
      · simp [heq]
      · have hle : ¬ cell.1 < row + 1 := by omega
        simp [hle, Nat.not_lt_of_lt hlt, Nat.ne_of_gt hlt]
    have hempty : runCount [] cell = 0 := rfl
    omega
  · rcases hcarried run hrun with hrun | hrun
    · cases hrun
    · exact hrun

theorem missingRuns_tile (covered : Mask) (rows cols : Nat) :
    Tiles Run.holds (missingRuns covered rows cols) fun cell =>
      cell.1 < rows && (cell.2 < cols && !covered cell.1 cell.2) := by
  have hwalked : Walked covered cols rows ((List.range rows).foldl (nextRow covered cols) ([], [])) := by
    induction rows with
    | zero =>
      exact ⟨fun cell => by simp, fun run hrun => by cases hrun⟩
    | succ rows ih =>
      rw [List.range_succ, List.foldl_append]
      exact nextRow_walked ih
  exact hwalked.tiles

end Walk

/-! ## Windows -/

section Windows

variable {window : RasterWindow} {cell : Cell}

/-- A cell of the grid as a cell of the mask. -/
def maskCell (window : RasterWindow) (cell : Cell) : Nat × Nat :=
  ((cell.1 - window.rowStart).toNat, (cell.2 - window.colStart).toNat)

theorem run_window_holds (run : Run) (cell : Cell) :
    holds (run.window window) cell = (window.rowStart ≤ cell.1 && window.colStart ≤ cell.2 &&
      run.holds (maskCell window cell)) := by
  rw [Bool.eq_iff_iff, Bool.and_eq_true, Bool.and_eq_true, Run.holds_iff, holds_iff,
    decide_eq_true_eq, decide_eq_true_eq]
  simp only [Run.window, maskCell]
  omega

theorem missingRectangles_tile (covered : Mask) (window : RasterWindow) :
    Tiles holds (missingRectangles covered window) fun cell => holds window cell &&
      !covered (maskCell window cell).1 (maskCell window cell).2 := by
  have hperm := List.perm_insertionSort windowBefore
    ((missingRuns covered (windowHeight window) (windowWidth window)).map (Run.window window))
  refine Tiles.perm (fun cell => ?_) hperm.symm
  rw [List.countP_map]
  have hholds : (fun run => holds (Run.window window run) cell) = fun run : Run =>
      (window.rowStart ≤ cell.1 && window.colStart ≤ cell.2 && run.holds (maskCell window cell)) :=
    funext fun run => run_window_holds run cell
  show List.countP (fun run => holds (Run.window window run) cell) _ = _
  rw [hholds]
  have htiles := missingRuns_tile covered (windowHeight window) (windowWidth window)
    (maskCell window cell)
  by_cases hstart : window.rowStart ≤ cell.1 ∧ window.colStart ≤ cell.2
  · simp only [hstart.1, hstart.2, decide_true, Bool.true_and]
    rw [htiles]
    have hin : (maskCell window cell).1 < windowHeight window ∧
        (maskCell window cell).2 < windowWidth window ↔ holds window cell = true := by
      simp only [maskCell, windowHeight, windowWidth, holds, decide_eq_true_eq]
      omega
    by_cases hcell : holds window cell = true
    · obtain ⟨hrow, hcol⟩ := hin.mpr hcell
      simp [hrow, hcol, hcell]
    · have hout := mt hin.mp hcell
      by_cases hrow : (maskCell window cell).1 < windowHeight window
      · have hcol : ¬ (maskCell window cell).2 < windowWidth window := fun hcol => hout ⟨hrow, hcol⟩
        simp [hcol, hcell]
      · simp [hrow, hcell]
  · have hcell : holds window cell = false := by
      simp only [holds, decide_eq_false_iff_not]
      omega
    have hnone : (decide (window.rowStart ≤ cell.1) && decide (window.colStart ≤ cell.2)) = false := by
      rw [Bool.and_eq_false_iff]
      by_cases hrow : window.rowStart ≤ cell.1
      · exact Or.inr (decide_eq_false fun hcol => hstart ⟨hrow, hcol⟩)
      · exact Or.inl (decide_eq_false hrow)
    simp [hnone, hcell]

theorem coveredMask_eq {covering : List RasterWindow} (hcell : holds window cell = true) :
    coveredMask window covering (maskCell window cell).1 (maskCell window cell).2 =
      covering.any fun other => holds other cell := by
  unfold coveredMask
  congr 1
  funext other
  rw [holds_iff] at hcell
  rw [Bool.eq_iff_iff, Bool.and_eq_true, intersects_iff, maskSlice_iff, holds_iff]
  simp only [maskCell]
  omega

theorem subtractWindows_tile (target : RasterWindow) (cuts : List RasterWindow) :
    Tiles holds (subtractWindows target cuts) fun cell => holds target cell &&
      !cuts.any fun cut => holds cut cell := by
  unfold subtractWindows
  split
  · next hnone =>
    subst hnone
    intro cell
    simp [List.countP_cons]
  · refine (missingRectangles_tile _ target).congr fun cell => ?_
    cases hcell : holds target cell with
    | false => rfl
    | true => rw [coveredMask_eq hcell]

end Windows

end Solweig.Incremental
