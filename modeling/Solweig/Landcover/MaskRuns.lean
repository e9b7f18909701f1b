import Solweig.Incremental.Rectangles
import Solweig.Planner.NetEffect

/-!
# The runs of a painted mask

A mask of painted cells as rectangles: the runs of each row, carried down while their columns and
their values stay the same.
-/

namespace Solweig.Landcover

open Solweig.Lib Solweig.Planner Solweig.Incremental

/-- A cell carries no class. -/
def unspecifiedCode : Int := -1

/-- A run with the values of its rows, where the decomposition looks at values. -/
structure OpenRun where
  run : Run
  values : Option (List Int)

def OpenRun.hasSpan (span : Nat × Nat) (r : OpenRun) : Bool := r.run.hasSpan span

/-- `open_runs`, `carried` and `emitted` -/
structure RunWalk where
  openRuns : List OpenRun
  carried : List OpenRun
  emitted : List OpenRun

/-- The values of the span in a row. -/
def valuesRun (values : Option (Nat → Nat → Int)) (row : Nat) (span : Nat × Nat) :
    Option (List Int) :=
  values.map fun values => (List.range' span.1 (span.2 - span.1)).map (values row)

/-- One span of a row. The run above goes on when its values do; else it is closed. -/
def carryRun (values : Option (Nat → Nat → Int)) (row : Nat) (s : RunWalk) (span : Nat × Nat) :
    RunWalk :=
  let started : OpenRun := ⟨⟨row, row + 1, span.1, span.2⟩, valuesRun values row span⟩
  match s.openRuns.find? (OpenRun.hasSpan span) with
  | some r =>
    let openRuns := s.openRuns.eraseP (OpenRun.hasSpan span)
    if valuesRun values row span = none ∨ r.values = valuesRun values row span then
      let longer : OpenRun :=
        ⟨{ r.run with rowStop := row + 1 }, (valuesRun values row span).or r.values⟩
      { s with openRuns := openRuns, carried := s.carried ++ [longer] }
    else
      { openRuns := openRuns, carried := s.carried ++ [started], emitted := s.emitted ++ [r] }
  | none => { s with carried := s.carried ++ [started] }

/-- One row. The runs that it does not carry on are closed. -/
def nextMaskRow (mask : Mask) (values : Option (Nat → Nat → Int)) (cols : Nat) (s : RunWalk)
    (row : Nat) : RunWalk :=
  let walked := (rowRuns ((List.range cols).map (mask row))).foldl (carryRun values row)
    { s with carried := [] }
  ⟨walked.carried, [], walked.emitted ++ walked.openRuns⟩

def maskRuns (mask : Mask) (values : Option (Nat → Nat → Int)) (rows cols : Nat) : List OpenRun :=
  let walked := (List.range rows).foldl (nextMaskRow mask values cols) ⟨[], [], []⟩
  walked.emitted ++ walked.openRuns

/-- `_close`: the values of a row, down all the rows. -/
def closeRun (r : OpenRun) : LandCoverPaintPatch :=
  let height := r.run.rowStop - r.run.rowStart
  let width := r.run.colStop - r.run.colStart
  { window := r.run.window RasterWindow.empty
    beforeClasses := List.replicate (height * width) unspecifiedCode
    afterClasses := match r.values with
      | none => List.replicate (height * width) unspecifiedCode
      | some values => (List.replicate height values).flatten }

def patchBefore (p q : LandCoverPaintPatch) : Prop := windowBefore p.window q.window

instance : DecidableRel patchBefore := fun _ _ => inferInstanceAs (Decidable (windowBefore _ _))

/-- `_mask_run_patches` -/
def maskRunPatches (mask : Mask) (values : Option (Nat → Nat → Int)) (rows cols : Nat) :
    List LandCoverPaintPatch :=
  ((maskRuns mask values rows cols).map closeRun).insertionSort patchBefore

/-! ## One row of runs -/

/-- The rectangles of all the runs of a walk. -/
def RunWalk.runs (s : RunWalk) : List Run :=
  (s.emitted ++ (s.openRuns ++ s.carried)).map (·.run)

/-- The run spans cells, and its values are those of each of its rows. -/
structure OpenRun.Sound (values : Option (Nat → Nat → Int)) (r : OpenRun) : Prop where
  rows : r.run.rowStart < r.run.rowStop
  cols : r.run.colStart < r.run.colStop
  values : ∀ row, r.run.rowStart ≤ row → row < r.run.rowStop →
    r.values = valuesRun values row (r.run.colStart, r.run.colStop)

/-- Within a row: the open runs end above it, those carried go through it. -/
structure RunWalk.Within (values : Option (Nat → Nat → Int)) (row : Nat) (s : RunWalk) : Prop where
  openEnds : ∀ r ∈ s.openRuns, r.run.EndsAt row
  carriedEnds : ∀ r ∈ s.carried, r.run.EndsAt (row + 1)
  sound : ∀ r ∈ s.emitted ++ (s.openRuns ++ s.carried), r.Sound values

section Row

variable {mask : Mask} {values : Option (Nat → Nat → Int)} {row : Nat} {s : RunWalk}

theorem or_continues {r : OpenRun} {run : Option (List Int)} (h : run = none ∨ r.values = run) :
    run.or r.values = r.values := by
  rcases h with rfl | rfl
  · rfl
  · cases r.values <;> rfl

theorem started_sound {span : Nat × Nat} (hspan : span.1 < span.2) :
    OpenRun.Sound values ⟨⟨row, row + 1, span.1, span.2⟩, valuesRun values row span⟩ where
  rows := Nat.lt_succ_self row
  cols := hspan
  values i hle hlt := by
    dsimp only at hle hlt
    rw [Nat.le_antisymm hle (Nat.lt_succ_iff.mp hlt)]

theorem longer_sound {r : OpenRun} {span : Nat × Nat} (hr : r.Sound values)
    (hspan : r.hasSpan span = true) (hends : r.run.EndsAt row)
    (h : valuesRun values row span = none ∨ r.values = valuesRun values row span) :
    OpenRun.Sound values
      ⟨{ r.run with rowStop := row + 1 }, (valuesRun values row span).or r.values⟩ where
  rows := Nat.lt_succ_of_le (hends.2 ▸ hends.1)
  cols := hr.cols
  values i hle hlt := by
    dsimp only at hle hlt ⊢
    rw [or_continues h]
    by_cases hi : i < r.run.rowStop
    · exact hr.values i hle hi
    have hrow : i = row := by
      have := hends.2
      omega
    have hcols : (r.run.colStart, r.run.colStop) = span := by
      unfold OpenRun.hasSpan Run.hasSpan at hspan
      exact Prod.ext (of_decide_eq_true hspan).1 (of_decide_eq_true hspan).2
    subst hrow
    rw [hcols]
    rcases h with h | h
    · -- no values are looked at, in this row or in any other
      have hnone : values = none := Option.map_eq_none_iff.mp h
      rw [hr.values r.run.rowStart (le_refl _) hr.rows, hnone]
      rfl
    · exact h

theorem RunWalk.Within.carry {openRuns emitted : List OpenRun} {carriedRun : OpenRun}
    (h : s.Within values row) (hopen : ∀ r ∈ openRuns, r ∈ s.openRuns)
    (hemitted : ∀ r ∈ emitted, r ∈ s.emitted ∨ r ∈ s.openRuns)
    (hends : carriedRun.run.EndsAt (row + 1)) (hsound : carriedRun.Sound values) :
    RunWalk.Within values row ⟨openRuns, s.carried ++ [carriedRun], emitted⟩ := by
  refine ⟨fun r hr => h.openEnds r (hopen r hr), fun r hr => ?_, fun r hr => ?_⟩
  · rcases List.mem_append.mp hr with hr | hr
    · exact h.carriedEnds r hr
    · exact List.mem_singleton.mp hr ▸ hends
  · simp only [List.mem_append, List.mem_singleton] at hr
    rcases hr with hr | hr | hr | rfl
    · apply h.sound
      have hold := hemitted r hr
      simp only [List.mem_append]
      tauto
    · apply h.sound
      simp [hopen r hr]
    · apply h.sound
      simp [hr]
    · exact hsound

theorem carryRun_within {span : Nat × Nat} (hspan : span.1 < span.2) (h : s.Within values row) :
    (carryRun values row s span).Within values row := by
  unfold carryRun
  have hstart : OpenRun.Sound values
      ⟨⟨row, row + 1, span.1, span.2⟩, valuesRun values row span⟩ := started_sound hspan
  have hstartEnds : Run.EndsAt (row + 1) ⟨row, row + 1, span.1, span.2⟩ := ⟨Nat.le_succ row, rfl⟩
  rcases hfind : s.openRuns.find? (OpenRun.hasSpan span) with - | r
  · exact h.carry (fun _ => id) (fun _ => Or.inl) hstartEnds hstart
  · have hr := List.mem_of_find?_eq_some hfind
    have hhas := List.find?_some hfind
    have hends := h.openEnds r hr
    have herase : ∀ other ∈ s.openRuns.eraseP (OpenRun.hasSpan span), other ∈ s.openRuns :=
      fun _ => List.mem_of_mem_eraseP
    dsimp only
    split
    · rename_i hcontinues
      exact h.carry herase (fun _ => Or.inl) ⟨Nat.le_succ_of_le (hends.2 ▸ hends.1), rfl⟩
        (longer_sound (h.sound r (by simp [hr])) hhas hends hcontinues)
    · refine h.carry herase (fun other hother => ?_) hstartEnds hstart
      rcases List.mem_append.mp hother with hother | hother
      · exact Or.inl hother
      · exact Or.inr (List.mem_singleton.mp hother ▸ hr)

theorem carryRun_count (h : s.Within values row) (span cell : Nat × Nat) :
    runCount (carryRun values row s span).runs cell =
      runCount s.runs cell + if (cell.1 = row && inSpan span cell.2) then 1 else 0 := by
  unfold carryRun RunWalk.runs
  rcases hfind : s.openRuns.find? (OpenRun.hasSpan span) with - | r
  · dsimp only
    simp only [List.map_append, List.map_cons, List.map_nil, runCount_append, newRun_count]
    omega
  · have hends := h.openEnds r (List.mem_of_find?_eq_some hfind)
    have hhas : r.run.hasSpan span = true := List.find?_some (p := OpenRun.hasSpan span) hfind
    have hcount : runCount (s.openRuns.map (·.run)) cell =
        runCount ((s.openRuns.eraseP (OpenRun.hasSpan span)).map (·.run)) cell +
          runCount [r.run] cell := by
      unfold runCount
      rw [((eraseP_perm hfind).map (·.run)).countP_eq, List.map_cons, List.countP_cons]
      simp [List.countP_cons]
    dsimp only
    split
    · simp only [List.map_append, List.map_cons, List.map_nil, runCount_append, hcount,
        longer_count hhas hends]
      omega
    · simp only [List.map_append, List.map_cons, List.map_nil, runCount_append, hcount,
        newRun_count]
      omega

theorem carryRuns_within {spans : List (Nat × Nat)} (hspans : ∀ span ∈ spans, span.1 < span.2)
    (h : s.Within values row) : (spans.foldl (carryRun values row) s).Within values row := by
  induction spans generalizing s with
  | nil => exact h
  | cons span spans ih =>
    rw [List.forall_mem_cons] at hspans
    exact ih hspans.2 (carryRun_within hspans.1 h)

theorem carryRuns_count {spans : List (Nat × Nat)} (hspans : ∀ span ∈ spans, span.1 < span.2)
    (h : s.Within values row) (cell : Nat × Nat) :
    runCount (spans.foldl (carryRun values row) s).runs cell = runCount s.runs cell +
      if cell.1 = row then spans.countP (fun span => inSpan span cell.2) else 0 := by
  induction spans generalizing s with
  | nil => simp
  | cons span spans ih =>
    rw [List.forall_mem_cons] at hspans
    rw [List.foldl_cons, ih hspans.2 (carryRun_within hspans.1 h), carryRun_count h,
      List.countP_cons]
    by_cases hrow : cell.1 = row
    · cases inSpan span cell.2 with
      | false => simp [hrow]
      | true =>
        simp only [hrow, decide_true, Bool.and_true, if_true]
        omega
    · simp [hrow]

end Row

/-! ## The runs tile the mask -/

section Walk

variable {mask : Mask} {values : Option (Nat → Nat → Int)} {cols : Nat}

/-- What the walk has after some rows: their painted cells, tiled by sound runs. -/
structure RunWalk.Walked (mask : Mask) (values : Option (Nat → Nat → Int)) (cols row : Nat)
    (s : RunWalk) : Prop where
  tiles : Tiles Run.holds ((s.emitted ++ s.openRuns).map (·.run)) fun cell =>
    cell.1 < row && (cell.2 < cols && mask cell.1 cell.2)
  ends : ∀ r ∈ s.openRuns, r.run.EndsAt row
  sound : ∀ r ∈ s.emitted ++ s.openRuns, r.Sound values

theorem nextMaskRow_walked {row : Nat} {s : RunWalk} (h : s.Walked mask values cols row) :
    (nextMaskRow mask values cols s row).Walked mask values cols (row + 1) := by
  unfold nextMaskRow
  dsimp only
  generalize hspans : rowRuns ((List.range cols).map (mask row)) = spans
  have hnonempty : ∀ span ∈ spans, span.1 < span.2 := hspans ▸ rowRuns_nonempty _
  have hstart : RunWalk.Within values row { s with carried := [] } :=
    ⟨h.ends, fun r hr => (List.not_mem_nil hr).elim, fun r hr => h.sound r (by simpa using hr)⟩
  have hwithin := carryRuns_within hnonempty hstart
  have hcount := carryRuns_count hnonempty hstart
  have hrow : ∀ col, spans.countP (fun span => inSpan span col) =
      if (col < cols && mask row col) then 1 else 0 := by
    intro col
    rw [← hspans, rowRuns_tile _ col]
    by_cases hcol : col < cols <;> simp [hcol]
  refine ⟨fun cell => ?_, hwithin.carriedEnds, fun r hr => hwithin.sound r (by simpa using hr)⟩
  have htiles : runCount ((s.emitted ++ s.openRuns).map (·.run)) cell =
      if (cell.1 < row && (cell.2 < cols && mask cell.1 cell.2)) then 1 else 0 := h.tiles cell
  have hsum := hcount cell
  rw [hrow] at hsum
  unfold RunWalk.runs at hsum
  simp only [List.append_nil] at hsum
  rw [htiles] at hsum
  rw [List.append_assoc]
  refine hsum.trans ?_
  rcases Nat.lt_trichotomy cell.1 row with hlt | heq | hlt
  · simp [hlt, Nat.lt_succ_of_lt hlt, Nat.ne_of_lt hlt]
  · simp [heq]
  · have hle : ¬ cell.1 < row + 1 := by omega
    simp [hle, Nat.not_lt_of_lt hlt, Nat.ne_of_gt hlt]

theorem maskRuns_walked (mask : Mask) (values : Option (Nat → Nat → Int)) (rows cols : Nat) :
    ((List.range rows).foldl (nextMaskRow mask values cols) ⟨[], [], []⟩).Walked mask values cols
      rows := by
  induction rows with
  | zero =>
    refine ⟨fun cell => by simp, ?_, ?_⟩
    · exact fun r hr => (List.not_mem_nil hr).elim
    · exact fun r hr => (List.not_mem_nil hr).elim
  | succ rows ih =>
    rw [List.range_succ, List.foldl_append]
    exact nextMaskRow_walked ih

theorem maskRuns_tile (mask : Mask) (values : Option (Nat → Nat → Int)) (rows cols : Nat) :
    Tiles Run.holds ((maskRuns mask values rows cols).map (·.run)) fun cell =>
      cell.1 < rows && (cell.2 < cols && mask cell.1 cell.2) :=
  (maskRuns_walked mask values rows cols).tiles

theorem maskRuns_sound {rows : Nat} {r : OpenRun} (hr : r ∈ maskRuns mask values rows cols) :
    r.Sound values :=
  (maskRuns_walked mask values rows cols).sound r hr

end Walk

/-! ## The patches -/

section Patches

variable {mask : Mask} {values : Nat → Nat → Int} {rows cols : Nat} {r : OpenRun}

/-- The mask on the cells of the grid. -/
def paintedOn (mask : Mask) (rows cols : Nat) (cell : Cell) : Bool :=
  (0 ≤ cell.1 && 0 ≤ cell.2) &&
    (cell.1.toNat < rows && (cell.2.toNat < cols && mask cell.1.toNat cell.2.toNat))

def patchHolds (patch : LandCoverPaintPatch) (cell : Cell) : Bool := holds patch.window cell

theorem closeRun_holds (r : OpenRun) (cell : Cell) : patchHolds (closeRun r) cell =
    ((0 ≤ cell.1 && 0 ≤ cell.2) && r.run.holds (cell.1.toNat, cell.2.toNat)) := by
  have hcell : maskCell RasterWindow.empty cell = (cell.1.toNat, cell.2.toNat) := by
    simp [maskCell, RasterWindow.empty]
  exact (run_window_holds r.run cell).trans (by rw [hcell]; rfl)

theorem maskRunPatches_perm (mask : Mask) (values : Option (Nat → Nat → Int)) (rows cols : Nat) :
    (maskRunPatches mask values rows cols).Perm ((maskRuns mask values rows cols).map closeRun) :=
  List.perm_insertionSort _ _

theorem mem_maskRunPatches {values : Option (Nat → Nat → Int)} {patch : LandCoverPaintPatch} :
    patch ∈ maskRunPatches mask values rows cols ↔
      ∃ r ∈ maskRuns mask values rows cols, closeRun r = patch :=
  (maskRunPatches_perm mask values rows cols).mem_iff.trans List.mem_map

theorem maskRunPatches_tile (mask : Mask) (values : Option (Nat → Nat → Int)) (rows cols : Nat) :
    Tiles patchHolds (maskRunPatches mask values rows cols) (paintedOn mask rows cols) := by
  refine Tiles.perm (fun cell => ?_) (maskRunPatches_perm mask values rows cols).symm
  rw [List.countP_map]
  have hholds : (fun patch => patchHolds patch cell) ∘ closeRun = fun r : OpenRun =>
      ((0 ≤ cell.1 && 0 ≤ cell.2) && r.run.holds (cell.1.toNat, cell.2.toNat)) :=
    funext fun r => closeRun_holds r cell
  rw [hholds]
  have htiles := maskRuns_tile mask values rows cols (cell.1.toNat, cell.2.toNat)
  rw [List.countP_map] at htiles
  unfold paintedOn
  cases (decide (0 ≤ cell.1) && decide (0 ≤ cell.2)) with
  | true => simpa [Function.comp_def] using htiles
  | false => simp

theorem getElem?_flatten_replicate {α : Type} (l : List α) {n i j : Nat} (hi : i < n)
    (hj : j < l.length) : (List.replicate n l).flatten[i * l.length + j]? = l[j]? := by
  induction n generalizing i with
  | zero => exact absurd hi (Nat.not_lt_zero i)
  | succ n ih =>
    rw [List.replicate_succ, List.flatten_cons]
    cases i with
    | zero => rw [Nat.zero_mul, Nat.zero_add, List.getElem?_append_left hj]
    | succ i =>
      have hle : l.length ≤ (i + 1) * l.length + j := by
        rw [Nat.succ_mul]
        omega
      have hsub : (i + 1) * l.length + j - l.length = i * l.length + j := by
        rw [Nat.succ_mul]
        omega
      rw [List.getElem?_append_right hle, hsub, ih (by omega)]

theorem rowMajor_toNat {cell : Cell} {top left right : Nat} (hrow : top ≤ cell.1) (hwidth : left ≤ right)
    (hcol : left ≤ cell.2) :
    ((cell.1 - top) * ((right : Int) - left) + (cell.2 - left)).toNat =
      (cell.1.toNat - top) * (right - left) + (cell.2.toNat - left) := by
  obtain ⟨i, hi⟩ := Int.le.dest hrow
  obtain ⟨j, hj⟩ := Int.le.dest hcol
  obtain ⟨w, rfl⟩ := Nat.exists_eq_add_of_le hwidth
  have hi' : cell.1.toNat - top = i := by omega
  have hj' : cell.2.toNat - left = j := by omega
  have hw' : left + w - left = w := by omega
  have hi'' : cell.1 - top = i := by omega
  have hj'' : cell.2 - left = j := by omega
  have hw'' : ((left + w : Nat) : Int) - left = w := by omega
  rw [hi', hj', hw', hi'', hj'', hw'']
  exact_mod_cast Int.toNat_natCast (i * w + j)

theorem OpenRun.Sound.window {values : Option (Nat → Nat → Int)} (h : r.Sound values) :
    (closeRun r).window.rowStart = r.run.rowStart ∧ (closeRun r).window.rowStop = r.run.rowStop ∧
      (closeRun r).window.colStart = r.run.colStart ∧
      (closeRun r).window.colStop = r.run.colStop := by
  have hrows := h.rows
  have hcols := h.cols
  simp only [closeRun, Run.window, RasterWindow.empty]
  omega

theorem closeRun_code? (h : r.Sound (some values)) (cell : Cell) :
    (closeRun r).code? cell = if patchHolds (closeRun r) cell then
      (some (values cell.1.toNat cell.2.toNat)).filter (0 ≤ ·) else none := by
  have hrows := h.rows
  have hcols := h.cols
  by_cases hcell : patchHolds (closeRun r) cell = true
  · have hin := hcell
    rw [closeRun_holds, Bool.and_eq_true, Run.holds_iff, Bool.and_eq_true, decide_eq_true_eq,
      decide_eq_true_eq] at hin
    obtain ⟨⟨hrow0, hcol0⟩, hrow, hrow', hcol, hcol'⟩ := hin
    dsimp only at hrow hrow' hcol hcol'
    have hwindow := holds_iff.mp hcell
    rw [if_pos hcell]
    unfold LandCoverPaintPatch.code?
    dsimp only
    rw [if_pos hwindow]
    congr 1
    obtain ⟨htop, -, hleft, hright⟩ := h.window
    have hvalues := h.values cell.1.toNat hrow hrow'
    rw [htop, hright, hleft, rowMajor_toNat (by omega) hcols.le (by omega)]
    unfold closeRun
    dsimp only
    rw [hvalues]
    dsimp only [valuesRun, Option.map_some]
    set line := (List.range' r.run.colStart (r.run.colStop - r.run.colStart)).map
      (values cell.1.toNat) with hline
    have hlength : line.length = r.run.colStop - r.run.colStart := by
      rw [hline, List.length_map, List.length_range']
    rw [← hlength]
    rw [getElem?_flatten_replicate line (by omega) (by omega), hline, List.getElem?_map,
      List.getElem?_range' (by omega)]
    simp only [Option.map_some, Nat.one_mul]
    rw [Nat.add_sub_cancel' hcol]
  · have hout : ¬ ((closeRun r).window.rowStart ≤ cell.1 ∧ cell.1 < (closeRun r).window.rowStop ∧
        (closeRun r).window.colStart ≤ cell.2 ∧ cell.2 < (closeRun r).window.colStop) :=
      fun hwindow => hcell (holds_iff.mpr hwindow)
    rw [if_neg hcell]
    unfold LandCoverPaintPatch.code?
    dsimp only
    rw [if_neg hout]

end Patches

end Solweig.Landcover
