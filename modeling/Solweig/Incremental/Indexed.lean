import Solweig.Incremental.StoreRuns

/-!
# What the index holds under a key

Whatever is published and invalidated, the entries of a key are in the order of their windows,
no two with the same one, and no batch would cut an older entry any further.
-/

namespace Solweig.Incremental

open Solweig.Lib Solweig.Planner

/-! ## Windows that lose no cell -/

section Whole

theorem runStarts_whole (n i : Nat) : runStarts true i (List.replicate n true) = [] := by
  induction n generalizing i with
  | zero => rfl
  | succ n ih => simpa [List.replicate_succ, runStarts] using ih (i + 1)

theorem runStops_whole (n i : Nat) : runStops true i (List.replicate n true) = [i + n] := by
  induction n generalizing i with
  | zero => rfl
  | succ n ih =>
    simp only [List.replicate_succ, runStops, Bool.not_true, Bool.and_false, Bool.false_eq_true,
      if_false, List.nil_append]
    rw [ih (i + 1)]
    congr 1
    omega

theorem rowRuns_whole {n : Nat} (h : 0 < n) : rowRuns (List.replicate n true) = [(0, n)] := by
  obtain ⟨m, rfl⟩ := Nat.exists_eq_succ_of_ne_zero (Nat.ne_of_gt h)
  have hstarts := runStarts_whole m 1
  have hstops := runStops_whole m 1
  simp [rowRuns, List.replicate_succ, runStarts, runStops, hstarts, hstops, Nat.add_comm]

variable {covered : Mask} {rows cols : Nat}

theorem row_whole {row : Nat} (h : ∀ col < cols, covered row col = false) :
    ((List.range cols).map fun col => !covered row col) = List.replicate cols true := by
  rw [List.eq_replicate_iff]
  refine ⟨by simp, fun b hb => ?_⟩
  obtain ⟨col, hcol, rfl⟩ := List.mem_map.mp hb
  rw [h col (List.mem_range.mp hcol), Bool.not_false]

theorem missingRuns_whole (hcols : 0 < cols) (hrows : 0 < rows)
    (h : ∀ row < rows, ∀ col < cols, covered row col = false) :
    missingRuns covered rows cols = [⟨0, rows, 0, cols⟩] := by
  have hwalk : ∀ n, 0 < n → n ≤ rows → (List.range n).foldl (nextRow covered cols) ([], []) =
      ([⟨0, n, 0, cols⟩], []) := by
    intro n hn hle
    induction n with
    | zero => omega
    | succ n ih =>
      rw [List.range_succ, List.foldl_append, List.foldl_cons, List.foldl_nil]
      have hrow := rowRuns_whole hcols
      rw [← row_whole (h n (by omega))] at hrow
      rcases Nat.eq_zero_or_pos n with rfl | hpos
      · simp [nextRow, hrow, carrySpan]
      · rw [ih hpos (by omega), nextRow, hrow]
        simp [carrySpan, Run.hasSpan]
  rw [missingRuns, hwalk rows hrows (Nat.le_refl _)]
  rfl

theorem subtractWindows_apart {target : RasterWindow} {cuts : List RasterWindow}
    (hsome : target.isEmpty = false)
    (h : ∀ cut ∈ cuts, ∀ cell, holds target cell = true → holds cut cell = false) :
    subtractWindows target cuts = [target] := by
  have hrows := target.rows
  have hcols := target.cols
  simp only [RasterWindow.isEmpty, decide_eq_false_iff_not, not_or] at hsome
  have huncovered : ∀ row < windowHeight target, ∀ col < windowWidth target,
      coveredMask target cuts row col = false := by
    intro row hrow col hcol
    have hcell : holds target (target.rowStart + row, target.colStart + col) = true := by
      simp only [windowHeight, windowWidth] at hrow hcol
      rw [holds_iff]
      omega
    have hmask : maskCell target (target.rowStart + row, target.colStart + col) = (row, col) := by
      simp only [maskCell, Prod.mk.injEq]
      omega
    have heq : coveredMask target cuts row col =
        cuts.any fun cut => holds cut (target.rowStart + row, target.colStart + col) := by
      rw [← coveredMask_eq hcell, hmask]
    rw [heq, List.any_eq_false]
    intro cut hcut hhit
    rw [h cut hcut _ hcell] at hhit
    cases hhit
  unfold subtractWindows
  split
  · rfl
  · rw [missingRectangles, missingRuns_whole (by simp only [windowWidth]; omega)
      (by simp only [windowHeight]; omega) huncovered]
    have hwindow : Run.window target ⟨0, windowHeight target, 0, windowWidth target⟩ = target := by
      obtain ⟨rowStart, rowStop, colStart, colStop, hrow, hcol⟩ := target
      simp only [Run.window, windowHeight, windowWidth, RasterWindow.mk.injEq]
      omega
    simp [hwindow]

/-- The run has cells, above the row. -/
def Run.Solid (row : Nat) (run : Run) : Prop :=
  run.rowStart < run.rowStop ∧ run.rowStop ≤ row ∧ run.colStart < run.colStop

theorem carrySpan_solid {row : Nat} {span : Nat × Nat} {s : List Run × List Run}
    (hspan : span.1 < span.2) (hopen : ∀ run ∈ s.1, run.Solid row)
    (hcarried : ∀ run ∈ s.2, run.Solid (row + 1)) :
    (∀ run ∈ (carrySpan row s span).1, run.Solid row) ∧
      ∀ run ∈ (carrySpan row s span).2, run.Solid (row + 1) := by
  unfold carrySpan
  cases hfind : s.1.find? (Run.hasSpan span) with
  | some run =>
    refine ⟨fun other hother => hopen other (List.mem_of_mem_eraseP hother), fun other hother => ?_⟩
    rcases List.mem_append.mp hother with hother | hother
    · exact hcarried other hother
    · obtain ⟨hrows, hbelow, hcols⟩ := hopen run (List.mem_of_find?_eq_some hfind)
      rw [List.mem_singleton.mp hother]
      exact ⟨by dsimp only; omega, Nat.le_refl _, hcols⟩
  | none =>
    refine ⟨hopen, fun other hother => ?_⟩
    rcases List.mem_append.mp hother with hother | hother
    · exact hcarried other hother
    · rw [List.mem_singleton.mp hother]
      exact ⟨Nat.lt_succ_self row, Nat.le_refl _, hspan⟩

theorem carrySpans_solid {row : Nat} {spans : List (Nat × Nat)} (s : List Run × List Run)
    (hspans : ∀ span ∈ spans, span.1 < span.2) (hopen : ∀ run ∈ s.1, run.Solid row)
    (hcarried : ∀ run ∈ s.2, run.Solid (row + 1)) :
    (∀ run ∈ (spans.foldl (carrySpan row) s).1, run.Solid row) ∧
      ∀ run ∈ (spans.foldl (carrySpan row) s).2, run.Solid (row + 1) := by
  induction spans generalizing s with
  | nil => exact ⟨hopen, hcarried⟩
  | cons span spans ih =>
    obtain ⟨hspan, hspans⟩ := List.forall_mem_cons.mp hspans
    obtain ⟨hopen, hcarried⟩ := carrySpan_solid hspan hopen hcarried
    exact ih _ hspans hopen hcarried

theorem missingRuns_solid (covered : Mask) (rows cols : Nat) :
    ∀ run ∈ missingRuns covered rows cols, run.Solid rows := by
  have hwalk : ∀ n, ∀ run ∈ ((List.range n).foldl (nextRow covered cols) ([], [])).1 ++
      ((List.range n).foldl (nextRow covered cols) ([], [])).2, run.Solid n := by
    intro n
    induction n with
    | zero => exact fun run hrun => by cases hrun
    | succ n ih =>
      rw [List.range_succ, List.foldl_append, List.foldl_cons, List.foldl_nil]
      generalize (List.range n).foldl (nextRow covered cols) ([], []) = s at ih ⊢
      have hup : ∀ run : Run, run.Solid n → run.Solid (n + 1) :=
        fun run h => ⟨h.1, Nat.le_succ_of_le h.2.1, h.2.2⟩
      obtain ⟨hclosed, hcarried⟩ := carrySpans_solid (s.1, [])
        (rowRuns_nonempty ((List.range cols).map fun col => !covered n col))
        (fun run hrun => ih run (List.mem_append_left _ hrun)) (fun run hrun => by cases hrun)
      intro run hrun
      rcases List.mem_append.mp hrun with hrun | hrun
      · exact hcarried run hrun
      · rcases List.mem_append.mp hrun with hrun | hrun
        · exact hup run (ih run (List.mem_append_right _ hrun))
        · exact hup run (hclosed run hrun)
  intro run hrun
  apply hwalk rows run
  rcases List.mem_append.mp hrun with hrun | hrun
  · exact List.mem_append_right _ hrun
  · exact List.mem_append_left _ hrun

theorem missingRectangles_nonempty {covered : Mask} {target window : RasterWindow}
    (h : window ∈ missingRectangles covered target) : window.isEmpty = false := by
  unfold missingRectangles at h
  rw [(List.perm_insertionSort _ _).mem_iff] at h
  obtain ⟨run, hrun, rfl⟩ := List.mem_map.mp h
  obtain ⟨hrows, -, hcols⟩ := missingRuns_solid _ _ _ run hrun
  rw [RasterWindow.isEmpty, decide_eq_false_iff_not]
  simp only [Run.window]
  omega

end Whole

/-! ## What a batch leaves of an entry -/

section Remainders

variable {a b a' b' : RasterWindow} {cuts : List RasterWindow} {entry other : TemporalResultEntry}

/-- The bounds of the first lie between those of the second. -/
def Between (a b : RasterWindow) : Prop :=
  b.rowStart ≤ a.rowStart ∧ a.rowStop ≤ b.rowStop ∧
    b.colStart ≤ a.colStart ∧ a.colStop ≤ b.colStop

theorem Between.refl (a : RasterWindow) : Between a a :=
  ⟨le_refl _, le_refl _, le_refl _, le_refl _⟩

theorem isEmpty_eq_false : a.isEmpty = false ↔ a.rowStart < a.rowStop ∧ a.colStart < a.colStop := by
  have hrows := a.rows
  have hcols := a.cols
  rw [RasterWindow.isEmpty, decide_eq_false_iff_not]
  omega

theorem between_of_holds (hsome : a.isEmpty = false)
    (h : ∀ cell, holds a cell = true → holds b cell = true) : Between a b := by
  rw [isEmpty_eq_false] at hsome
  have hfirst := h (a.rowStart, a.colStart) (by rw [holds_iff]; dsimp only; omega)
  have hlast := h (a.rowStop - 1, a.colStop - 1) (by rw [holds_iff]; dsimp only; omega)
  rw [holds_iff] at hfirst hlast
  simp only [Between]
  dsimp only at hfirst hlast
  omega

theorem intersects_eq_false : a.intersects b = false ↔
    (a.rowStop < b.rowStart ∨ b.rowStop < a.rowStart ∨
      a.colStop < b.colStart ∨ b.colStop < a.colStart) := by
  rw [← Bool.not_eq_true, intersects_iff, not_not]

theorem intersects_between (ha : Between a' a) (hb : Between b' b) (h : a.intersects b = false) :
    a'.intersects b' = false := by
  rw [intersects_eq_false] at h ⊢
  simp only [Between] at ha hb
  omega

theorem intersects_self (a : RasterWindow) : a.intersects a = true := by
  have hrows := a.rows
  have hcols := a.cols
  rw [intersects_iff]
  omega

/-- What is left is the entry on a part of its window, or the whole of one that no cut touches. -/
theorem remainders_cases (h : other ∈ remainders cuts entry) :
    other = { entry with writeWindow := other.writeWindow } ∧
      Between other.writeWindow entry.writeWindow ∧
      (other.writeWindow.isEmpty = false ∨
        other = entry ∧ ∀ cut ∈ cuts, entry.writeWindow.intersects cut = false) := by
  have hinside := (remainders_source h).1.inside
  unfold remainders at h
  split at h
  · next hsome =>
    obtain ⟨window, hwindow, rfl⟩ := List.mem_map.mp h
    have hcuts : cuts ≠ [] := by
      rintro rfl
      simp at hsome
    unfold subtractWindows at hwindow
    rw [if_neg hcuts] at hwindow
    have hnonempty := missingRectangles_nonempty hwindow
    exact ⟨rfl, between_of_holds hnonempty hinside, Or.inl hnonempty⟩
  · next hnone =>
    rw [List.mem_singleton.mp h]
    refine ⟨rfl, Between.refl _, Or.inr ⟨rfl, fun cut hcut => ?_⟩⟩
    rw [Bool.not_eq_true, List.any_eq_false] at hnone
    exact Bool.eq_false_iff.mpr (hnone cut hcut)

theorem remainders_whole (hempty : entry.writeWindow.isEmpty = true →
      ∀ cut ∈ cuts, entry.writeWindow.intersects cut = false)
    (hapart : ∀ cut ∈ cuts, ∀ cell, holds entry.writeWindow cell = true →
      holds cut cell = false) : remainders cuts entry = [entry] := by
  unfold remainders
  split
  · next hsome =>
    have hnonempty : entry.writeWindow.isEmpty = false := by
      rw [Bool.eq_false_iff]
      intro hemptyWindow
      obtain ⟨cut, hcut, hhit⟩ := List.any_eq_true.mp hsome
      rw [hempty hemptyWindow cut hcut] at hhit
      cases hhit
    rw [subtractWindows_apart hnonempty hapart, List.map_singleton]
  · rfl

end Remainders

/-! ## When a batch is accepted -/

section Checked

variable {grid : Option RasterGrid} {batch : List TemporalResultEntry}

/-- The fields of the entry pass, and its window lies on the grid. -/
def Valid (grid : Option RasterGrid) (entry : TemporalResultEntry) : Prop :=
  fieldFailures entry = [] ∧ grid.any (fun grid => ¬ onGrid grid entry.writeWindow) = false

/-- The windows of a key are distinct. -/
def DistinctWindows (batch : List TemporalResultEntry) : Prop :=
  batch.Pairwise fun a b => a.key = b.key → a.writeWindow ≠ b.writeWindow

theorem checkEntry_failures {s : List BatchFailure × ByKey} {e : TemporalResultEntry} :
    (checkEntry grid s e).1 = [] ↔ s.1 = [] ∧ Valid grid e ∧
      ∀ prior ∈ s.2.getD e.key [], prior.writeWindow ≠ e.writeWindow := by
  unfold checkEntry Valid
  dsimp only
  by_cases hgrid : grid.any (fun grid => ¬ onGrid grid e.writeWindow) = true
  · rw [if_pos hgrid]
    constructor
    · intro h
      simp at h
    · rintro ⟨-, ⟨-, hplaced⟩, -⟩
      rw [hplaced] at hgrid
      cases hgrid
  · rw [if_neg hgrid]
    by_cases hdup : (s.2.getD e.key []).any (fun prior => prior.writeWindow = e.writeWindow) = true
    · rw [if_pos hdup]
      obtain ⟨prior, hprior, hsame⟩ := List.any_eq_true.mp hdup
      simp only [List.append_eq_nil_iff, List.cons_ne_self, and_false, false_iff, not_and]
      intro _ _ hdistinct
      exact hdistinct prior hprior (of_decide_eq_true hsame)
    · rw [if_neg hdup]
      have hdistinct : ∀ prior ∈ s.2.getD e.key [], prior.writeWindow ≠ e.writeWindow := by
        simpa using hdup
      simp only [List.append_eq_nil_iff, Bool.not_eq_true] at hgrid ⊢
      exact ⟨fun h => ⟨h.1, ⟨h.2, hgrid⟩, hdistinct⟩, fun h => ⟨h.1, h.2.1.1⟩⟩

theorem checkEntries_iff :
    (batch.foldl (checkEntry grid) ([], ∅)).1 = [] ↔
      (∀ e ∈ batch, Valid grid e) ∧ DistinctWindows batch := by
  unfold DistinctWindows
  induction batch using List.reverseRecOn with
  | nil => simp
  | append_singleton batch last ih =>
    rw [List.foldl_append, List.foldl_cons, List.foldl_nil, checkEntry_failures, ih,
      List.pairwise_append]
    have hprior : (∀ e ∈ batch, Valid grid e) ∧
        (batch.Pairwise fun a b => a.key = b.key → a.writeWindow ≠ b.writeWindow) →
        (batch.foldl (checkEntry grid) ([], ∅)).2.getD last.key [] =
          batch.filter (·.key = last.key) := by
      intro h
      rw [Std.ExtTreeMap.getD_eq_getD_getElem?, checkEntries_byKey (ih.mpr h)]
      split
      · next hnone => rw [hnone]; rfl
      · rfl
    constructor
    · rintro ⟨h, hlast, hdistinct⟩
      rw [hprior h] at hdistinct
      refine ⟨fun e he => ?_, h.2, List.pairwise_singleton _ _, fun a ha b hb hkey => ?_⟩
      · rcases List.mem_append.mp he with he | he
        · exact h.1 e he
        · exact List.mem_singleton.mp he ▸ hlast
      · obtain rfl := List.mem_singleton.mp hb
        exact hdistinct a (List.mem_filter.mpr ⟨ha, by simpa using hkey⟩)
    · rintro ⟨hvalid, hpairs, -, hcross⟩
      have h : (∀ e ∈ batch, Valid grid e) ∧
          batch.Pairwise fun a b => a.key = b.key → a.writeWindow ≠ b.writeWindow :=
        ⟨fun e he => hvalid e (List.mem_append_left _ he), hpairs⟩
      refine ⟨h, hvalid last (by simp), fun prior hmem => ?_⟩
      rw [hprior h, List.mem_filter, decide_eq_true_eq] at hmem
      exact hcross prior hmem.1 last (by simp) hmem.2

theorem dedup_length_le_one {α β : Type} [DecidableEq β] {f : α → β} {l : List α} :
    ¬ 1 < (l.map f).dedup.length ↔ ∀ a ∈ l, ∀ b ∈ l, f a = f b := by
  constructor
  · intro hone a ha b hb
    have hmem : ∀ c ∈ l, f c ∈ (l.map f).dedup := fun c hc =>
      List.mem_dedup.mpr (List.mem_map_of_mem hc)
    have hA := hmem a ha
    have hB := hmem b hb
    cases hlist : (l.map f).dedup with
    | nil =>
      rw [hlist] at hA
      cases hA
    | cons first rest =>
      rw [hlist] at hA hB hone
      have hrest : rest = [] := by
        cases rest with
        | nil => rfl
        | cons _ _ => simp at hone
      subst hrest
      rw [List.mem_singleton.mp hA, List.mem_singleton.mp hB]
  · intro hall hmany
    obtain ⟨x, y, hx, hy, hne⟩ : ∃ x y, x ∈ (l.map f).dedup ∧ y ∈ (l.map f).dedup ∧ x ≠ y := by
      have hnodup := List.nodup_dedup (l.map f)
      match hlist : (l.map f).dedup, hmany with
      | x :: y :: rest, _ =>
        rw [hlist] at hnodup
        have hne : x ≠ y := fun h => (List.nodup_cons.mp hnodup).1 (h ▸ List.mem_cons_self)
        exact ⟨x, y, by simp, by simp, hne⟩
    rw [List.mem_dedup] at hx hy
    obtain ⟨a, ha, rfl⟩ := List.mem_map.mp hx
    obtain ⟨b, hb, rfl⟩ := List.mem_map.mp hy
    exact hne (hall a ha b hb)

/-- The entries of a key have one revision and one mode. -/
def OneRevision (batch : List TemporalResultEntry) : Prop :=
  ∀ a ∈ batch, ∀ b ∈ batch, a.key = b.key →
    a.sceneRevision = b.sceneRevision ∧ a.mode = b.mode

theorem checkBatch_iff :
    (checkBatch grid batch).1 = [] ↔
      (∀ e ∈ batch, Valid grid e) ∧ DistinctWindows batch ∧ OneRevision batch := by
  have hentries : (batch.foldl (checkEntry grid) ([], ∅)).1 = [] ↔
      (∀ e ∈ batch, Valid grid e) ∧ DistinctWindows batch := checkEntries_iff
  unfold checkBatch
  dsimp only
  rw [List.append_eq_nil_iff, hentries, List.flatMap_eq_nil_iff, and_assoc]
  refine and_congr_right fun hvalid => and_congr_right fun hdistinct => ?_
  have hbyKey := checkEntries_byKey (hentries.mpr ⟨hvalid, hdistinct⟩)
  have hfailures : ∀ key part, keyFailures key part = [] ↔
      ∀ a ∈ part, ∀ b ∈ part, a.sceneRevision = b.sceneRevision ∧ a.mode = b.mode := by
    intro key part
    have hrevisions := dedup_length_le_one (f := TemporalResultEntry.sceneRevision) (l := part)
    have hmodes := dedup_length_le_one (f := TemporalResultEntry.mode) (l := part)
    unfold keyFailures
    rw [List.append_eq_nil_iff]
    simp only [ite_eq_right_iff, List.cons_ne_self, imp_false]
    unfold revisionsOf modesOf
    rw [hrevisions, hmodes]
    exact ⟨fun h a ha b hb => ⟨h.1 a ha b hb, h.2 a ha b hb⟩,
      fun h => ⟨fun a ha b hb => (h a ha b hb).1, fun a ha b hb => (h a ha b hb).2⟩⟩
  constructor
  · intro h a ha b hb hkey
    have hmemA : a ∈ batch.filter (·.key = b.key) := List.mem_filter.mpr ⟨ha, by simpa using hkey⟩
    have hmemB : b ∈ batch.filter (·.key = b.key) := List.mem_filter.mpr ⟨hb, by simp⟩
    have hpart := hbyKey b.key
    rw [if_neg (List.ne_nil_of_mem hmemB)] at hpart
    have hnone := h (b.key, batch.filter (·.key = b.key))
      (Std.ExtTreeMap.mem_toList_iff_getElem?_eq_some.mpr hpart)
    exact (hfailures _ _).mp hnone a hmemA b hmemB
  · rintro h ⟨key, part⟩ hmem
    have hpart := Std.ExtTreeMap.mem_toList_iff_getElem?_eq_some.mp hmem
    rw [hbyKey] at hpart
    split at hpart
    · cases hpart
    · obtain rfl := Option.some.inj hpart
      rw [hfailures]
      intro a ha b hb
      rw [List.mem_filter, decide_eq_true_eq] at ha hb
      exact h a ha.1 b hb.1 (ha.2.trans hb.2.symm)

end Checked

/-! ## Under a key -/

/-- What the index holds under a key. -/
structure Indexed (grid : Option RasterGrid) (key : TemporalResultKey)
    (entries : List TemporalResultEntry) : Prop where
  keyed : ∀ e ∈ entries, e.key = key
  valid : ∀ e ∈ entries, Valid grid e
  named : ∀ e ∈ entries, e.patchPath ≠ some ""
  sorted : byWindow entries = entries
  modes : ∀ a ∈ entries, ∀ b ∈ entries, a.sceneRevision = b.sceneRevision → a.mode = b.mode
  empties : ((entries.map (·.writeWindow)).filter RasterWindow.isEmpty).Nodup
  /-- A newer entry would have dropped an older one without cells if it touched it. -/
  kept : ∀ a ∈ entries, ∀ b ∈ entries, a.sceneRevision < b.sceneRevision →
    a.writeWindow.isEmpty = true → a.writeWindow.intersects b.writeWindow = false

section Under

variable {grid : Option RasterGrid} {key : TemporalResultKey} {part old : List TemporalResultEntry}

instance : Std.Total fun a b : TemporalResultEntry => windowSortKey a ≤ windowSortKey b :=
  ⟨fun a b => le_total (windowSortKey a) (windowSortKey b)⟩

instance : IsTrans TemporalResultEntry fun a b => windowSortKey a ≤ windowSortKey b :=
  ⟨fun _ _ _ => le_trans⟩

theorem byWindow_sorted (entries : List TemporalResultEntry) :
    (byWindow entries).Pairwise fun a b => windowSortKey a ≤ windowSortKey b :=
  List.pairwise_insertionSort _ entries

theorem byWindow_byWindow (entries : List TemporalResultEntry) :
    byWindow (byWindow entries) = byWindow entries :=
  (byWindow_sorted entries).insertionSort_eq

theorem byWindow_eq_nil {entries : List TemporalResultEntry} :
    byWindow entries = [] ↔ entries = [] := by
  rw [← List.length_eq_zero_iff, (byWindow_perm entries).length_eq, List.length_eq_zero_iff]

theorem byWindow_eq_of_perm {entries other : List TemporalResultEntry}
    (hdistinct : (entries.map (·.writeWindow)).Nodup) (hperm : entries.Perm other) :
    byWindow entries = byWindow other := by
  have hsame : (byWindow entries).Perm (byWindow other) :=
    (byWindow_perm entries).trans (hperm.trans (byWindow_perm other).symm)
  refine hsame.eq_of_pairwise (fun a b ha hb hab hba => ?_) (byWindow_sorted _) (byWindow_sorted _)
  have hwindow := window_of_sortKey (le_antisymm hab hba)
  have hmemA := (byWindow_perm entries).mem_iff.mp ha
  have hmemB := hperm.mem_iff.mpr ((byWindow_perm other).mem_iff.mp hb)
  exact List.inj_on_of_nodup_map hdistinct hmemA hmemB hwindow

theorem windows_nodup {entries : List TemporalResultEntry} {region : Cell → Bool}
    (htiles : Tiles TemporalResultEntry.holds entries region)
    (hempties : ((entries.map (·.writeWindow)).filter RasterWindow.isEmpty).Nodup) :
    (entries.map (·.writeWindow)).Nodup := by
  rw [List.nodup_iff_count_le_one]
  intro window
  cases hempty : window.isEmpty with
  | true =>
    rw [← List.count_filter hempty]
    exact List.nodup_iff_count_le_one.mp hempties window
  | false =>
    rw [isEmpty_eq_false] at hempty
    -- a cell of the window lies in each entry that has it
    have hcell : holds window (window.rowStart, window.colStart) = true := by
      rw [holds_iff]
      dsimp only
      omega
    have hle : (entries.map (·.writeWindow)).count window ≤
        entries.countP (·.holds (window.rowStart, window.colStart)) := by
      rw [List.count, List.countP_map]
      apply List.countP_mono_left
      intro e _ hsame
      have hwindow : e.writeWindow = window := by simpa using hsame
      rw [TemporalResultEntry.holds, hwindow]
      exact hcell
    have htile := htiles (window.rowStart, window.colStart)
    split at htile
    · omega
    · omega

/-- The entries of a batch for a key. -/
structure PartOf (grid : Option RasterGrid) (key : TemporalResultKey)
    (part : List TemporalResultEntry) : Prop where
  keyed : ∀ e ∈ part, e.key = key
  valid : ∀ e ∈ part, Valid grid e
  named : ∀ e ∈ part, e.patchPath ≠ some ""
  one : ∀ a ∈ part, ∀ b ∈ part, a.sceneRevision = b.sceneRevision ∧ a.mode = b.mode
  distinct : (part.map (·.writeWindow)).Nodup

theorem indexed_nil : Indexed grid key [] where
  keyed _ h := by cases h
  valid _ h := by cases h
  named _ h := by cases h
  sorted := rfl
  modes _ h := by cases h
  empties := List.nodup_nil
  kept _ h := by cases h

theorem Valid.between {e other : TemporalResultEntry} (h : Valid grid e)
    (hsame : other = { e with writeWindow := other.writeWindow })
    (hbetween : Between other.writeWindow e.writeWindow) : Valid grid other := by
  obtain ⟨hfields, hplaced⟩ := h
  refine ⟨by rw [hsame]; exact hfields, ?_⟩
  cases grid with
  | none => rfl
  | some grid =>
    have hrows := other.writeWindow.rows
    have hcols := other.writeWindow.cols
    simp only [Between] at hbetween
    simp only [Option.any_some, onGrid, decide_eq_false_iff_not, not_not,
      decide_eq_true_eq] at hplaced ⊢
    omega

theorem remainders_empties (cuts : List RasterWindow) (e : TemporalResultEntry) :
    (((remainders cuts e).map (·.writeWindow)).filter RasterWindow.isEmpty).Sublist
      (([e].map (·.writeWindow)).filter RasterWindow.isEmpty) := by
  have hcases : ∀ other ∈ remainders cuts e, other.writeWindow.isEmpty = true →
      other = e ∧ ∀ cut ∈ cuts, e.writeWindow.intersects cut = false := by
    intro other hother hempty
    rcases (remainders_cases hother).2.2 with hsome | hwhole
    · rw [hsome] at hempty
      cases hempty
    · exact hwhole
  by_cases htouched : ∃ cut ∈ cuts, e.writeWindow.intersects cut = true
  · obtain ⟨cut, hcut, hhit⟩ := htouched
    have hnone : ((remainders cuts e).map (·.writeWindow)).filter RasterWindow.isEmpty = [] := by
      rw [List.filter_eq_nil_iff]
      intro window hwindow hempty
      obtain ⟨other, hother, rfl⟩ := List.mem_map.mp hwindow
      rw [(hcases other hother hempty).2 cut hcut] at hhit
      cases hhit
    rw [hnone]
    exact List.nil_sublist _
  · have hwhole : remainders cuts e = [e] := by
      unfold remainders
      rw [if_neg]
      intro hany
      obtain ⟨cut, hcut, hhit⟩ := List.any_eq_true.mp hany
      exact htouched ⟨cut, hcut, hhit⟩
    rw [hwhole]

theorem flatMap_empties (cuts : List RasterWindow) (entries : List TemporalResultEntry) :
    (((entries.flatMap (remainders cuts)).map (·.writeWindow)).filter
      RasterWindow.isEmpty).Sublist ((entries.map (·.writeWindow)).filter RasterWindow.isEmpty) := by
  induction entries with
  | nil => exact List.Sublist.refl _
  | cons e entries ih =>
    rw [List.flatMap_cons, List.map_append, List.filter_append, ← List.singleton_append,
      List.map_append, List.filter_append]
    exact (remainders_empties cuts e).append ih

theorem Indexed.newer (h : Indexed grid key old) (hpart : PartOf grid key part)
    (hnewer : ∀ r ∈ old, ∀ b ∈ part, r.sceneRevision < b.sceneRevision) :
    Indexed grid key (byWindow
      (old.flatMap (remainders ((byWindow part).map (·.writeWindow))) ++ byWindow part)) := by
  have hmem : ∀ e ∈ byWindow (old.flatMap (remainders ((byWindow part).map (·.writeWindow))) ++
      byWindow part), (∃ r ∈ old, e ∈ remainders ((byWindow part).map (·.writeWindow)) r) ∨
        e ∈ part := by
    intro e he
    rw [(byWindow_perm _).mem_iff, List.mem_append, List.mem_flatMap,
      (byWindow_perm part).mem_iff] at he
    exact he
  have hcuts : ∀ b ∈ part, b.writeWindow ∈ (byWindow part).map (·.writeWindow) := fun b hb =>
    List.mem_map_of_mem ((byWindow_perm part).mem_iff.mpr hb)
  have hrevision : ∀ r other, other ∈ remainders ((byWindow part).map (·.writeWindow)) r →
      other.sceneRevision = r.sceneRevision ∧ other.mode = r.mode := by
    intro r other hother
    have hsource := (remainders_source hother).1
    exact ⟨hsource.revision, hsource.mode⟩
  have huncut : ∀ r other, other ∈ remainders ((byWindow part).map (·.writeWindow)) r →
      other.writeWindow.isEmpty = true →
        ∀ cut ∈ (byWindow part).map (·.writeWindow), other.writeWindow.intersects cut = false := by
    intro r other hother hempty
    rcases (remainders_cases hother).2.2 with hsome | ⟨rfl, hwhole⟩
    · rw [hsome] at hempty
      cases hempty
    · exact hwhole
  constructor
  · intro e he
    rcases hmem e he with ⟨r, hr, hrest⟩ | he
    · have hkey : e.key = r.key := by
        rw [(remainders_cases hrest).1]
        rfl
      rw [hkey]
      exact h.keyed r hr
    · exact hpart.keyed e he
  · intro e he
    rcases hmem e he with ⟨r, hr, hrest⟩ | he
    · obtain ⟨hsame, hbetween, -⟩ := remainders_cases hrest
      exact (h.valid r hr).between hsame hbetween
    · exact hpart.valid e he
  · intro e he
    rcases hmem e he with ⟨r, hr, hrest⟩ | he
    · rw [(remainders_source hrest).1.patch]
      exact h.named r hr
    · exact hpart.named e he
  · exact byWindow_byWindow _
  · intro a ha b hb hsame
    rcases hmem a ha with ⟨r, hr, hrest⟩ | ha <;> rcases hmem b hb with ⟨q, hq, hrest'⟩ | hb
    · obtain ⟨hrev, hmode⟩ := hrevision r a hrest
      obtain ⟨hrev', hmode'⟩ := hrevision q b hrest'
      rw [hmode, hmode']
      exact h.modes r hr q hq (by rw [← hrev, ← hrev', hsame])
    · have := hnewer r hr b hb
      have := (hrevision r a hrest).1
      omega
    · have := hnewer q hq a ha
      have := (hrevision q b hrest').1
      omega
    · exact (hpart.one a ha b hb).2
  · rw [(((byWindow_perm _).map _).filter _).nodup_iff, List.map_append, List.filter_append,
      List.nodup_append]
    refine ⟨(flatMap_empties _ old).nodup h.empties, ?_, ?_⟩
    · rw [(((byWindow_perm part).map _).filter _).nodup_iff]
      exact hpart.distinct.filter _
    · rintro window hold _ hnew rfl
      obtain ⟨hold, hempty⟩ := List.mem_filter.mp hold
      obtain ⟨other, hother, rfl⟩ := List.mem_map.mp hold
      obtain ⟨r, -, hrest⟩ := List.mem_flatMap.mp hother
      have huntouched := huncut r other hrest hempty other.writeWindow (List.mem_filter.mp hnew).1
      rw [intersects_self] at huntouched
      cases huntouched
  · intro a ha b hb hlt hempty
    rcases hmem a ha with ⟨r, hr, hrest⟩ | ha <;> rcases hmem b hb with ⟨q, hq, hrest'⟩ | hb
    · obtain ⟨hsame, hbetween, hwhole⟩ := remainders_cases hrest
      obtain ⟨-, hbetween', -⟩ := remainders_cases hrest'
      rcases hwhole with hsome | ⟨rfl, -⟩
      · rw [hsome] at hempty
        cases hempty
      · have hkept := h.kept a hr q hq (by rw [← (hrevision q b hrest').1]; exact hlt) hempty
        exact intersects_between (Between.refl _) hbetween' hkept
    · exact huncut r a hrest hempty _ (hcuts b hb)
    · have := hnewer q hq a ha
      have := (hrevision q b hrest').1
      omega
    · have := (hpart.one a ha b hb).1
      omega

end Under

/-! ## In every run -/

section Runs

variable {s t : TracedStore} {event : StoreEvent}

/-- A path has a text: that of the empty path is a dot. -/
def PathsNamed : StoreEvent → Prop
  | .publish batch _ => ∀ e ∈ batch.entries, e.patchPath ≠ some ""
  | .invalidate _ _ => True

theorem settled_cases {recorded : Option (List TemporalResultEntry)} {key : TemporalResultKey}
    {part settled : List TemporalResultEntry}
    (hrev : ∀ a ∈ part, ∀ b ∈ part, a.sceneRevision = b.sceneRevision)
    (h : settleKey recorded key part = .ok settled) :
    ((∀ r ∈ recorded.getD [], ∀ b ∈ part, r.sceneRevision < b.sceneRevision) ∧
      commitKey recorded settled = byWindow ((recorded.getD []).flatMap
        (remainders ((byWindow part).map (·.writeWindow))) ++ byWindow part)) ∨
    ∃ old, recorded = some old ∧ commitKey recorded settled = byWindow old := by
  unfold settleKey at h
  cases recorded with
  | none =>
    obtain rfl := Except.ok.inj h
    refine Or.inl ⟨fun r hr => (by cases hr), ?_⟩
    rw [Option.getD_none, List.flatMap_nil, List.nil_append, byWindow_byWindow]
    rfl
  | some recorded =>
    dsimp only at h
    split at h
    · cases h
    · split at h
      · next hnewer =>
        obtain rfl := Except.ok.inj h
        refine Or.inl ⟨fun r hr b hb => ?_, ?_⟩
        · have hle := le_maxRevision hr
          rw [batchRevision_eq hrev hb] at hnewer
          exact lt_of_le_of_lt hle hnewer
        · unfold commitKey
          dsimp only
          rw [batchRevision_byWindow hrev, if_neg (not_le_of_gt hnewer), Option.getD_some]
      · split at h
        · cases h
        · split at h
          · cases h
          · obtain rfl := Except.ok.inj h
            refine Or.inr ⟨recorded, rfl, ?_⟩
            unfold commitKey
            dsimp only
            rw [if_pos (batchRevision_le recorded)]

structure StoreIndexed (s : TracedStore) : Prop where
  traced : Traced s
  indexed : ∀ key, Indexed s.store.grid key (s.store.entriesAt key)
  nonempty : ∀ key : TemporalResultKey, s.store.entries[key]? ≠ some []

theorem partOf_filter {grid : Option RasterGrid} {batch : DisjointBatch} {writer : Option String}
    (hchecked : (checkBatch grid batch.entries).1 = []) (hnamed : PathsNamed (.publish batch writer))
    (key : TemporalResultKey) : PartOf grid key (batch.entries.filter (·.key = key)) := by
  obtain ⟨hvalid, hdistinct, hone⟩ := checkBatch_iff.mp hchecked
  have hmem : ∀ e ∈ batch.entries.filter (·.key = key), e ∈ batch.entries ∧ e.key = key := by
    intro e he
    rwa [List.mem_filter, decide_eq_true_eq] at he
  refine ⟨fun e he => (hmem e he).2, fun e he => hvalid e (hmem e he).1,
    fun e he => hnamed e (hmem e he).1, ?_, ?_⟩
  · intro a ha b hb
    exact hone a (hmem a ha).1 b (hmem b hb).1 ((hmem a ha).2.trans (hmem b hb).2.symm)
  · unfold List.Nodup
    rw [List.pairwise_map]
    refine (hdistinct.filter _).imp_of_mem fun ha hb hne => hne ?_
    exact (hmem _ ha).2.trans (hmem _ hb).2.symm

theorem storeStep_indexed (h : storeStep s event = some t) (hs : StoreIndexed s)
    (hnamed : PathsNamed event) : StoreIndexed t := by
  have htraced := storeStep_traced h hs.traced
  cases event with
  | publish batch writer =>
    simp only [storeStep] at h
    split at h
    · obtain rfl := Option.some.inj h
      exact hs
    · next store keys hpublish =>
      obtain rfl := Option.some.inj h
      obtain ⟨hchecked, hgrid, -⟩ := publish_checked hpublish
      have hkey : ∀ key, Indexed s.store.grid key (store.entriesAt key) ∧
          store.entries[key]? ≠ some [] := by
        intro key
        have hpart := partOf_filter hchecked hnamed key
        obtain ⟨hsome, hnone⟩ := publish_getElem? key hpublish
        have hold := hs.indexed key
        unfold TemporalResultStore.entriesAt at hold ⊢
        rw [Std.ExtTreeMap.getD_eq_getD_getElem?] at hold ⊢
        by_cases hempty : batch.entries.filter (·.key = key) = []
        · rw [hnone hempty]
          exact ⟨hold, hs.nonempty key⟩
        · obtain ⟨settled, hsettled, hentries⟩ := hsome hempty
          rw [hentries, Option.getD_some]
          rcases settled_cases (fun a ha b hb => (hpart.one a ha b hb).1) hsettled with
            ⟨hnewer, hcommit⟩ | ⟨old, hold', hcommit⟩
          · rw [hcommit]
            refine ⟨hold.newer hpart hnewer, fun hnil => hempty ?_⟩
            rw [Option.some.injEq, byWindow_eq_nil, List.append_eq_nil_iff, byWindow_eq_nil] at hnil
            exact hnil.2
          · rw [hcommit]
            rw [hold', Option.getD_some] at hold
            rw [hold.sorted]
            exact ⟨hold, hold' ▸ hs.nonempty key⟩
      refine ⟨htraced, fun key => ?_, fun key => (hkey key).2⟩
      dsimp only
      rw [hgrid]
      exact (hkey key).1
  | invalidate nodeId times =>
    obtain rfl := Option.some.inj h
    refine ⟨htraced, fun key => ?_, fun key hnil => ?_⟩
    · dsimp only
      rw [invalidate_entriesAt]
      split
      · exact indexed_nil
      · exact hs.indexed key
    · dsimp only [invalidate] at hnil
      rw [Std.ExtTreeMap.getElem?_filter', Option.filter_eq_some_iff] at hnil
      exact hs.nonempty key hnil.1

theorem emptyStore_indexed (grid : Option RasterGrid) : StoreIndexed (emptyStore grid) where
  traced key := by
    have hnone : (emptyStore grid).store.entriesAt key = [] := by
      simp [emptyStore, TemporalResultStore.entriesAt]
    rw [hnone]
    exact keyTraced_nil
  indexed key := by
    have hnone : (emptyStore grid).store.entriesAt key = [] := by
      simp [emptyStore, TemporalResultStore.entriesAt]
    rw [hnone]
    exact indexed_nil
  nonempty key h := by simp [emptyStore] at h

theorem run_indexed {grid : Option RasterGrid} {events : List StoreEvent}
    (hnamed : EachStep storeStep (fun _ => PathsNamed) (emptyStore grid) events)
    (hrun : run storeStep (emptyStore grid) events = some s) : StoreIndexed s :=
  run_invariant (fun _ _ _ hs hnamed h => storeStep_indexed h hs hnamed) (emptyStore_indexed grid)
    hnamed hrun

end Runs

end Solweig.Incremental
