import Solweig.Sparse.SparseWork

/-!
# The two representations

Row runs and chunked bitsets give back the mask that they were made of.
-/

namespace Solweig.Sparse

open Solweig.Lib Solweig.Lib.Chunks

/-! ## The inverses -/

/-- A run of cells of the grid. -/
def RowRun.Within (rows cols : Nat) (run : RowRun) : Prop :=
  run.row < rows ∧ run.c0 ≤ run.c1Inclusive ∧ run.c1Inclusive < cols

instance (rows cols : Nat) (run : RowRun) : Decidable (run.Within rows cols) :=
  inferInstanceAs (Decidable (_ ∧ _))

def writeRun (rows cols : Nat) (out : Mask) (run : RowRun) : Except RowRun Mask :=
  if run.Within rows cols then .ok fun cell => run.holds cell || out cell else .error run

def maskFromRowRuns (rows cols : Nat) (runs : List RowRun) : Except RowRun Mask :=
  runs.foldlM (writeRun rows cols) fun _ => false

/-- `out[r, c0 : c0 + width] = line[:width]`, the line being the bits of the word. -/
def writeLine (out : Mask) (r c0 width word : Nat) : Mask := fun cell =>
  if cell.1 = r ∧ (c0 : Int) ≤ cell.2 ∧ cell.2 < (c0 + width : Nat) then
    word.testBit (cell.2.toNat - c0)
  else out cell

/-- The words of one chunk from its row `k` on. An empty word is skipped, and the first one below
the grid ends the chunk. -/
def writeWords (rows cols : Nat) (key : Nat × Nat) (k : Nat) (out : Mask) : List Nat → Mask
  | [] => out
  | word :: words =>
    if word = 0 then writeWords rows cols key (k + 1) out words
    else if rows ≤ key.1 * chunkCells + k then out
    else
      let c0 := key.2 * chunkCells
      let width := min chunkCells (cols - c0)
      writeWords rows cols key (k + 1)
        (writeLine out (key.1 * chunkCells + k) c0 width word) words

def maskFromChunkBitset (bitset : ChunkedBitset) : Mask :=
  (bitset.chunkKeys.zip bitset.words).foldl (fun out chunk =>
    writeWords bitset.rows bitset.cols chunk.1 0 out chunk.2) fun _ => false

/-- The mask as an array of the shape holds it: nothing beyond the grid. -/
def withinGrid (rows cols : Nat) (mask : Mask) : Mask := fun cell =>
  decide (inGrid rows cols cell) && mask cell

/-! ## Row runs -/

theorem runs_apart (row : List Bool) (i : Nat) :
    (∀ start < i,
      ((start :: Incremental.runStarts true i row).zip (Incremental.runStops true i row)).Pairwise
        (fun a b => a.2 < b.1) ∧
      ∀ span ∈
        (start :: Incremental.runStarts true i row).zip (Incremental.runStops true i row),
        start ≤ span.1 ∧ span.1 < span.2 ∧ span.2 ≤ i + row.length) ∧
    ((Incremental.runStarts false i row).zip (Incremental.runStops false i row)).Pairwise
      (fun a b => a.2 < b.1) ∧
    ∀ span ∈ (Incremental.runStarts false i row).zip (Incremental.runStops false i row),
      i ≤ span.1 ∧ span.1 < span.2 ∧ span.2 ≤ i + row.length := by
  induction row generalizing i with
  | nil =>
    refine ⟨fun start hstart => ?_, ?_⟩
    · simp [Incremental.runStops, Incremental.runStarts, hstart]
    · simp [Incremental.runStops, Incremental.runStarts]
  | cons b row ih =>
    obtain ⟨hopen, hclosed, hspans⟩ := ih (i + 1)
    cases b with
    | true =>
      -- An open run goes on, a closed one opens here.
      refine ⟨fun start hstart => ?_, ?_⟩
      · obtain ⟨hpairs, hbounds⟩ := hopen start (by omega)
        refine ⟨hpairs, fun span hspan => ?_⟩
        have hspan := hbounds span hspan
        rw [List.length_cons]
        omega
      · obtain ⟨hpairs, hbounds⟩ := hopen i (by omega)
        refine ⟨hpairs, fun span hspan => ?_⟩
        have hspan := hbounds span hspan
        rw [List.length_cons]
        omega
    | false =>
      -- An open run ends before this cell, so what opens later does not touch it.
      refine ⟨fun start hstart => ⟨?_, ?_⟩, hclosed, ?_⟩
      · refine List.pairwise_cons.mpr ⟨fun span hspan => ?_, hclosed⟩
        exact (hspans span hspan).1
      · intro span hspan
        rcases List.mem_cons.mp hspan with rfl | hspan
        · dsimp only
          omega
        · have hspan := hspans span hspan
          rw [List.length_cons]
          omega
      · intro span hspan
        have hspan := hspans span hspan
        rw [List.length_cons]
        omega

/-- Row by row, and within a row from left to right with a gap between two runs. -/
def RowRun.apart (a b : RowRun) : Prop :=
  a.row < b.row ∨ a.row = b.row ∧ a.c1Inclusive + 1 < b.c0

theorem rowRunsFromMask_within {rows cols : Nat} {mask : Mask} {run : RowRun}
    (h : run ∈ rowRunsFromMask rows cols mask) : run.Within rows cols := by
  unfold rowRunsFromMask at h
  simp only [List.mem_flatMap, List.mem_range, List.mem_map] at h
  obtain ⟨row, hrow, span, hspan, rfl⟩ := h
  have hbounds := (runs_apart (maskLine cols mask row) 0).2.2 span hspan
  unfold maskLine at hbounds
  rw [List.length_map, List.length_range] at hbounds
  refine ⟨hrow, ?_⟩
  dsimp only
  omega

theorem rowRunsFromMask_apart (rows cols : Nat) (mask : Mask) :
    (rowRunsFromMask rows cols mask).Pairwise RowRun.apart := by
  unfold rowRunsFromMask
  rw [List.pairwise_flatMap]
  constructor
  · intro row _
    rw [List.pairwise_map]
    obtain ⟨-, hpairs, hbounds⟩ := runs_apart (maskLine cols mask row) 0
    refine hpairs.imp_of_mem fun {a b} ha hb hab => Or.inr ⟨rfl, ?_⟩
    have hpos := (hbounds a ha).2.1
    dsimp only
    omega
  · refine List.pairwise_lt_range.imp fun {row later} hlt a ha b hb => Or.inl ?_
    obtain ⟨_, -, rfl⟩ := List.mem_map.mp ha
    obtain ⟨_, -, rfl⟩ := List.mem_map.mp hb
    exact hlt

theorem foldlM_writeRun {rows cols : Nat} {runs : List RowRun} (out : Mask)
    (h : ∀ run ∈ runs, run.Within rows cols) : runs.foldlM (writeRun rows cols) out =
      .ok fun cell => out cell || runs.any fun run => run.holds cell := by
  induction runs generalizing out with
  | nil =>
    simp
    rfl
  | cons run runs ih =>
    obtain ⟨hrun, hruns⟩ := List.forall_mem_cons.mp h
    rw [List.foldlM_cons, writeRun, if_pos hrun]
    refine (ih _ hruns).trans (congrArg Except.ok ?_)
    funext cell
    rw [List.any_cons, Bool.or_left_comm, Bool.or_assoc]

theorem maskFromRowRuns_rowRunsFromMask (rows cols : Nat) (mask : Mask) :
    maskFromRowRuns rows cols (rowRunsFromMask rows cols mask) =
      .ok (withinGrid rows cols mask) := by
  refine (foldlM_writeRun _ fun run hrun => rowRunsFromMask_within hrun).trans ?_
  refine congrArg Except.ok (funext fun cell => ?_)
  rw [Bool.false_or]
  unfold withinGrid
  by_cases hcell : inGrid rows cols cell
  · rw [decide_eq_true hcell, Bool.true_and, rowRunsFromMask_holds mask hcell]
  · rw [decide_eq_false hcell, Bool.false_and, List.any_eq_false]
    intro run hrun hholds
    have hwithin := rowRunsFromMask_within hrun
    unfold RowRun.holds at hholds
    unfold RowRun.Within at hwithin
    unfold inGrid at hcell
    simp only [decide_eq_true_eq] at hholds
    omega

/-! ## Words -/

theorem testBit_packBits (bits : List Bool) (k : Nat) :
    (packBits bits).testBit k = (bits[k]?).getD false := by
  induction bits generalizing k with
  | nil => simp [packBits]
  | cons bit bits ih =>
    have hcons : packBits (bit :: bits) = 2 * packBits bits + bit.toNat := rfl
    rw [hcons]
    cases k with
    | zero => cases bit <;> simp [Nat.testBit_zero]
    | succ k =>
      rw [Nat.testBit_succ, List.getElem?_cons_succ, ← ih]
      congr 1
      cases bit <;> simp
      omega

theorem testBit_chunkWords {rows cols : Nat} {mask : Mask} {key : Nat × Nat} {k bit : Nat}
    (hbit : bit < chunkCells) {word : Nat} (h : (chunkWords rows cols mask key)[k]? = some word) :
    word.testBit bit = withinGrid rows cols mask
      ((key.1 * chunkCells + k : Nat), (key.2 * chunkCells + bit : Nat)) := by
  unfold chunkWords at h
  rw [List.getElem?_map, Option.map_eq_some_iff] at h
  obtain ⟨line, hline, rfl⟩ := h
  obtain ⟨hk, rfl⟩ := List.getElem?_eq_some_iff.mp hline
  rw [List.getElem_range]
  rw [testBit_packBits, List.getElem?_map, List.getElem?_range hbit, Option.map_some,
    Option.getD_some]
  unfold withinGrid
  dsimp only
  congr 1
  rw [Bool.eq_iff_iff, Bool.and_eq_true, decide_eq_true_eq, decide_eq_true_eq, decide_eq_true_eq]
  unfold inGrid
  omega

/-! ## Chunks -/

/-- The cell is in a line of the chunk. -/
def OnLine (key : Nat × Nat) (k : Nat) (cell : Cell) : Prop :=
  cell.1 = (key.1 * chunkCells + k : Nat) ∧ (key.2 * chunkCells : Nat) ≤ cell.2 ∧
    cell.2 < (key.2 * chunkCells + chunkCells : Nat)

instance (key : Nat × Nat) (k : Nat) (cell : Cell) : Decidable (OnLine key k cell) :=
  inferInstanceAs (Decidable (_ ∧ _))

/-- The cell is in one of the chunk's lines from `k` on, as many as given. -/
def OnLines (key : Nat × Nat) (k lines : Nat) (cell : Cell) : Prop :=
  (key.1 * chunkCells + k : Nat) ≤ cell.1 ∧ cell.1 < (key.1 * chunkCells + k + lines : Nat) ∧
    (key.2 * chunkCells : Nat) ≤ cell.2 ∧ cell.2 < (key.2 * chunkCells + chunkCells : Nat)

instance (key : Nat × Nat) (k lines : Nat) (cell : Cell) : Decidable (OnLines key k lines cell) :=
  inferInstanceAs (Decidable (_ ∧ _))

theorem onLines_succ {key : Nat × Nat} {k lines : Nat} {cell : Cell} :
    OnLines key k (lines + 1) cell ↔ OnLine key k cell ∨ OnLines key (k + 1) lines cell := by
  unfold OnLines OnLine
  omega

section Lines

variable {rows cols : Nat} {mask out : Mask} {key : Nat × Nat} {k word : Nat}

/-- The word has the cells of its line. -/
def IsLine (rows cols : Nat) (mask : Mask) (key : Nat × Nat) (k word : Nat) : Prop :=
  ∀ bit < chunkCells, word.testBit bit = withinGrid rows cols mask
    ((key.1 * chunkCells + k : Nat), (key.2 * chunkCells + bit : Nat))

theorem IsLine.testBit (h : IsLine rows cols mask key k word) {cell : Cell}
    (hcell : OnLine key k cell) :
    word.testBit (cell.2.toNat - key.2 * chunkCells) = withinGrid rows cols mask cell := by
  obtain ⟨row, col⟩ := cell
  obtain ⟨hrow, hlow, hhigh⟩ := hcell
  dsimp only at hrow hlow hhigh
  rw [h _ (by omega), hrow]
  congr 2
  omega

theorem withinGrid_eq_false {cell : Cell} (h : (rows : Int) ≤ cell.1 ∨ (cols : Int) ≤ cell.2) :
    withinGrid rows cols mask cell = false := by
  unfold withinGrid
  rw [Bool.and_eq_false_iff, decide_eq_false_iff_not]
  unfold inGrid
  omega

theorem writeLine_eq (hout : ∀ cell, out cell = true → withinGrid rows cols mask cell = true)
    (h : IsLine rows cols mask key k word) (cell : Cell) :
    writeLine out (key.1 * chunkCells + k) (key.2 * chunkCells)
        (min chunkCells (cols - key.2 * chunkCells)) word cell =
      if OnLine key k cell then withinGrid rows cols mask cell else out cell := by
  unfold writeLine
  by_cases hline : OnLine key k cell
  · rw [if_pos hline, h.testBit hline]
    split
    · rfl
    · rename_i hright
      have hbeyond : withinGrid rows cols mask cell = false := by
        apply withinGrid_eq_false
        unfold OnLine at hline
        omega
      rw [hbeyond]
      exact Bool.eq_false_iff.mpr fun htrue => by simp [hout cell htrue] at hbeyond
  · rw [if_neg hline, if_neg]
    unfold OnLine at hline
    omega

theorem skipLine_eq (hout : ∀ cell, out cell = true → withinGrid rows cols mask cell = true)
    (h : IsLine rows cols mask key k 0) (cell : Cell) :
    out cell = if OnLine key k cell then withinGrid rows cols mask cell else out cell := by
  split
  · rename_i hline
    have hnone := h.testBit hline
    rw [Nat.zero_testBit] at hnone
    rw [← hnone]
    exact Bool.eq_false_iff.mpr fun htrue => by simp [hout cell htrue] at hnone
  · rfl

theorem writeWords_eq {words : List Nat} (k : Nat)
    (hout : ∀ cell, out cell = true → withinGrid rows cols mask cell = true)
    (h : ∀ j word, words[j]? = some word → IsLine rows cols mask key (k + j) word)
    (cell : Cell) :
    writeWords rows cols key k out words cell =
      if OnLines key k words.length cell then withinGrid rows cols mask cell else out cell := by
  induction words generalizing out k with
  | nil =>
    rw [if_neg]
    · rfl
    · unfold OnLines
      simp only [List.length_nil]
      omega
  | cons word words ih =>
    have hfirst : IsLine rows cols mask key k word := h 0 word rfl
    have hrest : ∀ j word, words[j]? = some word →
        IsLine rows cols mask key (k + 1 + j) word := by
      intro j word hword
      rw [Nat.add_assoc, Nat.add_comm 1 j]
      exact h (j + 1) word hword
    -- Whichever way the first line is handled, it is right after it.
    have hgo : ∀ out' : Mask, (∀ cell, out' cell =
        if OnLine key k cell then withinGrid rows cols mask cell else out cell) →
        writeWords rows cols key (k + 1) out' words cell =
          if OnLines key k (words.length + 1) cell then withinGrid rows cols mask cell
          else out cell := by
      intro out' hout'
      have hkeeps : ∀ cell, out' cell = true → withinGrid rows cols mask cell = true := by
        intro cell hcell
        rw [hout'] at hcell
        split at hcell
        · exact hcell
        · exact hout cell hcell
      rw [ih (k + 1) hkeeps hrest, hout']
      by_cases hline : OnLine key k cell <;> simp [hline, onLines_succ]
    unfold writeWords
    rw [List.length_cons]
    split
    · rename_i hempty
      subst hempty
      exact hgo out (skipLine_eq hout hfirst)
    split
    · rename_i hbelow
      split
      · rename_i hlines
        have hnone : withinGrid rows cols mask cell = false := by
          apply withinGrid_eq_false
          unfold OnLines at hlines
          omega
        rw [hnone]
        exact Bool.eq_false_iff.mpr fun htrue => by simp [hout cell htrue] at hnone
      · rfl
    · exact hgo _ (writeLine_eq hout hfirst)

theorem foldl_writeWords {keys : List (Nat × Nat)}
    (hout : ∀ cell, out cell = true → withinGrid rows cols mask cell = true) (cell : Cell) :
    (keys.zip (keys.map (chunkWords rows cols mask))).foldl (fun out chunk =>
        writeWords rows cols chunk.1 0 out chunk.2) out cell =
      if keys.any fun key => OnLines key 0 chunkCells cell then withinGrid rows cols mask cell
      else out cell := by
  induction keys generalizing out with
  | nil => simp
  | cons key keys ih =>
    have hstep : ∀ cell, writeWords rows cols key 0 out (chunkWords rows cols mask key) cell =
        if OnLines key 0 chunkCells cell then withinGrid rows cols mask cell else out cell := by
      intro cell
      have hlength : (chunkWords rows cols mask key).length = chunkCells := by
        unfold chunkWords
        rw [List.length_map, List.length_range]
      rw [writeWords_eq 0 hout, hlength]
      intro j word hword bit hbit
      rw [Nat.zero_add]
      exact testBit_chunkWords hbit hword
    rw [List.map_cons, List.zip_cons_cons, List.foldl_cons, ih, hstep]
    · rw [List.any_cons]
      by_cases hlines : OnLines key 0 chunkCells cell
      · rw [decide_eq_true hlines, Bool.true_or, if_pos rfl, if_pos hlines, ite_self]
      · rw [decide_eq_false hlines, Bool.false_or, if_neg hlines]
    · intro cell hcell
      rw [hstep] at hcell
      split at hcell
      · exact hcell
      · exact hout cell hcell

end Lines

theorem exists_chunk {rows cols : Nat} {mask : Mask} {cell : Cell}
    (h : withinGrid rows cols mask cell = true) :
    ((chunkKeys rows cols chunkCells).filter (chunkAny rows cols mask)).any fun key =>
      OnLines key 0 chunkCells cell := by
  unfold withinGrid at h
  rw [Bool.and_eq_true, decide_eq_true_eq] at h
  obtain ⟨hcell, hmask⟩ := h
  have hgrid := hcell
  unfold inGrid at hgrid
  have hcells : 0 < chunkCells := by decide
  rw [List.any_eq_true]
  refine ⟨chunkOf chunkCells (cell.1.toNat, cell.2.toNat), ?_, ?_⟩
  · rw [List.mem_filter]
    refine ⟨chunkOf_mem hcells ?_ ?_, ?_⟩
    · dsimp only
      omega
    · dsimp only
      omega
    · unfold chunkAny
      rw [List.any_eq_true]
      refine ⟨cell, mem_gridCells.mpr hcell, ?_⟩
      rw [Bool.and_eq_true, decide_eq_true_eq, chunkBlock_holds hcells]
      refine ⟨⟨?_, ?_, rfl⟩, hmask⟩
      · dsimp only
        omega
      · dsimp only
        omega
  · rw [decide_eq_true_eq]
    unfold OnLines chunkOf chunkCells
    dsimp only
    omega

theorem maskFromChunkBitset_chunkBitsetFromMask (rows cols : Nat) (mask : Mask) :
    maskFromChunkBitset (chunkBitsetFromMask rows cols mask) = withinGrid rows cols mask := by
  funext cell
  refine (foldl_writeWords (by simp) cell).trans ?_
  split
  · rfl
  · rename_i hnone
    exact (Bool.eq_false_iff.mpr fun htrue => hnone (exists_chunk htrue)).symm

/-- A corridor marks the cells that read a changed one, and either representation of a mask gives
the mask back, in runs that are apart. -/
theorem sparseWork_lossless (rows cols : Nat) (C mask : Mask) (offsets : List (Int × Int)) :
    (∀ cell, inGrid rows cols cell → (corridorMask rows cols C offsets cell = true ↔
      ∃ offset ∈ offsets, inGrid rows cols (cell.1 + offset.1, cell.2 + offset.2) ∧
        C (cell.1 + offset.1, cell.2 + offset.2) = true)) ∧
    maskFromRowRuns rows cols (rowRunsFromMask rows cols mask) =
      .ok (withinGrid rows cols mask) ∧
    maskFromChunkBitset (chunkBitsetFromMask rows cols mask) = withinGrid rows cols mask ∧
    (rowRunsFromMask rows cols mask).Pairwise RowRun.apart ∧
    ∀ run ∈ rowRunsFromMask rows cols mask, run.Within rows cols :=
  ⟨fun _ hcell => corridorMask_offsets hcell, maskFromRowRuns_rowRunsFromMask rows cols mask,
    maskFromChunkBitset_chunkBitsetFromMask rows cols mask,
    rowRunsFromMask_apart rows cols mask, fun _ hrun => rowRunsFromMask_within hrun⟩

end Solweig.Sparse
