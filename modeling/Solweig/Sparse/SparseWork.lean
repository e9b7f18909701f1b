import Solweig.Incremental.Rectangles
import Solweig.Json
import Solweig.Lib.Chunks
import Solweig.Sparse.March

/-!
# Sparse work

The cells that each patch of an edit has to march again: those that the edit changed, and those
whose march reads one of them on either scene.
-/

namespace Solweig.Sparse

open Solweig.Lib Solweig.Lib.Chunks

def sparseWorkSchemaVersion : Int := 1

def chunkCells : Nat := 64

def chunkBytes : Nat := chunkCells * 8

def rowRunBytesPerRun : Nat := 12

def identityFields : List String :=
  ["schema_version", "site_id", "tile_key", "cache_manifest_sha256", "patch_geometry_id", "rows",
    "cols", "chunk_checksums_sha256"]

/-! ## Corridor and closure -/

def offsetBefore (a b : Int × Int) : Prop := a.1 < b.1 ∨ a.1 = b.1 ∧ a.2 ≤ b.2

instance : DecidableRel offsetBefore := fun _ _ => inferInstanceAs (Decidable (_ ∨ _))

def normalizeOffsets (offsets : List (Int × Int)) : List (Int × Int) :=
  offsets.dedup.insertionSort offsetBefore

def tableOffsets (table : StepTable) : List (Int × Int) :=
  normalizeOffsets (table.steps.map fun step => (step.dx, step.dy))

def corridorMask (rows cols : Nat) (C : Mask) (offsets : List (Int × Int)) : Mask := fun cell =>
  (normalizeOffsets offsets).any fun offset =>
    decide (max 0 (-offset.1) ≤ cell.1 ∧ cell.1 < rows - max 0 offset.1 ∧
      max 0 (-offset.2) ≤ cell.2 ∧ cell.2 < cols - max 0 offset.2) &&
    C (cell.1 + offset.1, cell.2 + offset.2)

def closureMask (rows cols : Nat) (C : Mask) (offsetsPre offsetsPost : List (Int × Int)) : Mask :=
  fun cell => C cell || corridorMask rows cols C offsetsPre cell ||
    corridorMask rows cols C offsetsPost cell

theorem mem_normalizeOffsets {offsets : List (Int × Int)} {offset : Int × Int} :
    offset ∈ normalizeOffsets offsets ↔ offset ∈ offsets := by
  unfold normalizeOffsets
  rw [List.mem_insertionSort, List.mem_dedup]

theorem mem_tableOffsets {table : StepTable} {offset : Int × Int} :
    offset ∈ tableOffsets table ↔ ∃ step ∈ table.steps, (step.dx, step.dy) = offset := by
  unfold tableOffsets
  rw [mem_normalizeOffsets, List.mem_map]

theorem corridorMask_offsets {rows cols : Nat} {C : Mask} {offsets : List (Int × Int)}
    {cell : Cell} (hcell : inGrid rows cols cell) :
    corridorMask rows cols C offsets cell = true ↔ ∃ offset ∈ offsets,
      inGrid rows cols (cell.1 + offset.1, cell.2 + offset.2) ∧
        C (cell.1 + offset.1, cell.2 + offset.2) = true := by
  unfold corridorMask
  rw [List.any_eq_true]
  simp only [mem_normalizeOffsets, Bool.and_eq_true, decide_eq_true_eq]
  refine exists_congr fun offset => and_congr_right' (and_congr_left' ?_)
  unfold inGrid at hcell ⊢
  dsimp only
  omega

theorem corridorMask_iff {rows cols : Nat} {C : Mask} {table : StepTable} {cell : Cell}
    (hcell : inGrid rows cols cell) : corridorMask rows cols C (tableOffsets table) cell = true ↔
      ∃ step ∈ table.steps, inGrid rows cols (sourceOf cell step) ∧
        C (sourceOf cell step) = true := by
  rw [corridorMask_offsets hcell]
  constructor
  · rintro ⟨offset, hoffset, hreads⟩
    obtain ⟨step, hstep, rfl⟩ := mem_tableOffsets.mp hoffset
    exact ⟨step, hstep, hreads⟩
  · rintro ⟨step, hstep, hreads⟩
    exact ⟨_, mem_tableOffsets.mpr ⟨step, hstep, rfl⟩, hreads⟩

/-! ## Guards -/

inductive Side where
  | pre
  | post
  deriving DecidableEq

inductive FallbackReason where
  | identityFields (label : Side) (missing unknown : List String)
  | identitySchema (label : Side) (value : Json)
  | identityMismatch (name : String)
  | nonzeroBush
  | clampedAmplitude (ampPre ampPost bound absValue smallerAmp : Rat)
  | oneStep (idx : Int) (count : Nat) (label : Side)

inductive BuildError where
  | shapes (pre post : Nat × Nat)
  | tableKeys (pre post : List Int)
  | tableVariant (label : Side) (idx : Int) (variant : KernelVariant)
  | tableShape (label : Side) (idx : Int) (logical shape : Nat × Nat)
  | notAnInteger (value : Json)
  | mask (error : MaskError)
  | fallback (reason : FallbackReason)

def bushGuard (pre post : MarchInputs) : Option FallbackReason :=
  if (gridCells pre.rows pre.cols).any (fun cell => pre.bush cell ≠ 0) ∨
      (gridCells post.rows post.cols).any (fun cell => post.bush cell ≠ 0) then
    some .nonzeroBush
  else none

def clampedAmplitudeChangeGuard (pre post : MarchInputs) : Option FallbackReason :=
  let ampPre := effectiveAmplitude pre
  let ampPost := effectiveAmplitude post
  if ampPre = ampPost then none
  else
    let smaller := if ampPre < ampPost then pre else post
    let bound := sceneRelativeBound smaller
    if bound > smaller.amaxvalue then
      some (.clampedAmplitude ampPre ampPost bound smaller.amaxvalue (min ampPre ampPost))
    else none

def oneStepOf (label : Side) (tables : Dict Int StepTable) : Option FallbackReason :=
  (tables.toList.find? fun entry => entry.2.count ≤ 1).map fun entry =>
    .oneStep entry.1 entry.2.count label

def oneStepRegimeGuard (tablesPre tablesPost : Dict Int StepTable) : Option FallbackReason :=
  (oneStepOf .pre tablesPre).or (oneStepOf .post tablesPost)

/-- The fields of one identity descriptor, then its schema. -/
def descriptorReason (label : Side) (descriptor : Dict String Json) :
    Except BuildError (Option FallbackReason) :=
  let missing := identityFields.filter fun name => !descriptor.contains name
  let unknown := descriptor.keys.filter fun name => !identityFields.contains name
  if missing ≠ [] ∨ unknown ≠ [] then
    .ok (some (.identityFields label (missing.insertionSort (· ≤ ·)) unknown))
  else
    let value := Json.get descriptor "schema_version"
    match value.pyInt with
    | none => .error (.notAnInteger value)
    | some version =>
      if version ≠ sparseWorkSchemaVersion then .ok (some (.identitySchema label value))
      else .ok none

/-- The first field on which two descriptors differ. -/
def mismatchReason (identityPre identityPost : Dict String Json) : Option FallbackReason :=
  (identityFields.find? fun name =>
    !(Json.get identityPre name).pyEq (Json.get identityPost name)).map .identityMismatch

def stateIdentityGuard (identityPre identityPost : Option (Dict String Json)) :
    Except BuildError (Option FallbackReason) := do
  let reasonPre ← (identityPre.map (descriptorReason .pre)).getD (pure none)
  if reasonPre.isSome then pure reasonPre
  else
    let reasonPost ← (identityPost.map (descriptorReason .post)).getD (pure none)
    if reasonPost.isSome then pure reasonPost
    else pure (identityPre.bind fun pre => identityPost.bind fun post => mismatchReason pre post)

/-! ## Representations -/

structure RowRun where
  row : Nat
  c0 : Nat
  c1Inclusive : Nat
  deriving DecidableEq

def RowRun.holds (run : RowRun) (cell : Cell) : Bool :=
  cell.1 = run.row ∧ run.c0 ≤ cell.2 ∧ cell.2 ≤ run.c1Inclusive

/-- One row of a mask. -/
def maskLine (cols : Nat) (mask : Mask) (row : Nat) : List Bool :=
  (List.range cols).map fun col : Nat => mask (row, col)

def rowRunsFromMask (rows cols : Nat) (mask : Mask) : List RowRun :=
  (List.range rows).flatMap fun row =>
    (Incremental.rowRuns (maskLine cols mask row)).map fun span => ⟨row, span.1, span.2 - 1⟩

structure ChunkedBitset where
  rows : Nat
  cols : Nat
  chunkKeys : List (Nat × Nat)
  words : List (List Nat)
  deriving DecidableEq

/-- The word of a row, its first bit lowest. -/
def packBits (bits : List Bool) : Nat := bits.foldr (fun bit word => 2 * word + bit.toNat) 0

def chunkAny (rows cols : Nat) (mask : Mask) (key : Nat × Nat) : Bool :=
  (gridCells rows cols).any fun cell =>
    decide ((chunkBlock rows cols chunkCells key).holds (cell.1.toNat, cell.2.toNat)) && mask cell

def chunkWords (rows cols : Nat) (mask : Mask) (key : Nat × Nat) : List Nat :=
  (List.range chunkCells).map fun k => packBits ((List.range chunkCells).map fun bit =>
    let row := key.1 * chunkCells + k
    let col := key.2 * chunkCells + bit
    row < rows && col < cols && mask (row, col))

def chunkBitsetFromMask (rows cols : Nat) (mask : Mask) : ChunkedBitset :=
  let keys := (chunkKeys rows cols chunkCells).filter (chunkAny rows cols mask)
  ⟨rows, cols, keys, keys.map (chunkWords rows cols mask)⟩

/-! ## The build -/

structure SparseWorkBuild (D : Type) where
  rows : Nat
  cols : Nat
  C : Mask
  rowRuns : Dict Int (List RowRun)
  bitsets : Dict Int ChunkedBitset
  pairCount : Nat
  rowRunCount : Nat
  estimatedBytesRowRuns : Nat
  estimatedBytesBitsets : Nat
  denseEquivalentBytes : Nat
  pairStepsSparse : Nat
  pairStepsDense : Nat
  routeDensePatches : List Int
  emptyWork : Bool
  tableChangedWithEmptyC : Bool
  tableDigestsPre : Dict Int D
  tableDigestsPost : Dict Int D
  masks : Option (Dict Int Mask)

/-- What the build keeps of one patch. -/
structure PatchWork where
  idx : Int
  mask : Mask
  steps : Nat

/-- The mask of one patch: the whole tile where no cell changed, else the closure, if it has
any cell. -/
def workMask (rows cols : Nat) (C : Mask) (emptyWork : Bool) (tablePre tablePost : StepTable) :
    Option Mask :=
  if emptyWork then some fun _ => true
  else
    let D := closureMask rows cols C (tableOffsets tablePre) (tableOffsets tablePost)
    if (gridCells rows cols).any D then some D else none

def patchWorks (rows cols : Nat) (C : Mask) (emptyWork : Bool)
    (tablesPre tablesPost : Dict Int StepTable) : List PatchWork :=
  tablesPre.toList.filterMap fun entry => do
    let tablePost ← tablesPost[entry.1]?
    let mask ← workMask rows cols C emptyWork entry.2 tablePost
    pure ⟨entry.1, mask, tablePost.count⟩

namespace PatchWork

variable (rows cols : Nat) (work : PatchWork)

def cells : Nat := (gridCells rows cols).countP work.mask

def runs : List RowRun := rowRunsFromMask rows cols work.mask

def bitset : ChunkedBitset := chunkBitsetFromMask rows cols work.mask

def routesDense : Bool := rows * cols < 2 * work.cells rows cols

end PatchWork

def tableErrors (label : Side) (shape : Nat × Nat) (entry : Int × StepTable) :
    Except BuildError Unit := do
  let key := entry.2.key
  refuseIf (key.kernelVariant ≠ .svfShadow) (.tableVariant label entry.1 key.kernelVariant)
  refuseIf ((key.logicalRows, key.logicalCols) ≠ shape)
    (.tableShape label entry.1 (key.logicalRows, key.logicalCols) shape)

def validateTables (tablesPre tablesPost : Dict Int StepTable) (shape : Nat × Nat) :
    Except BuildError Unit := do
  refuseIf (tablesPre.keys ≠ tablesPost.keys) (.tableKeys tablesPre.keys tablesPost.keys)
  tablesPre.toList.forM (tableErrors .pre shape)
  tablesPost.toList.forM (tableErrors .post shape)

/-- Refuses for a reason, if there is one. -/
def fallBack (reason : Option FallbackReason) : Except BuildError Unit :=
  match reason with
  | some reason => .error (.fallback reason)
  | none => .ok ()

section Build

variable {D : Type} [DecidableEq D] (digest : List Step → D)

def digests (tables : Dict Int StepTable) : Dict Int D :=
  Dict.ofEntries (tables.toList.map fun entry => (entry.1, digest entry.2.steps))

/-- The build after its guards. -/
def assemble (rows cols : Nat) (C : Mask) (tablesPre tablesPost : Dict Int StepTable)
    (keepMasks : Bool) : SparseWorkBuild D :=
  let digestsPre := digests digest tablesPre
  let digestsPost := digests digest tablesPost
  let tablesIdentical := digestsPre.keys.all fun idx => digestsPre[idx]? = digestsPost[idx]?
  let emptyWork := !(gridCells rows cols).any C
  let works := if emptyWork && tablesIdentical then []
    else patchWorks rows cols C emptyWork tablesPre tablesPost
  let runCount := (works.map fun work => (work.runs rows cols).length).sum
  let chunkTotal := (works.map fun work => (work.bitset rows cols).chunkKeys.length).sum
  { rows := rows
    cols := cols
    C := C
    rowRuns := Dict.ofEntries (works.map fun work => (work.idx, work.runs rows cols))
    bitsets := Dict.ofEntries (works.map fun work => (work.idx, work.bitset rows cols))
    pairCount := (works.map fun work => work.cells rows cols).sum
    rowRunCount := runCount
    estimatedBytesRowRuns := rowRunBytesPerRun * runCount + 4 * works.length
    estimatedBytesBitsets := chunkBytes * chunkTotal + 4 * works.length
    denseEquivalentBytes := works.length * ((rows * cols + 7) / 8)
    pairStepsSparse := (works.map fun work => work.cells rows cols * work.steps).sum
    pairStepsDense := (works.map fun work => rows * cols * work.steps).sum
    routeDensePatches := (works.filter fun work => work.routesDense rows cols).map (·.idx)
    emptyWork := emptyWork && tablesIdentical
    tableChangedWithEmptyC := emptyWork && !tablesIdentical
    tableDigestsPre := digestsPre
    tableDigestsPost := digestsPost
    masks := if keepMasks then some (Dict.ofEntries (works.map fun work => (work.idx, work.mask)))
      else none }

def buildSparseWork (pre post : MarchInputs) (tablesPre tablesPost : Dict Int StepTable)
    (identityPre identityPost : Option (Dict String Json)) (candidateMask : Option Mask)
    (verifyCandidate keepMasks : Bool) : Except BuildError (SparseWorkBuild D) := do
  refuseIf (post.shape ≠ pre.shape) (.shapes pre.shape post.shape)
  validateTables tablesPre tablesPost pre.shape
  let reason ← stateIdentityGuard identityPre identityPost
  fallBack reason
  fallBack (bushGuard pre post)
  fallBack (clampedAmplitudeChangeGuard pre post)
  fallBack (oneStepRegimeGuard tablesPre tablesPost)
  let C ← (composedChangeMask pre post candidateMask verifyCandidate).mapError .mask
  pure (assemble digest pre.rows pre.cols C tablesPre tablesPost keepMasks)

end Build

/-! ## The cells of a work list -/

theorem lt_of_mem_runStops {prev : Bool} {i stop : Nat} {row : List Bool}
    (h : stop ∈ Incremental.runStops prev i row) : i ≤ stop ∧ (prev = false → i < stop) := by
  induction row generalizing prev i with
  | nil =>
    unfold Incremental.runStops at h
    cases prev <;> simp_all
  | cons b row ih =>
    unfold Incremental.runStops at h
    rcases List.mem_append.mp h with h | h
    · cases prev <;> cases b <;> simp_all
    · have hlater := (ih h).1
      exact ⟨by omega, fun _ => by omega⟩

theorem rowRunsFromMask_holds {rows cols : Nat} (mask : Mask) {cell : Cell}
    (hcell : inGrid rows cols cell) :
    ((rowRunsFromMask rows cols mask).any fun run => run.holds cell) = mask cell := by
  obtain ⟨row, col⟩ := cell
  obtain ⟨i, hi, rfl⟩ : ∃ i : Nat, i < rows ∧ row = i :=
    ⟨row.toNat, by unfold inGrid at hcell; omega, by unfold inGrid at hcell; omega⟩
  obtain ⟨j, hj, rfl⟩ : ∃ j : Nat, j < cols ∧ col = j :=
    ⟨col.toNat, by unfold inGrid at hcell; omega, by unfold inGrid at hcell; omega⟩
  have hline : ((maskLine cols mask i)[j]?).getD false = mask ((i : Int), (j : Int)) := by
    unfold maskLine
    simp [hj]
  have htiles := (Incremental.rowRuns_tile (maskLine cols mask i)).holds_iff (k := j)
  rw [hline] at htiles
  rw [Bool.eq_iff_iff, ← htiles, List.any_eq_true]
  unfold rowRunsFromMask RowRun.holds Incremental.inSpan
  simp only [List.mem_flatMap, List.mem_range, List.mem_map, decide_eq_true_eq]
  constructor
  · rintro ⟨_, ⟨row, hrow, span, hspan, rfl⟩, hholds⟩
    dsimp only at hholds
    obtain rfl : row = i := by omega
    have hpos := (lt_of_mem_runStops (List.of_mem_zip hspan).2).2 rfl
    exact ⟨span, hspan, by omega⟩
  · rintro ⟨span, hspan, hholds⟩
    refine ⟨_, ⟨i, hi, span, hspan, rfl⟩, ?_⟩
    dsimp only
    omega

/-- The cells that the work list of a patch has; none where it has no list. -/
def workSet {D : Type} (build : SparseWorkBuild D) (idx : Int) : Mask := fun cell =>
  (build.rowRuns[idx]?).any fun runs => runs.any fun run => run.holds cell

section WorkSet

variable {rows cols : Nat} {C : Mask} {emptyWork : Bool} {tablesPre tablesPost : Dict Int StepTable}
  {idx : Int} {tablePre tablePost : StepTable}

theorem mem_patchWorks (hpre : tablesPre[idx]? = some tablePre)
    (hpost : tablesPost[idx]? = some tablePost) {work : PatchWork} (hidx : work.idx = idx) :
    work ∈ patchWorks rows cols C emptyWork tablesPre tablesPost ↔
      workMask rows cols C emptyWork tablePre tablePost = some work.mask ∧
        tablePost.count = work.steps := by
  subst hidx
  obtain ⟨idx, mask, steps⟩ := work
  unfold patchWorks
  rw [List.mem_filterMap]
  dsimp only at hpre hpost
  constructor
  · rintro ⟨⟨other, table⟩, hentry, hwork⟩
    have htable := Std.ExtTreeMap.mem_toList_iff_getElem?_eq_some.mp hentry
    simp only [Option.bind_eq_bind, Option.bind_eq_some_iff, Option.pure_def, Option.some.injEq,
      PatchWork.mk.injEq] at hwork
    obtain ⟨table', htable', mask', hmask, rfl, rfl, hsteps⟩ := hwork
    rw [hpre] at htable
    rw [hpost] at htable'
    cases htable
    cases htable'
    exact ⟨hmask, hsteps⟩
  · rintro ⟨hmask, hsteps⟩
    refine ⟨(idx, tablePre), Std.ExtTreeMap.mem_toList_iff_getElem?_eq_some.mpr hpre, ?_⟩
    dsimp only at hmask hsteps ⊢
    rw [hpost]
    simp [hmask, hsteps]

theorem rowRuns_patchWorks (hpre : tablesPre[idx]? = some tablePre)
    (hpost : tablesPost[idx]? = some tablePost) :
    (Dict.ofEntries ((patchWorks rows cols C emptyWork tablesPre tablesPost).map fun work =>
        (work.idx, work.runs rows cols)))[idx]? =
      (workMask rows cols C emptyWork tablePre tablePost).map (rowRunsFromMask rows cols) := by
  unfold Dict.ofEntries
  rw [List.foldl_map]
  cases hmask : workMask rows cols C emptyWork tablePre tablePost with
  | some mask =>
    rw [Dict.getElem?_foldl_insert (v := rowRunsFromMask rows cols mask), if_pos]
    · rfl
    · exact ⟨⟨idx, mask, tablePost.count⟩, (mem_patchWorks hpre hpost rfl).mpr ⟨hmask, rfl⟩, rfl⟩
    · intro work hwork hidx
      obtain ⟨hwork, -⟩ := (mem_patchWorks hpre hpost hidx).mp hwork
      rw [hmask] at hwork
      cases hwork
      rfl
  | none =>
    rw [Dict.getElem?_foldl_insert (v := []), if_neg]
    · simp
    · rintro ⟨work, hwork, hidx⟩
      have hwork := ((mem_patchWorks hpre hpost hidx).mp hwork).1
      rw [hmask] at hwork
      cases hwork
    · intro work hwork hidx
      have hwork := ((mem_patchWorks hpre hpost hidx).mp hwork).1
      rw [hmask] at hwork
      cases hwork

end WorkSet

end Solweig.Sparse
