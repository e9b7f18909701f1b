import Solweig.Bits.Codecs
import Solweig.Sparse.SparseMarch

/-!
# The fold of the sky view factors

The sums over the patches of the packed visibility, cell by cell. The rows are split over threads,
and a mask leaves cells at their base.
-/

namespace Solweig.Sparse

open Solweig.Lib Solweig.Lib.Workers
open Solweig.Bits (PackedBits byteAt)

/-! ## One cell -/

/-- `N_PATCHES` -/
def nPatches : Nat := 153

/-- The patches of each ring. -/
def ringPatches : List Nat := [31, 30, 28, 24, 19, 13, 7, 1]

/-- `PATCH_RING` -/
def patchRing : List Nat := ringPatches.zipIdx.flatMap fun ring => List.replicate ring.1 ring.2

/-- `N_ANNULUS` -/
def nAnnulus : List Nat := [12, 12, 12, 12, 12, 12, 12, 6]

inductive Direction where
  | east | south | west | north
  deriving DecidableEq

/-- The arithmetic of the planes, with the frozen tables in it. -/
structure FoldTables (V : Type) where
  zero : V
  one : V
  add : V → V → V
  sub : V → V → V
  mul : V → V → V
  aboveOne : V → Bool
  isZero : V → Bool
  wIso : Nat → Nat → V
  wAniso : Nat → Nat → V
  direction : Direction → Nat → Bool
  lastConst : V
  trans : V

/-- The planes that the fold puts out, over all directions or over one. -/
inductive FoldOutput where
  | svfveg (part : Option Direction)
  | svfaveg (part : Option Direction)
  | svftotal
  deriving DecidableEq

/-- `FOLD_OUTPUT_NAMES` -/
def foldOutputNames : List FoldOutput :=
  [.svfveg none, .svfveg (some .east), .svfveg (some .south), .svfveg (some .west),
    .svfveg (some .north), .svfaveg none, .svfaveg (some .east), .svfaveg (some .south),
    .svfaveg (some .west), .svfaveg (some .north), .svftotal]

theorem mem_foldOutputNames (output : FoldOutput) : output ∈ foldOutputNames := by
  rcases output with (_ | direction) | (_ | direction) | _
  all_goals try cases direction
  all_goals decide

variable {V : Type}

namespace FoldTables

variable (tables : FoldTables V)

/-- One sum, patch by patch and annulus by annulus. -/
def foldSum (bits : Nat → Bool) (part : Option Direction) : V :=
  (List.range nPatches).foldl (fun sum p =>
    let ring := patchRing.getD p 0
    let bit := if bits p then tables.one else tables.zero
    (List.range (nAnnulus.getD ring 0)).foldl (fun sum annulus =>
      match part with
      | none => tables.add sum (tables.mul (tables.wIso ring annulus) bit)
      | some direction =>
        if tables.direction direction p then
          tables.add sum (tables.mul (tables.wAniso ring annulus) bit)
        else sum) sum) tables.zero

/-- The correction of the south and the west. -/
def addLast (vegdem2 : V) (part : Option Direction) (sum : V) : V :=
  if part = some .south ∨ part = some .west then
    tables.add sum (if tables.isZero vegdem2 then tables.lastConst else tables.zero)
  else sum

def clampOne (sum : V) : V := if tables.aboveOne sum then tables.one else sum

def foldCell (veg vbsh : Nat → Bool) (vegdem2 svfBuilding : V) : FoldOutput → V
  | .svfveg part => tables.clampOne (tables.addLast vegdem2 part (tables.foldSum veg part))
  | .svfaveg part => tables.clampOne (tables.addLast vegdem2 part (tables.foldSum vbsh part))
  | .svftotal =>
    let svfveg := tables.clampOne (tables.addLast vegdem2 none (tables.foldSum veg none))
    tables.sub svfBuilding
      (tables.mul (tables.sub tables.one svfveg) (tables.sub tables.one tables.trans))

end FoldTables

/-! ## The fold -/

/-- A raster of values. -/
structure PlaneOf (V : Type) where
  rows : Nat
  cols : Nat
  value : Nat → Nat → V

def PlaneOf.shape (plane : PlaneOf V) : Nat × Nat := (plane.rows, plane.cols)

inductive FoldError where
  | patchCount (patchCount : Nat)
  | packedShapes (veg vbsh : Nat × Nat)
  | planeShape (shape packed : Nat × Nat)
  | missingOutputs (missing : List FoldOutput)
  | chunks (error : ChunkError)
  deriving DecidableEq

/-- A bit of a cell, in little bit order. -/
def packedBit (packed : PackedBits) (i j p : Nat) : Bool :=
  (byteAt (packed.data i j) (p / 8) >>> (p % 8)) &&& 1#8 = 1#8

def checkPlane {W : Type} (plane : PlaneOf W) (shape : Nat × Nat) : Except FoldError Unit :=
  refuseIf (plane.shape ≠ shape) (.planeShape plane.shape shape)

/-- The base planes of a mapping that has them all. -/
def checkOutputs (outputs : Option (FoldOutput → Option (PlaneOf V))) (shape : Nat × Nat) :
    Except FoldError Unit :=
  match outputs with
  | none => .ok ()
  | some outputs => do
    let missing := foldOutputNames.filter fun name => (outputs name).isNone
    refuseIf (missing ≠ []) (.missingOutputs missing)
    foldOutputNames.forM fun name => (outputs name).elim (.ok ()) fun plane => checkPlane plane shape

structure FoldStats where
  nCells : Nat
  maskedCells : Nat
  usedThreads : Nat
  chunks : List (Nat × Nat)
  masked : Bool

abbrev FoldPlanes (V : Type) := FoldOutput × (Nat × Nat) → V

structure SvfFoldResult (V : Type) where
  planes : FoldPlanes V
  stats : FoldStats

/-- Without a mask every cell is folded. -/
def folded (mask : Option (PlaneOf Bool)) (i j : Nat) : Bool := mask.elim true fun m => m.value i j

/-- The cells of a row that are folded. -/
def rowCells (mask : Option (PlaneOf Bool)) (cols i : Nat) : List Nat :=
  (List.range cols).filter fun j => folded mask i j

/-- What the kernel writes of some rows. -/
def foldWrites (mask : Option (PlaneOf Bool)) (rows cols : Nat) (chunk : Nat × Nat) :
    List (FoldOutput × (Nat × Nat)) :=
  (slice (List.range rows) chunk).flatMap fun i => (rowCells mask cols i).flatMap fun j =>
    foldOutputNames.map fun output => (output, i, j)

/-- The values before the fold: the base, or zeros. -/
def foldBase (tables : FoldTables V) (outputs : Option (FoldOutput → Option (PlaneOf V)))
    (key : FoldOutput × (Nat × Nat)) : V :=
  ((outputs.bind fun outputs => outputs key.1).map fun plane =>
    plane.value key.2.1 key.2.2).getD tables.zero

def foldValue (tables : FoldTables V) (veg vbsh : PackedBits) (vegdem2 svfBuilding : PlaneOf V)
    (key : FoldOutput × (Nat × Nat)) : V :=
  tables.foldCell (packedBit veg key.2.1 key.2.2) (packedBit vbsh key.2.1 key.2.2)
    (vegdem2.value key.2.1 key.2.2) (svfBuilding.value key.2.1 key.2.2) key.1

/-- The chunks of rows, by their folded cells. -/
def planRows (rowWork : List Nat) (nThreads minCells : Int) :
    Except ChunkError (List (Nat × Nat)) :=
  if nThreads ≤ 1 ∨ rowWork.length < 2 ∨ (rowWork.sum : Int) < minCells then
    .ok [(0, rowWork.length)]
  else planInt64Chunks (rowWork.map Int.ofNat) nThreads

def foldSvf (tables : FoldTables V) (veg vbsh : PackedBits) (vegdem2 svfBuilding : PlaneOf V)
    (mask : Option (PlaneOf Bool)) (outputs : Option (FoldOutput → Option (PlaneOf V)))
    (nThreads minCells : Int) (schedule : Schedule (FoldOutput × (Nat × Nat))) :
    Except FoldError (SvfFoldResult V) := do
  refuseIf (veg.patchCount ≠ nPatches) (.patchCount veg.patchCount)
  refuseIf (vbsh.patchCount ≠ nPatches) (.patchCount vbsh.patchCount)
  let rows := veg.rows
  let cols := veg.cols
  refuseIf ((vbsh.rows, vbsh.cols) ≠ (rows, cols))
    (.packedShapes (rows, cols) (vbsh.rows, vbsh.cols))
  checkPlane vegdem2 (rows, cols)
  checkPlane svfBuilding (rows, cols)
  mask.elim (.ok ()) fun m => checkPlane m (rows, cols)
  checkOutputs outputs (rows, cols)
  let rowWork := (List.range rows).map fun i => (rowCells mask cols i).length
  let chunks ← (planRows rowWork nThreads minCells).mapError FoldError.chunks
  (verifyChunks chunks rows).mapError FoldError.chunks
  let value := foldValue tables veg vbsh vegdem2 svfBuilding
  let out := foldBase tables outputs
  let writes := foldWrites mask rows cols
  let planes := if chunks.length = 1 then scatter value out (writes (0, rows))
    else scatter value out (schedule.order (chunks.map writes))
  pure
    { planes
      stats := ⟨rows * cols, rowWork.sum, chunks.length, chunks, mask.isSome⟩ }

/-! ## What the threads write -/

section Fold

variable {tables : FoldTables V} {veg vbsh : PackedBits} {vegdem2 svfBuilding : PlaneOf V}
  {mask : Option (PlaneOf Bool)} {outputs : Option (FoldOutput → Option (PlaneOf V))}
  {rows cols : Nat} {nThreads minCells : Int}

/-- Inputs of one shape, with at least one row. -/
structure FoldInputs (veg vbsh : PackedBits) (vegdem2 svfBuilding : PlaneOf V) : Prop where
  vegCount : veg.patchCount = nPatches
  vbshCount : vbsh.patchCount = nPatches
  vbshShape : (vbsh.rows, vbsh.cols) = (veg.rows, veg.cols)
  vegdem2Shape : vegdem2.shape = (veg.rows, veg.cols)
  svfShape : svfBuilding.shape = (veg.rows, veg.cols)
  rowsPos : 0 < veg.rows

/-- No outputs, or all of them in the shape. -/
def ValidOutputs (outputs : Option (FoldOutput → Option (PlaneOf V))) (shape : Nat × Nat) : Prop :=
  ∀ planes ∈ outputs, ∀ output, ∃ plane, planes output = some plane ∧ plane.shape = shape

theorem checkOutputs_ok {shape : Nat × Nat} (h : ValidOutputs outputs shape) :
    checkOutputs outputs shape = .ok () := by
  unfold checkOutputs
  rcases outputs with _ | planes
  · rfl
  · have hplanes := h planes rfl
    dsimp only
    rw [except_bind_ok]
    refine ⟨(), refuseIf_ok.mpr ?_, forM_ok.mpr fun output _ => ?_⟩
    · rw [not_not, List.filter_eq_nil_iff]
      intro output _
      obtain ⟨plane, hplane, -⟩ := hplanes output
      simp [hplane]
    · obtain ⟨plane, hplane, hshape⟩ := hplanes output
      rw [hplane]
      exact refuseIf_ok.mpr (not_not.mpr hshape)

theorem planRows_ok {rowWork : List Nat} (h : 0 < rowWork.length) (nThreads minCells : Int) :
    ∃ chunks, planRows rowWork nThreads minCells = .ok chunks ∧
      Consecutive 0 chunks rowWork.length := by
  unfold planRows
  split
  · exact ⟨_, rfl, .cons h (.nil _)⟩
  · next hparallel =>
    have hlengths : ∀ length ∈ rowWork.map Int.ofNat, 0 ≤ length := by
      intro length hlength
      obtain ⟨n, -, rfl⟩ := List.mem_map.mp hlength
      exact Int.natCast_nonneg n
    obtain ⟨chunks, hchunks, hconsecutive⟩ :=
      planInt64Chunks_consecutive hlengths (show 0 < nThreads by omega)
    rw [List.length_map] at hconsecutive
    exact ⟨chunks, hchunks, hconsecutive⟩

theorem mem_foldWrites (mask : Option (PlaneOf Bool)) {chunks : List (Nat × Nat)}
    (h : Consecutive 0 chunks rows) (output : FoldOutput) {i j : Nat} (hi : i < rows) (hj : j < cols) :
    (output, i, j) ∈ chunks.flatMap (foldWrites mask rows cols) ↔ folded mask i j = true := by
  have hall : chunks.flatMap (foldWrites mask rows cols) = (List.range rows).flatMap fun i =>
      (rowCells mask cols i).flatMap fun j => foldOutputNames.map fun output => (output, i, j) := by
    have hrows : Consecutive 0 chunks (List.range rows).length := by rwa [List.length_range]
    unfold foldWrites
    rw [← List.flatMap_assoc, hrows.flatMap_all]
  rw [hall]
  unfold rowCells
  simp only [List.mem_flatMap, List.mem_map, List.mem_filter, List.mem_range, Prod.mk.injEq]
  constructor
  · rintro ⟨_, -, _, ⟨-, hfolded⟩, _, -, -, rfl, rfl⟩
    exact hfolded
  · intro hfolded
    exact ⟨i, hi, j, ⟨hj, hfolded⟩, output, mem_foldOutputNames output, rfl, rfl, rfl⟩

theorem foldPlanes_apply {writes : Nat × Nat → List (FoldOutput × (Nat × Nat))}
    (value out : FoldPlanes V) (schedule : Schedule (FoldOutput × (Nat × Nat)))
    {chunks : List (Nat × Nat)} (h : Consecutive 0 chunks rows)
    {planes : FoldPlanes V} (hplanes : planes =
      if chunks.length = 1 then scatter value out (writes (0, rows))
      else scatter value out (schedule.order (chunks.map writes)))
    (key : FoldOutput × (Nat × Nat)) :
    (key ∈ chunks.flatMap writes → planes key = value key) ∧
      (key ∉ chunks.flatMap writes → planes key = out key) := by
  rw [hplanes]
  split
  · next hone =>
    obtain ⟨chunk, rfl⟩ := List.length_eq_one_iff.mp hone
    cases h with
    | cons hlt hrest =>
      cases hrest
      rw [List.flatMap_cons, List.flatMap_nil, List.append_nil]
      exact scatter_apply value out _ key
  · rw [List.flatMap_def]
    exact scatter_schedule schedule value out _ key

variable (tables mask outputs) in
theorem foldSvf_ok (h : FoldInputs veg vbsh vegdem2 svfBuilding)
    (hmask : ∀ m ∈ mask, m.shape = (veg.rows, veg.cols))
    (houtputs : ValidOutputs outputs (veg.rows, veg.cols)) (nThreads minCells : Int)
    (schedule : Schedule (FoldOutput × (Nat × Nat))) :
    ∃ result, foldSvf tables veg vbsh vegdem2 svfBuilding mask outputs nThreads minCells schedule =
        .ok result ∧
      ∀ output, ∀ i < veg.rows, ∀ j < veg.cols, result.planes (output, i, j) =
        if folded mask i j then foldValue tables veg vbsh vegdem2 svfBuilding (output, i, j)
        else foldBase tables outputs (output, i, j) := by
  have hwork : ((List.range veg.rows).map fun i => (rowCells mask veg.cols i).length).length =
      veg.rows := by simp
  obtain ⟨chunks, hchunks, hconsecutive⟩ :=
    planRows_ok (hwork.symm ▸ h.rowsPos) nThreads minCells
  rw [hwork] at hconsecutive
  have hmaskOk : mask.elim (.ok ()) (fun m => checkPlane m (veg.rows, veg.cols)) = .ok () := by
    rcases mask with _ | m
    · rfl
    · exact refuseIf_ok.mpr (not_not.mpr (hmask m rfl))
  obtain ⟨result, hresult, hplanes⟩ : ∃ result,
      foldSvf tables veg vbsh vegdem2 svfBuilding mask outputs nThreads minCells schedule =
          .ok result ∧
        result.planes = if chunks.length = 1 then
          scatter (foldValue tables veg vbsh vegdem2 svfBuilding) (foldBase tables outputs)
            (foldWrites mask veg.rows veg.cols (0, veg.rows))
        else scatter (foldValue tables veg vbsh vegdem2 svfBuilding) (foldBase tables outputs)
          (schedule.order (chunks.map (foldWrites mask veg.rows veg.cols))) := by
    unfold foldSvf
    simp only [except_bind_ok]
    exact ⟨_, ⟨(), refuseIf_ok.mpr (not_not.mpr h.vegCount), (),
      refuseIf_ok.mpr (not_not.mpr h.vbshCount), (), refuseIf_ok.mpr (not_not.mpr h.vbshShape), (),
      refuseIf_ok.mpr (not_not.mpr h.vegdem2Shape), (), refuseIf_ok.mpr (not_not.mpr h.svfShape), (),
      hmaskOk, (), checkOutputs_ok houtputs, chunks, except_mapError_ok.mpr hchunks, (),
      except_mapError_ok.mpr (verifyChunks_ok.mpr hconsecutive), rfl⟩, rfl⟩
  refine ⟨result, hresult, fun output i hi j hj => ?_⟩
  have hwritten := foldPlanes_apply _ _ schedule hconsecutive hplanes (output, i, j)
  have hmem := mem_foldWrites mask hconsecutive output hi hj
  split
  · next hfolded => exact hwritten.1 (hmem.mpr hfolded)
  · next hmasked => exact hwritten.2 fun hin => hmasked (hmem.mp hin)

theorem foldInputs_of_ok {result : SvfFoldResult V}
    {schedule : Schedule (FoldOutput × (Nat × Nat))}
    (h : foldSvf tables veg vbsh vegdem2 svfBuilding mask outputs nThreads minCells schedule =
      .ok result) : FoldInputs veg vbsh vegdem2 svfBuilding := by
  unfold foldSvf checkPlane at h
  simp only [except_bind_ok, refuseIf_ok, not_not, except_mapError_ok] at h
  obtain ⟨_, hveg, _, hvbsh, _, hshape, _, hvegdem2, _, hsvf, _, -, _, -, chunks, hchunks, _,
    hverify, -⟩ := h
  refine ⟨hveg, hvbsh, hshape, hvegdem2, hsvf, ?_⟩
  by_contra hrows
  have hzero : veg.rows = 0 := by omega
  -- the serial plan of no rows is one empty chunk, which is refused
  have hwork : ((List.range veg.rows).map fun i => (rowCells mask veg.cols i).length).length <
      2 := by simp [hzero]
  unfold planRows at hchunks
  rw [if_pos (Or.inr (Or.inl hwork))] at hchunks
  cases hchunks
  have hconsecutive := verifyChunks_ok.mp hverify
  cases hconsecutive with
  | cons hlt _ => simp [hzero] at hlt

end Fold

/-! ## Sparse and dense -/

/-- A plan of some threads over `np.int64` lengths holds each index once and is never refused;
without a thread it is empty. Whatever the arithmetic, the threads, the threshold and the order of
the writes are, the sparse marches and the masked fold have the dense values where they work, and the
base elsewhere. At exact values the suffix exit of the dense march may differ. -/
theorem threaded_agree_with_dense :
    (∀ (runLengths : List Int) (nThreads : Int), (∀ length ∈ runLengths, 0 ≤ length) →
      ((∀ length ∈ runLengths, FitsInt64 length) →
        (0 < nThreads → ∃ chunks, planChunks runLengths nThreads = .ok chunks ∧
          (∀ chunk ∈ chunks, chunk.1 < chunk.2) ∧
          chunks.flatMap (fun chunk => List.range' chunk.1 (chunk.2 - chunk.1)) =
            List.range runLengths.length ∧
          verifyChunks chunks runLengths.length = .ok ()) ∧
        (nThreads ≤ 0 → planChunks runLengths nThreads = .ok [])) ∧
      ((∃ length ∈ runLengths, ¬ FitsInt64 length) →
        planChunks runLengths nThreads = .error .overflow)) ∧
    (∀ (F : Type) (ar : Arithmetic F) (planes : MarchPlanes F) (runs : List RawRun)
      (base : Option (List (BasePlane F))) (nThreads minPairs : Int) (suffixExit : Bool)
      (schedule : Schedule (PlaneWrite F)) (table : FloatTable F) (dense : Cell → CellOutputs F),
      WorkDomain planes → (∀ run ∈ runs, ValidRun planes.rows planes.cols run) →
      ValidBase base (planes.rows, planes.cols) →
      (denseSvfShadow ar table planes suffixExit = .ok dense →
        ∃ result, marchSvfShadowSparse ar planes runs nThreads base minPairs suffixExit schedule
            table = .ok result ∧ DenseOnRuns ar dense runs base result.planes) ∧
      (denseWallheight23 ar table planes suffixExit = .ok dense →
        ∃ result, marchWallheight23Sparse ar planes runs nThreads base minPairs suffixExit schedule
            table = .ok result ∧ DenseOnRuns ar dense runs base result.planes)) ∧
    (∀ (scene : MarchInputs) (runs : List RawRun) (base : Option (List (BasePlane Rat)))
      (nThreads minPairs : Int) (suffixExit denseExit : Bool) (schedule : Schedule (PlaneWrite Rat))
      (dense : Cell → MarchOutputs),
      WorkDomain scene.planes → (∀ run ∈ runs, ValidRun scene.rows scene.cols run) →
      ValidBase base scene.shape →
      (∀ table, marchSvfShadow table scene denseExit = .ok dense →
        ∃ result, marchSvfShadowSparse exact scene.planes runs nThreads base minPairs suffixExit
            schedule table.columns = .ok result ∧
          DenseOnRuns exact (fun cell => (dense cell).outputs) runs base result.planes) ∧
      ∀ table, marchWallheight23 table scene denseExit = .ok dense →
        ∃ result, marchWallheight23Sparse exact scene.planes runs nThreads base minPairs suffixExit
            schedule table.columns = .ok result ∧
          DenseOnRuns exact (fun cell => (dense cell).outputs) runs base result.planes) ∧
    ∀ (V : Type) (tables : FoldTables V) (veg vbsh : PackedBits) (vegdem2 svfBuilding : PlaneOf V)
      (mask : PlaneOf Bool) (outputs : Option (FoldOutput → Option (PlaneOf V)))
      (nThreads nThreads' minCells minCells' : Int)
      (schedule schedule' : Schedule (FoldOutput × (Nat × Nat))) (full : SvfFoldResult V),
      foldSvf tables veg vbsh vegdem2 svfBuilding none none nThreads' minCells' schedule' =
        .ok full →
      mask.shape = (veg.rows, veg.cols) → ValidOutputs outputs (veg.rows, veg.cols) →
      ∃ result, foldSvf tables veg vbsh vegdem2 svfBuilding (some mask) outputs nThreads minCells
          schedule = .ok result ∧
        ∀ output, ∀ i < veg.rows, ∀ j < veg.cols, result.planes (output, i, j) =
          if mask.value i j then full.planes (output, i, j)
          else foldBase tables outputs (output, i, j) := by
  refine ⟨?_, ?_, ?_, ?_⟩
  · refine fun runLengths nThreads hlengths => ⟨fun hfits => ?_, planChunks_overflow⟩
    rw [planChunks_fits hfits]
    refine ⟨fun hthreads => ?_, planInt64Chunks_nil hlengths⟩
    obtain ⟨chunks, hchunks, hconsecutive⟩ := planInt64Chunks_consecutive hlengths hthreads
    refine ⟨chunks, hchunks, hconsecutive.lt, ?_, verifyChunks_ok.mpr hconsecutive⟩
    rw [hconsecutive.flatMap_range', List.range_eq_range', Nat.sub_zero]
  · intro F ar planes runs base nThreads minPairs suffixExit schedule table dense hdomain hruns hbase
    refine ⟨fun hdense => ?_, fun hdense => ?_⟩
    · exact marchSvfShadowSparse_ok nThreads minPairs schedule hdense hdomain hruns hbase
    · exact marchWallheight23Sparse_ok nThreads minPairs schedule hdense hdomain hruns hbase
  · intro scene runs base nThreads minPairs suffixExit denseExit schedule dense hdomain hruns hbase
    refine ⟨fun table hdense => ?_, fun table hdense => ?_⟩
    · have hexact := denseSvfShadow_exact table scene suffixExit
      rw [marchSvfShadow_exit, ← marchSvfShadow_exit table scene denseExit, hdense] at hexact
      exact marchSvfShadowSparse_ok nThreads minPairs schedule hexact hdomain hruns hbase
    · have hexact := denseWallheight23_exact table scene suffixExit
      rw [marchWallheight23_exit, ← marchWallheight23_exit table scene denseExit, hdense] at hexact
      exact marchWallheight23Sparse_ok nThreads minPairs schedule hexact hdomain hruns hbase
  · intro V tables veg vbsh vegdem2 svfBuilding mask outputs nThreads nThreads' minCells minCells'
      schedule schedule' full hfull hmask houtputs
    have hinputs := foldInputs_of_ok hfull
    obtain ⟨full', hfull', hvalues⟩ := foldSvf_ok tables none none hinputs nofun nofun
      nThreads' minCells' schedule'
    rw [hfull, Except.ok.injEq] at hfull'
    obtain ⟨result, hresult, hplanes⟩ := foldSvf_ok tables (some mask) outputs hinputs
      (by simpa using hmask) houtputs nThreads minCells schedule
    refine ⟨result, hresult, fun output i hi j hj => ?_⟩
    rw [hplanes output i hi j hj, hfull', hvalues output i hi j hj]
    rfl

/-- A wall at the west end of a row. -/
def wallRow : MarchInputs where
  rows := 1
  cols := 3
  a := fun cell => if cell = (0, 0) then 5 else 0
  canopy := fun _ => 0
  dem := fun _ => 0
  vegdem := fun _ => 0
  vegdem2 := fun _ => 0
  bush := fun _ => 0
  vegdsm := fun _ => 0
  vegdsm2 := fun _ => 0
  amaxvalue := 5

def westward : StepTable := ⟨⟨.svfShadow, 1, 3⟩, [⟨0, -1, 1⟩, ⟨0, -2, 2⟩]⟩

def wholeTables : FoldTables Int where
  zero := 0
  one := 1
  add := (· + ·)
  sub := (· - ·)
  mul := (· * ·)
  aboveOne := fun sum => decide (1 < sum)
  isZero := fun x => decide (x = 0)
  wIso := fun _ _ => 1
  wAniso := fun _ _ => 1
  direction := fun direction _ => decide (direction = .east)
  lastConst := 1
  trans := 0

/-- Two rows that see the whole sky. -/
def openSky : PackedBits where
  rows := 2
  cols := 1
  patchCount := 153
  data := fun _ _ => List.replicate 20 255#8
  positive := by decide
  fits := fun _ _ => rfl

def flatPlane : PlaneOf Int := ⟨2, 1, fun _ _ => 0⟩

def upperRow : PlaneOf Bool := ⟨2, 1, fun i _ => decide (i = 0)⟩

/-- Integers with one that is no number. -/
def intsWithNan : Arithmetic (Option Int) where
  zero := some 0
  one := some 1
  four := some 4
  big := some 1000
  add := fun x y => x.bind fun a => y.map (a + ·)
  sub := fun x y => x.bind fun a => y.map (a - ·)
  mul := fun x y => x.bind fun a => y.map (a * ·)
  lt := fun x y => (x.bind fun a => y.map fun b => decide (a < b)).getD false
  le := fun x y => (x.bind fun a => y.map fun b => decide (a ≤ b)).getD false
  beq := fun x y => (x.bind fun a => y.map fun b => decide (a = b)).getD false

/-- The row with its second cell unknown. -/
def unknownCell : MarchPlanes (Option Int) where
  rows := 1
  cols := 3
  a := fun cell => if cell = (0, 0) then some 5 else if cell = (0, 1) then none else some 0
  vegdem := fun _ => some 0
  vegdem2 := fun _ => some 0
  bush := fun _ => some 0

def unknownWest : FloatTable (Option Int) :=
  ⟨⟨.svfShadow, 1, 3⟩, [⟨0, -1, some 1, some 0⟩, ⟨0, -2, some 2, some 0⟩]⟩

def sevens : List (BasePlane (Option Int)) := List.replicate 3 ⟨1, 3, fun _ => some 7⟩

/-- Two threads over lengths whose sum wraps, two over the runs of a row whose unknown cell turns the
suffix exit off, two over those of a row of exact values, and two over the rows of a mask. -/
theorem small_work_agrees :
    (∃ chunks, planChunks [2 ^ 62, 0, 2 ^ 62] 2 = .ok chunks ∧ verifyChunks chunks 3 = .ok ()) ∧
      planChunks [5, 2 ^ 63] 2 = .error .overflow ∧
      (∃ result, marchSvfShadowSparse intsWithNan unknownCell [(0, 1, 1), (0, 1, 2)] 4 (some sevens)
          0 true .backwards unknownWest = .ok result ∧
        DenseOnRuns intsWithNan
          (fun cell => denseSvfCell intsWithNan unknownCell cell false unknownWest.steps)
          [(0, 1, 1), (0, 1, 2)] (some sevens) result.planes) ∧
      (∃ result, marchSvfShadowSparse exact wallRow.planes [(0, 1, 1), (0, 1, 2)] 4 none 0 true
          .backwards westward.columns = .ok result ∧
        DenseOnRuns exact (fun cell => (svfShadowKernel false wallRow westward.steps cell).outputs)
          [(0, 1, 1), (0, 1, 2)] none result.planes) ∧
      ∃ full result, foldSvf wholeTables openSky openSky flatPlane flatPlane none none 1 0
          .inTurn = .ok full ∧
        foldSvf wholeTables openSky openSky flatPlane flatPlane (some upperRow) none 2 0
          .backwards = .ok result ∧
        ∀ output, ∀ i < 2, ∀ j < 1, result.planes (output, i, j) =
          if upperRow.value i j then full.planes (output, i, j) else 0 := by
  obtain ⟨hplan, hmarch, hexact, hfold⟩ := threaded_agree_with_dense
  refine ⟨?_, ?_, ?_, ?_, ?_⟩
  · obtain ⟨chunks, hchunks, -, -, hverify⟩ :=
      ((hplan [2 ^ 62, 0, 2 ^ 62] 2 (by decide)).1 (by decide)).1 (by decide)
    exact ⟨chunks, hchunks, hverify⟩
  · exact (hplan [5, 2 ^ 63] 2 (by decide)).2 (by decide)
  · exact (hmarch (Option Int) intsWithNan unknownCell [(0, 1, 1), (0, 1, 2)] (some sevens) 4 0 true
      .backwards unknownWest _ ⟨by decide, by decide, by decide, by decide⟩ (by decide)
      (by rintro _ ⟨⟩; exact ⟨rfl, by decide⟩)).1 rfl
  · exact (hexact wallRow [(0, 1, 1), (0, 1, 2)] none 4 0 true false .backwards _
      ⟨by decide, by decide, by decide, by decide⟩ (by decide) nofun).1 westward rfl
  · obtain ⟨full, hfull⟩ : ∃ full, foldSvf wholeTables openSky openSky flatPlane flatPlane none
        none 1 0 .inTurn = .ok full := except_of_isOk (by decide)
    obtain ⟨result, hresult, hplanes⟩ := hfold Int wholeTables openSky openSky flatPlane flatPlane
      upperRow none 2 1 0 0 .backwards .inTurn full hfull rfl nofun
    exact ⟨full, result, hfull, hresult, hplanes⟩

/-- Without a thread no range owns the index. -/
theorem planChunks_without_threads :
    ¬ ∀ (runLengths : List Int) (nThreads : Int), (∀ length ∈ runLengths, 0 ≤ length) →
      ∃ chunks, planChunks runLengths nThreads = .ok chunks ∧
        (∀ chunk ∈ chunks, chunk.1 < chunk.2) ∧
        chunks.flatMap (fun chunk => List.range' chunk.1 (chunk.2 - chunk.1)) =
          List.range runLengths.length ∧
        verifyChunks chunks runLengths.length = .ok () := by
  intro hall
  obtain ⟨chunks, hchunks, -, hrange, -⟩ := hall [1] 0 (by decide)
  have hnil : planChunks [1] 0 = .ok [] := by decide
  rw [hnil, Except.ok.injEq] at hchunks
  rw [← hchunks] at hrange
  exact absurd hrange (by decide)

end Solweig.Sparse
