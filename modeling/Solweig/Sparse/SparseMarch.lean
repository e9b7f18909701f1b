import Mathlib.Data.Int.Range
import Solweig.Lib.Workers
import Solweig.Sparse.FloatMarch
import Solweig.Sparse.SparseWork

/-!
# The sparse march

The marches over a list of row runs, in any arithmetic. The runs are split over threads as
consecutive chunks of about the same number of cells, and what no run holds keeps the values of the
base.
-/

namespace Solweig.Sparse

open Solweig.Lib Solweig.Lib.Workers

/-! ## Chunks -/

inductive ChunkError where
  | overflow
  | negativeLength
  | notExact (chunk : Nat × Nat) (runs : Nat)
  | notCovered (runs : Nat)
  deriving DecidableEq

/-- What `np.int64` holds. -/
def FitsInt64 (x : Int) : Prop := -2 ^ 63 ≤ x ∧ x < 2 ^ 63

instance : DecidablePred FitsInt64 := fun _ => inferInstanceAs (Decidable (_ ∧ _))

/-- The sum of two `np.int64`, which wraps. -/
def addInt64 (a b : Int) : Int := (a + b).bmod (2 ^ 64)

/-- The search of `np.searchsorted`, which halves what is left. -/
def bisectLeft (cum : List Int) (target : Int) : Nat → Nat → Nat → Nat
  | 0, lo, _ => lo
  | fuel + 1, lo, hi =>
    if lo < hi then
      let mid := lo + (hi - lo) / 2
      if cum.getD mid 0 < target then bisectLeft cum target fuel (mid + 1) hi
      else bisectLeft cum target fuel lo mid
    else lo

/-- `np.searchsorted(cum, target, side="left")` -/
def searchsorted (cum : List Int) (target : Int) : Nat :=
  bisectLeft cum target cum.length 0 cum.length

/-- The runs of each worker, by shares of the total length. The lengths are `np.int64`. -/
def planInt64Chunks (lengths : List Int) (nThreads : Int) : Except ChunkError (List (Nat × Nat)) := do
  refuseIf (lengths.any (· < 0)) .negativeLength
  let nRuns := lengths.length
  if nRuns = 0 ∨ nThreads ≤ 0 then pure []
  else
    -- work without any cell is shared by its number of runs
    let shared := lengths.foldl addInt64 0 ≤ 0
    let total := if shared then (nRuns : Int) else lengths.foldl addInt64 0
    let cum := (if shared then List.replicate nRuns 1 else lengths).scanl addInt64 0
    let nWorkers := min nThreads.toNat nRuns
    let cut := fun k : Nat =>
      if k + 1 = nWorkers then nRuns else searchsorted cum ((k + 1) * total / nWorkers)
    pure (((List.range nWorkers).map cut).foldl (cutStep nRuns) ([], 0)).1

/-- `plan_chunks` of any integers -/
def planChunks (runLengths : List Int) (nThreads : Int) : Except ChunkError (List (Nat × Nat)) := do
  refuseIf (runLengths.any fun length => ¬ FitsInt64 length) .overflow
  planInt64Chunks runLengths nThreads

def verifyChunks (chunks : List (Nat × Nat)) (nRuns : Nat) : Except ChunkError Unit := do
  let expected ← chunks.foldlM (fun (expected : Nat) chunk => do
    refuseIf (¬ (chunk.1 = expected ∧ chunk.2 > chunk.1 ∧ chunk.2 ≤ nRuns)) (.notExact chunk nRuns)
    pure chunk.2) 0
  refuseIf (expected ≠ nRuns) (.notCovered nRuns)

section Chunks

variable {runLengths : List Int} {nThreads : Int} {chunks : List (Nat × Nat)} {nRuns : Nat}

theorem noNegative (hlengths : ∀ length ∈ runLengths, 0 ≤ length) :
    ¬ (runLengths.any (· < 0)) = true := by
  rw [List.any_eq_true]
  rintro ⟨length, hmem, hneg⟩
  have := hlengths length hmem
  simp only [decide_eq_true_eq] at hneg
  omega

theorem planInt64Chunks_nil (hlengths : ∀ length ∈ runLengths, 0 ≤ length) (hthreads : nThreads ≤ 0) :
    planInt64Chunks runLengths nThreads = .ok [] := by
  unfold planInt64Chunks
  simp only [except_bind_ok]
  refine ⟨(), refuseIf_ok.mpr (noNegative hlengths), ?_⟩
  rw [if_pos (Or.inr hthreads)]
  rfl

/-- Every plan of some threads holds each index once, whatever the lengths are and whether or not
their sums wrap. -/
theorem planInt64Chunks_consecutive (hlengths : ∀ length ∈ runLengths, 0 ≤ length)
    (hthreads : 0 < nThreads) : ∃ chunks, planInt64Chunks runLengths nThreads = .ok chunks ∧
      Consecutive 0 chunks runLengths.length := by
  unfold planInt64Chunks
  simp only [except_bind_ok]
  have hcheck := noNegative hlengths
  by_cases hnil : runLengths.length = 0
  · refine ⟨[], ⟨(), refuseIf_ok.mpr hcheck, ?_⟩, ?_⟩
    · rw [if_pos (Or.inl hnil)]
      rfl
    · rw [hnil]
      exact .nil 0
  · refine ⟨_, ⟨(), refuseIf_ok.mpr hcheck, by rw [if_neg (by omega)]; rfl⟩, ?_⟩
    obtain ⟨workers, hworkers⟩ : ∃ workers, min nThreads.toNat runLengths.length = workers + 1 :=
      ⟨min nThreads.toNat runLengths.length - 1, by omega⟩
    -- the last worker's range ends with the runs
    simp only [hworkers, List.range_succ, List.map_append, List.map_singleton, if_true]
    exact cuts_consecutive _ _

theorem planChunks_fits (hfits : ∀ length ∈ runLengths, FitsInt64 length) :
    planChunks runLengths nThreads = planInt64Chunks runLengths nThreads := by
  unfold planChunks
  rw [refuseIf_false]
  · rfl
  · simpa using hfits

theorem planChunks_overflow (h : ∃ length ∈ runLengths, ¬ FitsInt64 length) :
    planChunks runLengths nThreads = .error .overflow := by
  unfold planChunks refuseIf
  rw [if_pos]
  · rfl
  · simpa using h

theorem verifyChunks_ok : verifyChunks chunks nRuns = .ok () ↔ Consecutive 0 chunks nRuns := by
  have hloop (lo hi : Nat) (hhi : hi ≤ nRuns) :
      chunks.foldlM (fun (expected : Nat) chunk => do
        refuseIf (¬ (chunk.1 = expected ∧ chunk.2 > chunk.1 ∧ chunk.2 ≤ nRuns))
          (ChunkError.notExact chunk nRuns)
        pure chunk.2) lo = .ok hi ↔ Consecutive lo chunks hi := by
    induction chunks generalizing lo with
    | nil =>
      simp only [List.foldlM_nil, pure, Except.pure, Except.ok.injEq]
      constructor
      · rintro rfl
        exact .nil lo
      · rintro ⟨⟩
        rfl
    | cons chunk chunks ih =>
      simp only [foldlM_cons_ok, except_bind_ok, refuseIf_ok, not_not, pure, Except.pure,
        Except.ok.injEq]
      constructor
      · rintro ⟨mid, ⟨-, ⟨hlo, hlt, -⟩, rfl⟩, hrest⟩
        obtain ⟨first, last⟩ := chunk
        dsimp only at hlo hlt hrest
        subst hlo
        exact .cons hlt ((ih last).mp hrest)
      · intro h
        cases h with
        | cons hlt hrest =>
          have hle := hrest.le
          exact ⟨_, ⟨(), ⟨rfl, hlt, by dsimp only; omega⟩, rfl⟩, (ih _).mpr hrest⟩
  unfold verifyChunks
  simp only [except_bind_ok, refuseIf_ok, not_not]
  constructor
  · rintro ⟨expected, hfold, rfl⟩
    exact (hloop 0 expected (Nat.le_refl _)).mp hfold
  · exact fun h => ⟨nRuns, (hloop 0 nRuns (Nat.le_refl _)).mpr h, rfl⟩

end Chunks

/-! ## Work lists -/

def int32Max : Int := 2 ^ 31 - 1

/-- `_INT32_ADDRESS_LIMIT` -/
def int32AddressLimit : Nat := 2 ^ 31 - 2

inductive SparseError where
  | march (error : MarchError)
  | domainPositive (rows cols : Nat)
  | domainLimit (rows cols : Nat)
  | runCoordinates
  | runInverted (c0 c1 : Int)
  | runRow (row : Int) (rows : Nat)
  | runCol (col : Int) (cols : Nat)
  | baseCount (planes : Nat)
  | baseShape (shape plane : Nat × Nat)
  | chunks (error : ChunkError)
  deriving DecidableEq

/-- A row, its first column and its last. -/
abbrev RawRun := Int × Int × Int

/-- The first run that is refused. -/
def checkRuns (runs : List RawRun) (bad : RawRun → Bool) (error : RawRun → SparseError) :
    Except SparseError Unit :=
  match runs.find? bad with
  | none => .ok ()
  | some run => .error (error run)

/-- `_as_runs` -/
def asRuns (runs : List RawRun) : Except SparseError Unit := do
  checkRuns runs (fun run => [run.1, run.2.1, run.2.2].any fun x => x < 0 ∨ int32Max < x)
    fun _ => .runCoordinates
  checkRuns runs (fun run => run.2.1 > run.2.2) fun run => .runInverted run.2.1 run.2.2

def validateRunsAgainstPlane (runs : List RawRun) (rows cols : Nat) : Except SparseError Unit := do
  checkRuns runs (fun run => (rows : Int) ≤ run.1) fun run => .runRow run.1 rows
  checkRuns runs (fun run => (cols : Int) ≤ run.2.2) fun run => .runCol run.2.2 cols

def checkWorkDomain (rows cols : Nat) : Except SparseError Unit := do
  refuseIf (rows < 1 ∨ cols < 1) (.domainPositive rows cols)
  refuseIf (rows > int32AddressLimit ∨ cols > int32AddressLimit) (.domainLimit rows cols)

structure SparseMarchPlan where
  pairCount : Int
  nRuns : Nat
  usedThreads : Nat
  chunks : List (Nat × Nat)
  deriving DecidableEq

def runLength (run : RawRun) : Int := run.2.2 - run.2.1 + 1

/-- Serial below the threshold, else split over the threads. -/
def planSparseMarch (runs : List RawRun) (nThreads minPairs : Int) :
    Except SparseError SparseMarchPlan := do
  asRuns runs
  let nRuns := runs.length
  let lengths := runs.map runLength
  let pairCount := lengths.foldl addInt64 0
  if nThreads ≤ 1 ∨ nRuns = 0 ∨ pairCount < minPairs then
    pure ⟨pairCount, nRuns, 1, if nRuns = 0 then [] else [(0, nRuns)]⟩
  else do
    let chunks ← (planInt64Chunks lengths nThreads).mapError SparseError.chunks
    pure ⟨pairCount, nRuns, chunks.length, chunks⟩

/-! ## The run kernels -/

inductive OutputPlane where
  | sh | vegsh | vbshvegsh
  deriving DecidableEq

variable {F : Type}

def CellOutputs.plane (outputs : CellOutputs F) : OutputPlane → F
  | .sh => outputs.sh
  | .vegsh => outputs.vegsh
  | .vbshvegsh => outputs.vbsh

/-- A cell of an output plane with the value that is written there. -/
abbrev PlaneWrite (F : Type) := (OutputPlane × Cell) × F

/-- What is written of a cell. -/
def cellWrites (cell : Cell) (sh vegsh vbsh : F) : List (PlaneWrite F) :=
  [((.sh, cell), sh), ((.vegsh, cell), vegsh), ((.vbshvegsh, cell), vbsh)]

/-- The cells of a run, from left to right. -/
def runCells (run : RawRun) : List Cell := (Int.range run.2.1 (run.2.2 + 1)).map fun j => (run.1, j)

/-- The loop over the runs of a chunk, which ends where the generation is not the expected one. -/
def overRuns (gen expectGen : Int) (body : Cell → List (PlaneWrite F)) :
    List RawRun → List (PlaneWrite F)
  | [] => []
  | run :: runs =>
    if gen ≠ expectGen then []
    else (runCells run).flatMap body ++ overRuns gen expectGen body runs

section Kernels

variable (ar : Arithmetic F) (planes : MarchPlanes F) (allowExit : Bool)

/-- The final graph, the same in both run kernels. -/
def runsFinal (cell : Cell) (v : CellValues F) : List (PlaneWrite F) :=
  let sh := ar.sub ar.one v.sh
  let vbsh := if ar.lt ar.zero v.vbsh then ar.one else v.vbsh
  let vbsh := ar.sub vbsh v.vegsh
  let vegsh := if ar.lt ar.zero v.vegsh then ar.one else v.vegsh
  let vegsh := ar.sub ar.one vegsh
  let vbsh := ar.sub ar.one vbsh
  cellWrites cell sh vegsh vbsh

/-- The steps of a cell, up to the break. -/
def runsLoop {α : Type} (step : CellValues F → α → CellValues F) (cell : Cell) :
    List α → CellValues F → List (PlaneWrite F)
  | [], v => runsFinal ar cell v
  | item :: items, v =>
    let v := step v item
    if allowExit && ar.beq v.sh ar.one && ar.beq v.vegsh ar.zero then runsFinal ar cell v
    else runsLoop step cell items v

/-- One step of `_svf_shadow_runs_kernel` -/
def svfRunsStep (cell : Cell) (v : CellValues F) (item : TableStep F × Nat) : CellValues F :=
  let (step, s) := item
  let (i, j) := cell
  let a_t := planes.a (i, j)
  let dz := step.dz
  let si := i + step.dx
  let sj := j + step.dy
  let inside := decide (0 ≤ si ∧ si < planes.rows ∧ 0 ≤ sj ∧ sj < planes.cols)
  let tv := if inside then ar.sub (planes.vegdem (si, sj)) dz else ar.zero
  let tv2 := if inside then ar.sub (planes.vegdem2 (si, sj)) dz else ar.zero
  let ta := if inside then ar.sub (planes.a (si, sj)) dz else ar.zero
  let f := ar.torchMaximum v.f ta
  let sh := if ar.lt a_t f then ar.one else ar.zero
  let fab := if ar.lt a_t tv then ar.one else ar.zero
  let gab := if ar.lt a_t tv2 then ar.one else ar.zero
  let vegsh2 := ar.sub fab gab
  let vegsh := ar.torchMaximum v.vegsh vegsh2
  let vegsh := if ar.lt ar.zero (ar.mul vegsh sh) then ar.zero else vegsh
  let vbsh := ar.add vegsh v.vbsh
  if s = 0 then
    let fv := ar.sub tv ta
    let fv := if ar.le fv ar.zero then ar.big else fv
    let vegsh := if ar.lt fv dz then ar.one else vegsh
    let vegsh :=
      if ar.lt a_t (planes.vegdem2 (i, j)) then ar.mul vegsh ar.one else ar.mul vegsh ar.zero
    { f, sh, vegsh, vbsh := ar.zero }
  else { f, sh, vegsh, vbsh }

/-- `_svf_shadow_runs_kernel` over a chunk of the runs -/
def svfShadowRunsKernel (steps : List (TableStep F)) (runs : List RawRun) (gen expectGen : Int)
    (chunk : Nat × Nat) : List (PlaneWrite F) :=
  overRuns gen expectGen (fun cell => runsLoop ar allowExit (svfRunsStep ar planes cell) cell
    steps.zipIdx ⟨planes.a cell, ar.zero, ar.zero, ar.zero⟩) (slice runs chunk)

/-- One step of `_wallheight23_runs_kernel` -/
def wallRunsStep (cell : Cell) (v : CellValues F) (step : TableStep F) : CellValues F :=
  let (i, j) := cell
  let a_t := planes.a (i, j)
  let dz := step.dz
  let dzp := step.dzPrev
  let si := i + step.dx
  let sj := j + step.dy
  let inside := decide (0 ≤ si ∧ si < planes.rows ∧ 0 ≤ sj ∧ sj < planes.cols)
  let tv := if inside then ar.sub (planes.vegdem (si, sj)) dz else ar.zero
  let tv2 := if inside then ar.sub (planes.vegdem2 (si, sj)) dz else ar.zero
  let ta := if inside then ar.sub (planes.a (si, sj)) dz else ar.zero
  let tlf := if inside then ar.sub (planes.vegdem (si, sj)) dzp else ar.zero
  let tlg := if inside then ar.sub (planes.vegdem2 (si, sj)) dzp else ar.zero
  let f := ar.torchMaximum v.f ta
  let sh := if ar.lt a_t f then ar.one else ar.zero
  let fa := if ar.lt a_t tv then ar.one else ar.zero
  let ga := if ar.lt a_t tv2 then ar.one else ar.zero
  let lfa := if ar.lt a_t tlf then ar.one else ar.zero
  let lga := if ar.lt a_t tlg then ar.one else ar.zero
  let v2 := ar.add fa ga
  let v2 := ar.add v2 lfa
  let v2 := ar.add v2 lga
  let v2 := if ar.beq v2 ar.four then ar.zero else v2
  let v2 := if ar.lt ar.zero v2 then ar.one else v2
  let vegsh := ar.torchMaximum v.vegsh v2
  let vegsh := if ar.lt ar.zero (ar.mul vegsh sh) then ar.zero else vegsh
  let vbsh := ar.add v.vbsh vegsh
  { f, sh, vegsh, vbsh }

/-- `_wallheight23_runs_kernel` over a chunk of the runs -/
def wallheight23RunsKernel (steps : List (TableStep F)) (runs : List RawRun) (gen expectGen : Int)
    (chunk : Nat × Nat) : List (PlaneWrite F) :=
  overRuns gen expectGen (fun cell => runsLoop ar allowExit (wallRunsStep ar planes cell) cell
    steps ⟨planes.a cell, ar.zero, ar.zero, ar.zero⟩) (slice runs chunk)

end Kernels

/-! ## Execution -/

/-- `_execute_chunks`: one chunk is written in line, several by their threads after an empty call. -/
def executeChunks {κ V : Type} [DecidableEq κ] (call : Nat × Nat → List (κ × V))
    (schedule : Schedule (κ × V)) (chunks : List (Nat × Nat)) (nRuns : Nat) (outs : κ → V) :
    Except ChunkError (κ → V) :=
  match chunks with
  | [] => .ok outs
  | [chunk] => do
    verifyChunks [chunk] nRuns
    pure (land outs (call chunk))
  | chunks => do
    verifyChunks chunks nRuns
    pure (land (land outs (call (0, 0))) (schedule.order (chunks.map call)))

/-- A plane of the base. -/
structure BasePlane (F : Type) where
  rows : Nat
  cols : Nat
  value : Cell → F

def BasePlane.shape (plane : BasePlane F) : Nat × Nat := (plane.rows, plane.cols)

/-- The values of the base, by its three planes; zeros without a base. -/
def baseValue (ar : Arithmetic F) (base : Option (List (BasePlane F))) (key : OutputPlane × Cell) :
    F :=
  match key.1, base with
  | .sh, some (sh :: _) => sh.value key.2
  | .vegsh, some (_ :: vegsh :: _) => vegsh.value key.2
  | .vbshvegsh, some (_ :: _ :: vbshvegsh :: _) => vbshvegsh.value key.2
  | _, _ => ar.zero

/-- `_alloc_outputs` -/
def allocOutputs (ar : Arithmetic F) (base : Option (List (BasePlane F))) (shape : Nat × Nat) :
    Except SparseError (OutputPlane × Cell → F) := do
  let planes := base.getD []
  refuseIf (base.isSome ∧ planes.length ≠ 3) (.baseCount planes.length)
  planes.forM fun plane => refuseIf (plane.shape ≠ shape) (.baseShape shape plane.shape)
  pure (baseValue ar base)

/-- `_prepare` -/
def prepareSparse (ar : Arithmetic F) (variant : KernelVariant) (key : StepTableKey)
    (planes : MarchPlanes F) (runs : List RawRun) (nThreads : Int)
    (base : Option (List (BasePlane F))) (minPairs : Int) :
    Except SparseError (SparseMarchPlan × (OutputPlane × Cell → F)) := do
  checkWorkDomain key.logicalRows key.logicalCols
  (checkTable key variant (planes.rows, planes.cols)).mapError SparseError.march
  checkWorkDomain planes.rows planes.cols
  (checkBush ar planes).mapError SparseError.march
  asRuns runs
  validateRunsAgainstPlane runs planes.rows planes.cols
  let plan ← planSparseMarch runs nThreads minPairs
  let outs ← allocOutputs ar base (planes.rows, planes.cols)
  pure (plan, outs)

structure SparseResult (F : Type) where
  planes : OutputPlane × Cell → F
  plan : SparseMarchPlan

section Drivers

variable (ar : Arithmetic F) (planes : MarchPlanes F) (runs : List RawRun) (nThreads : Int)
  (base : Option (List (BasePlane F))) (minPairs : Int) (suffixExit : Bool)
  (schedule : Schedule (PlaneWrite F)) (table : FloatTable F)

def marchSvfShadowSparse : Except SparseError (SparseResult F) := do
  let (plan, outs) ← prepareSparse ar .svfShadow table.key planes runs nThreads base minPairs
  let allowExit := suffixExitAllowed ar planes suffixExit
  let written ← (executeChunks (svfShadowRunsKernel ar planes allowExit table.steps runs 0 0) schedule
    plan.chunks plan.nRuns outs).mapError SparseError.chunks
  pure ⟨written, plan⟩

def marchWallheight23Sparse : Except SparseError (SparseResult F) := do
  let (plan, outs) ← prepareSparse ar .wallheight23 table.key planes runs nThreads base minPairs
  let allowExit := suffixExitAllowed ar planes suffixExit
  let written ← (executeChunks (wallheight23RunsKernel ar planes allowExit table.steps runs 0 0)
    schedule plan.chunks plan.nRuns outs).mapError SparseError.chunks
  pure ⟨written, plan⟩

end Drivers

/-! ## The cells of the kernels -/

section Cells

variable (ar : Arithmetic F) (planes : MarchPlanes F) (allowExit : Bool) (cell : Cell)

/-- The writes of a cell that has these outputs. -/
def CellOutputs.writes (outputs : CellOutputs F) (cell : Cell) : List (PlaneWrite F) :=
  cellWrites cell outputs.sh outputs.vegsh outputs.vbsh

theorem svfRunsStep_dense (v : CellValues F) (item : TableStep F × Nat) :
    svfRunsStep ar planes cell v item = denseSvfStep ar planes cell v item := by
  obtain ⟨step, s⟩ := item
  unfold svfRunsStep denseSvfStep readLowered Arithmetic.above
  simp only [decide_eq_true_eq]
  rfl

theorem wallRunsStep_dense (v : CellValues F) (step : TableStep F) :
    wallRunsStep ar planes cell v step = denseWallStep ar planes cell v step := by
  unfold wallRunsStep denseWallStep readLowered Arithmetic.above
  simp only [decide_eq_true_eq]
  rfl

theorem runsLoop_dense {α : Type} {step : CellValues F → α → CellValues F} (items : List α)
    (v : CellValues F) : runsLoop ar allowExit step cell items v =
      (denseFinal ar (exitLoop step (denseExit ar allowExit) v items)).writes cell := by
  induction items generalizing v with
  | nil => rfl
  | cons item items ih =>
    rw [runsLoop, exitLoop, ih]
    by_cases hexit : denseExit ar allowExit (step v item)
    · rw [if_pos hexit]
      exact if_pos hexit
    · rw [if_neg hexit]
      exact if_neg hexit

end Cells

/-! ## What the threads write -/

theorem executeChunks_ok {κ V : Type} [DecidableEq κ] (call : Nat × Nat → List (κ × V)) (value : κ → V)
    (schedule : Schedule (κ × V)) {chunks : List (Nat × Nat)} {nRuns : Nat} (outs : κ → V)
    (h : Consecutive 0 chunks nRuns) (hempty : call (0, 0) = [])
    (hvalue : ∀ chunk, ∀ write ∈ call chunk, write.2 = value write.1) : ∃ planes,
      executeChunks call schedule chunks nRuns outs = .ok planes ∧
        ∀ k, (k ∈ (chunks.flatMap call).map (·.1) → planes k = value k) ∧
          (k ∉ (chunks.flatMap call).map (·.1) → planes k = outs k) := by
  have hverify := verifyChunks_ok.mpr h
  unfold executeChunks
  split
  · exact ⟨outs, rfl, fun k => by simp⟩
  · next chunk =>
    refine ⟨_, except_bind_ok.mpr ⟨(), hverify, rfl⟩, fun k => ?_⟩
    rw [List.flatMap_cons, List.flatMap_nil, List.append_nil]
    exact land_apply outs (hvalue chunk) k
  · refine ⟨_, except_bind_ok.mpr ⟨(), hverify, rfl⟩, fun k => ?_⟩
    rw [hempty, List.flatMap_def]
    refine land_schedule schedule outs (fun write hwrite => ?_) k
    obtain ⟨writes, hwrites, hwrite⟩ := List.mem_flatten.mp hwrite
    obtain ⟨chunk, -, rfl⟩ := List.mem_map.mp hwrites
    exact hvalue chunk write hwrite

/-- A run that lies in the plane. -/
def ValidRun (rows cols : Nat) (run : RawRun) : Prop :=
  0 ≤ run.1 ∧ run.1 < rows ∧ 0 ≤ run.2.1 ∧ run.2.1 ≤ run.2.2 ∧ run.2.2 < cols

instance (rows cols : Nat) (run : RawRun) : Decidable (ValidRun rows cols run) :=
  inferInstanceAs (Decidable (_ ∧ _))

/-- A run of the list holds the cell. -/
def Listed (runs : List RawRun) (cell : Cell) : Prop :=
  ∃ run ∈ runs, run.1 = cell.1 ∧ run.2.1 ≤ cell.2 ∧ cell.2 ≤ run.2.2

instance (runs : List RawRun) (cell : Cell) : Decidable (Listed runs cell) :=
  inferInstanceAs (Decidable (∃ run ∈ runs, _))

/-- Three planes of the scene's shape, or none. -/
def ValidBase (base : Option (List (BasePlane F))) (shape : Nat × Nat) : Prop :=
  ∀ planes ∈ base, planes.length = 3 ∧ ∀ plane ∈ planes, plane.shape = shape

section Writes

variable {runs : List RawRun} {body : Cell → List (PlaneWrite F)}

theorem overRuns_same (runs : List RawRun) :
    overRuns 0 0 body runs = (runs.flatMap runCells).flatMap body := by
  induction runs with
  | nil => rfl
  | cons run runs ih => simp [overRuns, ih]

theorem mem_runCells {cell : Cell} : cell ∈ runs.flatMap runCells ↔ Listed runs cell := by
  unfold Listed runCells
  simp only [List.mem_flatMap, List.mem_map, Int.mem_range_iff]
  constructor
  · rintro ⟨run, hrun, j, hj, rfl⟩
    exact ⟨run, hrun, rfl, hj.1, by dsimp only; omega⟩
  · rintro ⟨run, hrun, hrow, hc0, hc1⟩
    exact ⟨run, hrun, cell.2, ⟨hc0, by omega⟩, by rw [hrow]⟩

theorem mem_writes {outputs : CellOutputs F} {cell : Cell} {write : PlaneWrite F} :
    write ∈ outputs.writes cell ↔ ∃ plane, write = ((plane, cell), outputs.plane plane) := by
  unfold CellOutputs.writes cellWrites
  simp only [List.mem_cons, List.not_mem_nil, or_false]
  constructor
  · rintro (rfl | rfl | rfl)
    exacts [⟨.sh, rfl⟩, ⟨.vegsh, rfl⟩, ⟨.vbshvegsh, rfl⟩]
  · rintro ⟨plane | plane | plane, rfl⟩
    exacts [Or.inl rfl, Or.inr (Or.inl rfl), Or.inr (Or.inr rfl)]

variable (dense : Cell → CellOutputs F)

/-- A kernel that writes some outputs of each cell. -/
def kernelOf (runs : List RawRun) (chunk : Nat × Nat) : List (PlaneWrite F) :=
  overRuns 0 0 (fun cell => (dense cell).writes cell) (slice runs chunk)

theorem kernelOf_value (chunk : Nat × Nat) :
    ∀ write ∈ kernelOf dense runs chunk, write.2 = (dense write.1.2).plane write.1.1 := by
  intro write hwrite
  unfold kernelOf at hwrite
  rw [overRuns_same] at hwrite
  obtain ⟨cell, -, hcell⟩ := List.mem_flatMap.mp hwrite
  obtain ⟨plane, rfl⟩ := mem_writes.mp hcell
  rfl

theorem mem_kernelOf {chunks : List (Nat × Nat)} (h : Consecutive 0 chunks runs.length)
    (plane : OutputPlane) (cell : Cell) :
    (plane, cell) ∈ (chunks.flatMap (kernelOf dense runs)).map (·.1) ↔ Listed runs cell := by
  have hall : chunks.flatMap (kernelOf dense runs) =
      (runs.flatMap runCells).flatMap fun cell => (dense cell).writes cell := by
    unfold kernelOf
    simp only [overRuns_same]
    rw [← List.flatMap_assoc, ← List.flatMap_assoc, h.flatMap_all]
  rw [hall, ← mem_runCells, List.mem_map]
  constructor
  · rintro ⟨write, hwrite, hkey⟩
    obtain ⟨cell', hlisted, hcell⟩ := List.mem_flatMap.mp hwrite
    obtain ⟨plane', rfl⟩ := mem_writes.mp hcell
    cases hkey
    exact hlisted
  · intro hlisted
    exact ⟨_, List.mem_flatMap.mpr ⟨cell, hlisted, mem_writes.mpr ⟨plane, rfl⟩⟩, rfl⟩

end Writes

section Driver

variable {ar : Arithmetic F} {planes : MarchPlanes F} {runs : List RawRun}
  {base : Option (List (BasePlane F))} {rows cols : Nat} {variant : KernelVariant}
  {key : StepTableKey}

theorem checkRuns_ok {bad : RawRun → Bool} {error : RawRun → SparseError}
    (h : ∀ run ∈ runs, bad run = false) : checkRuns runs bad error = .ok () := by
  unfold checkRuns
  rw [List.find?_eq_none.mpr fun run hrun => by simp [h run hrun]]

theorem asRuns_ok (hlimit : cols ≤ int32AddressLimit) (hrows : rows ≤ int32AddressLimit)
    (h : ∀ run ∈ runs, ValidRun rows cols run) : asRuns runs = .ok () := by
  unfold asRuns
  rw [except_bind_ok]
  refine ⟨(), checkRuns_ok fun run hrun => ?_, checkRuns_ok fun run hrun => ?_⟩
  · obtain ⟨hrow, hrow', hc0, hc, hc1⟩ := h run hrun
    unfold int32AddressLimit at hlimit hrows
    rw [List.any_eq_false]
    intro x hx
    simp only [List.mem_cons, List.not_mem_nil, or_false] at hx
    have hfits : 0 ≤ x ∧ x ≤ int32Max := by
      unfold int32Max
      omega
    simp [hfits]
  · obtain ⟨-, -, -, hc, -⟩ := h run hrun
    simpa using hc

theorem validateRuns_ok (h : ∀ run ∈ runs, ValidRun rows cols run) :
    validateRunsAgainstPlane runs rows cols = .ok () := by
  unfold validateRunsAgainstPlane
  rw [except_bind_ok]
  refine ⟨(), checkRuns_ok fun run hrun => ?_, checkRuns_ok fun run hrun => ?_⟩
  · obtain ⟨-, hrow, -⟩ := h run hrun
    simpa using hrow
  · obtain ⟨-, -, -, -, hc1⟩ := h run hrun
    simpa using hc1

theorem planSparseMarch_ok (hruns : asRuns runs = .ok ())
    (h : ∀ run ∈ runs, ValidRun rows cols run) (nThreads minPairs : Int) :
    ∃ plan, planSparseMarch runs nThreads minPairs = .ok plan ∧ plan.nRuns = runs.length ∧
      Consecutive 0 plan.chunks runs.length := by
  unfold planSparseMarch
  simp only [except_bind_ok, hruns]
  by_cases hserial : nThreads ≤ 1 ∨ runs.length = 0 ∨
      (runs.map runLength).foldl addInt64 0 < minPairs
  · refine ⟨_, ⟨(), trivial, by rw [if_pos hserial]; rfl⟩, rfl, ?_⟩
    dsimp only
    split
    · next hnil =>
      rw [hnil]
      exact .nil 0
    · exact .cons (by omega) (.nil _)
  · have hlengths : ∀ length ∈ runs.map runLength, 0 ≤ length := by
      intro length hlength
      obtain ⟨run, hrun, rfl⟩ := List.mem_map.mp hlength
      obtain ⟨-, -, -, hc, -⟩ := h run hrun
      unfold runLength
      omega
    obtain ⟨chunks, hchunks, hconsecutive⟩ :=
      planInt64Chunks_consecutive hlengths (show 0 < nThreads by omega)
    rw [List.length_map] at hconsecutive
    refine ⟨⟨(runs.map runLength).foldl addInt64 0, runs.length, chunks.length, chunks⟩, ⟨(), trivial, ?_⟩, rfl,
      hconsecutive⟩
    rw [if_neg hserial, hchunks]
    rfl

theorem allocOutputs_ok {shape : Nat × Nat} (h : ValidBase base shape) :
    allocOutputs ar base shape = .ok (baseValue ar base) := by
  unfold allocOutputs
  simp only [except_bind_ok]
  cases base with
  | none => exact ⟨(), refuseIf_ok.mpr (by simp), (), rfl, rfl⟩
  | some planes =>
    obtain ⟨hthree, hshape⟩ := h planes rfl
    exact ⟨(), refuseIf_ok.mpr (by simp [hthree]), (),
      forM_ok.mpr fun plane hplane => refuseIf_ok.mpr (not_not.mpr (hshape plane hplane)), rfl⟩

/-- Rows and columns that a work list can address. -/
def WorkDomain (planes : MarchPlanes F) : Prop :=
  1 ≤ planes.rows ∧ 1 ≤ planes.cols ∧ planes.rows ≤ int32AddressLimit ∧
    planes.cols ≤ int32AddressLimit

theorem checkWorkDomain_ok (h : WorkDomain planes) :
    checkWorkDomain planes.rows planes.cols = .ok () := by
  obtain ⟨hrows, hcols, hrowLimit, hcolLimit⟩ := h
  unfold checkWorkDomain
  rw [except_bind_ok]
  exact ⟨(), refuseIf_ok.mpr (by omega), refuseIf_ok.mpr (by omega)⟩

theorem prepareSparse_ok (htable : checkTable key variant (planes.rows, planes.cols) = .ok ())
    (hbush : checkBush ar planes = .ok ()) (hdomain : WorkDomain planes)
    (hruns : ∀ run ∈ runs, ValidRun planes.rows planes.cols run)
    (hbase : ValidBase base (planes.rows, planes.cols)) (nThreads minPairs : Int) :
    ∃ plan, prepareSparse ar variant key planes runs nThreads base minPairs =
        .ok (plan, baseValue ar base) ∧
      plan.nRuns = runs.length ∧ Consecutive 0 plan.chunks runs.length := by
  have hlogical : (key.logicalRows, key.logicalCols) = (planes.rows, planes.cols) := by
    unfold checkTable at htable
    simp only [except_bind_ok, refuseIf_ok, not_not] at htable
    obtain ⟨-, -, hshape⟩ := htable
    exact hshape
  obtain ⟨hlogicalRows, hlogicalCols⟩ := Prod.mk.inj hlogical
  have hasRuns := asRuns_ok hdomain.2.2.2 hdomain.2.2.1 hruns
  obtain ⟨plan, hplan, hcount, hchunks⟩ := planSparseMarch_ok hasRuns hruns nThreads minPairs
  refine ⟨plan, ?_, hcount, hchunks⟩
  unfold prepareSparse
  rw [hlogicalRows, hlogicalCols, htable, hbush, checkWorkDomain_ok hdomain, hasRuns,
    validateRuns_ok hruns, hplan, allocOutputs_ok hbase]
  rfl

end Driver

/-! ## The drivers -/

section Sparse

variable {ar : Arithmetic F} {planes : MarchPlanes F} {runs : List RawRun}
  {base : Option (List (BasePlane F))} {dense : Cell → CellOutputs F} {table : FloatTable F}
  {suffixExit : Bool} (nThreads minPairs : Int) (schedule : Schedule (PlaneWrite F))

/-- The values of a dense march on the listed cells, and the base elsewhere. -/
def DenseOnRuns (ar : Arithmetic F) (dense : Cell → CellOutputs F) (runs : List RawRun)
    (base : Option (List (BasePlane F))) (written : OutputPlane × Cell → F) : Prop :=
  ∀ plane cell, written (plane, cell) =
    if Listed runs cell then (dense cell).plane plane else baseValue ar base (plane, cell)

theorem executeRuns_ok (dense : Cell → CellOutputs F) {chunks : List (Nat × Nat)}
    (h : Consecutive 0 chunks runs.length) :
    ∃ written, executeChunks (kernelOf dense runs) schedule chunks runs.length (baseValue ar base) =
        .ok written ∧ DenseOnRuns ar dense runs base written := by
  obtain ⟨written, hwritten, hvalues⟩ := executeChunks_ok (kernelOf dense runs)
    (fun key => (dense key.2).plane key.1) schedule (baseValue ar base) h rfl (kernelOf_value dense)
  refine ⟨written, hwritten, fun plane cell => ?_⟩
  split
  · next hlisted => exact (hvalues (plane, cell)).1 ((mem_kernelOf dense h plane cell).mpr hlisted)
  · next hunlisted =>
    exact (hvalues (plane, cell)).2 fun hmem => hunlisted ((mem_kernelOf dense h plane cell).mp hmem)

theorem sparseRun_ok {variant : KernelVariant} (dense : Cell → CellOutputs F)
    (htable : checkTable table.key variant (planes.rows, planes.cols) = .ok ())
    (hbush : checkBush ar planes = .ok ()) (hdomain : WorkDomain planes)
    (hruns : ∀ run ∈ runs, ValidRun planes.rows planes.cols run)
    (hbase : ValidBase base (planes.rows, planes.cols)) :
    ∃ plan written, prepareSparse ar variant table.key planes runs nThreads base minPairs =
        .ok (plan, baseValue ar base) ∧
      executeChunks (kernelOf dense runs) schedule plan.chunks plan.nRuns (baseValue ar base) =
        .ok written ∧ DenseOnRuns ar dense runs base written := by
  obtain ⟨plan, hplan, hcount, hchunks⟩ :=
    prepareSparse_ok htable hbush hdomain hruns hbase nThreads minPairs
  obtain ⟨written, hwritten, hvalues⟩ := executeRuns_ok schedule dense hchunks
  refine ⟨plan, written, hplan, ?_, hvalues⟩
  rw [hcount, hwritten]

/-- The sparse shadow march has the dense one's values on the listed cells, and the base
elsewhere. -/
theorem marchSvfShadowSparse_ok (hdense : denseSvfShadow ar table planes suffixExit = .ok dense)
    (hdomain : WorkDomain planes) (hruns : ∀ run ∈ runs, ValidRun planes.rows planes.cols run)
    (hbase : ValidBase base (planes.rows, planes.cols)) :
    ∃ result, marchSvfShadowSparse ar planes runs nThreads base minPairs suffixExit schedule table =
        .ok result ∧ DenseOnRuns ar dense runs base result.planes := by
  unfold denseSvfShadow at hdense
  simp only [except_bind_ok, pure, Except.pure, Except.ok.injEq] at hdense
  obtain ⟨_, htable, _, hbush, rfl⟩ := hdense
  have hkernel : svfShadowRunsKernel ar planes (suffixExitAllowed ar planes suffixExit) table.steps
      runs 0 0 = kernelOf (fun cell => denseSvfCell ar planes cell
        (suffixExitAllowed ar planes suffixExit) table.steps) runs := by
    funext chunk
    unfold svfShadowRunsKernel kernelOf denseSvfCell
    congr 1
    funext cell
    rw [runsLoop_dense, funext fun v => funext (svfRunsStep_dense ar planes cell v)]
    rfl
  obtain ⟨plan, written, hplan, hwritten, hvalues⟩ := sparseRun_ok nThreads minPairs schedule
    (fun cell => denseSvfCell ar planes cell (suffixExitAllowed ar planes suffixExit) table.steps)
    htable hbush hdomain hruns hbase
  refine ⟨⟨written, plan⟩, ?_, hvalues⟩
  unfold marchSvfShadowSparse
  rw [hplan]
  dsimp only [bind, Except.bind]
  rw [hkernel, hwritten]
  rfl

theorem marchWallheight23Sparse_ok
    (hdense : denseWallheight23 ar table planes suffixExit = .ok dense)
    (hdomain : WorkDomain planes) (hruns : ∀ run ∈ runs, ValidRun planes.rows planes.cols run)
    (hbase : ValidBase base (planes.rows, planes.cols)) :
    ∃ result, marchWallheight23Sparse ar planes runs nThreads base minPairs suffixExit schedule
        table = .ok result ∧ DenseOnRuns ar dense runs base result.planes := by
  unfold denseWallheight23 at hdense
  simp only [except_bind_ok, pure, Except.pure, Except.ok.injEq] at hdense
  obtain ⟨_, htable, _, hbush, rfl⟩ := hdense
  have hkernel : wallheight23RunsKernel ar planes (suffixExitAllowed ar planes suffixExit)
      table.steps runs 0 0 = kernelOf (fun cell => denseWallCell ar planes cell
        (suffixExitAllowed ar planes suffixExit) table.steps) runs := by
    funext chunk
    unfold wallheight23RunsKernel kernelOf denseWallCell
    congr 1
    funext cell
    rw [runsLoop_dense, funext fun v => funext (wallRunsStep_dense ar planes cell v)]
    rfl
  obtain ⟨plan, written, hplan, hwritten, hvalues⟩ := sparseRun_ok nThreads minPairs schedule
    (fun cell => denseWallCell ar planes cell (suffixExitAllowed ar planes suffixExit) table.steps)
    htable hbush hdomain hruns hbase
  refine ⟨⟨written, plan⟩, ?_, hvalues⟩
  unfold marchWallheight23Sparse
  rw [hplan]
  dsimp only [bind, Except.bind]
  rw [hkernel, hwritten]
  rfl

end Sparse

end Solweig.Sparse
