import Mathlib.Data.Rat.Defs
import Solweig.Lib.Chunks
import Solweig.Lib.Dict
import Solweig.Lib.Fold

/-!
# Chunk copy-on-write

Which chunks of a checkpoint a current scene may take over, and the thermal planes composed of
them and of a replay over the others.
-/

namespace Solweig.Checkpoints

open Solweig.Lib Solweig.Lib.Chunks

/-- The bytes of a float32. -/
structure F32 where
  b0 : UInt8
  b1 : UInt8
  b2 : UInt8
  b3 : UInt8
  deriving DecidableEq

def F32.bytes (x : F32) : List UInt8 := [x.b0, x.b1, x.b2, x.b3]

structure Raster where
  rows : Nat
  cols : Nat
  cell : Nat → Nat → F32

def Raster.shape (raster : Raster) : Nat × Nat := (raster.rows, raster.cols)

structure ComposedScene where
  buildingDsm : Raster
  canopy : Raster
  dem : Raster
  resolvedLandcover : Option Raster

/-- `tobytes` of a slice, row by row. -/
def sliceBytes (raster : Raster) (block : Block) : List UInt8 :=
  (List.range' block.rows.start block.rows.length).flatMap fun row =>
    (List.range' block.cols.start block.cols.length).flatMap fun col => (raster.cell row col).bytes

inductive Refusal where
  | noSpatialDigests
  | noPlanes
  | gridMoved (planes current : Nat × Nat)
  | chunkGridMoved (stored asked : Nat)
  | marchAmplitude (stored current : F32)
  | amaxvalue (stored current : F32)
  | scale (stored current : F32)
  | noFingerprint
  | globalDigest (name : String)
  deriving DecidableEq

inductive CheckpointError where
  | chunkCells (value : Nat)
  | sceneShapes (shapes : List (Nat × Nat))
  | landcoverShape (shape scene : Nat × Nat)
  | gridFields (cells rows cols : Nat)
  | chunkGrid (chunkGrid : Nat × Nat)
  | spatialShape (spatial : Nat × Nat) (planes : Option (Nat × Nat))
  | digestCount (name : String) (count : Nat)
  | planeShapes (shapes : List (Nat × Nat))
  | emptyGrid
  | notApplicable (reason : Option Refusal)
  | noComposePlanes
  | noReplay (dirtyChunks : Nat)
  | missingPlane (name : String)
  | replayShape (name : String) (shape expected : Nat × Nat)
  | planeShape (name : String) (shape : Nat × Nat)
  | noWindow
  | sliceOutside (key : Nat × Nat)
  | scalarDiverged (name : String)
  | unknownScalars (names : List String)

section Digests

variable {D : Type} [DecidableEq D] (digest : List UInt8 → D)

structure ChunkDigests (D : Type) where
  chunkCells : Nat
  chunkRows : Nat
  chunkCols : Nat
  rows : Nat
  cols : Nat
  scene : Dict (Nat × Nat) D
  landcover : Option (Dict (Nat × Nat) D)

/-- The digest of one chunk of the three source rasters. -/
def sceneDigest (scene : ComposedScene) (block : Block) : D :=
  digest (sliceBytes scene.buildingDsm block ++ sliceBytes scene.canopy block ++
    sliceBytes scene.dem block)

def checkLandcover (shape : Nat × Nat) : Option Raster → Except CheckpointError Unit
  | none => .ok ()
  | some landcover => refuseIf (landcover.shape ≠ shape) (.landcoverShape landcover.shape shape)

def chunkSceneDigests (scene : ComposedScene) (chunkCells : Nat) :
    Except CheckpointError (ChunkDigests D) := do
  refuseIf (chunkCells < 1) (.chunkCells chunkCells)
  let shape := scene.buildingDsm.shape
  refuseIf (scene.canopy.shape ≠ shape ∨ scene.dem.shape ≠ shape)
    (.sceneShapes [shape, scene.canopy.shape, scene.dem.shape])
  let (rows, cols) := shape
  checkLandcover shape scene.resolvedLandcover
  let keys := chunkKeys rows cols chunkCells
  pure
    { chunkCells := chunkCells
      chunkRows := chunkCount rows chunkCells
      chunkCols := chunkCount cols chunkCells
      rows := rows
      cols := cols
      scene := Dict.ofEntries (keys.map fun key =>
        (key, sceneDigest digest scene (chunkBlock rows cols chunkCells key)))
      landcover := scene.resolvedLandcover.map fun landcover => Dict.ofEntries (keys.map fun key =>
        (key, digest (sliceBytes landcover (chunkBlock rows cols chunkCells key)))) }

/-- Bits of the march globals. -/
structure MarchBits where
  marchAmplitude : F32
  amaxvalue : F32
  scale : F32
  deriving DecidableEq

structure SpatialCow (D : Type) where
  digests : ChunkDigests D
  bits : MarchBits

def captureSpatialCow (scene : ComposedScene) (bits : MarchBits) (chunkCells : Nat) :
    Except CheckpointError (SpatialCow D) := do
  let digests ← chunkSceneDigests digest scene chunkCells
  pure ⟨digests, bits⟩

/-! ## Records -/

structure CheckpointRecord (D : Type) where
  thermalTensors : List (String × Raster)
  thermalScalars : List (String × Rat)
  inputFingerprint : Option (Dict String D)
  spatialCow : Option (SpatialCow D)

/-- The write-side fence on the digest block. -/
def validateSpatialCow (spatial : ChunkDigests D) (tensorShape : Option (Nat × Nat)) :
    Except CheckpointError Unit := do
  refuseIf (spatial.chunkCells < 1 ∨ spatial.rows < 1 ∨ spatial.cols < 1 ∨ spatial.chunkRows < 1 ∨
    spatial.chunkCols < 1) (.gridFields spatial.chunkCells spatial.rows spatial.cols)
  refuseIf ((spatial.chunkRows, spatial.chunkCols) ≠ (chunkCount spatial.rows spatial.chunkCells,
    chunkCount spatial.cols spatial.chunkCells)) (.chunkGrid (spatial.chunkRows, spatial.chunkCols))
  refuseIf (tensorShape ≠ some (spatial.rows, spatial.cols))
    (.spatialShape (spatial.rows, spatial.cols) tensorShape)
  refuseIf (spatial.scene.size ≠ spatial.chunkRows * spatial.chunkCols)
    (.digestCount "scene" spatial.scene.size)
  match spatial.landcover with
  | some landcover =>
    refuseIf (landcover.size ≠ spatial.chunkRows * spatial.chunkCols)
      (.digestCount "landcover" landcover.size)
  | none => pure ()

/-- What a checkpoint passes before it is stored, and again when it is loaded. -/
def validateRecord (record : CheckpointRecord D) : Except CheckpointError Unit := do
  let shapes := (record.thermalTensors.map (·.2.shape)).dedup
  refuseIf (1 < shapes.length) (.planeShapes shapes)
  match record.spatialCow with
  | some spatial => validateSpatialCow spatial.digests shapes.head?
  | none => pure ()

/-! ## Planning -/

structure DirtyWindow where
  rowStart : Nat
  rowStop : Nat
  colStart : Nat
  colStop : Nat
  deriving DecidableEq

structure ChunkCowPlan where
  applicable : Bool
  chunkGrid : Nat × Nat
  chunkCells : Nat
  clean : Nat × Nat → Bool
  dirtyChunks : List (Nat × Nat)
  dirtyWindow : Option DirtyWindow
  refusalReason : Option Refusal
  chunksTotal : Nat
  chunksCowReused : Nat
  chunksReplayed : Nat
  cellsTotal : Nat
  cellsReplayed : Nat
  cellsReplayedFraction : Rat
  planeBytesCowReused : Nat
  dirtyCauses : List (String × Nat)

structure CowInputs where
  scene : ComposedScene
  /-- The canonical text of the parameters. -/
  modelParameters : List UInt8
  metPrefix : List UInt8
  bits : MarchBits
  reachPixels : Nat

def allDirty (record : CheckpointRecord D) (chunkCells : Nat) (reason : Refusal) : ChunkCowPlan :=
  let shape := (record.thermalTensors.head?.map (·.2.shape)).getD (0, 0)
  let chunkRows := chunkCount shape.1 chunkCells
  let chunkCols := chunkCount shape.2 chunkCells
  { applicable := false
    chunkGrid := (chunkRows, chunkCols)
    chunkCells := chunkCells
    clean := fun _ => false
    dirtyChunks := []
    dirtyWindow := none
    refusalReason := some reason
    chunksTotal := chunkRows * chunkCols
    chunksCowReused := 0
    chunksReplayed := chunkRows * chunkCols
    cellsTotal := shape.1 * shape.2
    cellsReplayed := shape.1 * shape.2
    cellsReplayedFraction := 1
    planeBytesCowReused := 0
    dirtyCauses := [("global", chunkRows * chunkCols)] }

def sceneChanged (stored current : ChunkDigests D) (key : Nat × Nat) : Bool :=
  stored.scene[key]? ≠ current.scene[key]?

/-- Land cover is compared where the scene did not change. -/
def landcoverChanged (stored current : ChunkDigests D) (key : Nat × Nat) : Bool :=
  ¬ sceneChanged stored current key ∧
    stored.landcover.bind (fun digests => digests[key]?) ≠
      current.landcover.bind (fun digests => digests[key]?)

/-- The chunks around a changed one, cut at the edge of the grid. -/
def dilate (chunkRows chunkCols dilation : Nat) (dirty : Nat × Nat → Bool) (changed : Nat × Nat) :
    Nat × Nat → Bool := fun key =>
  dirty key || decide (changed.1 - dilation ≤ key.1 ∧ key.1 < min chunkRows (changed.1 + dilation + 1) ∧
    changed.2 - dilation ≤ key.2 ∧ key.2 < min chunkCols (changed.2 + dilation + 1))

def dirtyMask (stored current : ChunkDigests D) (keys : List (Nat × Nat)) (dilation : Nat) :
    Nat × Nat → Bool :=
  keys.foldl (fun dirty key => if sceneChanged stored current key then
    dilate current.chunkRows current.chunkCols dilation dirty key else dirty)
    (landcoverChanged stored current)

/-- The window of cells around the dirty chunks. -/
def windowOf (rows cols chunkCells : Nat) : List (Nat × Nat) → Option DirtyWindow
  | [] => none
  | first :: rest => some
    { rowStart := rest.foldl (fun low key => min low key.1) first.1 * chunkCells
      rowStop := min rows ((rest.foldl (fun high key => max high key.1) first.1 + 1) * chunkCells)
      colStart := rest.foldl (fun low key => min low key.2) first.2 * chunkCells
      colStop := min cols ((rest.foldl (fun high key => max high key.2) first.2 + 1) * chunkCells) }

def dirtyCauses (sceneChunks landcoverChunks dirtyChunks : Nat) : List (String × Nat) :=
  let causes := (if 0 < sceneChunks then [("scene_digest", sceneChunks)] else []) ++
    (if 0 < landcoverChunks then [("landcover_digest", landcoverChunks)] else [])
  let causes := if 0 < dirtyChunks ∧ causes = [] then [("dilation", dirtyChunks)] else causes
  if causes = [] then [("clean", 0)] else causes

/-- The pass over the chunks, after the global fences. -/
def planChunks (record : CheckpointRecord D) (stored current : ChunkDigests D)
    (chunkCells reachPixels : Nat) : Except CheckpointError ChunkCowPlan := do
  let rows := current.rows
  let cols := current.cols
  let keys := chunkKeys rows cols chunkCells
  let dirty := dirtyMask stored current keys (reachPixels / chunkCells + 1)
  let dirtyChunks := keys.filter dirty
  let cellsDirty := (dirtyChunks.map fun key => (chunkBlock rows cols chunkCells key).area).sum
  let cellsTotal := rows * cols
  refuseIf (cellsTotal = 0) .emptyGrid
  pure
    { applicable := true
      chunkGrid := (current.chunkRows, current.chunkCols)
      chunkCells := chunkCells
      clean := fun key => !dirty key
      dirtyChunks := dirtyChunks
      dirtyWindow := windowOf rows cols chunkCells dirtyChunks
      refusalReason := none
      chunksTotal := current.chunkRows * current.chunkCols
      chunksCowReused := (keys.filter fun key => !dirty key).length
      chunksReplayed := dirtyChunks.length
      cellsTotal := cellsTotal
      cellsReplayed := cellsDirty
      cellsReplayedFraction := cellsDirty / cellsTotal
      planeBytesCowReused := (cellsTotal - cellsDirty) * 4 * record.thermalTensors.length
      dirtyCauses := dirtyCauses (keys.countP (sceneChanged stored current))
        (keys.countP (landcoverChanged stored current)) dirtyChunks.length }

/-- `plan_chunk_cow_warm_start` -/
def planChunkCow (record : CheckpointRecord D) (inputs : CowInputs) (chunkCells : Nat) :
    Except CheckpointError ChunkCowPlan :=
  let refuse := fun reason => Except.ok (allDirty record chunkCells reason)
  match record.spatialCow, record.thermalTensors.head? with
  | none, _ => refuse .noSpatialDigests
  | some _, none => refuse .noPlanes
  | some stored, some first => do
    let current ← chunkSceneDigests digest inputs.scene chunkCells
    if (current.rows, current.cols) ≠ first.2.shape then
      refuse (.gridMoved first.2.shape (current.rows, current.cols))
    else if stored.digests.chunkCells ≠ chunkCells then
      refuse (.chunkGridMoved stored.digests.chunkCells chunkCells)
    else if stored.bits.marchAmplitude ≠ inputs.bits.marchAmplitude then
      refuse (.marchAmplitude stored.bits.marchAmplitude inputs.bits.marchAmplitude)
    else if stored.bits.amaxvalue ≠ inputs.bits.amaxvalue then
      refuse (.amaxvalue stored.bits.amaxvalue inputs.bits.amaxvalue)
    else if stored.bits.scale ≠ inputs.bits.scale then
      refuse (.scale stored.bits.scale inputs.bits.scale)
    else
      match record.inputFingerprint with
      | none => refuse .noFingerprint
      | some fingerprint =>
        if fingerprint["model_parameters"]? ≠ some (digest inputs.modelParameters) then
          refuse (.globalDigest "model_parameters")
        else if fingerprint["met_prefix"]? ≠ some (digest inputs.metPrefix) then
          refuse (.globalDigest "met_prefix")
        else planChunks record stored.digests current chunkCells inputs.reachPixels

end Digests

/-! ## Composition -/

/-- A plane under composition, with how often each cell was written. -/
structure ComposedPlane where
  cell : Nat → Nat → Option F32
  writes : Nat → Nat → Nat

def ComposedPlane.empty : ComposedPlane := ⟨fun _ _ => none, fun _ _ => 0⟩

def ComposedPlane.write (plane : ComposedPlane) (block : Block) (values : Nat → Nat → F32) :
    ComposedPlane where
  cell := fun row col => if block.holds (row, col) then some (values row col) else plane.cell row col
  writes := fun row col => if block.holds (row, col) then plane.writes row col + 1 else plane.writes row col

/-- The block lies in the window, whose extent the replay has. -/
def inReplay (window : DirtyWindow) (replay : Raster) (block : Block) : Prop :=
  window.rowStart ≤ block.rows.start ∧ block.rows.stop ≤ window.rowStart + replay.rows ∧
    window.colStart ≤ block.cols.start ∧ block.cols.stop ≤ window.colStart + replay.cols

instance (window : DirtyWindow) (replay : Raster) (block : Block) :
    Decidable (inReplay window replay block) :=
  inferInstanceAs (Decidable (_ ∧ _ ∧ _ ∧ _))

def composeChunk (plan : ChunkCowPlan) (rows cols : Nat) (source : Raster) (replay : Option Raster)
    (plane : ComposedPlane) (key : Nat × Nat) : Except CheckpointError ComposedPlane :=
  let block := chunkBlock rows cols plan.chunkCells key
  if plan.clean key then .ok (plane.write block source.cell)
  else
    match plan.dirtyWindow, replay with
    | some window, some replay =>
      if inReplay window replay block then
        .ok (plane.write block fun row col =>
          replay.cell (row - window.rowStart) (col - window.colStart))
      else .error (.sliceOutside key)
    | _, _ => .error .noWindow

def composePlane (plan : ChunkCowPlan) (rows cols : Nat)
    (replay : Option (Dict String Raster)) (entry : String × Raster) :
    Except CheckpointError (String × ComposedPlane) := do
  refuseIf (entry.2.shape ≠ (rows, cols)) (.planeShape entry.1 entry.2.shape)
  let composed ← (chunkKeys rows cols plan.chunkCells).foldlM
    (composeChunk plan rows cols entry.2 (replay.bind fun replay => replay[entry.1]?)) .empty
  pure (entry.1, composed)

/-- Each replayed plane has the extent of the dirty window. -/
def checkReplay (plan : ChunkCowPlan) (names : List String) :
    Option (Dict String Raster) → Except CheckpointError Unit
  | none => .ok ()
  | some replay =>
    match plan.dirtyWindow with
    | none => .error .noWindow
    | some window =>
      let expected := (window.rowStop - window.rowStart, window.colStop - window.colStart)
      names.forM fun name =>
        match replay[name]? with
        | none => .error (.missingPlane name)
        | some plane => refuseIf (plane.shape ≠ expected) (.replayShape name plane.shape expected)

/-- The scalars of the replay, where they are given, are those of the checkpoint. -/
def checkScalars (scalars : List (String × Rat)) :
    Option (Dict String Rat) → Except CheckpointError Unit
  | none => .ok ()
  | some replayed => do
    scalars.forM fun scalar =>
      refuseIf (replayed[scalar.1]? ≠ some scalar.2) (.scalarDiverged scalar.1)
    let missing := replayed.keys.filter fun name => name ∉ scalars.map Prod.fst
    refuseIf (missing ≠ []) (.unknownScalars missing)

/-- `compose_chunk_cow_state` -/
def composeChunkCowState {D : Type} (record : CheckpointRecord D) (plan : ChunkCowPlan)
    (replay : Option (Dict String Raster)) (replayScalars : Option (Dict String Rat)) :
    Except CheckpointError (List (String × ComposedPlane) × List (String × Rat)) := do
  refuseIf (plan.applicable = false) (.notApplicable plan.refusalReason)
  let tensors := record.thermalTensors.insertionSort fun a b => a.1 ≤ b.1
  match tensors.head? with
  | none => throw .noComposePlanes
  | some first =>
    refuseIf (plan.dirtyChunks ≠ [] ∧ replay.isNone) (.noReplay plan.dirtyChunks.length)
    checkReplay plan (tensors.map Prod.fst) replay
    let planes ← tensors.mapM (composePlane plan first.2.rows first.2.cols replay)
    checkScalars record.thermalScalars replayScalars
    pure (planes, record.thermalScalars)

end Solweig.Checkpoints
