import Mathlib.Data.String.Basic
import Solweig.Json
import Solweig.Lib.Chunks
import Solweig.Lib.Disk
import Solweig.Lib.Fold
import Solweig.Persist.RevisionNames

/-!
# The occlusion state store

The persisted occlusion states of one cache: the files of a revision, the commit with its prune,
and the load with its checks.
-/

namespace Solweig.Persist

open Solweig.Lib Solweig.Lib.Chunks Solweig.Lib.Disk

/-! ## Arrays -/

structure DType where
  name : String
  itemBytes : Nat
  deriving DecidableEq

def uint8 : DType := ⟨"uint8", 1⟩

def float32 : DType := ⟨"float32", 4⟩

/-- The bytes are in row order. -/
structure NpArray where
  dtype : DType
  shape : List Nat
  bytes : List UInt8
  sized : bytes.length = dtype.itemBytes * shape.prod
  deriving DecidableEq

/-- `ceil(patch_count / 8)` -/
def bytesPerPixel (patchCount : Int) : Int := (patchCount + 7) / 8

/-- The bytes of one cell of packed data, whose last axis is within a cell. -/
def cellBytes (data : NpArray) (row col : Nat) : List UInt8 :=
  let width := (data.shape.drop 2).prod
  (data.bytes.drop ((row * data.shape.getD 1 0 + col) * width)).take width

/-- A slice ends where the array does. -/
def sliced (span : Span) (size : Nat) : List Nat :=
  List.range' span.start (min span.stop size - span.start)

def blockBytes (data : NpArray) (block : Block) : List UInt8 :=
  (sliced block.rows (data.shape.getD 0 0)).flatMap fun row =>
    (sliced block.cols (data.shape.getD 1 0)).flatMap fun col => cellBytes data row col

/-! ## States -/

structure VegOcclusionKey where
  siteId : String
  tileKey : String
  cacheManifestSha256 : String
  sceneRevision : Int
  patchGeometryId : String
  schemaVersion : Int
  deriving DecidableEq

abbrev ChunkChecksums := Dict String (List String)

structure VegOcclusionState where
  key : VegOcclusionKey
  vegshPacked : NpArray
  vbshPacked : NpArray
  patchCount : Int
  canopyScene : NpArray
  chunkVersions : NpArray
  chunkChecksums : ChunkChecksums
  rows : Int
  cols : Int
  deriving DecidableEq

/-- What the store is given: the identity of its cache, the hash, and what the readers make of
values that a commit does not write. -/
structure OcclusionSite where
  siteId : String
  tileKey : String
  manifestSha256 : String
  patchGeometryId : String
  sha256 : List UInt8 → String
  /-- `str` of a value that is no text. -/
  textOf : Json → String
  /-- `np.asarray(canopy, dtype=np.float32)` of other arrays; `none` raises. -/
  castFloat32 : NpArray → Option NpArray

def occlusionSchemaVersion : Int := 1

def chunkCells : Nat := 64

def stateKeyFor (site : OcclusionSite) (sceneRevision : Int) : VegOcclusionKey where
  siteId := site.siteId
  tileKey := site.tileKey
  cacheManifestSha256 := site.manifestSha256
  sceneRevision
  patchGeometryId := site.patchGeometryId
  schemaVersion := occlusionSchemaVersion

def keyMatchesCache (site : OcclusionSite) (key : VegOcclusionKey) : Bool :=
  key = stateKeyFor site key.sceneRevision

def chunkDigests (site : OcclusionSite) (rows cols : Nat) (data : NpArray) : List String :=
  (chunkKeys rows cols chunkCells).map fun key =>
    site.sha256 (blockBytes data (chunkBlock rows cols chunkCells key))

/-- `_chunk_checksums_of`, on the grid of the first stack. -/
def chunkChecksumsOf (site : OcclusionSite) (vegsh vbsh : NpArray) : ChunkChecksums :=
  let rows := vegsh.shape.getD 0 0
  let cols := vegsh.shape.getD 1 0
  Dict.ofEntries
    [("vegsh", chunkDigests site rows cols vegsh), ("vbsh", chunkDigests site rows cols vbsh)]

/-- A stack of packed planes on the grid of a state. -/
def PackedFor (state : VegOcclusionState) (data : NpArray) : Prop :=
  data.dtype = uint8 ∧
    data.shape = [state.rows.toNat, state.cols.toNat, (bytesPerPixel state.patchCount).toNat]

/-- A state of the cache, as it is built and edited. -/
structure LiveState (site : OcclusionSite) where
  revision : Nat
  state : VegOcclusionState
  key : state.key = stateKeyFor site revision
  patches : 0 < state.patchCount
  vegsh : PackedFor state state.vegshPacked
  vbsh : PackedFor state state.vbshPacked
  canopy : state.canopyScene.dtype = float32
  checksums : state.chunkChecksums = chunkChecksumsOf site state.vegshPacked state.vbshPacked

/-! ## Files -/

/-- What a reader makes of the bytes of a file. It raises an `OSError` or a `ValueError` where
they are unreadable, and where it fails something else. -/
inductive Read (α : Type) where
  | value (a : α)
  | unreadable
  | fails

structure OcclusionFile where
  asArray : Read NpArray
  asJson : Read Json

def arrayFile (data : NpArray) : OcclusionFile := ⟨.value data, .unreadable⟩

def jsonFile (meta_ : Json) : OcclusionFile := ⟨.unreadable, .value meta_⟩

abbrev OcclusionDisk := Directories OcclusionFile

def vegshFile : String := "vegsh_packed.npy"

def vbshFile : String := "vbsh_packed.npy"

def canopyFile : String := "canopy_scene.npy"

def versionsFile : String := "chunk_versions.npy"

def stateFile : String := "state.json"

def checksumsJson (checksums : ChunkChecksums) : Json :=
  .obj (checksums.toList.map fun (stack, digests) => (stack, .arr (digests.map .str)))

/-- Sorted keys, here and in `stateFields`. -/
def keyFields (key : VegOcclusionKey) : List (String × Json) :=
  [("cache_manifest_sha256", .str key.cacheManifestSha256),
    ("patch_geometry_id", .str key.patchGeometryId), ("scene_revision", .int key.sceneRevision),
    ("schema_version", .int key.schemaVersion), ("site_id", .str key.siteId),
    ("tile_key", .str key.tileKey)]

/-- `state.json` -/
def stateFields (state : VegOcclusionState) : List (String × Json) :=
  [("chunk_checksums", checksumsJson state.chunkChecksums), ("cols", .int state.cols),
    ("key", .obj (keyFields state.key)), ("patch_count", .int state.patchCount),
    ("rows", .int state.rows)]

/-- The files of a state, in the order in which they are written. -/
def stateFiles (state : VegOcclusionState) : List (String × OcclusionFile) :=
  [(vegshFile, arrayFile state.vegshPacked), (vbshFile, arrayFile state.vbshPacked),
    (canopyFile, arrayFile state.canopyScene), (versionsFile, arrayFile state.chunkVersions),
    (stateFile, jsonFile (.obj (stateFields state)))]

/-! ## Commit -/

inductive PersistOp where
  | removeOld (file : Option String)
  | clearStaging (file : Option String)
  | makeStaging
  | write (file : String)
  | rename
  | removeStale (name : String) (file : Option String)

/-- `rev-*` directories by name: staging directories are among them. -/
def revGlob (disk : OcclusionDisk) : List String :=
  (disk.keys.filter fun name => "rev-".toList.isPrefixOf name.toList).insertionSort (· ≤ ·)

def prune (fate : PersistOp → Fate) (keep : Nat) : Crash OcclusionDisk Unit := do
  let disk ← Txn.get
  let revisions := revGlob disk
  (revisions.take (revisions.length - keep)).forM fun name =>
    removeTreeIgnoring (fun file => fate (.removeStale name file)) name

/-- The replacement is staged once the predecessor is gone. -/
def stageState (fate : PersistOp → Fate) (revision : Nat) (state : VegOcclusionState) :
    Crash OcclusionDisk Unit := do
  removeIfThere (fun file => fate (.removeOld file)) (revName revision)
  removeIfThere (fun file => fate (.clearStaging file)) (stagingName revision)
  operation (fate .makeStaging) (makeDir (stagingName revision))
  (stateFiles state).forM fun entry =>
    operation (fate (.write entry.1)) (writeFile (stagingName revision) entry.1 entry.2)

/-- `_persist` -/
def persist (fate : PersistOp → Fate) (revision : Nat) (state : VegOcclusionState) :
    Crash OcclusionDisk Unit := do
  stageState fate revision state
  operation (fate .rename) (rename (stagingName revision) (revName revision))
  prune fate 2

/-! ## Load -/

inductive LoadFailure where
  /-- `VegOcclusionStateError` -/
  | rejected
  /-- Any other error. -/
  | raised
  deriving DecidableEq

def Read.load {α : Type} : Read α → Except LoadFailure α
  | .value a => .ok a
  | .unreadable => .error .rejected
  | .fails => .error .raised

def readArray (files : Dict String OcclusionFile) (name : String) : Except LoadFailure NpArray :=
  match files[name]? with
  | some file => file.asArray.load
  | none => .error .rejected

def readJson (files : Dict String OcclusionFile) (name : String) : Except LoadFailure Json :=
  match files[name]? with
  | some file => file.asJson.load
  | none => .error .rejected

def orRaise {α : Type} (value : Option α) : Except LoadFailure α :=
  match value with
  | some a => .ok a
  | none => .error .raised

/-- `meta[...]` and `meta.get(...)` of anything but an object raise. -/
def fieldsOf : Json → Except LoadFailure (Dict String Json)
  | .obj fields => .ok (Dict.ofEntries fields)
  | _ => .error .raised

/-- `meta.get(name, {})` -/
def objectField (fields : Dict String Json) (name : String) : Json := fields.getD name (.obj [])

def textField (site : OcclusionSite) (fields : Dict String Json) (name : String) :
    Except LoadFailure String :=
  (orRaise fields[name]?).map fun value =>
    match value with
    | .str text => text
    | other => site.textOf other

def intField (fields : Dict String Json) (name : String) : Except LoadFailure Int :=
  match fields[name]? with
  | some value => orRaise value.pyInt
  | none => .error .raised

def loadKey (site : OcclusionSite) (fields : Dict String Json) :
    Except LoadFailure VegOcclusionKey := do
  let siteId ← textField site fields "site_id"
  let tileKey ← textField site fields "tile_key"
  let cacheManifestSha256 ← textField site fields "cache_manifest_sha256"
  let sceneRevision ← intField fields "scene_revision"
  let patchGeometryId ← textField site fields "patch_geometry_id"
  let schemaVersion ← orRaise (fields.getD "schema_version" (.int (-1))).pyInt
  pure { siteId, tileKey, cacheManifestSha256, sceneRevision, patchGeometryId, schemaVersion }

/-- `PackedVisibility.__post_init__` -/
def packed (data : NpArray) (patchCount : Int) : Except LoadFailure NpArray := do
  refuseIf (patchCount ≤ 0) .raised
  refuseIf (data.dtype ≠ uint8) .raised
  refuseIf ((data.shape.getLast?).map (fun n : Nat => (n : Int)) ≠ some (bytesPerPixel patchCount))
    .raised
  pure data

/-- `list(...)` -/
def listOf : Json → Except LoadFailure (List Json)
  | .arr items => .ok items
  | .str text => .ok (text.toList.map fun c => .str (String.singleton c))
  | .obj fields => .ok ((fields.map (·.1)).eraseDups.map .str)
  | _ => .error .raised

def expectedChecksums (fields : Dict String Json) :
    Except LoadFailure (Dict String (List Json)) := do
  let entries ← fieldsOf (objectField fields "chunk_checksums")
  let lists ← entries.toList.mapM fun (stack, digests) => (listOf digests).map fun l => (stack, l)
  pure (Dict.ofEntries lists)

/-- Digests as they are compared with those of `state.json`. -/
def recorded (checksums : ChunkChecksums) : Dict String (List Json) :=
  checksums.map fun _ digests => digests.map Json.str

/-- The grid of the first stack has two axes, and its chunks index three axes of the second. -/
def checkAxes (vegsh vbsh : NpArray) : Except LoadFailure Unit := do
  refuseIf (vegsh.shape.length ≠ 3) .raised
  refuseIf (vbsh.shape.length < 3 ∧ 0 < vegsh.shape.getD 0 0 ∧ 0 < vegsh.shape.getD 1 0) .raised

def asFloat32 (site : OcclusionSite) (data : NpArray) : Except LoadFailure NpArray :=
  if data.dtype = float32 then .ok data else orRaise (site.castFloat32 data)

/-- What is read of a revision, in the order in which it is read. -/
structure RevisionFiles where
  stateMeta : Json
  vegsh : NpArray
  vbsh : NpArray
  canopy : NpArray
  versions : NpArray

def readRevision (files : Dict String OcclusionFile) : Except LoadFailure RevisionFiles := do
  let stateMeta ← readJson files stateFile
  let vegsh ← readArray files vegshFile
  let vbsh ← readArray files vbshFile
  let canopy ← readArray files canopyFile
  let versions ← readArray files versionsFile
  pure { stateMeta, vegsh, vbsh, canopy, versions }

def checkRevision (site : OcclusionSite) (read : RevisionFiles) :
    Except LoadFailure VegOcclusionState := do
  let fields ← fieldsOf read.stateMeta
  let key ← fieldsOf (objectField fields "key") >>= loadKey site
  refuseIf (key.schemaVersion ≠ occlusionSchemaVersion) .rejected
  let patchCount ← intField fields "patch_count"
  let vegsh ← packed read.vegsh patchCount
  let vbsh ← packed read.vbsh patchCount
  let expected ← expectedChecksums fields
  checkAxes vegsh vbsh
  let actual := chunkChecksumsOf site vegsh vbsh
  refuseIf (expected ≠ recorded actual) .rejected
  let canopyScene ← asFloat32 site read.canopy
  let rows ← intField fields "rows"
  let cols ← intField fields "cols"
  pure
    { key
      vegshPacked := vegsh
      vbshPacked := vbsh
      patchCount
      canopyScene
      chunkVersions := read.versions
      chunkChecksums := actual
      rows
      cols }

/-- `_load_revision` -/
def loadRevision (site : OcclusionSite) (files : Dict String OcclusionFile) :
    Except LoadFailure VegOcclusionState :=
  readRevision files >>= checkRevision site

/-- The walk of `_load_latest` over the names, newest first. -/
def loadFirst (site : OcclusionSite) (disk : OcclusionDisk) :
    List String → Except LoadFailure (Option VegOcclusionState)
  | [] => .ok none
  | name :: names =>
    match loadRevision site (disk[name]?.getD ∅) with
    | .ok state => .ok (if keyMatchesCache site state.key then some state else none)
    | .error .rejected => loadFirst site disk names
    | .error .raised => .error .raised

/-- `_load_latest` -/
def loadLatest (site : OcclusionSite) (disk : OcclusionDisk) :
    Except LoadFailure (Option VegOcclusionState) :=
  loadFirst site disk (revGlob disk).reverse

end Solweig.Persist
