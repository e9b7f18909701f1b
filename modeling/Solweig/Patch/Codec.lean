import Solweig.Bits.Windows
import Solweig.Lib.Dict
import Solweig.Lib.Fold
import Solweig.Lib.Words
import Solweig.Planner.Windows

/-!
# Result patches

How the arrays of a result become one compressed payload with its manifest, and how the payload
is read back, whole or one plane at a time. Compression, the digest and the two array functions
that may refuse a shape belong to libraries.
-/

namespace Solweig.Patch

open Solweig.Lib
open Solweig.Planner (RasterWindow)

abbrev Bytes := List Byte

/-! ## Arrays -/

/-- The bytes of the axes that are not empty can be counted in 63 bits. -/
def Fits (shape : List Nat) : Prop := (shape.filter (· ≠ 0)).prod * 4 < 2 ^ 63

instance : DecidablePred Fits := fun _ => inferInstanceAs (Decidable (_ < _))

inductive ScalarType where
  | float32
  | floating (name : String)
  | other (name : String)
  deriving DecidableEq

def ScalarType.name : ScalarType → String
  | .float32 => "float32"
  | .floating name => name
  | .other name => name

def ScalarType.isFloating : ScalarType → Bool
  | .other _ => false
  | _ => true

/-- An array with the bits of its elements in C order, as elements of 32 bits. -/
structure NdArray where
  shape : List Nat
  scalar : ScalarType
  bits : List Word
  length_eq : bits.length = shape.prod
  fits : Fits shape
  deriving DecidableEq

/-! ## Libraries -/

/-- The dimensions that a shape gives to so many elements. -/
abbrev Dims (n : Nat) := { dims : List Nat // dims.prod = n ∧ Fits dims }

structure Numpy where
  prod : List Int → Int
  /-- `none` when the elements are refused in this shape. -/
  reshape : (n : Nat) → List Int → Option (Dims n)
  prod_fits : ∀ shape : List Nat, Fits shape → prod (shape.map (↑)) = shape.prod
  reshape_nat : ∀ (n : Nat) (shape : List Nat), reshape n (shape.map (↑)) =
    if h : shape.prod = n ∧ Fits shape then some ⟨shape, h⟩ else none

/-- A compressor, and a decompressor that is fed in pieces and may refuse one. -/
structure Zstd where
  State : Type
  decompressobj : State
  decompress : State → Bytes → Option (State × Bytes)
  compress : Bytes → Bytes
  compress_ne_nil : ∀ raw, compress raw ≠ []
  /-- What was compressed comes back, in whatever pieces it is fed. -/
  pieces : ∀ raw (ps : List Bytes), (∀ p ∈ ps, p ≠ []) → ps.flatten = compress raw →
    ∃ s, feedAll decompress decompressobj ps = some (s, raw)

structure Libraries where
  numpy : Numpy
  zstd : Zstd
  /-- `hashlib.sha256(...).hexdigest()` -/
  sha256 : Bytes → String

/-! ## Errors -/

/-- `PatchCodecError` and its subclasses, with the data of their texts. -/
inductive PatchCodecError where
  | unsupportedVariables (names : List String)
  | missingArrays (names : List String)
  /-- `PayloadCompressionError` -/
  | compressionField (value : String)
  | invalidZstd
  /-- `PayloadChecksumError` -/
  | missingChecksum
  | checksumMismatch (manifest actual : String)
  /-- `PayloadSchemaError` -/
  | schemaVersion (value : Int)
  /-- `PayloadDtypeError` -/
  | notFloating (var dtype : String)
  | notFloat32 (var dtype : String)
  /-- `PayloadShapeError` -/
  | noVariables
  | unexpectedVariables (names expected : List String)
  | rank (var : String) (shape : List Int)
  | negativeShape (var : String) (shape : List Int)
  | windowMismatch (var : String) (shape : List Nat) (height width : Int)
  | notInManifest (var : String) (names : List String)
  | timeIndex (value : Int) (var : String) (depth : Int)
  /-- `PayloadLengthError` -/
  | payloadLength (actual : Nat) (implied : Int)
  | planeLength (actual : Nat) (var : String) (stop : Int)
  deriving DecidableEq

inductive Raised where
  | patch (error : PatchCodecError)
  | keyError (key : String)
  | nameError (name : String)
  | indexError
  | valueError
  deriving DecidableEq

def Raised.IsPatch : Raised → Prop
  | .patch _ => True
  | _ => False

/-! ## Manifests -/

structure VariableMeta where
  name : String
  shape : List Int
  dtype : String
  deriving DecidableEq

structure Manifest where
  schemaVersion : Int
  window : Option RasterWindow
  vars : List VariableMeta
  compression : String
  checksum : Option String

def patchSchemaVersion : Int := 1

def buildManifest (window : RasterWindow) (vars : List VariableMeta) (checksum : String) :
    Manifest where
  schemaVersion := patchSchemaVersion
  window := some window
  vars
  compression := "zstd"
  checksum := some checksum

/-! ## Encoding -/

def supportedVariables : List String := ["utci", "tmrt", "shadow"]

/-- `arrays[name]` -/
def item (arrays : Dict String NdArray) (name : String) : Except Raised NdArray :=
  match arrays[name]? with
  | some array => .ok array
  | none => .error (.keyError name)

/-- The class that it raises for another rank has no definition. -/
def variableMeta (name : String) (shape : List Nat) : Except Raised VariableMeta := do
  refuseIf (shape.length ≠ 3) (.nameError "PatchShapeError")
  pure { name, shape := shape.map (↑), dtype := "float32" }

def uncompressedBytes (arrays : Dict String NdArray) (vars : List String) :
    Except Raised Bytes := do
  let chunks ← vars.mapM fun name => do
    let array ← item arrays name
    refuseIf (array.shape.length ≠ 3) (.nameError "PatchShapeError")
    refuseIf (array.scalar.isFloating = false) (.patch (.notFloating name array.scalar.name))
    pure (bytesOf array.bits)
  pure chunks.flatten

def checksumPayload (lib : Libraries) (payload : Bytes) : String :=
  "sha256:" ++ lib.sha256 payload

def encodePayload (lib : Libraries) (arrays : Dict String NdArray) (vars : List String) :
    Except Raised (List VariableMeta × Bytes × String) := do
  let unknown := vars.filter (· ∉ supportedVariables)
  refuseIf (unknown ≠ []) (.patch (.unsupportedVariables unknown))
  let missing := vars.filter fun name => arrays[name]?.isNone
  refuseIf (missing ≠ []) (.patch (.missingArrays missing))
  let metas ← vars.mapM fun name => do variableMeta name (← item arrays name).shape
  let payload := lib.zstd.compress (← uncompressedBytes arrays vars)
  pure (metas, payload, checksumPayload lib payload)

/-! ## Decoding -/

def itemsize : Int := 4

def expectedNbytes (np : Numpy) (vars : List VariableMeta) : Except Raised Int :=
  vars.foldlM (fun total entry => do
    refuseIf (entry.dtype ≠ "float32") (.patch (.notFloat32 entry.name entry.dtype))
    refuseIf (entry.shape.length ≠ 3) (.patch (.rank entry.name entry.shape))
    refuseIf (∃ v ∈ entry.shape, v < 0) (.patch (.negativeShape entry.name entry.shape))
    pure (total + np.prod entry.shape * itemsize)) 0

def decompressPayload (lib : Libraries) (payload : Bytes) (manifest : Manifest) :
    Except Raised Bytes := do
  refuseIf (manifest.compression ≠ "zstd") (.patch (.compressionField manifest.compression))
  match lib.zstd.decompress lib.zstd.decompressobj payload with
  | some (_, raw) => pure raw
  | none => .error (.patch .invalidZstd)

def verifyPayloadChecksum (lib : Libraries) (payload : Bytes) (checksum : String) :
    Except Raised Unit :=
  refuseIf (checksumPayload lib payload ≠ checksum)
    (.patch (.checksumMismatch checksum (checksumPayload lib payload)))

/-- `raw[start:stop]` -/
def slice (raw : Bytes) (start stop : Int) : Bytes :=
  (raw.take (Bits.clampIndex raw.length stop)).drop (Bits.clampIndex raw.length start)

/-- `np.frombuffer(block, dtype="<f4").reshape(shape)`, copied. -/
def fromBlock (np : Numpy) (block : Bytes) (shape : List Int) : Except Raised NdArray :=
  match wordsOf block with
  | none => .error .valueError
  | some bits =>
    match np.reshape bits.length shape with
    | none => .error .valueError
    | some dims => .ok {
        shape := dims.val, scalar := .float32, bits
        length_eq := dims.property.1.symm, fits := dims.property.2 }

/-- What is checked before the arrays are unpacked. -/
def checkRaw (np : Numpy) (manifest : Manifest) (raw : Bytes)
    (expectedVariables : Option (List String)) : Except Raised Unit := do
  refuseIf (manifest.schemaVersion ≠ patchSchemaVersion)
    (.patch (.schemaVersion manifest.schemaVersion))
  refuseIf (manifest.vars = []) (.patch .noVariables)
  let names := manifest.vars.map (·.name)
  expectedVariables.toList.forM fun expected =>
    refuseIf (names ≠ expected) (.patch (.unexpectedVariables names expected))
  let total ← expectedNbytes np manifest.vars
  refuseIf (raw.length ≠ total) (.patch (.payloadLength raw.length total))

/-- One variable, at its offset. -/
def unpackStep (np : Numpy) (raw : Bytes) (s : Dict String NdArray × Int) (entry : VariableMeta) :
    Except Raised (Dict String NdArray × Int) := do
  let count := np.prod entry.shape
  let array ← fromBlock np (slice raw s.2 (s.2 + count * itemsize)) entry.shape
  pure (s.1.insert entry.name array, s.2 + count * itemsize)

def unpack (np : Numpy) (manifest : Manifest) (raw : Bytes) :
    Except Raised (Dict String NdArray) := do
  pure (← manifest.vars.foldlM (unpackStep np raw) (∅, 0)).1

/-- The window of the manifest against the rows and columns of each array. -/
def crossCheckWindow (manifest : Manifest) (arrays : Dict String NdArray) : Except Raised Unit :=
  manifest.window.toList.forM fun window => do
    let height := window.rowStop - window.rowStart
    let width := window.colStop - window.colStart
    (manifest.vars.map (·.name)).eraseDups.forM fun name => do
      let array ← item arrays name
      match array.shape with
      | _ :: rows :: cols :: _ =>
        refuseIf (rows ≠ height ∨ cols ≠ width)
          (.patch (.windowMismatch name array.shape height width))
      | _ => .error .indexError

def decodeRaw (np : Numpy) (manifest : Manifest) (raw : Bytes)
    (expectedVariables : Option (List String)) : Except Raised (Dict String NdArray) := do
  checkRaw np manifest raw expectedVariables
  let arrays ← unpack np manifest raw
  crossCheckWindow manifest arrays
  pure arrays

def checkChecksum (lib : Libraries) (manifest : Manifest) (payload : Bytes) :
    Except Raised Unit :=
  match manifest.checksum with
  | none => .error (.patch .missingChecksum)
  | some checksum => do
    refuseIf (checksum = "") (.patch .missingChecksum)
    verifyPayloadChecksum lib payload checksum

def decodePayload (lib : Libraries) (manifest : Manifest) (payload : Bytes)
    (verifyChecksum : Bool) (expectedVariables : Option (List String)) :
    Except Raised (Dict String NdArray) := do
  if verifyChecksum then checkChecksum lib manifest payload
  let raw ← decompressPayload lib payload manifest
  decodeRaw lib.numpy manifest raw expectedVariables

/-! ## One plane -/

structure Span where
  start : Int
  stop : Int
  depth : Int
  rows : Int
  cols : Int

/-- The entries from an offset on, until the one of the variable. -/
def findSpan (np : Numpy) (var : String) : Int → List VariableMeta → Except Raised (Option Span)
  | _, [] => .ok none
  | offset, entry :: rest =>
    let count := np.prod entry.shape * itemsize
    if entry.name = var then
      match entry.shape with
      | [depth, rows, cols] =>
        .ok (some { start := offset, stop := offset + count, depth, rows, cols })
      | shape => .error (.patch (.rank entry.name shape))
    else findSpan np var (offset + count) rest

def planeSpan (np : Numpy) (manifest : Manifest) (var : String) : Except Raised Span := do
  refuseIf (manifest.schemaVersion ≠ patchSchemaVersion)
    (.patch (.schemaVersion manifest.schemaVersion))
  match ← findSpan np var 0 manifest.vars with
  | some span => pure span
  | none => .error (.patch (.notInManifest var (manifest.vars.map (·.name))))

/-- The size of the pieces that a plane is streamed in. -/
def decompressChunk : Nat := 64 * 1024

/-- A manifest without a checksum is not checked. -/
def checkPlaneChecksum (lib : Libraries) (manifest : Manifest) (payload : Bytes) :
    Except Raised Unit :=
  match manifest.checksum with
  | some checksum => if checksum ≠ "" then verifyPayloadChecksum lib payload checksum else pure ()
  | none => pure ()

/-- The bytes of a plane, with its rows and columns. -/
def planeBlock (lib : Libraries) (manifest : Manifest) (payload : Bytes) (var : String)
    (timeIndex : Int) : Except Raised (Bytes × Int × Int) := do
  checkPlaneChecksum lib manifest payload
  let span ← planeSpan lib.numpy manifest var
  refuseIf (¬ (0 ≤ timeIndex ∧ timeIndex < span.depth))
    (.patch (.timeIndex timeIndex var span.depth))
  let planeStart := span.start + timeIndex * span.rows * span.cols * itemsize
  let planeStop := planeStart + span.rows * span.cols * itemsize
  match feedUntil lib.zstd.decompress (fun buffer => planeStop ≤ buffer.length)
      lib.zstd.decompressobj [] (piecesOf decompressChunk payload) with
  | none => .error (.patch .invalidZstd)
  | some buffer => do
    refuseIf (buffer.length < planeStop) (.patch (.planeLength buffer.length var planeStop))
    pure (slice buffer planeStart planeStop, span.rows, span.cols)

def decodePlane (lib : Libraries) (manifest : Manifest) (payload : Bytes) (var : String)
    (timeIndex : Int) : Except Raised NdArray := do
  let (block, rows, cols) ← planeBlock lib manifest payload var timeIndex
  fromBlock lib.numpy block [rows, cols]

end Solweig.Patch
