import Mathlib.Algebra.BigOperators.Group.List.Basic
import Solweig.Lib.Dict
import Solweig.Lib.Run

/-!
# Resident inputs of the radiation kernels

Host memory, the device buffers and the mirrors that `bind` compares with. A copy from pageable
memory has consumed its source when the call returns, so an upload is done within its bind.
-/

namespace Solweig.Cuda

open Solweig.Lib

/-! ## Inputs -/

inductive Dtype where
  | float32
  | int64
  | int32
  | int8
  | uint8
  deriving DecidableEq, Repr

def Dtype.itemSize : Dtype → Nat
  | .float32 => 4
  | .int64 => 8
  | .int32 => 4
  | .int8 => 1
  | .uint8 => 1

/-- `_RAD_DAY_INPUTS` -/
def radDayInputs : List (String × Dtype) :=
  [("buildings", .float32), ("aspect", .float32), ("wallbol", .float32), ("alb_grid", .float32),
    ("emis_grid", .float32), ("svfbuveg", .float32), ("diffsh", .float32), ("sh_pb", .uint8),
    ("veg_pb", .uint8), ("vbsh_pb", .uint8), ("sun_pb", .uint8), ("shd_pb", .uint8),
    ("dp_rank", .int64), ("guard_true", .int8), ("shadow", .float32), ("sunwall", .float32),
    ("albshadow", .float32), ("alb", .float32), ("Lup_pre", .float32), ("gvflup_extra", .float32),
    ("lv2", .float32), ("ster", .float32), ("psin", .float32), ("pcos", .float32),
    ("lumChi", .float32), ("lsky_d2", .float32), ("lsky_s2", .float32), ("card_e", .int8),
    ("card_s", .int8), ("card_w", .int8), ("card_n", .int8), ("ccos_e", .float32),
    ("ccos_s", .float32), ("ccos_w", .float32), ("ccos_n", .float32), ("walk_az_low", .float32),
    ("walk_az_high", .float32), ("walk_az_branch", .int32), ("walk_dy", .int32),
    ("walk_dx", .int32), ("jE", .int8), ("jS", .int8), ("jW", .int8), ("jN", .int8),
    ("F_sh", .float32), ("Tg_plane", .float32), ("m_lup_in", .float32), ("m_e_in", .float32),
    ("m_s_in", .float32), ("m_w_in", .float32), ("m_n_in", .float32), ("m_tg_in", .float32)]

/-- `_RAD_NIGHT_INPUTS` -/
def radNightInputs : List (String × Dtype) :=
  [("sh_pb", .uint8), ("veg_pb", .uint8), ("vbsh_pb", .uint8), ("night_Lup", .float32),
    ("ster", .float32), ("psin", .float32), ("pcos", .float32), ("lsky_d2", .float32),
    ("lsky_s2", .float32), ("card_e", .int8), ("card_s", .int8), ("card_w", .int8),
    ("card_n", .int8), ("ccos_e", .float32), ("ccos_s", .float32), ("ccos_w", .float32),
    ("ccos_n", .float32)]

def inputDtype (name : String) : Option Dtype :=
  ((radDayInputs ++ radNightInputs).find? fun entry => entry.1 = name).map (·.2)

/-! ## Memory -/

/-- The byte at each address of host memory, or at each offset of a buffer. -/
abbrev Bytes := Nat → UInt8

/-- How `ascontiguousarray` gets the bytes of an array. -/
inductive Layout where
  /-- Contiguous and of the dtype of the input already: the array itself, at its address. -/
  | direct (base : Nat)
  /-- Any other strides or dtype: a fresh array, with what the conversion reads. -/
  | converted (gather : Bytes → Bytes)

structure HostArray where
  shape : List Nat
  layout : Layout

def HostArray.contents (memory : Bytes) (a : HostArray) : Bytes :=
  match a.layout with
  | .direct base => fun j => memory (base + j)
  | .converted gather => gather memory

/-- The array that a bind keeps to compare with. -/
inductive Mirror where
  | view (base : Nat)
  | copy (bytes : Bytes)

def Mirror.bytes (memory : Bytes) : Mirror → Bytes
  | .view base => fun j => memory (base + j)
  | .copy bytes => bytes

def HostArray.mirror (memory : Bytes) (a : HostArray) : Mirror :=
  match a.layout with
  | .direct base => .view base
  | .converted gather => .copy (gather memory)

/-! ## Chunks -/

def nbytes (shape : List Nat) (dtype : Dtype) : Nat := shape.prod * dtype.itemSize

/-- The byte ranges of the row chunks; a table of one axis is a single chunk. -/
def chunks (chunkRows : Nat) (shape : List Nat) (dtype : Dtype) : List (Nat × Nat) :=
  match shape with
  | rows :: axis :: axes =>
    let rowBytes := (axis :: axes).prod * dtype.itemSize
    (List.range ((rows + chunkRows - 1) / chunkRows)).map fun k =>
      (k * chunkRows * rowBytes, min (k * chunkRows + chunkRows) rows * rowBytes)
  | _ => [(0, nbytes shape dtype)]

def Within (chunk : Nat × Nat) (j : Nat) : Prop := chunk.1 ≤ j ∧ j < chunk.2

instance (chunk : Nat × Nat) (j : Nat) : Decidable (Within chunk j) :=
  inferInstanceAs (Decidable (_ ∧ _))

/-- `_chunk_bytes_equal` -/
def ChunkEqual (a b : Bytes) (chunk : Nat × Nat) : Prop := ∀ j, Within chunk j → a j = b j

instance (a b : Bytes) (chunk : Nat × Nat) : Decidable (ChunkEqual a b chunk) :=
  decidable_of_iff (∀ j < chunk.2, chunk.1 ≤ j → a j = b j)
    ⟨fun h j hj => h j hj.2 hj.1, fun h j hlt hle => h j ⟨hle, hlt⟩⟩

/-- One turn of `_upload_changed`, on the device buffer and the count of bytes sent. -/
def uploadChunk (mirror new : Bytes) (dev : Bytes × Nat) (chunk : Nat × Nat) : Bytes × Nat :=
  if ChunkEqual mirror new chunk then dev
  else (fun j => if Within chunk j then new j else dev.1 j, dev.2 + (chunk.2 - chunk.1))

/-- `_upload_changed` -/
def uploadChanged (chunkRows : Nat) (shape : List Nat) (dtype : Dtype) (mirror new dev : Bytes) :
    Bytes × Nat :=
  (chunks chunkRows shape dtype).foldl (uploadChunk mirror new) (dev, 0)

/-! ## The runner -/

structure Bound where
  dev : Bytes
  mirror : Mirror
  shape : List Nat
  dtype : Dtype
  -- history only: what the array of the last bind held at that bind
  seen : Bytes

inductive ResidencyError where
  | closed
  | unknownInput (name : String)
  | changedShape (name : String) (old new : List Nat)

/-- `ResidentRadRunner`, with the memory of its caller. -/
structure Runner where
  memory : Bytes
  chunkRows : Nat
  chunkRows_pos : 0 < chunkRows
  inputs : Dict String Bound
  h2dBytes : Nat
  closed : Bool

/-- The arguments of a bind, a dictionary. -/
structure Arrays where
  entries : List (String × HostArray)
  nodup : (entries.map (·.1)).Nodup

def bindInput (runner : Runner) (entry : String × HostArray) : Except ResidencyError Runner :=
  match inputDtype entry.1 with
  | none => .error (.unknownInput entry.1)
  | some dtype =>
    let new := entry.2.contents runner.memory
    let mirror := entry.2.mirror runner.memory
    let shape := entry.2.shape
    match runner.inputs[entry.1]? with
    | none =>
      .ok { runner with
        inputs := runner.inputs.insert entry.1 { dev := new, mirror, shape, dtype, seen := new }
        h2dBytes := runner.h2dBytes + nbytes shape dtype }
    | some bound =>
      if shape ≠ bound.shape then .error (.changedShape entry.1 bound.shape shape)
      else
        let (dev, sent) := uploadChanged runner.chunkRows shape dtype
          (bound.mirror.bytes runner.memory) new bound.dev
        .ok { runner with
          inputs := runner.inputs.insert entry.1 { bound with dev, mirror, seen := new }
          h2dBytes := runner.h2dBytes + sent }

/-- The loop of `bind`. An input that is refused ends it, and those before it stay bound. -/
def bindInputs (runner : Runner) : List (String × HostArray) → Runner × Option ResidencyError
  | [] => (runner, none)
  | entry :: rest =>
    match bindInput runner entry with
    | .error e => (runner, some e)
    | .ok runner => bindInputs runner rest

def bind (runner : Runner) (arrays : Arrays) : Runner × Option ResidencyError :=
  if runner.closed then (runner, some .closed) else bindInputs runner arrays.entries

/-- An in-place write of the caller. -/
def write (runner : Runner) (address : Nat) (bytes : List UInt8) : Runner :=
  { runner with memory := fun a =>
      if address ≤ a then (bytes[a - address]?).getD (runner.memory a) else runner.memory a }

inductive DeviceEvent where
  | write (address : Nat) (bytes : List UInt8)
  | bind (arrays : Arrays)
  | close

def deviceStep (runner : Runner) : DeviceEvent → Option Runner
  | .write address bytes => some (write runner address bytes)
  | .bind arrays => some (bind runner arrays).1
  | .close => some { runner with inputs := ∅, closed := true }

def Runner.fresh (memory : Bytes) (chunkRows : Nat) (h : 0 < chunkRows) : Runner where
  memory
  chunkRows
  chunkRows_pos := h
  inputs := ∅
  h2dBytes := 0
  closed := false

end Solweig.Cuda
