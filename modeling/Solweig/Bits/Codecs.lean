import Mathlib.Data.BitVec
import Solweig.Bits.Windows
import Solweig.Lib.Fold

/-!
# Packed visibility

Three codecs for the visibility of the patches at each cell of a raster: one bit for each patch in
either bit order, two bits for each patch, and the bit planes. The patches of a cell are packed
into a group of bytes.
-/

namespace Solweig.Bits

open Solweig.Lib

inductive BitOrder where
  | little
  | big
  deriving DecidableEq

inductive CodecError where
  | noPatches
  | notBinary
  | notTernary
  | patchIndex (patchIndex : Int) (patchCount : Nat)
  | valuesShape (values target : Nat × Nat)
  | patchRange (start stop : Int)
  | emptyWindow (window : Window)
  | unknownDimension
  deriving DecidableEq

/-- The bytes of each cell. -/
abbrev Bytes := Nat → Nat → List (BitVec 8)

/-- One byte of each cell of a window, in place. -/
def modifyWindow (data : Bytes) (window : Window) (byteIndex : Nat)
    (f : Nat → Nat → BitVec 8 → BitVec 8) : Bytes := fun row col =>
  if window.holds row col then
    (data row col).modify byteIndex (f (row - window.rowStart) (col - window.colStart))
  else data row col

theorem length_modifyWindow {data : Bytes} {n : Nat} (h : ∀ row col, (data row col).length = n)
    (window : Window) (byteIndex : Nat) (f : Nat → Nat → BitVec 8 → BitVec 8) (row col : Nat) :
    (modifyWindow data window byteIndex f row col).length = n := by
  unfold modifyWindow
  split
  · rw [List.length_modify, h]
  · exact h row col

def byteAt (bytes : List (BitVec 8)) (byteIndex : Nat) : BitVec 8 := (bytes[byteIndex]?).getD 0

/-! ## One bit for each patch -/

/-- `np.packbits` of one byte. -/
def packByte (bitorder : BitOrder) (bits : Nat → Bool) : BitVec 8 :=
  match bitorder with
  | .little => BitVec.ofBoolListLE
      [bits 0, bits 1, bits 2, bits 3, bits 4, bits 5, bits 6, bits 7]
  | .big => BitVec.ofBoolListBE [bits 0, bits 1, bits 2, bits 3, bits 4, bits 5, bits 6, bits 7]

/-- `np.packbits`, which fills the last byte with zeros. -/
def packbits (bitorder : BitOrder) (bits : List Bool) : List (BitVec 8) :=
  (List.range ((bits.length + 7) / 8)).map fun k =>
    packByte bitorder fun lane => (bits[8 * k + lane]?).getD false

/-- `np.unpackbits` of one bit. -/
def unpackBit (bitorder : BitOrder) (byte : BitVec 8) (lane : Nat) : Bool :=
  match bitorder with
  | .little => byte.getLsbD lane
  | .big => byte.getMsbD lane

/-- `np.unpackbits` with its count. -/
def unpackbits (bitorder : BitOrder) (bytes : List (BitVec 8)) (count : Nat) : List Bool :=
  (List.range count).map fun p => unpackBit bitorder (byteAt bytes (p / 8)) (p % 8)

def bytesPerPixel (patchCount : Nat) : Nat := (patchCount + 7) / 8

structure PackedVisibility where
  rows : Nat
  cols : Nat
  patchCount : Nat
  bitorder : BitOrder
  data : Bytes
  positive : 0 < patchCount
  fits : ∀ row col, (data row col).length = bytesPerPixel patchCount

def packVisibility (rows cols patchCount : Nat) (dense : Dense Bool) (bitorder : BitOrder) :
    Except CodecError PackedVisibility :=
  if h : 0 < patchCount then
    .ok
      { rows := rows
        cols := cols
        patchCount := patchCount
        bitorder := bitorder
        data := fun row col => packbits bitorder ((List.range patchCount).map (dense row col))
        positive := h
        fits := fun row col => by simp [packbits, bytesPerPixel] }
  else .error .noPatches

namespace PackedVisibility

variable (packed : PackedVisibility)

/-- `1 << bit_index`, from the end that the order starts at. -/
def bitMask (bitorder : BitOrder) (bitIndex : Nat) : BitVec 8 :=
  match bitorder with
  | .little => 1#8 <<< bitIndex
  | .big => 1#8 <<< (7 - bitIndex)

def unpackVisibility (patchStart : Int) (patchStop : Option Int) :
    Except CodecError (Nat → Nat → List Bool) :=
  let stop := patchStop.getD packed.patchCount
  if 0 ≤ patchStart ∧ patchStart ≤ stop ∧ stop ≤ packed.patchCount then
    .ok fun row col =>
      ((unpackbits packed.bitorder (packed.data row col) packed.patchCount).take
        stop.toNat).drop patchStart.toNat
  else .error (.patchRange patchStart stop)

def unpackPatch (patchIndex : Int) : Except CodecError (Nat → Nat → Bool) :=
  if 0 ≤ patchIndex ∧ patchIndex < packed.patchCount then
    let mask := bitMask packed.bitorder (patchIndex.toNat % 8)
    .ok fun row col => (byteAt (packed.data row col) (patchIndex.toNat / 8) &&& mask) ≠ 0#8
  else .error (.patchIndex patchIndex packed.patchCount)

def setPatchWindow (update : WindowUpdate) : Except CodecError PackedVisibility := do
  refuseIf (¬ (0 ≤ update.patchIndex ∧ update.patchIndex < packed.patchCount))
    (.patchIndex update.patchIndex packed.patchCount)
  let window := update.window packed.rows packed.cols
  refuseIf (¬ update.values.All IsBinary) .notBinary
  refuseIf (update.values.shape ≠ window.shape) (.valuesShape update.values.shape window.shape)
  let bit := bitMask packed.bitorder (update.patchIndex.toNat % 8)
  pure { packed with
    data := modifyWindow packed.data window (update.patchIndex.toNat / 8) fun i j target =>
      if update.values.value i j ≠ 0 then target ||| bit else target &&& ~~~bit
    fits := length_modifyWindow packed.fits _ _ _ }

/-- Updates one after another; one that is refused changes nothing. -/
def setPatchWindows (updates : List WindowUpdate) : PackedVisibility :=
  updates.foldl (fun packed update => (packed.setPatchWindow update).toOption.getD packed) packed

end PackedVisibility

/-! ## Two bits for each patch -/

def bytesPerPixel2Bit (patchCount : Nat) : Nat := (2 * patchCount + 7) / 8

def shifts : List Nat := [0, 2, 4, 6]

structure PackedVisibility2Bit where
  rows : Nat
  cols : Nat
  patchCount : Nat
  data : Bytes
  positive : 0 < patchCount
  fits : ∀ row col, (data row col).length = bytesPerPixel2Bit patchCount

/-- The codes of the patches, filled with zeros to whole bytes, four to a byte. -/
def pack2Bit (values : List (BitVec 8)) : List (BitVec 8) :=
  (List.range ((values.length + 3) / 4)).map fun k =>
    (shifts.map fun shift => (values[4 * k + shift / 2]?).getD 0 <<< shift).sum

def packVisibility2Bit (rows cols patchCount : Nat) (dense : Dense (Fin 3)) :
    Except CodecError PackedVisibility2Bit :=
  if h : 0 < patchCount then
    .ok
      { rows := rows
        cols := cols
        patchCount := patchCount
        data := fun row col =>
          pack2Bit ((List.range patchCount).map fun p => BitVec.ofNat 8 (dense row col p))
        positive := h
        fits := fun row col => by
          simp only [pack2Bit, bytesPerPixel2Bit, List.length_map, List.length_range]
          omega }
  else .error .noPatches

namespace PackedVisibility2Bit

variable (packed : PackedVisibility2Bit)

/-- The reshape cannot tell the last dimension of an array without cells, and raises. -/
def unpackVisibility2Bit : Except CodecError (Nat → Nat → List (BitVec 8)) := do
  refuseIf (packed.rows = 0 ∨ packed.cols = 0) .unknownDimension
  pure fun row col => ((packed.data row col).flatMap fun byte =>
    shifts.map fun shift => (byte >>> shift) &&& 3#8).take packed.patchCount

def unpackPatch2Bit (patchIndex : Int) : Except CodecError (Nat → Nat → BitVec 8) :=
  if 0 ≤ patchIndex ∧ patchIndex < packed.patchCount then
    let bitShift := (patchIndex.toNat % 4) * 2
    .ok fun row col => (byteAt (packed.data row col) (patchIndex.toNat / 4) >>> bitShift) &&& 3#8
  else .error (.patchIndex patchIndex packed.patchCount)

def setPatchWindow2Bit (update : WindowUpdate) : Except CodecError PackedVisibility2Bit := do
  refuseIf (¬ (0 ≤ update.patchIndex ∧ update.patchIndex < packed.patchCount))
    (.patchIndex update.patchIndex packed.patchCount)
  let window := update.window packed.rows packed.cols
  refuseIf (¬ update.values.All IsTernary) .notTernary
  refuseIf (update.values.shape ≠ window.shape) (.valuesShape update.values.shape window.shape)
  let bitShift := (update.patchIndex.toNat % 4) * 2
  let mask := 3#8 <<< bitShift
  pure { packed with
    data := modifyWindow packed.data window (update.patchIndex.toNat / 4) fun i j target =>
      (target &&& ~~~mask) ||| (BitVec.ofNat 8 ⌊update.values.value i j⌋.toNat <<< bitShift)
    fits := length_modifyWindow packed.fits _ _ _ }

def setPatchWindows (updates : List WindowUpdate) : PackedVisibility2Bit :=
  updates.foldl (fun packed update => (packed.setPatchWindow2Bit update).toOption.getD packed)
    packed

end PackedVisibility2Bit

/-! ## Bit planes -/

def bytesPerPatch (patchCount : Nat) : Nat := (patchCount + 7) / 8

structure PackedBits where
  rows : Nat
  cols : Nat
  patchCount : Nat
  data : Bytes
  positive : 0 < patchCount
  fits : ∀ row col, (data row col).length = bytesPerPatch patchCount

def packBits (rows cols patchCount : Nat) (dense : Dense Bool) : Except CodecError PackedBits :=
  if h : 0 < patchCount then
    .ok
      { rows := rows
        cols := cols
        patchCount := patchCount
        data := fun row col => packbits .little ((List.range patchCount).map (dense row col))
        positive := h
        fits := fun row col => by simp [packbits, bytesPerPatch] }
  else .error .noPatches

namespace PackedBits

variable (packed : PackedBits)

def unpackBits : Nat → Nat → List Bool :=
  fun row col => unpackbits .little (packed.data row col) packed.patchCount

def unpackPatch (index : Int) : Except CodecError (Nat → Nat → Bool) :=
  if index < 0 ∨ packed.patchCount ≤ index then .error (.patchIndex index packed.patchCount)
  else .ok fun row col =>
    (byteAt (packed.data row col) (index.toNat / 8) >>> (index.toNat % 8)) &&& 1#8 = 1#8

/-- The target bit is cleared, then set where the values say so. An empty window is refused. -/
def setPatchWindow (update : WindowUpdate) : Except CodecError PackedBits := do
  refuseIf (update.patchIndex < 0 ∨ packed.patchCount ≤ update.patchIndex)
    (.patchIndex update.patchIndex packed.patchCount)
  let window := update.window packed.rows packed.cols
  refuseIf window.Empty (.emptyWindow window)
  refuseIf (update.values.shape ≠ window.shape) (.valuesShape update.values.shape window.shape)
  refuseIf (¬ update.values.All IsBinary) .notBinary
  let bit := 1#8 <<< (update.patchIndex.toNat % 8)
  pure { packed with
    data := modifyWindow packed.data window (update.patchIndex.toNat / 8) fun i j sub =>
      (sub &&& (bit ^^^ 0xFF#8)) ||| bit * (if update.values.value i j = 1 then 1#8 else 0#8)
    fits := length_modifyWindow packed.fits _ _ _ }

def setPatchWindows (updates : List WindowUpdate) : PackedBits :=
  updates.foldl (fun packed update => (packed.setPatchWindow update).toOption.getD packed) packed

end PackedBits

end Solweig.Bits
