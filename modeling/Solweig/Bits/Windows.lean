import Mathlib.Algebra.Order.Floor.Ring
import Mathlib.Data.Rat.Floor
import Mathlib.Logic.Function.Basic

/-!
# Window updates

An update writes the values of one patch in a window of the raster. The dense arrays that the
packed ones stand for take the same updates.
-/

namespace Solweig.Bits

/-! ## Windows -/

/-- `slice(start, stop)` -/
structure PySlice where
  start : Option Int
  stop : Option Int
  deriving DecidableEq

/-- A negative index counts from the end, and none goes beyond the axis. -/
def clampIndex (n : Nat) (index : Int) : Nat :=
  if index < 0 then (index + n).toNat else min index.toNat n

def PySlice.bounds (slice : PySlice) (n : Nat) : Nat × Nat :=
  ((slice.start.map (clampIndex n)).getD 0, (slice.stop.map (clampIndex n)).getD n)

/-- The cells of an array that two slices select. -/
structure Window where
  rowStart : Nat
  rowStop : Nat
  colStart : Nat
  colStop : Nat
  deriving DecidableEq

namespace Window

variable (window : Window)

def holds (row col : Nat) : Prop :=
  (window.rowStart ≤ row ∧ row < window.rowStop) ∧ window.colStart ≤ col ∧ col < window.colStop

instance (row col : Nat) : Decidable (window.holds row col) :=
  inferInstanceAs (Decidable (_ ∧ _))

def shape : Nat × Nat := (window.rowStop - window.rowStart, window.colStop - window.colStart)

def Empty : Prop := window.rowStop ≤ window.rowStart ∨ window.colStop ≤ window.colStart

instance : Decidable window.Empty := inferInstanceAs (Decidable (_ ∨ _))

variable {window}

theorem not_holds_of_empty (h : window.Empty) (row col : Nat) : ¬ window.holds row col := by
  unfold Empty at h
  unfold holds
  omega

end Window

/-! ## Updates -/

/-- A two-dimensional array of numbers. -/
structure Values where
  rows : Nat
  cols : Nat
  value : Nat → Nat → Rat

def Values.shape (values : Values) : Nat × Nat := (values.rows, values.cols)

def Values.All (values : Values) (p : Rat → Prop) : Prop :=
  ∀ i < values.rows, ∀ j < values.cols, p (values.value i j)

instance (values : Values) (p : Rat → Prop) [DecidablePred p] : Decidable (values.All p) :=
  inferInstanceAs (Decidable (∀ i < values.rows, ∀ j < values.cols, p (values.value i j)))

def IsBinary (value : Rat) : Prop := value = 0 ∨ value = 1

def IsTernary (value : Rat) : Prop := value = 0 ∨ value = 1 ∨ value = 2

instance : DecidablePred IsBinary := fun _ => inferInstanceAs (Decidable (_ ∨ _))

instance : DecidablePred IsTernary := fun _ => inferInstanceAs (Decidable (_ ∨ _))

structure WindowUpdate where
  patchIndex : Int
  rowSlice : PySlice
  colSlice : PySlice
  values : Values

def WindowUpdate.window (update : WindowUpdate) (rows cols : Nat) : Window where
  rowStart := (update.rowSlice.bounds rows).1
  rowStop := (update.rowSlice.bounds rows).2
  colStart := (update.colSlice.bounds cols).1
  colStop := (update.colSlice.bounds cols).2

/-! ## Dense arrays -/

/-- The value of each patch at each cell. -/
abbrev Dense (α : Type) := Nat → Nat → Nat → α

/-- `dense[row_slice, col_slice, patch] = values` -/
def writeWindow {α : Type} (dense : Dense α) (window : Window) (patch : Nat)
    (value : Nat → Nat → α) : Dense α := fun row col =>
  if window.holds row col then
    Function.update (dense row col) patch
      (value (row - window.rowStart) (col - window.colStart))
  else dense row col

/-- The patch is there, and the values are of the window's shape and of the domain. -/
def WindowUpdate.Fits (update : WindowUpdate) (rows cols patchCount : Nat) (Valid : Rat → Prop) :
    Prop :=
  (0 ≤ update.patchIndex ∧ update.patchIndex < patchCount) ∧ update.values.All Valid ∧
    update.values.shape = (update.window rows cols).shape

instance (update : WindowUpdate) (rows cols patchCount : Nat) (Valid : Rat → Prop)
    [DecidablePred Valid] : Decidable (update.Fits rows cols patchCount Valid) :=
  inferInstanceAs (Decidable (_ ∧ _))

/-- One update of a dense array; an update that does not fit leaves it as it is. -/
def updateDense {α : Type} (rows cols patchCount : Nat) (Valid : Rat → Prop) [DecidablePred Valid]
    (read : Rat → α) (dense : Dense α) (update : WindowUpdate) : Dense α :=
  if update.Fits rows cols patchCount Valid then
    writeWindow dense (update.window rows cols) update.patchIndex.toNat
      fun i j => read (update.values.value i j)
  else dense

def readBinary (value : Rat) : Bool := value ≠ 0

def readTernary (value : Rat) : Fin 3 := if value = 0 then 0 else if value = 1 then 1 else 2

end Solweig.Bits
