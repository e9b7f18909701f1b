import Solweig.Sparse.WallHeight

/-!
# The marches in any arithmetic

The dense marches over planes of any values, as `float32` with those that are no numbers. Where
the values are exact they are the marches of the other modules.
-/

namespace Solweig.Sparse

open Solweig.Lib

/-! ## Arithmetic -/

/-- The arithmetic of the planes. What is not a number does not equal itself. -/
structure Arithmetic (F : Type) where
  zero : F
  one : F
  four : F
  big : F
  add : F → F → F
  sub : F → F → F
  mul : F → F → F
  lt : F → F → Bool
  le : F → F → Bool
  beq : F → F → Bool

variable {F : Type}

namespace Arithmetic

variable (ar : Arithmetic F)

def isNan (x : F) : Bool := ! ar.beq x x

/-- `_torch_maximum` -/
def torchMaximum (x y : F) : F := if ar.isNan x || ar.lt y x then x else y

/-- `one if x > y else zero` -/
def above (x y : F) : F := if ar.lt y x then ar.one else ar.zero

end Arithmetic

/-! ## Planes and tables -/

/-- The planes that a march reads. -/
structure MarchPlanes (F : Type) where
  rows : Nat
  cols : Nat
  a : Cell → F
  vegdem : Cell → F
  vegdem2 : Cell → F
  bush : Cell → F

structure TableStep (F : Type) where
  dx : Int
  dy : Int
  dz : F
  /-- The shadow march does not read it. -/
  dzPrev : F

structure FloatTable (F : Type) where
  key : StepTableKey
  steps : List (TableStep F)

/-- The variables of a cell. -/
structure CellValues (F : Type) where
  f : F
  sh : F
  vegsh : F
  vbsh : F

structure CellOutputs (F : Type) where
  sh : F
  vegsh : F
  vbsh : F

/-- A plane that a step reads, lowered by a height; zero outside. -/
def readLowered (ar : Arithmetic F) (planes : MarchPlanes F) (cell : Cell) (step : TableStep F)
    (plane : Cell → F) (dz : F) : F :=
  let source := (cell.1 + step.dx, cell.2 + step.dy)
  if inGrid planes.rows planes.cols source then ar.sub (plane source) dz else ar.zero

/-! ## The dense kernels -/

section Dense

variable (ar : Arithmetic F) (planes : MarchPlanes F) (cell : Cell)

/-- One step of `_svf_shadow_kernel` -/
def denseSvfStep (v : CellValues F) (item : TableStep F × Nat) : CellValues F :=
  let (step, s) := item
  let a_t := planes.a cell
  let tv := readLowered ar planes cell step planes.vegdem step.dz
  let tv2 := readLowered ar planes cell step planes.vegdem2 step.dz
  let ta := readLowered ar planes cell step planes.a step.dz
  let f := ar.torchMaximum v.f ta
  let sh := ar.above f a_t
  let vegsh2 := ar.sub (ar.above tv a_t) (ar.above tv2 a_t)
  let vegsh := ar.torchMaximum v.vegsh vegsh2
  let vegsh := if ar.lt ar.zero (ar.mul vegsh sh) then ar.zero else vegsh
  let vbsh := ar.add vegsh v.vbsh
  if s = 0 then
    let fv := ar.sub tv ta
    let fv := if ar.le fv ar.zero then ar.big else fv
    let vegsh := if ar.lt fv step.dz then ar.one else vegsh
    let vegsh :=
      if ar.lt a_t (planes.vegdem2 cell) then ar.mul vegsh ar.one else ar.mul vegsh ar.zero
    ⟨f, sh, vegsh, ar.zero⟩
  else ⟨f, sh, vegsh, vbsh⟩

/-- One step of `_wallheight23_kernel` -/
def denseWallStep (v : CellValues F) (step : TableStep F) : CellValues F :=
  let a_t := planes.a cell
  let tv := readLowered ar planes cell step planes.vegdem step.dz
  let tv2 := readLowered ar planes cell step planes.vegdem2 step.dz
  let ta := readLowered ar planes cell step planes.a step.dz
  let tlf := readLowered ar planes cell step planes.vegdem step.dzPrev
  let tlg := readLowered ar planes cell step planes.vegdem2 step.dzPrev
  let f := ar.torchMaximum v.f ta
  let sh := ar.above f a_t
  let v2 := ar.add (ar.above tv a_t) (ar.above tv2 a_t)
  let v2 := ar.add v2 (ar.above tlf a_t)
  let v2 := ar.add v2 (ar.above tlg a_t)
  let v2 := if ar.beq v2 ar.four then ar.zero else v2
  let v2 := if ar.lt ar.zero v2 then ar.one else v2
  let vegsh := ar.torchMaximum v.vegsh v2
  let vegsh := if ar.lt ar.zero (ar.mul vegsh sh) then ar.zero else vegsh
  ⟨f, sh, vegsh, ar.add v.vbsh vegsh⟩

/-- Where a dense kernel breaks off. -/
def denseExit (allowExit : Bool) (v : CellValues F) : Prop :=
  (allowExit && ar.beq v.sh ar.one && ar.beq v.vegsh ar.zero) = true

instance (allowExit : Bool) : DecidablePred (denseExit ar allowExit) :=
  fun _ => inferInstanceAs (Decidable (_ = _))

def denseFinal (v : CellValues F) : CellOutputs F :=
  let sh := ar.sub ar.one v.sh
  let vbsh := if ar.lt ar.zero v.vbsh then ar.one else v.vbsh
  let vbsh := ar.sub vbsh v.vegsh
  let vegsh := if ar.lt ar.zero v.vegsh then ar.one else v.vegsh
  ⟨sh, ar.sub ar.one vegsh, ar.sub ar.one vbsh⟩

def denseStart : CellValues F := ⟨planes.a cell, ar.zero, ar.zero, ar.zero⟩

def denseSvfCell (allowExit : Bool) (steps : List (TableStep F)) : CellOutputs F :=
  denseFinal ar (exitLoop (denseSvfStep ar planes cell) (denseExit ar allowExit)
    (denseStart ar planes cell) steps.zipIdx)

def denseWallCell (allowExit : Bool) (steps : List (TableStep F)) : CellOutputs F :=
  denseFinal ar (exitLoop (denseWallStep ar planes cell) (denseExit ar allowExit)
    (denseStart ar planes cell) steps)

end Dense

/-! ## The dense drivers -/

/-- `bush.max()`, which is no number where some cell is none -/
def bushMax (ar : Arithmetic F) (planes : MarchPlanes F) : F :=
  ((gridCells planes.rows planes.cols).map planes.bush).foldl ar.torchMaximum (planes.bush (0, 0))

/-- `_check_table` -/
def checkTable (key : StepTableKey) (variant : KernelVariant) (shape : Nat × Nat) :
    Except MarchError Unit := do
  refuseIf (key.kernelVariant ≠ variant) (.kernelVariant key.kernelVariant)
  refuseIf ((key.logicalRows, key.logicalCols) ≠ shape)
    (.logicalDomain key.logicalRows key.logicalCols)

/-- `_check_bush` -/
def checkBush (ar : Arithmetic F) (planes : MarchPlanes F) : Except MarchError Unit :=
  refuseIf (ar.lt ar.zero (bushMax ar planes) = true) .bushOutsideDomain

/-- `_suffix_exit_allowed`: not where some cell of the surface is no number -/
def suffixExitAllowed (ar : Arithmetic F) (planes : MarchPlanes F) (suffixExit : Bool) : Bool :=
  suffixExit && ! (gridCells planes.rows planes.cols).any fun cell => ar.isNan (planes.a cell)

section Drivers

variable (ar : Arithmetic F) (table : FloatTable F) (planes : MarchPlanes F) (suffixExit : Bool)

/-- `march_svf_shadow` -/
def denseSvfShadow : Except MarchError (Cell → CellOutputs F) := do
  checkTable table.key .svfShadow (planes.rows, planes.cols)
  checkBush ar planes
  pure fun cell =>
    denseSvfCell ar planes cell (suffixExitAllowed ar planes suffixExit) table.steps

/-- `march_wallheight23` -/
def denseWallheight23 : Except MarchError (Cell → CellOutputs F) := do
  checkTable table.key .wallheight23 (planes.rows, planes.cols)
  checkBush ar planes
  pure fun cell =>
    denseWallCell ar planes cell (suffixExitAllowed ar planes suffixExit) table.steps

end Drivers

/-! ## Exact values -/

/-- Rational numbers. -/
def exact : Arithmetic Rat where
  zero := 0
  one := 1
  four := 4
  big := 1000
  add := (· + ·)
  sub := (· - ·)
  mul := (· * ·)
  lt := fun x y => decide (x < y)
  le := fun x y => decide (x ≤ y)
  beq := fun x y => decide (x = y)

def MarchInputs.planes (scene : MarchInputs) : MarchPlanes Rat where
  rows := scene.rows
  cols := scene.cols
  a := scene.a
  vegdem := scene.vegdsm
  vegdem2 := scene.vegdsm2
  bush := scene.bush

def Step.tableStep (step : Step) : TableStep Rat := ⟨step.dx, step.dy, step.dz, 0⟩

def WallStep.tableStep (step : WallStep) : TableStep Rat := ⟨step.dx, step.dy, step.dz, step.dzPrev⟩

/-- `_table_columns` without the earlier heights -/
def StepTable.columns (table : StepTable) : FloatTable Rat :=
  ⟨table.key, table.steps.map Step.tableStep⟩

/-- `_table_columns` with the earlier heights -/
def WallTable.columns (table : WallTable) : FloatTable Rat :=
  ⟨table.key, table.steps.map WallStep.tableStep⟩

def MarchState.values (s : MarchState) : CellValues Rat := ⟨s.f, s.sh, s.vegsh, s.vbsh⟩

def MarchOutputs.outputs (o : MarchOutputs) : CellOutputs Rat := ⟨o.sh, o.vegsh, o.vbsh⟩

section Exact

variable {scene : MarchInputs} {cell : Cell}

@[simp]
theorem exact_torchMaximum (x y : Rat) : exact.torchMaximum x y = torchMaximum x y := by
  simp [Arithmetic.torchMaximum, Arithmetic.isNan, exact, torchMaximum]

@[simp]
theorem exact_above (x y : Rat) : exact.above x y = if x > y then 1 else 0 := by
  simp [Arithmetic.above, exact]

theorem denseSvfStep_exact (index : Nat) (step : Step) (s : MarchState) :
    denseSvfStep exact scene.planes cell s.values (step.tableStep, index) =
      (marchStep scene cell index step s).values := by
  unfold denseSvfStep marchStep stepOn readsAt sourceOf readLowered firstVegsh
  simp only [exact_torchMaximum, exact_above]
  by_cases hin : inGrid scene.rows scene.cols (cell.1 + step.dx, cell.2 + step.dy)
  all_goals by_cases hfirst : index = 0
  all_goals
    simp [MarchInputs.planes, Step.tableStep, MarchState.values, exact, hin, hfirst]

theorem denseWallStep_exact (step : WallStep) (s : MarchState) :
    denseWallStep exact scene.planes cell s.values step.tableStep =
      (wallMarchStep scene cell s step).values := by
  unfold denseWallStep wallMarchStep wallStepOn wallReadsAt sourceOf readLowered wallVegsh2
  simp only [exact_torchMaximum, exact_above]
  by_cases hin : inGrid scene.rows scene.cols (cell.1 + step.dx, cell.2 + step.dy)
  all_goals
    simp [MarchInputs.planes, WallStep.tableStep, MarchState.values, exact, hin]

theorem denseExit_exact (allowExit : Bool) (s : MarchState) :
    denseExit exact allowExit s.values ↔ ExitAllowed allowExit s := by
  simp [denseExit, ExitAllowed, MarchState.values, exact, and_assoc]

theorem denseFinal_exact (s : MarchState) :
    denseFinal exact s.values = (finishMarch s).outputs := by
  simp [denseFinal, finishMarch, MarchState.values, MarchOutputs.outputs, exact]

theorem denseLoop_exact (allowExit : Bool) (steps : List Step) (index : Nat) (s : MarchState) :
    exitLoop (denseSvfStep exact scene.planes cell) (denseExit exact allowExit) s.values
        ((steps.map Step.tableStep).zipIdx index) =
      (marchLoop allowExit scene cell index steps s).values := by
  induction steps generalizing index s with
  | nil => rfl
  | cons step steps ih =>
    rw [List.map_cons, List.zipIdx_cons, exitLoop, denseSvfStep_exact, ih, marchLoop]
    have hexit := denseExit_exact allowExit (marchStep scene cell index step s)
    unfold ExitAllowed at hexit
    by_cases hbreak : allowExit = true ∧ (marchStep scene cell index step s).sh = 1 ∧
        (marchStep scene cell index step s).vegsh = 0
    · rw [if_pos (hexit.mpr hbreak), if_pos hbreak]
    · rw [if_neg (mt hexit.mp hbreak), if_neg hbreak]

theorem denseSvfCell_exact (allowExit : Bool) (steps : List Step) :
    denseSvfCell exact scene.planes cell allowExit (steps.map Step.tableStep) =
      (svfShadowKernel allowExit scene steps cell).outputs := by
  unfold denseSvfCell svfShadowKernel
  rw [← denseFinal_exact, ← denseLoop_exact]
  rfl

theorem denseWallCell_exact (allowExit : Bool) (steps : List WallStep) :
    denseWallCell exact scene.planes cell allowExit (steps.map WallStep.tableStep) =
      (wallheight23Kernel allowExit scene steps cell).outputs := by
  have hstep : ∀ (s : MarchState) (step : WallStep),
      denseWallStep exact scene.planes cell s.values step.tableStep =
        (wallMarchStep scene cell s step).values := fun s step => denseWallStep_exact step s
  have hloop := exitLoop_map MarchState.values WallStep.tableStep hstep (denseExit_exact allowExit)
    (startMarch scene cell) steps
  unfold denseWallCell wallheight23Kernel
  rw [← denseFinal_exact, ← hloop]
  rfl

theorem bushMax_exact : bushMax exact scene.planes = planeMax scene.rows scene.cols scene.bush := by
  have hmax : exact.torchMaximum = max := by
    funext x y
    rw [exact_torchMaximum, torchMaximum_eq]
  unfold bushMax planeMax
  rw [hmax]
  rfl

theorem suffixExitAllowed_exact (suffixExit : Bool) :
    suffixExitAllowed exact scene.planes suffixExit = suffixExit := by
  simp [suffixExitAllowed, Arithmetic.isNan, exact]

theorem checkBush_exact (scene : MarchInputs) : checkBush exact scene.planes =
    refuseIf (planeMax scene.rows scene.cols scene.bush > 0) .bushOutsideDomain := by
  unfold checkBush
  rw [bushMax_exact]
  unfold refuseIf
  simp [exact]

theorem denseSvfShadow_exact (table : StepTable) (scene : MarchInputs) (suffixExit : Bool) :
    denseSvfShadow exact table.columns scene.planes suffixExit =
      (marchSvfShadow table scene suffixExit).map fun dense cell => (dense cell).outputs := by
  unfold denseSvfShadow marchSvfShadow checkTable StepTable.columns
  simp only [suffixExitAllowed_exact, checkBush_exact, denseSvfCell_exact, bind_assoc,
    except_map_bind]
  rfl

theorem denseWallheight23_exact (table : WallTable) (scene : MarchInputs) (suffixExit : Bool) :
    denseWallheight23 exact table.columns scene.planes suffixExit =
      (marchWallheight23 table scene suffixExit).map fun dense cell => (dense cell).outputs := by
  unfold denseWallheight23 marchWallheight23 checkTable WallTable.columns
  simp only [suffixExitAllowed_exact, checkBush_exact, denseWallCell_exact, bind_assoc,
    except_map_bind]
  rfl

theorem marchSvfShadow_exit (table : StepTable) (scene : MarchInputs) (suffixExit : Bool) :
    marchSvfShadow table scene suffixExit = marchSvfShadow table scene false := by
  have hkernel : svfShadowKernel suffixExit scene table.steps =
      svfShadowKernel false scene table.steps :=
    funext fun _ => finishMarch_exit suffixExit startMarch_marching
  unfold marchSvfShadow
  rw [hkernel]

theorem marchWallheight23_exit (table : WallTable) (scene : MarchInputs) (suffixExit : Bool) :
    marchWallheight23 table scene suffixExit = marchWallheight23 table scene false := by
  have hkernel : wallheight23Kernel suffixExit scene table.steps =
      wallheight23Kernel false scene table.steps :=
    funext fun _ => wallheight23Kernel_exit suffixExit scene table.steps _
  unfold marchWallheight23
  rw [hkernel]

end Exact

end Solweig.Sparse
