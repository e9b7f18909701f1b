import Solweig.Sparse.March

/-!
# The wall height march

The march of the wall heights reads each step against the one before it too. Breaking it off where
the surface shades the cell and no vegetation does changes no output, as in the march of the
shadows.
-/

namespace Solweig.Sparse

open Solweig.Lib

/-- A step with the height of the step before it. -/
structure WallStep extends Step where
  dzPrev : Rat
  deriving DecidableEq

structure WallTable where
  key : StepTableKey
  steps : List WallStep
  deriving DecidableEq

/-- What one step reads, with both canopy planes lowered by the step before. -/
structure WallReads extends Reads where
  tlf : Rat
  tlg : Rat
  deriving DecidableEq

def wallReadsAt (scene : MarchInputs) (cell : Cell) (step : WallStep) : WallReads :=
  let source := sourceOf cell step.toStep
  if inGrid scene.rows scene.cols source then
    { tv := scene.vegdsm source - step.dz
      tv2 := scene.vegdsm2 source - step.dz
      ta := scene.a source - step.dz
      tlf := scene.vegdsm source - step.dzPrev
      tlg := scene.vegdsm2 source - step.dzPrev }
  else ⟨⟨0, 0, 0⟩, 0, 0⟩

/-- The vegetation shadow that one step brings: none where both planes lie above the cell at both
heights. -/
def wallVegsh2 (a_t : Rat) (reads : WallReads) : Rat :=
  let fa := if reads.tv > a_t then 1 else 0
  let ga := if reads.tv2 > a_t then 1 else 0
  let lfa := if reads.tlf > a_t then 1 else 0
  let lga := if reads.tlg > a_t then 1 else 0
  let v2 : Rat := fa + ga
  let v2 := v2 + lfa
  let v2 := v2 + lga
  let v2 := if v2 = 4 then 0 else v2
  if v2 > 0 then 1 else v2

def wallStepOn (a_t : Rat) (reads : WallReads) (s : MarchState) : MarchState :=
  let f := torchMaximum s.f reads.ta
  let sh := if f > a_t then 1 else 0
  let vegsh := torchMaximum s.vegsh (wallVegsh2 a_t reads)
  let vegsh := if vegsh * sh > 0 then 0 else vegsh
  ⟨f, sh, vegsh, s.vbsh + vegsh⟩

def wallMarchStep (scene : MarchInputs) (cell : Cell) (s : MarchState) (step : WallStep) :
    MarchState :=
  wallStepOn (scene.a cell) (wallReadsAt scene cell step) s

/-- The surface shades the cell and no vegetation does, where the march may break off. -/
def ExitAllowed (allowExit : Bool) (s : MarchState) : Prop :=
  allowExit = true ∧ s.sh = 1 ∧ s.vegsh = 0

instance (allowExit : Bool) : DecidablePred (ExitAllowed allowExit) :=
  fun _ => inferInstanceAs (Decidable (_ ∧ _))

def wallheight23Kernel (allowExit : Bool) (scene : MarchInputs) (steps : List WallStep)
    (cell : Cell) : MarchOutputs :=
  finishMarch (exitLoop (wallMarchStep scene cell) (ExitAllowed allowExit)
    (startMarch scene cell) steps)

/-- `march_wallheight23`; exact values are never NaN, so the suffix exit is as asked. -/
def marchWallheight23 (table : WallTable) (scene : MarchInputs) (suffixExit : Bool) :
    Except MarchError (Cell → MarchOutputs) := do
  refuseIf (table.key.kernelVariant ≠ .wallheight23) (.kernelVariant table.key.kernelVariant)
  refuseIf ((table.key.logicalRows, table.key.logicalCols) ≠ scene.shape)
    (.logicalDomain table.key.logicalRows table.key.logicalCols)
  refuseIf (planeMax scene.rows scene.cols scene.bush > 0) .bushOutsideDomain
  pure (wallheight23Kernel suffixExit scene table.steps)

/-! ## What each step keeps -/

section OneStep

variable {a_t : Rat} {s : MarchState}

theorem wallVegsh2_cases (a_t : Rat) (reads : WallReads) :
    wallVegsh2 a_t reads = 0 ∨ wallVegsh2 a_t reads = 1 := by
  unfold wallVegsh2
  dsimp only
  split_ifs <;> norm_num at *

/-- Whether the surface shades the cell, by the highest read so far. -/
def ShadesRight (a_t : Rat) (s : MarchState) : Prop := s.sh = if s.f > a_t then 1 else 0

theorem wallStepOn_shadesRight (a_t : Rat) (reads : WallReads) (s : MarchState) :
    ShadesRight a_t (wallStepOn a_t reads s) := rfl

theorem ShadesRight.high (h : ShadesRight a_t s) (hsh : s.sh = 1) : s.f > a_t := by
  unfold ShadesRight at h
  by_contra hlow
  rw [if_neg hlow, hsh] at h
  norm_num at h

theorem wallStepOn_shaded (reads : WallReads) (hf : s.f > a_t) (hvegsh : s.vegsh = 0) :
    (wallStepOn a_t reads s).sh = 1 ∧ (wallStepOn a_t reads s).vegsh = 0 ∧
      (wallStepOn a_t reads s).vbsh = s.vbsh := by
  have hhigh : max s.f reads.ta > a_t := lt_max_of_lt_left hf
  unfold wallStepOn
  simp only [torchMaximum_eq, if_pos hhigh, hvegsh, mul_one]
  rcases wallVegsh2_cases a_t reads with h | h <;> simp [h]

end OneStep

/-! ## The exits -/

theorem wallheight23Kernel_exit (allowExit : Bool) (scene : MarchInputs) (steps : List WallStep)
    (cell : Cell) :
    wallheight23Kernel allowExit scene steps cell = wallheight23Kernel false scene steps cell := by
  unfold wallheight23Kernel
  have hnever : ∀ s, ¬ ExitAllowed false s := by simp [ExitAllowed]
  rw [exitLoop_never hnever]
  refine exitLoop_look finishMarch (ShadesRight (scene.a cell)) ?_ ?_ ?_ steps
  · exact fun s step _ => wallStepOn_shadesRight _ _ s
  · rintro s step hright ⟨hallowed, hsh, hvegsh⟩
    obtain ⟨hsh', hvegsh', hvbsh⟩ := wallStepOn_shaded (wallReadsAt scene cell step)
      (hright.high hsh) hvegsh
    refine ⟨⟨hallowed, hsh', hvegsh'⟩, ?_⟩
    unfold finishMarch wallMarchStep
    rw [hsh', hvegsh', hvbsh, hsh, hvegsh]
  · unfold ShadesRight startMarch
    simp

/-- Either march has the same outputs with its suffix exit as without. -/
theorem suffixExit_invariant (scene : MarchInputs) :
    (∀ (steps : List Step) (cell : Cell), svfShadowKernel true scene steps cell =
      svfShadowKernel false scene steps cell) ∧
    (∀ (steps : List WallStep) (cell : Cell), wallheight23Kernel true scene steps cell =
      wallheight23Kernel false scene steps cell) ∧
    (∀ table : StepTable, marchSvfShadow table scene true = marchSvfShadow table scene false) ∧
    ∀ table : WallTable, marchWallheight23 table scene true =
      marchWallheight23 table scene false := by
  have hsvf : svfShadowKernel true scene = svfShadowKernel false scene := by
    funext steps cell
    exact finishMarch_exit true startMarch_marching
  have hwall : wallheight23Kernel true scene = wallheight23Kernel false scene := by
    funext steps cell
    exact wallheight23Kernel_exit true scene steps cell
  refine ⟨fun _ _ => by rw [hsvf], fun _ _ => by rw [hwall], fun table => ?_, fun table => ?_⟩
  · unfold marchSvfShadow
    rw [hsvf]
  · unfold marchWallheight23
    rw [hwall]

end Solweig.Sparse
