import Solweig.Lib.Cut
import Solweig.Sparse.March

/-!
# The torch shadow march

The loop of `shadow` over whole planes, bush and all, and the march of one cell that it comes to
where no bush stands.
-/

namespace Solweig.Sparse

open Solweig.Lib

/-! ## The loop over planes -/

/-- `f`, `sh`, `vegsh` and `vbshvegsh` of each cell, and the bush plane `g`. -/
structure ShadowState where
  march : Cell → MarchState
  g : Cell → Rat

section Shadow

variable (scene : MarchInputs)

def bushplant (cell : Cell) : Rat := if scene.bush cell > 1 then 1 else 0

/-- `bush.max() > 0` -/
def bushStands : Bool := planeMax scene.rows scene.cols scene.bush > 0

def startShadow : ShadowState where
  march := fun cell => { startMarch scene cell with vegsh := 0 + bushplant scene cell }
  g := fun _ => 0

def tempbush (step : Step) (cell : Cell) : Rat :=
  if inGrid scene.rows scene.cols (sourceOf cell step) then
    scene.bush (sourceOf cell step) - step.dz
  else 0

def fabovea (step : Step) (cell : Cell) : Rat :=
  if (readsAt scene cell step).tv > scene.a cell then 1 else 0

def shadowStep (index : Nat) (step : Step) (s : ShadowState) : ShadowState where
  march := fun cell => marchStep scene cell index step (s.march cell)
  g :=
    if bushStands scene ∧
        planeMax scene.rows scene.cols (fun cell => fabovea scene step cell * scene.bush cell) > 0 then
      fun cell => torchMaximum (s.g cell) (tempbush scene step cell) * bushplant scene cell
    else s.g

/-- The loop looks at the step that it made last. -/
def shadowLoop (amplitude : Rat) (sequence : Nat → Step) :
    Nat → Nat → Step → ShadowState → ShadowState
  | 0, _, _, s => s
  | fuel + 1, index, last, s =>
    if StopsMarch scene.rows scene.cols amplitude last then s
    else shadowLoop amplitude sequence fuel (index + 1) (sequence index)
      (shadowStep scene index (sequence index) s)

def finishShadow (s : ShadowState) (cell : Cell) : MarchOutputs :=
  let m := s.march cell
  let vbsh := if m.vbsh > 0 then 1 else m.vbsh
  let vbsh := vbsh - m.vegsh
  let vegsh :=
    if bushStands scene then
      let g := s.g cell - scene.bush cell
      let g := if g > 0 then 1 else g
      let g := if g < 0 then 0 else g
      let vegsh := m.vegsh - bushplant scene cell + g
      if vegsh < 0 then 0 else vegsh
    else m.vegsh
  let vegsh := if vegsh > 0 then 1 else vegsh
  ⟨1 - m.sh, 1 - vegsh, 1 - vbsh⟩

/-- `shadow` along a sequence of steps, of which no raster sees more than it has rows or columns. -/
def shadow (amplitude : Rat) (sequence : Nat → Step) : Cell → MarchOutputs :=
  finishShadow scene (shadowLoop scene amplitude sequence (scene.rows + scene.cols + 1) 0 ⟨0, 0, 0⟩
    (startShadow scene))

end Shadow

/-! ## One cell of a scene without bush -/

/-- `not bush.any()` -/
def bushFreeMarches (scene : MarchInputs) : Bool :=
  ! (gridCells scene.rows scene.cols).any fun cell => scene.bush cell ≠ 0

theorem bushFreeMarches_iff {scene : MarchInputs} : bushFreeMarches scene = true ↔
    ∀ cell, inGrid scene.rows scene.cols cell → scene.bush cell = 0 := by
  unfold bushFreeMarches
  rw [Bool.not_eq_true', List.any_eq_false]
  simp only [mem_gridCells, ne_eq, decide_not, Bool.not_eq_true', decide_eq_false_iff_not, not_not]

section BushFree

variable {scene : MarchInputs} {cell : Cell} {amplitude : Rat} {sequence : Nat → Step}

theorem bushStands_eq_false (hfree : bushFreeMarches scene = true)
    (hcell : inGrid scene.rows scene.cols cell) : bushStands scene = false := by
  rw [bushFreeMarches_iff] at hfree
  have horigin : inGrid scene.rows scene.cols (0, 0) := by
    unfold inGrid at hcell ⊢
    omega
  unfold bushStands planeMax
  rw [decide_eq_false_iff_not, not_lt]
  suffices hle : ∀ (values : List Rat) first, first ≤ 0 → (∀ value ∈ values, value ≤ 0) →
      values.foldl max first ≤ 0 by
    refine hle _ _ (hfree _ horigin).le fun value hvalue => ?_
    obtain ⟨source, hsource, rfl⟩ := List.mem_map.mp hvalue
    exact (hfree source (mem_gridCells.mp hsource)).le
  intro values
  induction values with
  | nil => exact fun first hfirst _ => hfirst
  | cons value values ih =>
    intro first hfirst hvalues
    rw [List.forall_mem_cons] at hvalues
    exact ih _ (max_le hfirst hvalues.1) hvalues.2

theorem startShadow_march (hfree : bushFreeMarches scene = true)
    (hcell : inGrid scene.rows scene.cols cell) :
    (startShadow scene).march cell = startMarch scene cell := by
  have hplant : bushplant scene cell = 0 := by
    unfold bushplant
    rw [bushFreeMarches_iff.mp hfree cell hcell]
    simp
  unfold startShadow
  dsimp only
  rw [hplant, add_zero]
  rfl

theorem finishShadow_march (hfree : bushFreeMarches scene = true)
    (hcell : inGrid scene.rows scene.cols cell) (s : ShadowState) :
    finishShadow scene s cell = finishMarch (s.march cell) := by
  unfold finishShadow
  rw [bushStands_eq_false hfree hcell]
  rfl

theorem shadowLoop_stopped {last : Step} (fuel index : Nat) (s : ShadowState)
    (h : StopsMarch scene.rows scene.cols amplitude last) :
    shadowLoop scene amplitude sequence fuel index last s = s := by
  cases fuel with
  | zero => rfl
  | succ fuel =>
    unfold shadowLoop
    rw [if_pos h]

theorem shadowLoop_march {fuel index n : Nat} {last : Step} {s : ShadowState}
    (hfuel : n + 1 ≤ fuel) (hlast : ¬ StopsMarch scene.rows scene.cols amplitude last)
    (hgo : ∀ k < n, ¬ StopsMarch scene.rows scene.cols amplitude (sequence (index + k)))
    (hstop : StopsMarch scene.rows scene.cols amplitude (sequence (index + n))) :
    (shadowLoop scene amplitude sequence fuel index last s).march cell =
      marchLoop false scene cell index ((List.range' index (n + 1)).map sequence)
        (s.march cell) := by
  obtain ⟨fuel, rfl⟩ := Nat.exists_eq_succ_of_ne_zero (show fuel ≠ 0 by omega)
  unfold shadowLoop
  rw [if_neg hlast]
  induction n generalizing fuel index last s with
  | zero =>
    rw [shadowLoop_stopped _ _ _ (by simpa using hstop)]
    rfl
  | succ n ih =>
    have hnext : ¬ StopsMarch scene.rows scene.cols amplitude (sequence index) :=
      hgo 0 (Nat.succ_pos n)
    obtain ⟨fuel, rfl⟩ := Nat.exists_eq_succ_of_ne_zero (show fuel ≠ 0 by omega)
    have hgo' : ∀ k < n,
        ¬ StopsMarch scene.rows scene.cols amplitude (sequence (index + 1 + k)) := by
      intro k hk
      rw [Nat.add_right_comm]
      exact hgo (k + 1) (Nat.succ_lt_succ hk)
    have hstop' : StopsMarch scene.rows scene.cols amplitude (sequence (index + 1 + n)) := by
      rw [Nat.add_right_comm]
      exact hstop
    unfold shadowLoop
    rw [if_neg hnext, ih hnext hgo' hstop' fuel (by omega), List.range'_succ, List.map_cons,
      marchLoop_cons]
    rfl

/-- A march that moves a cell at every step ends, and gives what the kernel gives on the steps up to
the first that stops it. -/
theorem shadow_eq_kernel (hfree : bushFreeMarches scene = true)
    (hcell : inGrid scene.rows scene.cols cell) (hamplitude : 0 ≤ amplitude)
    (hmoves : ∀ k, |(sequence k).dx| = k + 1 ∨ |(sequence k).dy| = k + 1) :
    ∃ steps, IsCut (StopsMarch scene.rows scene.cols amplitude) sequence steps ∧
      shadow scene amplitude sequence cell = svfShadowKernel false scene steps cell := by
  have hlast : StopsMarch scene.rows scene.cols amplitude (sequence (scene.rows + scene.cols)) := by
    unfold StopsMarch
    rcases hmoves (scene.rows + scene.cols) with h | h
    · exact Or.inr (Or.inl (by omega))
    · exact Or.inr (Or.inr (by omega))
  have hexists : ∃ k, StopsMarch scene.rows scene.cols amplitude (sequence k) := ⟨_, hlast⟩
  have hgo := fun k (hk : k < Nat.find hexists) => Nat.find_min hexists hk
  have hle := Nat.find_min' hexists hlast
  have hstart : ¬ StopsMarch scene.rows scene.cols amplitude ⟨0, 0, 0⟩ := by
    unfold StopsMarch inGrid at *
    simp only [abs_zero]
    rintro (h | h | h)
    · exact absurd hamplitude (not_le.mpr h)
    · omega
    · omega
  refine ⟨_, ⟨Nat.find hexists, rfl, Nat.find_spec hexists, hgo⟩, ?_⟩
  unfold shadow svfShadowKernel
  rw [finishShadow_march hfree hcell, shadowLoop_march (n := Nat.find hexists) (by omega) hstart
    (by simpa using hgo) (by simpa using Nat.find_spec hexists), startShadow_march hfree hcell,
    List.range_eq_range']

theorem shadow_of_neg (hfree : bushFreeMarches scene = true)
    (hcell : inGrid scene.rows scene.cols cell) (hamplitude : amplitude < 0) :
    shadow scene amplitude sequence cell = ⟨1, 1, 1⟩ := by
  have hstop : StopsMarch scene.rows scene.cols amplitude ⟨0, 0, 0⟩ := Or.inl hamplitude
  unfold shadow
  rw [finishShadow_march hfree hcell, shadowLoop_stopped _ _ _ hstop, startShadow_march hfree hcell]
  simp [finishMarch, startMarch]

end BushFree

end Solweig.Sparse
