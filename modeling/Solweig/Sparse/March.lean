import Solweig.Sparse.MarchInputs

/-!
# The shadow march

The march of one cell along a table of steps, over the planes of a scene, and what it puts out.
-/

namespace Solweig.Sparse

open Solweig.Lib

/-! ## Step tables -/

structure Step where
  dx : Int
  dy : Int
  dz : Rat
  deriving DecidableEq

inductive KernelVariant where
  | svfShadow
  | wallheight23
  deriving DecidableEq

/-- The fields of the key that are read here. -/
structure StepTableKey where
  kernelVariant : KernelVariant
  logicalRows : Nat
  logicalCols : Nat
  deriving DecidableEq

structure StepTable where
  key : StepTableKey
  steps : List Step
  deriving DecidableEq

def StepTable.count (table : StepTable) : Nat := table.steps.length

/-- What ends a march, once it has made the step: the amplitude or the size of the raster. -/
def StopsMarch (rows cols : Nat) (amplitude : Rat) (step : Step) : Prop :=
  amplitude < step.dz ∨ (rows : Int) ≤ |step.dx| ∨ (cols : Int) ≤ |step.dy|

instance (rows cols : Nat) (amplitude : Rat) (step : Step) :
    Decidable (StopsMarch rows cols amplitude step) :=
  inferInstanceAs (Decidable (_ ∨ _))

/-! ## One step -/

def torchMaximum (x y : Rat) : Rat := if x > y then x else y

theorem torchMaximum_eq (x y : Rat) : torchMaximum x y = max x y := by
  unfold torchMaximum
  split_ifs with h
  · exact (max_eq_left h.le).symm
  · exact (max_eq_right (not_lt.mp h)).symm

structure MarchState where
  f : Rat
  sh : Rat
  vegsh : Rat
  vbsh : Rat
  deriving DecidableEq

/-- What one step reads: both canopy planes and the surface, lowered by the step. -/
structure Reads where
  tv : Rat
  tv2 : Rat
  ta : Rat
  deriving DecidableEq

def sourceOf (cell : Cell) (step : Step) : Cell := (cell.1 + step.dx, cell.2 + step.dy)

def readsAt (scene : MarchInputs) (cell : Cell) (step : Step) : Reads :=
  let source := sourceOf cell step
  if inGrid scene.rows scene.cols source then
    ⟨scene.vegdsm source - step.dz, scene.vegdsm2 source - step.dz, scene.a source - step.dz⟩
  -- the temporaries keep their zeros
  else ⟨0, 0, 0⟩

theorem readsAt_outside {scene : MarchInputs} {cell : Cell} {step : Step}
    (h : ¬ inGrid scene.rows scene.cols (sourceOf cell step)) :
    readsAt scene cell step = ⟨0, 0, 0⟩ := by
  unfold readsAt
  rw [if_neg h]

/-- The exception of the first step. -/
def firstVegsh (reads : Reads) (dz a_t trunk vegsh : Rat) : Rat :=
  let fv := reads.tv - reads.ta
  let fv := if fv ≤ 0 then 1000 else fv
  let vegsh := if fv < dz then 1 else vegsh
  if trunk > a_t then vegsh * 1 else vegsh * 0

def stepOn (a_t trunk dz : Rat) (isFirst : Bool) (reads : Reads) (s : MarchState) : MarchState :=
  let f := torchMaximum s.f reads.ta
  let sh := if f > a_t then 1 else 0
  let fab := if reads.tv > a_t then 1 else 0
  let gab := if reads.tv2 > a_t then 1 else 0
  let vegsh := torchMaximum s.vegsh (fab - gab)
  let vegsh := if vegsh * sh > 0 then 0 else vegsh
  if isFirst then ⟨f, sh, firstVegsh reads dz a_t trunk vegsh, 0⟩
  else ⟨f, sh, vegsh, vegsh + s.vbsh⟩

def marchStep (scene : MarchInputs) (cell : Cell) (index : Nat) (step : Step) (s : MarchState) :
    MarchState :=
  stepOn (scene.a cell) (scene.vegdsm2 cell) step.dz (index = 0) (readsAt scene cell step) s

/-! ## The loop -/

def marchLoop (allowExit : Bool) (scene : MarchInputs) (cell : Cell) :
    Nat → List Step → MarchState → MarchState
  | _, [], s => s
  | index, step :: steps, s =>
    let s := marchStep scene cell index step s
    if allowExit = true ∧ s.sh = 1 ∧ s.vegsh = 0 then s
    else marchLoop allowExit scene cell (index + 1) steps s

structure MarchOutputs where
  sh : Rat
  vegsh : Rat
  vbsh : Rat
  deriving DecidableEq

def finishMarch (s : MarchState) : MarchOutputs :=
  let vbsh := if s.vbsh > 0 then 1 else s.vbsh
  let vbsh := vbsh - s.vegsh
  let vegsh := if s.vegsh > 0 then 1 else s.vegsh
  ⟨1 - s.sh, 1 - vegsh, 1 - vbsh⟩

def startMarch (scene : MarchInputs) (cell : Cell) : MarchState := ⟨scene.a cell, 0, 0, 0⟩

def svfShadowKernel (allowExit : Bool) (scene : MarchInputs) (steps : List Step) (cell : Cell) :
    MarchOutputs :=
  finishMarch (marchLoop allowExit scene cell 0 steps (startMarch scene cell))

inductive MarchError where
  | kernelVariant (variant : KernelVariant)
  | logicalDomain (rows cols : Nat)
  | bushOutsideDomain
  deriving DecidableEq

/-- `march_svf_shadow`; exact values are never NaN, so the suffix exit is as asked. -/
def marchSvfShadow (table : StepTable) (scene : MarchInputs) (suffixExit : Bool) :
    Except MarchError (Cell → MarchOutputs) := do
  refuseIf (table.key.kernelVariant ≠ .svfShadow) (.kernelVariant table.key.kernelVariant)
  refuseIf ((table.key.logicalRows, table.key.logicalCols) ≠ scene.shape)
    (.logicalDomain table.key.logicalRows table.key.logicalCols)
  refuseIf (planeMax scene.rows scene.cols scene.bush > 0) .bushOutsideDomain
  pure (svfShadowKernel suffixExit scene table.steps)

/-! ## What each step keeps -/

/-- A march under way: the shadow is where the highest read lies above the cell, vegetation
shades wholly or not at all, and its sum never falls. -/
structure Marching (a_t : Rat) (s : MarchState) : Prop where
  sh : s.sh = if s.f > a_t then 1 else 0
  vegsh : s.vegsh = 0 ∨ s.vegsh = 1
  vbsh : 0 ≤ s.vbsh

/-- Past the first step: no vegetation shades where the surface does, and where some shades,
its sum shows it. -/
structure Settled (a_t : Rat) (s : MarchState) : Prop extends Marching a_t s where
  suppressed : s.sh = 1 → s.vegsh = 0
  summed : s.vegsh = 1 → 0 < s.vbsh

section OneStep

variable {a_t trunk dz : Rat} {reads : Reads} {s : MarchState}

@[simp] theorem stepOn_f {isFirst : Bool} :
    (stepOn a_t trunk dz isFirst reads s).f = max s.f reads.ta := by
  unfold stepOn
  cases isFirst <;> simp [torchMaximum_eq]

theorem stepOn_sh (a_t trunk dz : Rat) (isFirst : Bool) (reads : Reads) (s : MarchState) :
    (stepOn a_t trunk dz isFirst reads s).sh =
    if (stepOn a_t trunk dz isFirst reads s).f > a_t then 1 else 0 := by
  unfold stepOn
  cases isFirst <;> rfl

theorem max_vegsh (hvegsh : s.vegsh = 0 ∨ s.vegsh = 1) (p q : Prop) [Decidable p] [Decidable q] :
    torchMaximum s.vegsh ((if p then 1 else 0) - (if q then 1 else 0)) = 0 ∨
      torchMaximum s.vegsh ((if p then 1 else 0) - (if q then 1 else 0)) = 1 := by
  rw [torchMaximum_eq]
  rcases hvegsh with h | h <;> rw [h] <;> split_ifs <;> norm_num

theorem stepOn_first (hvegsh : s.vegsh = 0 ∨ s.vegsh = 1) :
    Marching a_t (stepOn a_t trunk dz true reads s) := by
  have hmax := max_vegsh hvegsh (reads.tv > a_t) (reads.tv2 > a_t)
  refine ⟨stepOn_sh _ _ _ _ _ _, ?_, le_refl _⟩
  unfold stepOn firstVegsh
  simp only [if_true, mul_one, mul_zero]
  revert hmax
  generalize torchMaximum s.vegsh _ = vegsh
  intro hmax
  split_ifs <;> first | exact Or.inl rfl | exact Or.inr rfl | exact hmax

theorem stepOn_later (h : Marching a_t s) : Settled a_t (stepOn a_t trunk dz false reads s) := by
  have hmax := max_vegsh h.vegsh (reads.tv > a_t) (reads.tv2 > a_t)
  have hsum := h.vbsh
  have hsh := stepOn_sh a_t trunk dz false reads s
  revert hsh
  unfold stepOn
  simp only [Bool.false_eq_true, if_false]
  revert hmax
  generalize torchMaximum s.vegsh _ = vegsh
  generalize torchMaximum s.f _ = f
  intro hmax hsh
  by_cases hf : f > a_t
  · rcases hmax with rfl | rfl <;> constructor <;> first | constructor <;> simp [hf, hsum] | simp [hf]
  · rcases hmax with rfl | rfl
    · constructor
      · constructor <;> simp [hf, hsum]
      · simp [hf]
      · simp
    · constructor
      · constructor
        · simp [hf]
        · simp [hf]
        · simp only [hf, if_false, mul_zero, lt_self_iff_false]
          linarith
      · simp [hf]
      · simp only [hf, if_false, mul_zero, lt_self_iff_false]
        intro
        linarith

theorem stepOn_shaded (trunk dz : Rat) (reads : Reads) (hf : s.f > a_t) (hvegsh : s.vegsh = 0) :
    (stepOn a_t trunk dz false reads s).sh = 1 ∧ (stepOn a_t trunk dz false reads s).vegsh = 0 ∧
      (stepOn a_t trunk dz false reads s).vbsh = s.vbsh := by
  have hmax := max_vegsh (Or.inl hvegsh) (reads.tv > a_t) (reads.tv2 > a_t)
  have hhigh : max s.f reads.ta > a_t := lt_max_of_lt_left hf
  unfold stepOn
  simp only [torchMaximum_eq s.f, Bool.false_eq_true, if_false]
  revert hmax
  generalize torchMaximum s.vegsh _ = vegsh
  intro hmax
  rcases hmax with rfl | rfl <;> simp [hhigh]

theorem stepOn_neutral (trunk dz : Rat) (h : Settled a_t s) (hneutral : reads.tv > a_t ↔ reads.tv2 > a_t)
    (hf : max s.f reads.ta > a_t → s.f > a_t) :
    (stepOn a_t trunk dz false reads s).sh = s.sh ∧
      (stepOn a_t trunk dz false reads s).vegsh = s.vegsh ∧
      (0 < (stepOn a_t trunk dz false reads s).vbsh ↔ 0 < s.vbsh) := by
  have hsh := h.sh
  have hsuppressed := h.suppressed
  have hsummed := h.summed
  have hsum := h.vbsh
  have hiff : max s.f reads.ta > a_t ↔ s.f > a_t := ⟨hf, fun hf => lt_max_of_lt_left hf⟩
  unfold stepOn
  simp only [torchMaximum_eq, hiff, hneutral, sub_self, Bool.false_eq_true, if_false, ← hsh]
  rcases h.vegsh with hvegsh | hvegsh
  · simp [hvegsh]
  · have hlit : s.sh ≠ 1 := fun hlit => by
      rw [hsuppressed hlit] at hvegsh
      norm_num at hvegsh
    have hzero : s.sh = 0 := by
      rw [hsh] at hlit ⊢
      split_ifs at hlit ⊢ <;> simp_all
    have hpos := hsummed hvegsh
    simp only [hvegsh, hzero, max_eq_left zero_le_one, mul_zero, lt_self_iff_false, if_false,
      true_and]
    exact ⟨fun _ => hpos, fun _ => by linarith⟩

end OneStep

/-! ## What a whole march keeps -/

section Runs

variable {scene : MarchInputs} {cell : Cell} {index : Nat} {steps : List Step} {s : MarchState}

theorem marchStep_later (hindex : index ≠ 0) (step : Step) (s : MarchState) :
    marchStep scene cell index step s =
      stepOn (scene.a cell) (scene.vegdsm2 cell) step.dz false (readsAt scene cell step) s := by
  unfold marchStep
  rw [decide_eq_false hindex]

theorem marchLoop_cons (step : Step) : marchLoop false scene cell index (step :: steps) s =
    marchLoop false scene cell (index + 1) steps (marchStep scene cell index step s) := by
  simp [marchLoop]

theorem marchLoop_append (more : List Step) :
    marchLoop false scene cell index (steps ++ more) s =
      marchLoop false scene cell (index + steps.length) more
        (marchLoop false scene cell index steps s) := by
  induction steps generalizing index s with
  | nil => rfl
  | cons step steps ih =>
    rw [List.cons_append, marchLoop_cons, marchLoop_cons, ih, List.length_cons]
    congr 1
    omega

theorem marchLoop_settled (steps : List Step) (hindex : index ≠ 0) (h : Settled (scene.a cell) s) :
    Settled (scene.a cell) (marchLoop false scene cell index steps s) := by
  induction steps generalizing index s with
  | nil => exact h
  | cons step steps ih =>
    rw [marchLoop_cons, marchStep_later hindex]
    exact ih (Nat.succ_ne_zero index) (stepOn_later h.toMarching)

theorem startMarch_marching : Marching (scene.a cell) (startMarch scene cell) := by
  unfold startMarch
  constructor <;> simp

theorem marchStep_marching (hvegsh : Marching (scene.a cell) s) (step : Step) :
    Marching (scene.a cell) (marchStep scene cell index step s) := by
  rcases Nat.eq_zero_or_pos index with rfl | hindex
  · exact stepOn_first hvegsh.vegsh
  · rw [marchStep_later hindex.ne']
    exact (stepOn_later hvegsh).toMarching

theorem march_settled (hlength : 2 ≤ steps.length) :
    Settled (scene.a cell) (marchLoop false scene cell 0 steps (startMarch scene cell)) := by
  match steps, hlength with
  | first :: second :: rest, _ =>
    rw [marchLoop_cons, marchLoop_cons, marchStep_later (Nat.succ_ne_zero 0)]
    exact marchLoop_settled rest (by omega) (stepOn_later (marchStep_marching startMarch_marching first))

theorem marchLoop_f : (marchLoop false scene cell index steps s).f > scene.a cell ↔
    s.f > scene.a cell ∨ ∃ step ∈ steps, (readsAt scene cell step).ta > scene.a cell := by
  induction steps generalizing index s with
  | nil => simp [marchLoop]
  | cons step steps ih =>
    rw [marchLoop_cons, ih, marchStep, stepOn_f]
    simp only [List.mem_cons, exists_eq_or_imp, gt_iff_lt, lt_max_iff, or_assoc]

theorem marchLoop_shaded (steps : List Step) (hindex : index ≠ 0) (hf : s.f > scene.a cell) (hsh : s.sh = 1)
    (hvegsh : s.vegsh = 0) : (marchLoop false scene cell index steps s).sh = 1 ∧
      (marchLoop false scene cell index steps s).vegsh = 0 ∧
      (marchLoop false scene cell index steps s).vbsh = s.vbsh := by
  induction steps generalizing index s with
  | nil => exact ⟨hsh, hvegsh, rfl⟩
  | cons step steps ih =>
    rw [marchLoop_cons, marchStep_later hindex]
    obtain ⟨hsh', hvegsh', hvbsh⟩ := stepOn_shaded (scene.vegdsm2 cell) step.dz
      (readsAt scene cell step) hf hvegsh
    rw [← hvbsh]
    refine ih (Nat.succ_ne_zero index) ?_ hsh' hvegsh'
    rw [stepOn_f]
    exact lt_max_of_lt_left hf

theorem finishMarch_exit (allowExit : Bool) (h : Marching (scene.a cell) s) :
    finishMarch (marchLoop allowExit scene cell index steps s) =
      finishMarch (marchLoop false scene cell index steps s) := by
  induction steps generalizing index s with
  | nil => rfl
  | cons step steps ih =>
    have hnext : Marching (scene.a cell) (marchStep scene cell index step s) :=
      marchStep_marching h step
    rw [marchLoop_cons, marchLoop]
    split_ifs with hexit
    · obtain ⟨-, hsh, hvegsh⟩ := hexit
      have hf : (marchStep scene cell index step s).f > scene.a cell := by
        have hif := hnext.sh
        rw [hsh] at hif
        by_contra hnot
        rw [if_neg hnot] at hif
        norm_num at hif
      obtain ⟨hsh', hvegsh', hvbsh⟩ := marchLoop_shaded steps (Nat.succ_ne_zero index)
        hf hsh hvegsh
      unfold finishMarch
      rw [hsh', hvegsh', hvbsh, hsh, hvegsh]
    · exact ih hnext

theorem marchLoop_congr {other : MarchInputs} {cell' : Cell} (ha : scene.a cell = other.a cell')
    (htrunk : scene.vegdsm2 cell = other.vegdsm2 cell')
    (hreads : ∀ step ∈ steps, readsAt scene cell step = readsAt other cell' step) :
    marchLoop false scene cell index steps s = marchLoop false other cell' index steps s := by
  induction steps generalizing index s with
  | nil => rfl
  | cons step steps ih =>
    rw [marchLoop_cons, marchLoop_cons, ih fun step hstep => hreads step (List.mem_cons_of_mem _ hstep)]
    unfold marchStep
    rw [ha, htrunk, hreads step List.mem_cons_self]

theorem finishMarch_alike {t : MarchState} (hs : 0 ≤ s.vbsh) (ht : 0 ≤ t.vbsh)
    (hsh : t.sh = s.sh) (hvegsh : t.vegsh = s.vegsh) (hvbsh : 0 < t.vbsh ↔ 0 < s.vbsh) :
    finishMarch t = finishMarch s := by
  have hsum : (if t.vbsh > 0 then 1 else t.vbsh) = if s.vbsh > 0 then 1 else s.vbsh := by
    by_cases hpos : 0 < s.vbsh
    · rw [if_pos hpos, if_pos (hvbsh.mpr hpos)]
    · have hzero := le_antisymm (not_lt.mp hpos) hs
      have hzero' := le_antisymm (not_lt.mp (mt hvbsh.mp hpos)) ht
      rw [hzero, hzero']
  unfold finishMarch
  rw [hsh, hvegsh, hsum]

/-- Steps that bring no vegetation of their own change the outputs exactly where one of them is
the first to shade the cell. -/
theorem finishMarch_neutral (hindex : index ≠ 0) (h : Settled (scene.a cell) s)
    (hneutral : ∀ step ∈ steps, (readsAt scene cell step).tv > scene.a cell ↔
      (readsAt scene cell step).tv2 > scene.a cell) :
    finishMarch (marchLoop false scene cell index steps s) = finishMarch s ↔
      ((∃ step ∈ steps, (readsAt scene cell step).ta > scene.a cell) → s.f > scene.a cell) := by
  constructor
  · intro hfinish hshades
    have hsh := congrArg MarchOutputs.sh hfinish
    simp only [finishMarch, sub_right_inj] at hsh
    have hend := (marchLoop_settled steps hindex h).sh
    rw [if_pos (marchLoop_f.mpr (Or.inr hshades)), hsh, h.sh] at hend
    by_contra hnot
    rw [if_neg hnot] at hend
    norm_num at hend
  · intro hshades
    induction steps generalizing index s with
    | nil => rfl
    | cons step steps ih =>
      have hhead := hneutral step List.mem_cons_self
      have hf : max s.f (readsAt scene cell step).ta > scene.a cell → s.f > scene.a cell := by
        intro hmax
        rcases lt_max_iff.mp hmax with hs | hta
        · exact hs
        · exact hshades ⟨step, List.mem_cons_self, hta⟩
      obtain ⟨hsh, hvegsh, hvbsh⟩ := stepOn_neutral (scene.vegdsm2 cell) step.dz h hhead hf
      have hnext : Settled (scene.a cell) (stepOn (scene.a cell) (scene.vegdsm2 cell) step.dz false
          (readsAt scene cell step) s) := stepOn_later h.toMarching
      rw [marchLoop_cons, marchStep_later hindex, ih (Nat.succ_ne_zero index) hnext
        (fun step hstep => hneutral step (List.mem_cons_of_mem _ hstep))]
      · exact finishMarch_alike h.vbsh hnext.vbsh hsh hvegsh hvbsh
      · rintro ⟨step, hstep, hta⟩
        rw [stepOn_f]
        exact lt_max_of_lt_left (hshades ⟨step, List.mem_cons_of_mem _ hstep, hta⟩)

end Runs

end Solweig.Sparse
