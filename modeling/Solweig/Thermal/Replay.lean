import Mathlib.Data.List.Dedup
import Mathlib.Data.List.Sort
import Solweig.Lib.Fold
import Solweig.Lib.Stepped

/-!
# The thermal replay

The state that timesteps carry, its snapshots, and the driver that advances a snapshot through
the radiation kernel.
-/

namespace Solweig.Thermal

open Solweig.Lib

/-- The two widths of the scalars. -/
structure FloatWidths where
  Single : Type
  Double : Type
  widen : Single → Double
  narrow : Double → Single
  narrow_widen : ∀ x, narrow (widen x) = x
  zero : Double
  one : Double

/-- `THERMAL_PLANE_NAMES` -/
inductive ThermalPlane where
  | tgmap1 | tgmap1E | tgmap1S | tgmap1W | tgmap1N | tgOut1

variable {W : FloatWidths} {S I O : Type}

/-- Six maps of one shape. -/
abbrev Planes (W : FloatWidths) (grid : Nat × Nat) :=
  ThermalPlane → Fin grid.1 → Fin grid.2 → W.Single

structure RadLoopState (W : FloatWidths) (grid : Nat × Nat) where
  firstdaytime : Int
  timeadd : W.Double
  ci : W.Single
  planes : Planes W grid

/-- The state after the timesteps before `nextStep`. -/
structure ThermalState (W : FloatWidths) where
  nextStep : Nat
  firstdaytime : Int
  timeadd : W.Double
  ci : W.Double
  twater : Option W.Double
  grid : Nat × Nat
  planes : Planes W grid

inductive ThermalStateError where
  | badNextStep (nextStep : Int)
  | gridMismatch (shape grid : Nat × Nat)
  /-- The anchor consumed the timestep already. -/
  | consumed (t nextStep : Int)
  | dropped (t tStop : Int)
  | stopBeforeStart (tStop nextStep : Int)
  | beyondSplit (nextStep r0 : Int)
  deriving DecidableEq

def coldThermalState (W : FloatWidths) (rows cols : Nat) : ThermalState W where
  nextStep := 0
  firstdaytime := 1
  timeadd := W.zero
  ci := W.one
  twater := none
  grid := (rows, cols)
  planes := fun _ _ _ => W.narrow W.zero

/-- A snapshot of the loop. -/
def ThermalState.ofLoop {grid : Nat × Nat} (loopState : RadLoopState W grid) (nextStep : Nat)
    (twater : Option W.Double) : ThermalState W where
  nextStep
  firstdaytime := loopState.firstdaytime
  timeadd := loopState.timeadd
  ci := W.widen loopState.ci
  twater
  grid
  planes := loopState.planes

def captureThermalState {grid : Nat × Nat} (loopState : RadLoopState W grid) (nextStep : Int)
    (twater : Option W.Double) : Except ThermalStateError (ThermalState W) := do
  refuseIf (nextStep < 0) (.badNextStep nextStep)
  pure (.ofLoop loopState nextStep.toNat twater)

def restoreLoopState (state : ThermalState W) (grid : Nat × Nat) :
    Except ThermalStateError (RadLoopState W grid × Option W.Double) :=
  if h : state.grid = grid then
    .ok ({ firstdaytime := state.firstdaytime
           timeadd := state.timeadd
           ci := W.narrow state.ci
           planes := h ▸ state.planes }, state.twater)
  else .error (.gridMismatch state.grid grid)

structure RadiationStatic (S : Type) where
  rows : Nat
  cols : Nat
  fields : S

def RadiationStatic.grid (static : RadiationStatic S) : Nat × Nat := (static.rows, static.cols)

/-- `fused_radiation_timestep`: the outputs of one timestep, and the next state. -/
abbrev Kernel (W : FloatWidths) (S I O : Type) :=
  (static : RadiationStatic S) → I → RadLoopState W static.grid →
    O × RadLoopState W static.grid

structure ReplayOutcome (W : FloatWidths) (O : Type) where
  outputs : Dict Int O
  finalState : ThermalState W
  stepsSolved : Int
  advanced : List Int

/-- One end of the requested times. -/
def checkTimestep (t : Option Int) (bad : Int → Prop) [DecidablePred bad]
    (error : Int → ThermalStateError) : Except ThermalStateError Unit :=
  match t with
  | some t => refuseIf (bad t) (error t)
  | none => .ok ()

variable (kernel : Kernel W S I O) (static : RadiationStatic S) (bundle : Int → I)
  (state : ThermalState W)

def replayThermal (collectTs : List Int) (tStop : Option Int) :
    Except ThermalStateError (ReplayOutcome W O) := do
  let start : Int := state.nextStep
  let ts := collectTs.dedup.insertionSort (· ≤ ·)
  checkTimestep ts.head? (· < start) (.consumed · start)
  let tStop := tStop.getD (match ts.getLast? with
    | some t => t + 1
    | none => start)
  checkTimestep ts.getLast? (tStop ≤ ·) (.dropped · tStop)
  refuseIf (tStop < start) (.stopBeforeStart tStop start)
  let (loopState, twater) ← restoreLoopState state static.grid
  let (outputs, loopState) := (Int.range start tStop).foldl
    (Stepped.record (kernel static) bundle ts) (∅, loopState)
  let finalState ← captureThermalState loopState tStop twater
  pure
    { outputs
      finalState
      stepsSolved := tStop - start
      advanced := Int.range start tStop }

/-- The prefix to `r0` is advanced without outputs, and the rest is collected. -/
def splitReplayThermal (r0 tStop : Int) : Except ThermalStateError (ReplayOutcome W O) := do
  refuseIf (state.nextStep > r0) (.beyondSplit state.nextStep r0)
  let phase1 ← replayThermal kernel static bundle state [] (some r0)
  let phase2 ← replayThermal kernel static bundle phase1.finalState (Int.range r0 tStop)
    (some tStop)
  pure
    { outputs := phase2.outputs
      finalState := phase2.finalState
      stepsSolved := phase1.stepsSolved + phase2.stepsSolved
      advanced := phase1.advanced ++ phase2.advanced }

/-! ## One replay -/

variable {static state}

theorem restoreLoopState_ofLoop {grid : Nat × Nat} (loopState : RadLoopState W grid) (nextStep : Nat)
    (twater : Option W.Double) :
    restoreLoopState (.ofLoop loopState nextStep twater) grid = .ok (loopState, twater) := by
  unfold restoreLoopState ThermalState.ofLoop
  rw [dif_pos rfl]
  dsimp only
  rw [W.narrow_widen]

theorem captureThermalState_ok {grid : Nat × Nat} {loopState : RadLoopState W grid} {nextStep : Int}
    {twater : Option W.Double} (h : 0 ≤ nextStep) :
    captureThermalState loopState nextStep twater =
      .ok (.ofLoop loopState nextStep.toNat twater) := by
  unfold captureThermalState
  rw [except_bind_ok]
  exact ⟨(), refuseIf_ok.mpr (by omega), rfl⟩

theorem checkTimestep_ok {t : Option Int} {bad : Int → Prop} [DecidablePred bad]
    {error : Int → ThermalStateError} (h : ∀ u ∈ t, ¬ bad u) : checkTimestep t bad error = .ok () := by
  unfold checkTimestep
  rcases t with _ | t
  · rfl
  · exact refuseIf_ok.mpr (h t rfl)

/-- The times between the snapshot and the stop are advanced from what is restored, and the
requested ones among them are collected. -/
theorem replayThermal_ok {loopState : RadLoopState W static.grid} {twater : Option W.Double}
    {collectTs : List Int} {tStop : Int}
    (hrestore : restoreLoopState state static.grid = .ok (loopState, twater))
    (hstop : state.nextStep ≤ tStop) (hcollect : ∀ t ∈ collectTs, state.nextStep ≤ t ∧ t < tStop) :
    ∃ outcome, replayThermal kernel static bundle state collectTs (some tStop) = .ok outcome ∧
      outcome.finalState = .ofLoop (Stepped.after (kernel static) bundle loopState
        (Int.range state.nextStep tStop)) tStop.toNat twater ∧
      outcome.stepsSolved = tStop - state.nextStep ∧
      outcome.advanced = Int.range state.nextStep tStop ∧
      ∀ t, outcome.outputs[t]? = if t ∈ collectTs then
          some (kernel static (bundle t) (Stepped.after (kernel static) bundle loopState
            (Int.range state.nextStep t))).1
        else none := by
  have hmem (t : Int) : t ∈ collectTs.dedup.insertionSort (· ≤ ·) ↔ t ∈ collectTs := by
    rw [List.mem_insertionSort, List.mem_dedup]
  unfold replayThermal
  simp only [Option.getD_some, except_bind_ok]
  refine ⟨_, ⟨(), checkTimestep_ok fun t ht => ?_, (), checkTimestep_ok fun t ht => ?_, (),
    refuseIf_ok.mpr (by omega), _, hrestore, _, captureThermalState_ok (by omega), rfl⟩, ?_, rfl,
    rfl, ?_⟩
  · have := (hcollect t ((hmem t).mp (List.mem_of_mem_head? ht))).1
    omega
  · have := (hcollect t ((hmem t).mp (List.mem_of_getLast? ht))).2
    omega
  · rw [Stepped.foldl_record_state]
  · intro t
    rw [Stepped.getElem?_foldl_record hstop]
    apply if_congr _ rfl rfl
    rw [hmem]
    exact ⟨fun h => h.2.2, fun h => ⟨(hcollect t h).1, (hcollect t h).2, h⟩⟩

theorem splitReplayThermal_ok {loopState : RadLoopState W static.grid} {twater : Option W.Double}
    {r0 tStop : Int} (hrestore : restoreLoopState state static.grid = .ok (loopState, twater))
    (hsplit : state.nextStep ≤ r0) (hstop : r0 ≤ tStop) :
    ∃ outcome, splitReplayThermal kernel static bundle state r0 tStop = .ok outcome ∧
      outcome.finalState = .ofLoop (Stepped.after (kernel static) bundle loopState
        (Int.range state.nextStep tStop)) tStop.toNat twater ∧
      outcome.stepsSolved = tStop - state.nextStep ∧
      outcome.advanced = Int.range state.nextStep tStop ∧
      ∀ t, outcome.outputs[t]? = if r0 ≤ t ∧ t < tStop then
          some (kernel static (bundle t) (Stepped.after (kernel static) bundle loopState
            (Int.range state.nextStep t))).1
        else none := by
  obtain ⟨phase1, hphase1, hfinal1, hsteps1, hadvanced1, -⟩ :=
    replayThermal_ok kernel bundle hrestore hsplit (List.forall_mem_nil _)
  have hr0 : (r0.toNat : Int) = r0 := by omega
  have hrestore2 : restoreLoopState phase1.finalState static.grid =
      .ok (Stepped.after (kernel static) bundle loopState (Int.range state.nextStep r0), twater) := by
    rw [hfinal1]
    exact restoreLoopState_ofLoop _ _ _
  have hnext : (phase1.finalState.nextStep : Int) = r0 := by
    rw [hfinal1]
    exact hr0
  have hrest : ∀ t ∈ Int.range r0 tStop, (phase1.finalState.nextStep : Int) ≤ t ∧ t < tStop := by
    intro t ht
    rw [Int.mem_range_iff] at ht
    omega
  obtain ⟨phase2, hphase2, hfinal2, hsteps2, hadvanced2, houtputs2⟩ :=
    replayThermal_ok kernel bundle hrestore2 (by omega) hrest
  rw [hnext] at hfinal2 hsteps2 hadvanced2 houtputs2
  unfold splitReplayThermal
  simp only [except_bind_ok]
  refine ⟨_, ⟨(), refuseIf_ok.mpr (by omega), phase1, hphase1, phase2, hphase2, rfl⟩, ?_, ?_, ?_, ?_⟩
  · rw [hfinal2, Stepped.after_range hsplit hstop]
  · show phase1.stepsSolved + phase2.stepsSolved = tStop - state.nextStep
    rw [hsteps1, hsteps2]
    omega
  · show phase1.advanced ++ phase2.advanced = Int.range state.nextStep tStop
    rw [hadvanced1, hadvanced2, Stepped.range_append hsplit hstop]
  · intro t
    rw [houtputs2]
    by_cases ht : r0 ≤ t ∧ t < tStop
    · rw [if_pos ht, if_pos (Int.mem_range_iff.mpr ht), Stepped.after_range hsplit ht.1]
    · rw [if_neg ht, if_neg (fun hmem => ht (Int.mem_range_iff.mp hmem))]

end Solweig.Thermal
