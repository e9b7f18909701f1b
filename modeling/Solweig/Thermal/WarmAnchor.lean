import Solweig.Thermal.Replay

/-!
# The warm anchor

Which checkpoint may start a replay: its scene is the current one, and it heard the current
forcing up to its own next step. A replay from a selected checkpoint is the cold one.
-/

namespace Solweig.Thermal

open Solweig.Lib

variable {W : FloatWidths} {S I O C L M R D : Type}

/-! ## The policy -/

/-- `GEOMETRY_FINGERPRINT_KEYS` -/
def geometryFingerprintKeys : List String :=
  ["composed_scene", "resolved_landcover", "model_parameters"]

/-- The one of `MET_FINGERPRINT_KEYS` -/
def metFingerprintKey : String := "met_prefix"

structure CheckpointCandidate (D : Type) where
  sceneRevision : Int
  nextStep : Option Int
  thermal : Bool
  inputFingerprint : Option (Dict String D)

inductive Invalidation where
  | warm
  | geometryHistory
  | metPrefix
  | futurePrefix
  | coverageOnly
  | absent
  deriving DecidableEq

inductive AnchorReason (D : Type) where
  | coverageOnly (revision : Int)
  | beyondChange (revision nextStep r0 : Int)
  | noFingerprint (revision : Int)
  | geometryHistory (key : String) (revision : Int) (recorded current : Option D)
  | metPrefix (revision : Int) (recorded : Option D) (current : D) (nextStep : Int)
  | noCheckpoint

structure AnchorDecision (D : Type) where
  selected : Option (CheckpointCandidate D)
  resumeStep : Int
  invalidation : Invalidation
  reason : Option (AnchorReason D)

variable [DecidableEq D]

/-- Why the candidate may not start the replay; nothing when it may. -/
def classifyAnchor (candidate : CheckpointCandidate D) (geometryFingerprint : Dict String D)
    (metPrefixDigest : Int → D) (r0 : Int) : Option (AnchorReason D × Invalidation) :=
  let revision := candidate.sceneRevision
  match candidate.thermal, candidate.nextStep with
  | false, _ => some (.coverageOnly revision, .coverageOnly)
  | true, none => some (.coverageOnly revision, .coverageOnly)
  | true, some nextStep =>
    if nextStep > r0 then some (.beyondChange revision nextStep r0, .futurePrefix)
    else match candidate.inputFingerprint with
      | none => some (.noFingerprint revision, .coverageOnly)
      | some fp =>
        -- a scene that is stale is reported before stale forcing
        match geometryFingerprintKeys.find? fun key => fp[key]? ≠ geometryFingerprint[key]? with
        | some key =>
          some (.geometryHistory key revision fp[key]? geometryFingerprint[key]?, .geometryHistory)
        | none =>
          let wantedMet := metPrefixDigest nextStep
          if fp[metFingerprintKey]? ≠ some wantedMet then
            some (.metPrefix revision fp[metFingerprintKey]? wantedMet nextStep, .metPrefix)
          else none

/-- The loop of the selection, with the outcome of the newest candidate that it has seen. -/
def scanAnchors (classify : CheckpointCandidate D → Option (AnchorReason D × Invalidation)) :
    Option (AnchorReason D × Invalidation) → List (CheckpointCandidate D) → AnchorDecision D
  | newest, [] =>
    let newest := newest.getD (.noCheckpoint, .absent)
    ⟨none, 0, newest.2, some newest.1⟩
  | newest, candidate :: rest =>
    match classify candidate with
    | none => ⟨some candidate, candidate.nextStep.getD 0, .warm, none⟩
    | some refusal => scanAnchors classify (newest.or (some refusal)) rest

def selectWarmAnchor (candidates : List (CheckpointCandidate D))
    (geometryFingerprint : Dict String D) (metPrefixDigest : Int → D) (r0 : Int) :
    AnchorDecision D :=
  scanAnchors (fun candidate => classifyAnchor candidate geometryFingerprint metPrefixDigest r0)
    none (candidates.insertionSort fun a b => b.sceneRevision ≤ a.sceneRevision)

section Policy

variable {candidates : List (CheckpointCandidate D)} {candidate : CheckpointCandidate D}
  {geometryFingerprint : Dict String D} {metPrefixDigest : Int → D} {r0 : Int}

theorem classifyAnchor_none
    (h : classifyAnchor candidate geometryFingerprint metPrefixDigest r0 = none) :
    ∃ nextStep fp, candidate.thermal = true ∧ candidate.nextStep = some nextStep ∧
      candidate.inputFingerprint = some fp ∧ nextStep ≤ r0 ∧
      (∀ key ∈ geometryFingerprintKeys, fp[key]? = geometryFingerprint[key]?) ∧
      fp[metFingerprintKey]? = some (metPrefixDigest nextStep) := by
  unfold classifyAnchor at h
  rcases hthermal : candidate.thermal with _ | _ <;>
    rcases hnext : candidate.nextStep with _ | nextStep
  all_goals
    rw [hthermal, hnext] at h
    dsimp only at h
  · cases h
  · cases h
  · cases h
  rcases hfp : candidate.inputFingerprint with _ | fp
  · rw [hfp] at h
    split at h <;> cases h
  rw [hfp] at h
  refine ⟨nextStep, fp, rfl, rfl, rfl, ?_⟩
  split at h
  · cases h
  next hr0 =>
  dsimp only at h
  split at h
  · cases h
  next hkeys =>
  split at h
  · cases h
  next hmet =>
  refine ⟨by omega, ?_, by simpa using hmet⟩
  intro key hkey
  have hsame := List.find?_eq_none.mp hkeys key hkey
  simpa using hsame

omit [DecidableEq D] in
theorem scanAnchors_selected
    {classify : CheckpointCandidate D → Option (AnchorReason D × Invalidation)}
    {newest : Option (AnchorReason D × Invalidation)} {decision : AnchorDecision D}
    (hscan : scanAnchors classify newest candidates = decision)
    (h : decision.selected = some candidate) :
    classify candidate = none ∧ decision.resumeStep = candidate.nextStep.getD 0 ∧
      ∃ newer older, candidates = newer ++ candidate :: older ∧
        ∀ other ∈ newer, classify other ≠ none := by
  subst hscan
  induction candidates generalizing newest with
  | nil => cases h
  | cons first rest ih =>
    unfold scanAnchors at h ⊢
    rcases hfirst : classify first with _ | refusal
    · rw [hfirst] at h
      cases h
      exact ⟨hfirst, rfl, [], rest, rfl, List.forall_mem_nil _⟩
    · rw [hfirst] at h
      obtain ⟨hnone, hresume, newer, older, hsplit, hnewer⟩ := ih h
      refine ⟨hnone, hresume, first :: newer, older, by rw [hsplit, List.cons_append], ?_⟩
      rw [List.forall_mem_cons]
      exact ⟨by simp [hfirst], hnewer⟩

theorem selectWarmAnchor_selected
    (h : (selectWarmAnchor candidates geometryFingerprint metPrefixDigest r0).selected =
      some candidate) :
    candidate ∈ candidates ∧
      classifyAnchor candidate geometryFingerprint metPrefixDigest r0 = none ∧
      (selectWarmAnchor candidates geometryFingerprint metPrefixDigest r0).resumeStep =
        candidate.nextStep.getD 0 ∧
      ∀ other ∈ candidates, classifyAnchor other geometryFingerprint metPrefixDigest r0 = none →
        other.sceneRevision ≤ candidate.sceneRevision := by
  obtain ⟨hnone, hresume, newer, older, hsplit, hnewer⟩ := scanAnchors_selected rfl h
  have hmem (other : CheckpointCandidate D) :
      other ∈ candidates ↔ other ∈ newer ++ candidate :: older := by
    rw [← hsplit, List.mem_insertionSort]
  refine ⟨(hmem candidate).mpr (by simp), hnone, hresume, fun other hother hother' => ?_⟩
  have hsorted := List.pairwise_insertionSort
    (fun a b : CheckpointCandidate D => b.sceneRevision ≤ a.sceneRevision) candidates
  rw [hsplit, List.pairwise_append, List.pairwise_cons] at hsorted
  rcases List.mem_append.mp ((hmem other).mp hother) with hin | hin
  · exact absurd hother' (hnewer other hin)
  · rcases List.mem_cons.mp hin with rfl | hin
    · exact le_refl _
    · exact hsorted.2.1.1 other hin

end Policy

/-! ## Checkpoints of cold runs -/

/-- The inputs of a scene that its fingerprint digests. -/
structure SceneInputs (C L M : Type) where
  composedScene : C
  resolvedLandcover : L
  modelParameters : M

structure Digests (C L M R D : Type) where
  composedScene : C → D
  resolvedLandcover : L → D
  modelParameters : M → D
  metPrefix : List R → D

structure Digests.CollisionFree (digests : Digests C L M R D) : Prop where
  composedScene : Function.Injective digests.composedScene
  resolvedLandcover : Function.Injective digests.resolvedLandcover
  modelParameters : Function.Injective digests.modelParameters
  metPrefix : Function.Injective digests.metPrefix

def Digests.geometryEntries (digests : Digests C L M R D) (scene : SceneInputs C L M) :
    List (String × D) :=
  [("composed_scene", digests.composedScene scene.composedScene),
    ("resolved_landcover", digests.resolvedLandcover scene.resolvedLandcover),
    ("model_parameters", digests.modelParameters scene.modelParameters)]

def Digests.geometryFingerprint (digests : Digests C L M R D) (scene : SceneInputs C L M) :
    Dict String D := Dict.ofEntries (digests.geometryEntries scene)

def Digests.thermalFingerprint (digests : Digests C L M R D) (scene : SceneInputs C L M)
    (metPrefix : List R) : Dict String D :=
  (digests.geometryFingerprint scene).insert metFingerprintKey (digests.metPrefix metPrefix)

/-- The forcing rows before a timestep. -/
def metPrefix (rows : Nat → R) (n : Int) : List R := (List.range n.toNat).map rows

/-- The kernel, and what it reads of a scene and of a forcing row. -/
structure Physics (W : FloatWidths) (S I O C L M R : Type) where
  kernel : Kernel W S I O
  static : SceneInputs C L M → RadiationStatic S
  stepInputs : SceneInputs C L M → Int → R → I

namespace Physics

variable (physics : Physics W S I O C L M R) (scene : SceneInputs C L M) (rows : Nat → R)

def bundle (t : Int) : I := physics.stepInputs scene t (rows t.toNat)

def cold : ThermalState W :=
  coldThermalState W (physics.static scene).rows (physics.static scene).cols

def coldLoop : RadLoopState W (physics.static scene).grid where
  firstdaytime := 1
  timeadd := W.zero
  ci := W.narrow W.one
  planes := fun _ _ _ => W.narrow W.zero

/-- The loop of a replay from the cold state, before a timestep. -/
def loopAt (t : Int) : RadLoopState W (physics.static scene).grid :=
  Stepped.after (physics.kernel (physics.static scene)) (physics.bundle scene rows)
    (physics.coldLoop scene) (Int.range 0 t)

theorem restore_cold : restoreLoopState (physics.cold scene) (physics.static scene).grid =
    .ok (physics.coldLoop scene, none) := by
  have hgrid : (physics.cold scene).grid = (physics.static scene).grid := rfl
  unfold restoreLoopState
  rw [dif_pos hgrid]
  rfl

variable {rows} {rows' : Nat → R}

theorem loopAt_congr {n : Nat} (h : metPrefix rows n = metPrefix rows' n) :
    physics.loopAt scene rows n = physics.loopAt scene rows' n := by
  apply Stepped.after_congr
  intro t ht
  rw [Int.mem_range_iff] at ht
  have hrow := List.map_inj_left.mp h t.toNat (List.mem_range.mpr (by omega))
  unfold bundle
  rw [hrow]

end Physics

/-- The record of a snapshot that was taken in a replay from the cold state of its scene. -/
def Captured (physics : Physics W S I O C L M R) (digests : Digests C L M R D)
    (candidate : CheckpointCandidate D) (state : ThermalState W) : Prop :=
  ∃ (scene : SceneInputs C L M) (rows : Nat → R) (n : Nat),
    candidate.thermal = true ∧ candidate.nextStep = some (n : Int) ∧
      candidate.inputFingerprint = some (digests.thermalFingerprint scene (metPrefix rows n)) ∧
      captureThermalState (physics.loopAt scene rows n) n none = .ok state

section Captured

variable {physics : Physics W S I O C L M R} {digests : Digests C L M R D}
  {candidate : CheckpointCandidate D} {state : ThermalState W} {scene scene' : SceneInputs C L M}
  {rows : Nat → R} {r0 : Int}

omit [DecidableEq D] in
theorem Digests.getElem?_geometry {entry : String × D}
    (h : entry ∈ digests.geometryEntries scene) :
    (digests.geometryFingerprint scene)[entry.1]? = some entry.2 := by
  apply Dict.getElem?_ofEntries_of_mem _ h
  show geometryFingerprintKeys.Nodup
  decide

omit [DecidableEq D] in
theorem Digests.getElem?_thermal {key : String} (h : key ∈ geometryFingerprintKeys)
    (heard : List R) : (digests.thermalFingerprint scene heard)[key]? =
      (digests.geometryFingerprint scene)[key]? := by
  apply Dict.getElem?_insert_of_ne
  rintro rfl
  revert h
  decide

omit [DecidableEq D] in
theorem Digests.CollisionFree.inputs_eq (h : digests.CollisionFree) {heard wanted : List R}
    (hkeys : ∀ key ∈ geometryFingerprintKeys,
      (digests.thermalFingerprint scene' heard)[key]? = (digests.geometryFingerprint scene)[key]?)
    (hmet : (digests.thermalFingerprint scene' heard)[metFingerprintKey]? =
      some (digests.metPrefix wanted)) : scene' = scene ∧ heard = wanted := by
  have hsame (key : String) (d d' : D) (hd : (key, d) ∈ digests.geometryEntries scene')
      (hd' : (key, d') ∈ digests.geometryEntries scene) : d = d' := by
    have hkey : key ∈ geometryFingerprintKeys := List.mem_map_of_mem (f := Prod.fst) hd
    have hlookup := hkeys key hkey
    rw [Digests.getElem?_thermal hkey, Digests.getElem?_geometry hd,
      Digests.getElem?_geometry hd'] at hlookup
    exact Option.some.inj hlookup
  rw [Digests.thermalFingerprint, Std.ExtTreeMap.getElem?_insert_self, Option.some.injEq] at hmet
  refine ⟨?_, h.metPrefix hmet⟩
  obtain ⟨composed, cover, parameters⟩ := scene
  obtain ⟨composed', cover', parameters'⟩ := scene'
  unfold Digests.geometryEntries at hsame
  rw [SceneInputs.mk.injEq]
  refine ⟨h.composedScene ?_, h.resolvedLandcover ?_, h.modelParameters ?_⟩
  · exact hsame "composed_scene" _ _ (List.mem_cons_self ..) (List.mem_cons_self ..)
  · apply hsame "resolved_landcover" <;> simp
  · apply hsame "model_parameters" <;> simp

theorem state_of_applicable (hdigests : digests.CollisionFree)
    (hcaptured : Captured physics digests candidate state)
    (h : classifyAnchor candidate (digests.geometryFingerprint scene)
      (fun n => digests.metPrefix (metPrefix rows n)) r0 = none) :
    ∃ n : Nat, candidate.nextStep = some (n : Int) ∧ n ≤ r0 ∧
      state = .ofLoop (physics.loopAt scene rows n) n none := by
  obtain ⟨scene', rows', n, -, hnext, hfp, hstate⟩ := hcaptured
  obtain ⟨nextStep, fp, -, hnext', hfp', hr0, hkeys, hmet⟩ := classifyAnchor_none h
  rw [hnext, Option.some.injEq] at hnext'
  rw [hfp, Option.some.injEq] at hfp'
  subst hnext' hfp'
  obtain ⟨rfl, hprefix⟩ := hdigests.inputs_eq hkeys hmet
  refine ⟨n, hnext, hr0, ?_⟩
  rw [captureThermalState_ok (by omega), Except.ok.injEq] at hstate
  rw [← hstate, physics.loopAt_congr scene' hprefix]
  rfl

end Captured

/-- A candidate without warm state. -/
def CoverageOnly (candidate : CheckpointCandidate D) : Prop :=
  candidate.thermal = false ∨ candidate.nextStep = none ∨ candidate.inputFingerprint = none

/-- A replay from a selected checkpoint gives what the replay from the cold state over the current
inputs gives, and advances each later timestep once. -/
theorem selected_anchor_replays_cold (physics : Physics W S I O C L M R)
    (digests : Digests C L M R D) (hdigests : digests.CollisionFree)
    (records : List (CheckpointCandidate D × ThermalState W))
    (hrecords : ∀ record ∈ records,
      Captured physics digests record.1 record.2 ∨ CoverageOnly record.1)
    (scene : SceneInputs C L M) (rows : Nat → R) (r0 tStop : Int) (hstop : r0 ≤ tStop)
    (decision : AnchorDecision D)
    (hdecision : selectWarmAnchor (records.map (·.1)) (digests.geometryFingerprint scene)
      (fun n => digests.metPrefix (metPrefix rows n)) r0 = decision)
    (record : CheckpointCandidate D × ThermalState W) (hrecord : record ∈ records)
    (hselected : decision.selected = some record.1) (collectTs : List Int)
    (hcollect : ∀ t ∈ collectTs, 0 ≤ t ∧ t < tStop) :
    ∃ warm cold,
      splitReplayThermal physics.kernel (physics.static scene) (physics.bundle scene rows) record.2
          r0 tStop = .ok warm ∧
        replayThermal physics.kernel (physics.static scene) (physics.bundle scene rows)
          (physics.cold scene) collectTs (some tStop) = .ok cold ∧
        (∀ t, r0 ≤ t → t < tStop → ∃ out, warm.outputs[t]? = some out ∧
          (t ∈ collectTs → cold.outputs[t]? = some out)) ∧
        warm.finalState = cold.finalState ∧
        decision.resumeStep = record.2.nextStep ∧
        warm.advanced = Int.range decision.resumeStep tStop ∧
        warm.stepsSolved = tStop - decision.resumeStep := by
  subst hdecision
  obtain ⟨-, hnone, hresume, -⟩ := selectWarmAnchor_selected hselected
  have hcaptured : Captured physics digests record.1 record.2 := by
    obtain ⟨nextStep, fp, hthermal, hnext, hfp, -⟩ := classifyAnchor_none hnone
    rcases hrecords record hrecord with hcaptured | hcovers | hcovers | hcovers
    · exact hcaptured
    · rw [hcovers] at hthermal
      cases hthermal
    · rw [hcovers] at hnext
      cases hnext
    · rw [hcovers] at hfp
      cases hfp
  obtain ⟨n, hnext, hr0, hstate⟩ := state_of_applicable hdigests hcaptured hnone
  have hn : (record.2.nextStep : Int) = n := by
    rw [hstate]
    rfl
  have hresume' : (selectWarmAnchor (records.map (·.1)) (digests.geometryFingerprint scene)
      (fun n => digests.metPrefix (metPrefix rows n)) r0).resumeStep = n := by
    rw [hresume, hnext, Option.getD_some]
  have hrestore : restoreLoopState record.2 (physics.static scene).grid =
      .ok (physics.loopAt scene rows n, none) := by
    rw [hstate]
    exact restoreLoopState_ofLoop _ _ _
  -- the checkpoint and the steps after it are the cold run
  have hloop (t : Int) (ht : n ≤ t) :
      Stepped.after (physics.kernel (physics.static scene)) (physics.bundle scene rows)
        (physics.loopAt scene rows n) (Int.range n t) = physics.loopAt scene rows t :=
    Stepped.after_range (by omega) ht
  obtain ⟨warm, hwarm, hfinal, hsteps, hadvanced, houtputs⟩ :=
    splitReplayThermal_ok physics.kernel (physics.bundle scene rows) hrestore (by omega) hstop
  obtain ⟨cold, hcold, hfinal', -, -, houtputs'⟩ :=
    replayThermal_ok physics.kernel (physics.bundle scene rows) (physics.restore_cold scene)
      (show ((physics.cold scene).nextStep : Int) ≤ tStop by
        show (0 : Int) ≤ tStop
        omega) hcollect
  rw [hn] at hfinal hsteps hadvanced houtputs
  refine ⟨warm, cold, hwarm, hcold, fun t ht ht' => ?_, ?_, by rw [hresume', hn], ?_, ?_⟩
  · refine ⟨_, (houtputs t).trans (if_pos ⟨ht, ht'⟩), fun hmem => ?_⟩
    rw [houtputs' t, if_pos hmem, hloop t (by omega)]
    rfl
  · rw [hfinal, hfinal', hloop tStop (by omega)]
    rfl
  · rw [hadvanced, hresume']
  · rw [hsteps, hresume']

/-! ## Five timesteps -/

def wholeNumbers : FloatWidths := ⟨Int, Int, id, id, fun _ => rfl, 0, 1⟩

def countUp (total input : Int) : Int := total + input

/-- The time counts up with the inputs. -/
def counting : Physics wholeNumbers Unit Int Int Nat Nat Nat Int where
  kernel := fun _ input loopState =>
    (countUp loopState.timeadd input,
      { loopState with timeadd := countUp loopState.timeadd input })
  static := fun _ => ⟨1, 1, ()⟩
  stepInputs := fun _ _ row => row

def spelled : Digests Nat Nat Nat Int (List Int) where
  composedScene := fun n => [n]
  resolvedLandcover := fun n => [n]
  modelParameters := fun n => [n]
  metPrefix := id

theorem spelled_collisionFree : spelled.CollisionFree where
  composedScene := fun _ _ h => Int.ofNat.inj (List.cons.inj h).1
  resolvedLandcover := fun _ _ h => Int.ofNat.inj (List.cons.inj h).1
  modelParameters := fun _ _ h => Int.ofNat.inj (List.cons.inj h).1
  metPrefix := Function.injective_id

def park : SceneInputs Nat Nat Nat := ⟨1, 2, 3⟩

def oldForcing (t : Nat) : Int := t

/-- The row of timestep three changed. -/
def newForcing (t : Nat) : Int := if t = 3 then 30 else t

/-- A snapshot of the old run. -/
def oldRecord (revision : Int) (n : Nat) :
    CheckpointCandidate (List Int) × ThermalState wholeNumbers :=
  (⟨revision, some n, true, some (spelled.thermalFingerprint park (metPrefix oldForcing n))⟩,
    .ofLoop (counting.loopAt park oldForcing n) n none)

theorem oldRecord_captured (revision : Int) (n : Nat) :
    Captured counting spelled (oldRecord revision n).1 (oldRecord revision n).2 :=
  ⟨park, oldForcing, n, rfl, rfl, rfl, captureThermalState_ok (by omega)⟩

/-- The newest snapshot heard the changed row, and the one before it is selected. -/
theorem secondRecord_replays_cold : ∃ warm cold,
    splitReplayThermal counting.kernel (counting.static park) (counting.bundle park newForcing)
        (oldRecord 7 2).2 3 5 = .ok warm ∧
      replayThermal counting.kernel (counting.static park) (counting.bundle park newForcing)
        (counting.cold park) [3, 4] (some 5) = .ok cold ∧
      warm.finalState = cold.finalState ∧ warm.advanced = Int.range 2 5 := by
  obtain ⟨warm, cold, hwarm, hcold, -, hfinal, -, hadvanced, -⟩ :=
    selected_anchor_replays_cold counting spelled spelled_collisionFree
      [oldRecord 8 4, oldRecord 7 2]
      (by
        simp only [List.forall_mem_cons, List.not_mem_nil, false_implies, implies_true, and_true]
        exact ⟨Or.inl (oldRecord_captured 8 4), Or.inl (oldRecord_captured 7 2)⟩)
      park newForcing 3 5 (by decide) ⟨some (oldRecord 7 2).1, 2, .warm, none⟩ (by rfl)
      (oldRecord 7 2) (by simp) rfl [3, 4] (by decide)
  exact ⟨warm, cold, hwarm, hcold, hfinal, hadvanced⟩

end Solweig.Thermal
