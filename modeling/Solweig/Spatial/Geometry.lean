import Mathlib.Algebra.Order.Ring.Rat
import Mathlib.Data.Rat.Floor
import Solweig.Executor.Trees
import Solweig.Lib.Buckets

/-!
# Influence bounds

How far a tree can change what its neighbourhood sees: a rectangle around its canopy, the
sky-view radius of its height and its shadow at each position of the sun. Lengths are exact; the
functions of an angle are parameters.
-/

namespace Solweig.Spatial

open Solweig.Lib Solweig.Executor

/-- A tree that its constructor let through. -/
abbrev Tree := { tree : TreeSpec // postInit tree = .ok () }

theorem Tree.height_pos (tree : Tree) : 0 < tree.val.heightM := (postInit_ok.mp tree.property).1

theorem Tree.canopy_pos (tree : Tree) : 0 < tree.val.canopyRadiusM :=
  (postInit_ok.mp tree.property).2.1

/-- Functions of an angle in degrees, with exact values. -/
structure Trig where
  tan : Rat → Rat
  sin : Rat → Rat
  cos : Rat → Rat
  tan_pos : ∀ a, 0 < a → a < 90 → 0 < tan a

structure SunPosition where
  altitudeDeg : Rat
  azimuthDeg : Rat
  deriving DecidableEq

structure InfluenceConfig where
  lowestSkyPatchAltitudeDeg : Rat
  minimumDirectSunAltitudeDeg : Rat
  maximumShadowLengthM : Rat
  safetyMarginM : Rat
  elevationOffsetM : Rat
  lowest_range : 0 < lowestSkyPatchAltitudeDeg ∧ lowestSkyPatchAltitudeDeg < 90
  minimum_range : 0 < minimumDirectSunAltitudeDeg ∧ minimumDirectSunAltitudeDeg < 90
  length_pos : 0 < maximumShadowLengthM
  margin_nonneg : 0 ≤ safetyMarginM
  offset_nonneg : 0 ≤ elevationOffsetM

inductive GeometryError where
  | treeHeight (value : Rat)
  | lowestPatchAltitude (value : Rat)
  | maximumRadius (value : Rat)
  | minimumAltitude (value : Rat)
  | maximumLength (value : Rat)
  | zeroDivision
  | maximumBelowMinimum
  deriving DecidableEq

/-- `a / b`, which raises at zero. -/
def divided (a b : Rat) : Except GeometryError Rat := do
  refuseIf (b = 0) .zeroDivision
  pure (a / b)

/-- `x % m` -/
def floorMod (x m : Rat) : Rat := x - m * ⌊x / m⌋

def estimateSvfRadiusM (trig : Trig) (treeHeightM lowestPatchAltitudeDeg : Rat)
    (maximumRadiusM : Option Rat) : Except GeometryError Rat := do
  refuseIf (treeHeightM ≤ 0) (.treeHeight treeHeightM)
  refuseIf (¬ (0 < lowestPatchAltitudeDeg ∧ lowestPatchAltitudeDeg < 90))
    (.lowestPatchAltitude lowestPatchAltitudeDeg)
  maximumRadiusM.toList.forM fun m => refuseIf (m ≤ 0) (.maximumRadius m)
  let radius ← divided treeHeightM (trig.tan lowestPatchAltitudeDeg)
  pure (match maximumRadiusM with
    | some m => min radius m
    | none => radius)

/-- East and north from the tree to the end of its shadow. -/
def shadowVectorM (trig : Trig) (treeHeightM : Rat) (sun : SunPosition)
    (minimumAltitudeDeg maximumLengthM : Rat) : Except GeometryError (Rat × Rat) := do
  refuseIf (treeHeightM ≤ 0) (.treeHeight treeHeightM)
  refuseIf (¬ (0 < minimumAltitudeDeg ∧ minimumAltitudeDeg < 90))
    (.minimumAltitude minimumAltitudeDeg)
  refuseIf (maximumLengthM ≤ 0) (.maximumLength maximumLengthM)
  let altitude := min (max sun.altitudeDeg minimumAltitudeDeg) (89999 / 1000)
  let length := min (← divided treeHeightM (trig.tan altitude)) maximumLengthM
  let azimuth := floorMod sun.azimuthDeg 360
  pure (-length * trig.sin azimuth, -length * trig.cos azimuth)

/-- The four sides that are returned as a tuple. -/
structure Bounds where
  minXM : Rat
  minYM : Rat
  maxXM : Rat
  maxYM : Rat
  deriving DecidableEq

/-- One position of the sun: the corridor from the tree to the end of its shadow. -/
def widenForSun (trig : Trig) (tree : TreeSpec) (config : InfluenceConfig) (effectiveHeightM : Rat)
    (bounds : Bounds) (sun : SunPosition) : Except GeometryError Bounds := do
  let (dx, dy) ← shadowVectorM trig effectiveHeightM sun config.minimumDirectSunAltitudeDeg
    config.maximumShadowLengthM
  let corridorRadius := tree.canopyRadiusM + config.safetyMarginM
  let endX := tree.xM + dx
  let endY := tree.yM + dy
  pure {
    minXM := min (min bounds.minXM (tree.xM - corridorRadius)) (endX - corridorRadius)
    maxXM := max (max bounds.maxXM (tree.xM + corridorRadius)) (endX + corridorRadius)
    minYM := min (min bounds.minYM (tree.yM - corridorRadius)) (endY - corridorRadius)
    maxYM := max (max bounds.maxYM (tree.yM + corridorRadius)) (endY + corridorRadius)
  }

def treeInfluenceBoundsM (trig : Trig) (tree : TreeSpec) (sunPositions : List SunPosition)
    (config : InfluenceConfig) (elevationOffsetM : Option Rat) : Except GeometryError Bounds := do
  let effectiveHeightM := tree.heightM + elevationOffsetM.getD config.elevationOffsetM
  let svfRadius ← estimateSvfRadiusM trig effectiveHeightM config.lowestSkyPatchAltitudeDeg
    (some config.maximumShadowLengthM)
  let radius := max tree.canopyRadiusM svfRadius + config.safetyMarginM
  sunPositions.foldlM (widenForSun trig tree config effectiveHeightM) {
    minXM := tree.xM - radius
    maxXM := tree.xM + radius
    minYM := tree.yM - radius
    maxYM := tree.yM + radius
  }

/-! ## Rectangles -/

/-- A closed rectangle. -/
structure WorldRect where
  minXM : Rat
  minYM : Rat
  maxXM : Rat
  maxYM : Rat
  x_le : minXM ≤ maxXM
  y_le : minYM ≤ maxYM
  deriving DecidableEq

namespace WorldRect

def make (bounds : Bounds) : Except GeometryError WorldRect :=
  if h : bounds.minXM ≤ bounds.maxXM ∧ bounds.minYM ≤ bounds.maxYM then
    .ok { bounds with x_le := h.1, y_le := h.2 }
  else .error .maximumBelowMinimum

def intersects (rect other : WorldRect) : Bool :=
  ¬ (rect.maxXM < other.minXM ∨ other.maxXM < rect.minXM ∨ rect.maxYM < other.minYM ∨
    other.maxYM < rect.minYM)

def union (rect other : WorldRect) : WorldRect where
  minXM := min rect.minXM other.minXM
  minYM := min rect.minYM other.minYM
  maxXM := max rect.maxXM other.maxXM
  maxYM := max rect.maxYM other.maxYM
  x_le := (min_le_left ..).trans (rect.x_le.trans (le_max_left ..))
  y_le := (min_le_left ..).trans (rect.y_le.trans (le_max_left ..))

def Contains (rect : WorldRect) (x y : Rat) : Prop :=
  x ∈ Set.Icc rect.minXM rect.maxXM ∧ y ∈ Set.Icc rect.minYM rect.maxYM

theorem intersects_iff {rect other : WorldRect} :
    rect.intersects other = true ↔ ∃ x y, rect.Contains x y ∧ other.Contains x y := by
  have hx := exists_mem_Icc_iff rect.x_le other.x_le
  have hy := exists_mem_Icc_iff rect.y_le other.y_le
  have hsplit : (∃ x y, rect.Contains x y ∧ other.Contains x y) ↔
      (∃ x, x ∈ Set.Icc rect.minXM rect.maxXM ∧ x ∈ Set.Icc other.minXM other.maxXM) ∧
        ∃ y, y ∈ Set.Icc rect.minYM rect.maxYM ∧ y ∈ Set.Icc other.minYM other.maxYM := by
    constructor
    · rintro ⟨x, y, h, h'⟩
      exact ⟨⟨x, h.1, h'.1⟩, y, h.2, h'.2⟩
    · rintro ⟨⟨x, hx, hx'⟩, y, hy, hy'⟩
      exact ⟨x, y, ⟨hx, hy⟩, hx', hy'⟩
  rw [hsplit, hx, hy]
  unfold intersects
  rw [decide_eq_true_iff]
  tauto

end WorldRect

/-! ## Crown discs -/

/-- The closest point of the rectangle to the trunk is in the disc. -/
def discIntersectsRect (tree : TreeSpec) (rect : WorldRect) : Bool :=
  let dx := clamp tree.xM rect.minXM rect.maxXM - tree.xM
  let dy := clamp tree.yM rect.minYM rect.maxYM - tree.yM
  dx * dx + dy * dy ≤ tree.canopyRadiusM ^ 2

/-- The closed disc of the crown. -/
def InCrown (tree : TreeSpec) (x y : Rat) : Prop :=
  (x - tree.xM) ^ 2 + (y - tree.yM) ^ 2 ≤ tree.canopyRadiusM ^ 2

theorem discIntersectsRect_iff {tree : TreeSpec} {rect : WorldRect} :
    discIntersectsRect tree rect = true ↔ ∃ x y, InCrown tree x y ∧ rect.Contains x y := by
  unfold discIntersectsRect InCrown
  rw [decide_eq_true_iff, ← pow_two, ← pow_two]
  constructor
  · intro h
    exact ⟨_, _, h, clamp_mem rect.x_le, clamp_mem rect.y_le⟩
  · rintro ⟨x, y, h, hx, hy⟩
    have hdx := sq_le_sq.mpr (clamp_nearest (x := tree.xM) hx)
    have hdy := sq_le_sq.mpr (clamp_nearest (x := tree.yM) hy)
    exact (add_le_add hdx hdy).trans h

/-! ## The bounds hold the crown -/

def Bounds.Contains (bounds : Bounds) (x y : Rat) : Prop :=
  x ∈ Set.Icc bounds.minXM bounds.maxXM ∧ y ∈ Set.Icc bounds.minYM bounds.maxYM

def Bounds.HoldsCrown (bounds : Bounds) (tree : TreeSpec) : Prop :=
  (bounds.minXM ≤ tree.xM - tree.canopyRadiusM ∧ tree.xM + tree.canopyRadiusM ≤ bounds.maxXM) ∧
    bounds.minYM ≤ tree.yM - tree.canopyRadiusM ∧ tree.yM + tree.canopyRadiusM ≤ bounds.maxYM

section Bounds

variable (trig : Trig) (config : InfluenceConfig) {tree : TreeSpec}

theorem divided_ok {a b : Rat} (hb : 0 < b) : divided a b = .ok (a / b) := by
  unfold divided refuseIf
  rw [if_neg hb.ne']
  rfl

theorem estimateSvfRadiusM_ok {height : Rat} (hheight : 0 < height) :
    ∃ radius, estimateSvfRadiusM trig height config.lowestSkyPatchAltitudeDeg
      (some config.maximumShadowLengthM) = .ok radius := by
  have htan := trig.tan_pos _ config.lowest_range.1 config.lowest_range.2
  unfold estimateSvfRadiusM
  simp only [except_bind_ok, refuseIf_ok, not_le, not_not, divided_ok htan]
  exact ⟨_, (), hheight, (), config.lowest_range, (), by simpa using config.length_pos, _, rfl, rfl⟩

theorem shadowVectorM_ok {height : Rat} (hheight : 0 < height) (sun : SunPosition) :
    ∃ v, shadowVectorM trig height sun config.minimumDirectSunAltitudeDeg
      config.maximumShadowLengthM = .ok v := by
  have hlow : 0 < min (max sun.altitudeDeg config.minimumDirectSunAltitudeDeg) (89999 / 1000) := by
    apply lt_min
    · exact config.minimum_range.1.trans_le (le_max_right ..)
    · norm_num
  have hhigh : min (max sun.altitudeDeg config.minimumDirectSunAltitudeDeg) (89999 / 1000) < 90 := by
    apply (min_le_right _ _).trans_lt
    norm_num
  unfold shadowVectorM
  simp only [except_bind_ok, refuseIf_ok, not_le, not_not, divided_ok (trig.tan_pos _ hlow hhigh)]
  exact ⟨_, (), hheight, (), config.minimum_range, (), config.length_pos, _, rfl, rfl⟩

theorem widenForSun_ok {height : Rat} (hheight : 0 < height) {bounds : Bounds}
    (hbounds : bounds.HoldsCrown tree) (sun : SunPosition) :
    ∃ wider, widenForSun trig tree config height bounds sun = .ok wider ∧
      wider.HoldsCrown tree := by
  obtain ⟨⟨dx, dy⟩, hv⟩ := shadowVectorM_ok trig config hheight sun
  unfold widenForSun
  rw [hv, except_ok_bind]
  refine ⟨_, rfl, ⟨?_, ?_⟩, ?_, ?_⟩
  · exact (min_le_left _ _).trans ((min_le_left _ _).trans hbounds.1.1)
  · exact hbounds.1.2.trans ((le_max_left _ _).trans (le_max_left _ _))
  · exact (min_le_left _ _).trans ((min_le_left _ _).trans hbounds.2.1)
  · exact hbounds.2.2.trans ((le_max_left _ _).trans (le_max_left _ _))

theorem widenForSuns_ok {height : Rat} (hheight : 0 < height) {bounds : Bounds}
    (hbounds : bounds.HoldsCrown tree) (suns : List SunPosition) :
    ∃ wider, suns.foldlM (widenForSun trig tree config height) bounds = .ok wider ∧
      wider.HoldsCrown tree := by
  induction suns generalizing bounds with
  | nil => exact ⟨bounds, rfl, hbounds⟩
  | cons sun suns ih =>
    obtain ⟨next, hnext, hholds⟩ := widenForSun_ok trig config hheight
      hbounds sun
    obtain ⟨wider, hwider, hcrown⟩ := ih hholds
    exact ⟨wider, foldlM_cons_ok.mpr ⟨next, hnext, hwider⟩, hcrown⟩

theorem treeInfluenceBoundsM_ok (tree : Tree) (suns : List SunPosition) :
    ∃ bounds, treeInfluenceBoundsM trig tree.val suns config none = .ok bounds ∧
      bounds.HoldsCrown tree.val := by
  have hheight : 0 < tree.val.heightM + config.elevationOffsetM :=
    add_pos_of_pos_of_nonneg tree.height_pos config.offset_nonneg
  obtain ⟨svf, hsvf⟩ := estimateSvfRadiusM_ok trig config hheight
  have hradius : tree.val.canopyRadiusM ≤ max tree.val.canopyRadiusM svf + config.safetyMarginM :=
    (le_max_left _ _).trans (le_add_of_nonneg_right config.margin_nonneg)
  unfold treeInfluenceBoundsM
  simp only [Option.getD_none, hsvf, except_ok_bind]
  apply widenForSuns_ok trig config hheight
  refine ⟨⟨?_, ?_⟩, ?_, ?_⟩
  · exact sub_le_sub_left hradius _
  · exact add_le_add_right hradius _
  · exact sub_le_sub_left hradius _
  · exact add_le_add_right hradius _

end Bounds

theorem Bounds.make_ok {bounds : Bounds} {tree : Tree} (h : bounds.HoldsCrown tree.val) :
    ∃ rect, WorldRect.make bounds = .ok rect ∧
      ∀ x y, rect.Contains x y ↔ bounds.Contains x y := by
  obtain ⟨⟨hx, hx'⟩, hy, hy'⟩ := h
  have hr := tree.canopy_pos
  have hle : bounds.minXM ≤ bounds.maxXM ∧ bounds.minYM ≤ bounds.maxYM := by
    constructor <;> linarith
  unfold WorldRect.make
  rw [dif_pos hle]
  exact ⟨_, rfl, fun _ _ => Iff.rfl⟩

theorem abs_le_of_sq {a b r : Rat} (hr : 0 ≤ r) (h : a ^ 2 + b ^ 2 ≤ r ^ 2) : |a| ≤ r :=
  abs_le_of_sq_le_sq ((le_add_of_nonneg_right (sq_nonneg b)).trans h) hr

theorem Bounds.HoldsCrown.contains {bounds : Bounds} {tree : Tree}
    (h : bounds.HoldsCrown tree.val) {x y : Rat} (hcrown : InCrown tree.val x y) :
    bounds.Contains x y := by
  obtain ⟨⟨hl, hr⟩, hb, ht⟩ := h
  have hax := abs_le.mp (abs_le_of_sq tree.canopy_pos.le hcrown)
  have hay := abs_le.mp (abs_le_of_sq tree.canopy_pos.le ((add_comm _ _).trans_le hcrown))
  unfold Bounds.Contains
  rw [Set.mem_Icc, Set.mem_Icc]
  refine ⟨⟨?_, ?_⟩, ?_, ?_⟩ <;> linarith [hax.1, hax.2, hay.1, hay.2]

end Solweig.Spatial
