import Mathlib.Data.String.Basic
import Solweig.Spatial.Geometry

/-!
# The spatial index of trees

Trees filed under every bucket that their influence bounds reach. A query gathers what is filed
under the buckets of its rectangle and filters it with the exact tests; what it finds is what a
scan of all trees finds.
-/

namespace Solweig.Spatial

open Solweig.Lib Solweig.Executor

inductive IndexError where
  | bucketSize (value : Rat)
  | duplicateTreeIds
  | geometry (error : GeometryError)
  | keyError (treeId : String)

structure TreeSpatialIndex where
  trees : List Tree
  footprints : Dict String WorldRect
  buckets : Dict (Int × Int) (List String)
  bucketSizeM : Rat

/-- The buckets of a rectangle, column by column. -/
def rectBuckets (bucketSizeM : Rat) (rect : WorldRect) : List (Int × Int) :=
  (bucketRange bucketSizeM rect.minXM rect.maxXM).product
    (bucketRange bucketSizeM rect.minYM rect.maxYM)

/-- `WorldRect(*tree_influence_bounds_m(...))` -/
def footprint (trig : Trig) (sunPositions : List SunPosition) (config : InfluenceConfig)
    (tree : TreeSpec) : Except GeometryError WorldRect := do
  WorldRect.make (← treeInfluenceBoundsM trig tree sunPositions config none)

def lookUp {α : Type} (d : Dict String α) (treeId : String) : Except IndexError α :=
  match d[treeId]? with
  | some a => .ok a
  | none => .error (.keyError treeId)

namespace TreeSpatialIndex

/-- The constructor. -/
def make (trig : Trig) (trees : List Tree) (config : InfluenceConfig)
    (sunPositions : List SunPosition) (bucketSizeM : Rat) : Except IndexError TreeSpatialIndex := do
  refuseIf (bucketSizeM ≤ 0) (.bucketSize bucketSizeM)
  let ordered := trees.insertionSort fun a b => a.val.treeId ≤ b.val.treeId
  refuseIf (¬ (ordered.map (·.val.treeId)).Nodup) .duplicateTreeIds
  let rects ← ordered.mapM fun tree => do
    pure (tree.val.treeId, ← (footprint trig sunPositions config tree.val).mapError .geometry)
  let members := fileUnder (fun r => rectBuckets bucketSizeM r.2) (·.1) rects
  pure {
    trees := ordered
    footprints := .ofEntries rects
    buckets := freeze members
    bucketSizeM
  }

/-- The ids in the buckets of the rectangle. -/
def candidates (index : TreeSpatialIndex) (rect : WorldRect) : Finset String :=
  gather (index.buckets.getD · []) (rectBuckets index.bucketSizeM rect)

def byId (index : TreeSpatialIndex) : Dict String Tree :=
  .ofEntries (index.trees.map fun tree => (tree.val.treeId, tree))

/-- The exact test of one candidate. -/
def matched (index : TreeSpatialIndex) (rect : WorldRect) (influence : Bool) (treeId : String)
    (tree : Tree) : Except IndexError Bool := do
  if influence then
    pure ((← lookUp index.footprints treeId).intersects rect)
  else pure (discIntersectsRect tree.val rect)

/-- One candidate of `_query`. -/
def visit (index : TreeSpatialIndex) (rect : WorldRect) (influence : Bool) (found : List Tree)
    (treeId : String) : Except IndexError (List Tree) := do
  let tree ← lookUp index.byId treeId
  let hit ← index.matched rect influence treeId tree
  pure (if hit then found ++ [tree] else found)

def query (index : TreeSpatialIndex) (rect : WorldRect) (influence : Bool) :
    Except IndexError (List Tree) :=
  ((index.candidates rect).sort (· ≤ ·)).foldlM (index.visit rect influence) []

def queryCrown (index : TreeSpatialIndex) (rect : WorldRect) : Except IndexError (List Tree) :=
  index.query rect false

def queryInfluence (index : TreeSpatialIndex) (rect : WorldRect) : Except IndexError (List Tree) :=
  index.query rect true

end TreeSpatialIndex

/-! ## What an index keeps -/

theorem footprint_ok (trig : Trig) (suns : List SunPosition) (config : InfluenceConfig)
    (tree : Tree) :
    ∃ bounds rect, treeInfluenceBoundsM trig tree.val suns config none = .ok bounds ∧
      footprint trig suns config tree.val = .ok rect ∧ bounds.HoldsCrown tree.val ∧
        ∀ x y, rect.Contains x y ↔ bounds.Contains x y := by
  obtain ⟨bounds, hbounds, hholds⟩ := treeInfluenceBoundsM_ok trig config tree suns
  obtain ⟨rect, hrect, hcontains⟩ := Bounds.make_ok hholds
  refine ⟨bounds, rect, hbounds, ?_, hholds, hcontains⟩
  unfold footprint
  rw [hbounds, except_ok_bind, hrect]

/-- An index of some trees, where `rectOf` is the footprint of a tree. -/
structure Indexes (trees : List Tree) (rectOf : Tree → WorldRect) (index : TreeSpatialIndex) :
    Prop where
  mem_trees : ∀ tree, tree ∈ index.trees ↔ tree ∈ trees
  ids : (index.trees.map (·.val.treeId)).Nodup
  footprints : ∀ tree ∈ trees, index.footprints[tree.val.treeId]? = some (rectOf tree)
  filed : ∀ k treeId, treeId ∈ index.buckets.getD k [] ↔
    ∃ tree ∈ trees, tree.val.treeId = treeId ∧ k ∈ rectBuckets index.bucketSizeM (rectOf tree)
  size_pos : 0 < index.bucketSizeM

theorem make_indexes {trig : Trig} {config : InfluenceConfig} {suns : List SunPosition}
    {size : Rat} (hsize : 0 < size) {trees : List Tree}
    (hids : (trees.map (·.val.treeId)).Nodup) {rectOf : Tree → WorldRect}
    (hrect : ∀ tree : Tree, footprint trig suns config tree.val = .ok (rectOf tree)) :
    ∃ index, TreeSpatialIndex.make trig trees config suns size = .ok index ∧
      Indexes trees rectOf index := by
  have hperm := List.perm_insertionSort (fun a b : Tree => a.val.treeId ≤ b.val.treeId) trees
  have hordered := (hperm.map (·.val.treeId)).nodup_iff.mpr hids
  have hrects : ∀ tree ∈ trees.insertionSort fun a b => a.val.treeId ≤ b.val.treeId,
      (do pure (tree.val.treeId, ← (footprint trig suns config tree.val).mapError .geometry) :
        Except IndexError (String × WorldRect)) = .ok (tree.val.treeId, rectOf tree) := by
    intro tree _
    rw [hrect]
    rfl
  unfold TreeSpatialIndex.make refuseIf
  rw [if_neg hsize.not_ge, except_ok_bind]
  simp only [hordered, not_true_eq_false, if_false, except_ok_bind, mapM_ok_of_forall hrects]
  refine ⟨_, rfl, fun _ => hperm.mem_iff, hordered, ?_, ?_, hsize⟩
  · intro tree htree
    apply Dict.getElem?_ofEntries_of_mem
    · rw [List.map_map]
      exact hordered
    · exact List.mem_map.mpr ⟨tree, hperm.mem_iff.mpr htree, rfl⟩
  · intro k treeId
    rw [mem_getD_freeze, mem_fileUnder]
    constructor
    · rintro ⟨r, hr, hk, rfl⟩
      obtain ⟨tree, htree, rfl⟩ := List.mem_map.mp hr
      exact ⟨tree, hperm.mem_iff.mp htree, rfl, hk⟩
    · rintro ⟨tree, htree, rfl, hk⟩
      exact ⟨_, List.mem_map.mpr ⟨tree, hperm.mem_iff.mpr htree, rfl⟩, hk, rfl⟩

/-! ## Queries -/

def SortedById (found : List Tree) : Prop := found.Pairwise (·.val.treeId < ·.val.treeId)

/-- The exact test of a query. -/
def hit (rectOf : Tree → WorldRect) (rect : WorldRect) (influence : Bool) (tree : Tree) : Bool :=
  if influence then (rectOf tree).intersects rect else discIntersectsRect tree.val rect

section Query

variable {trees : List Tree} {rectOf : Tree → WorldRect} {index : TreeSpatialIndex}

theorem Indexes.tree_eq (h : Indexes trees rectOf index) {a b : Tree} (ha : a ∈ trees)
    (hb : b ∈ trees) (hid : a.val.treeId = b.val.treeId) : a = b :=
  List.inj_on_of_nodup_map h.ids ((h.mem_trees a).mpr ha) ((h.mem_trees b).mpr hb) hid

theorem Indexes.lookUp_tree (h : Indexes trees rectOf index) {tree : Tree} (htree : tree ∈ trees) :
    lookUp index.byId tree.val.treeId = .ok tree := by
  unfold lookUp TreeSpatialIndex.byId
  rw [Dict.getElem?_ofEntries_of_mem (v := tree)]
  · rw [List.map_map]
    exact h.ids
  · exact List.mem_map.mpr ⟨tree, (h.mem_trees tree).mpr htree, rfl⟩

theorem Indexes.visit (h : Indexes trees rectOf index) (rect : WorldRect) (influence : Bool)
    {tree : Tree} (htree : tree ∈ trees) (found : List Tree) :
    index.visit rect influence found tree.val.treeId =
      .ok (if hit rectOf rect influence tree then found ++ [tree] else found) := by
  have hmatched : index.matched rect influence tree.val.treeId tree =
      .ok (hit rectOf rect influence tree) := by
    cases influence with
    | false => rfl
    | true =>
      unfold TreeSpatialIndex.matched lookUp
      rw [h.footprints tree htree]
      rfl
  unfold TreeSpatialIndex.visit
  rw [h.lookUp_tree htree, except_ok_bind, hmatched, except_ok_bind]
  rfl

theorem Indexes.walk (h : Indexes trees rectOf index) (rect : WorldRect) (influence : Bool)
    {ids : List String} (hids : ∀ id ∈ ids, ∃ tree ∈ trees, tree.val.treeId = id)
    (found : List Tree) :
    ∃ more, ids.foldlM (index.visit rect influence) found = .ok (found ++ more) ∧
      (more.map (·.val.treeId)).Sublist ids ∧
      ∀ tree, tree ∈ more ↔
        tree ∈ trees ∧ tree.val.treeId ∈ ids ∧ hit rectOf rect influence tree = true := by
  induction ids generalizing found with
  | nil => exact ⟨[], by rw [List.append_nil]; rfl, List.Sublist.refl _, by simp⟩
  | cons id ids ih =>
    obtain ⟨⟨first, hfirst, rfl⟩, hrest⟩ := List.forall_mem_cons.mp hids
    have hstep := h.visit rect influence hfirst found
    -- the trees with this id are this one
    have hsame : ∀ tree ∈ trees, tree.val.treeId = first.val.treeId → tree = first :=
      fun tree htree hid => h.tree_eq htree hfirst hid
    by_cases hhit : hit rectOf rect influence first = true
    · rw [if_pos hhit] at hstep
      obtain ⟨more, hmore, hsub, hmem⟩ := ih hrest (found ++ [first])
      refine ⟨first :: more, ?_, hsub.cons_cons _, ?_⟩
      · rw [foldlM_cons_ok]
        exact ⟨_, hstep, by rw [hmore, List.append_assoc, List.singleton_append]⟩
      · intro tree
        rw [List.mem_cons, hmem, List.mem_cons]
        constructor
        · rintro (rfl | ⟨htree, hid, htest⟩)
          · exact ⟨hfirst, Or.inl rfl, hhit⟩
          · exact ⟨htree, Or.inr hid, htest⟩
        · rintro ⟨htree, hid | hid, htest⟩
          · exact Or.inl (hsame tree htree hid)
          · exact Or.inr ⟨htree, hid, htest⟩
    · rw [if_neg hhit] at hstep
      obtain ⟨more, hmore, hsub, hmem⟩ := ih hrest found
      refine ⟨more, foldlM_cons_ok.mpr ⟨_, hstep, hmore⟩, hsub.cons _, ?_⟩
      intro tree
      rw [hmem, List.mem_cons]
      constructor
      · rintro ⟨htree, hid, htest⟩
        exact ⟨htree, Or.inr hid, htest⟩
      · rintro ⟨htree, hid | hid, htest⟩
        · rw [hsame tree htree hid] at htest
          exact absurd htest hhit
        · exact ⟨htree, hid, htest⟩

theorem Indexes.mem_candidates (h : Indexes trees rectOf index) {rect : WorldRect} {id : String} :
    id ∈ index.candidates rect ↔ ∃ tree ∈ trees, tree.val.treeId = id ∧
      ∃ k ∈ rectBuckets index.bucketSizeM rect, k ∈ rectBuckets index.bucketSizeM (rectOf tree) := by
  unfold TreeSpatialIndex.candidates
  rw [mem_gather]
  constructor
  · rintro ⟨k, hk, hid⟩
    obtain ⟨tree, htree, hname, hfiled⟩ := (h.filed k id).mp hid
    exact ⟨tree, htree, hname, k, hk, hfiled⟩
  · rintro ⟨tree, htree, hname, k, hk, hfiled⟩
    exact ⟨k, hk, (h.filed k id).mpr ⟨tree, htree, hname, hfiled⟩⟩

theorem common_bucket {size : Rat} (hsize : 0 < size) {rect other : WorldRect} {x y : Rat}
    (h : rect.Contains x y) (h' : other.Contains x y) :
    ∃ k ∈ rectBuckets size rect, k ∈ rectBuckets size other := by
  refine ⟨(⌊x / size⌋, ⌊y / size⌋), ?_, ?_⟩
  · exact List.pair_mem_product.mpr
      ⟨floor_mem_bucketRange hsize h.1, floor_mem_bucketRange hsize h.2⟩
  · exact List.pair_mem_product.mpr
      ⟨floor_mem_bucketRange hsize h'.1, floor_mem_bucketRange hsize h'.2⟩

theorem Indexes.query (h : Indexes trees rectOf index) (rect : WorldRect) (influence : Bool)
    (hmeet : ∀ tree, hit rectOf rect influence tree = true →
      ∃ x y, rect.Contains x y ∧ (rectOf tree).Contains x y) :
    ∃ found, index.query rect influence = .ok found ∧ SortedById found ∧
      ∀ tree, tree ∈ found ↔ tree ∈ trees ∧ hit rectOf rect influence tree = true := by
  have hids : ∀ id ∈ (index.candidates rect).sort (· ≤ ·), ∃ tree ∈ trees, tree.val.treeId = id := by
    intro id hid
    obtain ⟨tree, htree, hname, _⟩ := h.mem_candidates.mp ((Finset.mem_sort _).mp hid)
    exact ⟨tree, htree, hname⟩
  obtain ⟨found, hfound, hsub, hmem⟩ := h.walk rect influence hids []
  refine ⟨found, hfound, ?_, ?_⟩
  · have hsorted := ((index.candidates rect).sortedLT_sort).pairwise.sublist hsub
    exact List.pairwise_map.mp hsorted
  · intro tree
    rw [hmem]
    constructor
    · rintro ⟨htree, _, htest⟩
      exact ⟨htree, htest⟩
    · rintro ⟨htree, htest⟩
      obtain ⟨x, y, hrect, hfoot⟩ := hmeet tree htest
      refine ⟨htree, ?_, htest⟩
      rw [Finset.mem_sort, h.mem_candidates]
      exact ⟨tree, htree, rfl, common_bucket h.size_pos hrect hfoot⟩

end Query

/-- Some point of the rectangle lies in the region. -/
def Meets (rect : WorldRect) (region : Rat → Rat → Prop) : Prop :=
  ∃ x y, rect.Contains x y ∧ region x y

/-- Each query finds what a scan of all the trees finds, once and in the order of the ids. -/
theorem TreeSpatialIndex.queries_exact (trig : Trig) (config : InfluenceConfig)
    (suns : List SunPosition) {size : Rat} (hsize : 0 < size) {trees : List Tree}
    (hids : (trees.map (·.val.treeId)).Nodup) :
    ∃ index, TreeSpatialIndex.make trig trees config suns size = .ok index ∧ ∀ rect,
      (∃ found, index.queryInfluence rect = .ok found ∧ SortedById found ∧
        ∀ tree, tree ∈ found ↔ tree ∈ trees ∧
          ∃ bounds, treeInfluenceBoundsM trig tree.val suns config none = .ok bounds ∧
            Meets rect bounds.Contains) ∧
      ∃ found, index.queryCrown rect = .ok found ∧ SortedById found ∧
        ∀ tree, tree ∈ found ↔ tree ∈ trees ∧ Meets rect (InCrown tree.val) := by
  choose boundsOf rectOf hbounds hrect hholds hcontains using footprint_ok trig suns config
  obtain ⟨index, hmake, hindex⟩ := make_indexes hsize hids hrect
  refine ⟨index, hmake, fun rect => ⟨?_, ?_⟩⟩
  · have htest : ∀ tree, hit rectOf rect true tree = true ↔ Meets rect (boundsOf tree).Contains := by
      intro tree
      show (rectOf tree).intersects rect = true ↔ _
      rw [WorldRect.intersects_iff]
      simp only [Meets, hcontains, and_comm]
    obtain ⟨found, hfound, hsorted, hmem⟩ := hindex.query rect true fun tree htree => by
      obtain ⟨x, y, hx, hy⟩ := (htest tree).mp htree
      exact ⟨x, y, hx, (hcontains tree x y).mpr hy⟩
    refine ⟨found, hfound, hsorted, fun tree => ?_⟩
    rw [hmem, htest]
    simp [hbounds]
  · have htest : ∀ tree, hit rectOf rect false tree = true ↔ Meets rect (InCrown tree.val) := by
      intro tree
      show discIntersectsRect tree.val rect = true ↔ _
      rw [discIntersectsRect_iff]
      simp only [Meets, and_comm]
    obtain ⟨found, hfound, hsorted, hmem⟩ := hindex.query rect false fun tree htree => by
      obtain ⟨x, y, hx, hy⟩ := (htest tree).mp htree
      exact ⟨x, y, hx, (hcontains tree x y).mpr ((hholds tree).contains hy)⟩
    refine ⟨found, hfound, hsorted, fun tree => ?_⟩
    rw [hmem, htest]

/-- Exact at 0, 45 and 90 degrees. -/
def quarterTurns : Trig where
  tan a := a / 45
  sin a := a / 90
  cos a := 1 - a / 90
  tan_pos a h _ := div_pos h (by norm_num)

def halfSky : InfluenceConfig where
  lowestSkyPatchAltitudeDeg := 45
  minimumDirectSunAltitudeDeg := 45
  maximumShadowLengthM := 300
  safetyMarginM := 6
  elevationOffsetM := 0
  lowest_range := by norm_num
  minimum_range := by norm_num
  length_pos := by norm_num
  margin_nonneg := by norm_num
  offset_nonneg := le_rfl

/-- A tree of ten metres height and two metres canopy radius. -/
def tenMetres (treeId : String) (xM yM : Rat) : Tree :=
  ⟨{ treeId, xM, yM, heightM := 10, canopyRadiusM := 2, trunkRatio := 1 / 4,
     transmissivity := 3 / 100 }, by
    rw [postInit_ok]
    norm_num⟩

/-- Two trees on either side of the origin, in the morning and at noon. -/
theorem TreeSpatialIndex.queries_exact_twoTrees :
    ∃ index, TreeSpatialIndex.make quarterTurns [tenMetres "b" (-70) (-3), tenMetres "a" 5 5]
      halfSky [⟨45, 90⟩, ⟨45, 0⟩] 64 = .ok index ∧ ∀ rect,
      (∃ found, index.queryInfluence rect = .ok found ∧ SortedById found ∧
        ∀ tree, tree ∈ found ↔
          tree ∈ [tenMetres "b" (-70) (-3), tenMetres "a" 5 5] ∧
          ∃ bounds, treeInfluenceBoundsM quarterTurns tree.val [⟨45, 90⟩, ⟨45, 0⟩] halfSky none =
            .ok bounds ∧ Meets rect bounds.Contains) ∧
      ∃ found, index.queryCrown rect = .ok found ∧ SortedById found ∧
        ∀ tree, tree ∈ found ↔
          tree ∈ [tenMetres "b" (-70) (-3), tenMetres "a" 5 5] ∧ Meets rect (InCrown tree.val) :=
  queries_exact quarterTurns halfSky [⟨45, 90⟩, ⟨45, 0⟩] (by norm_num) (by decide)

end Solweig.Spatial
