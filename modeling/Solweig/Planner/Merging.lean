import Solweig.Planner.Windows

/-!
# Merged windows

What `merge_windows` makes of its windows: the least windows that cover them and stay apart, in one
order. Without a gap that is what the planner merges with.
-/

namespace Solweig.Planner.RasterWindow

open Solweig.Lib

/-! ## Boxes -/

def Within (w box : RasterWindow) : Prop :=
  (box.rowStart ≤ w.rowStart ∧ w.rowStop ≤ box.rowStop) ∧
    box.colStart ≤ w.colStart ∧ w.colStop ≤ box.colStop

def Occupied (w : RasterWindow) : Prop := w.colStart < w.colStop ∧ w.rowStart < w.rowStop

/-- The windows neither meet nor touch. -/
def Apart (a b : RasterWindow) : Prop := a.intersects b = false

section Boxes

variable {a b c : RasterWindow}

theorem occupied_iff : a.Occupied ↔ a.isEmpty = false := by
  have hrows := a.rows
  have hcols := a.cols
  unfold Occupied isEmpty
  rw [decide_eq_false_iff_not]
  omega

theorem Within.refl (a : RasterWindow) : a.Within a := ⟨⟨le_refl _, le_refl _⟩, le_refl _, le_refl _⟩

theorem Within.trans (hab : a.Within b) (hbc : b.Within c) : a.Within c := by
  unfold Within at *
  omega

theorem Within.holds (hab : a.Within b) {cell : Int × Int} (h : a.Holds cell) : b.Holds cell := by
  unfold Within at hab
  unfold Holds at *
  omega

theorem union_occupied (ha : a.Occupied) (hb : b.Occupied) :
    (a.union b).rowStart = min a.rowStart b.rowStart ∧
      (a.union b).rowStop = max a.rowStop b.rowStop ∧
      (a.union b).colStart = min a.colStart b.colStart ∧
      (a.union b).colStop = max a.colStop b.colStop := by
  unfold union
  rw [occupied_iff.mp ha, occupied_iff.mp hb]
  simp

theorem within_union_left (ha : a.Occupied) : a.Within (a.union b) := by
  by_cases hb : b.Occupied
  · obtain ⟨h₁, h₂, h₃, h₄⟩ := union_occupied ha hb
    unfold Within
    omega
  · rw [occupied_iff, Bool.not_eq_false] at hb
    unfold union
    rw [occupied_iff.mp ha, hb]
    exact Within.refl a

theorem within_union_right (hb : b.Occupied) : b.Within (a.union b) := by
  by_cases ha : a.Occupied
  · obtain ⟨h₁, h₂, h₃, h₄⟩ := union_occupied ha hb
    unfold Within
    omega
  · rw [occupied_iff, Bool.not_eq_false] at ha
    unfold union
    rw [ha]
    exact Within.refl b

theorem union_within (ha : a.Within c) (hb : b.Within c) : (a.union b).Within c := by
  unfold union
  split
  · exact hb
  · split
    · exact ha
    · unfold Within at *
      dsimp only
      omega

theorem Occupied.mono (ha : a.Occupied) (hab : a.Within b) : b.Occupied := by
  unfold Within at hab
  unfold Occupied at *
  omega

theorem clamp_within (a : RasterWindow) (grid : RasterGrid) :
    (a.clamp grid.rows grid.cols).Within grid.fullWindow := by
  unfold Within clamp RasterGrid.fullWindow
  dsimp only
  omega

end Boxes

/-! ## Windows that meet -/

section Gaps

variable {gapPixels : Nat} {a b c d : RasterWindow}

theorem Within.antisymm (hab : a.Within b) (hba : b.Within a) : a = b := by
  unfold Within at *
  cases a
  cases b
  simp only [mk.injEq]
  dsimp only at *
  omega

theorem intersectsWithin_iff : a.intersectsWithin gapPixels b = true ↔
    (b.rowStart ≤ a.rowStop + gapPixels ∧ a.rowStart ≤ b.rowStop + gapPixels) ∧
      b.colStart ≤ a.colStop + gapPixels ∧ a.colStart ≤ b.colStop + gapPixels := by
  unfold intersectsWithin
  rw [decide_eq_true_iff]
  omega

theorem joins_union (gapPixels : Nat) :
    Joins Occupied Within (intersectsWithin gapPixels) union where
  refl := Within.refl
  trans := Within.trans
  symm := by
    intro a b h
    rw [intersectsWithin_iff] at h ⊢
    omega
  grow := by
    intro a b c d h hac hbd
    rw [intersectsWithin_iff] at h ⊢
    unfold Within at hac hbd
    omega
  itself := by
    intro a h
    rw [intersectsWithin_iff]
    unfold Occupied at h
    omega
  good := fun ha _ => ha.mono (within_union_left ha)
  left := within_union_left
  right := within_union_right
  least := union_within

end Gaps

/-! ## Merging -/

theorem mem_sorted_windows {windows : List RasterWindow} {w : RasterWindow} :
    w ∈ (windows.filter fun w => ¬ w.isEmpty).insertionSort (fun a b =>
      [a.rowStart, a.colStart, a.rowStop, a.colStop] ≤
        [b.rowStart, b.colStart, b.rowStop, b.colStop]) ↔ w ∈ windows ∧ w.Occupied := by
  rw [List.mem_insertionSort, List.mem_filter, occupied_iff]
  simp

theorem mergeWindows_clustered {fuel gapPixels : Nat} {windows : List RasterWindow}
    (hfuel : windows.length < fuel) :
    ∃ merged, mergeWindows fuel gapPixels windows = some merged ∧
      (merged.Pairwise fun a b => [a.rowStart, a.colStart] ≤ [b.rowStart, b.colStart]) ∧
      Clustered Occupied Within (intersectsWithin gapPixels) (windows.filter fun w => ¬ w.isEmpty)
        merged := by
  unfold mergeWindows
  have hlength : ((windows.filter fun w => ¬ w.isEmpty).insertionSort fun a b =>
      [a.rowStart, a.colStart, a.rowStop, a.colStop] ≤
        [b.rowStart, b.colStart, b.rowStop, b.colStop]).length < fuel := by
    rw [List.length_insertionSort]
    exact lt_of_le_of_lt (List.length_filter_le _ _) hfuel
  obtain ⟨clusters, hclusters, -, h⟩ := clusterAll_spec (joins_union gapPixels) hlength
    fun w hw => (mem_sorted_windows.mp hw).2
  refine ⟨_, by rw [hclusters, Option.map_some], List.pairwise_insertionSort _ _, ?_⟩
  exact (h.of_perm (List.perm_insertionSort _ _).symm).perm (joins_union gapPixels)
    (List.perm_insertionSort _ _)

theorem eq_of_same_start {gapPixels : Nat} {merged : List RasterWindow} {a b : RasterWindow}
    (hapart : Separate (intersectsWithin gapPixels) merged) (ha : a ∈ merged) (hb : b ∈ merged)
    (hrow : a.rowStart = b.rowStart) (hcol : a.colStart = b.colStart) : a = b := by
  refine hapart.eq_of_meets (joins_union gapPixels) ha hb (intersectsWithin_iff.mpr ?_)
  have := a.rows
  have := a.cols
  have := b.rows
  have := b.cols
  omega

theorem eq_of_start_le {a b : RasterWindow}
    (hab : [a.rowStart, a.colStart] ≤ [b.rowStart, b.colStart])
    (hba : [b.rowStart, b.colStart] ≤ [a.rowStart, a.colStart]) :
    a.rowStart = b.rowStart ∧ a.colStart = b.colStart := by
  have heq := le_antisymm hab hba
  simpa using heq

/-- `merge_windows` ends, and its windows stay more than the gap apart, hold every window that is
not empty in one of them, are inside any other windows that do, and do not depend on the order of
the given ones. -/
theorem mergeWindows_canonical (gapPixels : Nat) (windows : List RasterWindow) :
    ∃ merged,
      (∀ fuel permuted, permuted.Perm windows → windows.length < fuel →
        mergeWindows fuel gapPixels permuted = some merged) ∧
      (merged.Pairwise fun a b => a.intersectsWithin gapPixels b = false) ∧
      (∀ w ∈ windows, w.isEmpty = false → ∃! m, m ∈ merged ∧ w.Within m) ∧
      ∀ cover : List RasterWindow,
        (cover.Pairwise fun a b => a.intersectsWithin gapPixels b = false) →
        (∀ w ∈ windows, w.isEmpty = false → ∃ c ∈ cover, w.Within c) →
          ∀ m ∈ merged, ∃ c ∈ cover, m.Within c := by
  have hJ := joins_union gapPixels
  obtain ⟨merged, -, hsorted, h⟩ :=
    @mergeWindows_clustered (windows.length + 1) gapPixels windows (Nat.lt_succ_self _)
  refine ⟨merged, fun fuel permuted hperm hfuel => ?_, h.separate, fun w hw hoccupied => ?_,
    fun cover hapart hcover => h.least cover hapart fun w hw => ?_⟩
  · obtain ⟨merged', hmerged', hsorted', h'⟩ :=
      @mergeWindows_clustered fuel gapPixels permuted (hperm.length_eq ▸ hfuel)
    have hsame := (h'.of_perm (hperm.symm.filter _)).unique hJ (fun _ _ => Within.antisymm) h
    rw [hmerged', Option.some.injEq]
    refine List.Perm.eq_of_pairwise (fun a b ha hb hab hba => ?_) hsorted' hsorted hsame
    obtain ⟨hrow, hcol⟩ := eq_of_start_le hab hba
    exact eq_of_same_start h.separate (hsame.mem_iff.mp ha) hb hrow hcol
  · obtain ⟨m, hm, hwm⟩ := h.covers w (List.mem_filter.mpr ⟨hw, by simp [hoccupied]⟩)
    refine ⟨m, ⟨hm, hwm⟩, fun other ⟨hother, hwo⟩ => ?_⟩
    exact h.separate.unique hJ (occupied_iff.mpr hoccupied) hother hm hwo hwm
  · obtain ⟨hmem, hoccupied⟩ := List.mem_filter.mp hw
    exact hcover w hmem (by simpa using hoccupied)

/-! ## Without a gap -/

theorem merge_clustered (windows : List RasterWindow) :
    Clustered Occupied Within (intersectsWithin 0) (windows.filter fun w => ¬ w.isEmpty)
      (merge windows) := by
  obtain ⟨merged, hmerged, -, h⟩ :=
    @mergeWindows_clustered (windows.length + 1) 0 windows (Nat.lt_succ_self _)
  unfold merge
  rw [hmerged]
  exact h

/-- `merged` stands for `windows`. -/
structure Merges (windows merged : List RasterWindow) : Prop where
  occupied : ∀ w ∈ merged, w.Occupied
  apart : merged.Pairwise Apart
  covers : ∀ w ∈ windows, ∃ m ∈ merged, w.Within m
  bounded : ∀ box, (∀ w ∈ windows, w.Within box) → ∀ m ∈ merged, m.Within box

theorem merge_merges (windows : List RasterWindow) :
    Merges (windows.filter fun w => ¬ w.isEmpty) (merge windows) := by
  have h := merge_clustered windows
  refine ⟨h.good, h.separate, h.covers, fun box hbox m hm => ?_⟩
  obtain ⟨c, hc, hmc⟩ := h.least [box] (List.pairwise_singleton _ _)
    (fun w hw => ⟨box, by simp, hbox w hw⟩) m hm
  exact List.mem_singleton.mp hc ▸ hmc

end Solweig.Planner.RasterWindow
