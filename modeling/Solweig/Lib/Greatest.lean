import Mathlib.Order.Bounds.Basic
import Mathlib.Data.List.Induction

/-!
# The greatest of some values

A running maximum is the greatest of where it starts and what it has seen. Values that are seen
through a filter may be replaced by a background: the maximum is the same where the background
does not exceed one that is seen, or nothing is looked at.
-/

namespace Solweig.Lib

variable {α ι : Type} [LinearOrder α]

theorem isGreatest_foldl_max (f : ι → α) (first : α) (l : List ι) :
    IsGreatest (insert first (f '' {i | i ∈ l})) (l.foldl (fun m i => max m (f i)) first) := by
  induction l using List.reverseRecOn with
  | nil => simp
  | append_singleton l last ih =>
    have hset : insert first (f '' {i | i ∈ l ++ [last]}) =
        insert (f last) (insert first (f '' {i | i ∈ l})) := by
      ext a
      simp only [List.mem_append, List.mem_singleton, Set.mem_insert_iff, Set.mem_image,
        Set.mem_ofPred_eq, or_and_right, exists_or, exists_eq_left, eq_comm (b := a)]
      rw [← or_assoc, or_comm]
    rw [List.foldl_append, List.foldl_cons, List.foldl_nil, max_comm, hset]
    exact ih.insert (f last)

/-- The values of the items that are seen, over a first value. -/
def seen (first : α) (l : List ι) (sees : ι → Prop) (f : ι → α) : Set α :=
  insert first (f '' {i | i ∈ l ∧ sees i})

section Background

variable {l l' : List ι} {sees : ι → Prop} [DecidablePred sees] {f : ι → α}
  {first background : α}

/-- The maximum with the background for the items that are not seen. -/
def overBackground (sees : ι → Prop) [DecidablePred sees] (f : ι → α) (background : α)
    (l : List ι) (first : α) : α :=
  l.foldl (fun m i => max m (if sees i then f i else background)) first

variable (first) in
theorem isGreatest_overBackground_iff (hf : ∀ i ∈ l, sees i → background ≤ f i) :
    IsGreatest (seen first l sees f) (overBackground sees f background l first) ↔
      background ≤ first ∨ l = [] ∨ ∃ i ∈ l, sees i := by
  unfold overBackground
  obtain ⟨hmem, hupper⟩ :=
    isGreatest_foldl_max (fun i => if sees i then f i else background) first l
  constructor
  · rintro ⟨hseen, -⟩
    by_contra h
    push Not at h
    obtain ⟨hlt, hne, hnone⟩ := h
    have hvalue : l.foldl (fun m i => max m (if sees i then f i else background)) first =
        first := by
      rcases hseen with heq | ⟨i, ⟨hi, hsees⟩, -⟩
      · exact heq
      · exact absurd hsees (hnone i hi)
    obtain ⟨i, hi⟩ := List.exists_mem_of_ne_nil l hne
    have hback := hupper (Set.mem_insert_of_mem _ (Set.mem_image_of_mem _ hi))
    simp only [if_neg (hnone i hi), hvalue] at hback
    exact absurd hback hlt.not_ge
  · intro h
    refine ⟨?_, ?_⟩
    · rcases hmem with heq | ⟨i, hi, heq⟩
      · exact Or.inl heq
      · simp only at heq
        split at heq
        · next hsees => exact Or.inr ⟨i, ⟨hi, hsees⟩, heq⟩
        · next hnot =>
          -- the background is the maximum: the first value, or that of an item that is seen, is
          -- as large
          rcases h with hle | rfl | ⟨j, hj, hsees⟩
          · refine Or.inl (le_antisymm ?_ (hupper (Set.mem_insert _ _)))
            rwa [← heq]
          · cases hi
          · refine Or.inr ⟨j, ⟨hj, hsees⟩, le_antisymm ?_ ?_⟩
            · apply hupper
              refine Set.mem_insert_of_mem _ ⟨j, hj, ?_⟩
              exact if_pos hsees
            · rw [← heq]
              exact hf j hj hsees
    · rintro value (rfl | ⟨i, ⟨hi, hsees⟩, rfl⟩)
      · exact hupper (Set.mem_insert _ _)
      · apply hupper
        refine Set.mem_insert_of_mem _ ⟨i, hi, ?_⟩
        exact if_pos hsees

theorem overBackground_unseen (hfirst : first ≤ background) (hne : l ≠ [])
    (hnone : ∀ i ∈ l, ¬ sees i) : overBackground sees f background l first = background := by
  unfold overBackground
  have hgreatest := isGreatest_foldl_max (fun i => if sees i then f i else background) first l
  apply hgreatest.unique
  refine ⟨?_, ?_⟩
  · obtain ⟨i, hi⟩ := List.exists_mem_of_ne_nil l hne
    exact Or.inr ⟨i, hi, if_neg (hnone i hi)⟩
  · rintro value (rfl | ⟨i, hi, rfl⟩)
    · exact hfirst
    · exact le_of_eq (if_neg (hnone i hi))

/-- Two lists with the same seen items have one maximum where the background does not show, or
shows for both or for neither. -/
theorem overBackground_eq_iff (hf : ∀ i ∈ l', sees i → background ≤ f i)
    (hsame : ∀ i, sees i → (i ∈ l ↔ i ∈ l')) :
    overBackground sees f background l first = overBackground sees f background l' first ↔
      background ≤ first ∨ (∃ i ∈ l', sees i) ∨ (l = [] ↔ l' = []) := by
  have hset : seen first l sees f = seen first l' sees f := by
    unfold seen
    congr 2
    ext i
    exact and_congr_left (hsame i)
  have hexists : (∃ i ∈ l, sees i) ↔ ∃ i ∈ l', sees i := by
    apply exists_congr
    intro i
    exact and_congr_left (hsame i)
  have hleft := isGreatest_overBackground_iff first
    (fun i hi hsees => hf i ((hsame i hsees).mp hi) hsees)
  have hright := isGreatest_overBackground_iff first hf
  rw [hset, hexists] at hleft
  by_cases hshown : background ≤ first ∨ ∃ i ∈ l', sees i
  · refine iff_of_true ?_ (hshown.imp_right Or.inl)
    exact (hleft.mpr (hshown.imp_right Or.inr)).unique (hright.mpr (hshown.imp_right Or.inr))
  · obtain ⟨hlt, hnone⟩ := not_or.mp hshown
    have hcover (m : List ι) (hm : ¬ ∃ i ∈ m, sees i) (hne : m ≠ []) :
        overBackground sees f background m first = background := by
      apply overBackground_unseen (not_le.mp hlt).le hne
      intro i hi hsees
      exact hm ⟨i, hi, hsees⟩
    have hempty : overBackground sees f background ([] : List ι) first = first := rfl
    by_cases hl : l = [] <;> by_cases hl' : l' = []
    · simp [hl, hl']
    · rw [hl, hempty, hcover l' hnone hl']
      refine iff_of_false (fun heq => hlt heq.ge) ?_
      rintro (hle | hsome | hempties)
      · exact hlt hle
      · exact hnone hsome
      · exact hl' (hempties.mp rfl)
    · rw [← hexists] at hnone ⊢
      rw [hl', hempty, hcover l hnone hl]
      refine iff_of_false (fun heq => hlt heq.le) ?_
      rintro (hle | hsome | hempties)
      · exact hlt hle
      · exact hnone hsome
      · exact hl (hempties.mpr rfl)
    · rw [hcover l (by rwa [hexists]) hl, hcover l' hnone hl']
      simp [hl, hl']

end Background

end Solweig.Lib
