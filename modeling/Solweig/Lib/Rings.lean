import Mathlib.Algebra.Order.Field.Basic
import Mathlib.Algebra.Ring.Parity
import Mathlib.Data.List.DropRight
import Mathlib.Data.List.Induction
import Mathlib.Data.List.Rotate
import Mathlib.Data.List.Zip
import Mathlib.Tactic.FieldSimp
import Mathlib.Tactic.LinearCombination
import Mathlib.Tactic.Linarith
import Mathlib.Tactic.Ring

/-!
# Rings of points

A closed walk through points of the plane: its boundary, and its inside by the even-odd rule.
Neither depends on where the walk starts, on its direction or on whether it repeats its first
point at the end. Then the bit that a sweep over the edges toggles and sets.
-/

namespace Solweig.Lib

/-! ## Closed walks -/

section Walk

variable {α : Type}

/-- Neighbours along a list. -/
def neighbours (l : List α) : List (α × α) := l.zip l.tail

/-- Neighbours along a list that ends where it starts. -/
def cyclicPairs (l : List α) : List (α × α) := l.zip (l.rotate 1)

theorem neighbours_closed (a : α) (l : List α) :
    neighbours (a :: l ++ [a]) = cyclicPairs (a :: l) := by
  have hcut := @List.zip_append _ _ (a :: l) [a] (l ++ [a]) [] (by simp)
  unfold neighbours cyclicPairs
  rw [List.rotate_cons_succ, List.rotate_zero, List.cons_append, List.tail_cons, ← List.cons_append]
  simpa using hcut

theorem cyclicPairs_closed (a : α) (l : List α) :
    cyclicPairs (a :: l ++ [a]) = cyclicPairs (a :: l) ++ [(a, a)] := by
  rw [← neighbours_closed]
  unfold cyclicPairs neighbours
  rw [List.cons_append, List.rotate_cons_succ, List.rotate_zero, List.tail_cons]
  have hcut := @List.zip_append _ _ (a :: l) [a] (l ++ [a]) [a] (by simp)
  have hcut' := @List.zip_append _ _ (a :: l) [a] (l ++ [a]) [] (by simp)
  rw [← List.cons_append, hcut]
  simpa using hcut'.symm

theorem cyclicPairs_rotate (l : List α) (n : Nat) :
    cyclicPairs (l.rotate n) = (cyclicPairs l).rotate n := by
  unfold cyclicPairs List.zip
  rw [List.zipWith_rotate_distrib _ _ _ _ (by simp), List.rotate_rotate, List.rotate_rotate,
    Nat.add_comm]

theorem cyclicPairs_reverse (l : List α) :
    (cyclicPairs l.reverse).Perm ((cyclicPairs l).map Prod.swap) := by
  rcases eq_or_ne l [] with rfl | hne
  · simp [cyclicPairs]
  have hback : (l.zip (l.rotate (l.length - 1 % l.length))).rotate 1 = (l.rotate 1).zip l := by
    have hturn : (l.length - 1 % l.length + 1) % l.length = 0 := by
      rcases hl : l.length with _ | _ | n
      · exact absurd (List.length_eq_zero_iff.mp hl) hne
      · rfl
      · rw [Nat.mod_eq_of_lt (by omega : 1 < n + 1 + 1), Nat.sub_add_cancel (by omega), Nat.mod_self]
    unfold List.zip
    rw [List.zipWith_rotate_distrib _ _ _ _ (by simp), List.rotate_rotate,
      ← List.rotate_mod l (l.length - 1 % l.length + 1), hturn, List.rotate_zero]
  have hreverse : cyclicPairs l.reverse = (l.zip (l.rotate (l.length - 1 % l.length))).reverse := by
    unfold cyclicPairs List.zip
    rw [List.rotate_reverse, List.reverse_zipWith (by simp)]
  rw [hreverse]
  apply (List.reverse_perm _).trans
  unfold cyclicPairs
  rw [List.zip_swap, ← hback]
  exact (List.rotate_perm _ 1).symm

theorem odd_changes_iff (label : α → Bool) (a : α) (l : List α) :
    Odd ((neighbours (a :: l)).countP fun e => label e.1 != label e.2) ↔
      label a ≠ label ((a :: l).getLast (List.cons_ne_nil a l)) := by
  induction l generalizing a with
  | nil => simp [neighbours]
  | cons b l ih =>
    have hstep : neighbours (a :: b :: l) = (a, b) :: neighbours (b :: l) := rfl
    rw [hstep, List.countP_cons, List.getLast_cons (List.cons_ne_nil b l)]
    by_cases hab : label a = label b
    · simp [hab, ih]
    · rw [if_pos (by simpa using hab), Nat.odd_add_one, ih]
      -- the label of `a` is the other one of two
      cases ha : label a <;> cases hb : label b <;> simp_all

theorem even_changes_cyclic (label : α → Bool) (l : List α) :
    Even ((cyclicPairs l).countP fun e => label e.1 != label e.2) := by
  cases l with
  | nil => simp [cyclicPairs]
  | cons a l =>
    rw [← Nat.not_odd_iff_even, ← neighbours_closed, List.cons_append, odd_changes_iff]
    simp

end Walk

/-! ## A bit that is toggled and set -/

section Sweep

variable {α : Type}

/-- Each item may toggle the bit, and then may set it. -/
def sweep (toggles sets : α → Bool) (l : List α) : Bool :=
  l.foldl (fun bit a => (bit ^^ toggles a) || sets a) false

variable {toggles sets : α → Bool} {l : List α}

theorem sweep_append_singleton (a : α) :
    sweep toggles sets (l ++ [a]) = ((sweep toggles sets l ^^ toggles a) || sets a) := by
  unfold sweep
  rw [List.foldl_append]
  rfl

theorem sweep_of_never (h : ∀ a ∈ l, sets a = false) :
    sweep toggles sets l = true ↔ Odd (l.countP toggles) := by
  induction l using List.reverseRecOn with
  | nil => simp [sweep]
  | append_singleton l last ih =>
    have hlast := h last (by simp)
    have hbefore := ih fun a ha => h a (List.mem_append_left _ ha)
    rw [sweep_append_singleton, hlast, Bool.or_false, List.countP_append, List.countP_singleton]
    cases ht : toggles last with
    | false => simpa using hbefore
    | true =>
      rw [if_pos rfl, Nat.odd_add_one, ← hbefore]
      simp

theorem sweep_of_set (h : ∃ a ∈ l, sets a = true) :
    sweep toggles sets l = true ↔ Even ((l.rtakeWhile fun a => !sets a).countP toggles) := by
  induction l using List.reverseRecOn with
  | nil => simp at h
  | append_singleton l last ih =>
    rw [sweep_append_singleton]
    by_cases hlast : sets last = true
    · rw [hlast, List.rtakeWhile_concat_neg _ _ _ (by simp [hlast])]
      simp
    · have hbefore : ∃ a ∈ l, sets a = true := by
        obtain ⟨a, ha, hset⟩ := h
        rcases List.mem_append.mp ha with ha | ha
        · exact ⟨a, ha, hset⟩
        · obtain rfl := List.mem_singleton.mp ha
          exact absurd hset hlast
      rw [Bool.not_eq_true] at hlast
      rw [List.rtakeWhile_concat_pos _ _ _ (by simp [hlast]), hlast, Bool.or_false,
        List.countP_append, List.countP_singleton]
      cases ht : toggles last with
      | false => simpa using ih hbefore
      | true =>
        rw [if_pos rfl, Nat.even_add_one, ← ih hbefore]
        simp

end Sweep

/-! ## Segments -/

section Segment

variable {K : Type} [Field K] [LinearOrder K]

abbrev Point (K : Type) := K × K

abbrev Edge (K : Type) := Point K × Point K

/-- The closed segment. -/
def OnSegment (e : Edge K) (p : Point K) : Prop :=
  ∃ t : K, (0 ≤ t ∧ t ≤ 1) ∧
    p = (e.1.1 + t * (e.2.1 - e.1.1), e.1.2 + t * (e.2.2 - e.1.2))

/-- One end of the edge lies above the height, and the other does not. -/
def Straddles (e : Edge K) (y : K) : Prop := (decide (y < e.1.2) != decide (y < e.2.2)) = true

instance (e : Edge K) (y : K) : Decidable (Straddles e y) := inferInstanceAs (Decidable (_ = true))

/-- The ray to the right of the point meets the edge, on a height that the edge straddles. -/
def Crosses (e : Edge K) (p : Point K) : Prop :=
  Straddles e p.2 ∧ ∃ q, OnSegment e q ∧ q.2 = p.2 ∧ p.1 < q.1

/-- Where the line of the edge has this height. -/
def crossingAt (e : Edge K) (y : K) : K :=
  (e.2.1 - e.1.1) * (y - e.1.2) / (e.2.2 - e.1.2) + e.1.1

variable {e : Edge K} {p : Point K} {y : K}

omit [Field K] in
theorem straddles_swap : Straddles e.swap y ↔ Straddles e y := by
  unfold Straddles
  rw [Prod.fst_swap, Prod.snd_swap, bne_comm]

omit [Field K] in
theorem not_straddles_self (a : Point K) : ¬ Straddles (a, a) y := by simp [Straddles]

theorem Straddles.ne (h : Straddles e y) : e.2.2 - e.1.2 ≠ 0 := by
  intro heq
  have hsame : e.2.2 = e.1.2 := sub_eq_zero.mp heq
  simp [Straddles, hsame] at h

variable [IsStrictOrderedRing K]

theorem onSegment_swap : OnSegment e.swap p ↔ OnSegment e p := by
  have hturn : ∀ e : Edge K, OnSegment e p → OnSegment e.swap p := by
    rintro e ⟨t, ⟨h0, h1⟩, rfl⟩
    refine ⟨1 - t, ⟨sub_nonneg.mpr h1, sub_le_self 1 h0⟩, ?_⟩
    rw [Prod.mk.injEq]
    constructor
    · rw [Prod.fst_swap, Prod.snd_swap]
      ring
    · rw [Prod.fst_swap, Prod.snd_swap]
      ring
  exact ⟨fun h => Prod.swap_swap e ▸ hturn e.swap h, hturn e⟩

theorem onSegment_self {a : Point K} : OnSegment (a, a) p ↔ p = a := by
  constructor
  · rintro ⟨t, _, rfl⟩
    simp
  · rintro rfl
    exact ⟨0, ⟨le_refl 0, zero_le_one⟩, by simp⟩

theorem onSegment_fst : OnSegment e e.1 := ⟨0, ⟨le_refl 0, zero_le_one⟩, by simp⟩

theorem crosses_swap : Crosses e.swap p ↔ Crosses e p := by
  unfold Crosses
  simp only [straddles_swap, onSegment_swap]

theorem OnSegment.coord_mem {coord : Point K → K} (hcoord : coord = Prod.fst ∨ coord = Prod.snd)
    (h : OnSegment e p) {lo hi : K} (h1 : lo ≤ coord e.1 ∧ coord e.1 ≤ hi)
    (h2 : lo ≤ coord e.2 ∧ coord e.2 ≤ hi) : lo ≤ coord p ∧ coord p ≤ hi := by
  obtain ⟨t, ⟨h0, h1'⟩, rfl⟩ := h
  have hmix : ∀ a b : K, lo ≤ a ∧ a ≤ hi → lo ≤ b ∧ b ≤ hi →
      lo ≤ a + t * (b - a) ∧ a + t * (b - a) ≤ hi := by
    intro a b ha hb
    constructor <;> nlinarith [ha.1, ha.2, hb.1, hb.2]
  rcases hcoord with rfl | rfl
  · exact hmix _ _ h1 h2
  · exact hmix _ _ h1 h2

theorem Straddles.ratio_mem (h : Straddles e y) :
    0 ≤ (y - e.1.2) / (e.2.2 - e.1.2) ∧ (y - e.1.2) / (e.2.2 - e.1.2) ≤ 1 := by
  unfold Straddles at h
  by_cases h1 : y < e.1.2
  · have h2 : e.2.2 ≤ y := by simpa [h1] using h
    have hneg : e.2.2 - e.1.2 < 0 := by linarith
    constructor
    · exact div_nonneg_of_nonpos (by linarith) hneg.le
    · rw [div_le_one_of_neg hneg]
      linarith
  · have h2 : y < e.2.2 := by simpa [h1] using h
    have hpos : 0 < e.2.2 - e.1.2 := by linarith
    constructor
    · exact div_nonneg (by linarith) hpos.le
    · rw [div_le_one hpos]
      linarith

theorem Straddles.point (h : Straddles e y) {q : Point K} :
    OnSegment e q ∧ q.2 = y ↔ q = (crossingAt e y, y) := by
  have hne := h.ne
  constructor
  · rintro ⟨⟨t, _, rfl⟩, rfl⟩
    rw [Prod.mk.injEq]
    refine ⟨?_, rfl⟩
    simp only [crossingAt, add_sub_cancel_left]
    field_simp
    ring
  · rintro rfl
    refine ⟨⟨(y - e.1.2) / (e.2.2 - e.1.2), ?_, ?_⟩, rfl⟩
    · exact h.ratio_mem
    · rw [Prod.mk.injEq]
      unfold crossingAt
      constructor
      · ring
      · field_simp
        ring

theorem crosses_iff : Crosses e p ↔ Straddles e p.2 ∧ p.1 < crossingAt e p.2 := by
  unfold Crosses
  constructor
  · rintro ⟨hs, q, hq, hy, hx⟩
    rw [hs.point.mp ⟨hq, hy⟩] at hx
    exact ⟨hs, hx⟩
  · rintro ⟨hs, hx⟩
    obtain ⟨hon, hy⟩ := (hs.point (q := (crossingAt e p.2, p.2))).mpr rfl
    exact ⟨hs, _, hon, hy, hx⟩

instance (e : Edge K) (p : Point K) : Decidable (Crosses e p) := decidable_of_iff' _ crosses_iff

end Segment

/-! ## Boundary and inside -/

section Ring

variable {K : Type} [Field K] [LinearOrder K] [IsStrictOrderedRing K]

def OnBoundary (ring : List (Point K)) (p : Point K) : Prop :=
  ∃ e ∈ cyclicPairs ring, OnSegment e p

/-- The even-odd rule. -/
def Inside (ring : List (Point K)) (p : Point K) : Prop :=
  Odd ((cyclicPairs ring).countP fun e => Crosses e p)

/-- Two spellings of one ring describe the same points. -/
def SameRegion (ring other : List (Point K)) : Prop :=
  ∀ p, (OnBoundary ring p ↔ OnBoundary other p) ∧ (Inside ring p ↔ Inside other p)

variable {ring : List (Point K)} {p : Point K}

theorem sameRegion_rotate (ring : List (Point K)) (n : Nat) : SameRegion (ring.rotate n) ring := by
  intro p
  unfold OnBoundary Inside
  rw [cyclicPairs_rotate, (List.rotate_perm _ n).countP_eq]
  exact ⟨exists_congr fun e => and_congr_left' (List.rotate_perm _ n).mem_iff, Iff.rfl⟩

theorem sameRegion_reverse (ring : List (Point K)) : SameRegion ring.reverse ring := by
  intro p
  have hperm := cyclicPairs_reverse ring
  constructor
  · unfold OnBoundary
    simp only [hperm.mem_iff, List.mem_map, exists_exists_and_eq_and, onSegment_swap]
  · unfold Inside
    rw [hperm.countP_eq, List.countP_map]
    simp only [Function.comp_def, crosses_swap]

theorem sameRegion_closed (a : Point K) (l : List (Point K)) :
    SameRegion (a :: l ++ [a]) (a :: l) := by
  intro p
  rw [OnBoundary, OnBoundary, Inside, Inside, cyclicPairs_closed]
  constructor
  · constructor
    · rintro ⟨e, he, hp⟩
      rcases List.mem_append.mp he with he | he
      · exact ⟨e, he, hp⟩
      · -- the point of the last edge is the start of the first one
        obtain rfl := List.mem_singleton.mp he
        rw [onSegment_self] at hp
        subst hp
        obtain ⟨b, hb⟩ : ∃ b, (p, b) ∈ cyclicPairs (p :: l) := by
          unfold cyclicPairs
          rw [List.rotate_cons_succ, List.rotate_zero]
          cases l with
          | nil => exact ⟨p, by simp⟩
          | cons b l => exact ⟨b, by simp⟩
        exact ⟨_, hb, onSegment_fst⟩
    · rintro ⟨e, he, hp⟩
      exact ⟨e, List.mem_append_left _ he, hp⟩
  · have hnot : ¬ Crosses (a, a) p := fun h => not_straddles_self a h.1
    simp [List.countP_append, hnot]

/-! ## Bounds -/

theorem mem_of_mem_cyclicPairs {α : Type} {l : List α} {e : α × α} (he : e ∈ cyclicPairs l) :
    e.1 ∈ l ∧ e.2 ∈ l := by
  obtain ⟨h1, h2⟩ := List.of_mem_zip (a := e.1) (b := e.2) he
  exact ⟨h1, List.mem_rotate.mp h2⟩

/-- All points of a ring lie in a box. -/
structure InBox (lo hi : Point K) (ring : List (Point K)) : Prop where
  x : ∀ q ∈ ring, lo.1 ≤ q.1 ∧ q.1 ≤ hi.1
  y : ∀ q ∈ ring, lo.2 ≤ q.2 ∧ q.2 ≤ hi.2

variable {lo hi : Point K}

theorem OnBoundary.bounds (h : OnBoundary ring p) (hbox : InBox lo hi ring) :
    (lo.1 ≤ p.1 ∧ p.1 ≤ hi.1) ∧ lo.2 ≤ p.2 ∧ p.2 ≤ hi.2 := by
  obtain ⟨e, he, hp⟩ := h
  obtain ⟨h1, h2⟩ := mem_of_mem_cyclicPairs he
  exact ⟨hp.coord_mem (Or.inl rfl) (hbox.x _ h1) (hbox.x _ h2),
    hp.coord_mem (Or.inr rfl) (hbox.y _ h1) (hbox.y _ h2)⟩

/-- A point inside a ring lies in each box that holds the ring: left of the box the ray crosses
each edge that straddles its height, and those are even in number. -/
theorem Inside.bounds (h : Inside ring p) (hbox : InBox lo hi ring) :
    (lo.1 ≤ p.1 ∧ p.1 ≤ hi.1) ∧ lo.2 ≤ p.2 ∧ p.2 ≤ hi.2 := by
  unfold Inside at h
  obtain ⟨e, he, hcross⟩ : ∃ e ∈ cyclicPairs ring, Crosses e p := by
    simpa using List.countP_pos_iff.mp h.pos
  obtain ⟨h1, h2⟩ := mem_of_mem_cyclicPairs he
  obtain ⟨hs, q, hq, hy, hx⟩ := hcross
  have hqx := hq.coord_mem (Or.inl rfl) (hbox.x _ h1) (hbox.x _ h2)
  have hqy := hq.coord_mem (Or.inr rfl) (hbox.y _ h1) (hbox.y _ h2)
  refine ⟨⟨?_, hx.le.trans hqx.2⟩, hy ▸ hqy⟩
  by_contra hleft
  have hall : ∀ e ∈ cyclicPairs ring, Crosses e p ↔ Straddles e p.2 := by
    intro e he
    obtain ⟨h1, h2⟩ := mem_of_mem_cyclicPairs he
    constructor
    · exact fun h => h.1
    · intro hs
      obtain ⟨hon, hy⟩ := (hs.point (q := (crossingAt e p.2, p.2))).mpr rfl
      refine ⟨hs, _, hon, hy, (not_le.mp hleft).trans_le ?_⟩
      exact (hon.coord_mem (Or.inl rfl) (hbox.x _ h1) (hbox.x _ h2)).1
  have heven := even_changes_cyclic (fun q : Point K => decide (p.2 < q.2)) ring
  rw [List.countP_congr (q := fun e => decide (p.2 < e.1.2) != decide (p.2 < e.2.2))] at h
  · exact Nat.not_odd_iff_even.mpr heven h
  · intro e he
    rw [decide_eq_true_iff, hall e he]
    rfl

end Ring

end Solweig.Lib
