import Mathlib.Data.List.Chain
import Solweig.Lib.Intervals

/-!
# The values of an interval map

An interval map stands for a function of time. A paste writes over it, and two maps in normal form
that stand for the same function are the same list. Values count as the same by a relation, which
the merging uses too.
-/

namespace Solweig.Lib

namespace Interval

variable {V : Type} {same : V → V → Bool}

instance (i : Interval V) (t : Int) : Decidable (i.Contains t) :=
  inferInstanceAs (Decidable (_ ∧ _))

/-- The map has the value at `t`. -/
def Holds (same : V → V → Bool) (l : List (Interval V)) (t : Int) (v : V) : Prop :=
  ∃ i ∈ l, i.Contains t ∧ same i.value v = true

@[simp]
theorem holds_nil (t : Int) (v : V) : ¬ Holds same [] t v := by
  simp [Holds]

@[simp]
theorem holds_cons (i : Interval V) (l : List (Interval V)) (t : Int) (v : V) :
    Holds same (i :: l) t v ↔ i.Contains t ∧ same i.value v = true ∨ Holds same l t v := by
  simp [Holds]

theorem holds_append (l l' : List (Interval V)) (t : Int) (v : V) :
    Holds same (l ++ l') t v ↔ Holds same l t v ∨ Holds same l' t v := by
  simp [Holds, or_and_right, exists_or]

theorem holds_perm {l l' : List (Interval V)} (h : l.Perm l') (t : Int) (v : V) :
    Holds same l t v ↔ Holds same l' t v := by
  simp only [Holds, h.mem_iff]

theorem Before.not_contains {i j : Interval V} (h : Before i j) {t : Int} (ht : i.Contains t) :
    ¬ j.Contains t := by
  obtain ⟨b, hb, hlt⟩ := h
  obtain ⟨-, hle⟩ := ht
  rw [hb] at hle
  rintro ⟨hstart, -⟩
  simp only [atMost] at hle
  omega

theorem not_holds_tail {i : Interval V} {l : List (Interval V)} (h : InOrder (i :: l)) {t : Int}
    (ht : i.Contains t) (v : V) : ¬ Holds same l t v := by
  rintro ⟨j, hj, hc, -⟩
  exact ((List.pairwise_cons.mp h).1 j hj).not_contains ht hc

/-- The value at `t`, of the first interval there. -/
def valueAt (l : List (Interval V)) (t : Int) : Option V :=
  (l.find? fun i => i.Contains t).map (·.value)

theorem holds_iff_valueAt {l : List (Interval V)} (h : InOrder l) (t : Int) (v : V) :
    Holds same l t v ↔ ∃ u, valueAt l t = some u ∧ same u v = true := by
  induction l with
  | nil => simp [valueAt]
  | cons i l ih =>
    rw [holds_cons]
    by_cases ht : i.Contains t
    · simp [valueAt, ht, not_holds_tail h ht]
    · have hrest := ih (List.pairwise_cons.mp h).2
      simpa [valueAt, ht] using hrest

/-! ## Writing -/

theorem cutOut_value {start : Int} {stop : Option Int} {i j : Interval V}
    (hj : j ∈ cutOut start stop i) : j.value = i.value := by
  obtain ⟨-, rfl⟩ | ⟨b, -, -, rfl⟩ := mem_cutOut hj <;> rfl

theorem carve_value {start : Int} {stop : Option Int} {i j : Interval V}
    (hj : j ∈ carve start stop i) : j.value = i.value := by
  rcases mem_carve hj with rfl | hj
  · rfl
  · exact cutOut_value hj

theorem holds_flatMap_carve {start : Int} {stop : Option Int} (h : atMost start stop)
    (l : List (Interval V)) (t : Int) (v : V) :
    Holds same (l.flatMap (carve start stop)) t v ↔
      Holds same l t v ∧ ¬ (start ≤ t ∧ atMost t stop) := by
  constructor
  · rintro ⟨j, hj, hc, hv⟩
    obtain ⟨i, hi, hj⟩ := List.mem_flatMap.mp hj
    obtain ⟨hci, hout⟩ := (covers_carve h i t).mp ⟨j, hj, hc⟩
    exact ⟨⟨i, hi, hci, carve_value hj ▸ hv⟩, hout⟩
  · rintro ⟨⟨i, hi, hci, hv⟩, hout⟩
    obtain ⟨j, hj, hc⟩ := (covers_carve h i t).mpr ⟨hci, hout⟩
    exact ⟨j, List.mem_flatMap.mpr ⟨i, hi, hj⟩, hc, carve_value hj ▸ hv⟩

theorem holds_merge (hsame : Equivalence fun a b => same a b = true)
    {merged rest : List (Interval V)} (hm : ∀ i ∈ merged, i.Proper) (hr : ∀ i ∈ rest, i.Proper)
    (t : Int) (v : V) :
    Holds same (merge same merged rest) t v ↔ Holds same merged t v ∨ Holds same rest t v := by
  induction rest generalizing merged with
  | nil => simp [merge, holds_perm (List.reverse_perm merged)]
  | cons x xs ih =>
    rw [List.forall_mem_cons] at hr
    cases merged with
    | nil =>
      rw [merge, ih (by simpa using hr.1) hr.2]
      simp
    | cons m ms =>
      rw [List.forall_mem_cons] at hm
      simp only [merge]
      split
      · next hj =>
        obtain ⟨hp, hc⟩ := join_spec hm.1 hr.1 hj t
        -- the joined interval has the second value, and the first is the same
        have hvalue : same m.value v = true ↔ same x.value v = true :=
          ⟨hsame.trans (hsame.symm hj.1), hsame.trans hj.1⟩
        rw [ih (List.forall_mem_cons.mpr ⟨hp, hm.2⟩) hr.2]
        simp only [holds_cons, hc, hvalue]
        tauto
      · rw [ih (List.forall_mem_cons.mpr ⟨hr.1, List.forall_mem_cons.mpr hm⟩) hr.2]
        simp only [holds_cons]
        tauto

variable {stored : List (Interval V)} {i : Interval V}

theorem holds_paste (hsame : Equivalence fun a b => same a b = true)
    (hs : ∀ j ∈ stored, j.Proper) (hi : i.Proper) (t : Int) (v : V) :
    Holds same (paste same stored i) t v ↔
      i.Contains t ∧ same i.value v = true ∨ ¬ i.Contains t ∧ Holds same stored t v := by
  rw [paste, holds_merge hsame (by simp) (pasted_proper hs hi),
    holds_perm (List.perm_insertionSort _ _), holds_append, holds_flatMap_carve hi]
  simp only [holds_nil, holds_cons, false_or, or_false]
  unfold Contains
  tauto

/-! ## Normal form -/

/-- In order and apart, with no two neighbours that touch and have the same value. -/
structure Normal (same : V → V → Bool) (l : List (Interval V)) : Prop where
  proper : ∀ i ∈ l, i.Proper
  inOrder : InOrder l
  parted : l.IsChain fun i j => ¬ joins same i j

theorem normal_nil : Normal same ([] : List (Interval V)) :=
  ⟨by simp, List.Pairwise.nil, List.isChain_nil⟩

theorem merge_parted (hsame : Equivalence fun a b => same a b = true)
    {merged rest : List (Interval V)}
    (h : merged.reverse.IsChain fun i j => ¬ joins same i j) :
    (merge same merged rest).IsChain fun i j => ¬ joins same i j := by
  induction rest generalizing merged with
  | nil => exact h
  | cons x xs ih =>
    cases merged with
    | nil => exact ih (List.isChain_singleton x)
    | cons m ms =>
      rw [List.reverse_cons, List.isChain_append] at h
      obtain ⟨hms, -, hlast⟩ := h
      simp only [merge]
      split
      · next hj =>
        refine ih ?_
        rw [List.reverse_cons, List.isChain_append]
        refine ⟨hms, List.isChain_singleton _, fun y hy z hz => ?_⟩
        obtain rfl : { x with start := m.start } = z := by simpa using hz
        exact fun hjoin => hlast y hy m (by simp) ⟨hsame.trans hjoin.1 (hsame.symm hj.1), hjoin.2⟩
      · next hnot =>
        refine ih ?_
        rw [List.reverse_cons, List.reverse_cons, List.isChain_append, List.isChain_append]
        refine ⟨⟨hms, List.isChain_singleton _, hlast⟩, List.isChain_singleton _, ?_⟩
        intro y hy z hz
        obtain rfl : m = y := by simpa using hy
        obtain rfl : x = z := by simpa using hz
        exact hnot

theorem paste_normal (hsame : Equivalence fun a b => same a b = true) (ho : InOrder stored)
    (hs : ∀ j ∈ stored, j.Proper) (hi : i.Proper) :
    Normal same (paste same stored i) :=
  ⟨paste_proper hs hi, paste_inOrder ho hs hi, merge_parted hsame List.isChain_nil⟩

/-- Two intervals with the same bounds and the same value. -/
structure Alike (same : V → V → Bool) (i j : Interval V) : Prop where
  start : i.start = j.start
  stop : i.stop = j.stop
  value : same i.value j.value = true

theorem contains_start {i : Interval V} (h : i.Proper) : i.Contains i.start := ⟨Int.le_refl _, h⟩

theorem start_le_of_holds {l : List (Interval V)} (h : InOrder (i :: l)) (hi : i.Proper) {t : Int}
    {v : V} (hv : Holds same (i :: l) t v) : i.start ≤ t := by
  obtain ⟨j, hj, hc, -⟩ := hv
  rcases List.mem_cons.mp hj with rfl | hj
  · exact hc.1
  · have hlt := ((List.pairwise_cons.mp h).1 j hj).start_lt hi
    have := hc.1
    omega

theorem not_holds_after (hsame : Equivalence fun a b => same a b = true) {l : List (Interval V)}
    (h : Normal same (i :: l)) {b : Int} (hb : i.stop = some b) :
    ¬ Holds same (i :: l) (b + 1) i.value := by
  rw [holds_cons]
  rintro (⟨⟨-, hle⟩, -⟩ | hv)
  · rw [hb] at hle
    simp only [atMost] at hle
    omega
  cases l with
  | nil => exact holds_nil _ _ hv
  | cons j l =>
    have hij : Before i j := (List.pairwise_cons.mp h.inOrder).1 j List.mem_cons_self
    have hrest := (List.pairwise_cons.mp h.inOrder).2
    have hj := h.proper j (by simp)
    have hle := start_le_of_holds hrest hj hv
    obtain ⟨c, hc, hlt⟩ := hij
    obtain rfl := Option.some.inj (hb.symm.trans hc)
    have hstart : j.start = b + 1 := by omega
    have hholds : same j.value i.value = true := by
      rw [holds_cons] at hv
      refine (hv.resolve_right ?_).2
      exact not_holds_tail hrest (hstart ▸ contains_start hj) _
    refine (List.isChain_cons_cons.mp h.parted).1 ⟨hsame.symm hholds, ?_⟩
    rw [hb, hstart]
    simp

theorem Normal.tail {l : List (Interval V)} (h : Normal same (i :: l)) : Normal same l :=
  ⟨fun j hj => h.proper j (List.mem_cons_of_mem _ hj), (List.pairwise_cons.mp h.inOrder).2,
    h.parted.tail⟩

theorem Normal.pairwise_parted {l : List (Interval V)} (h : Normal same l) :
    l.Pairwise fun i j => ¬ joins same i j := by
  induction l with
  | nil => exact List.Pairwise.nil
  | cons i l ih =>
    refine List.pairwise_cons.mpr ⟨fun j hj hjoin => ?_, ih h.tail⟩
    have hbefore := (List.pairwise_cons.mp h.inOrder).1
    cases l with
    | nil => cases hj
    | cons k l =>
      rcases List.mem_cons.mp hj with rfl | hj
      · exact (List.isChain_cons_cons.mp h.parted).1 hjoin
      -- the head lies between the two
      · obtain ⟨b, hb, hlt⟩ := hbefore k List.mem_cons_self
        obtain ⟨c, hc, hlt'⟩ :=
          (List.pairwise_cons.mp (List.pairwise_cons.mp h.inOrder).2).1 j hj
        have hk := h.proper k (by simp)
        simp only [Proper, hc, atMost] at hk
        have hstop := hb.symm.trans hjoin.2
        simp only [Option.some.injEq] at hstop
        omega

theorem Normal.edges (hsame : Equivalence fun a b => same a b = true) {l : List (Interval V)}
    (h : Normal same l) (hi : i ∈ l) :
    ¬ Holds same l (i.start - 1) i.value ∧
      ∀ b, i.stop = some b → ¬ Holds same l (b + 1) i.value := by
  have hproper := h.proper i hi
  have hparted := h.pairwise_parted
  have horder := h.inOrder
  obtain ⟨before, after, rfl⟩ := List.append_of_mem hi
  rw [List.pairwise_append, List.pairwise_cons] at hparted
  rw [InOrder, List.pairwise_append, List.pairwise_cons] at horder
  obtain ⟨-, ⟨hafter, -⟩, hbefore⟩ := horder
  constructor
  · rintro ⟨j, hj, ⟨hstart, hstop⟩, hv⟩
    rcases List.mem_append.mp hj with hj | hj
    · obtain ⟨c, hc, hlt⟩ := hbefore j hj i List.mem_cons_self
      refine hparted.2.2 j hj i List.mem_cons_self ⟨hv, ?_⟩
      simp only [hc, atMost] at hstop
      rw [hc, Option.some_inj]
      omega
    · rcases List.mem_cons.mp hj with rfl | hj
      · omega
      · have := (hafter j hj).start_lt hproper
        omega
  · rintro b hb ⟨j, hj, ⟨hstart, hstop⟩, hv⟩
    simp only [Proper, hb, atMost] at hproper
    rcases List.mem_append.mp hj with hj | hj
    · obtain ⟨c, hc, hlt⟩ := hbefore j hj i List.mem_cons_self
      simp only [hc, atMost] at hstop
      omega
    · rcases List.mem_cons.mp hj with rfl | hj
      · simp only [hb, atMost] at hstop
        omega
      · obtain ⟨c, hc, hlt⟩ := hafter j hj
        obtain rfl := Option.some.inj (hb.symm.trans hc)
        refine hparted.2.1.1 j hj ⟨hsame.symm hv, ?_⟩
        rw [hb, Option.some_inj]
        omega

section Unique

variable {l l' : List (Interval V)} {j : Interval V}

theorem head_start_le (hsame : Equivalence fun a b => same a b = true) (h : Normal same (i :: l))
    (h' : Normal same (j :: l'))
    (hholds : ∀ t v, Holds same (i :: l) t v ↔ Holds same (j :: l') t v) : j.start ≤ i.start := by
  have hi := h.proper i List.mem_cons_self
  refine start_le_of_holds h'.inOrder (h'.proper j List.mem_cons_self) ((hholds i.start i.value).mp ?_)
  exact ⟨i, List.mem_cons_self, contains_start hi, hsame.refl _⟩

theorem head_stop_le (hsame : Equivalence fun a b => same a b = true) (h' : Normal same (j :: l'))
    (hstart : i.start = j.start) (hj : j.Proper) (hvalue : same i.value j.value = true)
    (hholds : ∀ t v, Holds same (i :: l) t v ↔ Holds same (j :: l') t v) {b : Int}
    (hb : j.stop = some b) : ¬ atMost (b + 1) i.stop := by
  intro hle
  refine not_holds_after hsame h' hb ((hholds (b + 1) j.value).mp ?_)
  refine ⟨i, List.mem_cons_self, ⟨?_, hle⟩, hvalue⟩
  simp only [Proper, hb, atMost] at hj
  omega

theorem head_alike (hsame : Equivalence fun a b => same a b = true) (h : Normal same (i :: l))
    (h' : Normal same (j :: l'))
    (hholds : ∀ t v, Holds same (i :: l) t v ↔ Holds same (j :: l') t v) : Alike same i j := by
  have hi := h.proper i List.mem_cons_self
  have hj := h'.proper j List.mem_cons_self
  have hback := fun t v => (hholds t v).symm
  have hstart : i.start = j.start :=
    Int.le_antisymm (head_start_le hsame h' h hback) (head_start_le hsame h h' hholds)
  have hvalue : same j.value i.value = true := by
    have hhead : Holds same (j :: l') i.start i.value := (hholds i.start i.value).mp
      ⟨i, List.mem_cons_self, contains_start hi, hsame.refl _⟩
    rw [holds_cons] at hhead
    refine (hhead.resolve_right ?_).2
    exact not_holds_tail h'.inOrder (hstart ▸ contains_start hj) _
  refine ⟨hstart, ?_, hsame.symm hvalue⟩
  have hij := fun b => head_stop_le (b := b) hsame h' hstart hj (hsame.symm hvalue) hholds
  have hji := fun b => head_stop_le (b := b) hsame h hstart.symm hi hvalue hback
  rcases hib : i.stop with _ | b <;> rcases hjb : j.stop with _ | c
  · rfl
  · have hnot := hij c hjb
    rw [hib] at hnot
    exact absurd trivial hnot
  · have hnot := hji b hib
    rw [hjb] at hnot
    exact absurd trivial hnot
  · have hbc := hib ▸ hij c hjb
    have hcb := hjb ▸ hji b hib
    simp only [atMost] at hbc hcb
    rw [Option.some_inj]
    omega

end Unique

theorem Normal.unique (hsame : Equivalence fun a b => same a b = true) {l l' : List (Interval V)}
    (h : Normal same l) (h' : Normal same l')
    (hholds : ∀ t v, Holds same l t v ↔ Holds same l' t v) : List.Forall₂ (Alike same) l l' := by
  induction l generalizing l' with
  | nil =>
    cases l' with
    | nil => exact List.Forall₂.nil
    | cons j l' =>
      have hj := h'.proper j List.mem_cons_self
      refine absurd ((hholds j.start j.value).mpr ?_) (holds_nil _ _)
      exact ⟨j, List.mem_cons_self, contains_start hj, hsame.refl _⟩
  | cons i l ih =>
    cases l' with
    | nil =>
      have hi := h.proper i List.mem_cons_self
      refine absurd ((hholds i.start i.value).mp ?_) (holds_nil _ _)
      exact ⟨i, List.mem_cons_self, contains_start hi, hsame.refl _⟩
    | cons j l' =>
      have halike := head_alike hsame h h' hholds
      refine List.Forall₂.cons halike (ih (h.tail) (h'.tail) fun t v => ?_)
      have hcontains : i.Contains t ↔ j.Contains t := by
        unfold Contains
        rw [halike.start, halike.stop]
      by_cases ht : i.Contains t
      · exact iff_of_false (not_holds_tail h.inOrder ht v)
          (not_holds_tail h'.inOrder (hcontains.mp ht) v)
      · have := hholds t v
        simpa [ht, hcontains.not.mp ht] using this

end Interval

end Solweig.Lib
