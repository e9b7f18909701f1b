import Mathlib.Data.List.Sort

/-!
# Interval maps

Values over closed intervals of the integers, where an interval may have no end. A new interval
is pasted over a list of them: it is carved out of each, and then equal neighbours merge. What
the equality of values is, is a parameter.
-/

namespace Solweig.Lib

structure Interval (V : Type) where
  start : Int
  stop : Option Int
  value : V
  deriving DecidableEq

/-- `t ≤ stop`, where no stop is infinity. -/
def atMost (t : Int) : Option Int → Prop
  | none => True
  | some stop => t ≤ stop

instance : ∀ (t : Int) (stop : Option Int), Decidable (atMost t stop)
  | _, none => isTrue trivial
  | t, some stop => inferInstanceAs (Decidable (t ≤ stop))

def overlaps (startA : Int) (stopA : Option Int) (startB : Int) (stopB : Option Int) : Prop :=
  atMost startA stopB ∧ atMost startB stopA

instance (startA : Int) (stopA : Option Int) (startB : Int) (stopB : Option Int) :
    Decidable (overlaps startA stopA startB stopB) :=
  inferInstanceAs (Decidable (_ ∧ _))

namespace Interval

variable {V : Type}

def Contains (i : Interval V) (t : Int) : Prop := i.start ≤ t ∧ atMost t i.stop

def Proper (i : Interval V) : Prop := atMost i.start i.stop

/-- The pieces of an interval left and right of `[start, stop]`. -/
def cutOut (start : Int) (stop : Option Int) (i : Interval V) : List (Interval V) :=
  (if i.start < start then [{ i with stop := some (start - 1) }] else []) ++
    -- nothing lies right of an unbounded interval
    match stop with
    | none => []
    | some b => if atMost (b + 1) i.stop then [{ i with start := b + 1 }] else []

/-- What pasting over `[start, stop]` leaves of an interval. -/
def carve (start : Int) (stop : Option Int) (i : Interval V) : List (Interval V) :=
  if overlaps start stop i.start i.stop then cutOut start stop i else [i]

/-- The next interval continues this one with an equal value. -/
def joins (same : V → V → Bool) (i next : Interval V) : Prop :=
  same i.value next.value = true ∧ i.stop = some (next.start - 1)

instance (same : V → V → Bool) (i next : Interval V) : Decidable (joins same i next) :=
  inferInstanceAs (Decidable (_ ∧ _))

/-- `merged` is what is finished, with its last interval first. -/
def merge (same : V → V → Bool) : List (Interval V) → List (Interval V) → List (Interval V)
  | merged, [] => merged.reverse
  | [], i :: rest => merge same [i] rest
  | m :: ms, i :: rest =>
    if joins same m i then merge same ({ i with start := m.start } :: ms) rest
    else merge same (i :: m :: ms) rest

def paste (same : V → V → Bool) (stored : List (Interval V)) (i : Interval V) :
    List (Interval V) :=
  merge same [] ((stored.flatMap (carve i.start i.stop) ++ [i]).insertionSort
    fun x y => x.start ≤ y.start)

/-- Some interval of the list contains `t`. -/
def Covers (l : List (Interval V)) (t : Int) : Prop := ∃ i ∈ l, i.Contains t

@[simp]
theorem covers_nil (t : Int) : ¬ Covers ([] : List (Interval V)) t := by
  simp [Covers]

@[simp]
theorem covers_cons (i : Interval V) (l : List (Interval V)) (t : Int) :
    Covers (i :: l) t ↔ i.Contains t ∨ Covers l t := by
  simp [Covers]

@[simp]
theorem covers_append (l l' : List (Interval V)) (t : Int) :
    Covers (l ++ l') t ↔ Covers l t ∨ Covers l' t := by
  simp [Covers, or_and_right, exists_or]

theorem covers_flatMap (f : Interval V → List (Interval V)) (l : List (Interval V)) (t : Int) :
    Covers (l.flatMap f) t ↔ ∃ i ∈ l, Covers (f i) t := by
  simp only [Covers, List.mem_flatMap]
  constructor
  · rintro ⟨j, ⟨i, hi, hj⟩, hc⟩
    exact ⟨i, hi, j, hj, hc⟩
  · rintro ⟨i, hi, j, hj, hc⟩
    exact ⟨j, ⟨i, hi, hj⟩, hc⟩

theorem covers_perm {l l' : List (Interval V)} (h : l.Perm l') (t : Int) :
    Covers l t ↔ Covers l' t := by
  simp only [Covers, h.mem_iff]

/-! ## Carving -/

theorem covers_carve {start : Int} {stop : Option Int} (h : atMost start stop)
    (i : Interval V) (t : Int) :
    Covers (carve start stop i) t ↔ i.Contains t ∧ ¬ (start ≤ t ∧ atMost t stop) := by
  obtain ⟨a, b, v⟩ := i
  unfold carve
  split <;> rename_i hov
  · unfold cutOut
    rw [covers_append]
    have hleft : Covers (if a < start then [(⟨a, some (start - 1), v⟩ : Interval V)] else []) t ↔
        a ≤ t ∧ t < start := by
      split
      · simp only [covers_cons, covers_nil, Contains, atMost, or_false]
        omega
      · simp only [covers_nil, false_iff]
        omega
    rw [hleft]
    cases stop with
    | none =>
      cases b with
      | none => simp [Contains, atMost]
      | some d =>
        simp only [overlaps, atMost] at hov
        simp only [Contains, covers_nil, atMost, or_false, and_true, not_le]
        omega
    | some c =>
      simp only [atMost] at h
      dsimp only
      split <;> cases b <;> simp_all [Contains, overlaps, atMost] <;> omega
  · cases stop <;> cases b <;> simp_all [Contains, overlaps, atMost] <;> omega

theorem mem_cutOut {start : Int} {stop : Option Int} {i j : Interval V}
    (hj : j ∈ cutOut start stop i) :
    i.start < start ∧ j = { i with stop := some (start - 1) } ∨
      ∃ b, stop = some b ∧ atMost (b + 1) i.stop ∧ j = { i with start := b + 1 } := by
  rcases List.mem_append.mp hj with hj | hj
  · split at hj
    · exact Or.inl ⟨‹_›, List.mem_singleton.mp hj⟩
    · simp at hj
  · cases stop with
    | none => simp at hj
    | some b =>
      simp only at hj
      split at hj
      · exact Or.inr ⟨b, rfl, ‹_›, List.mem_singleton.mp hj⟩
      · simp at hj

theorem mem_carve {start : Int} {stop : Option Int} {i j : Interval V}
    (hj : j ∈ carve start stop i) : j = i ∨ j ∈ cutOut start stop i := by
  unfold carve at hj
  split at hj
  · exact Or.inr hj
  · exact Or.inl (List.mem_singleton.mp hj)

theorem cutOut_proper {start : Int} {stop : Option Int} {i j : Interval V}
    (hj : j ∈ cutOut start stop i) : j.Proper := by
  obtain ⟨hlt, rfl⟩ | ⟨b, -, hb, rfl⟩ := mem_cutOut hj
  · simp only [Proper, atMost]
    omega
  · exact hb

/-! ## Merging -/

theorem join_spec {same : V → V → Bool} {m x : Interval V} (hm : m.Proper) (hx : x.Proper)
    (hj : joins same m x) (t : Int) :
    Proper { x with start := m.start } ∧
      (Contains { x with start := m.start } t ↔ m.Contains t ∨ x.Contains t) := by
  obtain ⟨a, b, v⟩ := m
  obtain ⟨c, d, w⟩ := x
  obtain ⟨-, rfl⟩ := hj
  cases d <;> simp [Proper, Contains, atMost] at hm hx ⊢ <;> omega

theorem merge_forall {same : V → V → Bool} {P : Interval V → Prop}
    (hjoin : ∀ m x, P m → P x → joins same m x → P { x with start := m.start })
    {merged rest : List (Interval V)} (hm : ∀ i ∈ merged, P i) (hr : ∀ i ∈ rest, P i) :
    ∀ i ∈ merge same merged rest, P i := by
  induction rest generalizing merged with
  | nil => simpa [merge] using hm
  | cons x xs ih =>
    rw [List.forall_mem_cons] at hr
    cases merged with
    | nil => exact ih (by simpa using hr.1) hr.2
    | cons m ms =>
      rw [List.forall_mem_cons] at hm
      simp only [merge]
      split
      · exact ih (List.forall_mem_cons.mpr ⟨hjoin m x hm.1 hr.1 ‹_›, hm.2⟩) hr.2
      · exact ih (List.forall_mem_cons.mpr ⟨hr.1, List.forall_mem_cons.mpr hm⟩) hr.2

theorem covers_merge {same : V → V → Bool} {merged rest : List (Interval V)}
    (hm : ∀ i ∈ merged, i.Proper) (hr : ∀ i ∈ rest, i.Proper) (t : Int) :
    Covers (merge same merged rest) t ↔ Covers merged t ∨ Covers rest t := by
  induction rest generalizing merged with
  | nil => simp [merge, covers_perm (List.reverse_perm merged)]
  | cons x xs ih =>
    rw [List.forall_mem_cons] at hr
    cases merged with
    | nil =>
      rw [merge, ih (by simpa using hr.1) hr.2]
      simp
    | cons m ms =>
      rw [List.forall_mem_cons] at hm
      simp only [merge]
      split
      · rename_i hj
        obtain ⟨hp, hc⟩ := join_spec hm.1 hr.1 hj t
        rw [ih (List.forall_mem_cons.mpr ⟨hp, hm.2⟩) hr.2]
        simp only [covers_cons, hc]
        tauto
      · rw [ih (List.forall_mem_cons.mpr ⟨hr.1, List.forall_mem_cons.mpr hm⟩) hr.2]
        simp only [covers_cons]
        tauto

/-! ## Pasting -/

variable {same : V → V → Bool} {stored : List (Interval V)} {i : Interval V}

theorem pasted_forall {P : Interval V → Prop} (hs : ∀ j ∈ stored, P j) (hi : P i)
    (hcut : ∀ k ∈ stored, ∀ j ∈ cutOut i.start i.stop k, P j) :
    ∀ j ∈ (stored.flatMap (carve i.start i.stop) ++ [i]).insertionSort
      (fun x y => x.start ≤ y.start), P j := by
  intro j hj
  simp only [List.mem_insertionSort, List.mem_append, List.mem_flatMap, List.mem_singleton] at hj
  rcases hj with ⟨k, hk, hj⟩ | rfl
  · rcases mem_carve hj with rfl | hj
    · exact hs _ hk
    · exact hcut k hk j hj
  · exact hi

theorem paste_forall {P : Interval V → Prop}
    (hjoin : ∀ m x, P m → P x → joins same m x → P { x with start := m.start })
    (hs : ∀ j ∈ stored, P j) (hi : P i)
    (hcut : ∀ k ∈ stored, ∀ j ∈ cutOut i.start i.stop k, P j) : ∀ j ∈ paste same stored i, P j :=
  merge_forall hjoin (by simp) (pasted_forall hs hi hcut)

theorem pasted_proper (hs : ∀ j ∈ stored, j.Proper) (hi : i.Proper) :
    ∀ j ∈ (stored.flatMap (carve i.start i.stop) ++ [i]).insertionSort
      (fun x y => x.start ≤ y.start), j.Proper :=
  pasted_forall hs hi fun _ _ _ hj => cutOut_proper hj

theorem paste_proper (hs : ∀ j ∈ stored, j.Proper) (hi : i.Proper) :
    ∀ j ∈ paste same stored i, j.Proper :=
  paste_forall (fun _ _ hm hx hj => (join_spec hm hx hj 0).1) hs hi
    fun _ _ _ hj => cutOut_proper hj

theorem covers_paste (hs : ∀ j ∈ stored, j.Proper) (hi : i.Proper) (t : Int) :
    Covers (paste same stored i) t ↔ i.Contains t ∨ Covers stored t := by
  have hcarve : Covers (stored.flatMap (carve i.start i.stop)) t ↔
      Covers stored t ∧ ¬ i.Contains t := by
    rw [covers_flatMap]
    constructor
    · rintro ⟨k, hk, hc⟩
      obtain ⟨hc, hn⟩ := (covers_carve hi k t).mp hc
      exact ⟨⟨k, hk, hc⟩, hn⟩
    · rintro ⟨⟨k, hk, hc⟩, hn⟩
      exact ⟨k, hk, (covers_carve hi k t).mpr ⟨hc, hn⟩⟩
  rw [paste, covers_merge (by simp) (pasted_proper hs hi),
    covers_perm (List.perm_insertionSort _ _)]
  simp only [covers_append, covers_cons, covers_nil, hcarve]
  tauto

/-! ## Order

In order and apart: each interval ends before the next one starts. -/

def Before (i j : Interval V) : Prop := ∃ b, i.stop = some b ∧ b < j.start

theorem Before.start_lt {i j : Interval V} (h : Before i j) (hi : i.Proper) : i.start < j.start := by
  obtain ⟨b, hb, hlt⟩ := h
  simp only [Proper, hb, atMost] at hi
  omega

def InOrder (l : List (Interval V)) : Prop := l.Pairwise Before

theorem carve_before {start : Int} {stop : Option Int} {x y : Interval V} (h : Before x y) :
    ∀ x' ∈ carve start stop x, x.Proper → ∀ y' ∈ carve start stop y, Before x' y' := by
  obtain ⟨b, hb, hlt⟩ := h
  have hleft : ∀ x' ∈ carve start stop x, x.Proper → ∃ b', x'.stop = some b' ∧ b' ≤ b := by
    intro x' hx' hp
    simp only [Proper, hb, atMost] at hp
    unfold carve at hx'
    split at hx'
    · rename_i hov
      simp only [overlaps, hb, atMost] at hov
      obtain ⟨hlt', rfl⟩ | ⟨c, -, hc, rfl⟩ := mem_cutOut hx'
      · exact ⟨start - 1, rfl, by omega⟩
      · exact ⟨b, hb, le_refl _⟩
    · obtain rfl := List.mem_singleton.mp hx'
      exact ⟨b, hb, le_refl _⟩
  have hright : ∀ y' ∈ carve start stop y, y.start ≤ y'.start := by
    intro y' hy'
    unfold carve at hy'
    split at hy'
    · rename_i hov
      obtain ⟨-, rfl⟩ | ⟨c, rfl, -, rfl⟩ := mem_cutOut hy'
      · exact le_refl _
      · have := hov.2
        simp only [atMost] at this
        show y.start ≤ c + 1
        omega
    · obtain rfl := List.mem_singleton.mp hy'
      exact le_refl _
  intro x' hx' hp y' hy'
  obtain ⟨b', hb', hle⟩ := hleft x' hx' hp
  have := hright y' hy'
  exact ⟨b', hb', by omega⟩

theorem carve_beside {start : Int} {stop : Option Int} {i j : Interval V}
    (hj : j ∈ carve start stop i) {v : V} :
    Before j { start, stop, value := v } ∨ Before { start, stop, value := v } j := by
  unfold carve at hj
  split at hj
  · obtain ⟨-, rfl⟩ | ⟨b, rfl, -, rfl⟩ := mem_cutOut hj
    · exact Or.inl ⟨start - 1, rfl, by show start - 1 < start; omega⟩
    · exact Or.inr ⟨b, rfl, by show b < b + 1; omega⟩
  · rename_i hov
    obtain rfl := List.mem_singleton.mp hj
    simp only [overlaps, not_and_or] at hov
    rcases hov with h | h
    · cases hb : j.stop with
      | none => simp [hb, atMost] at h
      | some b =>
        simp only [hb, atMost] at h
        exact Or.inl ⟨b, hb, by simpa using h⟩
    · cases stop with
      | none => simp [atMost] at h
      | some b =>
        simp only [atMost] at h
        exact Or.inr ⟨b, rfl, by simpa using h⟩

theorem carve_inOrder (start : Int) (stop : Option Int) (h : atMost start stop) (i : Interval V) :
    InOrder (carve start stop i) := by
  unfold carve InOrder
  split
  · unfold cutOut
    cases stop with
    | none => split <;> simp
    | some b =>
      simp only [atMost] at h
      dsimp only
      split <;> split <;> simp [Before]
      omega
  · simp

theorem merge_inOrder {same : V → V → Bool} {merged rest : List (Interval V)}
    (h : InOrder (merged.reverse ++ rest)) : InOrder (merge same merged rest) := by
  induction rest generalizing merged with
  | nil => simpa [merge] using h
  | cons x xs ih =>
    cases merged with
    | nil => exact ih (by simpa using h)
    | cons m ms =>
      simp only [merge]
      split
      · refine ih ?_
        rw [InOrder, List.reverse_cons, List.append_assoc, List.singleton_append,
          List.pairwise_append, List.pairwise_cons] at h ⊢
        obtain ⟨hms, ⟨hm, hrest⟩, hcross⟩ := h
        rw [List.pairwise_cons] at hrest
        -- it starts where the first of the two did, and ends where the second does
        refine ⟨hms, ⟨hrest.1, hrest.2⟩, fun y hy z hz => ?_⟩
        rcases List.mem_cons.mp hz with rfl | hz
        · exact hcross y hy m List.mem_cons_self
        · exact hcross y hy z (List.mem_cons_of_mem _ (List.mem_cons_of_mem _ hz))
      · refine ih ?_
        simpa using h

theorem paste_inOrder (ho : InOrder stored) (hs : ∀ j ∈ stored, j.Proper) (hi : i.Proper) :
    InOrder (paste same stored i) := by
  refine merge_inOrder ?_
  let beside (x y : Interval V) : Prop := Before x y ∨ Before y x
  have hsym : Std.Symm beside := ⟨fun x y h => h.symm⟩
  have hpieces : InOrder (stored.flatMap (carve i.start i.stop)) := by
    refine List.pairwise_flatMap.mpr ⟨fun j _ => carve_inOrder _ _ hi j, ?_⟩
    refine ho.imp_of_mem fun {x y} hx _ hxy x' hx' y' hy' => ?_
    exact carve_before hxy x' hx' (hs x hx) y' hy'
  have hbeside : (stored.flatMap (carve i.start i.stop) ++ [i]).Pairwise beside := by
    refine List.pairwise_append.mpr ⟨hpieces.imp Or.inl, List.pairwise_singleton _ _, ?_⟩
    intro j hj k hk
    obtain rfl := List.mem_singleton.mp hk
    obtain ⟨x, -, hx⟩ := List.mem_flatMap.mp hj
    exact carve_beside hx
  have hsorted : ((stored.flatMap (carve i.start i.stop) ++ [i]).insertionSort
      fun x y => x.start ≤ y.start).Pairwise fun x y => x.start ≤ y.start := by
    have : Std.Total fun x y : Interval V => x.start ≤ y.start := ⟨fun x y => le_total _ _⟩
    have : IsTrans (Interval V) fun x y => x.start ≤ y.start := ⟨fun x y z => le_trans⟩
    exact List.pairwise_insertionSort _ _
  have hperm := (List.perm_insertionSort (fun x y : Interval V => x.start ≤ y.start)
    (stored.flatMap (carve i.start i.stop) ++ [i]))
  refine ((hsorted.and (hperm.symm.pairwise hbeside fun h => h.symm)).imp_of_mem ?_)
  rintro x y hx hy ⟨hle, h | h⟩
  · exact h
  · have := h.start_lt (pasted_proper hs hi y hy)
    omega

theorem paste_start {P : Int → Prop} (hs : ∀ j ∈ stored, P j.start) (hi : P i.start)
    (hright : ∀ b, i.stop = some b → P (b + 1)) : ∀ j ∈ paste same stored i, P j.start := by
  refine paste_forall (P := fun j => P j.start) (fun _ _ hm _ _ => hm) hs hi fun k hk j hj => ?_
  obtain ⟨-, rfl⟩ | ⟨b, hb, -, rfl⟩ := mem_cutOut hj
  · exact hs k hk
  · exact hright b hb

theorem paste_stop {P : Option Int → Prop} (hs : ∀ j ∈ stored, P j.stop) (hi : P i.stop)
    (hleft : P (some (i.start - 1))) : ∀ j ∈ paste same stored i, P j.stop := by
  refine paste_forall (P := fun j => P j.stop) (fun _ _ _ hx _ => hx) hs hi fun k hk j hj => ?_
  obtain ⟨-, rfl⟩ | ⟨b, -, -, rfl⟩ := mem_cutOut hj
  · exact hleft
  · exact hs k hk

theorem length_of_starts {l : List (Interval V)} (ho : InOrder l) (hl : ∀ j ∈ l, j.Proper)
    {a b : Int} (hab : ∀ j ∈ l, a ≤ j.start ∧ j.start ≤ b) : (l.length : Int) ≤ max 0 (b - a + 1) := by
  induction l generalizing a with
  | nil => simp
  | cons j l ih =>
    rw [InOrder, List.pairwise_cons] at ho
    rw [List.forall_mem_cons] at hl hab
    have := ih (a := j.start + 1) ho.2 hl.2 fun k hk => by
      have := (ho.1 k hk).start_lt hl.1
      exact ⟨by omega, (hab.2 k hk).2⟩
    simp only [List.length_cons]
    omega

end Interval

end Solweig.Lib
