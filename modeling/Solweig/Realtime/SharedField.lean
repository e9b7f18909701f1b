import Solweig.Realtime.FoldState

/-!
# A field name in two families

The owners that the first family leaves under the name of the field are fewer than the segments
that the second family stores there. The insert walks both lists together and drops the rest.
-/

namespace Solweig.Realtime

open Solweig.Lib Solweig.Lib.Interval

/-! ## Exact times

The stops of a state are exact floats, and stay so under inserts of moderate times. -/

/-- Times far inside the exact floats. -/
def Insertion.InRange (i : Insertion) : Prop :=
  i.seg.start.natAbs ≤ 2 ^ 50 ∧ ∀ b ∈ i.seg.stop, b.natAbs ≤ 2 ^ 50

instance (i : Insertion) : Decidable i.InRange := inferInstanceAs (Decidable (_ ∧ _))

def InRange (ops : List Operation) : Prop := ∀ op ∈ ops, ∀ i ∈ insertions op, i.InRange

instance (ops : List Operation) : Decidable (InRange ops) :=
  inferInstanceAs (Decidable (∀ op ∈ ops, ∀ i ∈ insertions op, i.InRange))

def Exact (segments : SegmentFamily → SegmentMap) : Prop :=
  ∀ g field, ∀ s ∈ (segments g).getD field [], Tame s.stop

/-- The owners of the field, as the insert looks them up. -/
def ownersOf (v : SegmentView) (i : Insertion) : List (Option Operation) :=
  v.2.getD i.field (((v.1 i.family).getD i.field []).map fun _ => none)

/-- The insert where every stop is exact. -/
def insertExact (v : SegmentView) (i : Insertion) : SegmentView :=
  let stored := ((v.1 i.family).getD i.field []).zip (ownersOf v i)
  let hits := (stored.map Prod.fst).map fun s =>
    decide (overlaps i.seg.start i.seg.stop s.start s.stop)
  let merged := placeOwned (stored.zip hits) i.seg i.op
  (Function.update v.1 i.family ((v.1 i.family).insert i.field (merged.map Prod.fst)),
    v.2.insert i.field (merged.map Prod.snd))

def pasteExact (segments : SegmentFamily → SegmentMap) (i : Insertion) :
    SegmentFamily → SegmentMap :=
  Function.update segments i.family ((segments i.family).insert i.field
    (paste Json.pyEq ((segments i.family).getD i.field []) i.seg))

/-! ## What one insert changes -/

theorem insertExact_family (v : SegmentView) {i : Insertion} {g : SegmentFamily}
    (h : g ≠ i.family) : (insertExact v i).1 g = v.1 g := by
  simp [insertExact, h]

theorem insertExact_field (v : SegmentView) {i : Insertion} {field : String} (h : i.field ≠ field)
    (g : SegmentFamily) : ((insertExact v i).1 g).getD field [] = (v.1 g).getD field [] := by
  by_cases hg : g = i.family
  · subst hg
    simp [insertExact, Dict.getD_insert_of_ne _ _ _ h]
  · rw [insertExact_family v hg]

theorem insertExact_owners (v : SegmentView) {i : Insertion} {field : String}
    (h : i.field ≠ field) : (insertExact v i).2[field]? = v.2[field]? :=
  Dict.getElem?_insert_of_ne _ _ h

theorem zip_map_fst {α β : Type} (l : List α) (l' : List β) :
    (l.zip l').map Prod.fst = l.take l'.length := by
  induction l generalizing l' with
  | nil => simp
  | cons a l ih => cases l' <;> simp [ih]

theorem insertExact_self (v : SegmentView) (i : Insertion) :
    ((insertExact v i).1 i.family).getD i.field [] =
      paste Json.pyEq (((v.1 i.family).getD i.field []).take (ownersOf v i).length) i.seg := by
  simp only [insertExact, Function.update_self, Std.ExtTreeMap.getD_insert_self, placeOwned_fst,
    zip_map_fst, placeSegments_flags]

theorem insertExact_owners_self (v : SegmentView) (i : Insertion) :
    ∃ owners, (insertExact v i).2[i.field]? = some owners ∧
      owners.length = (((insertExact v i).1 i.family).getD i.field []).length := by
  refine ⟨_, Std.ExtTreeMap.getElem?_insert_self, ?_⟩
  simp [insertExact]

theorem pasteExact_family (segments : SegmentFamily → SegmentMap) {i : Insertion}
    {g : SegmentFamily} (h : g ≠ i.family) : pasteExact segments i g = segments g := by
  simp [pasteExact, h]

theorem pasteExact_field (segments : SegmentFamily → SegmentMap) {i : Insertion} {field : String}
    (h : i.field ≠ field) (g : SegmentFamily) :
    (pasteExact segments i g).getD field [] = (segments g).getD field [] := by
  by_cases hg : g = i.family
  · subst hg
    simp [pasteExact, Dict.getD_insert_of_ne _ _ _ h]
  · rw [pasteExact_family segments hg]

theorem pasteExact_self (segments : SegmentFamily → SegmentMap) (i : Insertion) :
    (pasteExact segments i i.family).getD i.field [] =
      paste Json.pyEq ((segments i.family).getD i.field []) i.seg := by
  simp [pasteExact]

/-! ## Exact inserts are the inserts -/

theorem Insertion.InRange.tame {i : Insertion} (h : i.InRange) : Tame i.seg.stop := by
  intro b hb
  have := h.2 b hb
  omega

theorem exact_paste {stored : List Segment} (hs : ∀ s ∈ stored, Tame s.stop) {i : Insertion}
    (hi : i.InRange) : ∀ s ∈ paste Json.pyEq stored i.seg, Tame s.stop := by
  refine paste_stop (P := Tame) hs hi.tame fun b hb => ?_
  have := hi.1
  cases hb
  omega

theorem Exact.insert {v : SegmentView} (h : Exact v.1) {i : Insertion} (hi : i.InRange) :
    insertInto v i = .ok (insertExact v i) ∧ Exact (insertExact v i).1 := by
  have hstored : ∀ s ∈ ((v.1 i.family).getD i.field []).take (ownersOf v i).length,
      Tame s.stop := fun s hs => h i.family i.field s (List.mem_of_mem_take hs)
  constructor
  · unfold insertInto insertExact
    dsimp only
    rw [show v.2.getD i.field (((v.1 i.family).getD i.field []).map fun _ => none) =
      ownersOf v i from rfl, overlapFlags_tame hi.tame (by rwa [zip_map_fst])]
    rfl
  · intro g field s hs
    by_cases hf : i.field = field
    · by_cases hg : g = i.family
      · subst hf hg
        rw [insertExact_self] at hs
        exact exact_paste hstored hi s hs
      · rw [insertExact_family v hg] at hs
        exact h g field s hs
    · rw [insertExact_field v hf] at hs
      exact h g field s hs

theorem Exact.paste {segments : SegmentFamily → SegmentMap} (h : Exact segments) {i : Insertion}
    (hi : i.InRange) :
    pasteInto segments i = .ok (pasteExact segments i) ∧ Exact (pasteExact segments i) := by
  constructor
  · unfold pasteInto pasteExact
    dsimp only
    rw [overlapFlags_tame hi.tame (h i.family i.field), Except.map, placeSegments_flags]
  · intro g field s hs
    by_cases hf : i.field = field
    · by_cases hg : g = i.family
      · subst hf hg
        rw [pasteExact_self] at hs
        exact exact_paste (h i.family i.field) hi s hs
      · rw [pasteExact_family segments hg] at hs
        exact h g field s hs
    · rw [pasteExact_field segments hf] at hs
      exact h g field s hs

theorem Exact.foldlM_insert {v : SegmentView} (h : Exact v.1) {is : List Insertion}
    (his : ∀ i ∈ is, i.InRange) : is.foldlM insertInto v = .ok (is.foldl insertExact v) :=
  (foldlM_total (I := fun v => Exact v.1) (fun i hi _ hv => hv.insert (his i hi)) h).1

theorem Exact.foldlM_paste {segments : SegmentFamily → SegmentMap} (h : Exact segments)
    {is : List Insertion} (his : ∀ i ∈ is, i.InRange) :
    is.foldlM pasteInto segments = .ok (is.foldl pasteExact segments) :=
  (foldlM_total (fun i hi _ hs => hs.paste (his i hi)) h).1

/-! ## Coverage that is kept -/

/-- The field covers the time step with proper segments. -/
def Kept (g : SegmentFamily) (field : String) (t : Int) (segments : SegmentFamily → SegmentMap) :
    Prop :=
  (∀ s ∈ (segments g).getD field [], s.Proper) ∧ Covers ((segments g).getD field []) t

variable {g : SegmentFamily} {field : String} {t : Int}

theorem Kept.paste {segments : SegmentFamily → SegmentMap} (h : Kept g field t segments)
    {i : Insertion} (hi : i.seg.Proper) : Kept g field t (pasteExact segments i) := by
  by_cases hf : i.field = field
  · by_cases hg : g = i.family
    · subst hf hg
      rw [Kept, pasteExact_self]
      exact ⟨paste_proper h.1 hi, (covers_paste h.1 hi t).mpr (Or.inr h.2)⟩
    · rwa [Kept, pasteExact_family segments hg]
  · rwa [Kept, pasteExact_field segments hf]

theorem Kept.foldl {segments : SegmentFamily → SegmentMap} (h : Kept g field t segments)
    {is : List Insertion} (his : ∀ i ∈ is, i.seg.Proper) :
    Kept g field t (is.foldl pasteExact segments) := by
  induction is generalizing segments with
  | nil => exact h
  | cons i is ih =>
    rw [List.forall_mem_cons] at his
    exact ih (h.paste his.1) his.2

/-! ## Coverage that is lost -/

/-- The field holds proper segments and none of them covers the time step. -/
def Lost (g : SegmentFamily) (field : String) (t : Int) (v : SegmentView) : Prop :=
  (∀ s ∈ (v.1 g).getD field [], s.Proper) ∧ ¬ Covers ((v.1 g).getD field []) t

theorem lost_paste {stored : List Segment} {k : Nat} {seg : Segment}
    (hs : ∀ s ∈ stored, s.Proper) (hc : ¬ Covers (stored.take k) t) (hp : seg.Proper)
    (ht : ¬ seg.Contains t) :
    (∀ s ∈ paste Json.pyEq (stored.take k) seg, s.Proper) ∧
      ¬ Covers (paste Json.pyEq (stored.take k) seg) t := by
  have hs' : ∀ s ∈ stored.take k, s.Proper := fun s h => hs s (List.mem_of_mem_take h)
  refine ⟨paste_proper hs' hp, ?_⟩
  rw [covers_paste hs' hp]
  exact not_or.mpr ⟨ht, hc⟩

theorem Lost.insert {v : SegmentView} (h : Lost g field t v) {i : Insertion}
    (hp : i.seg.Proper) (ht : ¬ i.seg.Contains t) : Lost g field t (insertExact v i) := by
  by_cases hf : i.field = field
  · by_cases hg : g = i.family
    · subst hf hg
      rw [Lost, insertExact_self]
      refine lost_paste h.1 ?_ hp ht
      rintro ⟨s, hs, hc⟩
      exact h.2 ⟨s, List.mem_of_mem_take hs, hc⟩
    · rwa [Lost, insertExact_family v hg]
  · rwa [Lost, insertExact_field v hf]

theorem Lost.foldl {v : SegmentView} (h : Lost g field t v) {is : List Insertion}
    (his : ∀ i ∈ is, i.seg.Proper ∧ ¬ i.seg.Contains t) :
    Lost g field t (is.foldl insertExact v) := by
  induction is generalizing v with
  | nil => exact h
  | cons i is ih =>
    rw [List.forall_mem_cons] at his
    exact ih (h.insert his.1.1 his.1.2) his.2

/-! ## The first insert of the second family -/

/-- While only the family `a` writes the field: the family `g` still holds `stored` there, `a`
holds segments in order that start at moderate times, and the owners are those of `a`. -/
structure OnlyFirst (a g : SegmentFamily) (field : String) (stored : List Segment)
    (v : SegmentView) : Prop where
  untouched : (v.1 g).getD field [] = stored
  proper : ∀ s ∈ (v.1 a).getD field [], s.Proper
  inOrder : InOrder ((v.1 a).getD field [])
  window : ∀ s ∈ (v.1 a).getD field [], -2 ^ 50 ≤ s.start ∧ s.start ≤ 2 ^ 50 + 1
  owners : ∀ owners, v.2[field]? = some owners →
    owners.length = ((v.1 a).getD field []).length

variable {a : SegmentFamily} {stored : List Segment}

theorem OnlyFirst.insert {v : SegmentView} (h : OnlyFirst a g field stored v) (hag : g ≠ a)
    {i : Insertion} (hp : i.seg.Proper) (hr : i.InRange) (hi : i.field = field → i.family = a) :
    OnlyFirst a g field stored (insertExact v i) := by
  by_cases hf : i.field = field
  · obtain rfl := hi hf
    subst hf
    obtain ⟨owners, howners, hlen⟩ := insertExact_owners_self v i
    set kept := ((v.1 i.family).getD i.field []).take (ownersOf v i).length with hkept
    have hsub : kept.Sublist ((v.1 i.family).getD i.field []) := List.take_sublist _ _
    have hproper : ∀ s ∈ kept, s.Proper := fun s hs => h.proper s (hsub.subset hs)
    refine ⟨?_, ?_, ?_, ?_, fun os hos => ?_⟩
    · rw [insertExact_family v hag]
      exact h.untouched
    · rw [insertExact_self]
      exact paste_proper hproper hp
    · rw [insertExact_self]
      exact paste_inOrder (h.inOrder.sublist hsub) hproper hp
    · rw [insertExact_self]
      obtain ⟨hstart, hstop⟩ := hr
      refine paste_start (P := fun t => -2 ^ 50 ≤ t ∧ t ≤ 2 ^ 50 + 1)
        (fun s hs => h.window s (hsub.subset hs)) (by omega) fun b hb => ?_
      have := hstop b hb
      omega
    · rw [howners, Option.some.injEq] at hos
      rw [← hos, hlen]
  · refine ⟨?_, ?_, ?_, ?_, fun os hos => ?_⟩
    · rw [insertExact_field v hf]
      exact h.untouched
    · rw [insertExact_field v hf]
      exact h.proper
    · rw [insertExact_field v hf]
      exact h.inOrder
    · rw [insertExact_field v hf]
      exact h.window
    · rw [insertExact_owners v hf] at hos
      rw [insertExact_field v hf]
      exact h.owners os hos

theorem OnlyFirst.foldl {v : SegmentView} (h : OnlyFirst a g field stored v) (hag : g ≠ a)
    {is : List Insertion} (hr : ∀ i ∈ is, i.seg.Proper ∧ i.InRange)
    (his : ∀ i ∈ is, i.field = field → i.family = a) :
    OnlyFirst a g field stored (is.foldl insertExact v) := by
  induction is generalizing v with
  | nil => exact h
  | cons i is ih =>
    rw [List.forall_mem_cons] at his hr
    exact ih (h.insert hag hr.1.1 hr.1.2 his.1) hr.2 his.2

theorem OnlyFirst.few {v : SegmentView} (h : OnlyFirst a g field stored v) :
    ((v.1 a).getD field []).length ≤ 2 ^ 51 + 2 := by
  have := length_of_starts h.inOrder h.proper h.window
  omega

theorem owned_foldl {v : SegmentView} {is : List Insertion}
    (h : (v.2[field]?).isSome ∨ ∃ i ∈ is, i.field = field) :
    ((is.foldl insertExact v).2[field]?).isSome := by
  induction is generalizing v with
  | nil => simpa using h
  | cons i is ih =>
    refine ih ?_
    by_cases hf : i.field = field
    · subst hf
      obtain ⟨owners, howners, -⟩ := insertExact_owners_self v i
      exact Or.inl (by rw [howners]; rfl)
    · rw [insertExact_owners v hf]
      simpa [hf] using h

/-! ## A baseline that shows it -/

/-- Single time steps below `edge`, apart from one another. -/
def spots (edge : Int) (n : Nat) : List Segment :=
  (List.range n).map fun i : Nat =>
    { start := edge - 2 * (n - i), stop := some (edge - 2 * (n - i)), value := .null }

theorem spots_proper (edge : Int) (n : Nat) : ∀ s ∈ spots edge n, s.Proper := by
  intro s hs
  obtain ⟨i, -, rfl⟩ := List.mem_map.mp hs
  exact le_refl _

theorem covers_spots (edge : Int) {n : Nat} (h : 0 < n) : Covers (spots edge n) (edge - 2) := by
  refine ⟨_, List.mem_map.mpr ⟨n - 1, List.mem_range.mpr (by omega), rfl⟩, ?_⟩
  simp only [Interval.Contains, atMost]
  omega

theorem not_covers_take (edge : Int) {n k : Nat} (h : k < n) :
    ¬ Covers ((spots edge n).take k) (edge - 2) := by
  rintro ⟨s, hs, hc⟩
  rw [spots, ← List.map_take, List.take_range] at hs
  obtain ⟨i, hi, rfl⟩ := List.mem_map.mp hs
  rw [List.mem_range] at hi
  simp only [Interval.Contains, atMost] at hc
  omega

/-- The segments of a state in which only `g` stores anything: single time steps of one field. -/
def spotted (g : SegmentFamily) (field : String) (edge : Int) (n : Nat) :
    SegmentFamily → SegmentMap :=
  fun h => if h = g then (∅ : SegmentMap).insert field (spots edge n) else ∅

theorem kept_spotted (edge : Int) {n : Nat} (hn : 0 < n) :
    Kept g field (edge - 2) (spotted g field edge n) := by
  simp only [Kept, spotted, if_pos, Std.ExtTreeMap.getD_insert_self]
  exact ⟨spots_proper edge n, covers_spots edge hn⟩

theorem exact_spotted {edge : Int} {n : Nat} (hn : 2 * n < 2 ^ 53 - edge.natAbs) :
    Exact (spotted g field edge n) := by
  intro h f s hs
  unfold spotted at hs
  split at hs
  · by_cases hf : field = f
    · subst hf
      rw [Std.ExtTreeMap.getD_insert_self] at hs
      obtain ⟨i, hi, rfl⟩ := List.mem_map.mp hs
      rw [List.mem_range] at hi
      intro b hb
      simp only [Option.some.injEq] at hb
      omega
    · rw [Dict.getD_insert_of_ne _ _ _ hf] at hs
      simp at hs
  · simp at hs

/-- Where two families insert into one field, a state exists in which the second of them loses
a time step. -/
theorem lost_of_shared {is : List Insertion} {edge : Int} {n : Nat} (hn : 2 ^ 51 + 2 < n)
    (hshared : ∃ i ∈ is, ∃ j ∈ is, i.field = field ∧ j.field = field ∧ i.family ≠ j.family)
    (his : ∀ i ∈ is, i.seg.Proper ∧ i.InRange ∧ edge ≤ i.seg.start) :
    ∃ g, Lost g field (edge - 2) (is.foldl insertExact (spotted g field edge n, ∅)) := by
  obtain ⟨before, i, after, a, k, hsplit, honly, hfirst, hik, hka⟩ :=
    exists_first_change (fun i => if i.field = field then some i.family else none) (l := is) <| by
      obtain ⟨i, hi, j, hj, hif, hjf, hne⟩ := hshared
      exact ⟨i, hi, j, hj, i.family, j.family, by simp [hif], by simp [hjf], hne⟩
  have hif : i.field = field := by
    by_contra hf
    simp [hf] at hik
  have hne : i.family ≠ a := by
    simp only [hif, if_true, Option.some.injEq] at hik
    exact hik ▸ hka
  replace honly : ∀ j ∈ before, j.field = field → j.family = a :=
    fun j hj hjf => honly j hj _ (by simp [hjf])
  replace hfirst : ∃ j ∈ before, j.field = field := by
    obtain ⟨j, hj, hja⟩ := hfirst
    refine ⟨j, hj, ?_⟩
    by_contra hf
    simp [hf] at hja
  have hout : ∀ j ∈ is, j.seg.Proper ∧ ¬ j.seg.Contains (edge - 2) := by
    intro j hj
    refine ⟨(his j hj).1, fun hc => ?_⟩
    have := (his j hj).2.2
    have := hc.1
    omega
  refine ⟨i.family, ?_⟩
  have hstart : OnlyFirst a i.family field (spots edge n) (spotted i.family field edge n, ∅) := by
    refine ⟨by simp [spotted], ?_, ?_, ?_, by simp⟩ <;> simp [spotted, hne.symm, InOrder]
  have hbefore := hstart.foldl hne (fun j hj => by
    have := his j (by simp [hsplit, hj])
    exact ⟨this.1, this.2.1⟩) honly
  obtain ⟨owners, howners⟩ := Option.isSome_iff_exists.mp
    (owned_foldl (v := (spotted i.family field edge n, ∅)) (Or.inr hfirst))
  rw [hsplit, List.foldl_append, List.foldl_cons]
  refine Lost.foldl ?_ fun j hj => hout j (by simp [hsplit, hj])
  have hi := hout i (by simp [hsplit])
  subst hif
  rw [Lost, insertExact_self, hbefore.untouched]
  refine lost_paste (spots_proper edge n) (not_covers_take edge ?_) hi.1 hi.2
  rw [ownersOf, Dict.getD_of_some howners, hbefore.owners owners howners]
  have := hbefore.few
  omega

/-! ## Operations -/

theorem lost_of_not_apart {ops : List Operation} (hr : InRange ops) (h : ¬ FieldsApart ops) :
    ∃ g field edge n, 0 < n ∧ Exact (spotted g field edge n) ∧ Lost g field (edge - 2)
      ((ops.flatMap insertions).foldl insertExact (spotted g field edge n, ∅)) := by
  simp only [FieldsApart, not_forall] at h
  obtain ⟨u, hu, v, hv, g, k, field, hug, hvk, hne⟩ := h
  obtain ⟨i, hi, rfl, hif⟩ := writes_iff.mp hug
  obtain ⟨j, hj, rfl, hjf⟩ := writes_iff.mp hvk
  obtain ⟨n, hn⟩ : ∃ n, n = 2 ^ 51 + 3 := ⟨_, rfl⟩
  obtain ⟨g, hlost⟩ := @lost_of_shared field (ops.flatMap insertions) (-2 ^ 50) n (by omega)
    ⟨i, List.mem_flatMap.mpr ⟨u, hu, hi⟩, j, List.mem_flatMap.mpr ⟨v, hv, hj⟩, hif, hjf, hne⟩
    fun i hi => by
      obtain ⟨op, hmem, hop⟩ := List.mem_flatMap.mp hi
      have hrange := hr op hmem i hop
      exact ⟨insertions_proper hop, hrange, by have := hrange.1; omega⟩
  exact ⟨g, field, _, n, by omega, exact_spotted (by omega), hlost⟩

theorem InRange.insertions {ops : List Operation} (h : InRange ops) :
    ∀ i ∈ ops.flatMap insertions, i.InRange := by
  intro i hi
  obtain ⟨op, hop, hi⟩ := List.mem_flatMap.mp hi
  exact h op hop i hi

theorem kept_operations (g : SegmentFamily) (field : String) (edge : Int) {n : Nat} (hn : 0 < n)
    (ops : List Operation) :
    Kept g field (edge - 2)
      ((ops.flatMap insertions).foldl pasteExact (spotted g field edge n)) := by
  refine (kept_spotted edge hn).foldl fun i hi => ?_
  obtain ⟨op, -, hop⟩ := List.mem_flatMap.mp hi
  exact insertions_proper hop

end Solweig.Realtime
