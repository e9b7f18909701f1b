import Solweig.Lib.IntervalValues
import Solweig.Realtime.FoldState

/-!
# The last writer of a time step

Writes to one field of one segment family, one after another: the segments stay in normal form, and
at each time step hold the value of the last write there.
-/

namespace Solweig.Realtime

open Solweig.Lib Solweig.Lib.Interval

variable {field : String} {segmentsMap : SegmentMap} {fold : Fold}
  {stored : List Segment} {seg : Segment}

/-! ## Writes -/

/-- A range and the operation that writes it. -/
abbrev Write := Segment × Operation

/-- The writes come in the order of their server sequences. -/
def insertAll (family : SegmentFamily) (field : String) (s : SegmentMap × Fold)
    (writes : List Write) : Except ReduceError (SegmentMap × Fold) :=
  writes.foldlM (fun s w => insertSegment family s.1 s.2 field w.1 w.2) s

/-- The value of the last write that covers the time step, else the stored one. -/
def lastWrite (stored : List Segment) (writes : List Write) (t : Int) : Option Json :=
  ((writes.reverse.find? fun w => w.1.Contains t).map fun w => w.1.value).or (valueAt stored t)

/-- Among the time steps that are floats; what is left of a segment may start right behind them. -/
def Within (seg : Segment) : Prop :=
  (-2 ^ 53 ≤ seg.start ∧ seg.start ≤ 2 ^ 53 + 1) ∧ ∀ b ∈ seg.stop, b ≤ 2 ^ 53

instance (seg : Segment) : Decidable (Within seg) := inferInstanceAs (Decidable (_ ∧ _))

theorem Within.sharp (h : Within seg) (hproper : seg.Proper) : Sharp seg.stop := by
  intro b hb
  have hle := h.2 b hb
  have hstart := h.1.1
  simp only [Proper, hb, atMost] at hproper
  apply doubleOf_of_le
  omega

theorem within_paste (hs : ∀ s ∈ stored, Within s) (hproper : seg.Proper) (hseg : Within seg) :
    ∀ s ∈ paste Json.pyEq stored seg, Within s := by
  refine paste_forall (fun m x hm hx _ => ⟨hm.1, hx.2⟩) hs hseg fun k hk j hj => ?_
  have hstart := hseg.1
  obtain ⟨hlt, rfl⟩ | ⟨b, hb, hle, rfl⟩ := mem_cutOut hj
  · refine ⟨(hs k hk).1, fun b hb => ?_⟩
    cases hb
    omega
  · have hstop := hseg.2 b hb
    refine ⟨?_, (hs k hk).2⟩
    simp only [Proper, hb, atMost] at hproper
    dsimp only
    omega

/-! ## One write -/

/-- The owners of the field are as many as its segments. -/
def InStep (field : String) (s : SegmentMap × Fold) : Prop :=
  ∀ owners, s.2.segmentOwners[field]? = some owners → owners.length = (s.1.getD field []).length

theorem InStep.length (h : InStep field (segmentsMap, fold)) :
    (fold.segmentOwners.getD field ((segmentsMap.getD field []).map fun _ => none)).length =
      (segmentsMap.getD field []).length := by
  cases howners : fold.segmentOwners[field]? with
  | none => simp [Dict.getD_of_none howners]
  | some owners =>
    rw [Dict.getD_of_some howners]
    exact h owners howners

theorem insertSegment_paste (family : SegmentFamily) (op : Operation)
    (h : InStep field (segmentsMap, fold))
    (hs : ∀ s ∈ segmentsMap.getD field [], Sharp s.stop) (hseg : Sharp seg.stop) :
    ∃ s, insertSegment family segmentsMap fold field seg op = .ok s ∧ InStep field s ∧
      s.1.getD field [] = paste Json.pyEq (segmentsMap.getD field []) seg := by
  have hfst : ((segmentsMap.getD field []).zip (fold.segmentOwners.getD field
      ((segmentsMap.getD field []).map fun _ => none))).map Prod.fst =
      segmentsMap.getD field [] := List.map_fst_zip (Nat.le_of_eq h.length.symm)
  unfold insertSegment
  dsimp only
  rw [overlapFlags_sharp hseg (by rwa [hfst]), Except.map]
  refine ⟨_, rfl, fun owners howners => ?_, ?_⟩
  · dsimp only at howners ⊢
    rw [Std.ExtTreeMap.getElem?_insert_self, Option.some_inj] at howners
    simp [← howners]
  · simp only [Std.ExtTreeMap.getD_insert_self, placeOwned_fst, hfst, placeSegments_flags]

/-! ## Several writes -/

theorem lastWrite_cons (stored : List Segment) (w : Write) (writes : List Write) (t : Int) :
    lastWrite stored (w :: writes) t =
      ((writes.reverse.find? fun w => w.1.Contains t).map fun w => w.1.value).or
        (if w.1.Contains t then some w.1.value else valueAt stored t) := by
  unfold lastWrite
  rw [List.reverse_cons, List.find?_append, Option.map_or, Option.or_assoc]
  by_cases hw : w.1.Contains t <;> simp [hw]

/-- The same value up to Python equality, or none on both sides. -/
abbrev SameValue (a b : Option Json) : Prop := Option.Rel (fun u v => Json.pyEq u v = true) a b

theorem sameValue_refl (a : Option Json) : SameValue a a := by
  cases a with
  | none => exact Option.Rel.none
  | some u => exact Option.Rel.some (Json.pyEq_refl u)

theorem SameValue.symm {a b : Option Json} (h : SameValue a b) : SameValue b a := by
  cases h with
  | none => exact Option.Rel.none
  | some h => exact Option.Rel.some (Json.pyEq_symm _ _ h)

theorem SameValue.trans {a b c : Option Json} (h : SameValue a b) (h' : SameValue b c) :
    SameValue a c := by
  cases h with
  | none => exact h'
  | some h =>
    cases h' with
    | some h' => exact Option.Rel.some (Json.pyEq_trans _ _ _ h h')

theorem SameValue.or (a : Option Json) {b c : Option Json} (h : SameValue b c) :
    SameValue (a.or b) (a.or c) := by
  cases a with
  | none => simpa using h
  | some u => exact sameValue_refl _

theorem sameValue_iff {a b : Option Json} : SameValue a b ↔
    ∀ v, (∃ u, a = some u ∧ Json.pyEq u v = true) ↔ ∃ u, b = some u ∧ Json.pyEq u v = true := by
  constructor
  · intro h v
    cases h with
    | none => simp
    | @some u w h =>
      simp only [Option.some.injEq, exists_eq_left']
      exact ⟨Json.pyEq_trans _ _ _ (Json.pyEq_symm _ _ h), Json.pyEq_trans _ _ _ h⟩
  · intro h
    cases a with
    | none =>
      cases b with
      | none => exact Option.Rel.none
      | some w =>
        obtain ⟨u, hu, -⟩ := (h w).mpr ⟨w, rfl, Json.pyEq_refl w⟩
        cases hu
    | some u =>
      obtain ⟨w, rfl, hw⟩ := (h u).mp ⟨u, rfl, Json.pyEq_refl u⟩
      exact Option.Rel.some (Json.pyEq_symm _ _ hw)

theorem valueAt_paste (ho : InOrder stored) (hs : ∀ s ∈ stored, s.Proper) (hseg : seg.Proper)
    (t : Int) : SameValue (valueAt (paste Json.pyEq stored seg) t)
      (if seg.Contains t then some seg.value else valueAt stored t) := by
  rw [sameValue_iff]
  intro v
  rw [← holds_iff_valueAt (paste_inOrder ho hs hseg), holds_paste Json.pyEq_equivalence hs hseg]
  by_cases ht : seg.Contains t
  · simp [ht]
  · simp [ht, holds_iff_valueAt ho]

/-- What the stored segments of a field are before a write and after it. -/
structure Tidy (stored : List Segment) : Prop where
  normal : Normal Json.pyEq stored
  within : ∀ s ∈ stored, Within s

theorem Tidy.insert (family : SegmentFamily) (op : Operation)
    (h : Tidy (segmentsMap.getD field [])) (hstep : InStep field (segmentsMap, fold))
    (hproper : seg.Proper) (hseg : Within seg) :
    ∃ s, insertSegment family segmentsMap fold field seg op = .ok s ∧ InStep field s ∧
      Tidy (s.1.getD field []) ∧
      s.1.getD field [] = paste Json.pyEq (segmentsMap.getD field []) seg := by
  obtain ⟨s, hs, hstep', hpaste⟩ := insertSegment_paste family op hstep
    (fun s hs => (h.within s hs).sharp (h.normal.proper s hs)) (hseg.sharp hproper)
  refine ⟨s, hs, hstep', ?_, hpaste⟩
  rw [hpaste]
  exact ⟨paste_normal Json.pyEq_equivalence h.normal.inOrder h.normal.proper hproper,
    within_paste h.within hproper hseg⟩

theorem insertAll_spec (family : SegmentFamily) {s : SegmentMap × Fold} (h : Tidy (s.1.getD field []))
    (hstep : InStep field s) {writes : List Write}
    (hwrites : ∀ w ∈ writes, w.1.Proper ∧ Within w.1) :
    ∃ r, insertAll family field s writes = .ok r ∧ Tidy (r.1.getD field []) ∧
      ∀ t, SameValue (valueAt (r.1.getD field []) t) (lastWrite (s.1.getD field []) writes t) := by
  induction writes generalizing s with
  | nil => exact ⟨s, rfl, h, fun t => sameValue_refl _⟩
  | cons w writes ih =>
    obtain ⟨⟨hproper, hwithin⟩, hrest⟩ := List.forall_mem_cons.mp hwrites
    obtain ⟨next, hnext, hstep', htidy, hpaste⟩ :=
      h.insert family w.2 hstep hproper hwithin
    obtain ⟨r, hr, htidy', hvalue⟩ := ih htidy hstep' hrest
    refine ⟨r, ?_, htidy', fun t => (hvalue t).trans ?_⟩
    · unfold insertAll at hr ⊢
      rw [List.foldlM_cons, hnext]
      exact hr
    · rw [lastWrite_cons, hpaste]
      exact SameValue.or _ (valueAt_paste h.normal.inOrder h.normal.proper hproper t)

/-! ## The segments as a function of time -/

/-- Any writes are taken, and leave the normal form of the function that the last writes define. -/
theorem segments_last_writer (family : SegmentFamily) {field : String}
    {segmentsMap : SegmentMap} {fold : Fold} {writes : List Write} (htidy : Tidy (segmentsMap.getD field []))
    (hstep : InStep field (segmentsMap, fold))
    (hwrites : ∀ w ∈ writes, w.1.Proper ∧ Within w.1) :
    ∃ r, insertAll family field (segmentsMap, fold) writes = .ok r ∧
      Normal Json.pyEq (r.1.getD field []) ∧
      (∀ t, SameValue (valueAt (r.1.getD field []) t)
        (lastWrite (segmentsMap.getD field []) writes t)) ∧
      ∀ fold' writes' r', InStep field (segmentsMap, fold') →
        (∀ w ∈ writes', w.1.Proper ∧ Within w.1) →
        insertAll family field (segmentsMap, fold') writes' = .ok r' →
        (∀ t, SameValue (lastWrite (segmentsMap.getD field []) writes t)
          (lastWrite (segmentsMap.getD field []) writes' t)) →
        List.Forall₂ (Alike Json.pyEq) (r.1.getD field []) (r'.1.getD field []) := by
  obtain ⟨r, hr, hfinal, hvalue⟩ := insertAll_spec family htidy hstep hwrites
  refine ⟨r, hr, hfinal.normal, hvalue, fun fold' writes' r' hstep' hwrites' hr' hsame => ?_⟩
  obtain ⟨s, hs, hfinal', hvalue'⟩ := insertAll_spec family htidy hstep' hwrites'
  obtain rfl := Except.ok.inj (hs.symm.trans hr')
  refine hfinal.normal.unique Json.pyEq_equivalence hfinal'.normal fun t v => ?_
  rw [holds_iff_valueAt hfinal.normal.inOrder, holds_iff_valueAt hfinal'.normal.inOrder]
  exact sameValue_iff.mp (((hvalue t).trans (hsame t)).trans (hvalue' t).symm) v

/-- A whole series with a range written into it. -/
theorem series_range_written :
    ∃ op r, insertAll .meteorologicalForcing "Ta" (Dict.ofEntries [("Ta", [⟨0, none, .int 1⟩])], {})
        [(⟨2, some 4, .int 7⟩, op)] = .ok r ∧
      SameValue (valueAt (r.1.getD "Ta" []) 3) (some (.int 7)) := by
  let op : Operation := ⟨"o1", "ada", .segment .meteorologicalForcing, none, .set, .null, 1, 1⟩
  have hstored : (Dict.ofEntries [("Ta", [(⟨0, none, .int 1⟩ : Segment)])]).getD "Ta" [] =
      [⟨0, none, .int 1⟩] := by decide
  have htidy : Tidy [(⟨0, none, .int 1⟩ : Segment)] :=
    ⟨⟨by simp [Proper, atMost], by simp [InOrder], List.isChain_singleton _⟩, by decide⟩
  have hstep : InStep "Ta" (Dict.ofEntries [("Ta", [(⟨0, none, .int 1⟩ : Segment)])], {}) :=
    fun owners howners => by simp at howners
  have hwrites : ∀ w ∈ [((⟨2, some 4, .int 7⟩ : Segment), op)], w.1.Proper ∧ Within w.1 := by
    simp [Proper, atMost, Within]
  obtain ⟨r, hr, -, hvalue, -⟩ :=
    segments_last_writer .meteorologicalForcing (hstored ▸ htidy) hstep hwrites
  refine ⟨op, r, hr, (hvalue 3).trans ?_⟩
  rw [hstored]
  exact sameValue_refl _

end Solweig.Realtime
