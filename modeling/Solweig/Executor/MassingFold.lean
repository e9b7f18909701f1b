import Solweig.Executor.Supersession
import Solweig.Spatial.Massing

/-!
# The massing fold

The fold keeps one edit of each building, from a first state to its last. Where footprints stay
apart, its surface is the one of all edits of the session in order, but for the cells of states in
between that the fold does not reset.
-/

namespace Solweig.Executor

open Solweig.Lib Solweig.Spatial

/-! ## The entries of the fold -/

section Entries

variable {live : String → Option BuildingSpec} {fold : MassingFold BuildingSpec}
  {edits : List (MassingEdit BuildingSpec)} {edit : MassingEdit BuildingSpec} {id : String}

/-- No state before. -/
abbrev unknown : String → Option BuildingSpec := fun _ => none

/-- The edits of one building. -/
def editsOf (edits : List (MassingEdit BuildingSpec)) (id : String) :
    List (MassingEdit BuildingSpec) :=
  edits.filter fun edit => edit.buildingId = id

/-- What a building's entry resets: the state before its first edit, and where there was none, the
state that its first deletion takes away. -/
def anchor (edits : List (MassingEdit BuildingSpec)) (id : String) : Option BuildingSpec :=
  ((editsOf edits id).head?.bind (·.before)).or
    (((editsOf edits id).find? (·.after.isNone)).bind (·.before))

theorem mem_editsOf : edit ∈ editsOf edits id ↔ edit ∈ edits ∧ edit.buildingId = id := by
  simp [editsOf]

theorem editsOf_concat_self :
    editsOf (edits ++ [edit]) edit.buildingId = editsOf edits edit.buildingId ++ [edit] := by
  simp [editsOf]

theorem editsOf_concat_of_ne (h : edit.buildingId ≠ id) :
    editsOf (edits ++ [edit]) id = editsOf edits id := by
  simp [editsOf, h]

theorem editsOf_eq_nil_iff : editsOf edits id = [] ↔ id ∉ edits.map (·.buildingId) := by
  simp [editsOf, List.filter_eq_nil_iff]

theorem anchor_first (h : edit.buildingId ∉ edits.map (·.buildingId)) :
    anchor (edits ++ [edit]) edit.buildingId = edit.before := by
  unfold anchor
  rw [editsOf_concat_self, editsOf_eq_nil_iff.mpr h]
  rcases hbefore : edit.before with _ | spec
  · rcases hafter : edit.after with _ | spec
    · exact absurd ⟨hbefore, hafter⟩ edit.present
    · simp [hbefore, hafter]
  · simp [hbefore]

theorem before_of_deletion (h : edit.after.isNone = true) : ∃ spec, edit.before = some spec := by
  rcases hbefore : edit.before with _ | spec
  · exact absurd ⟨hbefore, Option.isNone_iff_eq_none.mp h⟩ edit.present
  · exact ⟨spec, rfl⟩

theorem anchor_later (h : edit.buildingId ∈ edits.map (·.buildingId)) :
    anchor (edits ++ [edit]) edit.buildingId =
      (anchor edits edit.buildingId).or (if edit.after.isNone then edit.before else none) := by
  have hne := mt editsOf_eq_nil_iff.mp (not_not.mpr h)
  unfold anchor
  rw [editsOf_concat_self]
  generalize editsOf edits edit.buildingId = own at hne
  rcases own with _ | ⟨first, rest⟩
  · exact absurd rfl hne
  rw [List.cons_append, List.head?_cons, List.head?_cons, ← List.cons_append, List.find?_append,
    Option.or_assoc]
  congr 1
  generalize hfound : (first :: rest).find? _ = found
  rcases found with _ | deletion
  · by_cases hdeletes : edit.after.isNone = true
    · simp [hdeletes]
    · simp [hdeletes]
  · have hdeletes := List.find?_some hfound
    obtain ⟨spec, hspec⟩ := before_of_deletion hdeletes
    simp [hspec]

/-- What the fold holds after some edits. -/
structure Stands (edits : List (MassingEdit BuildingSpec)) (fold : MassingFold BuildingSpec) :
    Prop where
  nodup : (fold.map Prod.fst).Nodup
  named : ∀ entry ∈ fold, entry.2.buildingId = entry.1
  keys : ∀ id, id ∈ fold.map Prod.fst ↔ id ∈ edits.map (·.buildingId)
  before : ∀ entry ∈ fold, entry.2.before = anchor edits entry.1
  after : ∀ entry ∈ fold, entry.2.after = stateAfter unknown edits entry.1

theorem Stands.start : Stands [] [] where
  nodup := List.nodup_nil
  named := by simp
  keys := by simp
  before := by simp
  after := by simp

theorem mem_specsOf {spec : BuildingSpec} :
    spec ∈ specsOf edit ↔ edit.before = some spec ∨ edit.after = some spec := by
  unfold specsOf
  rw [List.mem_append, Option.mem_toList, Option.mem_toList]

theorem foldMassing_eq (fold : MassingFold BuildingSpec) (edit : MassingEdit BuildingSpec) :
    ∃ entry : MassingEdit BuildingSpec, entry.buildingId = edit.buildingId ∧
      foldMassing fold edit = Ordered.assign fold (edit.buildingId, entry) ∧
      entry.after = edit.after ∧
      (edit.buildingId ∉ fold.map Prod.fst ∧ entry.before = edit.before ∨
        ∃ current, (edit.buildingId, current) ∈ fold ∧
          entry.before = current.before.or (if edit.after.isNone then edit.before else none)) := by
  unfold foldMassing
  rcases hlookup : fold.lookup edit.buildingId with _ | current
  · refine ⟨edit, rfl, rfl, rfl, Or.inl ⟨fun hmem => ?_, rfl⟩⟩
    obtain ⟨entry, hentry, hkey⟩ := List.mem_map.mp hmem
    have habsent := List.lookup_eq_none_iff.mp hlookup entry hentry
    simp [hkey] at habsent
  · have hmem : (edit.buildingId, current) ∈ fold := by
      obtain ⟨before, after, hsplit, -⟩ := List.lookup_eq_some_iff.mp hlookup
      rw [hsplit]
      exact List.mem_append_right _ (List.mem_cons_self ..)
    dsimp only
    split
    · next h =>
      refine ⟨⟨edit.buildingId, edit.before, none, fun hnone => edit.present ⟨hnone.1, h.1⟩⟩, rfl,
        rfl, h.1.symm, Or.inr ⟨current, hmem, ?_⟩⟩
      simp [h.1, h.2]
    · next h =>
      refine ⟨⟨edit.buildingId, current.before, edit.after, fun hnone => h hnone.symm⟩, rfl, rfl,
        rfl, Or.inr ⟨current, hmem, ?_⟩⟩
      rcases hbefore : current.before with _ | spec
      · have hnot : edit.after ≠ none := fun hafter => h ⟨hafter, hbefore⟩
        simp [hnot]
      · rfl

theorem stateAfter_untouched (h : id ∉ edits.map (·.buildingId)) :
    stateAfter live edits id = live id := by
  induction edits generalizing live with
  | nil => rfl
  | cons edit edits ih =>
    rw [List.map_cons, List.mem_cons, not_or] at h
    exact (ih h.2).trans (Function.update_of_ne h.1 _ _)

theorem stateAfter_concat : stateAfter live (edits ++ [edit]) =
    Function.update (stateAfter live edits) edit.buildingId edit.after := stateAfter_append

theorem exists_of_stateAfter {spec : BuildingSpec} (h : stateAfter unknown edits id = some spec) :
    ∃ edit ∈ edits, edit.buildingId = id ∧ edit.after = some spec := by
  induction edits using List.reverseRecOn with
  | nil => cases h
  | append_singleton edits edit ih =>
    rw [stateAfter_concat] at h
    by_cases hid : id = edit.buildingId
    · subst hid
      rw [Function.update_self] at h
      exact ⟨edit, by simp, rfl, h⟩
    · rw [Function.update_of_ne hid] at h
      obtain ⟨other, hother, hrest⟩ := ih h
      exact ⟨other, List.mem_append_left _ hother, hrest⟩

theorem Stands.step (h : Stands edits fold) :
    Stands (edits ++ [edit]) (foldMassing fold edit) := by
  obtain ⟨entry, hid, hfold, hafter, hcases⟩ := foldMassing_eq fold edit
  have hmem (other : String × MassingEdit BuildingSpec) : other ∈ foldMassing fold edit ↔
      other = (edit.buildingId, entry) ∨ other ∈ fold ∧ other.1 ≠ edit.buildingId := by
    rw [hfold]
    exact Ordered.mem_assign_iff
  constructor
  · rw [hfold]
    exact Ordered.nodup_assign h.nodup _
  · intro other hother
    rcases (hmem other).mp hother with rfl | ⟨hold, -⟩
    · exact hid
    · exact h.named other hold
  · intro id
    rw [List.map_append, List.mem_append, ← h.keys, List.map_singleton, List.mem_singleton, hfold,
      Ordered.keys_assign]
    split
    · next hold =>
      refine ⟨Or.inl, ?_⟩
      rintro (hin | rfl)
      · exact hin
      · exact hold
    · rw [List.mem_append, List.mem_singleton]
  · intro other hother
    rcases (hmem other).mp hother with rfl | ⟨hold, hne⟩
    · rcases hcases with ⟨hnew, heq⟩ | ⟨current, hcurrent, heq⟩
      · rw [heq, anchor_first (mt (h.keys _).mpr hnew)]
      · have htouched := (h.keys _).mp (List.mem_map_of_mem hcurrent)
        rw [heq, anchor_later htouched, h.before _ hcurrent]
    · rw [h.before other hold]
      unfold anchor
      rw [editsOf_concat_of_ne (Ne.symm hne)]
  · intro other hother
    rw [stateAfter_concat]
    rcases (hmem other).mp hother with rfl | ⟨hold, hne⟩
    · rw [Function.update_self, hafter]
    · rw [Function.update_of_ne hne, h.after other hold]

theorem stands_fold (edits : List (MassingEdit BuildingSpec)) :
    Stands edits (edits.foldl foldMassing []) := by
  induction edits using List.reverseRecOn with
  | nil => exact Stands.start
  | append_singleton edits edit ih =>
    rw [List.foldl_append]
    exact ih.step

theorem anchor_before {spec : BuildingSpec} (h : anchor edits id = some spec) :
    ∃ edit ∈ edits, edit.buildingId = id ∧ edit.before = some spec := by
  unfold anchor at h
  rcases Option.or_eq_some_iff.mp h with hfirst | ⟨-, hdeletion⟩
  · obtain ⟨edit, hhead, hbefore⟩ := Option.bind_eq_some_iff.mp hfirst
    obtain ⟨hedit, hid⟩ := mem_editsOf.mp (List.mem_of_head? hhead)
    exact ⟨edit, hedit, hid, hbefore⟩
  · obtain ⟨edit, hfound, hbefore⟩ := Option.bind_eq_some_iff.mp hdeletion
    obtain ⟨hedit, hid⟩ := mem_editsOf.mp (List.mem_of_find?_eq_some hfound)
    exact ⟨edit, hedit, hid, hbefore⟩

/-- Where edits follow the first states, the anchor is the first state of a building that had
one. -/
theorem anchor_of_follows {state : String → Option BuildingSpec} (h : Follows state edits)
    (htouched : id ∈ edits.map (·.buildingId)) :
    anchor edits id = state id ∨ state id = none := by
  induction edits generalizing state with
  | nil => simp at htouched
  | cons edit edits ih =>
    obtain ⟨⟨hbefore, -⟩, hrest⟩ := h
    by_cases hid : edit.buildingId = id
    · subst hid
      rcases hstate : state edit.buildingId with _ | spec
      · exact Or.inr rfl
      · left
        rw [hstate] at hbefore
        simp [anchor, editsOf, hbefore]
    · rw [List.map_cons, List.mem_cons, or_iff_right (Ne.symm hid)] at htouched
      have hlater := ih hrest htouched
      rw [Function.update_of_ne (Ne.symm hid)] at hlater
      have hsame : anchor (edit :: edits) id = anchor edits id := by
        simp [anchor, editsOf, hid]
      rwa [hsame]

theorem stateAfter_of_touched {state : String → Option BuildingSpec}
    (h : id ∈ edits.map (·.buildingId)) : stateAfter state edits id = stateAfter live edits id := by
  induction edits using List.reverseRecOn with
  | nil => simp at h
  | append_singleton edits edit ih =>
    rw [stateAfter_concat, stateAfter_concat]
    by_cases hid : id = edit.buildingId
    · subst hid
      rw [Function.update_self, Function.update_self]
    · rw [Function.update_of_ne hid, Function.update_of_ne hid]
      rw [List.map_append, List.mem_append, List.map_singleton, List.mem_singleton,
        or_iff_left hid] at h
      exact ih h

end Entries

/-! ## One cell -/

section Cell

variable {V : Type} {ops : Elevations V} {covered : BuildingSpec → Bool} {ground base : V}
  {fold : MassingFold BuildingSpec} {edits : List (MassingEdit BuildingSpec)}
  {edit : MassingEdit BuildingSpec} {id : String}

/-- A footprint of the edit holds the cell. -/
def Touches (covered : BuildingSpec → Bool) (edit : MassingEdit BuildingSpec) : Prop :=
  ∃ spec ∈ specsOf edit, covered spec = true

instance : Decidable (Touches covered edit) :=
  inferInstanceAs (Decidable (∃ spec ∈ specsOf edit, covered spec = true))

/-- An edit of the building resets the cell. -/
def Resets (covered : BuildingSpec → Bool) (edits : List (MassingEdit BuildingSpec))
    (id : String) : Prop :=
  ∃ edit ∈ editsOf edits id, edit.before.any covered = true

instance : Decidable (Resets covered edits id) :=
  inferInstanceAs (Decidable (∃ edit ∈ editsOf edits id, edit.before.any covered = true))

theorem paintCell_untouched (h : ¬ Touches covered edit) (value : V) :
    paintCell ops covered ground value edit = value := by
  have hnot (spec : BuildingSpec) (hspec : edit.before = some spec ∨ edit.after = some spec) :
      covered spec = false := by
    rw [← Bool.not_eq_true]
    exact fun hcovered => h ⟨spec, mem_specsOf.mpr hspec, hcovered⟩
  unfold paintCell paintStates
  rcases hbefore : edit.before with _ | before <;> rcases hafter : edit.after with _ | after
  all_goals simp_all

theorem foldl_untouched (h : ∀ edit ∈ edits, ¬ Touches covered edit) (value : V) :
    edits.foldl (paintCell ops covered ground) value = value := by
  induction edits with
  | nil => rfl
  | cons edit edits ih =>
    rw [List.forall_mem_cons] at h
    rw [List.foldl_cons, paintCell_untouched h.1, ih h.2]

/-- Only the edits of one building touch the cell. -/
def Alone (covered : BuildingSpec → Bool) (edits : List (MassingEdit BuildingSpec))
    (id : String) : Prop :=
  ∀ edit ∈ edits, edit.buildingId ≠ id → ¬ Touches covered edit

theorem paintStates_away {state : Option BuildingSpec} (h : state.any covered = false) (value : V) :
    paintStates ops covered ground none state value = value := by
  unfold paintStates
  rcases state with _ | spec
  · rfl
  · rw [Option.any_some] at h
    simp [h]

theorem paintCell_eq (value : V) : paintCell ops covered ground value edit =
    paintStates ops covered ground none edit.after
      (if edit.before.any covered then ground else value) := rfl

/-- After edits that the layer accepts, the last state of the building stands on the base, or on
the ground when any of them has reset the cell. -/
theorem foldl_paintCell (haccepted : Accepted unknown edits) (halone : Alone covered edits id) :
    edits.foldl (paintCell ops covered ground) base =
      paintStates ops covered ground none (stateAfter unknown edits id)
        (if Resets covered edits id then ground else base) := by
  induction edits using List.reverseRecOn with
  | nil => simp [stateAfter, paintStates, Resets, editsOf]
  | append_singleton edits edit ih =>
    obtain ⟨hfirst, ⟨-, hlive⟩, -⟩ := accepted_append.mp haccepted
    have hvalue := ih hfirst fun other hother => halone other (List.mem_append_left _ hother)
    rw [List.foldl_append, List.foldl_cons, List.foldl_nil, stateAfter_concat]
    by_cases hid : edit.buildingId = id
    · subst hid
      rw [Function.update_self, paintCell_eq]
      have hresets : Resets covered (edits ++ [edit]) edit.buildingId ↔
          Resets covered edits edit.buildingId ∨ edit.before.any covered = true := by
        simp [Resets, editsOf_concat_self, or_and_right, exists_or]
      congr 1
      by_cases hcovers : edit.before.any covered = true
      · rw [if_pos hcovers, if_pos (hresets.mpr (Or.inr hcovers))]
      · -- what stood there before the edit is not on the cell
        rw [if_neg hcovers, hvalue]
        have haway : (stateAfter unknown edits edit.buildingId).any covered = false := by
          rcases hlive with hnone | hbefore
          · simp [hnone]
          · rw [← hbefore]
            simpa using hcovers
        rw [paintStates_away haway]
        exact if_congr (hresets.trans (or_iff_left hcovers)).symm rfl rfl
    · have hresets : Resets covered (edits ++ [edit]) id ↔ Resets covered edits id := by
        simp [Resets, editsOf_concat_of_ne hid]
      rw [paintCell_untouched (halone edit (by simp) hid), Function.update_of_ne (Ne.symm hid),
        hvalue]
      simp only [hresets]

theorem Stands.foldl_paintCell (hstands : Stands edits fold) (halone : Alone covered edits id) :
    (fold.map (·.2)).foldl (paintCell ops covered ground) base =
      paintStates ops covered ground none (stateAfter unknown edits id)
        (if (anchor edits id).any covered then ground else base) := by
  have hothers (entry : String × MassingEdit BuildingSpec) (hentry : entry ∈ fold)
      (hne : entry.1 ≠ id) : ¬ Touches covered entry.2 := by
    rintro ⟨spec, hspec, hcovered⟩
    have htouched := (hstands.keys _).mp (List.mem_map_of_mem hentry)
    rcases mem_specsOf.mp hspec with hbefore | hafter
    · rw [hstands.before entry hentry] at hbefore
      obtain ⟨edit, hedit, hid, heq⟩ := anchor_before hbefore
      exact halone edit hedit (hid ▸ hne) ⟨spec, mem_specsOf.mpr (Or.inl heq), hcovered⟩
    · rw [hstands.after entry hentry] at hafter
      obtain ⟨edit, hedit, hid, heq⟩ := exists_of_stateAfter hafter
      exact halone edit hedit (hid ▸ hne) ⟨spec, mem_specsOf.mpr (Or.inr heq), hcovered⟩
  by_cases htouched : id ∈ edits.map (·.buildingId)
  · obtain ⟨entry, hentry, hkey⟩ := List.mem_map.mp ((hstands.keys id).mpr htouched)
    obtain ⟨first, last, hsplit⟩ := List.append_of_mem hentry
    have hnodup := hstands.nodup
    rw [hsplit, List.map_append, List.map_cons, List.nodup_append, List.nodup_cons] at hnodup
    have huntouched (part : List (String × MassingEdit BuildingSpec))
        (hpart : ∀ other ∈ part, other ∈ fold ∧ other.1 ≠ entry.1) :
        ∀ other ∈ part.map (·.2), ¬ Touches covered other := by
      intro other hother
      obtain ⟨pair, hpair, rfl⟩ := List.mem_map.mp hother
      exact hothers pair (hpart pair hpair).1 (by rw [← hkey]; exact (hpart pair hpair).2)
    rw [hsplit, List.map_append, List.map_cons, List.foldl_append, List.foldl_cons,
      foldl_untouched (huntouched first fun other hother => ?_),
      foldl_untouched (huntouched last fun other hother => ?_), paintCell_eq,
      hstands.before entry hentry, hstands.after entry hentry, hkey]
    · refine ⟨by rw [hsplit]; simp [hother], fun heq => ?_⟩
      exact hnodup.2.1.1 (heq ▸ List.mem_map_of_mem hother)
    · refine ⟨by rw [hsplit]; simp [hother], fun heq => ?_⟩
      exact hnodup.2.2 _ (List.mem_map_of_mem hother) _ (List.mem_cons_self ..) heq
  · have hnone : anchor edits id = none := by
      unfold anchor
      rw [editsOf_eq_nil_iff.mpr htouched]
      rfl
    rw [stateAfter_untouched htouched, hnone]
    refine foldl_untouched (fun other hother => ?_) base
    obtain ⟨entry, hentry, rfl⟩ := List.mem_map.mp hother
    refine hothers entry hentry ?_
    rintro rfl
    exact htouched ((hstands.keys _).mp (List.mem_map_of_mem hentry))

/-- The base is the ground, or is hidden as the ground is. -/
def Hidden (ops : Elevations V) (covered : BuildingSpec → Bool) (ground base : V)
    (last : Option BuildingSpec) : Prop :=
  base = ground ∨ ∃ spec, last = some spec ∧ covered spec = true ∧
    ops.fmax base (ops.above ground spec.heightM) =
      ops.fmax ground (ops.above ground spec.heightM)

theorem hidden_iff {last : Option BuildingSpec} :
    Hidden ops covered ground base last ↔
      paintStates ops covered ground none last base =
        paintStates ops covered ground none last ground := by
  unfold Hidden paintStates
  rcases last with _ | spec
  · simp
  · by_cases hcovers : covered spec = true
    · simp only [Option.any_none, Bool.false_eq_true, if_false, hcovers, if_true,
        Option.some.injEq, exists_eq_left', true_and]
      refine or_iff_right_of_imp ?_
      rintro rfl
      rfl
    · simp [hcovers]

theorem Stands.foldl_eq_iff (hstands : Stands edits fold) (haccepted : Accepted unknown edits)
    (halone : Alone covered edits id) :
    (fold.map (·.2)).foldl (paintCell ops covered ground) base =
        edits.foldl (paintCell ops covered ground) base ↔
      (Resets covered edits id → (anchor edits id).any covered = true ∨
        Hidden ops covered ground base (stateAfter unknown edits id)) := by
  rw [hstands.foldl_paintCell halone, Executor.foldl_paintCell haccepted halone, hidden_iff]
  by_cases hanchor : (anchor edits id).any covered = true
  · obtain ⟨spec, hspec, hcovers⟩ := (Option.any_eq_true _ _).mp hanchor
    obtain ⟨edit, hedit, hid, hbefore⟩ := anchor_before hspec
    have hresets : Resets covered edits id :=
      ⟨edit, mem_editsOf.mpr ⟨hedit, hid⟩, by simp [hbefore, hcovers]⟩
    simp [hanchor, hresets]
  · by_cases hresets : Resets covered edits id
    · simp [hanchor, hresets]
    · simp [hanchor, hresets]

end Cell

/-! ## A session -/

section Session

variable {V : Type} {ops : Elevations V} {base dem : Cells V} {grid : RasterGrid}
  {baseline : String → Option BuildingSpec} {batches : List (List (MassingEdit BuildingSpec))}
  {edits : List (MassingEdit BuildingSpec)}

/-- `_staged_massing_fold`, batch after batch -/
def stagedMassingFold (batches : List (List (MassingEdit BuildingSpec))) :
    MassingFold BuildingSpec :=
  batches.foldl (fun fold batch => batch.foldl foldMassing fold) []

theorem stagedMassingFold_eq (batches : List (List (MassingEdit BuildingSpec))) :
    stagedMassingFold batches = batches.flatten.foldl foldMassing [] := by
  unfold stagedMassingFold
  rw [List.foldl_flatten]

/-- The footprints of two buildings share no cell, and what stands on a footprint at first is the
building's own. -/
structure KeepApart (base dem : Cells V) (grid : RasterGrid)
    (baseline : String → Option BuildingSpec) (edits : List (MassingEdit BuildingSpec)) : Prop where
  others : ∀ edit ∈ edits, ∀ other ∈ edits, edit.buildingId ≠ other.buildingId →
    ∀ i < grid.rows, ∀ j < grid.cols,
      ¬ (Touches (covers grid (i, j)) edit ∧ Touches (covers grid (i, j)) other)
  owned : ∀ edit ∈ edits, ∀ i < grid.rows, ∀ j < grid.cols, Touches (covers grid (i, j)) edit →
    base i j = dem i j ∨ (baseline edit.buildingId).any (covers grid (i, j)) = true

theorem KeepApart.alone (h : KeepApart base dem grid baseline edits) {i j : Nat}
    (hi : i < grid.rows) (hj : j < grid.cols) {edit : MassingEdit BuildingSpec}
    (hedit : edit ∈ edits) (htouches : Touches (covers grid (i, j)) edit) :
    Alone (covers grid (i, j)) edits edit.buildingId :=
  fun other hother hne hboth => h.others other hother edit hedit hne i hi j hj ⟨hboth, htouches⟩

theorem KeepApart.exists_alone (h : KeepApart base dem grid baseline edits) {i j : Nat}
    (hi : i < grid.rows) (hj : j < grid.cols) : ∃ id, Alone (covers grid (i, j)) edits id := by
  by_cases htouched : ∃ edit ∈ edits, Touches (covers grid (i, j)) edit
  · obtain ⟨edit, hedit, htouches⟩ := htouched
    exact ⟨edit.buildingId, h.alone hi hj hedit htouches⟩
  · exact ⟨"", fun edit hedit _ htouches => htouched ⟨edit, hedit, htouches⟩⟩

/-- The fold of every prefix of the session was rasterised. -/
def Published (ops : Elevations V) (base dem : Cells V) (grid : RasterGrid)
    (batches : List (List (MassingEdit BuildingSpec))) : Prop :=
  ∀ n ≤ batches.length, ∃ result, writeScenarioBuildingDsm ops base dem grid
    ((stagedMassingFold (batches.take n)).map (·.2)) = .ok result

theorem Published.of_append {later : List (List (MassingEdit BuildingSpec))}
    (h : Published ops base dem grid (batches ++ later)) :
    Published ops base dem grid batches := by
  intro n hn
  have hprefix := h n (by rw [List.length_append]; omega)
  rwa [List.take_append_of_le_length hn] at hprefix

theorem Published.grounded (h : Published ops base dem grid batches) :
    ∀ entry ∈ stagedMassingFold batches, ∀ spec ∈ specsOf entry.2,
      Grounded ops dem grid spec := by
  intro entry hentry
  obtain ⟨result, hresult⟩ := h batches.length (le_refl _)
  rw [List.take_length] at hresult
  exact (writeScenarioBuildingDsm_ok hresult).1 entry.2 (List.mem_map_of_mem hentry)

/-- Every footprint of a published session has defined ground: each batch's stood in the fold
before the batch, or stands in it after. -/
theorem session_grounded (hcoalesced : ∀ batch ∈ batches, (batch.map (·.buildingId)).Nodup)
    (hfollows : Follows baseline batches.flatten) (h : Published ops base dem grid batches) :
    ∀ edit ∈ batches.flatten, ∀ spec ∈ specsOf edit, Grounded ops dem grid spec := by
  induction batches using List.reverseRecOn with
  | nil => simp
  | append_singleton batches batch ih =>
    rw [List.flatten_concat] at hfollows ⊢
    have hfirst := (follows_append.mp hfollows).1
    have hearlier := h.of_append
    have hold := stands_fold batches.flatten
    have hnew := stands_fold (batches.flatten ++ batch)
    rw [← List.flatten_concat, ← stagedMassingFold_eq, List.flatten_concat] at hnew
    rw [← stagedMassingFold_eq] at hold
    intro edit hedit
    rcases List.mem_append.mp hedit with hedit | hedit
    · exact ih (fun batch hbatch => hcoalesced batch (List.mem_append_left _ hbatch)) hfirst
        hearlier edit hedit
    -- the batch has one edit of this building
    have hnodup := hcoalesced batch (by simp)
    obtain ⟨before, after, rfl⟩ := List.append_of_mem hedit
    rw [List.map_append, List.map_cons, List.nodup_append, List.nodup_cons] at hnodup
    have hnotBefore : edit.buildingId ∉ before.map (·.buildingId) := fun hin =>
      hnodup.2.2 _ hin _ (List.mem_cons_self ..) rfl
    obtain ⟨-, ⟨hstart, -⟩, -⟩ := follows_append.mp (follows_append.mp hfollows).2
    rw [stateAfter_untouched hnotBefore] at hstart
    have hin : edit.buildingId ∈
        (batches.flatten ++ (before ++ edit :: after)).map (·.buildingId) :=
      List.mem_map_of_mem (List.mem_append_right _ hedit)
    obtain ⟨entry, hentry, hkey⟩ := List.mem_map.mp ((hnew.keys _).mpr hin)
    intro spec hspec
    rcases mem_specsOf.mp hspec with hspec | hspec
    · by_cases htouched : edit.buildingId ∈ batches.flatten.map (·.buildingId)
      · obtain ⟨stood, hstood, hstoodKey⟩ := List.mem_map.mp ((hold.keys _).mpr htouched)
        apply hearlier.grounded stood hstood
        rw [mem_specsOf, hold.after stood hstood, hstoodKey, stateAfter_of_touched htouched,
          ← hstart]
        exact Or.inr hspec
      · rw [stateAfter_untouched htouched, hspec] at hstart
        apply h.grounded entry hentry
        rw [mem_specsOf, hnew.before entry hentry, hkey]
        rcases anchor_of_follows hfollows hin with heq | hnone
        · rw [heq]
          exact Or.inl hstart.symm
        · rw [← hstart] at hnone
          cases hnone
    · apply h.grounded entry hentry
      rw [mem_specsOf, hnew.after entry hentry, hkey, stateAfter_append, stateAfter_append]
      right
      rw [← hspec]
      exact (stateAfter_untouched hnodup.2.1.1).trans (Function.update_self ..)

/-- The layer takes all edits of the session in order, and what they reset the fold resets too, or
it is ground, or the last state of the building hides it. -/
structure Replays (ops : Elevations V) (base dem : Cells V) (grid : RasterGrid)
    (edits : List (MassingEdit BuildingSpec)) : Prop where
  accepted : Accepted unknown edits
  grounded : ∀ edit ∈ edits, ∀ spec ∈ specsOf edit, Grounded ops dem grid spec
  uncovered : ∀ edit ∈ edits, ∀ i < grid.rows, ∀ j < grid.cols,
    edit.before.any (covers grid (i, j)) = true →
      (anchor edits edit.buildingId).any (covers grid (i, j)) = true ∨
        Hidden ops (covers grid (i, j)) (dem i j) (base i j)
          (stateAfter unknown edits edit.buildingId)

theorem touches_of_before {covered : BuildingSpec → Bool} {edit : MassingEdit BuildingSpec}
    (h : edit.before.any covered = true) : Touches covered edit := by
  obtain ⟨spec, hspec, hcovers⟩ := (Option.any_eq_true _ _).mp h
  exact ⟨spec, mem_specsOf.mpr (Or.inl hspec), hcovers⟩

/-- The fold of the session and its edits in order give one surface. -/
def SameSurface (ops : Elevations V) (base dem : Cells V) (grid : RasterGrid)
    (batches : List (List (MassingEdit BuildingSpec))) : Prop :=
  ∃ folded replayed,
    writeScenarioBuildingDsm ops base dem grid ((stagedMassingFold batches).map (·.2)) =
        .ok folded ∧
      writeScenarioBuildingDsm ops base dem grid batches.flatten = .ok replayed ∧
      ∀ i < grid.rows, ∀ j < grid.cols, folded.raster i j = replayed.raster i j

theorem sameSurface_iff (hapart : KeepApart base dem grid baseline batches.flatten)
    (hpublished : Published ops base dem grid batches) :
    SameSurface ops base dem grid batches ↔ Replays ops base dem grid batches.flatten := by
  have hstands := stands_fold batches.flatten
  rw [← stagedMassingFold_eq] at hstands
  constructor
  · rintro ⟨folded, replayed, hfolded, hreplayed, hsame⟩
    obtain ⟨haccepted, hground⟩ := writeScenarioBuildingDsm_ok_iff.mp ⟨replayed, hreplayed⟩
    refine ⟨haccepted, hground, fun edit hedit i hi j hj hbefore => ?_⟩
    have halone := hapart.alone hi hj hedit (touches_of_before hbefore)
    have hcell := hsame i hi j hj
    rw [(writeScenarioBuildingDsm_ok hfolded).2 i hi j hj,
      (writeScenarioBuildingDsm_ok hreplayed).2 i hi j hj] at hcell
    exact (hstands.foldl_eq_iff haccepted halone).mp hcell
      ⟨edit, mem_editsOf.mpr ⟨hedit, rfl⟩, hbefore⟩
  · rintro ⟨haccepted, hground, huncovered⟩
    obtain ⟨folded, hfolded⟩ := hpublished batches.length (le_refl _)
    rw [List.take_length] at hfolded
    obtain ⟨replayed, hreplayed⟩ := writeScenarioBuildingDsm_ok_iff.mpr ⟨haccepted, hground⟩
    refine ⟨folded, replayed, hfolded, hreplayed, fun i hi j hj => ?_⟩
    obtain ⟨id, halone⟩ := hapart.exists_alone hi hj
    rw [(writeScenarioBuildingDsm_ok hfolded).2 i hi j hj,
      (writeScenarioBuildingDsm_ok hreplayed).2 i hi j hj,
      hstands.foldl_eq_iff haccepted halone]
    rintro ⟨edit, hedit, hbefore⟩
    obtain ⟨hmem, rfl⟩ := mem_editsOf.mp hedit
    exact huncovered edit hmem i hi j hj hbefore

theorem replays_of_follows (hcoalesced : ∀ batch ∈ batches, (batch.map (·.buildingId)).Nodup)
    (hfollows : Follows baseline batches.flatten)
    (hapart : KeepApart base dem grid baseline batches.flatten)
    (hpublished : Published ops base dem grid batches) :
    Replays ops base dem grid batches.flatten where
  accepted := hfollows.accepted fun _ => Or.inl rfl
  grounded := session_grounded hcoalesced hfollows hpublished
  uncovered := by
    intro edit hedit i hi j hj hbefore
    have howned := hapart.owned edit hedit i hi j hj (touches_of_before hbefore)
    rcases howned with hground | hbaseline
    · exact Or.inr (Or.inl hground)
    · rcases anchor_of_follows hfollows (List.mem_map_of_mem hedit) with heq | hnone
      · exact Or.inl (heq ▸ hbaseline)
      · simp [hnone] at hbaseline

end Session

/-! ## The fold over a run of the executor -/

theorem foldMassing_ne_nil {B : Type} (fold : MassingFold B) (edit : MassingEdit B) :
    foldMassing fold edit ≠ [] := by
  have hassign (entry : String × MassingEdit B) : Ordered.assign fold entry ≠ [] := by
    intro hnil
    have hmem : entry ∈ Ordered.assign fold entry := Ordered.mem_assign_iff.mpr (Or.inl rfl)
    rw [hnil] at hmem
    cases hmem
  unfold foldMassing
  split
  · exact hassign _
  · split <;> exact hassign _

theorem foldl_foldMassing_ne_nil {B : Type} {fold : MassingFold B} (h : fold ≠ [])
    (edits : List (MassingEdit B)) : edits.foldl foldMassing fold ≠ [] := by
  induction edits generalizing fold with
  | nil => exact h
  | cons edit edits ih => exact ih (foldMassing_ne_nil fold edit)

section Runs

variable {P B G : Type}

theorem commitBatch_massing (p : Prepared P B) (ackedSequence : Nat) (metPublished : Bool)
    (s : PlanExecutor P B G) :
    (commitBatch p ackedSequence metPublished s).2.appliedMassingEdits = p.massingFold := by
  have hrest : Txn.Keeps (ε := Raised) (·.appliedMassingEdits)
      (if ¬ p.massingFold.isEmpty ∨ metPublished then do
        let s ← Txn.get
        let pending ← Txn.ofExcept (s.worker.pendingBatch s.layer)
        let edited := pending.filter fun batch => ¬ batch.edits = []
        Txn.modify fun s => { s with
          worker := s.worker.adoptPublishedState
            { ackedSequence := max ackedSequence (edited.elim 0 (·.lastSequence))
              forcingOverlay := p.forcingOverlay
              landcoverOverlay := p.landcoverOverlay
              modelParameters := p.modelParameters } }
      else pure () : Exec P B G Unit) := by
    split
    · exact Txn.keeps_get.bind fun s => Txn.keeps_ofExcept.bind fun _ => Txn.keeps_modify fun _ => rfl
    · exact Txn.keeps_pure _
  exact hrest _

variable [DecidableEq P]

theorem executePrepared_massing (site : Site P B G) (env : Env) (p : Prepared P B)
    (before : PlanExecutor P B G) :
    (executePrepared site env p before).2.appliedMassingEdits = before.appliedMassingEdits ∨
      (executePrepared site env p before).2.appliedMassingEdits = p.massingFold := by
  unfold executePrepared
  rcases before.state.advance site.graph p.plan.changedSources with error | state
  · exact Or.inl rfl
  dsimp only [replayBatch]
  rcases replayTreeEdits before.layer p.batchEdits with ⟨layer, error | ⟨⟩⟩
  · exact Or.inl rfl
  dsimp only [Except.mapError]
  rcases attempt_cases site env p state.sceneRevision { before with state, layer } with
    ⟨result, worker, store, hattempt, hstatus⟩ | ⟨result, worker, hattempt, hstatus⟩ |
      ⟨error, worker, hattempt⟩
  all_goals
    rw [hattempt]
    dsimp only
  · rw [if_pos hstatus]
    right
    have hcommit := commitBatch_massing p before.worker.published.ackedSequence result.2
      { before with state, layer, worker, store }
    rcases hrun : commitBatch p before.worker.published.ackedSequence result.2
      { before with state, layer, worker, store } with ⟨error | ⟨⟩, t⟩
    all_goals rw [hrun] at hcommit
    · rw [Txn.bind_of_error hrun]
      exact hcommit
    · rw [Txn.bind_of_ok hrun]
      exact hcommit
  · rw [if_neg hstatus]
    left
    unfold rollbackFailedBatch
    rcases undoTreeEdits layer p.batchEdits with ⟨undone, failure | ⟨⟩⟩ <;> rfl
  · exact Or.inl rfl

theorem executePlan_massing [DecidableEq B] (site : Site P B G) (env : Env)
    (request : Request P B) (s : PlanExecutor P B G) :
    ∃ edits : List (MassingEdit B), (executePlan site env request s).2.appliedMassingEdits =
      edits.foldl foldMassing s.appliedMassingEdits := by
  rcases executePlan_dispatched site env request s with ⟨hsettled, -⟩ |
    ⟨committed, p, t, -, hprepare, hexecute⟩
  · exact ⟨[], congrArg Scene.massingEdits (scene_of_settled hsettled)⟩
  · have ht := (keeps_prepare site env request committed).ended hprepare
    rw [hexecute]
    rcases executePrepared_massing site env p t with hkept | hfolded
    · exact ⟨[], hkept.trans (congrArg Scene.massingEdits (scene_of_settled ht))⟩
    · obtain ⟨edits, -, hfold⟩ := prepare_folds hprepare
      exact ⟨edits, hfolded.trans hfold⟩

theorem run_massing_ne_nil [DecidableEq B] {site : Site P B G} {calls : List (Env × Request P B)}
    {s t : PlanExecutor P B G} (hrun : run (executeBatch site) s calls = some t)
    (h : s.appliedMassingEdits ≠ []) : t.appliedMassingEdits ≠ [] := by
  refine run_invariant (I := fun s : PlanExecutor P B G => s.appliedMassingEdits ≠ [])
    (C := fun _ _ => True) ?_ h (eachStep_of_forall (fun _ _ => trivial) _ _) hrun
  intro s call t hs _ hstep
  rw [← Option.some.inj hstep]
  obtain ⟨edits, hedits⟩ := executePlan_massing site call.1 call.2 s
  show (executePlan site call.1 call.2 s).2.appliedMassingEdits ≠ []
  rw [hedits]
  exact foldl_foldMassing_ne_nil hs edits

end Runs

/-- The staged fold has the surface of the whole session in order exactly when the session replays,
as one does whose edits start in the current states. It is never dropped once it holds an edit. -/
theorem stagedMassingFold_replays {V : Type} (ops : Elevations V) (base dem : Cells V)
    (grid : RasterGrid) (baseline : String → Option BuildingSpec)
    (batches : List (List (MassingEdit BuildingSpec)))
    (hapart : KeepApart base dem grid baseline batches.flatten)
    (hpublished : Published ops base dem grid batches) :
    (SameSurface ops base dem grid batches ↔ Replays ops base dem grid batches.flatten) ∧
      ((∀ batch ∈ batches, (batch.map (·.buildingId)).Nodup) →
        Follows baseline batches.flatten → Replays ops base dem grid batches.flatten) ∧
      (∀ n m, n ≤ m → stagedMassingFold (batches.take n) ≠ [] →
        stagedMassingFold (batches.take m) ≠ []) ∧
      ∀ (P G : Type) [DecidableEq P] (site : Site P BuildingSpec G)
        (calls : List (Env × Request P BuildingSpec)) (s t : PlanExecutor P BuildingSpec G),
        run (executeBatch site) s calls = some t → s.appliedMassingEdits ≠ [] →
          t.appliedMassingEdits ≠ [] := by
  refine ⟨sameSurface_iff hapart hpublished, fun hcoalesced hfollows =>
    replays_of_follows hcoalesced hfollows hapart hpublished, ?_,
    fun P G _ site calls s t => run_massing_ne_nil⟩
  intro n m hnm hne
  obtain ⟨later, hlater⟩ := List.take_prefix_take_left (l := batches) hnm
  rw [← hlater, stagedMassingFold_eq, List.flatten_append, List.foldl_append,
    ← stagedMassingFold_eq]
  exact foldl_foldMassing_ne_nil hne _

/-! ## A session on three cells -/

def exactElevations : Elevations Rat := ⟨max, (· + ·), fun _ => true⟩

/-- One row of three cells of a metre. -/
def threeCells : RasterGrid where
  rows := 1
  cols := 3
  pixelSize := 1
  rowsPos := Nat.one_pos
  colsPos := Nat.succ_pos _
  originXM := 0
  originYM := 1
  pixelPos := by norm_num

/-- A block over one of the cells. -/
def blockOn (buildingId : String) (col : Nat) (heightM : Rat)
    (h : 0 < heightM ∧ heightM ≤ 1000) : BuildingSpec where
  buildingId
  footprint := ⟨[((col : Rat), 0), (col + 1, 0), (col + 1, 1), (col, 1)], by simp⟩
  heightM
  height_range := h

def hall : BuildingSpec := blockOn "hall" 0 3 (by norm_num)

def movedHall : BuildingSpec := blockOn "hall" 1 3 (by norm_num)

def annex : BuildingSpec := blockOn "annex" 2 5 (by norm_num)

def tallAnnex : BuildingSpec := blockOn "annex" 2 6 (by norm_num)

/-- The hall moves, and the annex is added, deleted and added again. -/
def hallSession : List (List (MassingEdit BuildingSpec)) :=
  [[⟨"hall", some hall, some movedHall, by simp⟩, ⟨"annex", none, some annex, by simp⟩],
    [⟨"annex", some annex, none, by simp⟩], [⟨"annex", none, some tallAnnex, by simp⟩]]

def hallSurface : Cells Rat := fun _ j => if j = 0 then 3 else 0

def hallBaseline (id : String) : Option BuildingSpec := if id = "hall" then some hall else none

/-- The surface of some edits, cell after cell. -/
def surfaceOf (edits : List (MassingEdit BuildingSpec)) : Option (List Rat) :=
  (writeScenarioBuildingDsm exactElevations hallSurface (fun _ _ => 0) threeCells edits).toOption.map
    fun result => [result.raster 0 0, result.raster 0 1, result.raster 0 2]

def PublishedHere (batches : List (List (MassingEdit BuildingSpec))) : Prop :=
  ∀ n < batches.length + 1, (surfaceOf ((stagedMassingFold (batches.take n)).map (·.2))).isSome

instance (batches : List (List (MassingEdit BuildingSpec))) : Decidable (PublishedHere batches) :=
  inferInstanceAs (Decidable (∀ n < batches.length + 1,
    (surfaceOf ((stagedMassingFold (batches.take n)).map (·.2))).isSome))

theorem PublishedHere.published {batches : List (List (MassingEdit BuildingSpec))}
    (h : PublishedHere batches) :
    Published exactElevations hallSurface (fun _ _ => 0) threeCells batches := by
  intro n hn
  have hsome := h n (Nat.lt_succ_of_le hn)
  unfold surfaceOf at hsome
  rw [Option.isSome_map] at hsome
  rcases hresult : writeScenarioBuildingDsm exactElevations hallSurface (fun _ _ => 0) threeCells
    ((stagedMassingFold (batches.take n)).map (·.2)) with error | result
  · simp [hresult, Except.toOption] at hsome
  · exact ⟨result, hresult⟩

/-- The hall stands on the second cell and the annex, a metre higher, on the third. -/
theorem hallSession_replays :
    SameSurface exactElevations hallSurface (fun _ _ => 0) threeCells hallSession ∧
      surfaceOf ((stagedMassingFold hallSession).map (·.2)) = some [0, 3, 6] := by
  have hapart : KeepApart hallSurface (fun _ _ => 0) threeCells hallBaseline hallSession.flatten :=
    ⟨by decide +kernel, by decide +kernel⟩
  have hpublished : PublishedHere hallSession := by decide +kernel
  obtain ⟨hiff, hfollows, -⟩ := stagedMassingFold_replays exactElevations hallSurface
    (fun _ _ => 0) threeCells hallBaseline hallSession hapart hpublished.published
  refine ⟨hiff.mpr (hfollows (by decide) ?_), by decide +kernel⟩
  exact ⟨by decide +kernel, by decide, by decide +kernel, by decide, trivial⟩

/-! ### A block over the hall -/

def tallHall : BuildingSpec := blockOn "hall" 0 5 (by norm_num)

/-- A higher block is added over the hall, under its name, and moved away. -/
def overbuiltSession : List (List (MassingEdit BuildingSpec)) :=
  [[⟨"hall", none, some tallHall, by simp⟩], [⟨"hall", some tallHall, some movedHall, by simp⟩]]

/-- The fold leaves the old hall where the session in order leaves the ground. -/
theorem overbuilt_hall_stands : ¬ ∀ (baseline : String → Option BuildingSpec)
    (batches : List (List (MassingEdit BuildingSpec))),
    (∀ batch ∈ batches, (batch.map (·.buildingId)).Nodup) →
      KeepApart hallSurface (fun _ _ => 0) threeCells baseline batches.flatten →
      Published exactElevations hallSurface (fun _ _ => 0) threeCells batches →
        SameSurface exactElevations hallSurface (fun _ _ => 0) threeCells batches := by
  intro h
  have hpublished : PublishedHere overbuiltSession := by decide +kernel
  obtain ⟨folded, replayed, hfolded, hreplayed, hsame⟩ := h hallBaseline overbuiltSession
    (by decide) ⟨by decide, by decide +kernel⟩ hpublished.published
  have hfold : surfaceOf ((stagedMassingFold overbuiltSession).map (·.2)) = some [3, 3, 0] := by
    decide +kernel
  have hreplay : surfaceOf overbuiltSession.flatten = some [0, 3, 0] := by decide +kernel
  have hcell := hsame 0 Nat.one_pos 0 (Nat.succ_pos _)
  simp [surfaceOf, hfolded, Except.toOption] at hfold
  simp [surfaceOf, hreplayed, Except.toOption] at hreplay
  rw [hfold.1, hreplay.1] at hcell
  exact absurd hcell (by norm_num)

end Solweig.Executor
