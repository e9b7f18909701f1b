import Solweig.Realtime.Independence

/-!
# Family deltas

The commands of a delta, applied to the baseline, give the folded state. Only the physical state
counts: objects without their generation, cells, segments, the view of the workspace. States are
compared with Python equality.
-/

namespace Solweig.Realtime

open Solweig.Lib Solweig.Lib.Interval

/-! ## Physical states -/

def physicalObjects (s : ObjectState) : Dict String (Dict String Json) :=
  s.objects.map fun _ fields => stripGeneration fields

/-- The same keys, with equal values. -/
def SameEntries {α : Type} (same : α → α → Bool) (a b : Dict String α) : Prop :=
  ∀ k : String, Option.Rel (fun x y => same x y = true) a[k]? b[k]?

/-- Two states that are physically equal in the family. -/
def SamePhysical (F : SourceFamily) (s t : Families) : Prop :=
  match F with
  | .object o => SameEntries fieldsEq (physicalObjects (s.objects o)) (physicalObjects (t.objects o))
  | .landcoverSurface => ∀ chunk cell : Key,
    (s.chunks.getD chunk ∅)[cell]? = (t.chunks.getD chunk ∅)[cell]?
  | .segment g => SameEntries segmentsEq (s.segments g) (t.segments g)
  | .outputView => fieldsEq s.view.view t.view.view = true

/-! ## Commands -/

def applyObject (objects : Dict String (Dict String Json)) :
    DeltaCommand → Dict String (Dict String Json)
  | .object .delete target _ _ => objects.erase target
  | .object _ target values _ => objects.insert target values
  | _ => objects

def applyPaint (chunks : Chunks) : DeltaCommand → Chunks
  | .paint chunk cells code =>
    chunks.insert chunk (cells.foldl (fun d cell => d.insert cell code) (chunks.getD chunk ∅))
  | _ => chunks

def applySet (segments : SegmentMap) : DeltaCommand → SegmentMap
  | .set target values _ => segments.insert target values
  | _ => segments

def applySelect (view : Dict String Json) : DeltaCommand → Dict String Json
  | .select values _ => values
  | _ => view

/-- The commands make the physical state of the family of the one state out of that of the other. -/
def Rebuilds (F : SourceFamily) (commands : List DeltaCommand) (s t : Families) : Prop :=
  match F with
  | .object o => SameEntries fieldsEq (commands.foldl applyObject (physicalObjects (s.objects o)))
    (physicalObjects (t.objects o))
  | .landcoverSurface => ∀ chunk cell : Key,
    ((commands.foldl applyPaint s.chunks).getD chunk ∅)[cell]? = (t.chunks.getD chunk ∅)[cell]?
  | .segment g => SameEntries segmentsEq (commands.foldl applySet (s.segments g)) (t.segments g)
  | .outputView => fieldsEq (commands.foldl applySelect s.view.view) t.view.view = true

/-! ## Equality of values -/

theorem fieldsEq_refl (a : Dict String Json) : fieldsEq a a = true := Json.pyEqFields_refl _

theorem fieldsEq_symm {a b : Dict String Json} (h : fieldsEq a b = true) : fieldsEq b a = true :=
  Json.pyEqFields_symm _ _ h

theorem segmentsEq_iff {a b : List Segment} : segmentsEq a b = true ↔
    List.Forall₂ (fun x y => x.start = y.start ∧ x.stop = y.stop ∧ x.value.pyEq y.value = true) a b := by
  unfold segmentsEq
  induction a generalizing b with
  | nil => cases b <;> simp
  | cons x a ih =>
    cases b with
    | nil => simp
    | cons y b =>
      rw [List.forall₂_cons, ← ih]
      simp [and_left_comm, and_assoc]

theorem segmentsEq_refl (l : List Segment) : segmentsEq l l = true :=
  segmentsEq_iff.mpr (List.forall₂_same.mpr fun x _ => ⟨rfl, rfl, Json.pyEq_refl x.value⟩)

theorem segmentsEq_symm {a b : List Segment} (h : segmentsEq a b = true) :
    segmentsEq b a = true := by
  refine segmentsEq_iff.mpr (List.Forall₂.flip ((segmentsEq_iff.mp h).imp fun x y hxy => ?_))
  exact ⟨hxy.1.symm, hxy.2.1.symm, Json.pyEq_symm _ _ hxy.2.2⟩

theorem rel_refl {α : Type} {same : α → α → Bool} (h : ∀ x, same x x = true) (a : Option α) :
    Option.Rel (fun x y => same x y = true) a a := by
  cases a with
  | none => exact .none
  | some x => exact .some (h x)

/-! ## Objects -/

section Objects

variable {o : ObjectFamily} {e : String} {a b : Option (Dict String Json)} {c : DeltaCommand}

theorem objectCommand_none :
    objectCommand o e a b = none ↔ Option.Rel (fun x y => fieldsEq x y = true) a b := by
  cases a with
  | none => cases b <;> simp [objectCommand]
  | some x =>
    cases b with
    | none => simp [objectCommand]
    | some y =>
      simp only [objectCommand, Option.rel_some_some]
      constructor
      · intro h
        split at h
        · exact fieldsEq_symm ‹_›
        · cases h
      · intro h
        rw [if_pos (fieldsEq_symm h)]

theorem objectCommand_some (h : objectCommand o e a b = some c)
    (m : Dict String (Dict String Json)) (e' : String) :
    (applyObject m c)[e']? = if e = e' then b else m[e']? := by
  have hinsert : ∀ y : Dict String Json, (m.insert e y)[e']? = if e = e' then some y else m[e']? := by
    intro y
    split
    · rename_i heq
      rw [heq, Std.ExtTreeMap.getElem?_insert_self]
    · exact Dict.getElem?_insert_of_ne _ _ ‹_›
  cases a with
  | none =>
    cases b with
    | none => simp [objectCommand] at h
    | some y =>
      obtain rfl := Option.some.inj h
      exact hinsert y
  | some x =>
    cases b with
    | none =>
      obtain rfl := Option.some.inj h
      change (m.erase e)[e']? = _
      split
      · rename_i heq
        rw [heq, Std.ExtTreeMap.getElem?_erase_self]
      · exact Dict.getElem?_erase_of_ne _ ‹_›
    | some y =>
      simp only [objectCommand] at h
      split at h
      · cases h
      · obtain rfl := Option.some.inj h
        split <;> exact hinsert y

theorem objectDelta_spec (o : ObjectFamily) (s t : ObjectState) :
    SameEntries fieldsEq ((objectDelta o s t).commands.foldl applyObject (physicalObjects s))
      (physicalObjects t) ∧
    ((objectDelta o s t).isNoop = true ↔
      SameEntries fieldsEq (physicalObjects s) (physicalObjects t)) := by
  have hget : ∀ (u : ObjectState) (e : String),
      (physicalObjects u)[e]? = u.objects[e]?.map stripGeneration :=
    fun u e => Std.ExtTreeMap.getElem?_map
  -- where no side has the entity, no command is missing
  have hnone : ∀ e : String, e ∉ (s.objects ∪ t.objects).keys →
      objectCommand o e (physicalObjects s)[e]? (physicalObjects t)[e]? = none := by
    intro e he
    rw [Std.ExtTreeMap.mem_keys, Std.ExtTreeMap.mem_union_iff, not_or] at he
    rw [hget, hget, Std.ExtTreeMap.getElem?_eq_none he.1, Std.ExtTreeMap.getElem?_eq_none he.2]
    rfl
  have hcommands : ∀ c, c ∈ (objectDelta o s t).commands ↔ ∃ e,
      objectCommand o e (physicalObjects s)[e]? (physicalObjects t)[e]? = some c := by
    intro c
    simp only [objectDelta, List.mem_filterMap, ← hget]
    constructor
    · rintro ⟨e, -, h⟩
      exact ⟨e, h⟩
    · rintro ⟨e, h⟩
      refine ⟨e, ?_, h⟩
      by_contra he
      rw [hnone e he] at h
      cases h
  constructor
  · intro e
    have hskip : ∀ c ∈ (objectDelta o s t).commands,
        ¬ objectCommand o e (physicalObjects s)[e]? (physicalObjects t)[e]? = some c →
        ∀ m, (applyObject m c)[e]? = m[e]? := by
      intro c hc hw m
      obtain ⟨e', he'⟩ := (hcommands c).mp hc
      rw [objectCommand_some he' m e, if_neg]
      rintro rfl
      exact hw he'
    obtain ⟨hlast, hkeep⟩ := foldl_look applyObject (fun m => m[e]?)
      (fun c => objectCommand o e (physicalObjects s)[e]? (physicalObjects t)[e]? = some c)
      (physicalObjects t)[e]? (fun c _ hw m => (objectCommand_some hw m e).trans (if_pos rfl))
      hskip (physicalObjects s)
    cases hc : objectCommand o e (physicalObjects s)[e]? (physicalObjects t)[e]? with
    | none =>
      rw [hkeep fun c _ hw => by simp [hc] at hw]
      exact objectCommand_none.mp hc
    | some c =>
      rw [hlast ⟨c, (hcommands c).mpr ⟨e, hc⟩, hc⟩]
      exact rel_refl fieldsEq_refl _
  · have hempty : (objectDelta o s t).isNoop = true ↔ ∀ c, c ∉ (objectDelta o s t).commands := by
      rw [← List.eq_nil_iff_forall_not_mem, ← List.isEmpty_iff]
      rfl
    rw [hempty]
    constructor
    · intro hall e
      refine (objectCommand_none (o := o) (e := e)).mp ?_
      cases hc : objectCommand o e (physicalObjects s)[e]? (physicalObjects t)[e]? with
      | none => rfl
      | some c => exact absurd ((hcommands c).mpr ⟨e, hc⟩) (hall c)
    · intro hsame c hc
      obtain ⟨e, he⟩ := (hcommands c).mp hc
      rw [objectCommand_none.mpr (hsame e)] at he
      cases he

end Objects

/-! ## Cells -/

def cellAt (chunks : Chunks) (chunk cell : Key) : Option Int := (chunks.getD chunk ∅)[cell]?

theorem applyPaint_cell (chunks : Chunks) (at₀ : Key) (cells : List Key) (code : Int)
    (chunk cell : Key) : cellAt (applyPaint chunks (.paint at₀ cells code)) chunk cell =
      if at₀ = chunk ∧ cell ∈ cells then some code else cellAt chunks chunk cell := by
  unfold cellAt applyPaint
  by_cases hchunk : at₀ = chunk
  · subst hchunk
    have hfold : ∀ d : Dict Key Int, (cells.foldl (fun d cell => d.insert cell code) d)[cell]? =
        if ∃ x ∈ cells, x = cell then some code else d[cell]? :=
      fun d => Dict.getElem?_foldl_insert fun _ _ _ => rfl
    rw [Std.ExtTreeMap.getD_insert_self, hfold]
    simp
  · rw [Dict.getD_insert_of_ne _ _ _ hchunk, if_neg fun h => hchunk h.1]

theorem mem_landcoverCommands {s t : Chunks} {c : DeltaCommand} :
    c ∈ landcoverCommands s t ↔ ∃ chunk diffs cells code, t[chunk]? = some diffs ∧
      (byClass (chunkDiff s chunk diffs))[code]? = some cells ∧ c = .paint chunk cells code := by
  simp only [landcoverCommands, List.mem_flatMap, List.mem_map]
  constructor
  · rintro ⟨x, hx, group, hgroup, rfl⟩
    exact ⟨x.1, x.2, group.2, group.1, Std.ExtTreeMap.mem_toList_iff_getElem?_eq_some.mp hx,
      Std.ExtTreeMap.mem_toList_iff_getElem?_eq_some.mp hgroup, rfl⟩
  · rintro ⟨chunk, diffs, cells, code, hchunk, hgroup, rfl⟩
    exact ⟨(chunk, diffs), Std.ExtTreeMap.mem_toList_iff_getElem?_eq_some.mpr hchunk,
      (code, cells), Std.ExtTreeMap.mem_toList_iff_getElem?_eq_some.mpr hgroup, rfl⟩

theorem paint_cells {s t : Chunks} {chunk : Key} {cells : List Key} {code : Int}
    (h : .paint chunk cells code ∈ landcoverCommands s t) (cell : Key) :
    cell ∈ cells ↔ cellAt t chunk cell = some code ∧ cellAt s chunk cell ≠ some code := by
  obtain ⟨_, diffs, _, _, hchunk, hgroup, heq⟩ := mem_landcoverCommands.mp h
  cases heq
  rw [byClass_get hgroup, chunkDiff_some]
  unfold cellAt
  rw [Dict.getD_of_some hchunk]

theorem cell_painted {s t : Chunks} {chunk cell : Key} {code : Int}
    (h : cellAt t chunk cell = some code) (hs : cellAt s chunk cell ≠ some code) :
    ∃ cells, .paint chunk cells code ∈ landcoverCommands s t := by
  cases hchunk : t[chunk]? with
  | none => simp [cellAt, Dict.getD_of_none hchunk] at h
  | some diffs =>
    have hdiff : (chunkDiff s chunk diffs)[cell]? = some code := by
      rw [chunkDiff_some]
      exact ⟨by simpa [cellAt, Dict.getD_of_some hchunk] using h, hs⟩
    obtain ⟨cells, hcells⟩ := exists_byClass hdiff
    exact ⟨cells, mem_landcoverCommands.mpr ⟨chunk, diffs, cells, code, hchunk, hcells, rfl⟩⟩

theorem landcoverDelta_spec {s t : Chunks}
    (hkeep : ∀ chunk cell, cellAt s chunk cell ≠ none → cellAt t chunk cell ≠ none) :
    (∀ chunk cell, cellAt ((landcoverDelta s t).commands.foldl applyPaint s) chunk cell =
      cellAt t chunk cell) ∧
    ((landcoverDelta s t).isNoop = true ↔
      ∀ chunk cell, cellAt s chunk cell = cellAt t chunk cell) := by
  have hcommands : (landcoverDelta s t).commands = landcoverCommands s t := rfl
  constructor
  · intro chunk cell
    -- every command that reaches the cell paints it with its class at the end
    have hskip : ∀ c ∈ landcoverCommands s t,
        ¬ (∃ cells code, c = .paint chunk cells code ∧ cell ∈ cells) →
        ∀ m, cellAt (applyPaint m c) chunk cell = cellAt m chunk cell := by
      intro c hc hw m
      obtain ⟨at₀, _, cells, code, -, -, rfl⟩ := mem_landcoverCommands.mp hc
      rw [applyPaint_cell, if_neg]
      rintro ⟨rfl, hmem⟩
      exact hw ⟨cells, code, rfl, hmem⟩
    have hwrite : ∀ c ∈ landcoverCommands s t,
        (∃ cells code, c = .paint chunk cells code ∧ cell ∈ cells) →
        ∀ m, cellAt (applyPaint m c) chunk cell = cellAt t chunk cell := by
      rintro c hc ⟨cells, code, rfl, hmem⟩ m
      rw [applyPaint_cell, if_pos ⟨rfl, hmem⟩, ((paint_cells hc cell).mp hmem).1]
    obtain ⟨hlast, hsame⟩ := foldl_look applyPaint (fun m => cellAt m chunk cell)
      (fun c => ∃ cells code, c = .paint chunk cells code ∧ cell ∈ cells)
      (cellAt t chunk cell) hwrite hskip s
    rw [hcommands]
    by_cases hpaint : ∃ c ∈ landcoverCommands s t,
        ∃ cells code, c = .paint chunk cells code ∧ cell ∈ cells
    · exact hlast hpaint
    · rw [hsame fun c hc hw => hpaint ⟨c, hc, hw⟩]
      cases ht : cellAt t chunk cell with
      | none =>
        by_contra hs
        exact hkeep chunk cell hs ht
      | some code =>
        by_contra hs
        obtain ⟨cells, hc⟩ := cell_painted ht hs
        exact hpaint ⟨_, hc, cells, code, rfl, (paint_cells hc cell).mpr ⟨ht, hs⟩⟩
  · have hempty : (landcoverDelta s t).isNoop = true ↔ ∀ c, c ∉ landcoverCommands s t := by
      rw [← List.eq_nil_iff_forall_not_mem, ← List.isEmpty_iff]
      rfl
    rw [hempty]
    constructor
    · intro hnone chunk cell
      cases ht : cellAt t chunk cell with
      | none =>
        by_contra hs
        exact hkeep chunk cell hs ht
      | some code =>
        by_contra hs
        obtain ⟨cells, hc⟩ := cell_painted ht hs
        exact hnone _ hc
    · intro hsame c hc
      obtain ⟨chunk, _, cells, code, -, hgroup, rfl⟩ := mem_landcoverCommands.mp hc
      obtain ⟨cell, hcell⟩ := byClass_nonempty hgroup
      obtain ⟨ht, hs⟩ := (paint_cells hc cell).mp hcell
      exact hs ((hsame chunk cell).trans ht)

/-! ## Segments and the view -/

theorem segmentDelta_spec (g : SegmentFamily) {s t : SegmentMap}
    (hkeep : ∀ field : String, s[field]? ≠ none → t[field]? ≠ none)
    (hnew : ∀ field : String, t[field]? = some [] → s[field]? = some []) :
    SameEntries segmentsEq ((segmentDelta g s t).commands.foldl applySet s) t ∧
    ((segmentDelta g s t).isNoop = true ↔ SameEntries segmentsEq s t) := by
  have hcommands : ∀ c, c ∈ (segmentDelta g s t).commands ↔ ∃ field l,
      t[field]? = some l ∧ segmentsEq l (s.getD field []) = false ∧
      c = .set field l (s.getD field []) := by
    intro c
    simp only [segmentDelta, List.mem_map, List.mem_filter, Bool.not_eq_true']
    constructor
    · rintro ⟨x, ⟨hx, hne⟩, rfl⟩
      exact ⟨x.1, x.2, Std.ExtTreeMap.mem_toList_iff_getElem?_eq_some.mp hx, hne, rfl⟩
    · rintro ⟨field, l, hl, hne, rfl⟩
      exact ⟨(field, l), ⟨Std.ExtTreeMap.mem_toList_iff_getElem?_eq_some.mpr hl, hne⟩, rfl⟩
  -- a field without a command is as it was
  have hsame : ∀ field : String, (∀ l, .set field l (s.getD field []) ∉ (segmentDelta g s t).commands) →
      Option.Rel (fun x y => segmentsEq x y = true) s[field]? t[field]? := by
    intro field hnone
    cases ht : t[field]? with
    | none =>
      cases hs : s[field]? with
      | none => exact .none
      | some l => exact absurd ht (hkeep field (by simp [hs]))
    | some l =>
      have heq : segmentsEq l (s.getD field []) = true := by
        by_contra hne
        exact hnone l ((hcommands _).mpr ⟨field, l, ht, by simpa using hne, rfl⟩)
      cases hs : s[field]? with
      | none =>
        rw [Dict.getD_of_none hs, segmentsEq_iff, List.forall₂_nil_right_iff] at heq
        have hempty := hnew field (heq ▸ ht)
        rw [hs] at hempty
        cases hempty
      | some l' =>
        rw [Dict.getD_of_some hs] at heq
        exact .some (segmentsEq_symm heq)
  constructor
  · intro field
    have hwrite : ∀ c ∈ (segmentDelta g s t).commands, (∃ l old, c = .set field l old) →
        ∀ m, (applySet m c)[field]? = t[field]? := by
      rintro c hc ⟨l, old, rfl⟩ m
      obtain ⟨_, _, hl, -, heq⟩ := (hcommands _).mp hc
      cases heq
      rw [hl]
      exact Std.ExtTreeMap.getElem?_insert_self
    have hskip : ∀ c ∈ (segmentDelta g s t).commands, ¬ (∃ l old, c = .set field l old) →
        ∀ m, (applySet m c)[field]? = m[field]? := by
      intro c hc hw m
      obtain ⟨field', l, -, -, rfl⟩ := (hcommands c).mp hc
      refine Dict.getElem?_insert_of_ne m _ ?_
      rintro rfl
      exact hw ⟨_, _, rfl⟩
    obtain ⟨hlast, hkept⟩ := foldl_look applySet (fun m => m[field]?)
      (fun c => ∃ l old, c = .set field l old) t[field]? hwrite hskip s
    by_cases hset : ∃ c ∈ (segmentDelta g s t).commands, ∃ l old, c = .set field l old
    · rw [hlast hset]
      exact rel_refl segmentsEq_refl _
    · rw [hkept fun c hc hw => hset ⟨c, hc, hw⟩]
      exact hsame field fun l hl => hset ⟨_, hl, l, _, rfl⟩
  · have hempty : (segmentDelta g s t).isNoop = true ↔ ∀ c, c ∉ (segmentDelta g s t).commands := by
      rw [← List.eq_nil_iff_forall_not_mem, ← List.isEmpty_iff]
      simp [segmentDelta]
    rw [hempty]
    constructor
    · exact fun hnone field => hsame field fun l => hnone _
    · intro hall c hc
      obtain ⟨field, l, hl, hne, rfl⟩ := (hcommands c).mp hc
      have hrel := hall field
      rw [hl] at hrel
      cases hs : s[field]? with
      | none =>
        rw [hs] at hrel
        cases hrel
      | some l' =>
        rw [hs, Option.rel_some_some] at hrel
        rw [Dict.getD_of_some hs, segmentsEq_symm hrel] at hne
        cases hne

theorem viewDelta_spec (s t : ViewState) (updates : Nat) :
    fieldsEq ((viewDelta s t updates).commands.foldl applySelect s.view) t.view = true ∧
      ((viewDelta s t updates).isNoop = true ↔ fieldsEq s.view t.view = true) := by
  unfold viewDelta
  cases heq : fieldsEq t.view s.view with
  | true => simp [fieldsEq_symm heq]
  | false =>
    have hne : fieldsEq s.view t.view = false := by
      by_contra h
      rw [fieldsEq_symm (by simpa using h)] at heq
      cases heq
    simp [hne, applySelect, fieldsEq_refl]

/-! ## What a fold keeps -/

/-- Cells and fields only come in, and a field that comes in has segments. -/
structure Grows (s t : Families) : Prop where
  cells : ∀ chunk cell, cellAt s.chunks chunk cell ≠ none → cellAt t.chunks chunk cell ≠ none
  fields : ∀ g (field : String), (s.segments g)[field]? ≠ none → (t.segments g)[field]? ≠ none
  filled : ∀ g (field : String), (t.segments g)[field]? = some [] → (s.segments g)[field]? = some []

theorem Grows.refl (s : Families) : Grows s s :=
  ⟨fun _ _ h => h, fun _ _ h => h, fun _ _ h => h⟩

theorem Grows.trans {s t u : Families} (h : Grows s t) (h' : Grows t u) : Grows s u :=
  ⟨fun chunk cell hc => h'.cells chunk cell (h.cells chunk cell hc),
    fun g field hf => h'.fields g field (h.fields g field hf),
    fun g field hf => h.filled g field (h'.filled g field hf)⟩

theorem foldPaint_grows (chunks : Chunks) (op : Operation) (fold : Fold) (chunk cell : Key)
    (h : cellAt chunks chunk cell ≠ none) :
    cellAt (foldPaint chunks op fold).1 chunk cell ≠ none := by
  unfold foldPaint
  cases paintClass op.payload.mapping with
  | none => exact h
  | some code =>
    dsimp only
    generalize paintCells op.payload.mapping = cells
    induction cells generalizing chunks fold with
    | nil => exact h
    | cons x cells ih =>
      refine ih _ _ ?_
      have hpaint := applyPaint_cell chunks (chunkOf x) [x] code chunk cell
      change cellAt (applyPaint chunks (.paint (chunkOf x) [x] code)) chunk cell ≠ none
      rw [hpaint]
      split
      · simp
      · exact h

theorem mergeOwned_ne_nil {merged rest : List Owned} (h : merged ≠ [] ∨ rest ≠ []) :
    mergeOwned merged rest ≠ [] := by
  induction rest generalizing merged with
  | nil => simpa [mergeOwned] using h
  | cons x rest ih =>
    cases merged with
    | nil => exact ih (Or.inl (by simp))
    | cons m ms =>
      simp only [mergeOwned]
      split
      · exact ih (Or.inl (by simp))
      · exact ih (Or.inl (by simp))

theorem insertInto_grows {v w : SegmentView} {i : Insertion} (h : insertInto v i = .ok w)
    (g : SegmentFamily) (field : String) :
    ((v.1 g)[field]? ≠ none → (w.1 g)[field]? ≠ none) ∧
      ((w.1 g)[field]? = some [] → (v.1 g)[field]? = some []) := by
  obtain ⟨hits, -, rfl⟩ := except_map_ok.mp h
  by_cases hg : g = i.family
  · subst hg
    simp only [Function.update_self]
    by_cases hf : i.field = field
    · subst hf
      rw [Std.ExtTreeMap.getElem?_insert_self]
      refine ⟨fun _ => by simp, fun hnil => ?_⟩
      rw [Option.some_inj, List.map_eq_nil_iff] at hnil
      refine absurd hnil (mergeOwned_ne_nil (Or.inr fun hsort => ?_))
      have hlen := congrArg List.length hsort
      simp at hlen
    · rw [Dict.getElem?_insert_of_ne _ _ hf]
      exact ⟨id, id⟩
  · simp only [Function.update_of_ne hg]
    exact ⟨id, id⟩

theorem foldOperation_grows {s t : Families × Fold} {op : Operation}
    (h : foldOperation s op = .ok t) : Grows s.1 t.1 := by
  cases hf : op.sourceFamily with
  | object o =>
    obtain ⟨-, rfl⟩ := (foldOperation_object hf).mp h
    exact ⟨fun _ _ h => h, fun _ _ h => h, fun _ _ h => h⟩
  | landcoverSurface =>
    rw [foldOperation_landcover hf, Except.ok.injEq] at h
    subst h
    split
    · exact ⟨foldPaint_grows s.1.chunks op s.2, fun _ _ h => h, fun _ _ h => h⟩
    · exact Grows.refl s.1
  | segment g =>
    obtain ⟨v, hv, rfl⟩ := (foldOperation_segment hf).mp h
    have hgrows : ∀ g (field : String),
        ((s.1.segments g)[field]? ≠ none → (v.1 g)[field]? ≠ none) ∧
          ((v.1 g)[field]? = some [] → (s.1.segments g)[field]? = some []) := by
      intro g field
      refine foldlM_invariant (I := fun (_ : List Insertion) (v : SegmentView) =>
        ((s.1.segments g)[field]? ≠ none → (v.1 g)[field]? ≠ none) ∧
          ((v.1 g)[field]? = some [] → (s.1.segments g)[field]? = some [])) ?_ ⟨id, id⟩ hv
      intro done i rest u w _ hu hw
      obtain ⟨hkeep, hfill⟩ := insertInto_grows hw g field
      exact ⟨fun h => hkeep (hu.1 h), fun h => hu.2 (hfill h)⟩
    exact ⟨fun _ _ h => h, fun g field => (hgrows g field).1, fun g field => (hgrows g field).2⟩
  | outputView =>
    rw [foldOperation_outputView hf, Except.ok.injEq] at h
    subst h
    split
    · exact ⟨fun _ _ h => h, fun _ _ h => h, fun _ _ h => h⟩
    · exact Grows.refl s.1

theorem foldlM_grows {ops : List Operation} {s t : Families × Fold}
    (h : ops.foldlM foldOperation s = .ok t) : Grows s.1 t.1 :=
  foldlM_invariant (I := fun (_ : List Operation) (u : Families × Fold) => Grows s.1 u.1)
    (fun _ _ _ _ _ _ hu hw => hu.trans (foldOperation_grows hw)) (Grows.refl s.1) h

theorem foldOperation_other {F : SourceFamily} {s t : Families × Fold} {op : Operation}
    (hF : op.sourceFamily ≠ F) (h : foldOperation s op = .ok t) : t.1.SameAt F s.1 := by
  cases F with
  | object o => exact objects_other hF h
  | landcoverSurface => exact (landcover_other hF h).1
  | outputView => exact (view_other hF h).1
  | segment g =>
    have hfamily : ∀ i ∈ insertions op, g ≠ i.family := by
      rintro i hi rfl
      exact hF (writes_iff.mpr ⟨i, hi, rfl, rfl⟩).1
    refine foldlM_invariant (I := fun (_ : List Insertion) (v : SegmentView) =>
      v.1 g = s.1.segments g) ?_ rfl (foldOperation_view h)
    intro done i rest u w hsplit hu hw
    rw [insertInto_family hw (hfamily i (by simp [hsplit])), hu]

theorem foldlM_other {F : SourceFamily} {ops : List Operation} {s t : Families × Fold}
    (hF : ∀ op ∈ ops, op.sourceFamily ≠ F) (h : ops.foldlM foldOperation s = .ok t) :
    t.1.SameAt F s.1 := by
  refine foldlM_invariant (I := fun (_ : List Operation) (u : Families × Fold) =>
    u.1.SameAt F s.1) ?_ (by cases F <;> rfl) h
  intro done op rest u w hsplit hu hw
  have hstep := foldOperation_other (hF op (by simp [hsplit])) hw
  cases F <;> exact Eq.trans hstep hu

/-! ## One epoch -/

theorem samePhysical_of_sameAt {F : SourceFamily} {s t : Families} (h : t.SameAt F s) :
    SamePhysical F s t := by
  cases F with
  | object o =>
    intro e
    rw [show t.objects o = s.objects o from h]
    exact rel_refl fieldsEq_refl _
  | landcoverSurface =>
    intro chunk cell
    rw [show t.chunks = s.chunks from h]
  | segment g =>
    intro field
    rw [show t.segments g = s.segments g from h]
    exact rel_refl segmentsEq_refl _
  | outputView =>
    have hview : t.view = s.view := h
    simp only [SamePhysical, hview, fieldsEq_refl]

theorem familyDelta_spec (F : SourceFamily) {s t : Families} (hgrows : Grows s t) (fold : Fold) :
    Rebuilds F (familyDelta F s t fold).commands s t ∧
      ((familyDelta F s t fold).isNoop = true ↔ SamePhysical F s t) := by
  cases F with
  | object o => exact objectDelta_spec o (s.objects o) (t.objects o)
  | landcoverSurface => exact landcoverDelta_spec hgrows.cells
  | segment g => exact segmentDelta_spec g (hgrows.fields g) (hgrows.filled g)
  | outputView => exact viewDelta_spec s.view t.view fold.perUserUpdates

/-- The deltas of an epoch rebuild the folded state, say rightly where nothing changed, and the
audit is the log of the epoch in order. -/
theorem deltas_rebuild {b : CanonicalState} {ops : List Operation} {r : EpochReduction}
    (h : reduceEpoch b ops = .ok r) :
    (∀ d ∈ r.reduced.familyDeltas,
      Rebuilds d.family d.commands b.families r.state.families ∧
      (d.isNoop = true ↔ SamePhysical d.family b.families r.state.families)) ∧
    (∀ F, (∀ d ∈ r.reduced.familyDeltas, d.family ≠ F) →
      SamePhysical F b.families r.state.families) ∧
    r.reduced.auditOperations.Perm ops ∧
    r.reduced.auditOperations.Pairwise fun u v => u.serverSequence < v.serverSequence := by
  obtain ⟨hnodup, x, hx, rfl⟩ := reduceEpoch_ok.mp h
  have hgrows := foldlM_grows hx
  refine ⟨?_, ?_, inOrder_perm ops, ?_⟩
  · intro d hd
    obtain ⟨F, -, rfl⟩ := List.mem_map.mp hd
    have hspec := familyDelta_spec F hgrows x.2
    rwa [familyDelta_family]
  · intro F hF
    refine samePhysical_of_sameAt (foldlM_other (fun op hop heq => ?_) hx)
    refine hF (familyDelta F b.families x.1 x.2) (List.mem_map_of_mem ?_) (familyDelta_family _ _ _ _)
    refine List.mem_filter.mpr ⟨F.mem_all, List.any_eq_true.mpr ⟨op, hop, ?_⟩⟩
    simpa using heq
  · exact inOrder_log hnodup

/-- A tree, some paint, a view. -/
def mixedOps : List Operation :=
  let op (n : Nat) (family : SourceFamily) (verb : OperationVerb) (fields : List (String × Json)) :
      Operation :=
    { operationId := toString n, actorId := "ada", sourceFamily := family, entityId := some "oak",
      verb := verb, payload := .obj fields, serverSequence := n, epochId := 1 }
  [op 3 .outputView .select [("layer", .str "tmrt")],
    op 1 (.object .vegetationGeometry) .add [("values", .obj [("u", .int 3)])],
    op 2 .landcoverSurface .paint
      [("class", .int 5), ("cells", .arr [.arr [.int 0, .int 1], .arr [.int 70, .int 1]])]]

theorem mixedOps_rebuild : ∃ r, reduceEpoch initialState mixedOps = .ok r ∧
    r.reduced.familyDeltas.map (·.commands.length) = [2, 1, 1] ∧
    ∀ d ∈ r.reduced.familyDeltas,
      Rebuilds d.family d.commands initialState.families r.state.families := by
  have hlengths : (reduceEpoch initialState mixedOps).map
      (fun r => r.reduced.familyDeltas.map (·.commands.length)) = .ok [2, 1, 1] := by
    decide +kernel
  obtain ⟨r, hr, hlengths⟩ := except_map_ok.mp hlengths
  exact ⟨r, hr, hlengths, fun d hd => ((deltas_rebuild hr).1 d hd).1⟩

end Solweig.Realtime
