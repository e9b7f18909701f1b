import Solweig.Realtime.Presence
import Solweig.Realtime.SharedField

/-!
# Families that do not interfere

The fold of all operations and the fold of one family's own, side by side: the family shows the
same in both after every operation of a list whose families are apart.
-/

namespace Solweig.Realtime

open Solweig.Lib

def WrittenBy (ops : List Operation) (g : SegmentFamily) (field : String) : Prop :=
  ∃ op ∈ ops, Writes op g field

/-! ## What two folds share of one family -/

/-- `done` are the operations that `x` has folded, out of `ops`; `y` has folded the own ones. -/
structure ObjectBook (ops done : List Operation) (o : ObjectFamily) (x y : Families × Fold) :
    Prop where
  adds : ∀ e, (∃ u ∈ ops, AddsTo u o e) → x.2.addOps.getD e [] = y.2.addOps.getD e []
  writers : ∀ (e name : String), x.2.fieldWriters[(o, e, name)]? = y.2.fieldWriters[(o, e, name)]?
  live : ∀ e, e ≠ "" → (presence o e done).live = true → e ∈ (x.1.objects o).objects
  otherLive : ∀ e, e ≠ "" → e ∈ (x.1.objects o.other).objects →
    (presence o e done).otherLive = true
  deletes : ∀ e, e ≠ "" → (presence o e done).otherDeleted = false →
    x.2.deleteOps[e]? = y.2.deleteOps[e]?

def SameBook (ops done : List Operation) (x y : Families × Fold) : SourceFamily → Prop
  | .object o => ObjectBook ops done o x y
  | .landcoverSurface =>
    x.2.chunkOps = y.2.chunkOps ∧ x.2.chunkCellActors = y.2.chunkCellActors
  | .segment g => ∀ field, WrittenBy ops g field →
    x.2.segmentOwners[field]? = y.2.segmentOwners[field]?
  | .outputView => x.2.viewWriters = y.2.viewWriters ∧ x.2.perUserUpdates = y.2.perUserUpdates

structure SameView (F : SourceFamily) (ops done : List Operation) (x y : Families × Fold) :
    Prop where
  state : x.1.SameAt F y.1
  conflicts : conflictsOf F x.2.conflicts = conflictsOf F y.2.conflicts
  book : SameBook ops done x y F

/-! ## New conflicts are of the operation's own family -/

theorem insertConflicts_family {v : SegmentView} {i : Insertion} :
    ∀ c ∈ insertConflicts v i, c.sourceFamily = .segment i.family := by
  intro c hc
  simp only [insertConflicts] at hc
  split at hc
  · simp at hc
  · obtain ⟨x, -, hx⟩ := List.mem_filterMap.mp hc
    unfold overlapConflict at hx
    split at hx
    · simp at hx
    · split at hx
      · rw [← Option.some.inj hx]
      · simp at hx

theorem conflictsAlong_family {v : SegmentView} {is : List Insertion} {g : SegmentFamily}
    (his : ∀ i ∈ is, i.family = g) : ∀ c ∈ conflictsAlong v is, c.sourceFamily = .segment g := by
  induction is generalizing v with
  | nil => simp [conflictsAlong]
  | cons i is ih =>
    rw [List.forall_mem_cons] at his
    simp only [conflictsAlong, List.mem_append]
    rintro c (hc | hc)
    · rw [← his.1]
      exact insertConflicts_family c hc
    · split at hc
      · simp at hc
      · exact ih his.2 c hc

theorem insertions_family {op : Operation} {i : Insertion} (hi : i ∈ insertions op) :
    op.sourceFamily = .segment i.family := by
  have := writes_iff.mpr ⟨i, hi, rfl, rfl⟩
  exact this.1

theorem foldOperation_conflicts {x x' : Families × Fold} {op : Operation}
    (h : foldOperation x op = .ok x') :
    ∃ cs, x'.2.conflicts = x.2.conflicts ++ cs ∧ ∀ c ∈ cs, c.sourceFamily = op.sourceFamily := by
  cases hf : op.sourceFamily with
  | object o =>
    obtain ⟨-, rfl⟩ := (foldOperation_object hf).mp h
    refine ⟨_, rfl, ?_⟩
    cases objectTurn o (x.1.objects o) op with
    | add e fields previous =>
      cases previous <;> simp [ObjectTurn.conflicts, recreatedConflict]
    | reject e generation => simp [ObjectTurn.conflicts, rejectedConflict]
    | _ => simp [ObjectTurn.conflicts]
  | landcoverSurface =>
    rw [foldOperation_landcover hf, Except.ok.injEq] at h
    subst h
    split
    · rw [foldPaint_fold]
      exact ⟨[], by simp, by simp⟩
    · exact ⟨[], by simp, by simp⟩
  | segment g =>
    obtain ⟨v, -, rfl⟩ := (foldOperation_segment hf).mp h
    refine ⟨_, rfl, conflictsAlong_family fun i hi => ?_⟩
    simpa [hf, eq_comm] using insertions_family hi
  | outputView =>
    rw [foldOperation_outputView hf, Except.ok.injEq] at h
    subst h
    split
    · simp only [foldView]
      split <;> exact ⟨[], by simp, by simp⟩
    · exact ⟨[], by simp, by simp⟩

theorem conflictsOf_other {F : SourceFamily} {x x' : Families × Fold} {op : Operation}
    (hF : op.sourceFamily ≠ F) (h : foldOperation x op = .ok x') :
    conflictsOf F x'.2.conflicts = conflictsOf F x.2.conflicts := by
  obtain ⟨cs, hcs, hfam⟩ := foldOperation_conflicts h
  have hnone : conflictsOf F cs = [] := by
    refine List.filter_eq_nil_iff.mpr fun c hc => ?_
    simp [hfam c hc, hF]
  rw [hcs, conflictsOf, List.filter_append]
  exact (congrArg _ hnone).trans (List.append_nil _)

/-! ## Land cover and view -/

section Frames

variable {x x' y : Families × Fold} {op : Operation}

theorem landcover_own {ops done : List Operation} (hf : op.sourceFamily = .landcoverSurface)
    (hR : SameView .landcoverSurface ops done x y) (h : foldOperation x op = .ok x') :
    ∃ y', foldOperation y op = .ok y' ∧
      SameView .landcoverSurface ops (done ++ [op]) x' y' := by
  obtain ⟨hstate, hconf, hops, hactors⟩ := hR
  rw [foldOperation_landcover hf, Except.ok.injEq] at h
  subst h
  refine ⟨_, foldOperation_landcover hf, ?_⟩
  split
  · obtain ⟨hops', hactors'⟩ := foldPaint_own x.1.chunks op hops hactors
    simp only [Families.SameAt] at hstate
    refine ⟨?_, ?_, ?_⟩
    · simp only [Families.SameAt, ← hstate]
      exact foldPaint_state _ _ _ _
    · rw [foldPaint_fold, foldPaint_fold y.1.chunks]
      exact hconf
    · simp only [SameBook, ← hstate]
      exact ⟨hops', hactors'⟩
  · exact ⟨hstate, hconf, hops, hactors⟩

theorem view_own {ops done : List Operation} (hf : op.sourceFamily = .outputView)
    (hR : SameView .outputView ops done x y) (h : foldOperation x op = .ok x') :
    ∃ y', foldOperation y op = .ok y' ∧ SameView .outputView ops (done ++ [op]) x' y' := by
  obtain ⟨hstate, hconf, hwriters, hupdates⟩ := hR
  rw [foldOperation_outputView hf, Except.ok.injEq] at h
  subst h
  refine ⟨_, foldOperation_outputView hf, ?_⟩
  simp only [Families.SameAt] at hstate
  split
  · simp only [foldView]
    split
    · exact ⟨by simp [Families.SameAt, hstate], hconf, hwriters, by simp [hupdates]⟩
    · exact ⟨by simp [Families.SameAt, hstate], hconf, by simp [hwriters], hupdates⟩
  · exact ⟨hstate, hconf, hwriters, hupdates⟩

/-! ## Segments -/

/-- Two views that agree on the segments of `g` and on the owners of the fields in `S`. -/
def AgreeOn (S : String → Prop) (g : SegmentFamily) (v w : SegmentView) : Prop :=
  v.1 g = w.1 g ∧ ∀ field, S field → v.2[field]? = w.2[field]?

variable {S : String → Prop} {g : SegmentFamily} {v w : SegmentView}

theorem AgreeOn.insert (h : AgreeOn S g v w) {i : Insertion} (hg : i.family = g)
    (hS : S i.field) :
    insertConflicts v i = insertConflicts w i ∧ ∀ v', insertInto v i = .ok v' →
      ∃ w', insertInto w i = .ok w' ∧ AgreeOn S g v' w' := by
  subst hg
  obtain ⟨hseg, hown⟩ := h
  have howner : ∀ fallback, v.2.getD i.field fallback = w.2.getD i.field fallback := by
    intro fallback
    simp only [Std.ExtTreeMap.getD_eq_getD_getElem?, hown i.field hS]
  refine ⟨by simp only [insertConflicts, hseg, howner], fun v' hv' => ?_⟩
  unfold insertInto at hv' ⊢
  simp only [hseg, howner] at hv'
  obtain ⟨hits, hhits, rfl⟩ := except_map_ok.mp hv'
  refine ⟨_, except_map_ok.mpr ⟨hits, hhits, rfl⟩, by simp, fun field hfield => ?_⟩
  by_cases hf : i.field = field
  · subst hf
    simp only [Std.ExtTreeMap.getElem?_insert_self]
  · simp only [Dict.getElem?_insert_of_ne _ _ hf, hown field hfield]

theorem AgreeOn.foldlM (h : AgreeOn S g v w) {is : List Insertion}
    (his : ∀ i ∈ is, i.family = g ∧ S i.field) {v' : SegmentView}
    (hv : is.foldlM insertInto v = .ok v') :
    conflictsAlong v is = conflictsAlong w is ∧
      ∃ w', is.foldlM insertInto w = .ok w' ∧ AgreeOn S g v' w' := by
  induction is generalizing v w with
  | nil =>
    cases hv
    exact ⟨rfl, w, rfl, h⟩
  | cons i is ih =>
    rw [List.forall_mem_cons] at his
    obtain ⟨u, hu, hv⟩ := foldlM_cons_ok.mp hv
    obtain ⟨hconf, hnext⟩ := h.insert his.1.1 his.1.2
    obtain ⟨u', hu', hagree⟩ := hnext u hu
    obtain ⟨hconf', w', hw', hend⟩ := ih hagree his.2 hv
    exact ⟨by simp only [conflictsAlong, hconf, hu, hu', hconf'], w',
      foldlM_cons_ok.mpr ⟨u', hu', hw'⟩, hend⟩

theorem AgreeOn.foldlM_other (h : AgreeOn S g v w) {is : List Insertion}
    (his : ∀ i ∈ is, g ≠ i.family ∧ ¬ S i.field) {v' : SegmentView}
    (hv : is.foldlM insertInto v = .ok v') : AgreeOn S g v' w := by
  induction is generalizing v with
  | nil =>
    cases hv
    exact h
  | cons i is ih =>
    rw [List.forall_mem_cons] at his
    obtain ⟨u, hu, hv⟩ := foldlM_cons_ok.mp hv
    refine ih ⟨by rw [insertInto_family hu his.1.1, h.1], fun field hfield => ?_⟩ his.2 hv
    have hne : i.field ≠ field := fun heq => his.1.2 (heq ▸ hfield)
    rw [insertInto_owners hu hne, h.2 field hfield]

theorem segment_own {ops done : List Operation} (hop : op ∈ ops) (hf : op.sourceFamily = .segment g)
    (hR : SameView (.segment g) ops done x y) (h : foldOperation x op = .ok x') :
    ∃ y', foldOperation y op = .ok y' ∧ SameView (.segment g) ops (done ++ [op]) x' y' := by
  obtain ⟨hstate, hconf, hbook⟩ := hR
  have hagree : AgreeOn (WrittenBy ops g) g (viewOf x) (viewOf y) := ⟨hstate, hbook⟩
  obtain ⟨v, hv, rfl⟩ := (foldOperation_segment hf).mp h
  have hown : ∀ i ∈ insertions op, i.family = g ∧ WrittenBy ops g i.field := by
    intro i hi
    have hfam : i.family = g := by simpa [hf, eq_comm] using insertions_family hi
    exact ⟨hfam, op, hop, writes_iff.mpr ⟨i, hi, hfam, rfl⟩⟩
  obtain ⟨hnew, w, hw, hnext⟩ := hagree.foldlM hown hv
  refine ⟨_, (foldOperation_segment hf).mpr ⟨w, hw, rfl⟩, hnext.1, ?_, hnext.2⟩
  simp only [conflictsOf, List.filter_append, hnew] at hconf ⊢
  rw [hconf]

theorem segments_other {ops : List Operation} (hapart : FieldsApart ops) (hop : op ∈ ops)
    (hF : op.sourceFamily ≠ .segment g) (hR : AgreeOn (WrittenBy ops g) g (viewOf x) w)
    (h : foldOperation x op = .ok x') : AgreeOn (WrittenBy ops g) g (viewOf x') w := by
  refine hR.foldlM_other (fun i hi => ?_) (foldOperation_view h)
  have hfam := insertions_family hi
  have hne : g ≠ i.family := fun heq => hF (by rw [hfam, heq])
  refine ⟨hne, ?_⟩
  rintro ⟨u, hu, hw⟩
  exact hne (hapart u hu op hop g i.family i.field hw (writes_iff.mpr ⟨i, hi, rfl, rfl⟩))

/-! ## Objects -/

theorem recordWriters_own {fold fold' : Fold} (o : ObjectFamily) (e : String) (op : Operation)
    (fields : Dict String Json)
    (h : ∀ (e name : String), fold.fieldWriters[(o, e, name)]? = fold'.fieldWriters[(o, e, name)]?)
    (e' name : String) :
    (recordWriters fold o e op fields)[(o, e', name)]? =
      (recordWriters fold' o e op fields)[(o, e', name)]? := by
  unfold recordWriters
  generalize fold.fieldWriters = d at h
  generalize fold'.fieldWriters = d' at h
  generalize fields.keys = names
  induction names generalizing d d' with
  | nil => exact h e' name
  | cons n names ih =>
    refine ih _ _ fun e₁ n₁ => ?_
    by_cases hk : ((o, e, n) : ObjectFamily × String × String) = (o, e₁, n₁)
    · rw [← hk, Dict.getElem?_push_self, Dict.getElem?_push_self]
      simp only [Std.ExtTreeMap.getD_eq_getD_getElem?, h e n]
    · rw [Dict.getElem?_push_of_ne _ _ hk, Dict.getElem?_push_of_ne _ _ hk, h e₁ n₁]

theorem recordWriters_other (fold : Fold) {o p : ObjectFamily} (hop : p ≠ o) (e : String)
    (op : Operation) (fields : Dict String Json) (e' name : String) :
    (recordWriters fold p e op fields)[(o, e', name)]? = fold.fieldWriters[(o, e', name)]? := by
  unfold recordWriters
  generalize fold.fieldWriters = d
  generalize fields.keys = names
  induction names generalizing d with
  | nil => rfl
  | cons n names ih =>
    rw [List.foldl_cons, ih, Dict.getElem?_push_of_ne _ _ (by simp [hop])]

section Objects

variable {o : ObjectFamily} {state : ObjectState} {turn : ObjectTurn} {e : String} {p : Presence}

theorem TurnOf.deletes_own (h : TurnOf o state op turn) (hf : op.sourceFamily = .object o)
    (herr : turn.error? = none) {fold fold' : Fold} (hne : e ≠ "")
    (hlive : p.live = true → e ∈ state.objects)
    (hp : p.otherDeleted = false → fold.deleteOps[e]? = fold'.deleteOps[e]?)
    (hstep : (p.step o e op).otherDeleted = false) :
    (turn.fold o state op fold).deleteOps[e]? = (turn.fold o state op fold').deleteOps[e]? := by
  by_cases he : op.entityId = some e
  · rw [p.step_own he hf] at hstep
    cases h with
    | audit hidle =>
      obtain ⟨hadd, hdelete⟩ := hidle e he hne
      rw [if_neg hadd, if_neg (fun hd => hdelete hd.1 (hlive hd.2))] at hstep
      exact hp hstep
    | fail => simp [ObjectTurn.error?] at herr
    | add e₀ fields previous he₀ _ hv _ =>
      rw [if_pos hv] at hstep
      exact hp hstep
    | edit e₀ fields live he₀ _ hv hl | reject e₀ generation he₀ _ hv hl ht =>
      rw [← p.step_own he hf, p.step_edit hv] at hstep
      exact hp hstep
    | delete e₀ live generation he₀ _ hv hl hg =>
      obtain rfl := Option.some.inj (he.symm.trans he₀)
      simp [ObjectTurn.fold]
  · rw [p.step_apart he] at hstep
    cases h with
    | delete e₀ live generation he₀ =>
      have hne' : e₀ ≠ e := by
        rintro rfl
        exact he he₀
      simp only [ObjectTurn.fold, Dict.getElem?_insert_of_ne _ _ hne', hp hstep]
    | _ => exact hp hstep

theorem TurnOf.deletes_other (h : TurnOf o.other state op turn)
    (hf : op.sourceFamily = .object o.other) (herr : turn.error? = none) {fold fold' : Fold}
    (hne : e ≠ "") (hlive : e ∈ state.objects → p.otherLive = true)
    (hp : p.otherDeleted = false → fold.deleteOps[e]? = fold'.deleteOps[e]?)
    (hstep : (p.step o e op).otherDeleted = false) :
    (turn.fold o.other state op fold).deleteOps[e]? = fold'.deleteOps[e]? := by
  by_cases he : op.entityId = some e
  · have hkeep : p.otherDeleted = false := by
      rw [p.step_other he hf] at hstep
      split at hstep
      · exact hstep
      · split at hstep
        · simp at hstep
        · exact hstep
    cases h with
    | delete e₀ live generation he₀ _ hv hl hg =>
      obtain rfl := Option.some.inj (he.symm.trans he₀)
      have hmem := hlive (Std.ExtTreeMap.mem_iff_isSome_getElem?.mpr (by simp [hl]))
      simp [p.step_other he hf, hv, hmem] at hstep
    | fail => simp [ObjectTurn.error?] at herr
    | _ => exact hp hkeep
  · rw [p.step_apart he] at hstep
    cases h with
    | delete e₀ live generation he₀ =>
      have hne' : e₀ ≠ e := by
        rintro rfl
        exact he he₀
      simp only [ObjectTurn.fold, Dict.getElem?_insert_of_ne _ _ hne', hp hstep]
    | _ => exact hp hstep

theorem TurnOf.conflicts_own (h : TurnOf o state op turn) (hf : op.sourceFamily = .object o)
    {fold fold' : Fold}
    (hadds : ∀ e, AddsTo op o e → fold.addOps.getD e [] = fold'.addOps.getD e [])
    (hdeletes : ∀ e, Edits op o e → e ∉ state.objects →
      fold.deleteOps[e]? = fold'.deleteOps[e]?) :
    turn.conflicts o state op fold = turn.conflicts o state op fold' := by
  cases h with
  | add e fields previous he hne hv hp =>
    simp only [ObjectTurn.conflicts, hadds e ⟨⟨hf, he, hne⟩, hv⟩]
  | reject e generation he hne hv hl ht =>
    have hmem : e ∉ state.objects := by
      rw [Std.ExtTreeMap.mem_iff_isSome_getElem?, hl]
      simp
    simp only [ObjectTurn.conflicts, hdeletes e ⟨⟨hf, he, hne⟩, hv⟩ hmem]
  | _ => rfl

theorem TurnOf.adds_own (h : TurnOf o state op turn) {fold fold' : Fold}
    (hadds : fold.addOps.getD e [] = fold'.addOps.getD e []) :
    (turn.fold o state op fold).addOps.getD e [] = (turn.fold o state op fold').addOps.getD e [] := by
  cases h with
  | add e₀ fields previous he hne hv hp =>
    by_cases heq : e₀ = e
    · subst heq
      simp [ObjectTurn.fold, Dict.push, hadds]
    · simp only [ObjectTurn.fold, Dict.push, Dict.getD_insert_of_ne _ _ _ heq, hadds]
  | _ => exact hadds

theorem object_own {ops done : List Operation} (hdeletes : ∀ e, Edits op o e →
      (presence o e done).live = true ∨ (presence o e done).otherDeleted = false)
    (hop : op ∈ ops) (hf : op.sourceFamily = .object o)
    (hR : SameView (.object o) ops done x y) (h : foldOperation x op = .ok x') :
    ∃ y', foldOperation y op = .ok y' ∧ SameView (.object o) ops (done ++ [op]) x' y' := by
  obtain ⟨hstate, hconf, hbook⟩ := hR
  simp only [Families.SameAt] at hstate
  obtain ⟨herr, rfl⟩ := (foldOperation_object hf).mp h
  refine ⟨_, (foldOperation_object hf).mpr ⟨hstate ▸ herr, rfl⟩, ?_⟩
  have hturn := objectTurn_spec o (x.1.objects o) op
  rw [← hstate]
  generalize objectTurn o (x.1.objects o) op = turn at hturn herr
  refine ⟨by simp [Families.SameAt], ?_, ?_, fun e name => ?_, fun e hne hlive => ?_,
    fun e hne hmem => ?_, fun e hne hstep => ?_⟩
  · have hnew := hturn.conflicts_own hf (fun e he => hbook.adds e ⟨op, hop, he⟩)
      fun e he hmem => hbook.deletes e he.1.2.2
        ((hdeletes e he).resolve_left fun hl => hmem (hbook.live e he.1.2.2 hl))
    simp only [ObjectTurn.fold, conflictsOf, List.filter_append, hnew] at hconf ⊢
    rw [hconf]
  · exact fun e he => hturn.adds_own (hbook.adds e he)
  · cases turn with
    | add e₀ fields _ | edit e₀ fields _ => exact recordWriters_own o e₀ op fields hbook.writers e name
    | _ => exact hbook.writers e name
  · rw [presence_append, Presence.step_own_live _ hf] at hlive
    simp only [Function.update_self]
    exact hturn.mem_of_present herr hne (hbook.live e hne) hlive
  · simp only [Function.update_of_ne o.other_ne] at hmem
    rw [presence_append, Presence.step_own_otherLive _ hf]
    exact hbook.otherLive e hne hmem
  · rw [presence_append] at hstep
    exact hturn.deletes_own hf herr hne (hbook.live e hne) (hbook.deletes e hne) hstep

theorem object_other {ops done : List Operation} (hadds : AddsApart ops) (hop : op ∈ ops)
    (hF : op.sourceFamily ≠ .object o) (hR : SameView (.object o) ops done x y)
    (h : foldOperation x op = .ok x') : SameView (.object o) ops (done ++ [op]) x' y := by
  obtain ⟨hstate, hconf, hbook⟩ := hR
  have hconf' := (conflictsOf_other hF h).trans hconf
  by_cases hf : op.sourceFamily = .object o.other
  · obtain ⟨herr, rfl⟩ := (foldOperation_object hf).mp h
    have hturn := objectTurn_spec o.other (x.1.objects o.other) op
    generalize objectTurn o.other (x.1.objects o.other) op = turn at hturn herr hconf'
    refine ⟨?_, hconf', fun e he => ?_, fun e name => ?_, fun e hne hlive => ?_,
      fun e hne hmem => ?_, fun e hne hstep => ?_⟩
    · simpa [Families.SameAt, o.other_ne.symm] using hstate
    · rw [← hbook.adds e he]
      cases hturn with
      | add e₀ fields previous he₀ hne hv hp =>
        have hne' : e₀ ≠ e := by
          rintro rfl
          obtain ⟨u, hu, hadd⟩ := he
          exact o.other_ne.symm (hadds u hu op hop o o.other e₀ hadd ⟨⟨hf, he₀, hne⟩, hv⟩)
        simp only [ObjectTurn.fold, Dict.push, Dict.getD_insert_of_ne _ _ _ hne']
      | _ => rfl
    · rw [← hbook.writers e name]
      cases turn with
      | add e₀ fields _ | edit e₀ fields _ =>
        exact recordWriters_other x.2 o.other_ne e₀ op fields e name
      | _ => rfl
    · rw [presence_append, Presence.step_other_live _ hf] at hlive
      simp only [Function.update_of_ne o.other_ne.symm]
      exact hbook.live e hne hlive
    · rw [presence_append, Presence.step_other_otherLive _ hf]
      simp only [Function.update_self] at hmem
      exact hturn.present_of_mem herr hne (hbook.otherLive e hne) hmem
    · rw [presence_append] at hstep
      exact hturn.deletes_other hf herr hne (hbook.otherLive e hne) (hbook.deletes e hne) hstep
  · have hun : ∀ p, op.sourceFamily ≠ .object p := by
      rintro p hp
      by_cases hpo : p = o
      · exact hF (hpo ▸ hp)
      · exact hf (by rw [hp, ObjectFamily.eq_other hpo])
    obtain ⟨hobj, haddOps, hwriters, hdeleteOps⟩ := object_unrelated hun h
    have hpres : ∀ e, presence o e (done ++ [op]) = presence o e done := fun e => by
      rw [presence_append, Presence.step_unrelated _ hF hf]
    refine ⟨?_, hconf', ?_, ?_, ?_, ?_, ?_⟩
    · simpa only [Families.SameAt, hobj] using hstate
    · simpa only [haddOps] using hbook.adds
    · simpa only [hwriters] using hbook.writers
    · simpa only [hobj, hpres] using hbook.live
    · simpa only [hobj, hpres] using hbook.otherLive
    · simpa only [hdeleteOps, hpres] using hbook.deletes

end Objects

end Frames

/-! ## The whole fold -/

theorem sameView_run {ops : List Operation} (hapart : Apart ops) (F : SourceFamily)
    {s : Families} {x : Families × Fold} (h : ops.foldlM foldOperation (s, {}) = .ok x) :
    ∃ y, (ownOps F ops).foldlM foldOperation (s, {}) = .ok y ∧ SameView F ops ops x y := by
  obtain ⟨hfields, hadds, hdeletes⟩ := hapart
  have hstart : SameView F ops [] (s, {}) (s, {}) := by
    refine ⟨?_, rfl, ?_⟩
    · cases F <;> rfl
    · cases F with
      | object o => exact ⟨by simp, by simp, by simp [presence], by simp [presence], by simp⟩
      | landcoverSurface => exact ⟨rfl, rfl⟩
      | segment g => exact fun _ _ => rfl
      | outputView => exact ⟨rfl, rfl⟩
  refine foldlM_filter (R := SameView F ops) ?_ ?_ hstart h
  · intro done op rest x x' y hops hown hR hx
    have hf : op.sourceFamily = F := by simpa using hown
    have hop : op ∈ ops := by simp [hops]
    cases F with
    | object o => exact object_own (fun e he => hdeletes done op rest o e hops he) hop hf hR hx
    | landcoverSurface => exact landcover_own hf hR hx
    | segment g => exact segment_own hop hf hR hx
    | outputView => exact view_own hf hR hx
  · intro done op rest x x' y hops hown hR hx
    have hF : op.sourceFamily ≠ F := by simpa using hown
    have hop : op ∈ ops := by simp [hops]
    cases F with
    | object o => exact object_other hadds hop hF hR hx
    | landcoverSurface =>
      obtain ⟨hchunks, hchunkOps, hactors⟩ := landcover_other hF hx
      exact ⟨hchunks.trans hR.state, (conflictsOf_other hF hx).trans hR.conflicts,
        hchunkOps.trans hR.book.1, hactors.trans hR.book.2⟩
    | segment g =>
      have hagree := segments_other hfields hop hF (w := viewOf y) ⟨hR.state, hR.book⟩ hx
      exact ⟨hagree.1, (conflictsOf_other hF hx).trans hR.conflicts, hagree.2⟩
    | outputView =>
      obtain ⟨hview, hwriters, hupdates⟩ := view_other hF hx
      exact ⟨hview.trans hR.state, (conflictsOf_other hF hx).trans hR.conflicts,
        hwriters.trans hR.book.1, hupdates.trans hR.book.2⟩

/-! ## Deltas and conflicts -/

theorem raceConflict_family {kind : ConflictKind} {F : SourceFamily} {entityId : Option String}
    {detail : Json} {writers : List Operation} {c : ConflictRecord}
    (h : raceConflict kind F entityId detail writers = some c) : c.sourceFamily = F := by
  unfold raceConflict at h
  split at h
  · obtain ⟨winner, -, rfl⟩ := Option.map_eq_some_iff.mp h
    rfl
  · simp at h

theorem conflictsOf_append (F : SourceFamily) (cs ds : List ConflictRecord) :
    conflictsOf F (cs ++ ds) = conflictsOf F cs ++ conflictsOf F ds :=
  List.filter_append _ _

theorem conflictsOf_eq_nil {F : SourceFamily} {cs : List ConflictRecord}
    (h : ∀ c ∈ cs, c.sourceFamily ≠ F) : conflictsOf F cs = [] :=
  List.filter_eq_nil_iff.mpr fun c hc => by simp [h c hc]

theorem conflictsOf_filterMap {α : Type} {F : SourceFamily} {l : List α}
    {f : α → Option ConflictRecord} {p : α → Bool}
    (h : ∀ a c, f a = some c → (c.sourceFamily = F ↔ p a = true)) :
    conflictsOf F (l.filterMap f) = (l.filter p).filterMap f := by
  induction l with
  | nil => rfl
  | cons a l ih =>
    cases hf : f a with
    | none => cases hp : p a <;> simp [hf, hp, ih]
    | some c =>
      have := h a c hf
      cases hp : p a <;> simp_all [conflictsOf]

theorem conflictsOf_aggregate {F : SourceFamily} {ops done : List Operation}
    {x y : Families × Fold} (h : SameBook ops done x y F) :
    conflictsOf F (aggregateConflicts x.2) = conflictsOf F (aggregateConflicts y.2) := by
  simp only [aggregateConflicts, conflictsOf_append]
  have hwriters : ∀ fold : Fold, conflictsOf F (fold.fieldWriters.toList.filterMap fun e =>
      raceConflict .lastWriteWins (.object e.1.1) (some e.1.2.1)
        (.obj [("field", .str e.1.2.2)]) e.2) =
      ((fold.fieldWriters.filter fun k _ => SourceFamily.object k.1 = F).toList.filterMap fun e =>
        raceConflict .lastWriteWins (.object e.1.1) (some e.1.2.1)
          (.obj [("field", .str e.1.2.2)]) e.2) := by
    intro fold
    rw [Std.ExtTreeMap.toList_filter]
    refine conflictsOf_filterMap fun e c hc => ?_
    simp [raceConflict_family hc]
  have hown : ∀ (G : SourceFamily) (cs : List ConflictRecord), (∀ c ∈ cs, c.sourceFamily = G) →
      G ≠ F → conflictsOf F cs = [] := by
    intro G cs hcs hG
    exact conflictsOf_eq_nil fun c hc => by rw [hcs c hc]; exact hG
  have hchunks : ∀ fold : Fold, F ≠ .landcoverSurface →
      conflictsOf F (fold.chunkOps.toList.filterMap fun e =>
        raceConflict .rasterChunkOverwritten .landcoverSurface (some (chunkText e.1))
          (.obj [("chunk", .str (chunkText e.1)),
            ("cells_conflicted", .int (cellsConflicted fold e.1))]) (dedupById e.2)) = [] := by
    intro fold hF
    refine hown .landcoverSurface _ (fun c hc => ?_) hF.symm
    obtain ⟨e, -, he⟩ := List.mem_filterMap.mp hc
    exact raceConflict_family he
  have hview : ∀ fold : Fold, F ≠ .outputView →
      conflictsOf F (raceConflict .lastWriteWins .outputView none
        (.obj [("scope", .str "workspace")]) fold.viewWriters).toList = [] := by
    intro fold hF
    refine hown .outputView _ (fun c hc => ?_) hF.symm
    exact raceConflict_family (Option.mem_toList.mp hc)
  rw [hwriters, hwriters]
  congr 1
  congr 1
  · congr 2
    refine Std.ExtTreeMap.ext_getElem? fun k => ?_
    rw [Std.ExtTreeMap.getElem?_filter', Std.ExtTreeMap.getElem?_filter']
    cases F with
    | object o =>
      obtain ⟨p, e, name⟩ := k
      by_cases hp : p = o
      · subst hp
        rw [h.writers e name]
      · simp [hp]
    | landcoverSurface | segment g | outputView => simp
  · cases F with
    | landcoverSurface =>
      obtain ⟨hops, hactors⟩ := h
      simp only [cellsConflicted, hops, hactors]
    | object o | segment g | outputView => rw [hchunks _ (by simp), hchunks _ (by simp)]
  · cases F with
    | outputView => rw [h.1]
    | object o | segment g | landcoverSurface => rw [hview _ (by simp), hview _ (by simp)]

theorem familyDelta_congr {F : SourceFamily} (b : Families) {ops done : List Operation}
    {x y : Families × Fold} (h : SameView F ops done x y) :
    familyDelta F b x.1 x.2 = familyDelta F b y.1 y.2 := by
  obtain ⟨hstate, -, hbook⟩ := h
  cases F with
  | outputView =>
    simp only [familyDelta]
    rw [show x.1.view = y.1.view from hstate, hbook.2]
  | object o =>
    simp only [familyDelta]
    rw [show x.1.objects o = y.1.objects o from hstate]
  | segment g =>
    simp only [familyDelta]
    rw [show x.1.segments g = y.1.segments g from hstate]
  | landcoverSurface =>
    simp only [familyDelta]
    rw [show x.1.chunks = y.1.chunks from hstate]

theorem find?_family {f : SourceFamily → FamilyDelta} (hf : ∀ G, (f G).family = G)
    (F : SourceFamily) (l : List SourceFamily) :
    (l.map f).find? (fun d => d.family = F) = if F ∈ l then some (f F) else none := by
  induction l with
  | nil => rfl
  | cons G l ih =>
    by_cases hG : G = F
    · subst hG
      simp [hf]
    · rw [List.map_cons, List.find?_cons_of_neg (by simp [hf, hG]), ih]
      simp [Ne.symm hG]

theorem deltaOf_reduction (F : SourceFamily) (b : CanonicalState) (ops : List Operation)
    (s : Families × Fold) :
    deltaOf F (reduction b ops s) =
      if ∃ op ∈ ops, op.sourceFamily = F then some (familyDelta F b.families s.1 s.2) else none := by
  unfold deltaOf reduction
  dsimp only
  rw [find?_family fun G => familyDelta_family G _ _ _]
  simp [SourceFamily.mem_all]

/-! ## Lists in any order -/

theorem inOrder_perm (ops : List Operation) : (inOrder ops).Perm ops :=
  List.perm_insertionSort _ ops

theorem inOrder_log {ops : List Operation} (h : (ops.map (·.serverSequence)).Nodup) :
    InLogOrder (inOrder ops) := by
  have hsorted : (inOrder ops).Pairwise fun a b => a.serverSequence ≤ b.serverSequence := by
    have : Std.Total fun a b : Operation => a.serverSequence ≤ b.serverSequence :=
      ⟨fun a b => Nat.le_total _ _⟩
    have : IsTrans Operation fun a b => a.serverSequence ≤ b.serverSequence :=
      ⟨fun a b c => Nat.le_trans⟩
    exact List.pairwise_insertionSort _ ops
  have hnodup : ((inOrder ops).map (·.serverSequence)).Nodup :=
    ((inOrder_perm ops).map _).nodup_iff.mpr h
  exact (hsorted.and (List.pairwise_map.mp hnodup)).imp fun h => Nat.lt_of_le_of_ne h.1 h.2

theorem inOrder_ownOps {ops : List Operation} (h : (ops.map (·.serverSequence)).Nodup)
    (F : SourceFamily) : inOrder (ownOps F ops) = ownOps F (inOrder ops) := by
  have hown : ((ownOps F ops).map (·.serverSequence)).Nodup :=
    h.sublist (List.filter_sublist.map _)
  have hperm : (inOrder (ownOps F ops)).Perm (ownOps F (inOrder ops)) :=
    (inOrder_perm _).trans ((inOrder_perm ops).symm.filter _)
  have hlog : InLogOrder (ownOps F (inOrder ops)) := List.Pairwise.filter _ (inOrder_log h)
  refine hperm.eq_of_pairwise ?_ (inOrder_log hown) hlog
  intro a b _ _ hab hba
  omega

theorem independent_of_apart {ops : List Operation} (hapart : Apart (inOrder ops))
    (b : CanonicalState) : Independent b ops := by
  intro r hr F
  obtain ⟨hnodup, x, hx, rfl⟩ := reduceEpoch_ok.mp hr
  obtain ⟨y, hy, hview⟩ := sameView_run hapart F hx
  refine ⟨reduction b (ownOps F (inOrder ops)) y, reduceEpoch_ok.mpr ⟨?_, y, ?_, ?_⟩,
    hview.state, ?_, ?_⟩
  · exact hnodup.sublist (List.filter_sublist.map _)
  · rw [inOrder_ownOps hnodup]
    exact hy
  · rw [inOrder_ownOps hnodup]
  · rw [deltaOf_reduction, deltaOf_reduction, familyDelta_congr b.families hview]
    congr 1
    simp [ownOps]
  · simp only [reduction, conflictsOf_append, hview.conflicts, conflictsOf_aggregate hview.book]

end Solweig.Realtime
