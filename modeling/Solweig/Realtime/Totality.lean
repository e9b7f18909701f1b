import Solweig.Realtime.Generations
import Solweig.Realtime.RangeAudit

/-!
# When an epoch is reduced

The fold stops at a stored generation that is no number, and at a time step that is no float. Both
come from payloads of operations that the log has accepted.
-/

namespace Solweig.Realtime

open Solweig.Lib Solweig.Lib.Interval

variable {o : ObjectFamily} {e : String} {op : Operation} {s t : Families × Fold}

/-! ## Generations -/

/-- Whether `int()` takes the generation of the entity, if it is live. -/
def legible (s : ObjectState) (e : String) : Option Bool :=
  s.objects[e]?.map fun live => (Json.get live "generation").pyInt.isSome

/-- What an operation makes of it. -/
def trackLegible (o : ObjectFamily) (e : String) (legible : Option Bool) (op : Operation) :
    Option Bool :=
  if op.sourceFamily = .object o ∧ op.entityId = some e then
    match op.verb with
    | .add => some true
    | .replace | .update => legible.map fun b =>
      match (objectFields o op.payload.mapping)["generation"]? with
      | some v => v.pyInt.isSome
      | none => b
    | .delete => none
    | _ => legible
  else legible

/-- No add or delete meets the entity live with a generation that `int()` refuses. -/
def Legible (o : ObjectFamily) (e : String) : Option Bool → List Operation → Prop
  | _, [] => True
  | known, op :: ops =>
    (Targets op o e → op.verb ∈ [OperationVerb.add, .delete] → known ≠ some false) ∧
      Legible o e (trackLegible o e known op) ops

instance (op : Operation) (o : ObjectFamily) (e : String) : Decidable (Targets op o e) :=
  inferInstanceAs (Decidable (_ ∧ _ ∧ _))

instance Legible.decide (o : ObjectFamily) (e : String) :
    ∀ known ops, Decidable (Legible o e known ops)
  | _, [] => isTrue trivial
  | known, op :: ops =>
    have := Legible.decide o e (trackLegible o e known op) ops
    inferInstanceAs (Decidable ((_ → _ → _) ∧ Legible o e (trackLegible o e known op) ops))

/-! ## Time steps -/

/-- The stored stop is a float, and so is the new one where it is looked at. -/
def Comparable (seg s : Segment) : Prop :=
  ∃ d, segStop s.stop = .ok d ∧ (atMost seg.start d → ∃ d', segStop seg.stop = .ok d')

/-- Each segment that the operation writes can be compared with the stored ones of its field. -/
def SegmentsTake (s : Families × Fold) (op : Operation) : Prop :=
  ∀ i ∈ insertions op, ∀ x ∈ ownedAt (viewOf s) i.family i.field, Comparable i.seg x.1

theorem overlapsFloat_ok {seg s : Segment} :
    (∃ hit, overlapsFloat seg.start seg.stop s.start s.stop = .ok hit) ↔ Comparable seg s := by
  unfold overlapsFloat Comparable
  cases hs : segStop s.stop with
  | error err => simp
  | ok d =>
    dsimp only
    split
    · rename_i hle
      cases hseg : segStop seg.stop <;> simp [Except.map, hle]
    · rename_i hlt
      simp [hlt]

theorem overlapFlags_ok {seg : Segment} {stored : List Segment} :
    (∃ hits, overlapFlags seg stored = .ok hits) ↔ ∀ s ∈ stored, Comparable seg s := by
  induction stored with
  | nil => simp [overlapFlags]
  | cons s stored ih =>
    rw [List.forall_mem_cons, ← overlapsFloat_ok, ← ih]
    rw [overlapFlags]
    cases overlapsFloat seg.start seg.stop s.start s.stop with
    | error err => simp
    | ok hit => cases overlapFlags seg stored <;> simp [Except.map]

theorem insertInto_total {v : SegmentView} {i : Insertion} :
    (∃ w, insertInto v i = .ok w) ↔ ∀ x ∈ ownedAt v i.family i.field, Comparable i.seg x.1 := by
  have hflags : (∃ hits, overlapFlags i.seg ((ownedAt v i.family i.field).map Prod.fst) = .ok hits) ↔
      ∀ s ∈ (ownedAt v i.family i.field).map Prod.fst, Comparable i.seg s := overlapFlags_ok
  simp only [List.forall_mem_map] at hflags
  rw [← hflags]
  constructor
  · rintro ⟨w, hw⟩
    obtain ⟨hits, hhits, -⟩ := except_map_ok.mp hw
    exact ⟨hits, hhits⟩
  · rintro ⟨hits, hhits⟩
    exact ⟨_, except_map_ok.mpr ⟨hits, hhits, rfl⟩⟩

theorem insertions_total {v : SegmentView} {is : List Insertion}
    (hfields : (is.map (·.field)).Nodup) : (∃ w, is.foldlM insertInto v = .ok w) ↔
      ∀ i ∈ is, ∀ x ∈ ownedAt v i.family i.field, Comparable i.seg x.1 := by
  induction is generalizing v with
  | nil => exact iff_of_true ⟨v, rfl⟩ (by simp)
  | cons i is ih =>
    rw [List.map_cons, List.nodup_cons] at hfields
    obtain ⟨hi, hrest⟩ := hfields
    have hkept : ∀ u, insertInto v i = .ok u → ∀ j ∈ is,
        ownedAt u j.family j.field = ownedAt v j.family j.field := by
      intro u hu j hj
      refine (ownedAt_other (fun heq => hi ?_) hu).2
      exact List.mem_map.mpr ⟨j, hj, heq.symm⟩
    rw [List.forall_mem_cons, ← insertInto_total]
    constructor
    · rintro ⟨w, hw⟩
      obtain ⟨u, hu, hw⟩ := foldlM_cons_ok.mp hw
      refine ⟨⟨u, hu⟩, fun j hj => ?_⟩
      rw [← hkept u hu j hj]
      exact (ih hrest).mp ⟨w, hw⟩ j hj
    · rintro ⟨⟨u, hu⟩, htake⟩
      obtain ⟨w, hw⟩ := (ih hrest).mpr fun j hj => hkept u hu j hj ▸ htake j hj
      exact ⟨w, foldlM_cons_ok.mpr ⟨u, hu, hw⟩⟩

theorem insertions_fields (op : Operation) : ((insertions op).map (·.field)).Nodup := by
  unfold insertions
  split
  · split
    · unfold segmentInsertions
      split
      · simp
      · rw [List.map_map]
        refine (congrArg List.Nodup ?_).mpr (itemValues op.payload.mapping).nodup_keys
        exact Std.ExtTreeMap.map_fst_toList_eq_keys
    · simp
  · simp

/-! ## One operation -/

/-- The fold as a run. -/
def foldStep (s : Families × Fold) (op : Operation) : Option (Families × Fold) :=
  (foldOperation s op).toOption

/-- The objects of an operation's family take it. -/
def ObjectsTake (s : Families) (op : Operation) : Prop :=
  ∀ o e, Targets op o e → op.verb ∈ [OperationVerb.add, .delete] →
    legible (s.objects o) e ≠ some false

theorem legible_live {state : ObjectState} {live : Dict String Json}
    (hl : state.objects[e]? = some live) :
    (∃ n, generationOf e live = .ok n) ↔ legible state e ≠ some false := by
  unfold legible
  rw [hl, generationOf_ok]
  unfold Json.get
  cases hv : live["generation"]? with
  | none => simp [Dict.getD_of_none hv, Json.pyInt]
  | some v => simp [Dict.getD_of_some hv]

theorem legible_gone {state : ObjectState} (hl : state.objects[e]? = none) :
    legible state e = none := by
  simp [legible, hl]

theorem previousGeneration_ok {state : ObjectState} :
    (∃ previous, previousGeneration state e = .ok previous) ↔ legible state e ≠ some false := by
  unfold previousGeneration
  cases hl : state.objects[e]? with
  | none => simp [legible_gone hl]
  | some live =>
    rw [← legible_live hl]
    cases hg : generationOf e live <;> simp [Except.map, hg]

theorem objectTurn_total {state : ObjectState} :
    (objectTurn o state op).error? = none ↔
      ∀ e, op.entityId = some e → e ≠ "" → op.verb ∈ [OperationVerb.add, .delete] →
        legible state e ≠ some false := by
  unfold objectTurn
  cases he : op.entityId with
  | none => simp [ObjectTurn.error?]
  | some e =>
    by_cases hne : e = ""
    · simp [hne, ObjectTurn.error?]
    · simp only [hne, if_false, Option.some.injEq, forall_eq', ne_eq, not_false_eq_true,
        forall_true_left]
      cases hv : op.verb
      case add =>
        have hprevious : (∃ previous, previousGeneration state e = .ok previous) ↔
            legible state e ≠ some false := previousGeneration_ok
        cases hp : previousGeneration state e <;> simp_all [ObjectTurn.error?]
      case delete =>
        cases hl : state.objects[e]? with
        | none => simp [legible_gone hl, ObjectTurn.error?]
        | some live =>
          have hlive := legible_live hl
          cases hg : generationOf e live <;> simp_all [ObjectTurn.error?]
      case replace | update | move =>
        cases state.objects[e]? <;> cases state.tombstones[e]? <;> simp [ObjectTurn.error?]
      all_goals simp [ObjectTurn.error?]

theorem foldOperation_total :
    (∃ t, foldOperation s op = .ok t) ↔ ObjectsTake s.1 op ∧ SegmentsTake s op := by
  have htaken : SegmentsTake s op ↔ ∃ w, (insertions op).foldlM insertInto (viewOf s) = .ok w :=
    (insertions_total (insertions_fields op)).symm
  have hnone : (∀ g, op.sourceFamily ≠ .segment g) → SegmentsTake s op := by
    intro hne i hi
    unfold insertions at hi
    split at hi
    · exact absurd ‹_› (hne _)
    · simp at hi
  have htake : (∀ p, op.sourceFamily ≠ .object p) → ObjectsTake s.1 op :=
    fun hne p e htarget => absurd htarget.1 (hne p)
  cases hf : op.sourceFamily with
  | object p =>
    have hturn : (objectTurn p (s.1.objects p) op).error? = none ↔
        ∀ e, op.entityId = some e → e ≠ "" → op.verb ∈ [OperationVerb.add, .delete] →
          legible (s.1.objects p) e ≠ some false := objectTurn_total
    constructor
    · rintro ⟨t, ht⟩
      obtain ⟨herr, -⟩ := (foldOperation_object hf).mp ht
      refine ⟨fun o e htarget => ?_, hnone (by simp [hf])⟩
      obtain rfl : p = o := by simpa [hf] using htarget.1
      exact hturn.mp herr e htarget.2.1 htarget.2.2
    · rintro ⟨htake, -⟩
      refine ⟨_, (foldOperation_object hf).mpr ⟨hturn.mpr fun e he hne => ?_, rfl⟩⟩
      exact htake p e ⟨hf, he, hne⟩
  | landcoverSurface =>
    exact iff_of_true ⟨_, foldOperation_landcover hf⟩ ⟨htake (by simp [hf]), hnone (by simp [hf])⟩
  | segment g =>
    rw [htaken]
    constructor
    · rintro ⟨t, ht⟩
      obtain ⟨w, hw, -⟩ := (foldOperation_segment hf).mp ht
      exact ⟨htake (by simp [hf]), w, hw⟩
    · rintro ⟨-, w, hw⟩
      exact ⟨_, (foldOperation_segment hf).mpr ⟨w, hw, rfl⟩⟩
  | outputView =>
    exact iff_of_true ⟨_, foldOperation_outputView hf⟩ ⟨htake (by simp [hf]), hnone (by simp [hf])⟩

/-! ## The whole fold -/

theorem legible_insert (state : ObjectState) (e' : String) (fields : Dict String Json)
    (tombstones : Dict String Int) :
    legible { objects := state.objects.insert e' fields, tombstones } e =
      if e' = e then some (Json.get fields "generation").pyInt.isSome else legible state e := by
  unfold legible
  split
  · rename_i heq
    simp [heq]
  · rename_i hne
    simp only [Dict.getElem?_insert_of_ne _ _ hne]

theorem legible_erase (state : ObjectState) (e' : String) (tombstones : Dict String Int) :
    legible { objects := state.objects.erase e', tombstones } e =
      if e' = e then none else legible state e := by
  unfold legible
  split
  · rename_i heq
    simp [heq]
  · rename_i hne
    simp only [Dict.getElem?_erase_of_ne _ hne]

theorem legible_over {state : ObjectState} {live : Dict String Json}
    (hl : state.objects[e]? = some live) (fields : Dict String Json) :
    some (Json.get (fields.foldl (fun d k v => d.insert k v) live) "generation").pyInt.isSome =
      (legible state e).map fun b => match fields["generation"]? with
        | some v => v.pyInt.isSome
        | none => b := by
  unfold legible Json.get
  rw [hl, Std.ExtTreeMap.getD_eq_getD_getElem?, Dict.getElem?_foldl_over]
  cases fields["generation"]? with
  | none => simp [Std.ExtTreeMap.getD_eq_getD_getElem?]
  | some v => simp

theorem legible_edit {state : ObjectState} (he : op.entityId = some e) (hne : e ≠ "")
    (hv : op.verb ∈ [OperationVerb.replace, .update, .move]) :
    legible ((objectTurn o state op).state state) e =
      (legible state e).map fun b =>
        match (editFields o op (objectFields o op.payload.mapping))["generation"]? with
        | some v => v.pyInt.isSome
        | none => b := by
  cases hl : state.objects[e]? with
  | some live =>
    rw [objectTurn_edit he hne hv hl, ← legible_over hl]
    exact (legible_insert state e _ _).trans (if_pos rfl)
  | none =>
    have hkeep : (objectTurn o state op).state state = state := by
      simp only [List.mem_cons, List.not_mem_nil, or_false] at hv
      unfold objectTurn
      rcases hv with hv | hv | hv <;> cases ht : state.tombstones[e]? <;>
        simp [he, hne, hv, hl, ht, ObjectTurn.state]
    rw [hkeep, legible_gone hl]
    rfl

theorem legible_step {state next : ObjectState} (hown : op.sourceFamily = .object o)
    (h : objectStep o state op = some next) (hne : e ≠ "") :
    legible next e = trackLegible o e (legible state e) op := by
  obtain ⟨herr, rfl⟩ := objectStep_turn.mp h
  unfold trackLegible
  by_cases he : op.entityId = some e
  · rw [if_pos ⟨hown, he⟩]
    cases hv : op.verb
    case replace | update =>
      refine (legible_edit he hne (by simp [hv])).trans ?_
      simp [editFields, hv]
    case move =>
      refine (legible_edit he hne (by simp [hv])).trans ?_
      simp [editFields_move hv]
    case add =>
      unfold objectTurn at herr ⊢
      simp only [he, hne, hv, if_false] at herr ⊢
      cases hp : previousGeneration state e with
      | error err => simp [hp, ObjectTurn.error?] at herr
      | ok previous =>
        refine (legible_insert state e _ _).trans ((if_pos rfl).trans ?_)
        simp [Json.get, Json.pyInt]
    case delete =>
      unfold objectTurn at herr ⊢
      simp only [he, hne, hv, if_false] at herr ⊢
      cases hl : state.objects[e]? with
      | none => simpa [ObjectTurn.state] using legible_gone hl
      | some live =>
        simp only [hl, Option.map_some] at herr ⊢
        cases hg : generationOf e live with
        | error err => simp [hg, ObjectTurn.error?] at herr
        | ok generation => exact (legible_erase state e _).trans (if_pos rfl)
    all_goals simp [objectTurn, he, hne, hv, ObjectTurn.state]
  · rw [if_neg fun h => he h.2]
    have hturn := objectTurn_spec o state op
    generalize objectTurn o state op = turn at hturn
    cases hturn with
    | audit | fail | reject => rfl
    | add e₀ fields previous he₀ | edit e₀ fields live he₀ =>
      have hother : ¬ e₀ = e := fun heq => he (heq ▸ he₀)
      exact (legible_insert state e₀ _ _).trans (if_neg hother)
    | delete e₀ live generation he₀ =>
      have hother : ¬ e₀ = e := fun heq => he (heq ▸ he₀)
      exact (legible_erase state e₀ _).trans (if_neg hother)

theorem legible_fold (h : foldOperation s op = .ok t) (hne : e ≠ "") :
    legible (t.1.objects o) e = trackLegible o e (legible (s.1.objects o) e) op := by
  by_cases hown : op.sourceFamily = .object o
  · exact legible_step hown (objectStep_own hown h) hne
  · unfold trackLegible
    rw [if_neg fun h => hown h.1, objects_other hown h]

theorem legible_untouched {known : Option Bool} {ops : List Operation}
    (h : ∀ op ∈ ops, ¬ Targets op o e) : Legible o e known ops := by
  induction ops generalizing known with
  | nil => trivial
  | cons op ops ih =>
    obtain ⟨hop, hrest⟩ := List.forall_mem_cons.mp h
    exact ⟨fun ht => absurd ht hop, ih hrest⟩

theorem legible_unnamed {known : Option Bool} {ops : List Operation} : Legible o "" known ops :=
  legible_untouched fun _ _ h => h.2.2 rfl

theorem foldStep_some : foldStep s op = some t ↔ foldOperation s op = .ok t := by
  unfold foldStep
  cases foldOperation s op <;> simp [Except.toOption]

theorem foldlM_total_iff {ops : List Operation} :
    (∃ t, ops.foldlM foldOperation s = .ok t) ↔
      (∀ o e, Legible o e (legible (s.1.objects o) e) ops) ∧
        EachStep foldStep SegmentsTake s ops := by
  induction ops generalizing s with
  | nil => exact iff_of_true ⟨s, rfl⟩ ⟨fun _ _ => trivial, trivial⟩
  | cons op ops ih =>
    have hstep := @foldOperation_total op s
    constructor
    · rintro ⟨t, ht⟩
      obtain ⟨u, hu, ht⟩ := foldlM_cons_ok.mp ht
      obtain ⟨hlegible, hrest⟩ := ih.mp ⟨t, ht⟩
      obtain ⟨htake, htaken⟩ := hstep.mp ⟨u, hu⟩
      refine ⟨fun o e => ?_, htaken, fun u' hu' => ?_⟩
      · by_cases hne : e = ""
        · exact hne ▸ legible_unnamed
        · exact ⟨htake o e, legible_fold hu hne ▸ hlegible o e⟩
      · obtain rfl := Except.ok.inj (hu.symm.trans (foldStep_some.mp hu'))
        exact hrest
    · rintro ⟨hlegible, htaken, hrest⟩
      obtain ⟨u, hu⟩ := hstep.mpr ⟨fun o e => (hlegible o e).1, htaken⟩
      have hafter : ∀ o e, Legible o e (legible (u.1.objects o) e) ops := by
        intro o e
        by_cases hne : e = ""
        · exact hne ▸ legible_unnamed
        · rw [legible_fold hu hne]
          exact (hlegible o e).2
      obtain ⟨t, ht⟩ := ih.mpr ⟨hafter, hrest u (foldStep_some.mpr hu)⟩
      exact ⟨t, foldlM_cons_ok.mpr ⟨u, hu, ht⟩⟩

theorem segmentsTake_of_inRange {ops : List Operation} (hr : InRange ops)
    (hexact : Exact s.1.segments) : EachStep foldStep SegmentsTake s ops := by
  induction ops generalizing s with
  | nil => trivial
  | cons op ops ih =>
    obtain ⟨hop, hrest⟩ := List.forall_mem_cons.mp hr
    have htaken : (insertions op).foldlM insertInto (viewOf s) =
        .ok ((insertions op).foldl insertExact (viewOf s)) ∧
          Exact ((insertions op).foldl insertExact (viewOf s)).1 :=
      foldlM_total (I := fun v : SegmentView => Exact v.1) (fun i hi _ hv => hv.insert (hop i hi)) hexact
    refine ⟨(insertions_total (insertions_fields op)).mp ⟨_, htaken.1⟩, fun t ht => ih hrest ?_⟩
    have hview := foldOperation_view (foldStep_some.mp ht)
    rw [htaken.1, Except.ok.injEq] at hview
    have hafter := htaken.2
    rwa [hview] at hafter

/-! ## Every epoch -/

/-- An epoch of distinct sequences is reduced exactly when no add or delete meets a live generation
that is no number, and each segment write can be compared with the segments that are stored before
it. Moderate times always can. -/
theorem reduceEpoch_total_iff {ops : List Operation}
    (hseq : (ops.map (·.serverSequence)).Nodup) (b : CanonicalState) :
    ((∃ r, reduceEpoch b ops = .ok r) ↔
      (∀ o e, Legible o e (legible (b.families.objects o) e) (inOrder ops)) ∧
        EachStep foldStep SegmentsTake (b.families, {}) (inOrder ops)) ∧
      (InRange ops → Exact b.families.segments →
        EachStep foldStep SegmentsTake (b.families, {}) (inOrder ops)) := by
  have htotal := @foldlM_total_iff (b.families, {}) (inOrder ops)
  refine ⟨Iff.trans ⟨?_, ?_⟩ htotal, fun hr hexact => segmentsTake_of_inRange ?_ hexact⟩
  · rintro ⟨r, hr⟩
    obtain ⟨-, x, hx, -⟩ := reduceEpoch_ok.mp hr
    exact ⟨x, hx⟩
  · rintro ⟨x, hx⟩
    exact ⟨_, reduceEpoch_ok.mpr ⟨hseq, x, hx, rfl⟩⟩
  · exact fun op hop => hr op ((List.mem_insertionSort _).mp hop)

theorem exact_initial : Exact initialState.families.segments := by
  intro g field s hs
  have hempty : (initialState.families.segments g).getD field [] = [] :=
    Dict.getD_of_none Std.ExtTreeMap.getElem?_empty _
  simp [hempty] at hs

/-- A replace that writes a generation, and a time step written twice. -/
def numberedOps : List Operation :=
  [treeOp 1 .add [], treeOp 2 .replace [("generation", .str "7")], treeOp 3 .delete [],
    forcingWrite 4 "ada" 0 5, forcingWrite 5 "bob" 0 6]

theorem numbered_tree : ∃ r, reduceEpoch initialState numberedOps = .ok r := by
  obtain ⟨htotal, hmoderate⟩ := @reduceEpoch_total_iff numberedOps (by decide) initialState
  refine htotal.mpr ⟨fun o e => ?_, hmoderate (by decide) exact_initial⟩
  by_cases hoak : o = .vegetationGeometry ∧ e = "oak"
  · obtain ⟨rfl, rfl⟩ := hoak
    decide
  · refine legible_untouched fun op hop ht => hoak ?_
    have hmem := (List.mem_insertionSort _).mp hop
    simp only [numberedOps, List.mem_cons, List.not_mem_nil, or_false] at hmem
    rcases hmem with rfl | rfl | rfl | rfl | rfl
    case inr.inr.inr.inl | inr.inr.inr.inr => exact absurd ht.1 (by simp [forcingWrite])
    all_goals exact ⟨(SourceFamily.object.inj ht.1).symm, (Option.some.inj ht.2.1).symm⟩

/-- One that writes no number. -/
theorem lettered_tree :
    ([treeOp 1 .add [], treeOp 2 .replace [("generation", .str "abc")], treeOp 3 .delete []].map
      (·.serverSequence)).Nodup ∧
    ¬ ∃ r, reduceEpoch initialState [treeOp 1 .add [],
      treeOp 2 .replace [("generation", .str "abc")], treeOp 3 .delete []] = .ok r := by
  have hstop : (reduceEpoch initialState [treeOp 1 .add [],
    treeOp 2 .replace [("generation", .str "abc")], treeOp 3 .delete []]).isOk = false := by
    decide
  refine ⟨by decide, ?_⟩
  rintro ⟨r, hr⟩
  rw [hr] at hstop
  cases hstop

end Solweig.Realtime
