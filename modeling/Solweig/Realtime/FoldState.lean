import Solweig.Lib.Fold
import Solweig.Realtime.Reducer

/-!
# The fold on the state alone

`applyOperation` is what an operation does to the canonical state when the bookkeeping of the
epoch is fresh. The fold does the same as long as the owners of each segment field stay in step
with the segments of the one family that writes the field.
-/

namespace Solweig.Realtime

open Solweig.Lib Solweig.Lib.Interval

/-! ## What an operation writes -/

/-- The operation writes the field of the segment family. -/
def Writes (op : Operation) (family : SegmentFamily) (field : String) : Prop :=
  op.sourceFamily = .segment family ∧ op.verb ∈ [OperationVerb.set, .select, .update] ∧
    writeBounds family op.payload.mapping ≠ none ∧ field ∈ itemValues op.payload.mapping

instance (op : Operation) (family : SegmentFamily) (field : String) :
    Decidable (Writes op family field) :=
  inferInstanceAs (Decidable (_ ∧ _))

/-- No field name is written in two segment families. -/
def FieldsApart (ops : List Operation) : Prop :=
  ∀ u ∈ ops, ∀ v ∈ ops, ∀ g h field, Writes u g field → Writes v h field → g = h

theorem fieldsApart_of_family {ops : List Operation} {F : SourceFamily}
    (h : ∀ op ∈ ops, op.sourceFamily = F) : FieldsApart ops := by
  intro u hu v hv g k field hug hvk
  have hsame : SourceFamily.segment g = .segment k := by
    rw [← hug.1, ← hvk.1, h u hu, h v hv]
  simpa using hsame

/-! ## Insertions -/

/-- One segment that an operation inserts into a field. -/
structure Insertion where
  op : Operation
  family : SegmentFamily
  field : String
  seg : Segment

def segmentInsertions (family : SegmentFamily) (op : Operation) : List Insertion :=
  match writeBounds family op.payload.mapping with
  | none => []
  | some (start, stop) => (itemValues op.payload.mapping).toList.map fun e =>
    { op, family, field := e.1, seg := { start, stop, value := e.2 } }

/-- What the operation inserts, field by field. -/
def insertions (op : Operation) : List Insertion :=
  match op.sourceFamily with
  | .segment family =>
    if op.verb ∈ [.set, .select, .update] then segmentInsertions family op else []
  | _ => []

theorem writes_iff {op : Operation} {family : SegmentFamily} {field : String} :
    Writes op family field ↔ ∃ i ∈ insertions op, i.family = family ∧ i.field = field := by
  unfold Writes insertions
  cases hf : op.sourceFamily with
  | segment g =>
    simp only [SourceFamily.segment.injEq]
    split
    · rename_i hv
      simp only [hv, true_and, segmentInsertions]
      cases hb : writeBounds g op.payload.mapping with
      | none =>
        simp only [List.not_mem_nil, false_and, exists_false, iff_false, not_and]
        rintro rfl hn
        exact absurd hb hn
      | some bounds =>
        simp only [List.mem_map]
        constructor
        · rintro ⟨rfl, -, hmem⟩
          obtain ⟨v, hv⟩ := Option.isSome_iff_exists.mp (Std.ExtTreeMap.mem_iff_isSome_getElem?.mp hmem)
          exact ⟨_, ⟨(field, v), Std.ExtTreeMap.mem_toList_iff_getElem?_eq_some.mpr hv, rfl⟩, rfl, rfl⟩
        · rintro ⟨_, ⟨e, he, rfl⟩, rfl, rfl⟩
          refine ⟨rfl, by simp [hb], Std.ExtTreeMap.mem_iff_isSome_getElem?.mpr ?_⟩
          simp [Std.ExtTreeMap.mem_toList_iff_getElem?_eq_some.mp he]
    · rename_i hv
      simp [hv]
  | _ => simp

/-- The segments of every family, and the owners that the fold keeps for a field. -/
abbrev SegmentView := (SegmentFamily → SegmentMap) × Dict String (List (Option Operation))

def viewOf (s : Families × Fold) : SegmentView := (s.1.segments, s.2.segmentOwners)

/-- The insert as the fold does it. -/
def insertInto (v : SegmentView) (i : Insertion) : Except ReduceError SegmentView :=
  let segments := (v.1 i.family).getD i.field []
  let stored := segments.zip (v.2.getD i.field (segments.map fun _ => none))
  (overlapFlags i.seg (stored.map Prod.fst)).map fun hits =>
    let merged := placeOwned (stored.zip hits) i.seg i.op
    (Function.update v.1 i.family ((v.1 i.family).insert i.field (merged.map Prod.fst)),
      v.2.insert i.field (merged.map Prod.snd))

/-- The conflicts of one insert, and of several one after another. -/
def insertConflicts (v : SegmentView) (i : Insertion) : List ConflictRecord :=
  let segments := (v.1 i.family).getD i.field []
  let stored := segments.zip (v.2.getD i.field (segments.map fun _ => none))
  match overlapFlags i.seg (stored.map Prod.fst) with
  | .error _ => []
  | .ok hits => (stored.zip hits).filterMap (overlapConflict i.family i.field i.seg i.op)

def conflictsAlong (v : SegmentView) : List Insertion → List ConflictRecord
  | [] => []
  | i :: is => insertConflicts v i ++
    match insertInto v i with
    | .error _ => []
    | .ok w => conflictsAlong w is

/-- The insert on the segments alone. -/
def pasteInto (segments : SegmentFamily → SegmentMap) (i : Insertion) :
    Except ReduceError (SegmentFamily → SegmentMap) :=
  let stored := (segments i.family).getD i.field []
  (overlapFlags i.seg stored).map fun hits =>
    Function.update segments i.family ((segments i.family).insert i.field
      (placeSegments (stored.zip hits) i.seg))

/-- The operation on the state alone. -/
def applyOperation (s : Families) (op : Operation) : Except ReduceError Families :=
  match op.sourceFamily with
  | .object family => (foldObject family (s.objects family) op {}).map fun r =>
    { s with objects := Function.update s.objects family r.1 }
  | .landcoverSurface =>
    .ok (if op.verb = .paint then { s with chunks := (foldPaint s.chunks op {}).1 } else s)
  | .segment _ => ((insertions op).foldlM pasteInto s.segments).map fun segments =>
    { s with segments }
  | .outputView =>
    .ok (if op.verb = .select then { s with view := (foldView s.view op {}).1 } else s)

/-! ## What an operation on an object does

Which branch is taken, the state and the operation decide. The bookkeeping enters the conflict
records only. -/

inductive ObjectTurn where
  | audit
  | fail (error : ReduceError)
  | add (entityId : String) (fields : Dict String Json) (previous : Option Int)
  | edit (entityId : String) (fields live : Dict String Json)
  | reject (entityId : String) (generation : Int)
  | delete (entityId : String) (generation : Int)

def objectTurn (family : ObjectFamily) (state : ObjectState) (op : Operation) : ObjectTurn :=
  match op.entityId with
  | none => .audit
  | some entityId =>
    if entityId = "" then .audit
    else
      let fields := objectFields family op.payload.mapping
      match op.verb with
      | .add =>
        match previousGeneration state entityId with
        | .error e => .fail e
        | .ok previous => .add entityId fields previous
      | .replace | .update | .move =>
        match state.objects[entityId]?, state.tombstones[entityId]? with
        | some live, _ => .edit entityId (editFields family op fields) live
        | none, some generation => .reject entityId generation
        | none, none => .audit
      | .delete =>
        match state.objects[entityId]?.map (generationOf entityId) with
        | none => .audit
        | some (.error e) => .fail e
        | some (.ok generation) => .delete entityId generation
      | _ => .audit

namespace ObjectTurn

def error? : ObjectTurn → Option ReduceError
  | .fail e => some e
  | _ => none

def state (before : ObjectState) : ObjectTurn → ObjectState
  | .add entityId fields previous =>
    { objects := before.objects.insert entityId
        (fields.insert "generation" (.int (nextGeneration previous)))
      tombstones := if entityId ∈ before.objects then before.tombstones
        else before.tombstones.erase entityId }
  | .edit entityId fields live =>
    { before with
      objects := before.objects.insert entityId (fields.foldl (fun e k v => e.insert k v) live) }
  | .delete entityId generation =>
    { objects := before.objects.erase entityId
      tombstones := before.tombstones.insert entityId generation }
  | _ => before

def conflicts (family : ObjectFamily) (before : ObjectState) (op : Operation) (fold : Fold) :
    ObjectTurn → List ConflictRecord
  | .add entityId _ previous =>
    (previous.map (recreatedConflict family entityId op (fold.addOps.getD entityId [])
      (entityId ∈ before.tombstones))).toList
  | .reject entityId generation =>
    [rejectedConflict family entityId op fold.deleteOps[entityId]? generation]
  | _ => []

/-- The operation is recorded as the writer of each field it wrote. -/
def fold (family : ObjectFamily) (before : ObjectState) (op : Operation) (fold : Fold)
    (turn : ObjectTurn) : Fold :=
  { fold with
    conflicts := fold.conflicts ++ turn.conflicts family before op fold
    addOps := match turn with
      | .add entityId _ _ => fold.addOps.push entityId op
      | _ => fold.addOps
    deleteOps := match turn with
      | .delete entityId _ => fold.deleteOps.insert entityId op
      | _ => fold.deleteOps
    fieldWriters := match turn with
      | .add entityId fields _ | .edit entityId fields _ =>
        recordWriters fold family entityId op fields
      | _ => fold.fieldWriters }

end ObjectTurn

theorem foldObject_turn (family : ObjectFamily) (state : ObjectState) (op : Operation)
    (fold : Fold) :
    foldObject family state op fold =
      match (objectTurn family state op).error? with
      | some e => .error e
      | none => .ok ((objectTurn family state op).state state,
          (objectTurn family state op).fold family state op fold) := by
  unfold foldObject objectTurn
  cases op.entityId with
  | none => simp [ObjectTurn.error?, ObjectTurn.state, ObjectTurn.fold, ObjectTurn.conflicts]
  | some entityId =>
    dsimp only
    split
    · simp [ObjectTurn.error?, ObjectTurn.state, ObjectTurn.fold, ObjectTurn.conflicts]
    · cases op.verb
      case add =>
        simp only [foldAdd]
        cases previousGeneration state entityId <;> rfl
      case delete =>
        simp only [foldDelete]
        cases state.objects[entityId]? with
        | none => simp [ObjectTurn.error?, ObjectTurn.state, ObjectTurn.fold, ObjectTurn.conflicts]
        | some live =>
          simp only [Option.map_some]
          cases generationOf entityId live with
          | error e => rfl
          | ok generation => simp [Except.map, ObjectTurn.error?, ObjectTurn.state,
              ObjectTurn.fold, ObjectTurn.conflicts]
      case replace | update | move =>
        simp only [foldEdit]
        cases state.objects[entityId]? <;> cases state.tombstones[entityId]? <;>
          simp [ObjectTurn.error?, ObjectTurn.state, ObjectTurn.fold, ObjectTurn.conflicts]
      all_goals simp [ObjectTurn.error?, ObjectTurn.state, ObjectTurn.fold, ObjectTurn.conflicts]

theorem foldObject_ok {family : ObjectFamily} {state : ObjectState} {op : Operation}
    {fold : Fold} {r : ObjectState × Fold} :
    foldObject family state op fold = .ok r ↔
      (objectTurn family state op).error? = none ∧
        r = ((objectTurn family state op).state state,
          (objectTurn family state op).fold family state op fold) := by
  rw [foldObject_turn]
  cases (objectTurn family state op).error? with
  | some e => simp
  | none =>
    simp only [Except.ok.injEq, true_and]
    exact eq_comm

/-! ## Families without bookkeeping in their state -/

theorem foldObject_state (family : ObjectFamily) (state : ObjectState) (op : Operation)
    (fold fold' : Fold) :
    (foldObject family state op fold).map Prod.fst =
      (foldObject family state op fold').map Prod.fst := by
  simp only [foldObject_turn]
  cases objectTurn family state op <;> rfl

theorem foldPaint_state (chunks : Chunks) (op : Operation) (fold fold' : Fold) :
    (foldPaint chunks op fold).1 = (foldPaint chunks op fold').1 := by
  unfold foldPaint
  cases paintClass op.payload.mapping with
  | none => rfl
  | some code =>
    dsimp only
    generalize paintCells op.payload.mapping = cells
    induction cells generalizing chunks fold fold' with
    | nil => rfl
    | cons cell cells ih => exact ih _ _ _

theorem foldView_state (state : ViewState) (op : Operation) (fold fold' : Fold) :
    (foldView state op fold).1 = (foldView state op fold').1 := by
  simp only [foldView]
  split <;> rfl

/-! ## Segments and their owners -/

theorem insertSegment_insertInto (segments : SegmentFamily → SegmentMap) (fold : Fold)
    (i : Insertion) :
    (insertSegment i.family (segments i.family) fold i.field i.seg i.op).map
        (fun r => (Function.update segments i.family r.1, r.2)) =
      (insertInto (segments, fold.segmentOwners) i).map fun v => (v.1, { fold with
        conflicts := fold.conflicts ++ insertConflicts (segments, fold.segmentOwners) i
        segmentOwners := v.2 }) := by
  unfold insertSegment insertInto insertConflicts
  dsimp only
  rw [except_map_map, except_map_map]
  generalize hflags : overlapFlags i.seg _ = flags
  cases flags <;> rfl

theorem foldSegments_fold (family : SegmentFamily) (segments : SegmentFamily → SegmentMap)
    (op : Operation) (fold : Fold) :
    (foldSegments family (segments family) op fold).map
        (fun r => (Function.update segments family r.1, r.2)) =
      ((segmentInsertions family op).foldlM insertInto (segments, fold.segmentOwners)).map
        fun v => (v.1, { fold with
          conflicts := fold.conflicts ++
            conflictsAlong (segments, fold.segmentOwners) (segmentInsertions family op)
          segmentOwners := v.2 }) := by
  unfold foldSegments segmentInsertions
  cases writeBounds family op.payload.mapping with
  | none => simp [Except.map, pure, Except.pure, conflictsAlong]
  | some bounds =>
    dsimp only
    generalize (itemValues op.payload.mapping).toList = entries
    induction entries generalizing segments fold with
    | nil => simp [Except.map, pure, Except.pure, conflictsAlong]
    | cons e rest ih =>
      let i : Insertion := ⟨op, family, e.1, ⟨bounds.1, bounds.2, e.2⟩⟩
      have hstep := insertSegment_insertInto segments fold i
      rw [List.map_cons, List.foldlM_cons, List.foldlM_cons, conflictsAlong]
      cases hv : insertInto (segments, fold.segmentOwners) i with
      | error e' =>
        rw [hv] at hstep
        cases hr : insertSegment family (segments family) fold e.1 ⟨bounds.1, bounds.2, e.2⟩ op with
        | error e'' =>
          rw [hr] at hstep
          exact congrArg Except.error (Except.error.inj hstep)
        | ok r =>
          rw [hr] at hstep
          cases hstep
      | ok v =>
        obtain ⟨after, owners⟩ := v
        rw [hv] at hstep
        obtain ⟨r, hr, heq⟩ := except_map_ok.mp hstep
        obtain ⟨rfl, hfold⟩ := Prod.mk.inj heq
        have := ih (Function.update segments family r.1) r.2
        simp only [Function.update_self, Function.update_idem] at this
        rw [show insertSegment family (segments family) fold e.1 ⟨bounds.1, bounds.2, e.2⟩ op = .ok r
          from hr]
        refine this.trans ?_
        simp only [hfold, List.append_assoc]
        rfl

theorem foldSegments_view (family : SegmentFamily) (segments : SegmentFamily → SegmentMap)
    (op : Operation) (fold : Fold) :
    (foldSegments family (segments family) op fold).map
        (fun r => (Function.update segments family r.1, r.2.segmentOwners)) =
      (segmentInsertions family op).foldlM insertInto (segments, fold.segmentOwners) := by
  have h := congrArg (Except.map fun r => (r.1, r.2.segmentOwners))
    (foldSegments_fold family segments op fold)
  rw [except_map_map, except_map_map] at h
  refine h.trans ?_
  cases (segmentInsertions family op).foldlM insertInto (segments, fold.segmentOwners) <;> rfl

section Synced

-- which family writes which field
variable (W : SegmentFamily → String → Prop)

/-- The owners of a field are as many as the segments of a family that writes it. -/
def Synced (v : SegmentView) : Prop :=
  ∀ field owners, v.2[field]? = some owners →
    ∃ g, W g field ∧ owners.length = ((v.1 g).getD field []).length

theorem synced_fresh (segments : SegmentFamily → SegmentMap) : Synced W (segments, ∅) := by
  intro field owners h
  simp at h

variable {W}

theorem insertInto_fst {v : SegmentView} {i : Insertion}
    (h : ∀ owners, v.2[i.field]? = some owners →
      ((v.1 i.family).getD i.field []).length ≤ owners.length) :
    (insertInto v i).map Prod.fst = pasteInto v.1 i := by
  unfold insertInto pasteInto
  dsimp only
  rw [List.map_fst_zip]
  · cases overlapFlags i.seg ((v.1 i.family).getD i.field []) with
    | error e => rfl
    | ok hits =>
      simp only [Except.map, placeOwned_fst]
      rw [List.map_fst_zip]
      exact enough h
  · exact enough h
where
  enough {v : SegmentView} {i : Insertion} (h : ∀ owners, v.2[i.field]? = some owners →
      ((v.1 i.family).getD i.field []).length ≤ owners.length) :
      ((v.1 i.family).getD i.field []).length ≤
        (v.2.getD i.field (((v.1 i.family).getD i.field []).map fun _ => none)).length := by
    cases howners : v.2[i.field]? with
    | none => simp [Dict.getD_of_none howners]
    | some owners =>
      rw [Dict.getD_of_some howners]
      exact h owners howners

theorem insertInto_ok {v w : SegmentView} {i : Insertion} (h : insertInto v i = .ok w) :
    ∃ segments owners, owners.length = segments.length ∧
      w = (Function.update v.1 i.family ((v.1 i.family).insert i.field segments),
        v.2.insert i.field owners) := by
  obtain ⟨hits, -, rfl⟩ := except_map_ok.mp h
  exact ⟨_, _, by simp, rfl⟩

theorem insertInto_family {v w : SegmentView} {i : Insertion} (h : insertInto v i = .ok w)
    {g : SegmentFamily} (hg : g ≠ i.family) : w.1 g = v.1 g := by
  obtain ⟨segments, owners, -, rfl⟩ := insertInto_ok h
  simp [hg]

theorem insertInto_owners {v w : SegmentView} {i : Insertion} (h : insertInto v i = .ok w)
    {field : String} (hf : i.field ≠ field) : w.2[field]? = v.2[field]? := by
  obtain ⟨segments, owners, -, rfl⟩ := insertInto_ok h
  exact Dict.getElem?_insert_of_ne _ _ hf

theorem Synced.insert (hW : ∀ g h field, W g field → W h field → g = h) {v : SegmentView}
    (hs : Synced W v) {i : Insertion} (hi : W i.family i.field) :
    (insertInto v i).map Prod.fst = pasteInto v.1 i ∧
      ∀ w, insertInto v i = .ok w → Synced W w := by
  refine ⟨insertInto_fst fun owners h => ?_, fun w hw => ?_⟩
  · obtain ⟨g, hg, hlen⟩ := hs i.field owners h
    rw [hW i.family g i.field hi hg, hlen]
  · obtain ⟨segments, owners, hlen, rfl⟩ := insertInto_ok hw
    intro f owners' hf
    by_cases hff : i.field = f
    · subst hff
      simp only [Std.ExtTreeMap.getElem?_insert_self, Option.some.injEq] at hf
      refine ⟨i.family, hi, ?_⟩
      simp [← hf, hlen]
    · dsimp only at hf
      rw [Dict.getElem?_insert_of_ne _ _ hff] at hf
      obtain ⟨g, hg, hlen'⟩ := hs f owners' hf
      refine ⟨g, hg, ?_⟩
      rw [hlen']
      by_cases hgi : g = i.family
      · subst hgi
        simp [Dict.getD_insert_of_ne _ _ _ hff]
      · simp [hgi]

theorem Synced.foldlM (hW : ∀ g h field, W g field → W h field → g = h) {v : SegmentView}
    (hs : Synced W v) {is : List Insertion} (his : ∀ i ∈ is, W i.family i.field) :
    (is.foldlM insertInto v).map Prod.fst = is.foldlM pasteInto v.1 ∧
      ∀ w, is.foldlM insertInto v = .ok w → Synced W w :=
  foldlM_view_map (fun i hi _ hv => hv.insert hW (his i hi)) hs

end Synced

/-! ## The whole fold -/

theorem foldObject_owners {family : ObjectFamily} {state : ObjectState} {op : Operation}
    {fold : Fold} {r : ObjectState × Fold} (h : foldObject family state op fold = .ok r) :
    r.2.segmentOwners = fold.segmentOwners := by
  obtain ⟨-, rfl⟩ := foldObject_ok.mp h
  cases objectTurn family state op <;> rfl

theorem foldPaint_owners (chunks : Chunks) (op : Operation) (fold : Fold) :
    (foldPaint chunks op fold).2.segmentOwners = fold.segmentOwners := by
  unfold foldPaint
  cases paintClass op.payload.mapping with
  | none => rfl
  | some code =>
    dsimp only
    generalize paintCells op.payload.mapping = cells
    induction cells generalizing chunks fold with
    | nil => rfl
    | cons cell cells ih => exact ih _ _

theorem foldView_owners (state : ViewState) (op : Operation) (fold : Fold) :
    (foldView state op fold).2.segmentOwners = fold.segmentOwners := by
  simp only [foldView]
  split <;> rfl

theorem foldOperation_view {s : Families × Fold} {op : Operation} {r : Families × Fold}
    (h : foldOperation s op = .ok r) :
    (insertions op).foldlM insertInto (viewOf s) = .ok (viewOf r) := by
  unfold foldOperation at h
  unfold insertions
  cases hf : op.sourceFamily with
  | object family =>
    simp only [hf] at h ⊢
    cases hr : foldObject family (s.1.objects family) op s.2 with
    | error e => simp [hr, Except.map] at h
    | ok q =>
      simp only [hr, Except.map, Except.ok.injEq] at h
      simp [← h, viewOf, foldObject_owners hr, pure, Except.pure]
  | landcoverSurface =>
    simp only [hf] at h ⊢
    split at h <;> simp only [Except.ok.injEq] at h <;>
      simp [← h, viewOf, foldPaint_owners, pure, Except.pure]
  | segment family =>
    simp only [hf] at h ⊢
    split at h
    · rw [if_pos ‹_›, viewOf, ← foldSegments_view]
      cases hr : foldSegments family (s.1.segments family) op s.2 with
      | error e => simp [hr, Except.map] at h
      | ok q =>
        simp only [hr, Except.map, Except.ok.injEq] at h ⊢
        rw [← h, viewOf]
    · simp only [Except.ok.injEq] at h
      rw [if_neg ‹_›, h]
      rfl
  | outputView =>
    simp only [hf] at h ⊢
    split at h <;> simp only [Except.ok.injEq] at h <;>
      simp [← h, viewOf, foldView_owners, pure, Except.pure]

theorem foldlM_view {s : Families × Fold} {ops : List Operation} {r : Families × Fold}
    (h : ops.foldlM foldOperation s = .ok r) :
    (ops.flatMap insertions).foldlM insertInto (viewOf s) = .ok (viewOf r) := by
  induction ops generalizing s with
  | nil =>
    cases h
    rfl
  | cons op ops ih =>
    obtain ⟨q, hq, hrest⟩ := foldlM_cons_ok.mp h
    rw [List.flatMap_cons]
    exact foldlM_append_ok.mpr ⟨viewOf q, foldOperation_view hq, ih hrest⟩

theorem foldOperation_apply {W : SegmentFamily → String → Prop}
    (hW : ∀ g h field, W g field → W h field → g = h) {s : Families × Fold}
    (hs : Synced W (viewOf s)) {op : Operation} (hop : ∀ i ∈ insertions op, W i.family i.field) :
    (foldOperation s op).map Prod.fst = applyOperation s.1 op := by
  unfold foldOperation applyOperation
  cases hf : op.sourceFamily with
  | object family =>
    have hstate := foldObject_state family (s.1.objects family) op s.2 {}
    dsimp only
    cases hr : foldObject family (s.1.objects family) op s.2 <;>
      cases hr' : foldObject family (s.1.objects family) op {} <;>
      simp_all [Except.map]
  | landcoverSurface =>
    dsimp only
    split
    · rw [← foldPaint_state s.1.chunks op s.2 {}]
      rfl
    · rfl
  | segment family =>
    have hfst := (hs.foldlM hW hop).1
    simp only [insertions, hf] at hfst ⊢
    split
    · rw [if_pos ‹_›, viewOf, ← foldSegments_view] at hfst
      rw [← hfst]
      cases foldSegments family (s.1.segments family) op s.2 <;> rfl
    · simp [Except.map, pure, Except.pure]
  | outputView =>
    dsimp only
    split
    · rw [← foldView_state s.1.view op s.2 {}]
      rfl
    · rfl

theorem foldlM_apply {W : SegmentFamily → String → Prop}
    (hW : ∀ g h field, W g field → W h field → g = h) {s : Families × Fold}
    (hs : Synced W (viewOf s)) {ops : List Operation}
    (hops : ∀ op ∈ ops, ∀ i ∈ insertions op, W i.family i.field) :
    (ops.foldlM foldOperation s).map Prod.fst = ops.foldlM applyOperation s.1 := by
  refine (foldlM_view_map (I := fun s => Synced W (viewOf s)) (fun op hop s hs => ?_) hs).1
  refine ⟨foldOperation_apply hW hs (hops op hop), fun t ht => ?_⟩
  exact (hs.foldlM hW (hops op hop)).2 _ (foldOperation_view ht)

theorem foldlM_apply_of_apart {s : Families} {ops : List Operation} (hops : FieldsApart ops) :
    (ops.foldlM foldOperation (s, {})).map Prod.fst = ops.foldlM applyOperation s := by
  refine foldlM_apply (W := fun g field => ∃ op ∈ ops, Writes op g field) ?_ (synced_fresh _ _) ?_
  · rintro g h field ⟨u, hu, hug⟩ ⟨v, hv, hvh⟩
    exact hops u hu v hv g h field hug hvh
  · intro op hop i hi
    exact ⟨op, hop, writes_iff.mpr ⟨i, hi, rfl, rfl⟩⟩

theorem insertions_proper {op : Operation} {i : Insertion} (hi : i ∈ insertions op) :
    i.seg.Proper := by
  unfold insertions at hi
  split at hi
  · rename_i family hf
    split at hi
    · unfold segmentInsertions at hi
      split at hi
      · simp at hi
      · rename_i start stop hb
        obtain ⟨e, -, rfl⟩ := List.mem_map.mp hi
        cases stop with
        | none => trivial
        | some b => exact writeBounds_le hb b rfl
    · simp at hi
  · simp at hi

theorem applyOperation_segments {s s' : Families} {op : Operation}
    (h : applyOperation s op = .ok s') :
    (insertions op).foldlM pasteInto s.segments = .ok s'.segments := by
  unfold applyOperation at h
  cases hf : op.sourceFamily with
  | object family =>
    simp only [hf] at h
    cases hr : foldObject family (s.objects family) op {} with
    | error e => simp [hr, Except.map] at h
    | ok r =>
      simp only [hr, Except.map, Except.ok.injEq] at h
      simp [insertions, hf, ← h, pure, Except.pure]
  | landcoverSurface =>
    simp only [hf, Except.ok.injEq] at h
    subst h
    split <;> simp [insertions, hf, pure, Except.pure]
  | segment family =>
    simp only [hf] at h
    cases hr : (insertions op).foldlM pasteInto s.segments with
    | error e => simp [hr, Except.map] at h
    | ok segments =>
      simp only [hr, Except.map, Except.ok.injEq] at h
      rw [← h]
  | outputView =>
    simp only [hf, Except.ok.injEq] at h
    subst h
    split <;> simp [insertions, hf, pure, Except.pure]

theorem foldlM_apply_segments {s s' : Families} {ops : List Operation}
    (h : ops.foldlM applyOperation s = .ok s') :
    (ops.flatMap insertions).foldlM pasteInto s.segments = .ok s'.segments := by
  induction ops generalizing s with
  | nil =>
    cases h
    rfl
  | cons op ops ih =>
    obtain ⟨q, hq, hrest⟩ := foldlM_cons_ok.mp h
    rw [List.flatMap_cons]
    exact foldlM_append_ok.mpr ⟨q.segments, applyOperation_segments hq, ih hrest⟩

/-! ## When the fold runs to its end

It stops only at an object or at a segment, whatever the other families and the bookkeeping
hold. -/

theorem foldOperation_objects {s r t : Families × Fold} {op : Operation} {v : SegmentView}
    (h : foldOperation s op = .ok r) (ht : t.1.objects = s.1.objects)
    (hv : (insertions op).foldlM insertInto (viewOf t) = .ok v) :
    ∃ q, foldOperation t op = .ok q ∧ q.1.objects = r.1.objects := by
  unfold foldOperation at h ⊢
  cases hf : op.sourceFamily with
  | object family =>
    simp only [hf, ht] at h ⊢
    have hstate := foldObject_state family (s.1.objects family) op s.2 t.2
    cases hr : foldObject family (s.1.objects family) op s.2 with
    | error e => simp [hr, Except.map] at h
    | ok p =>
      cases hr' : foldObject family (s.1.objects family) op t.2 with
      | error e => simp [hr, hr', Except.map] at hstate
      | ok p' =>
        simp only [hr, hr', Except.map, Except.ok.injEq] at h hstate ⊢
        refine ⟨_, rfl, ?_⟩
        simp only [← h, hstate]
  | landcoverSurface | outputView =>
    simp only [hf] at h ⊢
    split at h <;> simp only [Except.ok.injEq] at h <;> subst h <;> simp [*]
  | segment family =>
    simp only [hf, insertions] at h hv ⊢
    split at h
    · rw [if_pos ‹_›] at hv ⊢
      rw [viewOf, ← foldSegments_view] at hv
      cases hr : foldSegments family (s.1.segments family) op s.2 with
      | error e => simp [hr, Except.map] at h
      | ok p =>
        cases hr' : foldSegments family (t.1.segments family) op t.2 with
        | error e => simp [hr', Except.map] at hv
        | ok p' =>
          simp only [hr, Except.map, Except.ok.injEq] at h
          exact ⟨_, rfl, by rw [← h]; exact ht⟩
    · simp only [Except.ok.injEq] at h
      rw [if_neg ‹_›]
      exact ⟨t, rfl, by rw [← h]; exact ht⟩

theorem foldlM_objects {s r t : Families × Fold} {ops : List Operation} {v : SegmentView}
    (h : ops.foldlM foldOperation s = .ok r) (ht : t.1.objects = s.1.objects)
    (hv : (ops.flatMap insertions).foldlM insertInto (viewOf t) = .ok v) :
    ∃ q, ops.foldlM foldOperation t = .ok q ∧ q.1.objects = r.1.objects := by
  induction ops generalizing s t with
  | nil =>
    cases h
    exact ⟨t, rfl, ht⟩
  | cons op ops ih =>
    obtain ⟨p, hp, hrest⟩ := foldlM_cons_ok.mp h
    rw [List.flatMap_cons] at hv
    obtain ⟨w, hw, hv⟩ := foldlM_append_ok.mp hv
    obtain ⟨q, hq, hobj⟩ := foldOperation_objects hp ht hw
    rw [foldOperation_view hq, Except.ok.injEq] at hw
    obtain ⟨q', hq', hobj'⟩ := ih hrest hobj (hw ▸ hv)
    exact ⟨q', foldlM_cons_ok.mpr ⟨q, hq, hq'⟩, hobj'⟩

/-! ## One epoch -/

/-- In the order of the log, with distinct sequences. -/
def InLogOrder (ops : List Operation) : Prop :=
  ops.Pairwise fun a b => a.serverSequence < b.serverSequence

instance (ops : List Operation) : Decidable (InLogOrder ops) :=
  inferInstanceAs (Decidable (ops.Pairwise _))

theorem firstDuplicate_eq_none {seen ns : List Nat} :
    firstDuplicate seen ns = none ↔ ns.Nodup ∧ ∀ n ∈ ns, n ∉ seen := by
  induction ns generalizing seen with
  | nil => simp [firstDuplicate]
  | cons n ns ih =>
    simp only [firstDuplicate]
    split
    · simp_all
    · rw [ih]
      rw [List.nodup_cons, List.forall_mem_cons]
      simp only [List.mem_cons, not_or]
      constructor
      · rintro ⟨hd, hn⟩
        exact ⟨⟨fun h => (hn n h).1 rfl, hd⟩, ‹_›, fun m hm => (hn m hm).2⟩
      · rintro ⟨⟨hn, hd⟩, -, hs⟩
        exact ⟨hd, fun m hm => ⟨fun h => hn (h ▸ hm), hs m hm⟩⟩

theorem reduceEpoch_ok {b : CanonicalState} {ops : List Operation} {r : EpochReduction} :
    reduceEpoch b ops = .ok r ↔ (ops.map (·.serverSequence)).Nodup ∧
      ∃ p, (inOrder ops).foldlM foldOperation (b.families, {}) = .ok p ∧
        r = reduction b (inOrder ops) p := by
  have hdup := @firstDuplicate_eq_none [] (ops.map (·.serverSequence))
  simp only [List.not_mem_nil, not_false_eq_true, implies_true, and_true] at hdup
  rw [← hdup, reduceEpoch]
  cases firstDuplicate [] (ops.map (·.serverSequence)) with
  | some n => simp
  | none =>
    cases (inOrder ops).foldlM foldOperation (b.families, {}) with
    | error e => simp [Except.map]
    | ok p =>
      simp only [Except.map, Except.ok.injEq, true_and]
      constructor
      · intro h
        exact ⟨p, rfl, h.symm⟩
      · rintro ⟨_, rfl, h⟩
        exact h.symm

theorem InLogOrder.inOrder {ops : List Operation} (h : InLogOrder ops) : inOrder ops = ops :=
  List.Pairwise.insertionSort_eq (List.Pairwise.imp Nat.le_of_lt h)

theorem InLogOrder.nodup {ops : List Operation} (h : InLogOrder ops) :
    (ops.map (·.serverSequence)).Nodup :=
  List.pairwise_map.mpr (List.Pairwise.imp Nat.ne_of_lt h)

theorem reduceEpoch_log {b : CanonicalState} {ops : List Operation} (h : InLogOrder ops)
    {r : EpochReduction} :
    reduceEpoch b ops = .ok r ↔
      ∃ p, ops.foldlM foldOperation (b.families, {}) = .ok p ∧ r = reduction b ops p := by
  rw [reduceEpoch_ok, h.inOrder, and_iff_right h.nodup]

theorem reduceEpoch_state {b : CanonicalState} {ops : List Operation} (h : InLogOrder ops)
    (hf : FieldsApart ops) :
    (reduceEpoch b ops).map (·.state.families) = ops.foldlM applyOperation b.families := by
  rw [← foldlM_apply_of_apart hf]
  have hdup : firstDuplicate [] (ops.map (·.serverSequence)) = none :=
    firstDuplicate_eq_none.mpr ⟨h.nodup, by simp⟩
  simp only [reduceEpoch, hdup, h.inOrder]
  cases ops.foldlM foldOperation (b.families, {}) <;> rfl

/-! ## The groups of a diff -/

theorem byClass_get {diff : Dict Key Int} {code : Int} {cells : List Key}
    (h : (byClass diff)[code]? = some cells) (cell : Key) :
    cell ∈ cells ↔ diff[cell]? = some code := by
  unfold byClass at h
  rw [Dict.getElem?_foldl_push] at h
  split at h
  · obtain rfl := Option.some.inj h
    simp only [List.mem_map, List.mem_filter, decide_eq_true_eq]
    constructor
    · rintro ⟨x, ⟨hx, rfl⟩, rfl⟩
      exact Std.ExtTreeMap.mem_toList_iff_getElem?_eq_some.mp hx
    · intro hcell
      exact ⟨(cell, code), ⟨Std.ExtTreeMap.mem_toList_iff_getElem?_eq_some.mpr hcell, rfl⟩, rfl⟩
  · cases h

theorem byClass_nonempty {diff : Dict Key Int} {code : Int} {cells : List Key}
    (h : (byClass diff)[code]? = some cells) : ∃ cell, cell ∈ cells := by
  have hget := byClass_get h
  unfold byClass at h
  rw [Dict.getElem?_foldl_push] at h
  split at h
  · rename_i hclass
    obtain ⟨x, hx, rfl⟩ := hclass
    exact ⟨x.1, (hget x.1).mpr (Std.ExtTreeMap.mem_toList_iff_getElem?_eq_some.mp hx)⟩
  · cases h

theorem exists_byClass {diff : Dict Key Int} {code : Int} {cell : Key}
    (h : diff[cell]? = some code) : ∃ cells, (byClass diff)[code]? = some cells := by
  unfold byClass
  rw [Dict.getElem?_foldl_push,
    if_pos ⟨(cell, code), Std.ExtTreeMap.mem_toList_iff_getElem?_eq_some.mpr h, rfl⟩]
  exact ⟨_, rfl⟩

theorem chunkDiff_some {s : Chunks} {chunk cell : Key} {cells : Dict Key Int} {code : Int} :
    (chunkDiff s chunk cells)[cell]? = some code ↔
      cells[cell]? = some code ∧ (s.getD chunk ∅)[cell]? ≠ some code := by
  unfold chunkDiff
  rw [Std.ExtTreeMap.getElem?_filter', Option.filter_eq_some_iff]
  simp

end Solweig.Realtime
