import Solweig.Lib.Fold
import Solweig.Realtime.FoldState

/-!
# One family of a fold

What a family shows of a reduction: its state, its delta and its conflicts. Each operation
changes the view of its own family, and of another one only through bookkeeping that is keyed by
a bare entity id or field name.
-/

namespace Solweig.Realtime

open Solweig.Lib

def conflictsOf (F : SourceFamily) (conflicts : List ConflictRecord) : List ConflictRecord :=
  conflicts.filter fun c => c.sourceFamily = F

def deltaOf (F : SourceFamily) (r : EpochReduction) : Option FamilyDelta :=
  r.reduced.familyDeltas.find? fun d => d.family = F

theorem familyDelta_family (F : SourceFamily) (b s : Families) (fold : Fold) :
    (familyDelta F b s fold).family = F := by
  cases F <;> rfl

/-- The operations of one family. -/
def ownOps (F : SourceFamily) (ops : List Operation) : List Operation :=
  ops.filter fun op => op.sourceFamily = F

/-- Every family shows what it shows when its operations are reduced alone. -/
def Independent (b : CanonicalState) (ops : List Operation) : Prop :=
  ∀ r, reduceEpoch b ops = .ok r → ∀ F, ∃ q, reduceEpoch b (ownOps F ops) = .ok q ∧
    r.state.families.SameAt F q.state.families ∧ deltaOf F r = deltaOf F q ∧
    conflictsOf F r.reduced.conflicts = conflictsOf F q.reduced.conflicts

/-! ## One step of the fold, family by family -/

section Step

variable {s t : Families × Fold} {op : Operation}

theorem foldOperation_object {o : ObjectFamily} (hf : op.sourceFamily = .object o) :
    foldOperation s op = .ok t ↔
      (objectTurn o (s.1.objects o) op).error? = none ∧
        t = (
          { s.1 with
            objects := Function.update s.1.objects o
              ((objectTurn o (s.1.objects o) op).state (s.1.objects o)) },
          (objectTurn o (s.1.objects o) op).fold o (s.1.objects o) op s.2) := by
  simp only [foldOperation, hf, foldObject_turn]
  cases (objectTurn o (s.1.objects o) op).error? with
  | some e => simp [Except.map]
  | none =>
    simp only [Except.map, Except.ok.injEq, true_and]
    exact eq_comm

theorem foldOperation_segment {g : SegmentFamily} (hf : op.sourceFamily = .segment g) :
    foldOperation s op = .ok t ↔
      ∃ v, (insertions op).foldlM insertInto (viewOf s) = .ok v ∧
        t = ({ s.1 with segments := v.1 }, { s.2 with
          conflicts := s.2.conflicts ++ conflictsAlong (viewOf s) (insertions op)
          segmentOwners := v.2 }) := by
  simp only [foldOperation, insertions, hf]
  split
  · have hfold := foldSegments_fold g s.1.segments op s.2
    rw [except_map_ok]
    constructor
    · rintro ⟨r, hr, rfl⟩
      rw [hr] at hfold
      obtain ⟨v, hv, heq⟩ := except_map_ok.mp hfold.symm
      obtain ⟨hsegments, hfold⟩ := Prod.mk.inj heq
      exact ⟨v, hv, by rw [hsegments, ← hfold]; rfl⟩
    · rintro ⟨v, hv, rfl⟩
      rw [show (s.1.segments, s.2.segmentOwners) = viewOf s from rfl, hv] at hfold
      obtain ⟨r, hr, heq⟩ := except_map_ok.mp hfold
      obtain ⟨hsegments, hfold⟩ := Prod.mk.inj heq
      exact ⟨r, hr, by rw [hsegments, hfold]⟩
  · simp only [Except.ok.injEq, List.foldlM_nil, conflictsAlong, List.append_nil, viewOf, pure,
      Except.pure, exists_eq_left']
    exact eq_comm

theorem foldPaint_fold (chunks : Chunks) (op : Operation) (fold : Fold) :
    (foldPaint chunks op fold).2 =
      { fold with
        chunkOps := (foldPaint chunks op fold).2.chunkOps
        chunkCellActors := (foldPaint chunks op fold).2.chunkCellActors } := by
  unfold foldPaint
  cases paintClass op.payload.mapping with
  | none => rfl
  | some code =>
    dsimp only
    generalize paintCells op.payload.mapping = cells
    induction cells generalizing chunks fold with
    | nil => rfl
    | cons cell cells ih => exact ih _ _

theorem foldPaint_own (chunks : Chunks) (op : Operation) {fold fold' : Fold}
    (hops : fold.chunkOps = fold'.chunkOps)
    (hactors : fold.chunkCellActors = fold'.chunkCellActors) :
    (foldPaint chunks op fold).2.chunkOps = (foldPaint chunks op fold').2.chunkOps ∧
      (foldPaint chunks op fold).2.chunkCellActors =
        (foldPaint chunks op fold').2.chunkCellActors := by
  unfold foldPaint
  cases paintClass op.payload.mapping with
  | none => exact ⟨hops, hactors⟩
  | some code =>
    dsimp only
    generalize paintCells op.payload.mapping = cells
    induction cells generalizing chunks fold fold' with
    | nil => exact ⟨hops, hactors⟩
    | cons cell cells ih => exact ih _ (by simp [hops]) (by simp [hactors])

theorem foldOperation_landcover (hf : op.sourceFamily = .landcoverSurface) :
    foldOperation s op = .ok (if op.verb = .paint then
      ({ s.1 with chunks := (foldPaint s.1.chunks op s.2).1 }, (foldPaint s.1.chunks op s.2).2)
    else s) := by
  simp only [foldOperation, hf]
  split <;> rfl

theorem foldOperation_outputView (hf : op.sourceFamily = .outputView) :
    foldOperation s op = .ok (if op.verb = .select then
      ({ s.1 with view := (foldView s.1.view op s.2).1 }, (foldView s.1.view op s.2).2)
    else s) := by
  simp only [foldOperation, hf]
  split <;> rfl

/-! ## What an operation of another family leaves alone -/

theorem landcover_other (hF : op.sourceFamily ≠ .landcoverSurface)
    (h : foldOperation s op = .ok t) :
    t.1.chunks = s.1.chunks ∧ t.2.chunkOps = s.2.chunkOps ∧
      t.2.chunkCellActors = s.2.chunkCellActors := by
  cases hf : op.sourceFamily with
  | object o =>
    obtain ⟨-, rfl⟩ := (foldOperation_object hf).mp h
    exact ⟨rfl, rfl, rfl⟩
  | landcoverSurface => exact absurd hf hF
  | segment g =>
    obtain ⟨v, -, rfl⟩ := (foldOperation_segment hf).mp h
    exact ⟨rfl, rfl, rfl⟩
  | outputView =>
    rw [foldOperation_outputView hf, Except.ok.injEq] at h
    subst h
    split
    · simp only [foldView]
      split <;> simp
    · exact ⟨rfl, rfl, rfl⟩

theorem view_other (hF : op.sourceFamily ≠ .outputView) (h : foldOperation s op = .ok t) :
    t.1.view = s.1.view ∧ t.2.viewWriters = s.2.viewWriters ∧
      t.2.perUserUpdates = s.2.perUserUpdates := by
  cases hf : op.sourceFamily with
  | object o =>
    obtain ⟨-, rfl⟩ := (foldOperation_object hf).mp h
    exact ⟨rfl, rfl, rfl⟩
  | landcoverSurface =>
    rw [foldOperation_landcover hf, Except.ok.injEq] at h
    subst h
    split
    · rw [foldPaint_fold]
      exact ⟨rfl, rfl, rfl⟩
    · exact ⟨rfl, rfl, rfl⟩
  | segment g =>
    obtain ⟨v, -, rfl⟩ := (foldOperation_segment hf).mp h
    exact ⟨rfl, rfl, rfl⟩
  | outputView => exact absurd hf hF

theorem object_unrelated (hF : ∀ p, op.sourceFamily ≠ .object p) (h : foldOperation s op = .ok t) :
    t.1.objects = s.1.objects ∧ t.2.addOps = s.2.addOps ∧
      t.2.fieldWriters = s.2.fieldWriters ∧ t.2.deleteOps = s.2.deleteOps := by
  cases hf : op.sourceFamily with
  | object p => exact absurd hf (hF p)
  | landcoverSurface =>
    rw [foldOperation_landcover hf, Except.ok.injEq] at h
    subst h
    split
    · rw [foldPaint_fold]
      exact ⟨rfl, rfl, rfl, rfl⟩
    · exact ⟨rfl, rfl, rfl, rfl⟩
  | segment g =>
    obtain ⟨v, -, rfl⟩ := (foldOperation_segment hf).mp h
    exact ⟨rfl, rfl, rfl, rfl⟩
  | outputView =>
    rw [foldOperation_outputView hf, Except.ok.injEq] at h
    subst h
    split
    · simp only [foldView]
      split <;> simp
    · exact ⟨rfl, rfl, rfl, rfl⟩

theorem objects_other {o : ObjectFamily} (hother : op.sourceFamily ≠ .object o)
    (h : foldOperation s op = .ok t) : t.1.objects o = s.1.objects o := by
  by_cases hobj : ∃ p, op.sourceFamily = .object p
  · obtain ⟨p, hp⟩ := hobj
    obtain ⟨-, rfl⟩ := (foldOperation_object hp).mp h
    have hne : o ≠ p := fun heq => hother (heq ▸ hp)
    exact Function.update_of_ne hne _ _
  · exact congrFun (object_unrelated (fun p hp => hobj ⟨p, hp⟩) h).1 o

end Step

end Solweig.Realtime
