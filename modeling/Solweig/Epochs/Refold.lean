import Solweig.Epochs.Order

/-!
# One fold of the committed operations

When the epochs commit in order, the newest canonical state is what one fold of all their
operations gives, unless two segment families share a field name.
-/

namespace Solweig.Epochs

open Solweig.Lib Solweig.Realtime Solweig.Store

/-! ## The committed part of the log -/

/-- The operations of the epochs that carry a revision, in log order. -/
def committedRows (db : Database) (w : String) : List OperationRow :=
  (log db w).filter fun op => (epochs db w).any fun row =>
    row.epochId = op.epochId && row.workspaceRevision.isSome

/-- One fold of the committed operations gives the newest canonical families. -/
def Refolds (db : Database) (w : String) : Prop :=
  ∃ reduction, reduceRows initialState (committedRows db w) = some reduction ∧
    reduction.state.families = (baselineState db w).families

/-- The epochs that carry a revision. -/
def committedEpochs (db : Database) (w : String) : List EpochRow :=
  (epochs db w).filter (·.workspaceRevision.isSome)

section Log

variable {log : List OperationRow} {rows : List EpochRow}

theorem consecutive_pairwise {start stop : Nat} (h : Consecutive start rows stop) :
    rows.Pairwise fun a b => ∀ s t, a.Holds s → b.Holds t → s < t := by
  induction rows generalizing start with
  | nil => exact List.Pairwise.nil
  | cons row rows ih =>
    obtain ⟨-, last, hlast, -, hrest⟩ := h
    refine List.pairwise_cons.mpr ⟨fun r hr s t hs ht => ?_, ih hrest⟩
    obtain ⟨first', _, hfirst', -, hle, -⟩ := hrest.bounds.2 r hr
    obtain ⟨_, last', -, hlast', -, hs⟩ := hs
    obtain ⟨first'', _, hfirst'', -, ht, -⟩ := ht
    rw [hlast, Option.some.injEq] at hlast'
    rw [hfirst', Option.some.injEq] at hfirst''
    omega

theorem filter_epochs (h : Partition log rows) {some : List EpochRow} (hsub : some.Sublist rows) :
    log.filter (fun op => some.any fun row => row.epochId = op.epochId) =
      some.flatMap fun row => log.filter fun op => op.epochId = row.epochId := by
  let before (a b : OperationRow) : Prop := a.serverSequence < b.serverSequence
  have : Std.Irrefl before := ⟨fun a => Nat.lt_irrefl a.serverSequence⟩
  have : Std.Antisymm before := ⟨fun _ _ hab hba => absurd hab (Nat.lt_asymm hba)⟩
  have hlog : log.Pairwise before := h.log_ascending
  apply List.Pairwise.eq_of_mem_iff (r := before)
  · exact hlog.filter _
  · apply List.pairwise_flatMap.mpr
    refine ⟨fun row _ => hlog.filter _, ?_⟩
    have hepochs := (consecutive_pairwise h.consecutive).sublist hsub
    refine hepochs.imp_of_mem fun {a b} ha hb hlt op hop op' hop' => ?_
    simp only [List.mem_filter, decide_eq_true_eq] at hop hop'
    exact hlt _ _ ((h.assigned op hop.1 a (hsub.subset ha)).mp hop.2)
      ((h.assigned op' hop'.1 b (hsub.subset hb)).mp hop'.2)
  · intro op
    simp only [List.mem_filter, List.any_eq_true, decide_eq_true_eq, List.mem_flatMap]
    constructor
    · rintro ⟨hop, row, hrow, hid⟩
      exact ⟨row, hrow, hop, hid.symm⟩
    · rintro ⟨row, hrow, hop, hid⟩
      exact ⟨hop, row, hrow, hid.symm⟩

end Log

/-! ## The chain as one fold -/

theorem mapM_filterMap {α β : Type} {f : α → Option β} {l : List α} {bs : List β}
    (h : l.mapM f = some bs) : l.filterMap f = bs := by
  induction l generalizing bs with
  | nil => simpa using h
  | cons a l ih =>
    rw [List.mapM_cons] at h
    obtain ⟨b, hb, h⟩ := Option.bind_eq_some_iff.mp h
    obtain ⟨rest, hrest, h⟩ := Option.bind_eq_some_iff.mp h
    obtain rfl := Option.some.inj h
    rw [List.filterMap_cons_some hb, ih hrest]

theorem operation?_sequence {row : OperationRow} {op : Operation} (h : operation? row = some op) :
    op.serverSequence = row.serverSequence := by
  obtain ⟨family, -, rfl⟩ := Option.map_eq_some_iff.mp h
  rfl

theorem inLogOrder_of_rows {rows : List OperationRow}
    (h : rows.Pairwise fun a b => a.serverSequence < b.serverSequence) :
    InLogOrder (rows.filterMap operation?) := by
  apply List.pairwise_filterMap.mpr
  apply h.imp
  intro a b hlt op hop op' hop'
  rw [operation?_sequence hop, operation?_sequence hop']
  exact hlt

section Chain

variable {start db : Database} {w : String}

theorem reduceRows_ok {base : CanonicalState} {rows : List OperationRow} {r : EpochReduction} :
    reduceRows base rows = some r ↔
      ∃ ops, rows.mapM operation? = some ops ∧ reduceEpoch base ops = .ok r := by
  unfold reduceRows
  rw [Option.bind_eq_some_iff]
  refine exists_congr fun ops => and_congr_right fun _ => ?_
  cases reduceEpoch base ops <;> simp [Except.toOption]

theorem reduceRows_families {base : CanonicalState} {rows : List OperationRow} {r : EpochReduction}
    (hrows : rows.Pairwise fun a b => a.serverSequence < b.serverSequence)
    (hapart : FieldsApart (rows.filterMap operation?)) (h : reduceRows base rows = some r) :
    ∃ ops, rows.mapM operation? = some ops ∧
      ops.foldlM applyOperation base.families = .ok r.state.families := by
  obtain ⟨ops, hops, hreduce⟩ := reduceRows_ok.mp h
  obtain rfl := mapM_filterMap hops
  refine ⟨_, hops, ?_⟩
  rw [← reduceEpoch_state (inLogOrder_of_rows hrows) hapart, hreduce]
  rfl

theorem mapM_append_some {α β : Type} {f : α → Option β} {l l' : List α} {bs bs' : List β}
    (h : l.mapM f = some bs) (h' : l'.mapM f = some bs') : (l ++ l').mapM f = some (bs ++ bs') := by
  rw [List.mapM_append, h, h']
  rfl

theorem chainFrom_fold (h : Sound start db) {base : CanonicalState} {rows : List CanonicalRow}
    {es : List EpochRow} (hes : es ⊆ epochs db w)
    (hrevisions : es.map (·.workspaceRevision) = rows.map fun row => some row.workspaceRevision)
    (hapart : FieldsApart
      ((es.flatMap fun row => operationsForEpoch db w row.epochId).filterMap operation?))
    (hchain : ChainFrom db w base rows) :
    ∃ ops, (es.flatMap fun row => operationsForEpoch db w row.epochId).mapM operation? = some ops ∧
      ops.foldlM applyOperation base.families =
        .ok ((rows.getLast?.map stateOf).getD base).families := by
  induction rows generalizing base es with
  | nil =>
    obtain rfl := List.map_eq_nil_iff.mp hrevisions
    exact ⟨[], rfl, rfl⟩
  | cons row rows ih =>
    cases es with
    | nil => simp at hrevisions
    | cons epoch es =>
      simp only [List.map_cons, List.cons.injEq] at hrevisions
      obtain ⟨⟨e, reduction, hassigned, hreduce, hfamilies⟩, hrest⟩ := hchain
      have hmem := List.cons_subset.mp hes
      -- the epoch of the row is the one in its place
      obtain rfl : epoch.epochId = e :=
        h.unique w _ _ _ ⟨epoch, hmem.1, rfl, hrevisions.1⟩ hassigned
      have hrows : (operationsForEpoch db w epoch.epochId).Pairwise
          fun a b => a.serverSequence < b.serverSequence := by
        rw [operationsForEpoch_eq h.law]
        exact (h.law.partition w).log_ascending.filter _
      rw [List.flatMap_cons, List.filterMap_append] at hapart
      obtain ⟨ops, hops, hfold⟩ := reduceRows_families hrows
        (hapart.sublist fun op hop => List.mem_append_left _ hop) hreduce
      obtain ⟨ops', hops', hfold'⟩ := ih hmem.2 hrevisions.2
        (hapart.sublist fun op hop => List.mem_append_right _ hop) hrest
      refine ⟨ops ++ ops', ?_, ?_⟩
      · rw [List.flatMap_cons]
        exact mapM_append_some hops hops'
      · rw [foldlM_append_ok]
        refine ⟨_, hfold, ?_⟩
        rw [hfamilies, getLast?_cons_getD]
        exact hfold'

/-! ## In order -/

theorem Sound.assignedRevisions_ascending (h : Sound start db) (horder : RevisionsInOrder db) :
    (assignedRevisions db w).Pairwise (· < ·) := by
  apply List.pairwise_filterMap.mpr
  apply (h.law.partition w).ascending.imp_of_mem
  intro a b ha hb hlt r hr r' hr'
  exact horder w a.epochId b.epochId r r' ⟨a, ha, rfl, hr⟩ ⟨b, hb, rfl, hr'⟩ hlt

theorem Sound.assignedRevisions_eq (h : Sound start db) (horder : RevisionsInOrder db) :
    assignedRevisions db w = (canonical db w).map (·.workspaceRevision) := by
  apply List.Perm.eq_of_pairwise' (r := (· < ·)) _ _ h.assigned_perm
  · exact h.assignedRevisions_ascending horder
  · exact List.pairwise_map.mpr (h.ascending w)

theorem committedEpochs_revisions :
    (committedEpochs db w).map (·.workspaceRevision) = (assignedRevisions db w).map some := by
  unfold committedEpochs assignedRevisions
  induction epochs db w with
  | nil => rfl
  | cons row rows ih =>
    cases hrevision : row.workspaceRevision with
    | none => simpa [hrevision] using ih
    | some r => simpa [hrevision] using ih

theorem committedRows_eq (h : Sound start db) :
    committedRows db w =
      (committedEpochs db w).flatMap fun row => operationsForEpoch db w row.epochId := by
  simp only [operationsForEpoch_eq h.law]
  have hsub : (committedEpochs db w).Sublist (epochs db w) := List.filter_sublist
  rw [← filter_epochs (h.law.partition w) hsub]
  unfold committedRows committedEpochs
  simp only [List.any_filter, Bool.and_comm]

theorem Sound.refolds (h : Sound start db) (horder : RevisionsInOrder db)
    (hapart : FieldsApart ((committedRows db w).filterMap operation?)) : Refolds db w := by
  have hrevisions : (committedEpochs db w).map (·.workspaceRevision) =
      (canonical db w).map fun row => some row.workspaceRevision := by
    rw [committedEpochs_revisions, h.assignedRevisions_eq horder, List.map_map]
    rfl
  have hascending : (committedRows db w).Pairwise fun a b => a.serverSequence < b.serverSequence :=
    (h.law.partition w).log_ascending.filter _
  have hlog := inLogOrder_of_rows hascending
  have hsub : committedEpochs db w ⊆ epochs db w := List.filter_subset_self _
  obtain ⟨ops, hops, hfold⟩ := chainFrom_fold h hsub hrevisions
    (committedRows_eq h ▸ hapart) (h.chain w)
  rw [← committedRows_eq h] at hops
  obtain rfl := mapM_filterMap hops
  rw [← reduceEpoch_state hlog hapart] at hfold
  obtain ⟨reduction, hreduce, hfamilies⟩ := except_map_ok.mp hfold
  refine ⟨reduction, reduceRows_ok.mpr ⟨_, hops, hreduce⟩, ?_⟩
  rw [hfamilies, baselineState, h.latest]

end Chain

/-- In a run the orders agree throughout exactly when its commits go in order, and then each state
reached is one fold of the committed operations if their fields are apart. -/
theorem epoch_order_is_revision_order {start s : Plane} {events : List (Nat × Event)}
    (hstart : start.Fresh) (hrun : run planeStep start events = some s) :
    ((∀ reached, Visits planeStep start events reached → RevisionsInOrder reached.shared) ↔
      EachStep planeStep CommitsInOrder start events) ∧
    (EachStep planeStep CommitsInOrder start events →
      ∀ reached w, Visits planeStep start events reached →
        FieldsApart ((committedRows reached.shared w).filterMap operation?) →
        Refolds reached.shared w) := by
  have horders := revisions_in_order hstart hrun
  refine ⟨horders, fun hcommits reached w hvisits hapart => ?_⟩
  have horder := horders.mpr hcommits reached hvisits
  obtain ⟨before, after, -, hreached⟩ := hvisits
  exact (plane_run hstart hreached).1.refolds horder hapart

/-! ### A failed re-drive lets the younger epoch go first -/

/-- The first close of epoch 0 fails after its mark and its re-drive fails at once; epoch 1 commits
in that pass, epoch 0 in the next one. -/
def overtakenEpoch : List (Nat × Event) :=
  [(0, .append "w" [plantTree "a"] "t1"), (1, .pass)] ++ steps 1 5 [0] ++ [(1, .fail),
    (0, .append "w" [plantTree "b"] "t2"), (1, .pass)] ++ steps 1 1 [1] ++ [(1, .fail)] ++
    steps 1 11 [1] ++ [(1, .pass)] ++ steps 1 7 []

theorem overtakenEpoch_breaks_order : ¬ ∀ (start s : Plane) (events : List (Nat × Event)),
    start.Fresh → run planeStep start events = some s → RevisionsInOrder s.shared := by
  intro h
  have hrun : (run planeStep freshPlane overtakenEpoch).map (fun s =>
      assignedRevisions s.shared "w") = some [2, 1] := by decide
  obtain ⟨s, hs, hview⟩ := Option.map_eq_some_iff.mp hrun
  have horder := h _ _ _ freshPlane_fresh hs
  have hascending := (plane_run freshPlane_fresh hs).1.assignedRevisions_ascending (w := "w") horder
  simp [hview] at hascending

theorem epoch_order_overtaken : ∃ s, run planeStep freshPlane overtakenEpoch = some s ∧
    ¬ EachStep planeStep CommitsInOrder freshPlane overtakenEpoch := by
  have hrun : (run planeStep freshPlane overtakenEpoch).map (fun s =>
      assignedRevisions s.shared "w") = some [2, 1] := by decide
  obtain ⟨s, hs, hview⟩ := Option.map_eq_some_iff.mp hrun
  refine ⟨s, hs, fun hcommits => ?_⟩
  have hall := (epoch_order_is_revision_order freshPlane_fresh hs).1.mpr hcommits
  have horder := hall s ⟨overtakenEpoch, [], by simp, hs⟩
  have hascending := (plane_run freshPlane_fresh hs).1.assignedRevisions_ascending (w := "w") horder
  simp [hview] at hascending

end Solweig.Epochs
