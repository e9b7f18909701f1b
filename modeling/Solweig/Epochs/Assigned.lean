import Solweig.Epochs.Plane
import Solweig.Store.LogRuns

/-!
# Assigned revisions

Which epoch carries which revision, what every action of the plane leaves in place, and the
canonical chain that the commits build.
-/

namespace Solweig.Epochs

open Solweig.Lib Solweig.Realtime Solweig.Store

/-! ## Assignment -/

def Assigned (db : Database) (w : String) (e revision : Nat) : Prop :=
  ∃ row ∈ epochs db w, row.epochId = e ∧ row.workspaceRevision = some revision

def Known (db : Database) (w : String) (e : Nat) : Prop := ∃ row ∈ epochs db w, row.epochId = e

section Rows

variable {db db' : Database} {w : String} {e revision : Nat}

theorem mem_epochs {row : EpochRow} : row ∈ epochs db w ↔ row ∈ db.epochs ∧ row.workspaceId = w := by
  simp [epochs]

theorem epoch?_some {row : EpochRow} (h : epoch? db w e = some row) :
    row ∈ epochs db w ∧ row.epochId = e :=
  ⟨List.mem_of_find?_eq_some h, by simpa using List.find?_some h⟩

theorem epoch?_of_mem (hlaw : LogLaw db) {row : EpochRow} (hrow : row ∈ epochs db w) :
    epoch? db w row.epochId = some row := by
  cases h : epoch? db w row.epochId with
  | none => simpa using List.find?_eq_none.mp h row hrow
  | some found =>
    obtain ⟨hmem, hid⟩ := epoch?_some h
    rw [(hlaw.partition w).epoch_unique hmem hrow hid]

theorem Assigned.single (hlaw : LogLaw db) {r : Nat} (h : Assigned db w e revision)
    (h' : Assigned db w e r) : revision = r := by
  obtain ⟨row, hrow, hid, hrev⟩ := h
  obtain ⟨row', hrow', hid', hrev'⟩ := h'
  obtain rfl := (hlaw.partition w).epoch_unique hrow hrow' (hid.trans hid'.symm)
  exact Option.some.inj (hrev.symm.trans hrev')

theorem mem_epochs_updateEpoch {f : EpochRow → EpochRow}
    (hf : ∀ r, (f r).workspaceId = r.workspaceId) {u : String} {row : EpochRow} :
    row ∈ epochs (updateEpoch w e f db) u ↔
      ∃ r ∈ epochs db u, (if u = w ∧ r.epochId = e then f r else r) = row := by
  rw [epochs_updateEpoch u e f hf, mem_updateWhere]
  refine exists_congr fun r => and_congr_right fun hr => ?_
  simp [isEpoch, (mem_epochs.mp hr).2]

theorem assigned_updateEpoch {f : EpochRow → EpochRow}
    (hw : ∀ r, (f r).workspaceId = r.workspaceId) (hid : ∀ r, (f r).epochId = r.epochId)
    {u : String} {i r : Nat} :
    Assigned (updateEpoch w e f db) u i r ↔ ∃ row ∈ epochs db u, row.epochId = i ∧
      (if u = w ∧ i = e then (f row).workspaceRevision else row.workspaceRevision) = some r := by
  constructor
  · rintro ⟨row', hrow', rfl, hrev⟩
    obtain ⟨row, hrow, rfl⟩ := (mem_epochs_updateEpoch hw).mp hrow'
    split at hrev <;> rename_i hhit
    · exact ⟨row, hrow, by simp [hhit, hid], by simpa [hhit, hid] using hrev⟩
    · exact ⟨row, hrow, by simp [hhit], by simpa [hhit] using hrev⟩
  · rintro ⟨row, hrow, rfl, hrev⟩
    refine ⟨_, (mem_epochs_updateEpoch hw).mpr ⟨row, hrow, rfl⟩, ?_, ?_⟩
    · split
      · exact hid row
      · rfl
    · split <;> rename_i hhit
      · simpa [hhit] using hrev
      · simpa [hhit] using hrev

end Rows

/-! ## What stays -/

/-- What no action of the plane takes back. -/
structure Extends (db db' : Database) : Prop where
  grows : Grows db db'
  known : ∀ w e, Known db w e → Known db' w e
  assigned : ∀ w e revision, Assigned db w e revision → Assigned db' w e revision
  canonical : ∀ w, canonical db w <+: canonical db' w

theorem Extends.refl (db : Database) : Extends db db :=
  ⟨Grows.refl db, fun _ _ h => h, fun _ _ _ h => h, fun _ => List.prefix_refl _⟩

theorem Extends.trans {a b c : Database} (hab : Extends a b) (hbc : Extends b c) : Extends a c :=
  ⟨hab.grows.trans hbc.grows, fun w e h => hbc.known w e (hab.known w e h),
    fun w e r h => hbc.assigned w e r (hab.assigned w e r h),
    fun w => (hab.canonical w).trans (hbc.canonical w)⟩

/-! ## The chain -/

/-- Each row is the fold of the operations of one epoch onto the row before it. -/
def ChainFrom (db : Database) (w : String) : CanonicalState → List CanonicalRow → Prop
  | _, [] => True
  | base, row :: rest => (∃ e reduction, Assigned db w e row.workspaceRevision ∧
      reduceRows base (operationsForEpoch db w e) = some reduction ∧
      reduction.state.families = row.families) ∧ ChainFrom db w (stateOf row) rest

theorem chainFrom_concat {db : Database} {w : String} {base : CanonicalState}
    {before : List CanonicalRow} {last : CanonicalRow} :
    ChainFrom db w base (before ++ [last]) ↔ ChainFrom db w base before ∧
      ∃ e reduction, Assigned db w e last.workspaceRevision ∧
        reduceRows ((before.getLast?.map stateOf).getD base) (operationsForEpoch db w e) =
          some reduction ∧ reduction.state.families = last.families := by
  induction before generalizing base with
  | nil => simp [ChainFrom]
  | cons row before ih =>
    simp only [List.cons_append, ChainFrom, ih, and_assoc, getLast?_cons_getD]

theorem ChainFrom.mono {db db' : Database} {w : String} {base : CanonicalState}
    {rows : List CanonicalRow} (hext : Extends db db')
    (hsealed : ∀ e revision, Assigned db w e revision → Sealed db w e)
    (h : ChainFrom db w base rows) : ChainFrom db' w base rows := by
  induction rows generalizing base with
  | nil => trivial
  | cons row rows ih =>
    obtain ⟨⟨e, reduction, hassigned, hreduce, hfamilies⟩, hrest⟩ := h
    have hops := (hext.grows.sealed w e (hsealed e _ hassigned)).2
    exact ⟨⟨e, reduction, hext.assigned w e _ hassigned, hops ▸ hreduce, hfamilies⟩, ih hrest⟩

/-! ## The invariant of the store -/

def version? (db : Database) (w : String) : Option Nat := (scenario? db w).map (·.sceneVersion)

/-- The revisions count on from the version at the start, and nothing else moves the version. -/
structure Versions (first current : Option Nat) (rows : List CanonicalRow) : Prop where
  current : current = first.map (· + rows.length)
  revisions : ∀ n, first = some n →
    rows.map (·.workspaceRevision) = List.range' (n + 1) rows.length
  absent : first = none → rows = []

/-- `start` is the store at the beginning of the run. -/
structure Sound (start db : Database) : Prop where
  law : LogLaw db
  assignedSealed : ∀ w e revision, Assigned db w e revision → Sealed db w e
  assignedRow : ∀ w e revision, Assigned db w e revision →
    ∃ row ∈ canonical db w, row.workspaceRevision = revision
  rowAssigned : ∀ w, ∀ row ∈ canonical db w, ∃ e, Assigned db w e row.workspaceRevision
  unique : ∀ w e e' revision, Assigned db w e revision → Assigned db w e' revision → e = e'
  versions : ∀ w, Versions (version? start w) (version? db w) (canonical db w)
  chain : ∀ w, ChainFrom db w initialState (canonical db w)

section Sound

variable {start db db' : Database}

theorem Sound.ascending (h : Sound start db) (w : String) :
    (canonical db w).Pairwise fun a b => a.workspaceRevision < b.workspaceRevision := by
  cases hv : version? start w with
  | none => simp [(h.versions w).absent hv]
  | some n =>
    have hsorted : ((canonical db w).map (·.workspaceRevision)).Pairwise (· < ·) :=
      (h.versions w).revisions n hv ▸ List.pairwise_lt_range'
    exact List.pairwise_map.mp hsorted

theorem Sound.bounded (h : Sound start db) {w : String} {row : CanonicalRow}
    (hrow : row ∈ canonical db w) : ∃ scenario, scenario? db w = some scenario ∧
      1 ≤ row.workspaceRevision ∧ row.workspaceRevision ≤ scenario.sceneVersion := by
  have hv := h.versions w
  cases hs : version? start w with
  | none => simp [hv.absent hs] at hrow
  | some n =>
    have hcurrent := hv.current
    rw [hs, Option.map_some] at hcurrent
    obtain ⟨scenario, hscenario, hversion⟩ := Option.map_eq_some_iff.mp hcurrent
    have hmem : row.workspaceRevision ∈ (canonical db w).map (·.workspaceRevision) :=
      List.mem_map_of_mem hrow
    rw [hv.revisions n hs, List.mem_range'_1] at hmem
    exact ⟨scenario, hscenario, by omega, by omega⟩

theorem Sound.latest (h : Sound start db) (w : String) :
    latestCanonicalState db w = (canonical db w).getLast? :=
  argmax_of_ascending (h.ascending w)

theorem Sound.congr (h : Sound start db) (hlaw : LogLaw db') (hext : Extends db db')
    (hassigned : ∀ w e revision, Assigned db' w e revision → Assigned db w e revision)
    (hcanonical : ∀ w, canonical db' w = canonical db w)
    (hversion : ∀ w, version? db' w = version? db w) : Sound start db' where
  law := hlaw
  assignedSealed w e r ha :=
    (hext.grows.sealed w e (h.assignedSealed w e r (hassigned w e r ha))).1
  assignedRow w e r ha := hcanonical w ▸ h.assignedRow w e r (hassigned w e r ha)
  rowAssigned w row hrow := by
    obtain ⟨e, he⟩ := h.rowAssigned w row (hcanonical w ▸ hrow)
    exact ⟨e, hext.assigned w e _ he⟩
  unique w e e' r ha ha' := h.unique w e e' r (hassigned w e r ha) (hassigned w e' r ha')
  versions w := by
    rw [hcanonical, hversion]
    exact h.versions w
  chain w := by
    rw [hcanonical]
    exact (h.chain w).mono hext (h.assignedSealed w)

end Sound

end Solweig.Epochs
