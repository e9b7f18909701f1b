import Mathlib.Logic.Relation
import Solweig.Lib.Run
import Solweig.Store.Realtime

/-!
# The operation log and its epochs

Each workspace has one contiguous log, and its epochs cut the log into consecutive intervals of
which only the last can still grow.
-/

namespace Solweig.Store

open Solweig.Lib Solweig.Realtime

/-! ## The law of one workspace -/

/-- The sequence lies in the interval of the epoch. -/
def EpochRow.Holds (row : EpochRow) (sequence : Nat) : Prop :=
  ∃ first last, row.firstSequence = some first ∧ row.lastSequence = some last ∧
    first ≤ sequence ∧ sequence ≤ last

/-- The intervals of the epochs follow one another from `start` up to `stop`, which is left out. -/
def Consecutive (start : Nat) : List EpochRow → Nat → Prop
  | [], stop => start = stop
  | row :: rest, stop => row.firstSequence = some start ∧
    ∃ last, row.lastSequence = some last ∧ start ≤ last ∧ Consecutive (last + 1) rest stop

structure Partition (log : List OperationRow) (epochs : List EpochRow) : Prop where
  sequences : log.map (·.serverSequence) = List.range' 1 log.length
  epochIds : epochs.map (·.epochId) = List.range epochs.length
  consecutive : Consecutive 1 epochs (log.length + 1)
  assigned : ∀ op ∈ log, ∀ row ∈ epochs, op.epochId = row.epochId ↔ row.Holds op.serverSequence
  openLast : ∀ row ∈ epochs, row.status = .opened → row.epochId + 1 = epochs.length

theorem consecutive_concat {start stop : Nat} {before : List EpochRow} {row : EpochRow} :
    Consecutive start (before ++ [row]) stop ↔
      ∃ middle, Consecutive start before middle ∧ row.firstSequence = some middle ∧
        ∃ last, row.lastSequence = some last ∧ middle ≤ last ∧ last + 1 = stop := by
  induction before generalizing start with
  | nil => simp [Consecutive]
  | cons r before ih =>
    simp only [List.cons_append, Consecutive, ih]
    constructor
    · rintro ⟨hfirst, last, hlast, hle, middle, hbefore, hrest⟩
      exact ⟨middle, ⟨hfirst, last, hlast, hle, hbefore⟩, hrest⟩
    · rintro ⟨middle, ⟨hfirst, last, hlast, hle, hbefore⟩, hrest⟩
      exact ⟨hfirst, last, hlast, hle, middle, hbefore, hrest⟩

theorem Consecutive.bounds {start stop : Nat} {rows : List EpochRow}
    (h : Consecutive start rows stop) : start ≤ stop ∧ ∀ row ∈ rows, ∃ first last,
      row.firstSequence = some first ∧ row.lastSequence = some last ∧ start ≤ first ∧
        first ≤ last ∧ last < stop := by
  induction rows generalizing start with
  | nil => exact ⟨le_of_eq h, by simp⟩
  | cons row rows ih =>
    obtain ⟨hfirst, last, hlast, hle, hrest⟩ := h
    obtain ⟨hstop, hrows⟩ := ih hrest
    refine ⟨by omega, List.forall_mem_cons.mpr ⟨⟨start, last, hfirst, hlast, le_refl _, hle,
      by omega⟩, fun r hr => ?_⟩⟩
    obtain ⟨first', last', hf, hl, hs, hle', hlt⟩ := hrows r hr
    exact ⟨first', last', hf, hl, by omega, hle', hlt⟩

theorem Consecutive.covers {start stop s : Nat} {rows : List EpochRow}
    (h : Consecutive start rows stop) (hstart : start ≤ s) (hstop : s < stop) :
    ∃ row ∈ rows, row.Holds s := by
  induction rows generalizing start with
  | nil =>
    simp only [Consecutive] at h
    omega
  | cons row rows ih =>
    obtain ⟨hfirst, last, hlast, hle, hrest⟩ := h
    by_cases hs : s ≤ last
    · exact ⟨row, by simp, start, last, hfirst, hlast, hstart, hs⟩
    · obtain ⟨r, hr, hholds⟩ := ih hrest (by omega)
      exact ⟨r, List.mem_cons_of_mem _ hr, hholds⟩

theorem Consecutive.congr {start stop : Nat} {rows rows' : List EpochRow}
    (h : Consecutive start rows stop)
    (hf : rows'.map (·.firstSequence) = rows.map (·.firstSequence))
    (hl : rows'.map (·.lastSequence) = rows.map (·.lastSequence)) :
    Consecutive start rows' stop := by
  induction rows generalizing start rows' with
  | nil =>
    obtain rfl := List.map_eq_nil_iff.mp hf
    exact h
  | cons row rows ih =>
    cases rows' with
    | nil => simp at hf
    | cons row' rows' =>
      simp only [List.map_cons, List.cons.injEq] at hf hl
      obtain ⟨hfirst, last, hlast, hle, hrest⟩ := h
      exact ⟨hf.1.trans hfirst, last, hl.1.trans hlast, hle, ih hrest hf.2 hl.2⟩

section Partition

variable {log : List OperationRow} {epochs : List EpochRow}

theorem Partition.sequence_le (h : Partition log epochs) {op : OperationRow} (hop : op ∈ log) :
    1 ≤ op.serverSequence ∧ op.serverSequence ≤ log.length := by
  have hmem : op.serverSequence ∈ log.map (·.serverSequence) := List.mem_map_of_mem hop
  rw [h.sequences, List.mem_range'_1] at hmem
  omega

theorem Partition.epochId_lt (h : Partition log epochs) {row : EpochRow} (hrow : row ∈ epochs) :
    row.epochId < epochs.length := by
  have hmem : row.epochId ∈ epochs.map (·.epochId) := List.mem_map_of_mem hrow
  rwa [h.epochIds, List.mem_range] at hmem

theorem Partition.epoch_of (h : Partition log epochs) {op : OperationRow} (hop : op ∈ log) :
    ∃ row ∈ epochs, row.epochId = op.epochId := by
  obtain ⟨hle, hlt⟩ := h.sequence_le hop
  obtain ⟨row, hrow, hholds⟩ := h.consecutive.covers hle (Nat.lt_succ_of_le hlt)
  exact ⟨row, hrow, ((h.assigned op hop row hrow).mpr hholds).symm⟩

theorem Partition.ascending (h : Partition log epochs) :
    epochs.Pairwise fun a b => a.epochId < b.epochId := by
  have hsorted : (epochs.map (·.epochId)).Pairwise (· < ·) := h.epochIds ▸ List.pairwise_lt_range
  exact List.pairwise_map.mp hsorted

theorem Partition.epoch_unique (h : Partition log epochs) {r r' : EpochRow} (hr : r ∈ epochs)
    (hr' : r' ∈ epochs) (hid : r.epochId = r'.epochId) : r = r' :=
  List.inj_on_of_nodup_map (h.epochIds ▸ List.nodup_range) hr hr' hid

theorem Partition.log_ascending (h : Partition log epochs) :
    log.Pairwise fun a b => a.serverSequence < b.serverSequence := by
  have hsorted : (log.map (·.serverSequence)).Pairwise (· < ·) :=
    h.sequences ▸ List.pairwise_lt_range'
  exact List.pairwise_map.mp hsorted

theorem filter_range' {n first last : Nat} (hfirst : 1 ≤ first) (hle : first ≤ last)
    (hlast : last ≤ n) : (List.range' 1 n).filter (fun s => first ≤ s ∧ s ≤ last) =
      List.range' first (last + 1 - first) := by
  have hsplit : List.range' 1 n = List.range' 1 (first - 1) ++
      List.range' first (last + 1 - first) ++ List.range' (last + 1) (n - last) := by
    have hlow := @List.range'_append_1 1 (first - 1) (n - (first - 1))
    have hhigh := @List.range'_append_1 first (last + 1 - first) (n - last)
    rw [Nat.add_sub_of_le hfirst] at hlow
    rw [Nat.add_sub_of_le (by omega), show last + 1 - first + (n - last) = n - (first - 1) by omega]
      at hhigh
    rw [List.append_assoc, hhigh, hlow, Nat.add_sub_of_le (by omega)]
  have hbelow : (List.range' 1 (first - 1)).filter (fun s => first ≤ s ∧ s ≤ last) = [] := by
    refine List.filter_eq_nil_iff.mpr fun s hs => ?_
    simp only [List.mem_range'_1] at hs
    simp only [decide_eq_true_eq]
    omega
  have habove : (List.range' (last + 1) (n - last)).filter
      (fun s => first ≤ s ∧ s ≤ last) = [] := by
    refine List.filter_eq_nil_iff.mpr fun s hs => ?_
    simp only [List.mem_range'_1] at hs
    simp only [decide_eq_true_eq]
    omega
  have hwithin : (List.range' first (last + 1 - first)).filter
      (fun s => first ≤ s ∧ s ≤ last) = List.range' first (last + 1 - first) := by
    refine List.filter_eq_self.mpr fun s hs => ?_
    simp only [List.mem_range'_1] at hs
    simp only [decide_eq_true_eq]
    omega
  rw [hsplit, List.filter_append, List.filter_append, hbelow, habove, hwithin, List.nil_append,
    List.append_nil]

theorem Partition.interval (h : Partition log epochs) {row : EpochRow} (hrow : row ∈ epochs) :
    ∃ first last, row.firstSequence = some first ∧ row.lastSequence = some last ∧
      (log.filter fun op => op.epochId = row.epochId).map (·.serverSequence) =
        List.range' first (last + 1 - first) := by
  obtain ⟨first, last, hfirst, hlast, hstart, hle, hstop⟩ := h.consecutive.bounds.2 row hrow
  refine ⟨first, last, hfirst, hlast, ?_⟩
  have hfilter : log.filter (fun op => op.epochId = row.epochId) =
      log.filter ((fun s => decide (first ≤ s ∧ s ≤ last)) ∘ (·.serverSequence)) := by
    refine List.filter_congr fun op hop => ?_
    simp [h.assigned op hop row hrow, EpochRow.Holds, hfirst, hlast]
  rw [hfilter, ← List.filter_map, h.sequences]
  exact filter_range' hstart hle (by omega)

end Partition

/-! ## One operation more -/

/-- What a new operation does to the database: it joins the open epoch, which is the last one of
its workspace, or opens the next epoch. -/
structure Appended (workspaceId : String) (db : Database) (row : OperationRow) (db' : Database) :
    Prop where
  rest : { db' with operations := db.operations, epochs := db.epochs } = db
  operations : db'.operations = db.operations ++ [row]
  workspace : row.workspaceId = workspaceId
  sequence : row.serverSequence = (log db workspaceId).length + 1
  fresh : ∀ r ∈ db.operations, r.operationId ≠ row.operationId
  otherEpochs : ∀ w, w ≠ workspaceId → epochs db' w = epochs db w
  ownEpochs :
    (∃ before last, epochs db workspaceId = before ++ [last] ∧ last.status = .opened ∧
      row.epochId = last.epochId ∧
      epochs db' workspaceId = before ++ [last.extend row.serverSequence]) ∨
    (∃ added, added.workspaceId = workspaceId ∧ added.status = .opened ∧
      added.workspaceRevision = none ∧ added.epochId = (epochs db workspaceId).length ∧
      row.epochId = added.epochId ∧ added.firstSequence = some row.serverSequence ∧
      added.lastSequence = some row.serverSequence ∧
      (∀ last ∈ epochs db workspaceId, last.status ≠ .opened) ∧
      epochs db' workspaceId = epochs db workspaceId ++ [added])

def AppendStep (workspaceId : String) (db db' : Database) : Prop :=
  ∃ row, Appended workspaceId db row db'

section Appended

variable {workspaceId : String} {db db' : Database} {row : OperationRow}

theorem Appended.log_own (h : Appended workspaceId db row db') :
    log db' workspaceId = log db workspaceId ++ [row] := by
  simp [log, h.operations, h.workspace]

theorem Appended.log_other (h : Appended workspaceId db row db') {w : String}
    (hw : w ≠ workspaceId) : log db' w = log db w := by
  simp [log, h.operations, h.workspace, Ne.symm hw]

theorem Partition.extend {log : List OperationRow} {before : List EpochRow} {last : EpochRow}
    (h : Partition log (before ++ [last])) (hsequence : row.serverSequence = log.length + 1)
    (hepoch : row.epochId = last.epochId) :
    Partition (log ++ [row]) (before ++ [last.extend row.serverSequence]) := by
  obtain ⟨middle, hbefore, hfirst, lastSequence, hlast, hle, hstop⟩ :=
    consecutive_concat.mp h.consecutive
  have hids := h.epochIds
  have hext : (last.extend row.serverSequence).firstSequence = some middle := by
    simp [EpochRow.extend, hfirst]
  have hbelow : ∀ r ∈ before, r.epochId ≠ last.epochId := by
    intro r hr
    have hsorted := List.pairwise_append.mp h.ascending
    exact Nat.ne_of_lt (hsorted.2.2 r hr last (by simp))
  refine ⟨?_, ?_, ?_, ?_, ?_⟩
  · simp [h.sequences, hsequence, List.range'_1_concat, Nat.add_comm]
  · simpa [EpochRow.extend] using hids
  · refine consecutive_concat.mpr ⟨middle, hbefore, hext, row.serverSequence, rfl, ?_, ?_⟩
    · omega
    · simp [hsequence]
  · intro op hop r hr
    rcases List.mem_append.mp hr with hmem | hmem
    · obtain ⟨f, l, hf, hl, _, _, hlt⟩ := hbefore.bounds.2 r hmem
      rcases List.mem_append.mp hop with hop | hop
      · exact h.assigned op hop r (List.mem_append_left _ hmem)
      · obtain rfl := List.mem_singleton.mp hop
        have hne : op.epochId ≠ r.epochId := by
          rw [hepoch]
          exact Ne.symm (hbelow r hmem)
        simp only [hne, EpochRow.Holds, hf, hl, false_iff, Option.some.injEq]
        rintro ⟨_, _, rfl, rfl, _, _⟩
        omega
    · obtain rfl := List.mem_singleton.mp hmem
      rcases List.mem_append.mp hop with hop | hop
      · have hold := h.assigned op hop last (by simp)
        have hbound := h.sequence_le hop
        simp only [EpochRow.Holds, hfirst, hlast, Option.some.injEq] at hold
        simp only [EpochRow.Holds, hext]
        simp only [EpochRow.extend, hold, Option.some.injEq]
        constructor
        · rintro ⟨_, _, rfl, rfl, hf, hl⟩
          exact ⟨_, _, rfl, rfl, hf, by omega⟩
        · rintro ⟨_, _, rfl, rfl, hf, hl⟩
          exact ⟨_, _, rfl, rfl, hf, by omega⟩
      · obtain rfl := List.mem_singleton.mp hop
        simp only [EpochRow.Holds, hext]
        simp only [EpochRow.extend, hepoch, true_iff]
        exact ⟨_, _, rfl, rfl, by omega, le_refl _⟩
  · intro r hr hopen
    rcases List.mem_append.mp hr with hr | hr
    · simpa using h.openLast r (List.mem_append_left _ hr) hopen
    · obtain rfl := List.mem_singleton.mp hr
      simpa [EpochRow.extend] using h.openLast last (by simp) hopen

theorem Partition.concat {log : List OperationRow} {epochs : List EpochRow} {added : EpochRow}
    (h : Partition log epochs) (hclosed : ∀ r ∈ epochs, r.status ≠ .opened)
    (hsequence : row.serverSequence = log.length + 1) (hid : added.epochId = epochs.length)
    (hepoch : row.epochId = added.epochId) (hfirst : added.firstSequence = some row.serverSequence)
    (hlast : added.lastSequence = some row.serverSequence) :
    Partition (log ++ [row]) (epochs ++ [added]) := by
  refine ⟨?_, ?_, ?_, ?_, ?_⟩
  · simp [h.sequences, hsequence, List.range'_1_concat, Nat.add_comm]
  · simp [h.epochIds, hid, List.range_succ]
  · refine consecutive_concat.mpr ⟨log.length + 1, h.consecutive, hsequence ▸ hfirst,
      row.serverSequence, hlast, by omega, by simp [hsequence]⟩
  · intro op hop r hr
    rcases List.mem_append.mp hop with hop | hop <;> rcases List.mem_append.mp hr with hr | hr
    · exact h.assigned op hop r hr
    · obtain rfl := List.mem_singleton.mp hr
      have hbound := h.sequence_le hop
      have hne : op.epochId ≠ r.epochId := by
        obtain ⟨r', hr', hid'⟩ := h.epoch_of hop
        have := h.epochId_lt hr'
        omega
      simp only [hne, EpochRow.Holds, hfirst, hlast, false_iff, Option.some.injEq]
      rintro ⟨_, _, rfl, rfl, _, _⟩
      omega
    · obtain rfl := List.mem_singleton.mp hop
      obtain ⟨f, l, hf, hl, _, _, hlt⟩ := h.consecutive.bounds.2 r hr
      have hne : op.epochId ≠ r.epochId := by
        have := h.epochId_lt hr
        omega
      simp only [hne, EpochRow.Holds, hf, hl, false_iff, Option.some.injEq]
      rintro ⟨_, _, rfl, rfl, _, _⟩
      omega
    · obtain rfl := List.mem_singleton.mp hop
      obtain rfl := List.mem_singleton.mp hr
      simp only [hepoch, EpochRow.Holds, hfirst, hlast, true_iff]
      exact ⟨_, _, rfl, rfl, le_refl _, le_refl _⟩
  · intro r hr hopen
    rcases List.mem_append.mp hr with hr | hr
    · exact absurd hopen (hclosed r hr)
    · obtain rfl := List.mem_singleton.mp hr
      simp [hid]

end Appended

/-- The law of every workspace, and one row for each operation id. -/
structure LogLaw (db : Database) : Prop where
  partition : ∀ w, Partition (log db w) (epochs db w)
  ids : (db.operations.map (·.operationId)).Nodup

theorem Appended.logLaw {workspaceId : String} {db db' : Database} {row : OperationRow}
    (h : Appended workspaceId db row db') (hlaw : LogLaw db) : LogLaw db' := by
  refine ⟨fun w => ?_, ?_⟩
  · by_cases hw : w = workspaceId
    · subst hw
      have hpartition := hlaw.partition w
      rw [h.log_own]
      rcases h.ownEpochs with ⟨before, last, hepochs, hopen, hid, hnew⟩ |
        ⟨added, _, _, _, hid, hepoch, hfirst, hlast, hclosed, hnew⟩
      · rw [hnew]
        exact (hepochs ▸ hpartition).extend h.sequence hid
      · rw [hnew]
        exact hpartition.concat hclosed h.sequence hid hepoch hfirst hlast
    · rw [h.log_other hw, h.otherEpochs w hw]
      exact hlaw.partition w
  · rw [h.operations, List.map_append, List.nodup_append]
    refine ⟨hlaw.ids, by simp, ?_⟩
    intro id hid id' hid'
    obtain ⟨r, hr, rfl⟩ := List.mem_map.mp hid
    obtain rfl := List.mem_singleton.mp hid'
    exact h.fresh r hr

/-! ## A batch -/

/-- What the loop over a batch keeps: the sequence is the last one taken, and the epoch of the
batch is the open one. -/
structure BatchAt (workspaceId : String) (sequence : Nat) (epochId : Option Nat)
    (db : Database) : Prop where
  law : LogLaw db
  sequence : sequence = (log db workspaceId).length
  current : ∀ e, epochId = some e →
    ∃ before last, epochs db workspaceId = before ++ [last] ∧ last.status = .opened ∧
      last.epochId = e

section Batch

variable {workspaceId now : String} {sequence : Nat} {db db' : Database}

theorem epochs_updateEpoch (w : String) (e : Nat) (f : EpochRow → EpochRow)
    (hf : ∀ r, (f r).workspaceId = r.workspaceId) (db : Database) :
    epochs (updateEpoch workspaceId e f db) w =
      updateWhere (isEpoch workspaceId e) f (epochs db w) :=
  filter_updateWhere fun r _ => by simp [hf]

theorem epochs_updateEpoch_other {w : String} (hw : w ≠ workspaceId) (e : Nat)
    (f : EpochRow → EpochRow) (hf : ∀ r, (f r).workspaceId = r.workspaceId) (db : Database) :
    epochs (updateEpoch workspaceId e f db) w = epochs db w := by
  rw [epochs_updateEpoch w e f hf]
  refine updateWhere_of_none fun r hr => ?_
  have hr' : r.workspaceId = w := by simpa [epochs] using (List.mem_filter.mp hr).2
  simp [isEpoch, hr', hw]

theorem epochs_updateEpoch_last {before : List EpochRow} {last : EpochRow} {e : Nat}
    (f : EpochRow → EpochRow) (hf : ∀ r, (f r).workspaceId = r.workspaceId)
    (hepochs : epochs db workspaceId = before ++ [last]) (hlast : last.epochId = e)
    (hbefore : ∀ r ∈ before, r.epochId ≠ e) :
    epochs (updateEpoch workspaceId e f db) workspaceId = before ++ [f last] := by
  have hown : last.workspaceId = workspaceId := by
    have hmem : last ∈ epochs db workspaceId := hepochs ▸ List.mem_append_right _ (by simp)
    simpa [epochs] using (List.mem_filter.mp hmem).2
  rw [epochs_updateEpoch _ e f hf, hepochs]
  refine updateWhere_last ?_ fun r hr => ?_
  · simp [isEpoch, hlast, hown]
  · simp [isEpoch, hbefore r hr]

theorem openOrCreateEpoch_ok {e : Nat} (hlaw : LogLaw db)
    (h : openOrCreateEpoch workspaceId now db = (.ok e, db')) :
    (db' = db ∧ ∃ before last, epochs db workspaceId = before ++ [last] ∧
      last.status = .opened ∧ last.epochId = e) ∨
    ((∀ r ∈ epochs db workspaceId, r.status ≠ .opened) ∧
      e = (epochs db workspaceId).length ∧
      db' = { db with epochs := db.epochs ++ [openedEpoch workspaceId e now] }) := by
  have hpartition := hlaw.partition workspaceId
  simp only [openOrCreateEpoch, Txn.bind_ok, Txn.get_ok] at h
  obtain ⟨_, _, ⟨rfl, rfl⟩, h⟩ := h
  rw [argmax_of_ascending hpartition.ascending] at h
  rcases List.eq_nil_or_concat' (epochs db workspaceId) with hnil | ⟨before, last, hepochs⟩
  · simp only [hnil, List.getLast?_nil, createEpoch, Txn.bind_ok, Txn.modify_ok, Txn.pure_ok] at h
    obtain ⟨_, _, rfl, rfl, rfl⟩ := h
    exact Or.inr ⟨by simp [hnil], by simp [hnil], rfl⟩
  · have hlast : last.epochId = before.length := by
      have hids := hpartition.epochIds
      simp only [hepochs, List.length_append, List.length_singleton, List.range_succ,
        List.map_append] at hids
      simpa using (List.append_inj' hids (by simp)).2
    simp only [hepochs, List.getLast?_append, List.getLast?_singleton, Option.some_or] at h
    split at h
    · obtain ⟨rfl, rfl⟩ := Txn.pure_ok.mp h
      exact Or.inl ⟨rfl, before, last, hepochs, ‹_›, rfl⟩
    · rename_i hopen
      simp only [createEpoch, Txn.bind_ok, Txn.modify_ok, Txn.pure_ok] at h
      obtain ⟨_, _, rfl, rfl, rfl⟩ := h
      refine Or.inr ⟨fun r hr hr' => hopen ?_, by simp [hepochs, hlast], rfl⟩
      have hid := hpartition.openLast r hr hr'
      have hmem : last ∈ epochs db workspaceId := by simp [hepochs]
      have hsame : r = last := hpartition.epoch_unique hr hmem (by simp [hepochs] at hid; omega)
      exact hsame ▸ hr'

theorem insertOperation_ok {e : Nat} {item : OperationItem} {row : OperationRow}
    (h : insertOperation workspaceId now (sequence + 1) e item db = (.ok row, db')) :
    row = operationRow workspaceId now (sequence + 1) e item ∧
      db' = updateEpoch workspaceId e (·.extend (sequence + 1))
        { db with operations := db.operations ++ [row] } := by
  simp only [insertOperation, Txn.bind_ok, Txn.modify_ok, Txn.pure_ok] at h
  obtain ⟨_, _, rfl, _, _, rfl, rfl, rfl⟩ := h
  exact ⟨rfl, rfl⟩

theorem insertOperation_appended {epochId : Option Nat} {e : Nat} {item : OperationItem}
    {row : OperationRow} {dbE : Database} (hat : BatchAt workspaceId sequence epochId db)
    (hfresh : ∀ r ∈ db.operations, r.operationId ≠ item.operationId)
    (hchoose : chooseEpoch workspaceId now epochId db = (.ok e, dbE))
    (hinsert : insertOperation workspaceId now (sequence + 1) e item dbE = (.ok row, db')) :
    Appended workspaceId db row db' ∧ BatchAt workspaceId (sequence + 1) (some e) db' := by
  have hpartition := hat.law.partition workspaceId
  obtain ⟨hrow, rfl⟩ := insertOperation_ok hinsert
  have hsequence : row.serverSequence = (log db workspaceId).length + 1 := by
    simp [hrow, operationRow, hat.sequence]
  have hext : ∀ r : EpochRow, (r.extend (sequence + 1)).workspaceId = r.workspaceId := fun _ => rfl
  have hcase : (dbE = db ∧ ∃ before last, epochs db workspaceId = before ++ [last] ∧
      last.status = .opened ∧ last.epochId = e) ∨
      ((∀ r ∈ epochs db workspaceId, r.status ≠ .opened) ∧ e = (epochs db workspaceId).length ∧
        dbE = { db with epochs := db.epochs ++ [openedEpoch workspaceId e now] }) := by
    cases epochId with
    | some e' =>
      obtain ⟨rfl, rfl⟩ := Txn.pure_ok.mp hchoose
      exact Or.inl ⟨rfl, hat.current e' rfl⟩
    | none => exact openOrCreateEpoch_ok hat.law hchoose
  rcases hcase with ⟨rfl, before, last, hepochs, hopen, rfl⟩ | ⟨hclosed, hlength, rfl⟩
  · have hbefore : ∀ r ∈ before, r.epochId ≠ last.epochId := by
      intro r hr
      have hsorted := List.pairwise_append.mp (hepochs ▸ hpartition.ascending)
      exact Nat.ne_of_lt (hsorted.2.2 r hr last (by simp))
    let dbO : Database := { dbE with operations := dbE.operations ++ [row] }
    have hepochsO : epochs dbO workspaceId = before ++ [last] := hepochs
    have hnew := epochs_updateEpoch_last (·.extend (sequence + 1)) hext hepochsO rfl hbefore
    have happ : Appended workspaceId dbE row
        (updateEpoch workspaceId last.epochId (·.extend (sequence + 1))
          { dbE with operations := dbE.operations ++ [row] }) := by
      refine ⟨rfl, rfl, by simp [hrow, operationRow], hsequence, ?_, ?_, Or.inl ⟨before, last,
        hepochs, hopen, by simp [hrow, operationRow], ?_⟩⟩
      · simpa [hrow, operationRow] using hfresh
      · intro w hw
        exact epochs_updateEpoch_other hw _ _ hext _
      · rw [hnew, hsequence, hat.sequence]
    refine ⟨happ, happ.logLaw hat.law, ?_, ?_⟩
    · rw [happ.log_own, List.length_append, ← hat.sequence]
      rfl
    · rintro _ ⟨⟩
      exact ⟨before, _, hnew, hopen, rfl⟩
  · have hbefore : ∀ r ∈ epochs db workspaceId, r.epochId ≠ e := fun r hr =>
      Nat.ne_of_lt (hlength ▸ hpartition.epochId_lt hr)
    have hepochs : epochs { db with
        operations := db.operations ++ [row],
        epochs := db.epochs ++ [openedEpoch workspaceId e now] } workspaceId =
        epochs db workspaceId ++ [openedEpoch workspaceId e now] := by
      simp [epochs, openedEpoch]
    have hnew := epochs_updateEpoch_last (·.extend (sequence + 1)) hext hepochs rfl hbefore
    have happ : Appended workspaceId db row (updateEpoch workspaceId e (·.extend (sequence + 1))
        { db with
          operations := db.operations ++ [row],
          epochs := db.epochs ++ [openedEpoch workspaceId e now] }) := by
      refine ⟨rfl, rfl, by simp [hrow, operationRow], hsequence, ?_, ?_, Or.inr ⟨_, rfl, rfl,
        rfl, hlength, hrow ▸ rfl, ?_, hrow ▸ rfl, hclosed, hnew⟩⟩
      · simpa [hrow, operationRow] using hfresh
      · intro w hw
        rw [epochs_updateEpoch_other hw _ _ hext]
        simp [epochs, openedEpoch, Ne.symm hw]
      · simp [EpochRow.extend, openedEpoch, hrow, operationRow]
    refine ⟨happ, happ.logLaw hat.law, ?_, ?_⟩
    · rw [happ.log_own, List.length_append, ← hat.sequence]
      rfl
    · rintro _ ⟨⟩
      exact ⟨_, _, hnew, rfl, rfl⟩

theorem appendItems_steps {epochId : Option Nat} {items : List OperationItem}
    {records : List OperationRecord} (hat : BatchAt workspaceId sequence epochId db)
    (h : appendItems workspaceId now sequence epochId items db = (.ok records, db')) :
    Relation.ReflTransGen (AppendStep workspaceId) db db' := by
  induction items generalizing sequence epochId db records with
  | nil =>
    obtain ⟨-, rfl⟩ := Txn.pure_ok.mp h
    exact Relation.ReflTransGen.refl
  | cons item items ih =>
    simp only [appendItems, Txn.bind_ok, Txn.get_ok] at h
    obtain ⟨_, _, ⟨rfl, rfl⟩, h⟩ := h
    cases hfind : db.operations.find? fun r => r.operationId = item.operationId with
    | some existing =>
      simp only [hfind, Txn.bind_ok, Txn.refuseIf_ok, Txn.pure_ok] at h
      obtain ⟨_, _, ⟨-, rfl⟩, _, _, hrest, -, rfl⟩ := h
      exact ih hat hrest
    | none =>
      simp only [hfind, Txn.bind_ok, Txn.refuseIf_ok, Txn.pure_ok] at h
      obtain ⟨_, _, ⟨-, rfl⟩, e, dbE, hchoose, row, dbI, hinsert, _, _, hrest, -, rfl⟩ := h
      have hfresh : ∀ r ∈ db.operations, r.operationId ≠ item.operationId := by
        simpa using hfind
      obtain ⟨happ, hat'⟩ := insertOperation_appended hat hfresh hchoose hinsert
      exact Relation.ReflTransGen.head ⟨row, happ⟩ (ih hat' hrest)

theorem appendOperations_steps {items : List OperationItem} (hlaw : LogLaw db) :
    Relation.ReflTransGen (AppendStep workspaceId) db
      (appendOperations workspaceId items now db).2 := by
  unfold appendOperations
  rcases Txn.atomically_cases _ db with ⟨records, db', h, hrun⟩ | ⟨e, hrun⟩
  · rw [hrun]
    simp only [requireScenario, Txn.bind_ok, Txn.get_ok, Txn.require_ok] at h
    obtain ⟨_, _, ⟨_, _, ⟨rfl, rfl⟩, _, rfl⟩, _, _, ⟨rfl, rfl⟩, h⟩ := h
    have hpartition := hlaw.partition workspaceId
    refine appendItems_steps ⟨hlaw, ?_, by simp⟩ h
    rw [argmax_of_ascending hpartition.log_ascending]
    have hseq := hpartition.sequences
    rcases List.eq_nil_or_concat' (log db workspaceId) with hnil | ⟨before, last, hlog⟩
    · simp [hnil]
    · simp only [hlog, List.map_append, List.length_append, List.length_singleton,
        List.range'_1_concat] at hseq ⊢
      have hlast := (List.append_inj' hseq rfl).2
      simp only [List.map_cons, List.map_nil, List.cons.injEq, and_true] at hlast
      simp [hlast, Nat.add_comm]
  · rw [hrun]

end Batch

end Solweig.Store
