import Solweig.Incremental.Forcing

/-!
# Latest forcing

What an overlay serves at a timestep, against the latest published batch that changes it.
-/

namespace Solweig.Incremental

open Solweig.Lib Solweig.Lib.Ordered

/-- The value that is written under a key. -/
abbrev ForcingWrite := ForcingKey × Option ForcingValue

def ForcingChange.write (change : ForcingChange) : ForcingWrite := (change.key, change.afterValue)

/-- What a batch writes, in order of arrival. -/
def batchWrites (batch : List ForcingDelta) : List ForcingWrite :=
  (batch.flatMap (·.changes)).map ForcingChange.write

/-- What a batch changes of a cell: the whole series, then the timestep over it. -/
def cellWrites (name : String) (timeIndex : Nat) (batch : List ForcingDelta) : List ForcingWrite :=
  (lastOf (batchWrites batch) (name, none)).toList ++
    (lastOf (batchWrites batch) (name, some timeIndex)).toList

/-- What all batches change of a cell, oldest first. -/
def cellHistory (batches : List (List ForcingDelta)) (name : String) (timeIndex : Nat) :
    List ForcingWrite :=
  batches.flatMap (cellWrites name timeIndex)

/-- The latest batch decides, and within it the timestep before the whole series. -/
def latestWrite (batches : List (List ForcingDelta)) (name : String) (timeIndex : Nat) :
    Option ForcingWrite :=
  batches.reverse.findSome? fun batch =>
    (lastOf (batchWrites batch) (name, some timeIndex)).or (lastOf (batchWrites batch) (name, none))

def writtenAt (timeIndex : Nat) (write : ForcingWrite) : Option MetValue :=
  write.2.bind (·.at timeIndex)

/-- The value of the latest write, the baseline where there is none. -/
def valueOf (write : Option ForcingWrite) (baseline : MetTable) (column timeIndex : Nat) :
    Option MetValue :=
  match write with
  | none => some (baseline.cell timeIndex column)
  | some write => writtenAt timeIndex write

/-- Where a cell was changed first and last in one way, the last change in the other way gives it
the same value. -/
def KeepsOrder (batches : List (List ForcingDelta)) (name : String) (timeIndex : Nat) : Prop :=
  ∀ first last other, (cellHistory batches name timeIndex).head? = some first →
    (cellHistory batches name timeIndex).getLast? = some last → first.1 = last.1 →
    other.1 ≠ last.1 → lastOf (cellHistory batches name timeIndex) other.1 = some other →
    writtenAt timeIndex other = writtenAt timeIndex last

/-- The key is of the cell. -/
def ofCell (name : String) (timeIndex : Nat) (key : ForcingKey) : Bool :=
  key = (name, none) ∨ key = (name, some timeIndex)

section Cell

variable {name : String} {timeIndex : Nat}

theorem ofCell_iff {key : ForcingKey} : ofCell name timeIndex key = true ↔
    key = (name, none) ∨ key = (name, some timeIndex) :=
  decide_eq_true_iff

theorem series_ne_time : ((name, none) : ForcingKey) ≠ (name, some timeIndex) := by simp

theorem getLast?_toList (a b : Option ForcingWrite) :
    (a.toList ++ b.toList).getLast? = b.or a := by
  cases a <;> cases b <;> simp

theorem cellWrites_ofCell {batch : List ForcingDelta} {write : ForcingWrite}
    (h : write ∈ cellWrites name timeIndex batch) :
    write.1 = (name, none) ∨ write.1 = (name, some timeIndex) := by
  unfold cellWrites at h
  rcases List.mem_append.mp h with h | h
  · exact Or.inl (lastOf_mem (Option.mem_toList.mp h)).2
  · exact Or.inr (lastOf_mem (Option.mem_toList.mp h)).2

theorem latestWrite_eq (batches : List (List ForcingDelta)) :
    latestWrite batches name timeIndex = (cellHistory batches name timeIndex).getLast? := by
  unfold latestWrite cellHistory
  induction batches using List.reverseRecOn with
  | nil => rfl
  | append_singleton batches batch ih =>
    rw [List.reverse_append, List.flatMap_append, List.getLast?_append, ← ih]
    simp only [List.reverse_singleton, List.singleton_append, List.findSome?_cons,
      List.flatMap_singleton]
    rw [cellWrites, getLast?_toList]
    cases (lastOf (batchWrites batch) (name, some timeIndex)).or
      (lastOf (batchWrites batch) (name, none)) <;> rfl

/-! ## One batch -/

theorem timeOrder_injective : Function.Injective timeOrder := by
  intro a b h
  cases a <;> cases b <;> simp only [timeOrder] at h
  · rfl
  · omega
  · omega
  · rw [Int.natCast_inj.mp h]

theorem foldChange_writes {folded : List (ForcingKey × ForcingChange)} (change : ForcingChange)
    (hkeys : ∀ e ∈ folded, e.1 = e.2.key) :
    (foldChange folded change).map (Prod.map id ForcingChange.afterValue) =
      assign (folded.map (Prod.map id ForcingChange.afterValue)) change.write ∧
    ∀ e ∈ foldChange folded change, e.1 = e.2.key := by
  unfold foldChange
  refine ⟨map_assign _ _ _, fun e he => ?_⟩
  rcases mem_assign he with rfl | he
  · rfl
  · exact hkeys e he

theorem foldChanges_writes (changes : List ForcingChange)
    {folded : List (ForcingKey × ForcingChange)} (hkeys : ∀ e ∈ folded, e.1 = e.2.key) :
    (changes.foldl foldChange folded).map (Prod.map id ForcingChange.afterValue) =
      (changes.map ForcingChange.write).foldl assign
        (folded.map (Prod.map id ForcingChange.afterValue)) ∧
    ∀ e ∈ changes.foldl foldChange folded, e.1 = e.2.key := by
  induction changes generalizing folded with
  | nil => exact ⟨rfl, hkeys⟩
  | cons change changes ih =>
    obtain ⟨hwrites, hkeys'⟩ := foldChange_writes change hkeys
    obtain ⟨hrest, hfinal⟩ := ih hkeys'
    refine ⟨?_, hfinal⟩
    rw [List.foldl_cons, hrest, hwrites]
    rfl

theorem foldDeltas_writes {batch : List ForcingDelta} {folded : List (ForcingKey × ForcingChange)}
    (h : batch.foldlM foldDelta [] = .ok folded) :
    folded.map (Prod.map id ForcingChange.afterValue) = assignAll (batchWrites batch) ∧
      ∀ e ∈ folded, e.1 = e.2.key := by
  refine foldlM_invariant (I := fun done folded =>
    folded.map (Prod.map id ForcingChange.afterValue) = assignAll (batchWrites done) ∧
      ∀ e ∈ folded, e.1 = e.2.key) ?_ ⟨rfl, fun e he => by cases he⟩ h
  intro done delta rest folded folded' _ hI hfold
  unfold foldDelta at hfold
  simp only [except_bind_ok, refuseIf_ok] at hfold
  obtain ⟨-, -, -, -, hfold⟩ := hfold
  obtain rfl := Except.ok.inj hfold
  obtain ⟨hwrites, hkeys⟩ := foldChanges_writes delta.changes hI.2
  refine ⟨?_, hkeys⟩
  rw [hwrites, hI.1]
  unfold batchWrites assignAll
  rw [List.flatMap_append, List.map_append, List.foldl_append, List.flatMap_singleton]

theorem overlayFromDeltas_cell {batch : List ForcingDelta} {overlay : ForcingOverlay}
    (h : overlayFromDeltas batch = .ok overlay) :
    (overlay.changes.map ForcingChange.write).filter (fun e => ofCell name timeIndex e.1) =
      cellWrites name timeIndex batch := by
  unfold overlayFromDeltas at h
  obtain ⟨folded, hfolded, hmake⟩ := except_bind_ok.mp h
  rw [ForcingOverlay.make_ok hmake]
  obtain ⟨hwrites, hkeys⟩ := foldDeltas_writes hfolded
  generalize hsorted : (folded.map Prod.snd).insertionSort changeBefore = sorted
  have hperm : sorted.Perm (folded.map Prod.snd) := hsorted ▸ List.perm_insertionSort _ _
  have horder : sorted.Pairwise changeBefore := hsorted ▸ List.pairwise_insertionSort _ _
  have hpermWrites : (sorted.map ForcingChange.write).Perm (assignAll (batchWrites batch)) := by
    rw [← hwrites]
    refine (hperm.map _).trans (List.Perm.of_eq ?_)
    rw [List.map_map]
    apply List.map_congr_left
    intro e he
    simp [ForcingChange.write, Prod.map, hkeys e he]
  -- whichever was written first, the two last writes are the cell's part of the map
  have hpart : ((assignAll (batchWrites batch)).filter fun e => ofCell name timeIndex e.1).Perm
      (cellWrites name timeIndex batch) := by
    have hseries : ofCell name timeIndex (name, none) = true := ofCell_iff.mpr (Or.inl rfl)
    have htime : ofCell name timeIndex (name, some timeIndex) = true :=
      ofCell_iff.mpr (Or.inr rfl)
    rw [filter_assignAll]
    unfold cellWrites
    rw [← lastOf_filter hseries (batchWrites batch), ← lastOf_filter htime (batchWrites batch)]
    have hpair : ∀ e ∈ (batchWrites batch).filter (fun e => ofCell name timeIndex e.1),
        e.1 = (name, none) ∨ e.1 = (name, some timeIndex) :=
      fun e he => ofCell_iff.mp (List.mem_filter.mp he).2
    generalize (batchWrites batch).filter (fun e => ofCell name timeIndex e.1) = writes at hpair ⊢
    cases writes with
    | nil => rfl
    | cons start writes =>
      rcases hpair start List.mem_cons_self with hstart | hstart
      · rw [assignAll_pair series_ne_time hpair fun e he => by
          rwa [← Option.some.inj he]]
      · rw [assignAll_pair series_ne_time.symm (fun e he => (hpair e he).symm) fun e he => by
          rwa [← Option.some.inj he]]
        exact List.perm_append_comm
  have hname : ∀ e : ForcingWrite, ofCell name timeIndex e.1 = true → e.1.1 = name := by
    intro e he
    rcases ofCell_iff.mp he with hkey | hkey <;> rw [hkey]
  have hordered : (sorted.map ForcingChange.write).Pairwise fun a b =>
      a.1.1 = b.1.1 → timeOrder a.1.2 ≤ timeOrder b.1.2 := by
    refine List.pairwise_map.mpr (horder.imp fun {a b} hab hsame => ?_)
    rcases Prod.Lex.toLex_le_toLex.mp hab with hlt | ⟨-, hle⟩
    · exact absurd hsame (ne_of_lt hlt)
    · exact hle
  have hunique : ∀ {l l' : List ForcingWrite},
      (∀ a b, a ∈ l → b ∈ l' → timeOrder a.1.2 ≤ timeOrder b.1.2 →
        timeOrder b.1.2 ≤ timeOrder a.1.2 → a = b) →
      l.Pairwise (fun a b => timeOrder a.1.2 ≤ timeOrder b.1.2) →
      l'.Pairwise (fun a b => timeOrder a.1.2 ≤ timeOrder b.1.2) → l.Perm l' → l = l' :=
    List.Perm.eq_of_pairwise
  refine hunique ?_ ?_ ?_ ((hpermWrites.filter _).trans hpart)
  · intro a b ha hb hab hba
    have hmem := hpermWrites.mem_iff.mp (List.mem_of_mem_filter ha)
    have hmem' := hpart.mem_iff.mpr hb
    apply List.inj_on_of_nodup_map (assignAll_nodup (batchWrites batch)) hmem
      (List.mem_of_mem_filter hmem')
    refine Prod.ext ?_ (timeOrder_injective (le_antisymm hab hba))
    rw [hname a (List.mem_filter.mp ha).2, hname b (List.mem_filter.mp hmem').2]
  · refine (hordered.filter _).imp_of_mem fun {a b} ha hb hab => hab ?_
    rw [hname a (List.mem_filter.mp ha).2, hname b (List.mem_filter.mp hb).2]
  · unfold cellWrites
    cases hseries : lastOf (batchWrites batch) (name, none) with
    | none => cases lastOf (batchWrites batch) (name, some timeIndex) <;> simp
    | some series =>
      cases htime : lastOf (batchWrites batch) (name, some timeIndex) with
      | none => simp
      | some time =>
        simp only [Option.toList_some, List.singleton_append, List.pairwise_pair]
        rw [(lastOf_mem hseries).2, (lastOf_mem htime).2]
        simp only [timeOrder]
        omega

/-! ## All batches -/

def writesOf (applied : Option ForcingOverlay) : List ForcingWrite :=
  ((applied.map ForcingOverlay.changes).getD []).map ForcingChange.write

theorem keyed_writes (changes : List ForcingChange) :
    ((assignAll (changes.map fun change => (change.key, change))).map Prod.snd).map
      ForcingChange.write = assignAll (changes.map ForcingChange.write) := by
  have hwrite : (changes.map fun change => (change.key, change)).map
      (Prod.map id ForcingChange.afterValue) = changes.map ForcingChange.write := by
    rw [List.map_map]
    rfl
  rw [← hwrite, ← map_assignAll, List.map_map]
  apply List.map_congr_left
  intro e he
  obtain ⟨change, -, rfl⟩ := List.mem_map.mp (mem_assignAll he)
  rfl

theorem publishedOverlay_cell {batches : List (List ForcingDelta)} {applied : Option ForcingOverlay}
    (h : publishedOverlay batches = .ok applied) :
    (writesOf applied).filter (fun e => ofCell name timeIndex e.1) =
      assignAll (cellHistory batches name timeIndex) := by
  unfold publishedOverlay at h
  refine foldlM_invariant (I := fun done applied =>
    (writesOf applied).filter (fun e => ofCell name timeIndex e.1) =
      assignAll (cellHistory done name timeIndex)) ?_ rfl h
  intro done batch rest applied applied' _ hI hstep
  have hhistory : cellHistory (done ++ [batch]) name timeIndex =
      cellHistory done name timeIndex ++ cellWrites name timeIndex batch := by
    unfold cellHistory
    rw [List.flatMap_append, List.flatMap_singleton]
  rw [hhistory]
  unfold effectiveForcingOverlay at hstep
  split at hstep
  · next hempty =>
    obtain rfl := Except.ok.inj hstep
    have hnone : cellWrites name timeIndex batch = [] := by
      rw [hempty]
      rfl
    rw [hnone, List.append_nil, hI]
  · obtain ⟨overlay, hoverlay, hstep⟩ := except_bind_ok.mp hstep
    obtain ⟨merged, hmerged, hstep⟩ := except_bind_ok.mp hstep
    obtain rfl := Except.ok.inj hstep
    have hmap : writesOf (some merged) = assignAll (writesOf applied ++
        overlay.changes.map ForcingChange.write) := by
      unfold writesOf
      rw [Option.map_some, Option.getD_some, ForcingOverlay.make_ok hmerged, ← List.map_append,
        keyed_writes]
    rw [hmap, filter_assignAll, List.filter_append, hI, overlayFromDeltas_cell hoverlay,
      assignAll_append]

/-! ## Resolution -/

theorem setCells_of_ne (table : MetTable) {column col : Nat} (values : Nat → Option MetValue)
    (row : Nat) (h : col ≠ column) : (table.setCells column values).cell row col =
      table.cell row col := by
  simp [MetTable.setCells, h]

theorem setCells_self (table : MetTable) (column : Nat) (values : Nat → Option MetValue)
    (row : Nat) : (table.setCells column values).cell row column =
      (values row).getD (table.cell row column) := by
  simp [MetTable.setCells]

theorem resolveChange_values {table table' : MetTable} {change : ForcingChange}
    (h : resolveChange table change = .ok table') :
    ∃ spec values, specByVariable change.variableName = some spec ∧
      table' = table.setCells spec.column values ∧ ∀ row < table.rows,
        (change.timeIndex = none ∨ change.timeIndex = some row →
          ∃ value, values row = some value ∧ writtenAt row change.write = some value) ∧
        (¬ (change.timeIndex = none ∨ change.timeIndex = some row) → values row = none) := by
  unfold resolveChange at h
  unfold writtenAt ForcingChange.write
  split at h
  · cases h
  · next spec hspec =>
    obtain ⟨-, -, h⟩ := except_bind_ok.mp h
    split at h
    · next hwhole =>
      split at h
      · cases h
      · next values hafter =>
        simp only [except_bind_ok, refuseIf_ok] at h
        obtain ⟨-, hlength, h⟩ := h
        refine ⟨spec, _, hspec, (Except.ok.inj h).symm, fun row hrow => ?_⟩
        rw [not_not.mp hlength |>.symm] at hrow
        refine ⟨fun _ => ⟨values[row], List.getElem?_eq_getElem hrow, ?_⟩, fun hother =>
          absurd (Or.inl hwhole) hother⟩
        simp [hafter, ForcingValue.at, hrow]
      · next value hafter =>
        refine ⟨spec, _, hspec, (Except.ok.inj h).symm, fun row _ => ⟨fun _ => ⟨value, rfl, ?_⟩,
          fun hother => absurd (Or.inl hwhole) hother⟩⟩
        simp [hafter, ForcingValue.at]
    · next time htime =>
      obtain ⟨-, -, h⟩ := except_bind_ok.mp h
      split at h
      · cases h
      · next value hvalue =>
        refine ⟨spec, _, hspec, (Except.ok.inj h).symm, fun row _ => ⟨fun hrow => ⟨value, ?_, ?_⟩,
          fun hother => ?_⟩⟩
        · have hsame : row = time := by simpa [htime, eq_comm] using hrow
          exact if_pos hsame
        · have hsame : row = time := by simpa [htime, eq_comm] using hrow
          rw [hsame]
          exact hvalue
        · have hne : row ≠ time := fun hsame => hother (Or.inr (by rw [hsame, htime]))
          exact if_neg hne

theorem resolveChange_cell {table table' : MetTable} {change : ForcingChange}
    {spec : ForcingVariableSpec} (hspec : specByVariable name = some spec)
    (ht : timeIndex < table.rows) (h : resolveChange table change = .ok table') :
    table'.rows = table.rows ∧ some (table'.cell timeIndex spec.column) =
      if ofCell name timeIndex change.key then writtenAt timeIndex change.write
      else some (table.cell timeIndex spec.column) := by
  obtain ⟨other, values, hother, rfl, hvalues⟩ := resolveChange_values h
  refine ⟨rfl, ?_⟩
  obtain ⟨hset, hkept⟩ := hvalues timeIndex ht
  have hkey : ofCell name timeIndex change.key = true ↔ change.variableName = name ∧
      (change.timeIndex = none ∨ change.timeIndex = some timeIndex) := by
    rw [ofCell_iff]
    simp only [ForcingChange.key, Prod.mk.injEq]
    exact and_or_left.symm
  by_cases hname : change.variableName = name
  · rw [hname, hspec, Option.some.injEq] at hother
    subst hother
    rw [setCells_self]
    by_cases htime : change.timeIndex = none ∨ change.timeIndex = some timeIndex
    · obtain ⟨value, hvalue, hwritten⟩ := hset htime
      rw [if_pos (hkey.mpr ⟨hname, htime⟩), hvalue, hwritten, Option.getD_some]
    · rw [if_neg (fun hcell => htime (hkey.mp hcell).2), hkept htime, Option.getD_none]
  · rw [if_neg (fun hcell => hname (hkey.mp hcell).1), setCells_of_ne]
    exact fun hsame => hname (spec_of_column hspec hother hsame).symm

theorem resolveApplied_cell {applied : Option ForcingOverlay} {baseline resolved : MetTable}
    {spec : ForcingVariableSpec} (hspec : specByVariable name = some spec)
    (ht : timeIndex < baseline.rows) (h : resolveApplied applied baseline = .ok resolved) :
    some (resolved.cell timeIndex spec.column) =
      valueOf ((writesOf applied).filter fun e => ofCell name timeIndex e.1).getLast? baseline
        spec.column timeIndex := by
  cases applied with
  | none =>
    obtain rfl := Except.ok.inj h
    rfl
  | some overlay =>
    have hall := foldlM_invariant (I := fun done table => table.rows = baseline.rows ∧
      some (table.cell timeIndex spec.column) =
        valueOf ((done.map ForcingChange.write).filter fun e => ofCell name timeIndex e.1).getLast?
          baseline spec.column timeIndex) ?_ ⟨rfl, rfl⟩ h
    · exact hall.2
    · intro done change rest table table' _ hI hstep
      obtain ⟨hrows, hcell⟩ := resolveChange_cell hspec (hI.1 ▸ ht) hstep
      refine ⟨hrows.trans hI.1, ?_⟩
      rw [hcell, List.map_append, List.filter_append]
      by_cases hof : ofCell name timeIndex change.key = true
      · have hof' : ofCell name timeIndex change.write.1 = true := hof
        rw [if_pos hof]
        simp [hof', valueOf]
      · have hof' : ¬ ofCell name timeIndex change.write.1 = true := hof
        rw [if_neg hof, hI.2]
        simp [hof']

/-! ## Where the latest batch is served -/

/-- After any published batches a timestep of a variable has the value of the latest batch that
changes it exactly when its writes keep their order. -/
theorem resolve_latest_iff {batches : List (List ForcingDelta)} {applied : Option ForcingOverlay}
    {baseline resolved : MetTable} {spec : ForcingVariableSpec}
    (hpublished : publishedOverlay batches = .ok applied)
    (hresolved : resolveApplied applied baseline = .ok resolved)
    (hspec : specByVariable name = some spec) (ht : timeIndex < baseline.rows) :
    some (resolved.cell timeIndex spec.column) =
        valueOf (latestWrite batches name timeIndex) baseline spec.column timeIndex ↔
      KeepsOrder batches name timeIndex := by
  rw [resolveApplied_cell hspec ht hresolved, publishedOverlay_cell hpublished, latestWrite_eq]
  unfold KeepsOrder
  have hpair : ∀ e ∈ cellHistory batches name timeIndex,
      e.1 = (name, none) ∨ e.1 = (name, some timeIndex) := by
    intro e he
    obtain ⟨batch, -, he⟩ := List.mem_flatMap.mp he
    exact cellWrites_ofCell he
  generalize cellHistory batches name timeIndex = history at hpair ⊢
  cases history with
  | nil => exact iff_of_true rfl fun first _ _ hfirst => by cases hfirst
  | cons start rest =>
    have hother : ∃ second, start.1 ≠ second ∧ ∀ e ∈ start :: rest, e.1 = start.1 ∨ e.1 = second := by
      rcases hpair start List.mem_cons_self with hstart | hstart
      · exact ⟨_, hstart ▸ series_ne_time, hstart ▸ hpair⟩
      · exact ⟨_, hstart ▸ series_ne_time.symm, fun e he => hstart ▸ (hpair e he).symm⟩
    obtain ⟨second, hne, hkeys⟩ := hother
    rw [assignAll_pair hne hkeys fun e he => by rw [← Option.some.inj he], getLast?_toList]
    obtain ⟨last, hlast⟩ : ∃ last, (start :: rest).getLast? = some last :=
      ⟨_, List.getLast?_eq_some_getLast (List.cons_ne_nil start rest)⟩
    have hlastOf := lastOf_getLast? hlast
    rcases hkeys last (List.mem_of_getLast? hlast) with hkey | hkey
    · -- the cell was changed first and last in one way
      cases hsecond : lastOf (start :: rest) second with
      | none =>
        refine iff_of_true (by rw [Option.none_or, ← hkey, hlastOf, hlast]) ?_
        intro first last' other _ hlast' _ hdiffer hmem
        rw [hlast, Option.some.injEq] at hlast'
        subst hlast'
        rcases hkeys other (lastOf_mem hmem).1 with hfirst | hfirst
        · exact absurd (hfirst.trans hkey.symm) hdiffer
        · rw [hfirst, hsecond] at hmem
          cases hmem
      | some shown =>
        have hshown := (lastOf_mem hsecond).2
        rw [Option.some_or, hlast]
        constructor
        · intro hsame first last' other _ hlast' _ hdiffer hmem
          rw [Option.some.injEq] at hlast'
          subst hlast'
          rcases hkeys other (lastOf_mem hmem).1 with hfirst | hfirst
          · exact absurd (hfirst.trans hkey.symm) hdiffer
          · rw [hfirst, hsecond, Option.some.injEq] at hmem
            exact hmem ▸ hsame
        · intro hkeeps
          exact hkeeps start last shown rfl rfl hkey.symm
            (fun hsame => hne ((hkey.symm.trans hsame.symm).trans hshown)) (hshown ▸ hsecond)
    · rw [← hkey, hlastOf, Option.some_or, hlast]
      refine iff_of_true rfl fun first last' other hfirst hlast' hsame => ?_
      rw [Option.some.injEq] at hlast'
      rw [List.head?_cons, Option.some.injEq] at hfirst
      subst hlast' hfirst
      exact absurd (hsame.trans hkey) hne

end Cell

/-- A batch that sets the air temperature to a whole number of degrees. -/
def temperatureBatch (timeIndex : Option Nat) (degrees : Nat) : List ForcingDelta :=
  [⟨meteorologySourceNode, adapterId,
    [⟨"air_temperature", timeIndex, none, some (.scalar (.finite degrees))⟩]⟩]

theorem airTemperature_spec :
    specByVariable "air_temperature" = some ⟨"air_temperature", 11, "degC", -60, 60⟩ := rfl

def flatTable : MetTable := ⟨3, 25, fun _ _ => .finite 0⟩

/-- A timestep that is set before and after a whole series keeps its place before it, and the
series is served. -/
theorem reassigned_step_is_hidden :
    ∃ applied resolved, publishedOverlay [temperatureBatch (some 1) 26, temperatureBatch none 25,
        temperatureBatch (some 1) 30] = .ok applied ∧
      resolveApplied applied flatTable = .ok resolved ∧ resolved.cell 1 11 = .finite 25 ∧
      valueOf (latestWrite [temperatureBatch (some 1) 26, temperatureBatch none 25,
        temperatureBatch (some 1) 30] "air_temperature" 1) flatTable 11 1 = some (.finite 30) := by
  obtain ⟨applied, happlied⟩ := except_of_isOk (x := publishedOverlay
    [temperatureBatch (some 1) 26, temperatureBatch none 25, temperatureBatch (some 1) 30])
    (by decide)
  have hcell : ((publishedOverlay [temperatureBatch (some 1) 26, temperatureBatch none 25,
      temperatureBatch (some 1) 30]).bind fun applied => (resolveApplied applied flatTable).map
        fun resolved => resolved.cell 1 11).toOption = some (.finite 25) := by
    decide
  rw [happlied] at hcell
  change ((resolveApplied applied flatTable).map _).toOption = _ at hcell
  cases hresolved : resolveApplied applied flatTable with
  | error error =>
    rw [hresolved] at hcell
    cases hcell
  | ok resolved =>
    rw [hresolved] at hcell
    exact ⟨applied, resolved, happlied, hresolved, Option.some.inj hcell, by decide⟩

theorem resolve_latest_series :
    ∃ applied resolved, publishedOverlay [temperatureBatch (some 1) 26, temperatureBatch none 25] =
        .ok applied ∧ resolveApplied applied flatTable = .ok resolved ∧
      (some (resolved.cell 1 11) = valueOf (latestWrite [temperatureBatch (some 1) 26,
        temperatureBatch none 25] "air_temperature" 1) flatTable 11 1 ↔
      KeepsOrder [temperatureBatch (some 1) 26, temperatureBatch none 25] "air_temperature" 1) := by
  obtain ⟨applied, happlied⟩ := except_of_isOk (x := publishedOverlay
    [temperatureBatch (some 1) 26, temperatureBatch none 25]) (by decide)
  have hok : ((publishedOverlay [temperatureBatch (some 1) 26, temperatureBatch none 25]).bind
      fun applied => resolveApplied applied flatTable).isOk = true := by
    decide
  rw [happlied] at hok
  obtain ⟨resolved, hresolved⟩ := except_of_isOk (x := resolveApplied applied flatTable) hok
  exact ⟨applied, resolved, happlied, hresolved,
    resolve_latest_iff happlied hresolved airTemperature_spec (by decide)⟩

end Solweig.Incremental
