import Solweig.Incremental.TemporalStore

/-!
# Provenance of each cell

Every run of publications and invalidations, against the batch that covered a cell last.
-/

namespace Solweig.Incremental

open Solweig.Lib Solweig.Planner

/-- A batch whose windows are disjoint for each key. -/
structure DisjointBatch where
  entries : List TemporalResultEntry
  apart : entries.Pairwise fun a b => a.key = b.key → Apart TemporalResultEntry.holds a b

/-- The store with, for each key and cell, the entry of the last accepted batch that covered it
since the key was invalidated. -/
structure TracedStore where
  store : TemporalResultStore
  latest : TemporalResultKey → Cell → Option TemporalResultEntry

inductive StoreEvent where
  | publish (batch : DisjointBatch) (writer : Option String)
  | invalidate (nodeId : String) (times : Option (List Int))

/-- The entry of a batch that covers a cell, before what covered it earlier. -/
def refresh (part : List TemporalResultEntry) (latest : Cell → Option TemporalResultEntry)
    (cell : Cell) : Option TemporalResultEntry :=
  (part.find? (·.holds cell)).or (latest cell)

def storeStep (s : TracedStore) : StoreEvent → Option TracedStore
  | .publish batch writer =>
    match publish s.store batch.entries writer with
    | .error _ => some s
    | .ok (store, _) =>
      some ⟨store, fun key => refresh (batch.entries.filter (·.key = key)) (s.latest key)⟩
  | .invalidate nodeId times =>
    some ⟨invalidate s.store nodeId times, fun key cell =>
      if key.1 = nodeId ∧ times.all (fun times => key.2 ∈ times) then none else s.latest key cell⟩

def emptyStore (grid : Option RasterGrid) : TracedStore := ⟨⟨grid, ∅, none⟩, fun _ _ => none⟩

def TemporalResultStore.entriesAt (store : TemporalResultStore) (key : TemporalResultKey) :
    List TemporalResultEntry :=
  store.entries.getD key []

/-- The entry stands for a part of the original. -/
structure SameSource (entry original : TemporalResultEntry) : Prop where
  revision : entry.sceneRevision = original.sceneRevision
  mode : entry.mode = original.mode
  patch : entry.patchPath = original.patchPath
  inside : ∀ cell, entry.holds cell = true → original.holds cell = true

/-- The entries of a key tile the cells covered since its invalidation, and each stands for the
batch that covered its cells last. -/
structure KeyTraced (entries : List TemporalResultEntry)
    (latest : Cell → Option TemporalResultEntry) : Prop where
  tiles : Tiles TemporalResultEntry.holds entries fun cell => (latest cell).isSome
  source : ∀ entry ∈ entries, ∀ cell original, entry.holds cell = true →
    latest cell = some original → SameSource entry original

/-- Each entry has the job of the batch that covered its cells last. -/
def KeyJobs (entries : List TemporalResultEntry) (latest : Cell → Option TemporalResultEntry) :
    Prop :=
  ∀ entry ∈ entries, ∀ cell original, entry.holds cell = true → latest cell = some original →
    entry.jobId = original.jobId

def Traced (s : TracedStore) : Prop := ∀ key, KeyTraced (s.store.entriesAt key) (s.latest key)

def JobsTraced (s : TracedStore) : Prop := ∀ key, KeyJobs (s.store.entriesAt key) (s.latest key)

/-! ## What is left of an entry -/

theorem remainders_tile (cuts : List RasterWindow) (entry : TemporalResultEntry) :
    Tiles TemporalResultEntry.holds (remainders cuts entry) fun cell =>
      entry.holds cell && !cuts.any fun cut => holds cut cell := by
  unfold remainders
  split
  · intro cell
    rw [List.countP_map]
    exact subtractWindows_tile entry.writeWindow cuts cell
  · next hnone =>
    intro cell
    have hfree : entry.holds cell = true → (cuts.any fun cut => holds cut cell) = false := by
      intro hcell
      rw [List.any_eq_false]
      intro cut hcut hhit
      apply hnone
      rw [List.any_eq_true]
      refine ⟨cut, hcut, ?_⟩
      rw [TemporalResultEntry.holds, holds_iff] at hcell
      rw [holds_iff] at hhit
      rw [intersects_iff]
      omega
    cases hcell : entry.holds cell with
    | false => simp [hcell]
    | true => simp [hcell, hfree hcell]

theorem remainders_source {cuts : List RasterWindow} {entry other : TemporalResultEntry}
    (h : other ∈ remainders cuts entry) : SameSource other entry ∧ other.jobId = entry.jobId := by
  have hinside : ∀ cell, other.holds cell = true → entry.holds cell = true := by
    intro cell hcell
    have htiles := (remainders_tile cuts entry).holds_iff.mp ⟨other, h, hcell⟩
    exact (Bool.and_eq_true_iff.mp htiles).1
  unfold remainders at h
  split at h
  · obtain ⟨window, -, rfl⟩ := List.mem_map.mp h
    exact ⟨⟨rfl, rfl, rfl, hinside⟩, rfl⟩
  · rw [List.mem_singleton.mp h] at hinside ⊢
    exact ⟨⟨rfl, rfl, rfl, hinside⟩, rfl⟩

theorem SameSource.trans {a b c : TemporalResultEntry} (hab : SameSource a b)
    (hbc : SameSource b c) : SameSource a c where
  revision := hab.revision.trans hbc.revision
  mode := hab.mode.trans hbc.mode
  patch := hab.patch.trans hbc.patch
  inside := fun cell hcell => hbc.inside cell (hab.inside cell hcell)

/-! ## One key -/

section OneKey

variable {recorded entries part : List TemporalResultEntry} {cuts : List RasterWindow}
  {latest : Cell → Option TemporalResultEntry}

theorem refresh_isSome (part : List TemporalResultEntry)
    (latest : Cell → Option TemporalResultEntry) (cell : Cell) :
    (refresh part latest cell).isSome = ((latest cell).isSome || part.any (·.holds cell)) := by
  unfold refresh
  rw [Option.isSome_or, List.isSome_find?, Bool.or_comm]

theorem refresh_of_mem {b : TemporalResultEntry} {cell : Cell}
    (hapart : part.Pairwise (Apart TemporalResultEntry.holds)) (hb : b ∈ part)
    (hcell : b.holds cell = true) : refresh part latest cell = some b := by
  unfold refresh
  have hsome : (part.find? (·.holds cell)).isSome := List.find?_isSome.mpr ⟨b, hb, hcell⟩
  obtain ⟨found, hfound⟩ := Option.isSome_iff_exists.mp hsome
  have hsame := (tiles_of_apart hapart).unique (List.mem_of_find?_eq_some hfound) hb
    (List.find?_some (p := fun entry : TemporalResultEntry => entry.holds cell) hfound) hcell
  rw [hfound, Option.some_or, hsame]

theorem refresh_cases {cell : Cell} {original : TemporalResultEntry}
    (h : refresh part latest cell = some original) :
    (original ∈ part ∧ original.holds cell = true) ∨
      ((∀ b ∈ part, b.holds cell = false) ∧ latest cell = some original) := by
  unfold refresh at h
  cases hfind : part.find? (·.holds cell) with
  | some found =>
    rw [hfind, Option.some_or, Option.some.injEq] at h
    subst h
    exact Or.inl ⟨List.mem_of_find?_eq_some hfind,
      List.find?_some (p := fun entry : TemporalResultEntry => entry.holds cell) hfind⟩
  | none =>
    rw [hfind, Option.none_or] at h
    exact Or.inr ⟨by simpa using hfind, h⟩

theorem newer_cases {entry original : TemporalResultEntry} {cell : Cell}
    (hapart : part.Pairwise (Apart TemporalResultEntry.holds))
    (hcuts : cuts.Perm (part.map (·.writeWindow)))
    (hmem : entry ∈ recorded.flatMap (remainders cuts) ++ part) (hcell : entry.holds cell = true)
    (horiginal : refresh part latest cell = some original) :
    entry = original ∨ ∃ r ∈ recorded, r.holds cell = true ∧ latest cell = some original ∧
      SameSource entry r ∧ entry.jobId = r.jobId := by
  rcases List.mem_append.mp hmem with hmem | hmem
  · obtain ⟨r, hr, hmem⟩ := List.mem_flatMap.mp hmem
    obtain ⟨hsource, hjob⟩ := remainders_source hmem
    have hfree := (remainders_tile cuts r).holds_iff.mp ⟨entry, hmem, hcell⟩
    rw [Bool.and_eq_true, Bool.not_eq_true', List.any_eq_false] at hfree
    rcases refresh_cases horiginal with ⟨hpart, hhit⟩ | ⟨-, hlatest⟩
    · have hcut : original.writeWindow ∈ cuts := hcuts.mem_iff.mpr (List.mem_map_of_mem hpart)
      exact absurd hhit (hfree.2 _ hcut)
    · exact Or.inr ⟨r, hr, hfree.1, hlatest, hsource, hjob⟩
  · rw [refresh_of_mem hapart hmem hcell, Option.some.injEq] at horiginal
    exact Or.inl horiginal

theorem KeyTraced.newer (h : KeyTraced recorded latest)
    (hapart : part.Pairwise (Apart TemporalResultEntry.holds))
    (hcuts : cuts.Perm (part.map (·.writeWindow)))
    (hperm : entries.Perm (recorded.flatMap (remainders cuts) ++ part)) :
    KeyTraced entries (refresh part latest) where
  tiles := by
    have hcovered : ∀ cell, (cuts.any fun cut => holds cut cell) = part.any (·.holds cell) := by
      intro cell
      rw [hcuts.any_eq, List.any_map]
      rfl
    have hleft := h.tiles.narrow (fun cell => !cuts.any fun cut => holds cut cell)
      fun r _ => remainders_tile cuts r
    refine ((hleft.append (tiles_of_apart hapart) fun cell hcell => ?_).perm hperm.symm).congr
      fun cell => ?_
    · rw [Bool.and_eq_true, Bool.not_eq_true', hcovered] at hcell
      exact hcell.2
    · rw [refresh_isSome, hcovered]
      cases (latest cell).isSome <;> cases part.any (·.holds cell) <;> rfl
  source := by
    intro entry hentry cell original hcell horiginal
    rcases newer_cases hapart hcuts (hperm.mem_iff.mp hentry) hcell horiginal with
      rfl | ⟨r, hr, hrcell, hlatest, hsource, -⟩
    · exact ⟨rfl, rfl, rfl, fun _ hcell => hcell⟩
    · exact hsource.trans (h.source r hr cell original hrcell hlatest)

theorem KeyJobs.newer (h : KeyJobs recorded latest)
    (hapart : part.Pairwise (Apart TemporalResultEntry.holds))
    (hcuts : cuts.Perm (part.map (·.writeWindow)))
    (hperm : entries.Perm (recorded.flatMap (remainders cuts) ++ part)) :
    KeyJobs entries (refresh part latest) := by
  intro entry hentry cell original hcell horiginal
  rcases newer_cases hapart hcuts (hperm.mem_iff.mp hentry) hcell horiginal with
    rfl | ⟨r, hr, hrcell, hlatest, -, hjob⟩
  · rfl
  · rw [hjob]
    exact h r hr cell original hrcell hlatest

/-- Each entry of a replay is recorded with its window, mode and patch. -/
def Replays (part recorded : List TemporalResultEntry) : Prop :=
  ∀ b ∈ part, ∃ r ∈ recorded, r.sceneRevision = b.sceneRevision ∧ r.writeWindow = b.writeWindow ∧
    r.mode = b.mode ∧ r.patchPath = b.patchPath

theorem KeyTraced.replay (h : KeyTraced recorded latest) (hreplays : Replays part recorded)
    (hperm : entries.Perm recorded) : KeyTraced entries (refresh part latest) where
  tiles := by
    refine (h.tiles.perm hperm.symm).congr fun cell => ?_
    rw [refresh_isSome]
    cases hany : part.any (·.holds cell) with
    | false => rw [Bool.or_false]
    | true =>
      obtain ⟨b, hb, hcell⟩ := List.any_eq_true.mp hany
      obtain ⟨r, hr, -, hwindow, -⟩ := hreplays b hb
      have hrcell : r.holds cell = true := by
        rw [TemporalResultEntry.holds, hwindow]
        exact hcell
      rw [Bool.or_true]
      exact h.tiles.holds_iff.mp ⟨r, hr, hrcell⟩
  source := by
    intro entry hentry cell original hcell horiginal
    have hmem := hperm.mem_iff.mp hentry
    rcases refresh_cases horiginal with ⟨hpart, hhit⟩ | ⟨-, hlatest⟩
    · obtain ⟨r, hr, hrevision, hwindow, hmode, hpatch⟩ := hreplays original hpart
      have hrcell : r.holds cell = true := by
        rw [TemporalResultEntry.holds, hwindow]
        exact hhit
      obtain rfl := h.tiles.unique hmem hr hcell hrcell
      refine ⟨hrevision, hmode, hpatch, fun other hother => ?_⟩
      rwa [TemporalResultEntry.holds, ← hwindow]
    · exact h.source entry hmem cell original hcell hlatest

/-- A replay keeps each entry's job in step with the batch when their jobs agree on each window. -/
theorem KeyJobs.replay_iff (htraced : KeyTraced recorded latest) (h : KeyJobs recorded latest)
    (hapart : part.Pairwise (Apart TemporalResultEntry.holds)) (hreplays : Replays part recorded)
    (hperm : entries.Perm recorded) : KeyJobs entries (refresh part latest) ↔
      ∀ b ∈ part, ∀ r ∈ recorded, r.sceneRevision = b.sceneRevision →
        r.writeWindow = b.writeWindow → ¬ r.writeWindow.isEmpty → r.jobId = b.jobId := by
  constructor
  · intro hjobs b hb r hr _ hwindow hnonempty
    have hstart : holds r.writeWindow (r.writeWindow.rowStart, r.writeWindow.colStart) = true := by
      have hrows := r.writeWindow.rows
      have hcols := r.writeWindow.cols
      simp only [RasterWindow.isEmpty, decide_eq_true_eq] at hnonempty
      rw [holds_iff]
      dsimp only
      omega
    apply hjobs r (hperm.mem_iff.mpr hr) _ b hstart
    apply refresh_of_mem hapart hb
    rw [TemporalResultEntry.holds, ← hwindow]
    exact hstart
  · intro hkeep entry hentry cell original hcell horiginal
    have hmem := hperm.mem_iff.mp hentry
    rcases refresh_cases horiginal with ⟨hpart, hhit⟩ | ⟨-, hlatest⟩
    · obtain ⟨r, hr, hrevision, hwindow, -⟩ := hreplays original hpart
      have hrcell : r.holds cell = true := by
        rw [TemporalResultEntry.holds, hwindow]
        exact hhit
      obtain rfl := htraced.tiles.unique hmem hr hcell hrcell
      apply hkeep original hpart entry hr hrevision hwindow
      intro hempty
      rw [TemporalResultEntry.holds, holds_iff] at hrcell
      simp only [RasterWindow.isEmpty, decide_eq_true_eq] at hempty
      omega
    · exact h entry hmem cell original hcell hlatest

end OneKey

/-! ## A batch under its keys -/

section Batch

variable {grid : Option RasterGrid} {batch : List TemporalResultEntry} {key : TemporalResultKey}

theorem checkEntries_byKey (h : (batch.foldl (checkEntry grid) ([], ∅)).1 = []) :
    ∀ key, (batch.foldl (checkEntry grid) ([], ∅)).2[key]? =
      if batch.filter (·.key = key) = [] then none else some (batch.filter (·.key = key)) := by
  induction batch using List.reverseRecOn with
  | nil => simp
  | append_singleton batch last ih =>
    rw [List.foldl_append, List.foldl_cons, List.foldl_nil] at h ⊢
    generalize hs : batch.foldl (checkEntry grid) ([], ∅) = s at h ih
    unfold checkEntry at h ⊢
    dsimp only at h ⊢
    split at h
    · simp at h
    · next hgrid =>
      split at h
      · simp at h
      · next hdup =>
        rw [if_neg hgrid, if_neg hdup]
        have hfailures : s.1 = [] := (List.append_eq_nil_iff.mp h).1
        intro key
        dsimp only
        rw [List.filter_append]
        by_cases hkey : last.key = key
        · subst hkey
          rw [Dict.getElem?_push_self, Std.ExtTreeMap.getD_eq_getD_getElem?, ih hfailures]
          split <;> simp_all
        · rw [Dict.getElem?_push_of_ne _ _ hkey, ih hfailures]
          simp [hkey]

theorem checkBatch_byKey (key : TemporalResultKey) (h : (checkBatch grid batch).1 = []) :
    (checkBatch grid batch).2[key]? =
      if batch.filter (·.key = key) = [] then none else some (batch.filter (·.key = key)) :=
  checkEntries_byKey (List.append_eq_nil_iff.mp h).1 key

theorem checkBatch_revision (h : (checkBatch grid batch).1 = []) {a b : TemporalResultEntry}
    (ha : a ∈ batch) (hb : b ∈ batch) (hkey : a.key = b.key) :
    a.sceneRevision = b.sceneRevision := by
  have hbyKey := checkBatch_byKey b.key h
  have hmemA : a ∈ batch.filter (·.key = b.key) := List.mem_filter.mpr ⟨ha, by simpa using hkey⟩
  have hmemB : b ∈ batch.filter (·.key = b.key) := List.mem_filter.mpr ⟨hb, by simp⟩
  rw [if_neg (List.ne_nil_of_mem hmemB)] at hbyKey
  have hfailures := (List.append_eq_nil_iff.mp h).2
  rw [List.flatMap_eq_nil_iff] at hfailures
  have hnone := hfailures (b.key, batch.filter (·.key = b.key))
    (Std.ExtTreeMap.mem_toList_iff_getElem?_eq_some.mpr hbyKey)
  unfold keyFailures at hnone
  have hone : ¬ 1 < (revisionsOf (batch.filter (·.key = b.key))).length := by
    intro hmany
    rw [if_pos hmany] at hnone
    simp at hnone
  have hmem : ∀ e ∈ batch.filter (·.key = b.key), e.sceneRevision ∈
      revisionsOf (batch.filter (·.key = b.key)) := fun e he =>
    List.mem_dedup.mpr (List.mem_map_of_mem he)
  have hA := hmem a hmemA
  have hB := hmem b hmemB
  cases hlist : revisionsOf (batch.filter (·.key = b.key)) with
  | nil => rw [hlist] at hA; cases hA
  | cons revision rest =>
    rw [hlist] at hA hB hone
    have hrest : rest = [] := by
      cases rest with
      | nil => rfl
      | cons _ _ => simp at hone
    subst hrest
    rw [List.mem_singleton.mp hA, List.mem_singleton.mp hB]

end Batch

/-! ## What a publication leaves -/

section Publish

variable {entries : Dict TemporalResultKey (List TemporalResultEntry)} {byKey : ByKey}
  {settled : List (TemporalResultKey × List TemporalResultEntry)} {key : TemporalResultKey}
  {part : List TemporalResultEntry}

theorem mem_settleAll (h : settleAll entries byKey = .ok settled) (hmem : (key, part) ∈ settled) :
    ∃ group, byKey[key]? = some group ∧ settleKey entries[key]? key group = .ok part := by
  unfold settleAll at h
  obtain ⟨⟨key', group⟩, hgroup, hsettled⟩ := mem_of_mapM_ok h hmem
  obtain ⟨part', hpart, heq⟩ := except_map_ok.mp hsettled
  obtain ⟨rfl, rfl⟩ := Prod.mk.inj heq
  exact ⟨group, Std.ExtTreeMap.mem_toList_iff_getElem?_eq_some.mp hgroup, hpart⟩

theorem commitAll_getElem? (key : TemporalResultKey) (h : settleAll entries byKey = .ok settled) :
    (∀ group, byKey[key]? = some group → ∃ part, settleKey entries[key]? key group = .ok part ∧
      (commitAll entries settled)[key]? = some (commitKey entries[key]? part)) ∧
    (byKey[key]? = none → (commitAll entries settled)[key]? = entries[key]?) := by
  unfold commitAll
  constructor
  · intro group hgroup
    obtain ⟨⟨key', part⟩, hmem, hsettled⟩ := mapM_ok_mem h
      (Std.ExtTreeMap.mem_toList_iff_getElem?_eq_some.mpr hgroup)
    obtain ⟨part', hpart, heq⟩ := except_map_ok.mp hsettled
    obtain ⟨rfl, rfl⟩ := Prod.mk.inj heq
    dsimp only at hpart hmem
    refine ⟨part', hpart, ?_⟩
    have hone : ∀ entry ∈ settled, entry.1 = key →
        commitKey entries[entry.1]? entry.2 = commitKey entries[key]? part' := by
      rintro ⟨key', other⟩ hother rfl
      obtain ⟨group', hgroup', hsame⟩ := mem_settleAll h hother
      rw [hgroup, Option.some.injEq] at hgroup'
      subst hgroup'
      rw [hpart] at hsame
      rw [Except.ok.inj hsame]
    rw [Dict.getElem?_foldl_insert hone, if_pos ⟨(key, part'), hmem, rfl⟩]
  · intro hnone
    have habsent : ∀ entry ∈ settled, entry.1 ≠ key := by
      rintro ⟨key', other⟩ hother rfl
      obtain ⟨group, hgroup, -⟩ := mem_settleAll h hother
      rw [hnone] at hgroup
      cases hgroup
    rw [Dict.getElem?_foldl_insert (v := commitKey entries[key]? [])
      fun entry he hkey => absurd hkey (habsent entry he), if_neg]
    rintro ⟨entry, he, hkey⟩
    exact habsent entry he hkey

variable {store store' : TemporalResultStore} {batch : List TemporalResultEntry}
  {writer : Option String} {keys : List TemporalResultKey}

theorem publish_checked (h : publish store batch writer = .ok (store', keys)) :
    (checkBatch store.grid batch).1 = [] ∧ store'.grid = store.grid ∧
      ∃ settled, settleAll store.entries (checkBatch store.grid batch).2 = .ok settled ∧
        store'.entries = commitAll store.entries settled := by
  unfold publish at h
  simp only [except_bind_ok, refuseIf_ok] at h
  obtain ⟨-, -, h⟩ := h
  split at h
  · simp only [except_bind_ok, refuseIf_ok] at h
    obtain ⟨-, -, -, hchecked, settled, hsettled, hpure⟩ := h
    obtain ⟨rfl, -⟩ := Prod.mk.inj (Except.ok.inj hpure)
    exact ⟨List.length_eq_zero_iff.mp (not_not.mp hchecked), rfl, settled, hsettled, rfl⟩
  · simp only [except_bind_ok, refuseIf_ok] at h
    obtain ⟨-, hchecked, settled, hsettled, hpure⟩ := h
    obtain ⟨rfl, -⟩ := Prod.mk.inj (Except.ok.inj hpure)
    exact ⟨List.length_eq_zero_iff.mp (not_not.mp hchecked), rfl, settled, hsettled, rfl⟩

theorem publish_getElem? (key : TemporalResultKey) (h : publish store batch writer = .ok (store', keys)) :
    (batch.filter (·.key = key) ≠ [] → ∃ part,
      settleKey store.entries[key]? key (batch.filter (·.key = key)) = .ok part ∧
        store'.entries[key]? = some (commitKey store.entries[key]? part)) ∧
    (batch.filter (·.key = key) = [] → store'.entries[key]? = store.entries[key]?) := by
  obtain ⟨hchecked, -, settled, hsettled, hentries⟩ := publish_checked h
  have hbyKey := checkBatch_byKey key hchecked
  obtain ⟨hsome, hnone⟩ := commitAll_getElem? key hsettled
  rw [hentries]
  constructor
  · intro hpart
    rw [if_neg hpart] at hbyKey
    exact hsome _ hbyKey
  · intro hpart
    rw [if_pos hpart] at hbyKey
    exact hnone hbyKey

end Publish

end Solweig.Incremental
