import Solweig.Incremental.Provenance

/-!
# Runs of the temporal store

Every publication and invalidation keeps the cells traced to the batches that covered them last,
their jobs as long as replays name the recorded ones.
-/

namespace Solweig.Incremental

open Solweig.Lib Solweig.Planner

/-! ## What is settled for a key -/

section Settled

variable {key : TemporalResultKey} {part settled entries : List TemporalResultEntry}

theorem foldl_revision_le (entries : List TemporalResultEntry) (start : Int) :
    start ≤ entries.foldl (fun revision e => max revision e.sceneRevision) start ∧
      ∀ e ∈ entries, e.sceneRevision ≤
        entries.foldl (fun revision e => max revision e.sceneRevision) start := by
  induction entries generalizing start with
  | nil => exact ⟨le_refl start, fun e he => by cases he⟩
  | cons first entries ih =>
    obtain ⟨hstart, hrest⟩ := ih (max start first.sceneRevision)
    rw [List.foldl_cons, List.forall_mem_cons]
    exact ⟨(le_max_left _ _).trans hstart, (le_max_right _ _).trans hstart, hrest⟩

theorem le_maxRevision {e : TemporalResultEntry} (he : e ∈ entries) :
    e.sceneRevision ≤ maxRevision entries := by
  cases entries with
  | nil => cases he
  | cons first entries =>
    obtain ⟨hfirst, hrest⟩ := foldl_revision_le entries first.sceneRevision
    rcases List.mem_cons.mp he with rfl | he
    · exact hfirst
    · exact hrest e he

theorem byWindow_perm (entries : List TemporalResultEntry) : (byWindow entries).Perm entries :=
  List.perm_insertionSort _ entries

theorem batchRevision_le (entries : List TemporalResultEntry) :
    batchRevision (byWindow entries) ≤ maxRevision entries := by
  unfold batchRevision
  cases hlist : byWindow entries with
  | nil =>
    have hnil := (byWindow_perm entries).symm
    rw [hlist] at hnil
    rw [hnil.eq_nil]
    exact le_refl 0
  | cons first rest =>
    apply le_maxRevision
    rw [← (byWindow_perm entries).mem_iff, hlist]
    exact List.mem_cons_self

theorem batchRevision_eq (hrev : ∀ a ∈ part, ∀ b ∈ part, a.sceneRevision = b.sceneRevision)
    {b : TemporalResultEntry} (hb : b ∈ part) : batchRevision part = b.sceneRevision := by
  unfold batchRevision
  cases part with
  | nil => cases hb
  | cons first part => exact hrev first List.mem_cons_self b hb

theorem batchRevision_byWindow
    (hrev : ∀ a ∈ part, ∀ b ∈ part, a.sceneRevision = b.sceneRevision) :
    batchRevision (byWindow part) = batchRevision part := by
  cases part with
  | nil => rfl
  | cons first rest =>
    have hperm := byWindow_perm (first :: rest)
    rw [batchRevision_eq hrev List.mem_cons_self]
    apply batchRevision_eq
    · intro a ha b hb
      exact hrev a (hperm.mem_iff.mp ha) b (hperm.mem_iff.mp hb)
    · exact hperm.mem_iff.mpr List.mem_cons_self

theorem window_of_sortKey {a b : TemporalResultEntry} (h : windowSortKey a = windowSortKey b) :
    a.writeWindow = b.writeWindow := by
  unfold windowSortKey at h
  simp only [List.cons.injEq, and_true] at h
  cases hwindow : a.writeWindow
  cases hother : b.writeWindow
  simp_all

theorem mem_of_entryContent {other : List TemporalResultEntry}
    (h : entryContent part = entryContent other) {b : TemporalResultEntry} (hb : b ∈ part) :
    ∃ r ∈ other, r.writeWindow = b.writeWindow ∧ r.mode = b.mode ∧ r.patchPath = b.patchPath := by
  have hcontent : (windowSortKey b, b.mode, b.patchPath) ∈ entryContent part :=
    List.mem_map.mpr ⟨b, (byWindow_perm part).mem_iff.mpr hb, rfl⟩
  rw [h] at hcontent
  obtain ⟨r, hr, heq⟩ := List.mem_map.mp hcontent
  simp only [Prod.mk.injEq] at heq
  exact ⟨r, (byWindow_perm other).mem_iff.mp hr, window_of_sortKey heq.1, heq.2.1, heq.2.2⟩

theorem settleKey_cases {recorded : Option (List TemporalResultEntry)}
    (hrev : ∀ a ∈ part, ∀ b ∈ part, a.sceneRevision = b.sceneRevision)
    (h : settleKey recorded key part = .ok settled) :
    ((∀ r ∈ recorded.getD [], ∀ b ∈ part, r.sceneRevision < b.sceneRevision) ∧
      (commitKey recorded settled).Perm ((recorded.getD []).flatMap
        (remainders ((byWindow part).map (·.writeWindow))) ++ part)) ∨
    (Replays part (recorded.getD []) ∧ (commitKey recorded settled).Perm (recorded.getD [])) := by
  unfold settleKey at h
  cases recorded with
  | none =>
    obtain rfl := Except.ok.inj h
    refine Or.inl ⟨fun r hr => (by cases hr), ?_⟩
    exact byWindow_perm part
  | some recorded =>
    dsimp only at h
    rw [Option.getD_some]
    split at h
    · cases h
    · split at h
      · next hnewer =>
        obtain rfl := Except.ok.inj h
        left
        have hall : ∀ r ∈ recorded, ∀ b ∈ part, r.sceneRevision < b.sceneRevision := by
          intro r hr b hb
          have hle := le_maxRevision hr
          rw [batchRevision_eq hrev hb] at hnewer
          omega
        refine ⟨hall, ?_⟩
        have hnot : ¬ batchRevision (byWindow part) ≤ maxRevision recorded := by
          rw [batchRevision_byWindow hrev]
          exact not_le_of_gt hnewer
        unfold commitKey
        dsimp only
        rw [if_neg hnot]
        exact (byWindow_perm _).trans ((byWindow_perm part).append_left _)
      · split at h
        · cases h
        · split at h
          · cases h
          · next hcontent =>
            obtain rfl := Except.ok.inj h
            right
            refine ⟨fun b hb => ?_, ?_⟩
            · obtain ⟨r, hr, hwindow, hmode, hpatch⟩ :=
                mem_of_entryContent (not_not.mp hcontent) hb
              rw [List.mem_filter, decide_eq_true_eq] at hr
              exact ⟨r, hr.1, hr.2.trans (batchRevision_eq hrev hb), hwindow, hmode, hpatch⟩
            · unfold commitKey
              dsimp only
              rw [if_pos (batchRevision_le recorded)]
              exact byWindow_perm recorded

end Settled

/-! ## Steps -/

section Steps

variable {s t : TracedStore} {event : StoreEvent}

/-- A replay within an accepted batch names the recorded job of each window that has cells. -/
def ReplaysKeepJobs (s : TracedStore) : StoreEvent → Prop
  | .publish batch writer => (publish s.store batch.entries writer).isOk →
      ∀ b ∈ batch.entries, ∀ r ∈ s.store.entriesAt b.key, r.sceneRevision = b.sceneRevision →
        r.writeWindow = b.writeWindow → ¬ r.writeWindow.isEmpty → r.jobId = b.jobId
  | .invalidate _ _ => True

theorem DisjointBatch.part_apart (batch : DisjointBatch) (key : TemporalResultKey) :
    (batch.entries.filter (·.key = key)).Pairwise (Apart TemporalResultEntry.holds) := by
  refine (batch.apart.filter _).imp_of_mem fun ha hb hapart => hapart ?_
  rw [List.mem_filter, decide_eq_true_eq] at ha hb
  rw [ha.2, hb.2]

theorem publish_key {batch : DisjointBatch} {writer : Option String}
    {store' : TemporalResultStore} {keys : List TemporalResultKey}
    {latest : Cell → Option TemporalResultEntry} {key : TemporalResultKey}
    (h : publish s.store batch.entries writer = .ok (store', keys))
    (htraced : KeyTraced (s.store.entriesAt key) latest) :
    KeyTraced (store'.entriesAt key) (refresh (batch.entries.filter (·.key = key)) latest) ∧
      (KeyJobs (s.store.entriesAt key) latest →
        (KeyJobs (store'.entriesAt key) (refresh (batch.entries.filter (·.key = key)) latest) ↔
          ∀ b ∈ batch.entries.filter (·.key = key), ∀ r ∈ s.store.entriesAt key,
            r.sceneRevision = b.sceneRevision → r.writeWindow = b.writeWindow →
              ¬ r.writeWindow.isEmpty → r.jobId = b.jobId)) := by
  obtain ⟨hchecked, -⟩ := publish_checked h
  obtain ⟨hsome, hnone⟩ := publish_getElem? key h
  have hapart := batch.part_apart key
  have hrev : ∀ a ∈ batch.entries.filter (·.key = key), ∀ b ∈ batch.entries.filter (·.key = key),
      a.sceneRevision = b.sceneRevision := by
    intro a ha b hb
    rw [List.mem_filter, decide_eq_true_eq] at ha hb
    exact checkBatch_revision hchecked ha.1 hb.1 (ha.2.trans hb.2.symm)
  generalize batch.entries.filter (·.key = key) = part at hsome hnone hapart hrev ⊢
  simp only [TemporalResultStore.entriesAt, Std.ExtTreeMap.getD_eq_getD_getElem?] at htraced ⊢
  by_cases hpart : part = []
  · rw [hnone hpart, hpart]
    have hsame : refresh [] latest = latest := rfl
    rw [hsame]
    exact ⟨htraced, fun hjobs => ⟨fun _ b hb => (by cases hb), fun _ => hjobs⟩⟩
  · obtain ⟨settled, hsettled, hentries⟩ := hsome hpart
    rw [hentries, Option.getD_some]
    rcases settleKey_cases hrev hsettled with ⟨hnewer, hperm⟩ | ⟨hreplays, hperm⟩
    · have hcuts := (byWindow_perm part).map TemporalResultEntry.writeWindow
      refine ⟨htraced.newer hapart hcuts hperm, fun hjobs => ?_⟩
      refine ⟨fun _ b hb r hr hsame => ?_, fun _ => hjobs.newer hapart hcuts hperm⟩
      exact absurd hsame (ne_of_lt (hnewer r hr b hb))
    · exact ⟨htraced.replay hreplays hperm,
        fun hjobs => KeyJobs.replay_iff htraced hjobs hapart hreplays hperm⟩

theorem invalidate_entriesAt (store : TemporalResultStore) (nodeId : String)
    (times : Option (List Int)) (key : TemporalResultKey) :
    (invalidate store nodeId times).entriesAt key =
      if key.1 = nodeId ∧ times.all (fun times => key.2 ∈ times) then [] else store.entriesAt key := by
  unfold invalidate TemporalResultStore.entriesAt
  rw [Std.ExtTreeMap.getD_eq_getD_getElem?, Std.ExtTreeMap.getElem?_filter',
    Std.ExtTreeMap.getD_eq_getD_getElem?]
  cases store.entries[key]? with
  | none => simp
  | some entries =>
    by_cases hkey : key.1 = nodeId ∧ times.all (fun times => key.2 ∈ times)
    · simp [Option.filter, hkey]
    · simp [Option.filter, hkey]

theorem keyTraced_nil : KeyTraced [] fun _ => none where
  tiles := tiles_nil _
  source := fun _ h => by cases h

theorem storeStep_traced (h : storeStep s event = some t) (htraced : Traced s) : Traced t := by
  intro key
  cases event with
  | publish batch writer =>
    simp only [storeStep] at h
    split at h
    · obtain rfl := Option.some.inj h
      exact htraced key
    · next hpublish =>
      obtain rfl := Option.some.inj h
      exact (publish_key hpublish (htraced key)).1
  | invalidate nodeId times =>
    obtain rfl := Option.some.inj h
    dsimp only
    rw [invalidate_entriesAt]
    by_cases hkey : key.1 = nodeId ∧ times.all (fun times => key.2 ∈ times)
    · simp only [if_pos hkey]
      exact keyTraced_nil
    · simp only [if_neg hkey]
      exact htraced key

theorem storeStep_jobs (h : storeStep s event = some t) (htraced : Traced s)
    (hjobs : JobsTraced s) : JobsTraced t ↔ ReplaysKeepJobs s event := by
  cases event with
  | publish batch writer =>
    simp only [storeStep] at h
    simp only [ReplaysKeepJobs]
    split at h
    · next hrefused =>
      obtain rfl := Option.some.inj h
      rw [hrefused]
      exact ⟨fun _ hok => (by cases hok), fun _ => hjobs⟩
    · next hpublish =>
      obtain rfl := Option.some.inj h
      rw [hpublish]
      have hkey := fun key => (publish_key hpublish (htraced key)).2 (hjobs key)
      constructor
      · intro hafter _ b hb r hr
        exact (hkey b.key).mp (hafter b.key) b (List.mem_filter.mpr ⟨hb, by simp⟩) r hr
      · intro hkeep key
        refine (hkey key).mpr fun b hb r hr => ?_
        rw [List.mem_filter, decide_eq_true_eq] at hb
        exact hkeep rfl b hb.1 r (hb.2 ▸ hr)
  | invalidate nodeId times =>
    obtain rfl := Option.some.inj h
    refine iff_of_true (fun key => ?_) trivial
    dsimp only
    rw [invalidate_entriesAt]
    by_cases hkey : key.1 = nodeId ∧ times.all (fun times => key.2 ∈ times)
    · simp only [if_pos hkey]
      exact fun _ he => by cases he
    · simp only [if_neg hkey]
      exact hjobs key

end Steps

/-! ## Coverage of a window -/

/-- The reported entries and the missing windows share the cells of the window out. -/
structure CoverageTiles (entries : List TemporalResultEntry) (window : RasterWindow)
    (coverage : WindowCoverage) : Prop where
  reported : coverage.entries.Sublist entries
  allReported : ∀ entry ∈ entries, ∀ cell, Incremental.holds window cell = true →
    entry.holds cell = true → entry ∈ coverage.entries
  inside : ∀ missing ∈ coverage.missingWindows, ∀ cell, Incremental.holds missing cell = true →
    Incremental.holds window cell = true
  tiles : ∀ cell, Incremental.holds window cell = true →
    coverage.entries.countP (·.holds cell) +
      coverage.missingWindows.countP (Incremental.holds · cell) = 1

section Coverage

variable {entries : List TemporalResultEntry} {window : RasterWindow} {cell : Cell}

theorem intersects_of_holds {a b : RasterWindow} (ha : Incremental.holds a cell = true)
    (hb : Incremental.holds b cell = true) : a.intersects b = true := by
  rw [holds_iff] at ha hb
  rw [intersects_iff]
  omega

theorem overlapping_count (entries : List TemporalResultEntry)
    (hcell : Incremental.holds window cell = true) :
    (entries.filter fun entry => entry.writeWindow.intersects window).countP (·.holds cell) =
      entries.countP (·.holds cell) := by
  rw [List.countP_filter]
  apply List.countP_congr
  intro entry _
  rw [Bool.and_eq_true]
  exact ⟨And.left, fun hhit => ⟨hhit, intersects_of_holds hhit hcell⟩⟩

theorem maskCell_mem (hcell : Incremental.holds window cell = true) (mask : Mask) :
    mask (maskCell window cell).1 (maskCell window cell).2 ∈
      (List.range (windowHeight window)).flatMap fun row =>
        (List.range (windowWidth window)).map fun col => mask row col := by
  rw [holds_iff] at hcell
  rw [List.mem_flatMap]
  refine ⟨(maskCell window cell).1, ?_, List.mem_map.mpr ⟨(maskCell window cell).2, ?_, rfl⟩⟩
  · rw [List.mem_range]
    simp only [maskCell, windowHeight]
    omega
  · rw [List.mem_range]
    simp only [maskCell, windowWidth]
    omega

theorem mask_length (mask : Mask) (rows cols : Nat) :
    ((List.range rows).flatMap fun row => (List.range cols).map fun col => mask row col).length =
      rows * cols := by
  simp [List.length_flatMap]

theorem area_eq (window : RasterWindow) :
    window.area = ((windowHeight window * windowWidth window : Nat) : Int) := by
  have hrows := window.rows
  have hcols := window.cols
  unfold RasterWindow.area windowHeight windowWidth
  rw [Int.natCast_mul, Int.toNat_of_nonneg (by omega), Int.toNat_of_nonneg (by omega), Int.mul_comm]

theorem uncovered_of_area {mask : Mask}
    (harea : coveredArea mask (windowHeight window) (windowWidth window) = 0)
    (hcell : Incremental.holds window cell = true) :
    mask (maskCell window cell).1 (maskCell window cell).2 = false := by
  rw [coveredArea, List.count_eq_zero] at harea
  apply Bool.eq_false_iff.mpr
  intro htrue
  exact harea (htrue ▸ maskCell_mem hcell mask)

theorem covered_of_area {mask : Mask}
    (harea : (coveredArea mask (windowHeight window) (windowWidth window) : Int) = window.area)
    (hcell : Incremental.holds window cell = true) :
    mask (maskCell window cell).1 (maskCell window cell).2 = true := by
  rw [area_eq, Int.natCast_inj, coveredArea, ← mask_length mask, List.count_eq_length] at harea
  exact (harea _ (maskCell_mem hcell mask)).symm

theorem windowCoverage_tiles {store : TemporalResultStore} {key : TemporalResultKey}
    {coverage : WindowCoverage} {region : Cell → Bool}
    (htiles : Tiles TemporalResultEntry.holds (store.entriesAt key) region)
    (h : windowCoverage store key window = .ok coverage) :
    CoverageTiles (store.entriesAt key) window coverage := by
  unfold windowCoverage at h
  simp only [except_bind_ok, refuseIf_ok] at h
  obtain ⟨-, -, -, -, h⟩ := h
  change (if _ then _ else if _ then _ else _) = _ at h
  rw [← TemporalResultStore.entriesAt] at h
  generalize hover : (store.entriesAt key).filter (fun entry =>
    entry.writeWindow.intersects window) = overlapping at h
  have hsub : overlapping.Sublist (store.entriesAt key) := hover ▸ List.filter_sublist
  have hall : ∀ entry ∈ store.entriesAt key, ∀ cell, Incremental.holds window cell = true →
      entry.holds cell = true → entry ∈ overlapping := by
    intro entry hentry cell hcell hhit
    rw [← hover, List.mem_filter]
    exact ⟨hentry, intersects_of_holds hhit hcell⟩
  have hcount : ∀ cell, Incremental.holds window cell = true →
      overlapping.countP (·.holds cell) =
        if coveredMask window (overlapping.map (·.writeWindow)) (maskCell window cell).1
          (maskCell window cell).2 then 1 else 0 := by
    intro cell hcell
    have hpart : overlapping.countP (·.holds cell) = if region cell then 1 else 0 := by
      rw [← hover, overlapping_count _ hcell]
      exact htiles cell
    rw [coveredMask_eq hcell, List.any_map]
    cases hregion : region cell with
    | true =>
      obtain ⟨entry, hentry, hhit⟩ := htiles.holds_iff.mpr hregion
      have hany : overlapping.any ((fun other => Incremental.holds other cell) ∘
          TemporalResultEntry.writeWindow) = true :=
        List.any_eq_true.mpr ⟨entry, hall entry hentry cell hcell hhit, hhit⟩
      rw [hpart, hregion, hany]
    | false =>
      have hany : overlapping.any ((fun other => Incremental.holds other cell) ∘
          TemporalResultEntry.writeWindow) = false := by
        rw [List.any_eq_false]
        intro entry hentry hhit
        have hin := htiles.holds_iff.mp ⟨entry, hsub.subset hentry, hhit⟩
        rw [hregion] at hin
        cases hin
      rw [hpart, hregion, hany]
  split at h
  · next harea =>
    obtain rfl := Except.ok.inj h
    refine ⟨List.nil_sublist _, fun entry hentry cell hcell hhit => ?_, ?_, fun cell hcell => ?_⟩
    · have hpos : 0 < overlapping.countP (·.holds cell) :=
        List.countP_pos_iff.mpr ⟨entry, hall entry hentry cell hcell hhit, hhit⟩
      rw [hcount cell hcell, uncovered_of_area harea hcell] at hpos
      simp at hpos
    · intro missing hmissing cell hcell
      rwa [List.mem_singleton.mp hmissing] at hcell
    · simp [hcell]
  · split at h
    · next harea =>
      obtain rfl := Except.ok.inj h
      refine ⟨hsub, hall, fun missing hmissing => (by cases hmissing), fun cell hcell => ?_⟩
      rw [hcount cell hcell, covered_of_area harea hcell]
      rfl
    · obtain rfl := Except.ok.inj h
      have hmissing := missingRectangles_tile
        (coveredMask window (overlapping.map (·.writeWindow))) window
      refine ⟨hsub, hall, fun missing hmem cell hcell => ?_, fun cell hcell => ?_⟩
      · have hin := hmissing.holds_iff.mp ⟨missing, hmem, hcell⟩
        exact (Bool.and_eq_true_iff.mp hin).1
      · dsimp only
        rw [hcount cell hcell, hmissing cell]
        simp only [hcell, Bool.true_and]
        cases coveredMask window (overlapping.map (·.writeWindow)) (maskCell window cell).1
          (maskCell window cell).2 <;> rfl

end Coverage

/-! ## Runs -/

theorem storeRun_total (s : TracedStore) (events : List StoreEvent) :
    ∃ t, run storeStep s events = some t := by
  induction events generalizing s with
  | nil => exact ⟨s, rfl⟩
  | cons event events ih =>
    have hstep : ∃ u, storeStep s event = some u := by
      cases event with
      | publish batch writer =>
        simp only [storeStep]
        split
        · exact ⟨_, rfl⟩
        · exact ⟨_, rfl⟩
      | invalidate nodeId times => exact ⟨_, rfl⟩
    obtain ⟨u, hu⟩ := hstep
    obtain ⟨t, ht⟩ := ih u
    exact ⟨t, by simp [run, hu, ht]⟩

/-- What the store promises of its cells. -/
structure ProvenanceKept (s : TracedStore) : Prop where
  traced : Traced s
  jobs : JobsTraced s
  refused : ∀ (batch : DisjointBatch) writer error, publish s.store batch.entries writer =
    .error error → storeStep s (.publish batch writer) = some s
  coverage : ∀ key window coverage, windowCoverage s.store key window = .ok coverage →
    CoverageTiles (s.store.entriesAt key) window coverage

/-- In every run the cells keep their provenance exactly when each accepted replay names the
recorded jobs. -/
theorem cells_keep_provenance_iff (grid : Option RasterGrid) (events : List StoreEvent) :
    (∀ s, Visits storeStep (emptyStore grid) events s → ProvenanceKept s) ↔
      EachStep storeStep ReplaysKeepJobs (emptyStore grid) events := by
  have hempty : Traced (emptyStore grid) ∧ JobsTraced (emptyStore grid) := by
    have hnone : ∀ key, (emptyStore grid).store.entriesAt key = [] := fun key => by
      simp [emptyStore, TemporalResultStore.entriesAt]
    constructor
    · intro key
      rw [hnone]
      exact keyTraced_nil
    · intro key
      rw [hnone]
      exact fun _ he => by cases he
  obtain ⟨t, hrun⟩ := storeRun_total (emptyStore grid) events
  have htraced : ∀ s, Visits storeStep (emptyStore grid) events s → Traced s := by
    rintro s ⟨before, after, -, hs⟩
    exact run_invariant (fun s event t hs _ ht => storeStep_traced ht hs) hempty.1
      (eachStep_of_forall (C := fun _ _ => True) (fun _ _ => trivial) _ before) hs
  rw [← always_iff_eachStep (fun s event t hs ht => storeStep_traced ht hs)
    (fun s event t hs hjobs ht => storeStep_jobs ht hs hjobs) hempty.1 hempty.2 hrun]
  constructor
  · exact fun hkept s hs => (hkept s hs).jobs
  · intro hjobs s hs
    refine ⟨htraced s hs, hjobs s hs, fun batch writer error hrefused => ?_,
      fun key window coverage hcoverage => ?_⟩
    · simp only [storeStep, hrefused]
    · exact windowCoverage_tiles (htraced s hs key).tiles hcoverage

/-- One cell of the first row, published by a job at the first revision. -/
def cellEntry (col : Nat) (jobId : String) : TemporalResultEntry where
  nodeId := "svf"
  timeIndex := 0
  sceneRevision := 1
  jobId := jobId
  mode := "local"
  writeWindow := ⟨0, 1, col, col + 1, by omega, by omega⟩
  patchPath := none

def cellPair (first second : String) : DisjointBatch where
  entries := [cellEntry 0 first, cellEntry 1 second]
  apart := by
    refine List.pairwise_pair.mpr fun _ cell hcell => ?_
    rw [TemporalResultEntry.holds, holds_iff] at hcell
    apply Bool.eq_false_iff.mpr
    intro hother
    rw [TemporalResultEntry.holds, holds_iff] at hother
    simp only [cellEntry] at hcell hother
    omega

/-- A replay with the two jobs exchanged is accepted, and the entries keep the first ones. -/
theorem exchanged_jobs_lose_provenance :
    ¬ ∀ s, Visits storeStep (emptyStore none)
      [.publish (cellPair "a" "b") none, .publish (cellPair "b" "a") none] s →
        ProvenanceKept s := by
  intro hkept
  have hcell : ((run storeStep (emptyStore none)
      [.publish (cellPair "a" "b") none, .publish (cellPair "b" "a") none]).any fun s =>
        (s.store.entriesAt ("svf", 0)).any fun entry => entry.holds (0, 0) ∧
          (s.latest ("svf", 0) (0, 0)).any fun original => entry.jobId ≠ original.jobId) = true := by
    decide
  rw [Option.any_eq_true] at hcell
  obtain ⟨s, hs, hcell⟩ := hcell
  obtain ⟨entry, hentry, hcell⟩ := List.any_eq_true.mp hcell
  rw [decide_eq_true_eq, Option.any_eq_true] at hcell
  obtain ⟨hholds, original, horiginal, hjob⟩ := hcell
  rw [decide_eq_true_eq] at hjob
  exact hjob ((hkept s ⟨_, [], rfl, hs⟩).jobs _ entry hentry _ original hholds horiginal)

end Solweig.Incremental
