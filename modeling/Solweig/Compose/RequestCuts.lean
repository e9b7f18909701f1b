import Solweig.Compose.Layers
import Solweig.Lib.Run

/-!
# Compositions under request cuts

Every composition of every history of published jobs, and which of them serve a value that an
edit has outdated.
-/

namespace Solweig.Compose

open Solweig.Lib Solweig.Planner

variable {V : Type}

def onSite (grid : Grid) (p : Point) : Bool :=
  p.time < grid.timeSteps ∧ 0 ≤ p.row ∧ p.row < grid.rows ∧ 0 ≤ p.col ∧ p.col < grid.cols

def fullWindow (grid : Grid) : RasterWindow :=
  ⟨0, grid.rows, 0, grid.cols, Int.natCast_nonneg _, Int.natCast_nonneg _⟩

/-- An edit, by the scene version that it made and the points that it changed. -/
structure Edit where
  version : Nat
  changes : Point → Bool

structure SolveResult (V : Type) where
  sceneVersion : Nat
  window : RasterWindow
  timeIndices : List Nat
  variableNames : List String
  arrays : Dict String (PatchArray V)

/-- The marker that every publication carries. -/
def requestedTimeSubset (grid : Grid) (result : SolveResult V) : Bool :=
  result.timeIndices.length < grid.timeSteps

def materializeResult (grid : Grid) (checksum : String) (result : SolveResult V) :
    ResultRecord V where
  sceneVersion := result.sceneVersion
  checksum
  manifest :=
    { window := result.window
      timeIndices := result.timeIndices
      variableNames := result.variableNames
      timeCoverage :=
        if requestedTimeSubset grid result then
          some (disclosureBlock result.timeIndices grid.timeSteps)
        else none }
  arrays := result.arrays

/-- A job with the edits that it published: those after its base up to its own version. A job
without a base computes the whole scene, and one of its edits is the scene itself. -/
structure PublishedJob (grid : Grid) (V : Type) where
  baseVersion : Option Nat
  edits : List Edit
  result : SolveResult V
  checksum : String
  times_lt : ∀ t ∈ result.timeIndices, t < grid.timeSteps
  times_nodup : result.timeIndices.Nodup
  named : result.variableNames ≠ []
  arrays_named : ∀ name, (result.arrays[name]?).isSome = true ↔ name ∈ result.variableNames
  shapes : Shaped result.timeIndices result.arrays
  above : ∀ e ∈ edits, ∀ base, baseVersion = some base → base < e.version
  upTo : ∀ e ∈ edits, e.version ≤ result.sceneVersion
  within : ∀ e ∈ edits, ∀ p, onSite grid p = true → e.changes p = true →
    inWindow result.window p = true
  whole : baseVersion = none → result.window = fullWindow grid ∧
    ∃ e ∈ edits, ∀ p, onSite grid p = true → e.changes p = true

def PublishedJob.record {grid : Grid} (job : PublishedJob grid V) : ResultRecord V :=
  materializeResult grid job.checksum job.result

/-! ## Histories -/

/-- The jobs that each scenario published, and the cache that all of them share. -/
structure CompositionPlane (site : String → Grid) (V : Type) where
  published : (scenarioId : String) → List (PublishedJob (site scenarioId) V)
  cache : StateCompositionCache V

inductive CompositionEvent (site : String → Grid) (V : Type) where
  | publish (scenarioId : String) (job : PublishedJob (site scenarioId) V)
  | compose (scenarioId : String) (request : CompositionRequest V)

section Plane

variable {site : String → Grid}

def CompositionPlane.records (s : CompositionPlane site V) (scenarioId : String) :
    List (ResultRecord V) :=
  (s.published scenarioId).map PublishedJob.record

def initialPlane (site : String → Grid) (V : Type) (maxTotalBytes : Nat) :
    CompositionPlane site V where
  published _ := []
  cache := ⟨[], maxTotalBytes⟩

def CompositionPlane.compose (zero : V) (s : CompositionPlane site V) (scenarioId : String)
    (request : CompositionRequest V) :
    Except ComposeError (Dict String (PatchArray V)) × StateCompositionCache V :=
  composeCurrentState (site scenarioId) scenarioId zero (s.records scenarioId) request s.cache

/-- A job publishes above the versions before it. The first one has no base. -/
def publishable {grid : Grid} (published : List (PublishedJob grid V))
    (job : PublishedJob grid V) : Bool :=
  match published.getLast? with
  | none => job.baseVersion = none
  | some last => last.result.sceneVersion < job.result.sceneVersion

def compositionStep (zero : V) (s : CompositionPlane site V) :
    CompositionEvent site V → Option (CompositionPlane site V)
  | .publish scenarioId job =>
    if publishable (s.published scenarioId) job then
      some { s with
        published := Function.update s.published scenarioId (s.published scenarioId ++ [job]) }
    else none
  | .compose scenarioId request =>
    some { s with cache := (s.compose zero scenarioId request).2 }

end Plane

/-! ## What a served value must cover -/

/-- A request for some times and variables, over a window. -/
def requestFor (grid : Grid) (requested : Option RequestedResult) (window : RasterWindow)
    (targetVersion : Nat) (extraPatches : List (ResultPatch V)) : CompositionRequest V where
  names := (resolveRequested requested grid).2
  window
  targetVersion
  extraPatches

def Requested (grid : Grid) (requested : Option RequestedResult) (window : RasterWindow)
    (p : Point) : Prop :=
  p.name ∈ (resolveRequested requested grid).2 ∧ p.time ∈ (resolveRequested requested grid).1 ∧
    inWindow window p = true ∧ onSite grid p = true

section Served

variable {grid : Grid}

/-- The edit is published up to the target and it changed the point. -/
def Changed (published : List (PublishedJob grid V)) (targetVersion : Nat) (p : Point)
    (version : Nat) : Prop :=
  ∃ job ∈ published, job.result.sceneVersion ≤ targetVersion ∧
    ∃ e ∈ job.edits, e.changes p = true ∧ e.version = version

/-- The value that is served comes from the topmost patch over the point, and the version of
that patch covers each published edit that changed the point. -/
def ServedCurrent (published : List (PublishedJob grid V)) (request : CompositionRequest V)
    (arrays : Dict String (PatchArray V)) (p : Point) : Prop :=
  ∃ (below above : List (Nat × (Point → Option V))) (version : Nat) (layer : Point → Option V)
      (array : PatchArray V) (value : V),
    versionedLayers (published.map PublishedJob.record) request =
      below ++ (version, layer) :: above ∧
    layer p = some value ∧ (∀ higher ∈ above, higher.2 p = none) ∧
    arrays[p.name]? = some array ∧ array.cell request.window p.time p = value ∧
    ∀ edit, Changed published request.targetVersion p edit → edit ≤ version

/-- Where a job left a variable out, a patch has brought its edits to the point since. -/
def LeftOutRestored (published : List (PublishedJob grid V)) (request : CompositionRequest V)
    (p : Point) : Prop :=
  ∀ job ∈ published, job.result.sceneVersion ≤ request.targetVersion →
    p.name ∉ job.result.variableNames → ∀ e ∈ job.edits, e.changes p = true →
      ∃ patch ∈ versionedLayers (published.map PublishedJob.record) request,
        (patch.2 p).isSome = true ∧ e.version ≤ patch.1

end Served

/-! ## The records of jobs -/

section Records

variable {grid : Grid} {job : PublishedJob grid V} {p : Point}

theorem PublishedJob.shaped (job : PublishedJob grid V) : job.record.Shaped := job.shapes

theorem PublishedJob.layer_isSome :
    (job.record.layer p).isSome = true ↔ p.name ∈ job.result.variableNames ∧
      inWindow job.result.window p = true ∧ p.time ∈ job.result.timeIndices := by
  show (payloadLayer job.result.window job.result.timeIndices job.result.arrays p).isSome = true ↔ _
  rw [payloadLayer_isSome, job.arrays_named]

theorem mem_disclosureBlock {timeIndices : List Nat} {timeSteps t : Nat} :
    t ∈ (disclosureBlock timeIndices timeSteps).timeIndices ↔ t ∈ timeIndices := by
  simp [disclosureBlock]

theorem disclosureBlock_incomplete {timeIndices : List Nat} {timeSteps : Nat}
    (h : timeIndices.length < timeSteps) :
    (disclosureBlock timeIndices timeSteps).complete = false := by
  have hlength := List.toFinset_card_le timeIndices
  simp only [disclosureBlock, Finset.length_sort, decide_eq_false_iff_not]
  omega

theorem PublishedJob.misses (hp : onSite grid p = true) (ht : p.time ∉ job.result.timeIndices) :
    p.time ∈ recordMissingTimes job.record.manifest grid.timeSteps := by
  simp only [onSite, decide_eq_true_eq] at hp
  have hsub : job.result.timeIndices ⊆ (List.range grid.timeSteps).erase p.time := by
    intro t htime
    have hne : t ≠ p.time := fun h => ht (h ▸ htime)
    exact (List.mem_erase_of_ne hne).mpr (List.mem_range.mpr (job.times_lt t htime))
  have hcut : job.result.timeIndices.length < grid.timeSteps := by
    have hle := (job.times_nodup.subperm hsub).length_le
    rw [List.length_erase_of_mem (List.mem_range.mpr hp.1), List.length_range] at hle
    omega
  have hmarked : requestedTimeSubset grid job.result = true := decide_eq_true hcut
  simp [recordMissingTimes, PublishedJob.record, materializeResult, hmarked,
    disclosureBlock_incomplete hcut, mem_disclosureBlock, hp.1, ht]

theorem not_healsGap (hp : onSite grid p = true) {manifest : Manifest}
    (ht : p.time ∉ manifest.timeIndices) : healsGap manifest grid = false := by
  simp only [onSite, decide_eq_true_eq] at hp
  rw [healsGap, Bool.and_eq_false_iff]
  apply Or.inl
  rw [manifestCoversFullTime, decide_eq_false_iff_not]
  rintro ⟨-, hall⟩
  exact ht (List.mem_toFinset.mp (hall ▸ Finset.mem_range.mpr hp.1))

theorem PublishedJob.covers_of_heals (hp : onSite grid p = true)
    (h : Heals grid job.record.manifest p.name) : (job.record.layer p).isSome = true := by
  obtain ⟨hheals, hname⟩ := h
  simp only [onSite, decide_eq_true_eq] at hp
  simp only [healsGap, manifestCoversFullTime, recordWindowIsFullSite, Bool.and_eq_true,
    decide_eq_true_eq] at hheals
  obtain ⟨⟨-, hall⟩, hrow, hcol, hrows, hcols⟩ := hheals
  rw [PublishedJob.layer_isSome]
  refine ⟨hname.resolve_left job.named, ?_, ?_⟩
  · have hrow : job.result.window.rowStart = 0 := hrow
    have hcol : job.result.window.colStart = 0 := hcol
    have hrows : job.result.window.rowStop = grid.rows := hrows
    have hcols : job.result.window.colStop = grid.cols := hcols
    simp only [inWindow, decide_eq_true_eq, hrow, hcol, hrows, hcols]
    exact hp.2
  · exact List.mem_toFinset.mp (hall ▸ Finset.mem_range.mpr hp.1)

end Records

/-! ## What every history keeps -/

/-- The versions of a scenario ascend from a job without a base. -/
def Ascending {grid : Grid} (published : List (PublishedJob grid V)) : Prop :=
  published.Pairwise (fun a b => a.result.sceneVersion < b.result.sceneVersion) ∧
    ∀ first, published.head? = some first → first.baseVersion = none

structure PlaneInvariant {site : String → Grid} (zero : V) (s : CompositionPlane site V) :
    Prop where
  ascending : ∀ scenarioId, Ascending (s.published scenarioId)
  cacheSound : CacheSound zero s.records s.cache

section Histories

variable {site : String → Grid} {zero : V} {s s' : CompositionPlane site V}

theorem Ascending.published {grid : Grid} {published : List (PublishedJob grid V)}
    {job : PublishedJob grid V} (h : Ascending published)
    (hnew : publishable published job = true) : Ascending (published ++ [job]) := by
  rcases List.eq_nil_or_concat published with rfl | ⟨before, last, rfl⟩
  · refine ⟨List.pairwise_singleton _ _, fun first hfirst => ?_⟩
    obtain rfl := Option.some.inj hfirst
    simpa [publishable] using hnew
  · rw [List.concat_eq_append] at h hnew ⊢
    simp only [publishable, List.getLast?_append, List.getLast?_singleton, Option.some_or,
      decide_eq_true_eq] at hnew
    refine ⟨List.pairwise_append.mpr ⟨h.1, List.pairwise_singleton _ _, ?_⟩, fun first hfirst => ?_⟩
    · intro a ha b hb
      obtain rfl := List.mem_singleton.mp hb
      rcases List.mem_append.mp ha with ha | ha
      · exact ((List.pairwise_append.mp h.1).2.2 a ha last (by simp)).trans hnew
      · exact List.mem_singleton.mp ha ▸ hnew
    · apply h.2 first
      cases before <;> simpa using hfirst

theorem recordsUpTo_initial {records : List (ResultRecord V)} (target : Nat)
    (h : records.Pairwise fun a b => a.sceneVersion < b.sceneVersion) :
    recordsUpTo target records <+: records := by
  unfold recordsUpTo
  induction records with
  | nil => exact List.prefix_rfl
  | cons record records ih =>
    rw [List.pairwise_cons] at h
    by_cases hle : record.sceneVersion ≤ target
    · rw [List.filter_cons_of_pos (by simpa using hle)]
      exact (List.prefix_cons_inj record).mpr (ih h.2)
    · rw [List.filter_eq_nil_iff.mpr]
      · exact List.nil_prefix
      · intro other hother
        rcases List.mem_cons.mp hother with rfl | hother
        · simpa using hle
        · have := h.1 other hother
          simp only [decide_eq_true_eq]
          omega

theorem Ascending.records {grid : Grid} {published : List (PublishedJob grid V)}
    (h : Ascending published) :
    (published.map PublishedJob.record).Pairwise fun a b => a.sceneVersion < b.sceneVersion :=
  List.pairwise_map.mpr h.1

theorem records_shaped (scenarioId : String) : ∀ r ∈ s.records scenarioId, r.Shaped := by
  intro r hr
  obtain ⟨job, -, rfl⟩ := List.mem_map.mp hr
  exact job.shaped

theorem compositionStep_invariant (h : PlaneInvariant zero s) {event : CompositionEvent site V}
    (hstep : compositionStep zero s event = some s') : PlaneInvariant zero s' := by
  cases event with
  | publish scenarioId job =>
    simp only [compositionStep, Option.ite_none_right_eq_some, Option.some.injEq] at hstep
    obtain ⟨hnew, rfl⟩ := hstep
    refine ⟨fun id => ?_, h.cacheSound.grow fun id => ?_⟩
    · dsimp only
      by_cases hid : id = scenarioId
      · subst hid
        rw [Function.update_self]
        exact (h.ascending id).published hnew
      · rw [Function.update_of_ne hid]
        exact h.ascending id
    · unfold CompositionPlane.records
      dsimp only
      by_cases hid : id = scenarioId
      · subst hid
        rw [Function.update_self, List.map_append]
        exact List.prefix_append _ _
      · rw [Function.update_of_ne hid]
  | compose scenarioId request =>
    obtain rfl := Option.some.inj hstep
    exact ⟨h.ascending, composeCurrentState_cacheSound h.cacheSound (records_shaped scenarioId)
      (recordsUpTo_initial _ (h.ascending scenarioId).records)⟩

theorem initialPlane_invariant {maxTotalBytes : Nat} :
    PlaneInvariant zero (initialPlane site V maxTotalBytes) :=
  ⟨fun _ => ⟨List.Pairwise.nil, fun _ h => by cases h⟩, fun _ h => by cases h⟩

theorem run_planeInvariant {maxTotalBytes : Nat} {events : List (CompositionEvent site V)}
    (hrun : run (compositionStep zero) (initialPlane site V maxTotalBytes) events = some s) :
    PlaneInvariant zero s :=
  run_invariant (C := fun _ _ => True) (fun _ _ _ h _ => compositionStep_invariant h)
    initialPlane_invariant (eachStep_of_forall (fun _ _ => trivial) _ _) hrun

end Histories

/-! ## When a served value is current -/

section Current

variable {grid : Grid} {published : List (PublishedJob grid V)} {request : CompositionRequest V}
  {p : Point}

theorem mem_versionedLayers {job : PublishedJob grid V} (hjob : job ∈ published)
    (htarget : job.result.sceneVersion ≤ request.targetVersion) :
    (job.result.sceneVersion, job.record.layer) ∈
      versionedLayers (published.map PublishedJob.record) request := by
  unfold versionedLayers recordsUpTo
  apply List.mem_append_left
  refine List.mem_map.mpr ⟨job.record, List.mem_filter.mpr ⟨List.mem_map_of_mem hjob, ?_⟩, rfl⟩
  exact decide_eq_true htarget

theorem versionedLayers_ascending (request : CompositionRequest V) (h : Ascending published) :
    (versionedLayers (published.map PublishedJob.record) request).Pairwise
      fun a b => a.1 ≤ b.1 := by
  unfold versionedLayers recordsUpTo
  rw [List.pairwise_append]
  refine ⟨List.pairwise_map.mpr ((h.records.filter _).imp Nat.le_of_lt), ?_, ?_⟩
  · exact List.pairwise_map.mpr (List.pairwise_of_forall fun _ _ => Nat.le_refl _)
  · intro a ha b hb
    obtain ⟨record, hrecord, rfl⟩ := List.mem_map.mp ha
    obtain ⟨patch, -, rfl⟩ := List.mem_map.mp hb
    exact of_decide_eq_true (List.mem_filter.mp hrecord).2

theorem restored_of_published (h : Ascending published)
    (hguard : guardComposition
      ((recordsUpTo request.targetVersion (published.map PublishedJob.record)).map (·.manifest))
      request.names grid = .ok ())
    (hp : onSite grid p = true) {job : PublishedJob grid V} (hjob : job ∈ published)
    (htarget : job.result.sceneVersion ≤ request.targetVersion)
    (hname : p.name ∈ job.result.variableNames) {e : Edit} (he : e ∈ job.edits)
    (hchanges : e.changes p = true) :
    ∃ patch ∈ versionedLayers (published.map PublishedJob.record) request,
      (patch.2 p).isSome = true ∧ e.version ≤ patch.1 := by
  by_cases ht : p.time ∈ job.result.timeIndices
  · exact ⟨_, mem_versionedLayers hjob htarget,
      PublishedJob.layer_isSome.mpr ⟨hname, job.within e he p hp hchanges, ht⟩, job.upTo e he⟩
  · have hfilter : recordsUpTo request.targetVersion (published.map PublishedJob.record) =
        (published.filter fun job => job.result.sceneVersion ≤ request.targetVersion).map
          PublishedJob.record := List.filter_map
    have hmem : job ∈ published.filter fun job =>
        job.result.sceneVersion ≤ request.targetVersion :=
      List.mem_filter.mpr ⟨hjob, decide_eq_true htarget⟩
    obtain ⟨before, after, hsplit⟩ := List.append_of_mem hmem
    have hcut : Cuts request.names grid job.record.manifest p.name p.time := by
      refine ⟨not_healsGap hp ht, job.misses hp ht, ?_⟩
      exact (if_neg job.named).symm ▸ hname
    obtain ⟨manifest, hafter, hheals⟩ := guardComposition_ok.mp hguard
      (before.map ((·.manifest) ∘ PublishedJob.record)) job.record.manifest
      (after.map ((·.manifest) ∘ PublishedJob.record)) (by simp [hfilter, hsplit]) _ _ hcut
    obtain ⟨later, hlater, rfl⟩ := List.mem_map.mp hafter
    have hlaterMem := List.mem_filter.mp (hsplit ▸ List.mem_append_right before
      (List.mem_cons_of_mem job hlater))
    have hascending := (List.pairwise_append.mp (hsplit ▸ h.1.filter _)).2.1
    have hlt := (List.pairwise_cons.mp hascending).1 later hlater
    exact ⟨_, mem_versionedLayers hlaterMem.1 (of_decide_eq_true hlaterMem.2),
      PublishedJob.covers_of_heals hp hheals, (job.upTo e he).trans hlt.le⟩

theorem exists_whole (h : Ascending published) (hp : onSite grid p = true)
    (hsome : ∃ job ∈ published, job.result.sceneVersion ≤ request.targetVersion) :
    ∃ job ∈ published, job.result.sceneVersion ≤ request.targetVersion ∧
      ∃ e ∈ job.edits, e.changes p = true := by
  obtain ⟨job, hjob, htarget⟩ := hsome
  cases published with
  | nil => cases hjob
  | cons first published =>
    obtain ⟨-, e, he, hall⟩ := first.whole (h.2 first rfl)
    refine ⟨first, List.mem_cons_self, ?_, e, he, hall p hp⟩
    rcases List.mem_cons.mp hjob with rfl | hjob
    · exact htarget
    · exact ((List.pairwise_cons.mp h.1).1 job hjob).le.trans htarget

theorem servedCurrent_of_restored (h : Ascending published)
    (hguard : guardComposition
      ((recordsUpTo request.targetVersion (published.map PublishedJob.record)).map (·.manifest))
      request.names grid = .ok ())
    (hsome : ∃ job ∈ published, job.result.sceneVersion ≤ request.targetVersion)
    (hp : onSite grid p = true) {zero : V} {arrays : Dict String (PatchArray V)}
    (hserved : ∃ array, arrays[p.name]? = some array ∧
      some (array.cell request.window p.time p) = overlay (fun _ => some zero)
        ((versionedLayers (published.map PublishedJob.record) request).map (·.2)) p)
    (hrestored : LeftOutRestored published request p) :
    ServedCurrent published request arrays p := by
  have hall : ∀ job ∈ published, job.result.sceneVersion ≤ request.targetVersion →
      ∀ e ∈ job.edits, e.changes p = true →
        ∃ patch ∈ versionedLayers (published.map PublishedJob.record) request,
          (patch.2 p).isSome = true ∧ e.version ≤ patch.1 := by
    intro job hjob htarget e he hchanges
    by_cases hname : p.name ∈ job.result.variableNames
    · exact restored_of_published h hguard hp hjob htarget hname he hchanges
    · exact hrestored job hjob htarget hname e he hchanges
  obtain ⟨first, hfirst, hfirstTarget, e, he, hchanges⟩ := exists_whole h hp hsome
  obtain ⟨patch, hpatch, hcovers, -⟩ := hall first hfirst hfirstTarget e he hchanges
  obtain ⟨below, ⟨version, layer⟩, above, hlayers, hlayer, habove⟩ :=
    exists_topmost (f := fun patch => patch.2 p) ⟨patch, hpatch, hcovers⟩
  obtain ⟨value, hvalue⟩ := Option.isSome_iff_exists.mp hlayer
  obtain ⟨array, harray, hcell⟩ := hserved
  refine ⟨below, above, version, layer, array, value, hlayers, hvalue, habove, harray, ?_, ?_⟩
  · rw [hlayers, List.map_append, List.map_cons, overlay_topmost hvalue] at hcell
    · exact Option.some.inj hcell
    · intro higher hhigher
      obtain ⟨patch, hpatch, rfl⟩ := List.mem_map.mp hhigher
      exact habove patch hpatch
  · rintro edit ⟨job, hjob, htarget, e, he, hchanges, rfl⟩
    obtain ⟨patch, hpatch, hcovers, hle⟩ := hall job hjob htarget e he hchanges
    have hascending := versionedLayers_ascending request h
    rw [hlayers] at hpatch hascending
    -- the patch over the edit is the topmost one or below it
    rcases List.mem_append.mp hpatch with hbelow | htop
    · exact hle.trans ((List.pairwise_append.mp hascending).2.2 patch hbelow _ List.mem_cons_self)
    · rcases List.mem_cons.mp htop with rfl | hhigher
      · exact hle
      · rw [habove patch hhigher] at hcovers
        cases hcovers

theorem restored_of_servedCurrent {arrays : Dict String (PatchArray V)}
    (h : ServedCurrent published request arrays p) : LeftOutRestored published request p := by
  obtain ⟨below, above, version, layer, -, value, hlayers, hvalue, -, -, -, hcurrent⟩ := h
  intro job hjob htarget _ e he hchanges
  refine ⟨(version, layer), by rw [hlayers]; simp, by simp [hvalue], ?_⟩
  exact hcurrent e.version ⟨job, hjob, htarget, e, he, hchanges, rfl⟩

end Current

/-- In every history, what a composition serves is current at each requested point exactly when
the edits of jobs that left a requested variable out have been brought to it since. -/
theorem composition_current_iff {site : String → Grid} {zero : V} {maxTotalBytes : Nat}
    {events : List (CompositionEvent site V)} {s : CompositionPlane site V}
    (hrun : run (compositionStep zero) (initialPlane site V maxTotalBytes) events = some s)
    {scenarioId : String} {requested : Option RequestedResult} {window : RasterWindow}
    {targetVersion : Nat} {extraPatches : List (ResultPatch V)}
    {arrays : Dict String (PatchArray V)}
    (hserved : (s.compose zero scenarioId (requestFor (site scenarioId) requested window
      targetVersion extraPatches)).1 = .ok arrays) :
    (∀ p, Requested (site scenarioId) requested window p →
        ServedCurrent (s.published scenarioId) (requestFor (site scenarioId) requested window
          targetVersion extraPatches) arrays p) ↔
      ∀ p, Requested (site scenarioId) requested window p →
        LeftOutRestored (s.published scenarioId) (requestFor (site scenarioId) requested window
          targetVersion extraPatches) p := by
  have hinvariant := run_planeInvariant hrun
  have hascending := hinvariant.ascending scenarioId
  obtain ⟨hsome, hguard, hcells⟩ := composeCurrentState_ok hinvariant.cacheSound
    (records_shaped scenarioId) (recordsUpTo_initial _ hascending.records) hserved
  obtain ⟨record, hrecord⟩ := List.exists_mem_of_ne_nil _ hsome
  obtain ⟨hrecord, htarget⟩ := List.mem_filter.mp hrecord
  obtain ⟨job, hjob, rfl⟩ := List.mem_map.mp hrecord
  constructor
  · exact fun h p hp => restored_of_servedCurrent (h p hp)
  · intro h p hp
    have hrestored := h p hp
    obtain ⟨hname, -, hwindow, hsite⟩ := hp
    exact servedCurrent_of_restored hascending hguard ⟨job, hjob, of_decide_eq_true htarget⟩ hsite
      (hcells p hname hwindow) hrestored

/-! ## A variable that was left out -/

/-- One value for each point of some variables. -/
def constantArrays (grid : Grid) (names : List String) (value : V) : Dict String (PatchArray V) :=
  Dict.ofEntries (names.map fun name => (name, ⟨grid.timeSteps, fun _ _ _ => value⟩))

theorem constantArrays_shaped (grid : Grid) (names : List String) (value : V) :
    Shaped (List.range grid.timeSteps) (constantArrays grid names value) := by
  intro name array harray
  rw [constantArrays, Dict.getElem?_ofEntries_map] at harray
  split at harray
  · obtain rfl := Option.some.inj harray
    simp
  · simp at harray

/-- A job that published all times of the whole site, and the edit that it published. -/
def wholeSiteJob (grid : Grid) (baseVersion : Option Nat) (version : Nat) (names : List String)
    (hnames : names ≠ []) (hbase : ∀ base, baseVersion = some base → base < version) (value : V) :
    PublishedJob grid V where
  baseVersion
  edits := [⟨version, fun _ => true⟩]
  result :=
    { sceneVersion := version
      window := fullWindow grid
      timeIndices := List.range grid.timeSteps
      variableNames := names
      arrays := constantArrays grid names value }
  checksum := ""
  times_lt t ht := List.mem_range.mp ht
  times_nodup := List.nodup_range
  named := hnames
  arrays_named name := by
    rw [constantArrays, Dict.getElem?_ofEntries_map]
    split <;> simp_all
  shapes := constantArrays_shaped grid names value
  above e he := List.mem_singleton.mp he ▸ hbase
  upTo e he := by rw [List.mem_singleton.mp he]
  within e _ p hp _ := by
    simp only [onSite, decide_eq_true_eq] at hp
    exact decide_eq_true hp.2
  whole _ := ⟨rfl, _, List.mem_singleton_self _, fun _ _ => rfl⟩

/-- Two times over a row of two cells. -/
def smallSite : Grid := ⟨2, 1, 2⟩

def baseline : PublishedJob smallSite Nat :=
  wholeSiteJob smallSite none 0 ["utci", "tmrt"] (by simp) (by simp) 20

/-- The client asked for one variable of the edited scene. -/
def utciOnly : PublishedJob smallSite Nat :=
  wholeSiteJob smallSite (some 0) 1 ["utci"] (by simp) (by simp) 25

def leftOutEvents : List (CompositionEvent (fun _ => smallSite) Nat) :=
  [.publish "scenario" baseline, .publish "scenario" utciOnly]

def leftOutPlane : CompositionPlane (fun _ => smallSite) Nat where
  published := Function.update (fun _ => []) "scenario" [baseline, utciOnly]
  cache := ⟨[], 1024⟩

theorem leftOut_run :
    run (compositionStep 0) (initialPlane (fun _ => smallSite) Nat 1024) leftOutEvents =
      some leftOutPlane := by
  simp [leftOutEvents, run, compositionStep, initialPlane, publishable, baseline, utciOnly,
    wholeSiteJob, leftOutPlane]

def variableRequest (name : String) : CompositionRequest Nat :=
  requestFor smallSite (some ⟨none, some [name]⟩) (fullWindow smallSite) 1 []

theorem leftOut_composes :
    (leftOutPlane.compose 0 "scenario" (variableRequest "tmrt")).1.isOk = true ∧
      (leftOutPlane.compose 0 "scenario" (variableRequest "utci")).1.isOk = true := by
  decide

/-- The point that the edit of the second job changed and that its record left out. -/
def staleTmrt : Point := ⟨"tmrt", 0, 0, 0⟩

theorem staleTmrt_unrestored :
    ¬ LeftOutRestored [baseline, utciOnly] (variableRequest "tmrt") staleTmrt := by
  intro h
  obtain ⟨patch, hpatch, hcovers, hversion⟩ :=
    h utciOnly (by simp) (by decide) (by decide) ⟨1, fun _ => true⟩
      (by simp [utciOnly, wholeSiteJob]) rfl
  have hnone : ∀ patch ∈ versionedLayers ([baseline, utciOnly].map PublishedJob.record)
      (variableRequest "tmrt"), 1 ≤ patch.1 → (patch.2 staleTmrt).isSome = false := by
    decide
  rw [hnone patch hpatch hversion] at hcovers
  cases hcovers

/-- The guard lets the history pass, and the mean radiant temperature of the base is served
for the edited scene. -/
theorem utciOnly_stale :
    ∃ s arrays, run (compositionStep 0) (initialPlane (fun _ => smallSite) Nat 1024) leftOutEvents =
        some s ∧
      (s.compose 0 "scenario" (variableRequest "tmrt")).1 = .ok arrays ∧
      Requested smallSite (some ⟨none, some ["tmrt"]⟩) (fullWindow smallSite) staleTmrt ∧
      ¬ ServedCurrent (s.published "scenario") (variableRequest "tmrt") arrays staleTmrt := by
  obtain ⟨arrays, harrays⟩ := except_of_isOk leftOut_composes.1
  refine ⟨leftOutPlane, arrays, leftOut_run, harrays, ?_, ?_⟩
  · unfold Requested
    decide
  · exact fun h => staleTmrt_unrestored (restored_of_servedCurrent h)

/-- The variable that both jobs published is current. -/
theorem composition_current_iff_utci :
    ∃ s arrays, run (compositionStep 0) (initialPlane (fun _ => smallSite) Nat 1024) leftOutEvents =
        some s ∧
      (s.compose 0 "scenario" (variableRequest "utci")).1 = .ok arrays ∧
      ∀ p, Requested smallSite (some ⟨none, some ["utci"]⟩) (fullWindow smallSite) p →
        ServedCurrent (s.published "scenario") (variableRequest "utci") arrays p := by
  obtain ⟨arrays, harrays⟩ := except_of_isOk leftOut_composes.2
  refine ⟨leftOutPlane, arrays, leftOut_run, harrays, ?_⟩
  apply (composition_current_iff leftOut_run harrays).mpr
  rintro p ⟨hname, -⟩ job hjob - hleftOut
  have hall : ∀ name ∈ (resolveRequested (some ⟨none, some ["utci"]⟩) smallSite).2,
      ∀ job ∈ [baseline, utciOnly], name ∈ job.result.variableNames := by decide
  exact absurd (hall p.name hname job hjob) hleftOut

end Solweig.Compose
