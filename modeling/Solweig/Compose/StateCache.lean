import Solweig.Compose.RequestCuts
import Solweig.Lib.Lru

/-!
# The composition cache

What a composition gives does not depend on the cache, and what the cache holds of a history is not
replayed.
-/

namespace Solweig.Compose

open Solweig.Lib

variable {V : Type}

/-! ## What the entries hold -/

/-- An entry is the composition of a prefix of its scenario's history, which has all its names. -/
def CacheExact (site : String → Grid) (zero : V) (results : String → List (ResultRecord V))
    (cache : StateCompositionCache V) : Prop :=
  ∀ entry ∈ cache.entries, ∃ records,
    records <+: results entry.scenarioId ∧
      records.getLast?.map (·.sceneVersion) = some entry.version ∧
      entry.chain = records.map (·.checksum) ∧
      applyRecords (site entry.scenarioId) entry.names records (fun _ => zero) =
        .ok entry.arrays ∧
      entry.names ⊆ recordNames entry.names records

section Exact

variable {site : String → Grid} {zero : V} {results : String → List (ResultRecord V)}
  {cache : StateCompositionCache V} {entry : CacheEntry V} {names : List String}
  {scenarioId : String} {records : List (ResultRecord V)}

theorem CacheExact.grow {results' : String → List (ResultRecord V)}
    (h : CacheExact site zero results cache) (hgrow : ∀ id, results id <+: results' id) :
    CacheExact site zero results' cache := by
  intro entry hentry
  obtain ⟨records, hinitial, hrest⟩ := h entry hentry
  exact ⟨records, hinitial.trans (hgrow _), hrest⟩

theorem resumeFrom_exact {start n : Nat} (h : CacheExact site zero results cache)
    (hinitial : records <+: results scenarioId)
    (hfound : resumeFrom cache scenarioId names records start = some (entry, n)) :
    0 < n ∧ entry ∈ cache.entries ∧
      applyRecords (site scenarioId) names (records.take n) (fun _ => zero) = .ok entry.arrays ∧
      names ⊆ recordNames names (records.take n) := by
  induction start with
  | zero => simp [resumeFrom] at hfound
  | succ start ih =>
    rw [resumeFrom] at hfound
    split at hfound
    · exact ih hfound
    · next record hrecord =>
      split at hfound
      · exact ih hfound
      · next entry' hfind =>
        obtain ⟨rfl, rfl⟩ := Prod.mk.inj (Option.some.inj hfound)
        obtain ⟨hmem, rfl, rfl, hchain⟩ := mem_of_find hfind
        obtain ⟨cached, hcached, -, hcachedChain, harrays, hnames⟩ := h entry' hmem
        -- two prefixes of one history with chains of one length
        have hlength : cached.length = (records.take (start + 1)).length := by
          rw [← List.length_map (·.checksum), ← hcachedChain, hchain, List.length_map]
        have hsame : cached = records.take (start + 1) := by
          rw [List.prefix_iff_eq_take.mp hcached, hlength]
          exact (List.prefix_iff_eq_take.mp ((List.take_prefix _ _).trans hinitial)).symm
        rw [hsame] at harrays hnames
        exact ⟨Nat.succ_pos start, hmem, harrays, hnames⟩

theorem recordNames_mono {more : List (ResultRecord V)} (h : ∀ r ∈ records, r ∈ more) :
    recordNames names records ⊆ recordNames names more := by
  intro name hname
  simp only [recordNames, List.mem_filter, List.any_eq_true] at hname ⊢
  obtain ⟨hmem, r, hr, hsome⟩ := hname
  exact ⟨hmem, r, h r hr, hsome⟩

theorem recordNames_eq (h : names ⊆ recordNames names records) :
    recordNames names records = names := by
  unfold recordNames at h ⊢
  rw [List.filter_eq_self]
  exact fun name hname => (List.mem_filter.mp (h hname)).2

/-- The cache once the composition has looked its start up. -/
def resumed (cache : StateCompositionCache V) (scenarioId : String) (names : List String)
    (records : List (ResultRecord V)) : StateCompositionCache V :=
  ((resumeFrom cache scenarioId names records records.length).map fun hit =>
    cache.touch hit.1).getD cache

theorem composeDurable_eq (h : CacheExact site zero results cache)
    (hinitial : records <+: results scenarioId) :
    composeDurable (site scenarioId) scenarioId zero names records cache =
      match applyRecords (site scenarioId) names records fun _ => zero with
      | .error e => .error (e, resumed cache scenarioId names records)
      | .ok state =>
        .ok
          { state
            haveValues := recordNames names records
            cache := if names ⊆ recordNames names records then
                (resumed cache scenarioId names records).put
                  (cacheEntry (site scenarioId) scenarioId names records state)
              else resumed cache scenarioId names records } := by
  unfold composeDurable resumed
  cases hfound : resumeFrom cache scenarioId names records records.length with
  | none => rfl
  | some hit =>
    obtain ⟨entry, n⟩ := hit
    obtain ⟨hpos, -, hprefix, hnames⟩ := resumeFrom_exact h hinitial hfound
    -- the prefix is not replayed, and the rest goes on from its state
    have hsplit : applyRecords (site scenarioId) names records (fun _ => zero) =
        applyRecords (site scenarioId) names (records.drop n) entry.arrays := by
      unfold applyRecords at hprefix ⊢
      conv_lhs => rw [← List.take_append_drop n records, List.foldlM_append, hprefix]
      rfl
    have hhave : recordNames names records = names := by
      apply recordNames_eq
      apply List.Subset.trans hnames
      exact recordNames_mono fun r hr => List.mem_of_mem_take hr
    rw [hsplit, hhave]
    cases hrun : applyRecords (site scenarioId) names (records.drop n) entry.arrays
    all_goals simp only [Option.map_some, Option.getD_some, Nat.ne_of_gt hpos, if_false, hrun]

theorem CacheExact.resumed (h : CacheExact site zero results cache)
    (hinitial : records <+: results scenarioId) :
    CacheExact site zero results (resumed cache scenarioId names records) := by
  unfold Compose.resumed
  cases hfound : resumeFrom cache scenarioId names records records.length with
  | none => exact h
  | some hit =>
    obtain ⟨entry, n⟩ := hit
    intro other hother
    rcases mem_touch hother with rfl | hother
    · exact h other (resumeFrom_exact h hinitial hfound).2.1
    · exact h other hother

theorem CacheExact.put {state : SiteState V} (h : CacheExact site zero results cache)
    (hinitial : records <+: results scenarioId) (hsome : records ≠ [])
    (hstate : applyRecords (site scenarioId) names records (fun _ => zero) = .ok state)
    (hnames : names ⊆ recordNames names records) :
    CacheExact site zero results
      (cache.put (cacheEntry (site scenarioId) scenarioId names records state)) := by
  intro other hother
  rcases mem_put hother with rfl | hother
  · refine ⟨records, hinitial, ?_, rfl, hstate, hnames⟩
    simp [cacheEntry, List.getLast?_eq_some_getLast hsome]
  · exact h other hother

variable {request : CompositionRequest V}

/-- The composition without a cache. -/
def composePlain (grid : Grid) (zero : V) (results : List (ResultRecord V))
    (request : CompositionRequest V) : Except ComposeError (Dict String (PatchArray V)) := do
  let records := recordsUpTo request.targetVersion results
  refuseIf (records = []) .noResult
  guardComposition (records.map (·.manifest)) request.names grid
  let state ← applyRecords grid request.names records fun _ => zero
  let noCache : StateCompositionCache V := ⟨[], 0⟩
  finishComposition grid request.window request.names request.extraPatches
    ⟨state, recordNames request.names records, noCache⟩

/-- What a composition leaves in the cache. -/
def cacheAfter (grid : Grid) (scenarioId : String) (zero : V) (results : List (ResultRecord V))
    (request : CompositionRequest V) (cache : StateCompositionCache V) :
    StateCompositionCache V :=
  let records := recordsUpTo request.targetVersion results
  if records = [] then cache
  else
    match guardComposition (records.map (·.manifest)) request.names grid with
    | .error _ => cache
    | .ok _ =>
      match applyRecords grid request.names records fun _ => zero with
      | .error _ => resumed cache scenarioId request.names records
      | .ok state =>
        if request.names ⊆ recordNames request.names records then
          (resumed cache scenarioId request.names records).put
            (cacheEntry grid scenarioId request.names records state)
        else resumed cache scenarioId request.names records

theorem composeCurrentState_eq (h : CacheExact site zero results cache)
    (hinitial : recordsUpTo request.targetVersion (results scenarioId) <+: results scenarioId) :
    composeCurrentState (site scenarioId) scenarioId zero (results scenarioId) request cache =
      (composePlain (site scenarioId) zero (results scenarioId) request,
        cacheAfter (site scenarioId) scenarioId zero (results scenarioId) request cache) := by
  unfold composeCurrentState composePlain cacheAfter
  rw [show (results scenarioId).filter (fun record => record.sceneVersion ≤ request.targetVersion) =
    recordsUpTo request.targetVersion (results scenarioId) from rfl]
  generalize recordsUpTo request.targetVersion (results scenarioId) = records at hinitial
  by_cases hsome : records = []
  · simp only [hsome, if_true]
    rfl
  simp only [hsome, if_false]
  cases hguard : guardComposition (records.map (·.manifest)) request.names (site scenarioId) with
  | error e => rfl
  | ok _ =>
    simp only [composeDurable_eq h hinitial]
    cases happly : applyRecords (site scenarioId) request.names records fun _ => zero with
    | error e => rfl
    | ok state => rfl

theorem cacheAfter_exact (h : CacheExact site zero results cache)
    (hinitial : recordsUpTo request.targetVersion (results scenarioId) <+: results scenarioId) :
    CacheExact site zero results
      (cacheAfter (site scenarioId) scenarioId zero (results scenarioId) request cache) := by
  unfold cacheAfter
  dsimp only
  split
  · exact h
  next hsome =>
    split
    · exact h
    split
    · exact h.resumed hinitial
    next state happly =>
      split
      · next hnames => exact (h.resumed hinitial).put hinitial hsome happly hnames
      · exact h.resumed hinitial

end Exact

/-! ## In every history -/

section Histories

variable {site : String → Grid} {zero : V} {s s' : CompositionPlane site V} {maxTotalBytes : Nat}
  {events : List (CompositionEvent site V)}

/-- The invariant of the histories, with exact entries. -/
structure ExactPlane (zero : V) (s : CompositionPlane site V) : Prop where
  plane : PlaneInvariant zero s
  exact : CacheExact site zero s.records s.cache

theorem ExactPlane.initial (h : ExactPlane zero s) (scenarioId : String) (targetVersion : Nat) :
    recordsUpTo targetVersion (s.records scenarioId) <+: s.records scenarioId :=
  recordsUpTo_initial _ (h.plane.ascending scenarioId).records

theorem CompositionPlane.compose_eq (h : ExactPlane zero s) (scenarioId : String)
    (request : CompositionRequest V) :
    s.compose zero scenarioId request =
      (composePlain (site scenarioId) zero (s.records scenarioId) request,
        cacheAfter (site scenarioId) scenarioId zero (s.records scenarioId) request s.cache) :=
  composeCurrentState_eq h.exact (h.initial scenarioId _)

theorem records_grow {event : CompositionEvent site V}
    (hstep : compositionStep zero s event = some s') (id : String) :
    s.records id <+: s'.records id := by
  cases event with
  | publish scenarioId job =>
    simp only [compositionStep, Option.ite_none_right_eq_some, Option.some.injEq] at hstep
    obtain ⟨-, rfl⟩ := hstep
    unfold CompositionPlane.records
    dsimp only
    by_cases hid : id = scenarioId
    · subst hid
      rw [Function.update_self, List.map_append]
      exact List.prefix_append _ _
    · rw [Function.update_of_ne hid]
  | compose scenarioId request =>
    obtain rfl := Option.some.inj hstep
    exact List.prefix_rfl

theorem compositionStep_exact (h : ExactPlane zero s) {event : CompositionEvent site V}
    (hstep : compositionStep zero s event = some s') : ExactPlane zero s' := by
  refine ⟨compositionStep_invariant h.plane hstep, ?_⟩
  have hgrow := h.exact.grow (records_grow hstep)
  cases event with
  | publish scenarioId job =>
    simp only [compositionStep, Option.ite_none_right_eq_some, Option.some.injEq] at hstep
    obtain ⟨-, rfl⟩ := hstep
    exact hgrow
  | compose scenarioId request =>
    obtain rfl := Option.some.inj hstep
    show CacheExact site zero s.records (s.compose zero scenarioId request).2
    rw [CompositionPlane.compose_eq h]
    exact cacheAfter_exact h.exact (h.initial scenarioId _)

theorem run_exactPlane
    (hrun : run (compositionStep zero) (initialPlane site V maxTotalBytes) events = some s) :
    ExactPlane zero s :=
  run_invariant (C := fun _ _ => True) (fun _ _ _ h _ => compositionStep_exact h)
    ⟨initialPlane_invariant, fun _ h => by cases h⟩
    (eachStep_of_forall (fun _ _ => trivial) _ _) hrun

/-- In every history a composition gives, or refuses, what it does without a cache. -/
theorem compose_as_uncached
    (hrun : run (compositionStep zero) (initialPlane site V maxTotalBytes) events = some s)
    (scenarioId : String) (request : CompositionRequest V) :
    (s.compose zero scenarioId request).1 =
      composePlain (site scenarioId) zero (s.records scenarioId) request := by
  rw [CompositionPlane.compose_eq (run_exactPlane hrun)]

/-- A history whose last event has left a composition in the cache. -/
def warmEvents : List (CompositionEvent (fun _ => smallSite) Nat) :=
  leftOutEvents ++ [.compose "scenario" (variableRequest "utci")]

def warmPlane : CompositionPlane (fun _ => smallSite) Nat :=
  { leftOutPlane with
    cache := (leftOutPlane.compose 0 "scenario" (variableRequest "utci")).2 }

theorem warm_run :
    run (compositionStep 0) (initialPlane (fun _ => smallSite) Nat 1024) warmEvents =
      some warmPlane := by
  rw [warmEvents, run_append, leftOut_run]
  rfl

theorem compose_as_uncached_warm :
    warmPlane.cache.entries.length = 1 ∧
      (warmPlane.compose 0 "scenario" (variableRequest "utci")).1 =
        composePlain smallSite 0 (warmPlane.records "scenario") (variableRequest "utci") :=
  ⟨by decide, compose_as_uncached warm_run "scenario" (variableRequest "utci")⟩

end Histories

/-! ## The entries under their keys -/

abbrev CacheKey := String × Nat × List String

def CacheEntry.key (entry : CacheEntry V) : CacheKey :=
  (entry.scenarioId, entry.version, entry.names)

/-- The entries with their keys. -/
def StateCompositionCache.keyed (entries : List (CacheEntry V)) :
    List (CacheKey × CacheEntry V) :=
  entries.map fun entry => (entry.key, entry)

section Keys

open StateCompositionCache

variable {cache : StateCompositionCache V} {entry : CacheEntry V} {entries : List (CacheEntry V)}
  {scenarioId : String} {version : Nat} {names chain : List String}

theorem hasKey_iff :
    entry.hasKey scenarioId version names = true ↔ entry.key = (scenarioId, version, names) := by
  simp [CacheEntry.hasKey, CacheEntry.key]

theorem totalBytes_eq (entries : List (CacheEntry V)) :
    totalBytes entries = Lru.weight (·.nbytes) (keyed entries) := by
  have hfold : ∀ total, entries.foldl (fun total entry => total + entry.nbytes) total =
      total + Lru.weight (·.nbytes) (keyed entries) := by
    induction entries with
    | nil => simp [keyed]
    | cons entry entries ih =>
      intro total
      rw [List.foldl_cons, ih]
      simp only [keyed, List.map_cons, Lru.weight_cons]
      omega
  simpa [totalBytes] using hfold 0

theorem keyed_evict (maxTotalBytes : Nat) (entries : List (CacheEntry V)) :
    keyed (StateCompositionCache.evict maxTotalBytes entries) =
      Lru.evict (·.nbytes) maxTotalBytes (keyed entries) := by
  induction entries with
  | nil => rfl
  | cons entry entries ih =>
    unfold StateCompositionCache.evict
    rw [totalBytes_eq]
    simp only [keyed, List.map_cons, Lru.evict] at ih ⊢
    split
    · exact ih
    · rfl

theorem keyed_touch (cache : StateCompositionCache V) (entry : CacheEntry V) :
    keyed (cache.touch entry).entries = Lru.touch entry.key entry (keyed cache.entries) := by
  simp only [StateCompositionCache.touch, Lru.touch, keyed, List.map_append, List.filter_map]
  congr 2
  apply List.filter_congr
  intro other _
  simp [hasKey_iff, CacheEntry.key]

theorem keyed_put (cache : StateCompositionCache V) (entry : CacheEntry V) :
    keyed (cache.put entry).entries =
      Lru.put (·.nbytes) cache.maxTotalBytes entry.key entry (keyed cache.entries) := by
  unfold StateCompositionCache.put Lru.put
  split
  · rfl
  · rw [keyed_evict, keyed_touch]

theorem find_keyed :
    cache.find scenarioId version names chain =
      (Lru.lookup (scenarioId, version, names) (keyed cache.entries)).filter
        fun entry => entry.chain = chain := by
  unfold StateCompositionCache.find Lru.lookup keyed
  rw [List.find?_map, Option.map_map]
  congr 1
  have hkeys : (fun entry : CacheEntry V => entry.hasKey scenarioId version names) =
      ((fun e => decide (e.1 = (scenarioId, version, names))) ∘ fun entry : CacheEntry V =>
        (entry.key, entry)) := by
    funext entry
    rw [Bool.eq_iff_iff, hasKey_iff]
    simp
  rw [hkeys]
  simp [Function.comp_def]

theorem put_maxTotalBytes (cache : StateCompositionCache V) (entry : CacheEntry V) :
    (cache.put entry).maxTotalBytes = cache.maxTotalBytes := by
  unfold StateCompositionCache.put
  split
  · rfl
  · rfl

theorem resumed_maxTotalBytes (cache : StateCompositionCache V) (scenarioId : String)
    (names : List String) (records : List (ResultRecord V)) :
    (resumed cache scenarioId names records).maxTotalBytes = cache.maxTotalBytes := by
  unfold Compose.resumed
  cases resumeFrom cache scenarioId names records records.length with
  | none => rfl
  | some hit => rfl

theorem cacheAfter_maxTotalBytes (grid : Grid) (scenarioId : String) (zero : V)
    (results : List (ResultRecord V)) (request : CompositionRequest V)
    (cache : StateCompositionCache V) :
    (cacheAfter grid scenarioId zero results request cache).maxTotalBytes =
      cache.maxTotalBytes := by
  unfold cacheAfter
  dsimp only
  split
  · rfl
  split
  · rfl
  split
  · exact resumed_maxTotalBytes ..
  split
  · rw [put_maxTotalBytes, resumed_maxTotalBytes]
  · exact resumed_maxTotalBytes ..

end Keys

section Replays

variable {site : String → Grid} {zero : V} {s s' : CompositionPlane site V} {maxTotalBytes : Nat}
  {events : List (CompositionEvent site V)}

theorem compositionStep_maxTotalBytes (h : ExactPlane zero s)
    {event : CompositionEvent site V} (hstep : compositionStep zero s event = some s') :
    s'.cache.maxTotalBytes = s.cache.maxTotalBytes := by
  cases event with
  | publish scenarioId job =>
    simp only [compositionStep, Option.ite_none_right_eq_some, Option.some.injEq] at hstep
    obtain ⟨-, rfl⟩ := hstep
    rfl
  | compose scenarioId request =>
    obtain rfl := Option.some.inj hstep
    show (s.compose zero scenarioId request).2.maxTotalBytes = s.cache.maxTotalBytes
    rw [CompositionPlane.compose_eq h, cacheAfter_maxTotalBytes]

theorem run_maxTotalBytes
    (hrun : run (compositionStep zero) (initialPlane site V maxTotalBytes) events = some s) :
    s.cache.maxTotalBytes = maxTotalBytes := by
  have hplane : ExactPlane zero s ∧ s.cache.maxTotalBytes = maxTotalBytes :=
    run_invariant (C := fun _ _ => True)
      (I := fun s : CompositionPlane site V =>
        ExactPlane zero s ∧ s.cache.maxTotalBytes = maxTotalBytes)
      (fun _ _ _ h _ hstep =>
        ⟨compositionStep_exact h.1 hstep, (compositionStep_maxTotalBytes h.1 hstep).trans h.2⟩)
      ⟨⟨initialPlane_invariant, fun _ h => by cases h⟩, rfl⟩
      (eachStep_of_forall (fun _ _ => trivial) _ _) hrun
  exact hplane.2

/-! ## What a composition need not replay -/

/-- The key of what a composition of the records leaves in the cache. -/
def compositionKey (scenarioId : String) (names : List String) (records : List (ResultRecord V)) :
    CacheKey :=
  (scenarioId, (records.getLast?.map (·.sceneVersion)).getD 0, names)

def StateCompositionCache.keys (cache : StateCompositionCache V) : List CacheKey :=
  cache.entries.map CacheEntry.key

theorem mem_keys {cache : StateCompositionCache V} {key : CacheKey} :
    key ∈ cache.keys ↔ (Lru.lookup key (StateCompositionCache.keyed cache.entries)).isSome := by
  simp [StateCompositionCache.keys, StateCompositionCache.keyed, Lru.lookup, CacheEntry.key]

theorem compose_cached (h : ExactPlane zero s) {scenarioId : String}
    {request : CompositionRequest V} {arrays : Dict String (PatchArray V)}
    (hserved : (s.compose zero scenarioId request).1 = .ok arrays)
    (hdurable : request.names ⊆ recordNames request.names
      (recordsUpTo request.targetVersion (s.records scenarioId)))
    (hfits : nbytes (site scenarioId) request.names ≤ s.cache.maxTotalBytes) :
    recordsUpTo request.targetVersion (s.records scenarioId) ≠ [] ∧
      compositionKey scenarioId request.names
          (recordsUpTo request.targetVersion (s.records scenarioId)) ∈
        (s.compose zero scenarioId request).2.keys := by
  rw [CompositionPlane.compose_eq h] at hserved ⊢
  simp only [composePlain, except_bind_ok, refuseIf_ok] at hserved
  obtain ⟨_, hsome, _, hguard, state, happly, -⟩ := hserved
  refine ⟨hsome, ?_⟩
  simp only [cacheAfter, if_neg hsome, hguard, happly, if_pos hdurable]
  show (cacheEntry (site scenarioId) scenarioId request.names _ state).key ∈ _
  rw [mem_keys, keyed_put, Lru.lookup_put]
  · rfl
  · rw [resumed_maxTotalBytes]
    exact hfits

theorem run_records {later : List (CompositionEvent site V)}
    (hrun : run (compositionStep zero) s later = some s') (id : String) :
    s.records id <+: s'.records id :=
  run_relation (I := fun _ => True) (C := fun _ _ => True)
    (R := fun s s' : CompositionPlane site V => s.records id <+: s'.records id)
    (fun _ => List.prefix_rfl) (fun _ _ _ => List.IsPrefix.trans)
    (fun _ _ _ _ _ hstep => ⟨trivial, records_grow hstep id⟩) trivial
    (eachStep_of_forall (fun _ _ => trivial) _ _) hrun

theorem prefix_eq_of_version {before records : List (ResultRecord V)}
    (hascending : records.Pairwise fun a b => a.sceneVersion < b.sceneVersion)
    (hinitial : before <+: records) (hsome : before ≠ [])
    (hlast : before.getLast?.map (·.sceneVersion) = records.getLast?.map (·.sceneVersion)) :
    before = records := by
  obtain ⟨more, rfl⟩ := hinitial
  rcases List.eq_nil_or_concat more with rfl | ⟨more, last, rfl⟩
  · rw [List.append_nil]
  · obtain ⟨before, first, rfl⟩ : ∃ init first, before = init ++ [first] := by
      simpa using (List.eq_nil_or_concat before).resolve_left hsome
    have hlt := (List.pairwise_append.mp hascending).2.2 first (by simp) last (by simp)
    rw [List.getLast?_concat, List.concat_eq_append, ← List.append_assoc,
      List.getLast?_concat] at hlast
    exact absurd (Option.some.inj hlast) (Nat.ne_of_lt hlt)

theorem find_of_mem_keys (h : ExactPlane zero s) {scenarioId : String} {names : List String}
    {records : List (ResultRecord V)} {last : ResultRecord V}
    (hinitial : records ++ [last] <+: s.records scenarioId)
    (hkey : compositionKey scenarioId names (records ++ [last]) ∈ s.cache.keys) :
    (s.cache.find scenarioId last.sceneVersion names
      ((records ++ [last]).map (·.checksum))).isSome = true := by
  have hcompositionKey : compositionKey scenarioId names (records ++ [last]) =
      (scenarioId, last.sceneVersion, names) := by simp [compositionKey]
  rw [mem_keys, hcompositionKey, Option.isSome_iff_exists] at hkey
  obtain ⟨entry, hlookup⟩ := hkey
  obtain ⟨cached, hcached, hentry⟩ := List.mem_map.mp (Lru.lookup_some hlookup)
  obtain ⟨hkeys, rfl⟩ := Prod.mk.inj hentry
  obtain ⟨rfl, hversion, -⟩ : cached.scenarioId = scenarioId ∧ cached.version = last.sceneVersion ∧
      cached.names = names := by simpa [CacheEntry.key] using hkeys
  obtain ⟨before, hbefore, hlast, hchain, -⟩ := h.exact cached hcached
  have hascending := (h.plane.ascending cached.scenarioId).records
  have hsame : before.getLast?.map (·.sceneVersion) =
      (records ++ [last]).getLast?.map (·.sceneVersion) := by
    rw [hlast, hversion]
    simp
  have hbeforeSome : before ≠ [] := by
    rintro rfl
    cases hlast
  have hrecords : before = records ++ [last] := by
    rcases List.prefix_or_prefix_of_prefix hbefore hinitial with hshort | hlong
    · exact prefix_eq_of_version (hascending.sublist hinitial.sublist) hshort hbeforeSome hsame
    · exact (prefix_eq_of_version (hascending.sublist hbefore.sublist) hlong (by simp)
        hsame.symm).symm
  rw [find_keyed, hlookup]
  simp [hchain, hrecords]

theorem resumeFrom_le {cache : StateCompositionCache V} {scenarioId : String}
    {names : List String} {records : List (ResultRecord V)} {record : ResultRecord V} {n start : Nat}
    (hrecord : records[n]? = some record)
    (hfound : (cache.find scenarioId record.sceneVersion names
      ((records.take (n + 1)).map (·.checksum))).isSome = true) (hstart : n + 1 ≤ start) :
    ∃ entry m, resumeFrom cache scenarioId names records start = some (entry, m) ∧ n + 1 ≤ m := by
  induction start with
  | zero => omega
  | succ start ih =>
    rw [resumeFrom]
    by_cases hlast : start = n
    · subst hlast
      obtain ⟨entry, hentry⟩ := Option.isSome_iff_exists.mp hfound
      rw [hrecord]
      simp only [hentry]
      exact ⟨entry, start + 1, rfl, Nat.le_refl _⟩
    · have hrest := ih (by omega)
      split
      · exact hrest
      · split
        · exact hrest
        · next entry _ => exact ⟨entry, start + 1, rfl, by omega⟩

theorem recordsUpTo_prefix {records more : List (ResultRecord V)} {target later : Nat}
    (hmore : records <+: more) (hlater : target ≤ later)
    (hrecords : recordsUpTo target records <+: records)
    (hlaterRecords : recordsUpTo later more <+: more) :
    recordsUpTo target records <+: recordsUpTo later more := by
  apply List.prefix_of_prefix_length_le (hrecords.trans hmore) hlaterRecords
  unfold recordsUpTo
  apply List.Sublist.length_le
  apply (hmore.sublist.filter _).trans
  apply List.monotone_filter_right
  intro record hrecord
  simp only [decide_eq_true_eq] at hrecord ⊢
  omega

/-- A composition that serves leaves an entry, and whatever else is published or composed then, while
the entry is in the cache only the records that were published since are replayed. -/
theorem composition_replays_new
    (hrun : run (compositionStep zero) (initialPlane site V maxTotalBytes) events = some s)
    {scenarioId : String} {request : CompositionRequest V} {arrays : Dict String (PatchArray V)}
    (hserved : (s.compose zero scenarioId request).1 = .ok arrays)
    (hdurable : request.names ⊆ recordNames request.names
      (recordsUpTo request.targetVersion (s.records scenarioId)))
    (hfits : nbytes (site scenarioId) request.names ≤ maxTotalBytes) :
    compositionKey scenarioId request.names
        (recordsUpTo request.targetVersion (s.records scenarioId)) ∈
      (s.compose zero scenarioId request).2.keys ∧
    ∀ later s', run (compositionStep zero) s (.compose scenarioId request :: later) = some s' →
      compositionKey scenarioId request.names
          (recordsUpTo request.targetVersion (s.records scenarioId)) ∈ s'.cache.keys →
      ∀ targetVersion, request.targetVersion ≤ targetVersion →
        ∃ entry n, resumeFrom s'.cache scenarioId request.names
            (recordsUpTo targetVersion (s'.records scenarioId))
            (recordsUpTo targetVersion (s'.records scenarioId)).length = some (entry, n) ∧
          (recordsUpTo request.targetVersion (s.records scenarioId)).length ≤ n := by
  have hplane := run_exactPlane hrun
  rw [← run_maxTotalBytes hrun] at hfits
  obtain ⟨hsome, hcached⟩ := compose_cached hplane hserved hdurable hfits
  refine ⟨hcached, fun later s' hthen hkept targetVersion htarget => ?_⟩
  have hexact : ExactPlane zero s' :=
    run_invariant (C := fun _ _ => True) (fun _ _ _ h _ => compositionStep_exact h) hplane
      (eachStep_of_forall (fun _ _ => trivial) _ _) hthen
  have hinitial := (hplane.initial scenarioId request.targetVersion).trans
    (run_records hthen scenarioId)
  have hprefix := recordsUpTo_prefix (run_records hthen scenarioId) htarget
    (hplane.initial scenarioId _) (hexact.initial scenarioId _)
  generalize recordsUpTo request.targetVersion (s.records scenarioId) = records at *
  obtain ⟨before, last, rfl⟩ : ∃ before last, records = before ++ [last] := by
    simpa using (List.eq_nil_or_concat records).resolve_left hsome
  have hfound := find_of_mem_keys hexact hinitial hkept
  obtain ⟨after, hafter⟩ := hprefix
  have hlast : (recordsUpTo targetVersion (s'.records scenarioId))[before.length]? = some last := by
    rw [← hafter]
    simp
  have hlength : (before ++ [last]).length = before.length + 1 := by simp
  rw [hlength]
  apply resumeFrom_le hlast
  · rw [← hafter, ← hlength, List.take_left' rfl]
    exact hfound
  · rw [← hafter, List.length_append, hlength]
    omega

theorem utci_ne_nil : ["utci"] ≠ [] := by simp

theorem third_after : ∀ base, some 1 = some base → base < 2 := by simp

def thirdJob : PublishedJob smallSite Nat :=
  wholeSiteJob smallSite (some 1) 2 ["utci"] utci_ne_nil third_after 30

/-- Another scenario is published and composed between the two. -/
def thirdEvents : List (CompositionEvent (fun _ => smallSite) Nat) :=
  [.publish "other" baseline, .compose "other" (variableRequest "utci"),
    .publish "scenario" thirdJob]

def otherPlane : CompositionPlane (fun _ => smallSite) Nat where
  published := Function.update leftOutPlane.published "other" [baseline]
  cache := warmPlane.cache

def thirdPlane : CompositionPlane (fun _ => smallSite) Nat where
  published := Function.update otherPlane.published "scenario" [baseline, utciOnly, thirdJob]
  cache := (otherPlane.compose 0 "other" (variableRequest "utci")).2

theorem third_run :
    run (compositionStep 0) leftOutPlane
        (.compose "scenario" (variableRequest "utci") :: thirdEvents) = some thirdPlane := by
  simp [run, compositionStep, thirdEvents, otherPlane, warmPlane, leftOutPlane, publishable,
    baseline, utciOnly, thirdJob, wholeSiteJob, thirdPlane]

/-- Two of the three records are not replayed. -/
theorem composition_replays_new_third :
    thirdPlane.cache.entries.length = 2 ∧
      ∃ entry n, resumeFrom thirdPlane.cache "scenario" (variableRequest "utci").names
          (recordsUpTo 2 (thirdPlane.records "scenario"))
          (recordsUpTo 2 (thirdPlane.records "scenario")).length = some (entry, n) ∧
        (recordsUpTo 1 (leftOutPlane.records "scenario")).length ≤ n := by
  obtain ⟨arrays, harrays⟩ := except_of_isOk leftOut_composes.2
  obtain ⟨-, hlater⟩ := composition_replays_new leftOut_run harrays (by decide) (by decide)
  exact ⟨by decide, hlater thirdEvents thirdPlane third_run (by decide) 2 (by decide)⟩

end Replays

end Solweig.Compose
