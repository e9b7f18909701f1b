import Solweig.Compose.Composition

/-!
# What a composition serves

A composition is the overlay of its records and its fresh patches over zeros, whatever prefix of
the history the cache held.
-/

namespace Solweig.Compose

open Solweig.Lib Solweig.Planner

variable {V : Type}

/-- What a payload puts on a point. -/
def payloadLayer (window : RasterWindow) (timeIndices : List Nat)
    (arrays : Dict String (PatchArray V)) : Point → Option V := fun p =>
  (arrays[p.name]?).bind fun patch => scatter window timeIndices p.name patch p

def ResultRecord.layer (record : ResultRecord V) : Point → Option V :=
  payloadLayer record.manifest.window record.manifest.timeIndices record.arrays

def ResultPatch.layer (patch : ResultPatch V) : Point → Option V :=
  payloadLayer patch.writeWindow patch.times patch.arrays

/-- The manifest names the times of every array of its payload. -/
def Shaped (timeIndices : List Nat) (arrays : Dict String (PatchArray V)) : Prop :=
  ∀ (name : String) (array : PatchArray V), arrays[name]? = some array →
    array.steps = timeIndices.length

def ResultRecord.Shaped (record : ResultRecord V) : Prop :=
  Compose.Shaped record.manifest.timeIndices record.arrays

theorem ResultPatch.shaped (patch : ResultPatch V) : Shaped patch.times patch.arrays := by
  intro name array harray
  rw [patch.shapes name array harray, ResultPatch.times]
  cases h : patch.timeIndices with
  | none => simp
  | some indices => exact (patch.length indices h).symm

/-! ## One payload -/

section Payload

variable {grid : Grid} {window : RasterWindow} {timeIndices : List Nat}
  {arrays : Dict String (PatchArray V)} {names : List String} {state state' : SiteState V}
  {p : Point}

theorem stepAt_isSome {t : Nat} : (stepAt timeIndices t).isSome = true ↔ t ∈ timeIndices := by
  have hfst : t ∈ timeIndices ↔ ∃ e ∈ timeIndices.zipIdx, e.1 = t := by
    rw [← List.mem_map, List.zipIdx_map_fst]
  rw [hfst, stepAt, List.lookup_isSome_iff]
  simp only [List.mem_reverse, beq_iff_eq, eq_comm (a := t)]

theorem payloadLayer_isSome :
    (payloadLayer window timeIndices arrays p).isSome = true ↔
      (arrays[p.name]?).isSome = true ∧ inWindow window p = true ∧ p.time ∈ timeIndices := by
  unfold payloadLayer scatter
  cases harray : arrays[p.name]? with
  | none => simp
  | some patch =>
    by_cases hwindow : inWindow window p = true
    · simp [hwindow, stepAt_isSome]
    · simp [hwindow]

theorem payloadTimes_shaped {name : String} {array : PatchArray V} {times : List Nat}
    (hshape : array.steps = timeIndices.length)
    (h : payloadTimes grid name array timeIndices = .ok times) : times = timeIndices := by
  unfold payloadTimes at h
  split at h
  · next hbad =>
    rcases hbad with rfl | hlength
    · split at h
      · simp at h
      · simpa [hshape] using (Except.ok.inj h).symm
    · exact absurd hshape.symm hlength
  · exact (Except.ok.inj h).symm

theorem applyVariable_ok (hshape : Shaped timeIndices arrays) {name : String}
    {s' : List Nat × SiteState V}
    (h : applyVariable grid window arrays (timeIndices, state) name = .ok s') :
    s'.1 = timeIndices ∧ ∀ p, s'.2 p =
      if p.name = name then (payloadLayer window timeIndices arrays p).getD (state p)
      else state p := by
  unfold applyVariable at h
  cases harray : arrays[name]? with
  | none =>
    rw [harray] at h
    obtain rfl := Except.ok.inj h
    refine ⟨rfl, fun p => ?_⟩
    split
    · next hp => simp [payloadLayer, hp, harray]
    · rfl
  | some patch =>
    rw [harray] at h
    simp only [except_bind_ok] at h
    obtain ⟨times, htimes, h⟩ := h
    obtain rfl := payloadTimes_shaped (hshape name patch harray) htimes
    split at h
    · simp at h
    · obtain rfl := Except.ok.inj h
      refine ⟨rfl, fun p => ?_⟩
      split
      · next hp =>
        subst hp
        simp [payloadLayer, harray]
      · next hp => simp [scatter, hp]

theorem applyResultIntoState_ok (hshape : Shaped timeIndices arrays)
    (h : applyResultIntoState grid window timeIndices arrays names state = .ok state') (p : Point) :
    state' p =
      if p.name ∈ names then (payloadLayer window timeIndices arrays p).getD (state p)
      else state p := by
  unfold applyResultIntoState at h
  obtain ⟨⟨times, final⟩, hfold, rfl⟩ := except_map_ok.mp h
  clear h
  induction names generalizing state with
  | nil =>
    obtain ⟨rfl, rfl⟩ := Prod.mk.inj (Except.ok.inj hfold)
    rfl
  | cons name names ih =>
    obtain ⟨⟨times', middle⟩, hstep, hrest⟩ := foldlM_cons_ok.mp hfold
    obtain ⟨rfl, hmiddle⟩ := applyVariable_ok hshape hstep
    have hfinal := ih hrest
    dsimp only at hmiddle hfinal ⊢
    rw [hfinal, hmiddle p]
    by_cases hname : p.name = name
    · -- a name that comes twice lands twice
      cases payloadLayer window times' arrays p <;> simp [hname]
    · simp [hname]

end Payload

/-! ## Many payloads -/

section Many

variable {grid : Grid} {names : List String} {state state' : SiteState V} {p : Point}

theorem foldlM_overlay {β : Type} {f : SiteState V → β → Except ComposeError (SiteState V)}
    {layer : β → Point → Option V} {bs : List β}
    (hf : ∀ b ∈ bs, ∀ state state', f state b = .ok state' →
      state' p = (layer b p).getD (state p))
    (h : bs.foldlM f state = .ok state') :
    some (state' p) = overlay (fun p => some (state p)) (bs.map layer) p := by
  induction bs generalizing state with
  | nil =>
    obtain rfl := Except.ok.inj h
    rfl
  | cons b bs ih =>
    rw [List.forall_mem_cons] at hf
    obtain ⟨middle, hstep, hrest⟩ := foldlM_cons_ok.mp h
    rw [ih hf.2 hrest, List.map_cons, overlay_cons]
    apply overlay_congr _ rfl
    rw [hf.1 state middle hstep]
    cases layer b p <;> rfl

theorem applyRecords_ok {records : List (ResultRecord V)} (hshape : ∀ r ∈ records, r.Shaped)
    (hp : p.name ∈ names) (h : applyRecords grid names records state = .ok state') :
    some (state' p) =
      overlay (fun p => some (state p)) (records.map ResultRecord.layer) p := by
  refine foldlM_overlay (fun r hr state state' h => ?_) h
  rw [applyResultIntoState_ok (hshape r hr) h, if_pos hp]
  rfl

theorem applyPatches_ok {patches : List (ResultPatch V)} (hp : p.name ∈ names)
    (h : applyPatches grid names patches state = .ok state') :
    some (state' p) =
      overlay (fun p => some (state p)) (patches.map ResultPatch.layer) p := by
  refine foldlM_overlay (fun patch _ state state' h => ?_) h
  rw [applyResultIntoState_ok patch.shaped h, if_pos hp]
  rfl

end Many

/-! ## The cache -/

/-- The entries of a scenario hold prefixes of its history, composed. -/
def CacheSound (zero : V) (results : String → List (ResultRecord V))
    (cache : StateCompositionCache V) : Prop :=
  ∀ entry ∈ cache.entries, ∃ records,
    records <+: results entry.scenarioId ∧ entry.chain = records.map (·.checksum) ∧
      ∀ p : Point, p.name ∈ entry.names → some (entry.arrays p) =
        overlay (fun _ => some zero) (records.map ResultRecord.layer) p

section Cache

variable {zero : V} {results : String → List (ResultRecord V)} {cache : StateCompositionCache V}
  {entry : CacheEntry V} {names : List String} {scenarioId : String}

theorem CacheSound.mono {cache' : StateCompositionCache V} (h : CacheSound zero results cache)
    (hsub : ∀ entry ∈ cache'.entries, entry ∈ cache.entries) : CacheSound zero results cache' :=
  fun entry hentry => h entry (hsub entry hentry)

theorem CacheSound.grow {results' : String → List (ResultRecord V)}
    (h : CacheSound zero results cache) (hgrow : ∀ id, results id <+: results' id) :
    CacheSound zero results' cache := by
  intro entry hentry
  obtain ⟨records, hinitial, hrest⟩ := h entry hentry
  exact ⟨records, hinitial.trans (hgrow _), hrest⟩

theorem mem_of_find {version : Nat} {chain : List String}
    (h : cache.find scenarioId version names chain = some entry) :
    entry ∈ cache.entries ∧ entry.scenarioId = scenarioId ∧ entry.names = names ∧
      entry.chain = chain := by
  unfold StateCompositionCache.find at h
  rw [Option.filter_eq_some_iff] at h
  have hkey := List.find?_some h.1
  simp only [CacheEntry.hasKey, decide_eq_true_eq] at hkey
  exact ⟨List.mem_of_find?_eq_some h.1, hkey.1, hkey.2.2, by simpa using h.2⟩

theorem mem_touch {other : CacheEntry V} (h : other ∈ (cache.touch entry).entries) :
    other = entry ∨ other ∈ cache.entries := by
  unfold StateCompositionCache.touch at h
  rcases List.mem_append.mp h with h | h
  · exact Or.inr (List.mem_filter.mp h).1
  · exact Or.inl (List.mem_singleton.mp h)

theorem mem_evict {maxTotalBytes : Nat} {entries : List (CacheEntry V)} {other : CacheEntry V}
    (h : other ∈ StateCompositionCache.evict maxTotalBytes entries) : other ∈ entries := by
  induction entries with
  | nil => exact h
  | cons entry entries ih =>
    unfold StateCompositionCache.evict at h
    split at h
    · exact List.mem_cons_of_mem entry (ih h)
    · exact h

theorem mem_put {other : CacheEntry V} (h : other ∈ (cache.put entry).entries) :
    other = entry ∨ other ∈ cache.entries := by
  unfold StateCompositionCache.put at h
  split at h
  · exact Or.inr h
  · exact mem_touch (mem_evict h)

theorem CacheSound.touched (h : CacheSound zero results cache) (hmem : entry ∈ cache.entries) :
    CacheSound zero results (cache.touch entry) :=
  h.mono fun _ hother => (mem_touch hother).elim (fun heq => heq ▸ hmem) id

theorem resumeFrom_sound {records : List (ResultRecord V)} {start n : Nat}
    (h : CacheSound zero results cache) (hinitial : records <+: results scenarioId)
    (hfound : resumeFrom cache scenarioId names records start = some (entry, n)) :
    0 < n ∧ entry ∈ cache.entries ∧ ∀ p : Point, p.name ∈ names → some (entry.arrays p) =
      overlay (fun _ => some zero) ((records.take n).map ResultRecord.layer) p := by
  induction start with
  | zero => simp [resumeFrom] at hfound
  | succ start ih =>
    rw [resumeFrom] at hfound
    split at hfound
    · exact ih hfound
    · next record hrecord =>
      split at hfound
      · exact ih hfound
      · next entry' hfind =>
        obtain ⟨rfl, rfl⟩ := Prod.mk.inj (Option.some.inj hfound)
        obtain ⟨hmem, hid, hnames, hchain⟩ := mem_of_find hfind
        obtain ⟨cached, hcached, hcachedChain, harrays⟩ := h entry' hmem
        refine ⟨Nat.succ_pos start, hmem, fun p hp => ?_⟩
        rw [harrays p (hnames ▸ hp)]
        -- two prefixes of one history with chains of one length
        have hlength : cached.length = (records.take (start + 1)).length := by
          rw [← List.length_map (·.checksum), ← hcachedChain, hchain, List.length_map]
        rw [hid] at hcached
        rw [List.prefix_iff_eq_take.mp hcached, hlength,
          ← List.prefix_iff_eq_take.mp ((List.take_prefix _ _).trans hinitial)]

end Cache

/-! ## The composition -/

section Compose

variable {grid : Grid} {scenarioId : String} {zero : V} {results : String → List (ResultRecord V)}
  {records : List (ResultRecord V)} {names : List String} {cache : StateCompositionCache V}

theorem resumed_start (h : CacheSound zero results cache) (hinitial : records <+: results scenarioId)
    {p : Point} (hp : p.name ∈ names) :
    some ((((resumeFrom cache scenarioId names records records.length).map (·.1.arrays)).getD
        fun _ => zero) p) =
      overlay (fun _ => some zero)
        ((records.take (((resumeFrom cache scenarioId names records records.length).map
          (·.2)).getD 0)).map ResultRecord.layer) p := by
  cases hfound : resumeFrom cache scenarioId names records records.length with
  | none => rfl
  | some hit =>
    obtain ⟨entry, n⟩ := hit
    exact (resumeFrom_sound h hinitial hfound).2.2 p hp

theorem CacheSound.resumed (h : CacheSound zero results cache)
    (hinitial : records <+: results scenarioId) :
    CacheSound zero results
      (((resumeFrom cache scenarioId names records records.length).map
        fun hit => cache.touch hit.1).getD cache) := by
  cases hfound : resumeFrom cache scenarioId names records records.length with
  | none => exact h
  | some hit =>
    obtain ⟨entry, n⟩ := hit
    exact h.touched (resumeFrom_sound h hinitial hfound).2.1

theorem composeDurable_ok (h : CacheSound zero results cache)
    (hinitial : records <+: results scenarioId) (hshape : ∀ r ∈ records, r.Shaped)
    {durable : Durable V}
    (hok : composeDurable grid scenarioId zero names records cache = .ok durable) :
    (∀ p : Point, p.name ∈ names → some (durable.state p) =
      overlay (fun _ => some zero) (records.map ResultRecord.layer) p) ∧
      CacheSound zero results durable.cache := by
  unfold composeDurable at hok
  dsimp only at hok
  split at hok
  · simp at hok
  next state happly =>
    obtain rfl := Except.ok.inj hok
    have hstate : ∀ p : Point, p.name ∈ names → some (state p) =
        overlay (fun _ => some zero) (records.map ResultRecord.layer) p := by
      intro p hp
      rw [applyRecords_ok (fun r hr => hshape r (List.mem_of_mem_drop hr)) hp happly]
      refine (overlay_congr (resumed_start h hinitial hp) rfl).trans ?_
      rw [← overlay_append, ← List.map_append, List.take_append_drop]
    refine ⟨hstate, iteInduction (fun _ => ?_) fun _ => h.resumed hinitial⟩
    intro entry hentry
    rcases mem_put hentry with rfl | hold
    · exact ⟨records, hinitial, rfl, hstate⟩
    · exact h.resumed hinitial entry hold

theorem composeDurable_error (h : CacheSound zero results cache)
    (hinitial : records <+: results scenarioId) {e : ComposeError × StateCompositionCache V}
    (herror : composeDurable grid scenarioId zero names records cache = .error e) :
    CacheSound zero results e.2 := by
  unfold composeDurable at herror
  dsimp only at herror
  split at herror
  · obtain rfl := Except.error.inj herror
    exact h.resumed hinitial
  · simp at herror

variable {request : CompositionRequest V}

/-- The records up to the target. -/
def recordsUpTo (targetVersion : Nat) (records : List (ResultRecord V)) : List (ResultRecord V) :=
  records.filter fun record => record.sceneVersion ≤ targetVersion

/-- The layers of a composition, the lowest version first, each with the version it stands for. -/
def versionedLayers (records : List (ResultRecord V)) (request : CompositionRequest V) :
    List (Nat × (Point → Option V)) :=
  (recordsUpTo request.targetVersion records).map (fun r => (r.sceneVersion, r.layer)) ++
    request.extraPatches.map fun patch => (request.targetVersion, patch.layer)

theorem composeCurrentState_cacheSound (h : CacheSound zero results cache)
    (hshape : ∀ r ∈ results scenarioId, r.Shaped)
    (hinitial : recordsUpTo request.targetVersion (results scenarioId) <+: results scenarioId) :
    CacheSound zero results
      (composeCurrentState grid scenarioId zero (results scenarioId) request cache).2 := by
  unfold composeCurrentState
  dsimp only
  split
  · exact h
  · split
    · exact h
    · split
      · next e herror => exact composeDurable_error h hinitial herror
      · next durable hok =>
        exact (composeDurable_ok h hinitial (fun r hr => hshape r (List.mem_of_mem_filter hr)) hok).2

theorem sliced_cell (grid : Grid) {window : RasterWindow} (state : SiteState V) {p : Point}
    (hp : p.name ∈ names)
    (hwindow : inWindow window p = true) :
    ∃ array, (sliced grid window names state)[p.name]? = some array ∧
      array.cell window p.time p = state p := by
  simp only [inWindow, decide_eq_true_eq] at hwindow
  unfold sliced
  rw [Dict.getElem?_ofEntries_map, if_pos hp]
  refine ⟨_, rfl, ?_⟩
  simp only [PatchArray.cell]
  congr 2 <;> omega

theorem composeCurrentState_ok (h : CacheSound zero results cache)
    (hshape : ∀ r ∈ results scenarioId, r.Shaped)
    (hinitial : recordsUpTo request.targetVersion (results scenarioId) <+: results scenarioId)
    {arrays : Dict String (PatchArray V)}
    (hok : (composeCurrentState grid scenarioId zero (results scenarioId) request cache).1 =
      .ok arrays) :
    recordsUpTo request.targetVersion (results scenarioId) ≠ [] ∧
      guardComposition ((recordsUpTo request.targetVersion (results scenarioId)).map (·.manifest))
          request.names grid = .ok () ∧
      ∀ p : Point, p.name ∈ request.names → inWindow request.window p = true →
        ∃ array, arrays[p.name]? = some array ∧
          some (array.cell request.window p.time p) = overlay (fun _ => some zero)
            ((versionedLayers (results scenarioId) request).map (·.2)) p := by
  unfold composeCurrentState at hok
  dsimp only at hok
  split at hok
  · simp at hok
  next hsome =>
  split at hok
  · simp at hok
  next hguard =>
    refine ⟨hsome, hguard, fun p hp hwindow => ?_⟩
    split at hok
    · simp at hok
    next durable hdurable =>
      have hstate := (composeDurable_ok h hinitial
        (fun r hr => hshape r (List.mem_of_mem_filter hr)) hdurable).1 p hp
      unfold finishComposition at hok
      simp only [except_bind_ok] at hok
      obtain ⟨state, hpatches, _, _, hslice⟩ := hok
      obtain rfl := Except.ok.inj hslice
      obtain ⟨array, harray, hcell⟩ := sliced_cell grid state hp hwindow
      refine ⟨array, harray, ?_⟩
      rw [hcell, applyPatches_ok hp hpatches, versionedLayers, List.map_append, List.map_map,
        List.map_map, overlay_append]
      exact overlay_congr hstate rfl

end Compose

end Solweig.Compose
