import Solweig.Lane.FastExact

/-!
# Canonical frames before fast frames

A revision that the scan has found waits one pass, and no longer. When no fast frame overtakes
the canonical frame of its revision.
-/

namespace Solweig.Lane

open Solweig.Lib Solweig.Realtime Solweig.Store Solweig.Epochs

/-! ## The order of the frames -/

/-- Each fast frame comes after the canonical frame of its revision. -/
def CanonicalFirst (frames : List Frame) : Prop :=
  ∀ before after w publication, frames = before ++ .fast w publication :: after →
    .canonical w publication.workspaceRevision ∈ before

/-- When the lane hands over a revision that its scan has found, and some close attempt of the
epoch stands between its commit and its broadcast or has given up there, another one has
broadcast. -/
def WaitsForBroadcast (s : System) (a : LaneEvent) : Prop :=
  ∀ choice late now ready w item publication, a = .lane choice late now →
    s.place = .planning ready w item (.broadcast publication) → item.fromScan = true →
    ((∃ i, Committed w item.epochId (s.plane.threads i).activity) ∨ (w, item.epochId) ∈ s.lost) →
    .canonical w publication.workspaceRevision ∈ s.frames

section Frames

variable {frames : List Frame} {w : String}

theorem split_concat {α : Type} {l before after : List α} {x y : α}
    (h : l ++ [y] = before ++ x :: after) :
    (l = before ∧ y = x) ∨ ∃ after', l = before ++ x :: after' := by
  rcases List.eq_nil_or_concat after with rfl | ⟨rest, last, rfl⟩
  · obtain ⟨hl, hx⟩ := List.append_inj' h rfl
    exact Or.inl ⟨hl, List.head_eq_of_cons_eq hx⟩
  · refine Or.inr ⟨rest, ?_⟩
    rw [List.concat_eq_append, ← List.cons_append, ← List.append_assoc] at h
    exact (List.append_inj' h rfl).1

theorem canonicalFirst_canonical {r : Nat} (h : CanonicalFirst frames) :
    CanonicalFirst (frames ++ [.canonical w r]) := by
  intro before after u publication heq
  rcases split_concat heq with ⟨-, hframe⟩ | ⟨after', hold⟩
  · simp at hframe
  · exact h before after' u publication hold

theorem canonicalFirst_fast {publication : FastPublication} (h : CanonicalFirst frames) :
    CanonicalFirst (frames ++ [.fast w publication]) ↔
      .canonical w publication.workspaceRevision ∈ frames := by
  constructor
  · intro hnew
    exact hnew frames [] w publication rfl
  · intro hmem before after u publication' heq
    rcases split_concat heq with ⟨rfl, hframe⟩ | ⟨after', hold⟩
    · cases hframe
      exact hmem
    · exact h before after' u publication' hold

theorem CanonicalFirst.announced (h : CanonicalFirst frames) {publication : FastPublication}
    (hmem : .fast w publication ∈ frames) :
    .canonical w publication.workspaceRevision ∈ frames := by
  obtain ⟨before, after, rfl⟩ := List.append_of_mem hmem
  exact List.mem_append_left _ (h before after w publication rfl)

end Frames

/-! ## Announced revisions -/

/-- An epoch with a revision was broadcast, or a close attempt owes it, or one has given up. -/
def Announced (s : System) : Prop :=
  ∀ w e r, Assigned s.plane.shared w e r → .canonical w r ∈ s.frames ∨
    (∃ i, Committed w e (s.plane.threads i).activity) ∨ (w, e) ∈ s.lost

section Announced

variable {start : Database} {kernel : FastKernel} {bounds : Bounds} {s t : System}

theorem revisionOf_assigned {db : Database} (hlaw : LogLaw db) {w : String} {e r : Nat}
    (h : Assigned db w e r) : revisionOf db w e = some r := by
  obtain ⟨row, hrow, rfl, hrevision⟩ := h
  unfold revisionOf
  rw [epoch?_of_mem hlaw hrow, Option.bind_some, hrevision]

theorem assigned_of_revisionOf {db : Database} {w : String} {e r : Nat}
    (h : revisionOf db w e = some r) : Assigned db w e r := by
  obtain ⟨row, hrow, hrevision⟩ := Option.bind_eq_some_iff.mp h
  exact assigned_of_read hrow hrevision

theorem commit_assigns {db : Database} {w now : String} {e attempt expected : Nat}
    {operations : List OperationRow} {families : Families} (hlaw : LogLaw db) {u : String}
    {i r : Nat} (hfresh : ¬ Assigned db u i r)
    (hnew : Assigned (commitEpochReduction w e families (some expected) now db).2 u i r) :
    u = w ∧ i = e ∧
      (closeStep w e now db (.commit operations attempt expected families)).2 = some .confirm := by
  have hspec : Commit w e families (some expected) now db _ _ := commitEpochReduction_spec
  rcases hresult : commitEpochReduction w e families (some expected) now db with ⟨o, db'⟩
  rw [hresult] at hspec hnew
  dsimp only at hspec hnew
  cases hspec with
  | refused | missing | stored | restored => exact absurd hnew hfresh
  | @assigned row scenario hrow hrevision hscenario =>
    obtain ⟨hmem, hid⟩ := epoch?_some hrow
    rcases (assigned_assignedDb e _ _ now ⟨row, hmem, hid, hrevision⟩ hlaw).mp hnew with
      hold | ⟨rfl, rfl, -⟩
    · exact absurd hold hfresh
    · exact ⟨rfl, rfl, by simp only [closeStep, hresult]⟩

theorem committed_step {i : Nat} {event : Event} {plane : Plane} {w : String} {e r : Nat}
    (hlaw : LogLaw s.plane.shared) (hr : Assigned s.plane.shared w e r)
    (hcommitted : Committed w e (s.plane.threads i).activity)
    (h : planeStep s.plane (i, event) = some plane) :
    .canonical w r ∈ (s.noted i event plane).frames ∨
      Committed w e (plane.threads i).activity ∨ (w, e) ∈ (s.noted i event plane).lost := by
  obtain ⟨hact, -⟩ := Threads.step_eq h
  have hplace : (s.plane.threads i).activity = .closing w e .confirm ∨
      (s.plane.threads i).activity = .closing w e .publish := by
    unfold Committed at hcommitted
    split at hcommitted
    · obtain ⟨rfl, rfl⟩ := hcommitted
      exact Or.inl ‹_›
    · obtain ⟨rfl, rfl⟩ := hcommitted
      exact Or.inr ‹_›
    · exact hcommitted.elim
  rcases act_begin hact with ⟨due, now, rfl, hstep⟩ | ⟨rfl, -⟩ | ⟨hfree, -⟩
  · rcases hplace with hplace | hplace
    · obtain ⟨row, hrow, rfl, hrevision⟩ := hr
      simp only [hplace, proceed, closeStep, epoch?_of_mem hlaw hrow, hrevision, Option.isSome_some,
        if_true, Option.some.injEq, Prod.mk.injEq] at hstep
      rw [← hstep.2]
      exact Or.inr (Or.inl ⟨rfl, rfl⟩)
    · refine Or.inl ?_
      simp only [System.noted, hplace, revisionOf_assigned hlaw hr]
      exact List.mem_append_right _ List.mem_cons_self
  · refine Or.inr (Or.inr ?_)
    rcases hplace with hplace | hplace <;>
      simp only [System.noted, hplace] <;>
      exact List.mem_append_right _ List.mem_cons_self
  · rw [hfree] at hcommitted
    exact hcommitted.elim

theorem noted_grows (s : System) (i : Nat) (event : Event) (plane : Plane) :
    s.frames <+: (s.noted i event plane).frames ∧ s.lost <+: (s.noted i event plane).lost := by
  unfold System.noted
  split
  · split
    · exact ⟨List.prefix_append _ _, List.prefix_refl _⟩
    · exact ⟨List.prefix_refl _, List.prefix_refl _⟩
  · exact ⟨List.prefix_refl _, List.prefix_append _ _⟩
  · exact ⟨List.prefix_refl _, List.prefix_append _ _⟩
  · exact ⟨List.prefix_refl _, List.prefix_refl _⟩

theorem Announced.plane {i : Nat} {event : Event} {plane : Plane}
    (hs : Epochs.Invariant start s.plane) (hannounced : Announced s)
    (h : planeStep s.plane (i, event) = some plane) : Announced (s.noted i event plane) := by
  intro w e r hr
  obtain ⟨hact, hothers⟩ := Threads.step_eq h
  obtain ⟨hframes, hlost⟩ := noted_grows s i event plane
  rw [(noted_eq s i event plane).1] at hr ⊢
  by_cases hold : Assigned s.plane.shared w e r
  · rcases hannounced w e r hold with hmem | ⟨j, hj⟩ | hmem
    · exact Or.inl (hframes.subset hmem)
    · by_cases hji : j = i
      · subst hji
        rcases committed_step hs.1.law hold hj h with hmem | hmem | hmem
        · exact Or.inl hmem
        · exact Or.inr (Or.inl ⟨j, hmem⟩)
        · exact Or.inr (Or.inr hmem)
      · refine Or.inr (Or.inl ⟨j, ?_⟩)
        rwa [hothers j hji]
    · exact Or.inr (Or.inr (hlost.subset hmem))
  · -- only a commit assigns, and its thread stands before the broadcast
    refine Or.inr (Or.inl ⟨i, ?_⟩)
    by_cases hcommit : ∃ w e operations attempt expected families,
        (s.plane.threads i).activity = .closing w e (.commit operations attempt expected families)
    · obtain ⟨u, k, operations, attempt, expected, families, hplace⟩ := hcommit
      rcases act_begin hact with ⟨due, now, rfl, hstep⟩ | ⟨rfl, _, -, heq⟩ | ⟨hfree, -⟩
      · simp only [hplace, proceed, closeStep_commit, Option.some.injEq, Prod.mk.injEq] at hstep
        rw [← hstep.1] at hr
        obtain ⟨rfl, rfl, hconfirm⟩ := commit_assigns hs.1.law hold hr
        rw [← hstep.2, hconfirm]
        exact ⟨rfl, rfl⟩
      · rw [(Prod.mk.inj heq).1] at hr
        exact absurd hr hold
      · rw [hfree] at hplace
        simp [Thread.free] at hplace
    · have hsame := effect_assigned (act_effect hact) hs.1 (hs.2 i)
        (fun w e operations attempt expected families hplace =>
          hcommit ⟨w, e, operations, attempt, expected, families, hplace⟩) w e r
      exact absurd (hsame.mp hr) hold

end Announced

/-! ## What the lane has found -/

/-- The item carries the revision of its epoch, and a hook comes after the broadcast. -/
structure Found (s : System) (w : String) (item : PendingItem) : Prop where
  assigned : Assigned s.plane.shared w item.epochId item.workspaceRevision
  announced : item.fromScan = false → .canonical w item.workspaceRevision ∈ s.frames

def LaneAt.items : LaneAt → List (String × PendingItem)
  | .targeting _ scanned => scanned
  | .queueing scanned => scanned
  | .publishing ready => ready
  | .planning ready w item _ => (w, item) :: ready
  | _ => []

section Items

variable {bounds : Bounds} {memory : Memory} {Q : String → PendingItem → Prop}

theorem deferOnce_items (hdefer : ∀ w item, Q w item → Q w { item with deferred := true })
    (hpending : ∀ w item, memory.pending[w]? = some item → Q w item) {w : String}
    {item : PendingItem} (hitem : Q w item) :
    (∀ u i, (memory.deferOnce w item).1.pending[u]? = some i → Q u i) ∧
      Q w (memory.deferOnce w item).2 := by
  unfold Memory.deferOnce
  split
  · refine ⟨fun u i h => ?_, hitem⟩
    rcases Dict.of_getElem?_insert h with ⟨rfl, rfl⟩ | hold
    · exact hitem
    · exact hpending u i hold
  · refine ⟨fun u i h => ?_, hdefer w item hitem⟩
    rcases Dict.of_getElem?_insert h with ⟨rfl, rfl⟩ | hold
    · exact hdefer w item hitem
    · exact hpending u i hold

theorem enqueue_items (hdefer : ∀ w item, Q w item → Q w { item with deferred := true })
    (hpending : ∀ w item, memory.pending[w]? = some item → Q w item) {w : String}
    {item : PendingItem} (hitem : Q w item) :
    (∀ u i, (memory.enqueue w item).1.pending[u]? = some i → Q u i) ∧
      Q w (memory.enqueue w item).2 := by
  unfold Memory.enqueue
  split
  · split
    · exact ⟨hpending, hpending w _ ‹_›⟩
    · exact deferOnce_items hdefer hpending hitem
  · exact deferOnce_items hdefer hpending hitem

theorem enqueueAll_items (hdefer : ∀ w item, Q w item → Q w { item with deferred := true })
    {scanned : List (String × PendingItem)}
    (hpending : ∀ w item, memory.pending[w]? = some item → Q w item)
    (hscanned : ∀ entry ∈ scanned, Q entry.1 entry.2) :
    (∀ w item, (memory.enqueueAll scanned).1.pending[w]? = some item → Q w item) ∧
      ∀ entry ∈ (memory.enqueueAll scanned).2, Q entry.1 entry.2 := by
  induction scanned generalizing memory with
  | nil => exact ⟨hpending, by simp [Memory.enqueueAll]⟩
  | cons entry rest ih =>
    obtain ⟨w, item⟩ := entry
    obtain ⟨hfirst, hrest⟩ := List.forall_mem_cons.mp hscanned
    obtain ⟨hpending', hitem⟩ := enqueue_items hdefer hpending hfirst
    obtain ⟨hlast, hitems⟩ := ih hpending' hrest
    exact ⟨hlast, List.forall_mem_cons.mpr ⟨hitem, hitems⟩⟩

theorem enqueueAll_publications {scanned : List (String × PendingItem)} :
    (memory.enqueueAll scanned).1.publications = memory.publications := by
  induction scanned generalizing memory with
  | nil => rfl
  | cons entry rest ih =>
    obtain ⟨w, item⟩ := entry
    refine (@ih (memory.enqueue w item).1).trans ?_
    unfold Memory.enqueue Memory.deferOnce
    split
    · split
      · rfl
      · split <;> rfl
    · split <;> rfl

theorem onEpochClosed_items {w : String} {e r : Nat}
    (hpending : ∀ u item, memory.pending[u]? = some item → Q u item)
    (hitem : Q w { epochId := e, workspaceRevision := r }) :
    ∀ u item, (memory.onEpochClosed bounds w e r).pending[u]? = some item → Q u item := by
  intro u item h
  unfold Memory.onEpochClosed at h
  split at h
  · exact hpending u item h
  · split at h
    · exact hpending u item h
    · split at h
      · rcases Dict.of_getElem?_insert h with ⟨rfl, rfl⟩ | hold
        · exact hitem
        · exact hpending u item hold
      · exact hpending u item h

theorem onEpochClosed_publications {w : String} {e r : Nat} :
    (memory.onEpochClosed bounds w e r).publications = memory.publications := by
  unfold Memory.onEpochClosed
  split
  · rfl
  · split
    · rfl
    · split <;> rfl

theorem mem_recordPublication {w u : String} {publication p : FastPublication}
    (h : p ∈ (memory.recordPublication bounds w publication).publications.getD u []) :
    p ∈ memory.publications.getD u [] ∨ (u = w ∧ p = publication) := by
  by_cases hu : w = u
  · subst hu
    simp only [Memory.recordPublication, Std.ExtTreeMap.getD_insert_self] at h
    rcases List.mem_append.mp (List.mem_of_mem_drop h) with hold | hnew
    · exact Or.inl hold
    · exact Or.inr ⟨rfl, List.mem_singleton.mp hnew⟩
  · simp only [Memory.recordPublication, Dict.getD_insert_of_ne _ _ _ hu] at h
    exact Or.inl h

theorem mem_discovered {db : Database} {row : ScenarioRow} {entry : String × PendingItem}
    (h : discovered? row (epochRecords db row.scenarioId) = some entry) :
    entry.2.fromScan = true ∧ Assigned db entry.1 entry.2.epochId entry.2.workspaceRevision := by
  obtain ⟨⟨epochId, revision⟩, hmax, rfl⟩ := Option.map_eq_some_iff.mp h
  obtain ⟨epoch, hepoch, hdue⟩ := List.mem_filterMap.mp (List.argmax_mem hmax)
  obtain ⟨r, hr, hdue⟩ := Option.bind_eq_some_iff.mp hdue
  split at hdue
  · obtain ⟨rfl, rfl⟩ := Prod.mk.inj (Option.some.inj hdue)
    exact ⟨rfl, epoch, (List.mem_insertionSort _).mp hepoch, rfl, hr⟩
  · simp at hdue

end Items

/-! ## The invariant -/

def Shown (frames : List Frame) (w : String) (r : Nat) : Prop :=
  ∃ publication, .fast w publication ∈ frames ∧ publication.workspaceRevision = r

/-- The lane hands over the revision next. -/
def LaneAt.Showing (w : String) (r : Nat) : LaneAt → Prop
  | .planning _ u _ (.broadcast publication) => u = w ∧ publication.workspaceRevision = r
  | _ => False

/-- A replacement shows a revision again. -/
def LaneAt.Replaces (frames : List Frame) : LaneAt → Prop
  | .retiring _ w replacement => Shown frames w replacement.workspaceRevision
  | .rebroadcast _ w replacement => Shown frames w replacement.workspaceRevision
  | _ => True

structure Ordered (start : Database) (s : System) : Prop where
  lane : Invariant start s
  announced : Announced s
  owed : ∀ i w e r, s.owed i = some (w, e, r) →
    Assigned s.plane.shared w e r ∧ .canonical w r ∈ s.frames
  pending : ∀ w item, s.memory.pending[w]? = some item → Found s w item
  items : ∀ entry ∈ s.place.items, Found s entry.1 entry.2
  recorded : ∀ w, ∀ publication ∈ s.memory.publications.getD w [],
    Shown s.frames w publication.workspaceRevision ∨
      s.place.Showing w publication.workspaceRevision
  replaces : s.place.Replaces s.frames

section Steps

variable {start : Database} {kernel : FastKernel} {bounds : Bounds} {s t : System}

theorem Shown.mono {frames frames' : List Frame} (hframes : frames <+: frames') {w : String}
    {r : Nat} (h : Shown frames w r) : Shown frames' w r := by
  obtain ⟨publication, hmem, hr⟩ := h
  exact ⟨publication, hframes.subset hmem, hr⟩

theorem LaneAt.Replaces.mono {frames frames' : List Frame} (hframes : frames <+: frames')
    {place : LaneAt} (h : place.Replaces frames) : place.Replaces frames' := by
  cases place with
  | retiring rest w replacement => exact Shown.mono hframes h
  | rebroadcast rest w replacement => exact Shown.mono hframes h
  | _ => trivial

theorem Found.mono {w : String} {item : PendingItem} (hext : Extends s.plane.shared t.plane.shared)
    (hframes : s.frames <+: t.frames) (h : Found s w item) : Found t w item :=
  ⟨hext.assigned w _ _ h.assigned, fun hscan => hframes.subset (h.announced hscan)⟩

theorem Found.deferred {w : String} {item : PendingItem} (h : Found s w item) :
    Found s w { item with deferred := true } := ⟨h.assigned, h.announced⟩

/-- What a step beside the plane has to show: its frames go on, it assigns nothing, and the rest
of the invariant holds of what it leaves. -/
theorem Ordered.aside (hs : Ordered start s) (hinv : Invariant start t)
    (haside : Aside start s.plane.shared t.plane.shared)
    (hthreads : t.plane.threads = s.plane.threads) (hframes : s.frames <+: t.frames)
    (hlost : t.lost = s.lost)
    (howed : ∀ i, t.owed i = s.owed i ∨ t.owed i = none)
    (hpending : ∀ w item, t.memory.pending[w]? = some item → Found s w item)
    (hitems : ∀ entry ∈ t.place.items, Found s entry.1 entry.2)
    (hrecorded : ∀ w, ∀ publication ∈ t.memory.publications.getD w [],
      Shown t.frames w publication.workspaceRevision ∨
        t.place.Showing w publication.workspaceRevision)
    (hreplaces : t.place.Replaces t.frames) : Ordered start t where
  lane := hinv
  announced w e r hr := by
    rw [hthreads, hlost]
    rcases hs.announced w e r (haside.assigned w e r hr) with hmem | hrest
    · exact Or.inl (hframes.subset hmem)
    · exact Or.inr hrest
  owed i w e r h := by
    rcases howed i with hsame | hnone
    · obtain ⟨hassigned, hmem⟩ := hs.owed i w e r (hsame ▸ h)
      exact ⟨haside.ext.assigned w e r hassigned, hframes.subset hmem⟩
    · rw [hnone] at h
      simp at h
  pending w item h := (hpending w item h).mono haside.ext hframes
  items entry h := (hitems entry h).mono haside.ext hframes
  recorded := hrecorded
  replaces := hreplaces

theorem noted_owed {i j : Nat} {event : Event} {plane : Plane} {w : String} {e r : Nat}
    (h : (s.noted i event plane).owed j = some (w, e, r)) :
    s.owed j = some (w, e, r) ∨ (revisionOf s.plane.shared w e = some r ∧
      .canonical w r ∈ (s.noted i event plane).frames) := by
  unfold System.noted at h ⊢
  split at h
  · split at h
    · rename_i u k _ revision hrevision
      by_cases hj : j = i
      · subst hj
        simp only [Function.update_self, Option.some.injEq, Prod.mk.injEq] at h
        obtain ⟨rfl, rfl, rfl⟩ := h
        refine Or.inr ⟨hrevision, ?_⟩
        simp only
        exact List.mem_append_right _ List.mem_cons_self
      · simp only [Function.update_of_ne hj] at h
        exact Or.inl h
    · exact Or.inl h
  · exact Or.inl h
  · exact Or.inl h
  · exact Or.inl h

theorem Ordered.plane {i : Nat} {event : Event} {plane : Plane} (hs : Ordered start s)
    (hinv : Invariant start (s.noted i event plane)) (h : planeStep s.plane (i, event) = some plane) :
    Ordered start (s.noted i event plane) := by
  obtain ⟨hplane, hplace, hmemory, -⟩ := noted_eq s i event plane
  obtain ⟨hframes, -⟩ := noted_grows s i event plane
  obtain ⟨-, hext⟩ := planeStep_invariant hs.lane.plane h
  rw [← hplane] at hext
  refine ⟨hinv, hs.announced.plane hs.lane.plane h, ?_, ?_, ?_, ?_, ?_⟩
  · intro j w e r howed
    rcases noted_owed howed with hold | ⟨hrevision, hmem⟩
    · obtain ⟨hassigned, hmem⟩ := hs.owed j w e r hold
      exact ⟨hext.assigned w e r hassigned, hframes.subset hmem⟩
    · exact ⟨hext.assigned w e r (assigned_of_revisionOf hrevision), hmem⟩
  · intro w item hitem
    rw [hmemory] at hitem
    exact (hs.pending w item hitem).mono hext hframes
  · intro entry hentry
    rw [hplace] at hentry
    exact (hs.items entry hentry).mono hext hframes
  · intro w publication hmem
    rw [hmemory] at hmem
    rw [hplace]
    exact (hs.recorded w publication hmem).imp (Shown.mono hframes) id
  · rw [hplace]
    exact hs.replaces.mono hframes

theorem superseding_mem {db : Database} {memory : Memory} {w : String}
    {replacement : FastPublication} (h : superseding? db memory w = some replacement) :
    ∃ publication ∈ memory.publications.getD w [],
      publication.workspaceRevision = replacement.workspaceRevision := by
  obtain ⟨publication, hlatest, h⟩ := Option.bind_eq_some_iff.mp h
  obtain ⟨scenario, -, h⟩ := Option.bind_eq_some_iff.mp h
  split at h
  · simp at h
  · obtain rfl := Option.some.inj h
    exact ⟨publication, List.mem_of_getLast? hlatest, rfl⟩

theorem Ordered.shown (hs : Ordered start s) (hplace : ∀ w r, ¬ s.place.Showing w r) (w : String) :
    ∀ publication ∈ s.memory.publications.getD w [],
      Shown s.frames w publication.workspaceRevision :=
  fun publication hmem => (hs.recorded w publication hmem).resolve_right (hplace w _)

theorem Ordered.move {place : LaneAt} (hs : Ordered start s)
    (hplace : ∀ w r, ¬ s.place.Showing w r) (hinv : Invariant start { s with place })
    (hitems : ∀ entry ∈ place.items, Found s entry.1 entry.2) (hreplaces : place.Replaces s.frames) :
    Ordered start { s with place } :=
  hs.aside hinv (Aside.refl hs.lane.plane.1) rfl (List.prefix_refl _) rfl (fun _ => Or.inl rfl)
    hs.pending hitems (fun w publication hmem => Or.inl (hs.shown hplace w publication hmem))
    hreplaces

theorem Ordered.loop {choice : Nat} {late : Bool} {now : String} (hs : Ordered start s)
    (hplace : ∀ ready w item at', s.place ≠ .planning ready w item at')
    (hinv : Invariant start t)
    (h : laneStep kernel bounds s choice late now s.place = some t) : Ordered start t := by
  have hshowing : ∀ w r, ¬ s.place.Showing w r := by
    intro w r hshowing
    unfold LaneAt.Showing at hshowing
    split at hshowing
    · exact hplace _ _ _ _ ‹_›
    · exact hshowing
  have haside : Aside start s.plane.shared s.plane.shared := Aside.refl hs.lane.plane.1
  have hitems := hs.items
  have hreplaces := hs.replaces
  cases hat : s.place with
  | planning => exact absurd hat (hplace _ _ _ _)
  | idle =>
    rw [hat] at h
    obtain rfl := Option.some.inj h
    exact hs.move hshowing hinv (by simp [LaneAt.items]) trivial
  | superseding rest =>
    rw [hat] at h
    rcases rest with _ | ⟨w, rest⟩
    · obtain rfl := Option.some.inj h
      exact hs.move hshowing hinv (by simp [LaneAt.items]) trivial
    · obtain ⟨⟨u, rest'⟩, -, rfl⟩ := Option.map_eq_some_iff.mp h
      apply hs.move hshowing hinv
      · split <;> simp [LaneAt.items]
      · split
        · obtain ⟨p, hp, hrevision⟩ := superseding_mem ‹_›
          have hshown := hs.shown hshowing u p hp
          rwa [hrevision] at hshown
        · trivial
  | retiring rest w replacement =>
    rw [hat] at h hreplaces
    obtain rfl := Option.some.inj h
    refine hs.aside hinv haside rfl (List.prefix_refl _) rfl (fun _ => Or.inl rfl) hs.pending
      (by simp [LaneAt.items]) (fun u p hmem => Or.inl ?_) hreplaces
    rcases mem_recordPublication hmem with hold | ⟨rfl, rfl⟩
    · exact hs.shown hshowing u p hold
    · exact hreplaces
  | rebroadcast rest w replacement =>
    rw [hat] at h
    obtain rfl := Option.some.inj h
    have hframes : s.frames <+: s.frames ++ [.fast w replacement] := List.prefix_append _ _
    exact hs.aside hinv haside rfl hframes rfl (fun _ => Or.inl rfl) hs.pending
      (by simp [LaneAt.items])
      (fun u p hmem => Or.inl ((hs.shown hshowing u p hmem).mono hframes)) trivial
  | scanning =>
    rw [hat] at h
    obtain rfl := Option.some.inj h
    exact hs.move hshowing hinv (by simp [LaneAt.items]) trivial
  | targeting rows scanned =>
    rw [hat] at h hitems
    rcases rows with _ | ⟨row, rows⟩
    · obtain rfl := Option.some.inj h
      exact hs.move hshowing hinv hitems trivial
    · obtain rfl := Option.some.inj h
      refine hs.move hshowing hinv (fun entry hentry => ?_) trivial
      rcases List.mem_append.mp hentry with hold | hnew
      · exact hitems entry hold
      · obtain ⟨hscan, hassigned⟩ := mem_discovered (Option.mem_toList.mp hnew)
        exact ⟨hassigned, fun hhook => by simp [hscan] at hhook⟩
  | queueing scanned =>
    rw [hat] at h hitems
    obtain rfl := Option.some.inj h
    obtain ⟨hpending, hqueued⟩ := enqueueAll_items (Q := Found s) (fun _ _ hf => hf.deferred)
      hs.pending hitems
    refine hs.aside hinv haside rfl (List.prefix_refl _) rfl (fun _ => Or.inl rfl) hpending
      (fun entry hentry => hqueued entry (List.mem_of_mem_filter hentry)) (fun w p hmem => Or.inl ?_)
      trivial
    dsimp only at hmem
    rw [enqueueAll_publications] at hmem
    exact hs.shown hshowing w p hmem
  | publishing ready =>
    rw [hat] at h hitems
    rcases ready with _ | ⟨entry, ready⟩
    · obtain rfl := Option.some.inj h
      exact hs.move hshowing hinv (by simp [LaneAt.items]) trivial
    · obtain ⟨⟨⟨w, item⟩, ready'⟩, hpick, rfl⟩ := Option.map_eq_some_iff.mp h
      obtain ⟨hmem, hrest⟩ := pick_mem hpick
      refine hs.move hshowing hinv (fun entry hentry => ?_) trivial
      rcases List.mem_cons.mp hentry with rfl | hold
      · exact hitems _ hmem
      · exact hitems entry (hrest hold)

theorem Ordered.publish {ready : List (String × PendingItem)} {w : String} {item : PendingItem}
    {late : Bool} {now : String} {place : PublishAt} (hs : Ordered start s)
    (hat : s.place = .planning ready w item place)
    (h : publishStep kernel bounds s ready w item late now place = t) : Ordered start t := by
  have hrelies := hs.lane.place
  have hitems := hs.items
  rw [hat] at hrelies hitems
  have hready : ∀ entry ∈ ready, Found s entry.1 entry.2 :=
    fun entry hentry => hitems entry (List.mem_cons_of_mem _ hentry)
  obtain ⟨hinv, haside⟩ := publishStep_invariant hs.lane.plane hrelies h
  subst h
  by_cases hbroadcast : ∃ publication, place = .broadcast publication
  · obtain ⟨publication, rfl⟩ := hbroadcast
    have hframes : s.frames <+: s.frames ++ [.fast w publication] := List.prefix_append _ _
    refine hs.aside hinv haside rfl hframes rfl (fun _ => Or.inl rfl) hs.pending hitems ?_ trivial
    intro u p hmem
    refine Or.inl ?_
    rcases hs.recorded u p hmem with hshown | hshowing
    · exact hshown.mono hframes
    · rw [hat] at hshowing
      obtain ⟨rfl, hr⟩ := hshowing
      exact ⟨publication, List.mem_append_right _ List.mem_cons_self, hr⟩
  · have hshowing : ∀ u r, ¬ s.place.Showing u r := by
      intro u r hshowing
      rw [hat] at hshowing
      unfold LaneAt.Showing at hshowing
      split at hshowing
      · rename_i hplace
        cases hplace
        exact hbroadcast ⟨_, rfl⟩
      · exact hshowing
    have hfront : s.frames <+: s.frames := List.prefix_refl _
    have hshown : ∀ u, ∀ p ∈ s.memory.publications.getD u [],
        Shown s.frames u p.workspaceRevision := hs.shown hshowing
    have howed : ∀ i, s.owed i = s.owed i ∨ s.owed i = none := fun _ => Or.inl rfl
    cases place with
    | broadcast publication => exact absurd ⟨publication, rfl⟩ hbroadcast
    | kernel plan exact =>
      exact hs.aside hinv haside rfl hfront rfl howed hs.pending hitems
        (fun u p hmem => Or.inl (hshown u p hmem)) trivial
    | record publication =>
      refine hs.aside hinv haside rfl hfront rfl howed hs.pending hitems (fun u p hmem => ?_)
        trivial
      rcases mem_recordPublication hmem with hold | ⟨rfl, rfl⟩
      · exact Or.inl (hshown u p hold)
      · exact Or.inr ⟨rfl, rfl⟩
    | forget revision =>
      exact hs.aside hinv haside rfl hfront rfl howed
        (fun u i hfound => hs.pending u i (Dict.of_getElem?_erase hfound)) hready
        (fun u p hmem => Or.inl (hshown u p hmem)) trivial
    | advance plan exact late =>
      simp only [publishStep] at hinv haside ⊢
      revert hinv haside
      rcases advanceStep kernel w plan exact late now s.plane.shared with ⟨db, _ | publication⟩
      · exact fun hinv haside => hs.aside hinv haside rfl hfront rfl howed hs.pending hready
          (fun u p hmem => Or.inl (hshown u p hmem)) trivial
      · exact fun hinv haside => hs.aside hinv haside rfl hfront rfl howed hs.pending hitems
          (fun u p hmem => Or.inl (hshown u p hmem)) trivial
    | epoch | scenario | operations | canonical | mark =>
      simp only [publishStep] at hinv haside ⊢
      revert hinv haside
      rcases prepareStep w item.epochId now s.plane.shared _ with ⟨db, _ | place'⟩
      · exact fun hinv haside => hs.aside hinv haside rfl hfront rfl howed hs.pending hready
          (fun u p hmem => Or.inl (hshown u p hmem)) trivial
      · exact fun hinv haside => hs.aside hinv haside rfl hfront rfl howed hs.pending hitems
          (fun u p hmem => Or.inl (hshown u p hmem)) trivial

theorem laneRaise_showing {w : String} {r : Nat} (h : laneRaise s s.place = some t) :
    ¬ s.place.Showing w r := by
  intro hshowing
  unfold LaneAt.Showing at hshowing
  split at hshowing
  · rename_i hplace
    simp [laneRaise, hplace] at h
  · exact hshowing

theorem systemStep_ordered {a : LaneEvent} (hs : Ordered start s)
    (h : systemStep kernel bounds s a = some t) : Ordered start t := by
  obtain ⟨hinv, -⟩ := systemStep_invariant hs.lane h
  cases a with
  | plane i event =>
    simp only [systemStep] at h
    split at h
    · simp at h
    · obtain ⟨plane, hplane, rfl⟩ := Option.map_eq_some_iff.mp h
      exact hs.plane hinv hplane
  | hook i =>
    obtain ⟨⟨w, e, revision⟩, howed, rfl⟩ := Option.map_eq_some_iff.mp h
    obtain ⟨hassigned, hmem⟩ := hs.owed i w e revision howed
    refine hs.aside hinv (Aside.refl hs.lane.plane.1) rfl (List.prefix_refl _) rfl ?_ ?_ hs.items ?_
      hs.replaces
    · intro j
      by_cases hj : j = i
      · subst hj
        exact Or.inr (Function.update_self _ _ _)
      · exact Or.inl (Function.update_of_ne hj _ _)
    · exact onEpochClosed_items hs.pending ⟨hassigned, fun _ => hmem⟩
    · intro u p hp
      dsimp only at hp
      rw [onEpochClosed_publications] at hp
      exact hs.recorded u p hp
  | exact action =>
    simp only [systemStep] at h
    split at h
    · obtain ⟨db, hdb, rfl⟩ := Option.map_eq_some_iff.mp h
      exact hs.aside hinv (exactAction_aside hs.lane.plane.1 ‹_› hdb) rfl (List.prefix_refl _) rfl
        (fun _ => Or.inl rfl) hs.pending hs.items hs.recorded hs.replaces
    · simp at h
  | lane choice late now =>
    by_cases hplanning : ∃ ready w item at', s.place = .planning ready w item at'
    · obtain ⟨ready, w, item, at', hat⟩ := hplanning
      simp only [systemStep, hat, laneStep, Option.some.injEq] at h
      exact hs.publish hat h
    · exact hs.loop (fun ready w item at' hat => hplanning ⟨ready, w, item, at', hat⟩) hinv h
  | laneRaise =>
    have hshowing : ∀ w r, ¬ s.place.Showing w r := fun w r => laneRaise_showing h
    have hitems := hs.items
    rcases laneRaise_eq h with rfl | ⟨ready, w, item, at', hat, rfl⟩
    · exact hs.move hshowing hinv (by simp [LaneAt.items]) trivial
    · rw [hat] at hitems
      exact hs.move hshowing hinv (fun entry hentry => hitems entry (List.mem_cons_of_mem _ hentry))
        trivial

theorem publishStep_frames {ready : List (String × PendingItem)} {w : String} {item : PendingItem}
    {late : Bool} {now : String} {place : PublishAt}
    (hplace : ∀ publication, place ≠ .broadcast publication) :
    (publishStep kernel bounds s ready w item late now place).frames = s.frames := by
  cases place with
  | broadcast publication => exact absurd rfl (hplace publication)
  | kernel | record | forget => rfl
  | advance plan exact late =>
    simp only [publishStep]
    rcases advanceStep kernel w plan exact late now s.plane.shared with ⟨db, _ | publication⟩ <;> rfl
  | epoch | scenario | operations | canonical | mark =>
    simp only [publishStep]
    rcases prepareStep w item.epochId now s.plane.shared _ with ⟨db, _ | place'⟩ <;> rfl

theorem laneStep_frames {place : LaneAt} {choice : Nat} {late : Bool} {now : String}
    (hplanning : ∀ ready w item at', place ≠ .planning ready w item at')
    (hrebroadcast : ∀ rest w replacement, place ≠ .rebroadcast rest w replacement)
    (h : laneStep kernel bounds s choice late now place = some t) : t.frames = s.frames := by
  cases place with
  | planning => exact absurd rfl (hplanning _ _ _ _)
  | rebroadcast => exact absurd rfl (hrebroadcast _ _ _)
  | superseding rest =>
    rcases rest with _ | ⟨w, rest⟩
    · obtain rfl := Option.some.inj h
      rfl
    · obtain ⟨_, -, rfl⟩ := Option.map_eq_some_iff.mp h
      rfl
  | targeting rows scanned =>
    rcases rows with _ | ⟨row, rows⟩ <;> obtain rfl := Option.some.inj h <;> rfl
  | publishing ready =>
    rcases ready with _ | ⟨entry, ready⟩
    · obtain rfl := Option.some.inj h
      rfl
    · obtain ⟨_, -, rfl⟩ := Option.map_eq_some_iff.mp h
      rfl
  | idle | retiring | scanning | queueing =>
    obtain rfl := Option.some.inj h
    rfl

theorem noted_canonicalFirst {i : Nat} {event : Event} {plane : Plane}
    (h : CanonicalFirst s.frames) : CanonicalFirst (s.noted i event plane).frames := by
  unfold System.noted
  split
  · split
    · exact canonicalFirst_canonical h
    · exact h
  · exact h
  · exact h
  · exact h

/-- A frame that the lane hands over finds its canonical frame exactly when the lane has not
overtaken the close pipeline. -/
theorem Ordered.announced_iff {ready : List (String × PendingItem)} {w : String}
    {item : PendingItem} {publication : FastPublication} (hs : Ordered start s)
    (hat : s.place = .planning ready w item (.broadcast publication)) :
    .canonical w publication.workspaceRevision ∈ s.frames ↔ (item.fromScan = true →
      ((∃ i, Committed w item.epochId (s.plane.threads i).activity) ∨
        (w, item.epochId) ∈ s.lost) →
      .canonical w publication.workspaceRevision ∈ s.frames) := by
  constructor
  · exact fun hmem _ _ => hmem
  · intro hwaits
    have hrelies := hs.lane.place
    have hitems := hs.items
    rw [hat] at hrelies hitems
    have hassigned : Assigned s.plane.shared w item.epochId publication.workspaceRevision := hrelies
    cases hscan : item.fromScan with
    | true =>
      rcases hs.announced w item.epochId _ hassigned with hmem | howed
      · exact hmem
      · exact hwaits hscan howed
    | false =>
      have hfound : Found s w item := hitems (w, item) List.mem_cons_self
      rw [hassigned.single hs.lane.plane.1.law hfound.assigned]
      exact hfound.announced hscan

theorem systemStep_canonicalFirst {a : LaneEvent} (hs : Ordered start s)
    (hfirst : CanonicalFirst s.frames) (h : systemStep kernel bounds s a = some t) :
    CanonicalFirst t.frames ↔ WaitsForBroadcast s a := by
  cases a with
  | plane i event =>
    refine iff_of_true ?_ fun _ _ _ _ _ _ _ ha => by simp at ha
    simp only [systemStep] at h
    split at h
    · simp at h
    · obtain ⟨plane, -, rfl⟩ := Option.map_eq_some_iff.mp h
      exact noted_canonicalFirst hfirst
  | hook i =>
    refine iff_of_true ?_ fun _ _ _ _ _ _ _ ha => by simp at ha
    obtain ⟨_, -, rfl⟩ := Option.map_eq_some_iff.mp h
    exact hfirst
  | exact action =>
    refine iff_of_true ?_ fun _ _ _ _ _ _ _ ha => by simp at ha
    simp only [systemStep] at h
    split at h
    · obtain ⟨db, -, rfl⟩ := Option.map_eq_some_iff.mp h
      exact hfirst
    · simp at h
  | laneRaise =>
    refine iff_of_true ?_ fun _ _ _ _ _ _ _ ha => by simp at ha
    rcases laneRaise_eq h with rfl | ⟨_, _, _, _, -, rfl⟩ <;> exact hfirst
  | lane choice late now =>
    cases hat : s.place with
    | planning ready w item place =>
      simp only [systemStep, hat, laneStep, Option.some.injEq] at h
      subst h
      by_cases hbroadcast : ∃ publication, place = .broadcast publication
      · obtain ⟨publication, rfl⟩ := hbroadcast
        refine (canonicalFirst_fast hfirst).trans ((hs.announced_iff hat).trans ?_)
        constructor
        · rintro hwaits _ _ _ _ _ _ _ - hat'
          rw [hat] at hat'
          cases hat'
          exact hwaits
        · exact fun hwaits => hwaits _ _ _ _ _ _ _ rfl hat
      · rw [publishStep_frames fun publication hplace => hbroadcast ⟨publication, hplace⟩]
        refine iff_of_true hfirst ?_
        intro _ _ _ _ _ _ publication _ hat'
        rw [hat] at hat'
        cases hat'
        exact absurd ⟨publication, rfl⟩ hbroadcast
    | rebroadcast rest w replacement =>
      have hreplaces := hs.replaces
      rw [hat] at hreplaces
      obtain ⟨publication, hmem, hrevision⟩ := hreplaces
      simp only [systemStep, hat, laneStep, Option.some.injEq] at h
      subst h
      refine iff_of_true ((canonicalFirst_fast hfirst).mpr (hrevision ▸ hfirst.announced hmem)) ?_
      intro _ _ _ _ _ _ _ _ hat'
      simp [hat] at hat'
    | idle | superseding | retiring | scanning | targeting | queueing | publishing =>
      rw [laneStep_frames (by simp [hat]) (by simp [hat]) h]
      refine iff_of_true hfirst ?_
      intro _ _ _ _ _ _ _ _ hat'
      simp [hat] at hat'

end Steps

/-! ## Runs -/

theorem ordered_fresh {s : System} (h : s.Fresh) : Ordered s.plane.shared s := by
  refine ⟨invariant_fresh h, ?_, ?_, ?_, ?_, ?_, ?_⟩
  · rintro w e r ⟨row, hrow, -⟩
    simp [epochs, h.plane.epochs] at hrow
  · simp [h.owed]
  · simp [h.memory]
  · simp [h.place, LaneAt.items]
  · simp [h.memory]
  · rw [h.place]
    trivial

/-- In a run no fast frame is handed over before the canonical frame of its revision exactly when
the lane hands over a scanned revision only after a broadcast of the epoch. -/
theorem canonical_before_fast {kernel : FastKernel} {bounds : Bounds} {start s : System}
    {events : List LaneEvent} (hstart : start.Fresh)
    (hrun : run (systemStep kernel bounds) start events = some s) :
    (∀ reached, Visits (systemStep kernel bounds) start events reached →
      CanonicalFirst reached.frames) ↔
    EachStep (systemStep kernel bounds) WaitsForBroadcast start events := by
  refine always_iff_eachStep (P := fun s : System => CanonicalFirst s.frames)
    (fun _ _ _ hI h => systemStep_ordered hI h)
    (fun _ _ _ hI hP h => systemStep_canonicalFirst hI hP h) (ordered_fresh hstart) ?_ hrun
  intro before after w publication heq
  simp [hstart.frames] at heq

/-! ### Two passes between a commit and its broadcast -/

/-- Thread 1 has committed epoch 0 and stands before its broadcast while the lane runs twice. -/
def overtakenBroadcast : List LaneEvent :=
  [.plane 0 (.append "w" [plantTree "a"] "t1"), .plane 1 (.drive "w" 0)] ++ planeSteps 1 6 ++
    laneSteps 26

def Frame.isFast : Frame → Bool
  | .fast _ _ => true
  | .canonical _ _ => false

theorem overtakenBroadcast_fast_first : ¬ ∀ (kernel : FastKernel) (bounds : Bounds)
    (start s : System) (events : List LaneEvent), start.Fresh →
      run (systemStep kernel bounds) start events = some s → CanonicalFirst s.frames := by
  intro h
  have hrun : (run (systemStep viewCacheKernel {}) freshSystem overtakenBroadcast).map
      (fun s => s.frames.map Frame.isFast) = some [true] := by decide
  obtain ⟨s, hs, hframes⟩ := Option.map_eq_some_iff.mp hrun
  have hfirst := h viewCacheKernel {} _ s _ freshSystem_fresh hs
  rcases hat : s.frames with _ | ⟨frame, frames⟩
  · simp [hat] at hframes
  · cases frame with
    | canonical w r => simp [hat, Frame.isFast] at hframes
    | fast w publication => simpa using hfirst [] frames w publication hat

theorem canonical_before_fast_overtaken :
    ∃ s, run (systemStep viewCacheKernel {}) freshSystem overtakenBroadcast = some s ∧
      ((∀ reached, Visits (systemStep viewCacheKernel {}) freshSystem overtakenBroadcast reached →
        CanonicalFirst reached.frames) ↔
      EachStep (systemStep viewCacheKernel {}) WaitsForBroadcast freshSystem overtakenBroadcast) := by
  have hrun : (run (systemStep viewCacheKernel {}) freshSystem overtakenBroadcast).isSome := by
    decide
  obtain ⟨s, hs⟩ := Option.isSome_iff_exists.mp hrun
  exact ⟨s, hs, canonical_before_fast freshSystem_fresh hs⟩

end Solweig.Lane
