import Solweig.Lane.Sound

/-!
# What an exact fast frame covers

The class of a publication comes from the families of its own epoch, while the lane may have
jumped over older epochs. When no scientific operation is left uncovered below an exact frame.
-/

namespace Solweig.Lane

open Solweig.Lib Solweig.Realtime Solweig.Store Solweig.Epochs

/-! ## Coverage -/

/-- Anything but a selection of the view changes what is computed. -/
def Scientific (operation : OperationRow) : Prop := operation.sourceFamily ≠ outputView

/-- The scientific operations of epochs up to `revision` belong to epochs up to `exact`. -/
def Covered (db : Database) (w : String) (revision exact : Nat) : Prop :=
  ∀ e r, Assigned db w e r → r ≤ revision →
    ∀ operation ∈ operationsForEpoch db w e, Scientific operation → r ≤ exact

def FastExactCovered (s : System) : Prop :=
  ∀ w publication, (w, publication) ∈ s.published → publication.resultClass = .fastExact →
    Covered s.plane.shared w publication.workspaceRevision publication.exactRevision

def FastPlan.ViewOnly (plan : FastPlan) : Prop :=
  plan.families ≠ [] ∧ ∀ f ∈ plan.families, f = outputView

/-- The epochs below the plan that the exact lane has not reached are without scientific
operations. -/
def GapViewOnly (db : Database) (w : String) (exact : Nat) (plan : FastPlan) : Prop :=
  ∀ e r, Assigned db w e r → exact < r → r < plan.workspaceRevision →
    ∀ operation ∈ operationsForEpoch db w e, ¬ Scientific operation

/-- The gap below a view-only epoch that is published in time is view-only too. -/
def GapsViewOnly (s : System) (a : LaneEvent) : Prop :=
  ∀ choice late now ready w item plan exact, a = .lane choice late now →
    s.place = .planning ready w item (.advance plan exact false) → plan.ViewOnly →
    GapViewOnly s.plane.shared w (exactVersion s.plane.shared w) plan

section Coverage

variable {start db db' : Database} {w : String}

theorem covered_extends (h : Sound start db) (h' : Sound start db') (hext : Extends db db')
    {i revision exact : Nat} (hassigned : Assigned db w i revision) :
    Covered db' w revision exact ↔ Covered db w revision exact := by
  constructor
  · intro hcovered e r hr hle operation hoperation hscientific
    rw [← operations_kept h hext hr] at hoperation
    exact hcovered e r (hext.assigned w e r hr) hle operation hoperation hscientific
  · intro hcovered e r hr hle operation hoperation hscientific
    by_cases hold : Assigned db w e r
    · rw [operations_kept h hext hold] at hoperation
      exact hcovered e r hold hle operation hoperation hscientific
    · have := assigned_above h h' hext hr hold hassigned
      omega

/-- The default kernel calls a plan exact when its own families are views, or when the exact lane
has reached it. -/
theorem planResult_fastExact {plan : FastPlan} {late : Bool} {exact : Nat} :
    (planResult viewCacheKernel plan late exact).resultClass = .fastExact ↔
      plan.workspaceRevision ≤ exact ∨ (late = false ∧ plan.ViewOnly) := by
  unfold planResult FastKernelResult.covered
  split
  · exact iff_of_true rfl (Or.inl ‹_›)
  · rename_i hle
    cases late with
    | true => simp [downgraded, hle]
    | false =>
      by_cases hview : plan.ViewOnly
      · have hclass : classify plan = .fastExact := if_pos hview
        simp [viewCacheKernel, FastKernelResult.fenced, hclass, hview]
      · have hclass : classify plan = .visualPending := if_neg hview
        simp [viewCacheKernel, FastKernelResult.fenced, hclass, hview, hle]

theorem covered_viewOnly (h : Sound start db) {e exact : Nat} {plan : FastPlan}
    (hplan : Planned db w e plan) (hview : plan.ViewOnly) :
    Covered db w plan.workspaceRevision exact ↔ GapViewOnly db w exact plan := by
  constructor
  · intro hcovered i r hr hexact hlt operation hoperation hscientific
    have := hcovered i r hr hlt.le operation hoperation hscientific
    omega
  · intro hgap i r hr hle operation hoperation hscientific
    by_contra hexact
    rcases hle.lt_or_eq with hlt | rfl
    · exact hgap i r hr (Nat.not_le.mp hexact) hlt operation hoperation hscientific
    · obtain rfl := h.unique w i e _ hr hplan.assigned
      refine hscientific (hview.2 _ ?_)
      rw [hplan.families]
      exact List.mem_eraseDups.mpr (List.mem_map_of_mem hoperation)

theorem covered_publication (h : Sound start db) {e exact now : Nat} {late : Bool} {plan : FastPlan}
    (hplan : Planned db w e plan) (hobserved : exact ≤ now) :
    ((planResult viewCacheKernel plan late exact).resultClass = .fastExact →
      Covered db w plan.workspaceRevision now) ↔
    (late = false → plan.ViewOnly → GapViewOnly db w now plan) := by
  rw [planResult_fastExact]
  by_cases hreached : plan.workspaceRevision ≤ exact
  · refine iff_of_true (fun _ _ _ _ hle _ _ _ => by omega) ?_
    intro _ _ i r _ hexact hlt
    omega
  · constructor
    · intro hcovered hlate hview
      exact (covered_viewOnly h hplan hview).mp (hcovered (Or.inr ⟨hlate, hview⟩))
    · rintro hgap (hle | ⟨hlate, hview⟩)
      · exact absurd hle hreached
      · exact (covered_viewOnly h hplan hview).mpr (hgap hlate hview)

end Coverage

/-! ## Steps -/

/-- The invariant of the lane, and that what it has published had a revision. -/
structure Publishing (start : Database) (s : System) : Prop where
  lane : Invariant start s
  assigned : ∀ w publication, (w, publication) ∈ s.published →
    ∃ e, Assigned s.plane.shared w e publication.workspaceRevision

section Steps

variable {start : Database} {kernel : FastKernel} {bounds : Bounds} {s t : System}

theorem published_kept {a : LaneEvent}
    (hplace : ∀ choice late now ready w item plan exact late', a = .lane choice late now →
      s.place ≠ .planning ready w item (.advance plan exact late'))
    (h : systemStep kernel bounds s a = some t) : t.published = s.published := by
  cases a with
  | plane i event =>
    simp only [systemStep] at h
    split at h
    · simp at h
    · obtain ⟨plane, -, rfl⟩ := Option.map_eq_some_iff.mp h
      exact (noted_eq s i event plane).2.2.2
  | hook i =>
    obtain ⟨⟨w, e, revision⟩, -, rfl⟩ := Option.map_eq_some_iff.mp h
    rfl
  | exact action =>
    simp only [systemStep] at h
    split at h
    · obtain ⟨db, -, rfl⟩ := Option.map_eq_some_iff.mp h
      rfl
    · simp at h
  | lane choice late now =>
    by_cases hplanning : ∃ ready w item at', s.place = .planning ready w item at'
    · obtain ⟨ready, w, item, at', hat⟩ := hplanning
      simp only [systemStep, hat, laneStep, Option.some.injEq] at h
      subst h
      cases at' with
      | advance plan exact late' => exact absurd hat (hplace _ _ _ _ _ _ _ _ _ rfl)
      | kernel | record | broadcast | forget => rfl
      | epoch | scenario | operations | canonical | mark =>
        simp only [publishStep]
        rcases prepareStep w item.epochId now s.plane.shared _ with ⟨db, _ | place'⟩ <;> rfl
    · exact (laneStep_loop (fun ready w item at' hat => hplanning ⟨ready, w, item, at', hat⟩) h).2.1
  | laneRaise =>
    rcases laneRaise_eq h with rfl | ⟨ready, w, item, at', -, rfl⟩ <;> rfl

theorem advance_goes_through {choice : Nat} {late late' : Bool} {now : String}
    {ready : List (String × PendingItem)} {w : String} {item : PendingItem} {plan : FastPlan}
    {exact : Nat} (hs : Invariant start s)
    (hplace : s.place = .planning ready w item (.advance plan exact late'))
    (h : systemStep kernel bounds s (.lane choice late now) = some t) :
    ∃ advance : FastRevisionAdvance, advance.exactRevision = exactVersion s.plane.shared w ∧
      t.published = s.published ++
        [(w, publicationOf plan (planResult kernel plan late' exact) advance)] := by
  have hrelies := hs.place
  rw [hplace] at hrelies
  simp only [systemStep, hplace, laneStep, publishStep, Option.some.injEq] at h
  subst h
  rcases advanceStep_cases kernel w now plan exact late' s.plane.shared with
    ⟨row, hrow, -, heq⟩ | ⟨hstale, -⟩
  · rw [heq]
    exact ⟨_, (exactVersion_of_row hrow).symm, rfl⟩
  · obtain ⟨canon, hcanon, hrevision⟩ := hs.plane.1.assignedRow w _ _ hrelies.1.assigned
    obtain ⟨scenario, hscenario, -, hle⟩ := hs.plane.1.bounded hcanon
    have := hstale scenario hscenario
    omega

theorem systemStep_publishing {a : LaneEvent} (hs : Publishing start s)
    (h : systemStep kernel bounds s a = some t) : Publishing start t := by
  obtain ⟨hinv, hext, -⟩ := systemStep_invariant hs.lane h
  refine ⟨hinv, fun w publication hmem => ?_⟩
  by_cases hplace : ∃ choice late now ready w item plan exact late', a = .lane choice late now ∧
      s.place = .planning ready w item (.advance plan exact late')
  · obtain ⟨choice, late, now, ready, u, item, plan, exact, late', rfl, hat⟩ := hplace
    obtain ⟨advance, -, hpublished⟩ := advance_goes_through hs.lane hat h
    rw [hpublished, List.mem_append, List.mem_singleton] at hmem
    rcases hmem with hold | hnew
    · obtain ⟨e, he⟩ := hs.assigned w publication hold
      exact ⟨e, hext.assigned w e _ he⟩
    · obtain ⟨rfl, rfl⟩ := Prod.mk.inj hnew
      have hrelies := hs.lane.place
      rw [hat] at hrelies
      exact ⟨item.epochId, hext.assigned w _ _ hrelies.1.assigned⟩
  · rw [published_kept (fun c l n r u i p x l' ha hat =>
      hplace ⟨c, l, n, r, u, i, p, x, l', ha, hat⟩) h] at hmem
    obtain ⟨e, he⟩ := hs.assigned w publication hmem
    exact ⟨e, hext.assigned w e _ he⟩

/-- With the default kernel one step keeps the exact frames covered exactly when it meets the
condition. -/
theorem systemStep_fastExactCovered {a : LaneEvent} (hs : Publishing start s)
    (hcovered : FastExactCovered s) (h : systemStep viewCacheKernel bounds s a = some t) :
    FastExactCovered t ↔ GapsViewOnly s a := by
  obtain ⟨hinv, hext, -⟩ := systemStep_invariant hs.lane h
  have hsound := hs.lane.plane.1
  have hsound' := hinv.plane.1
  have hold : ∀ w publication, (w, publication) ∈ s.published →
      publication.resultClass = .fastExact →
      Covered t.plane.shared w publication.workspaceRevision publication.exactRevision := by
    intro w publication hmem hclass
    obtain ⟨e, he⟩ := hs.assigned w publication hmem
    exact (covered_extends hsound hsound' hext he).mpr (hcovered w publication hmem hclass)
  by_cases hplace : ∃ choice late now ready w item plan exact late', a = .lane choice late now ∧
      s.place = .planning ready w item (.advance plan exact late')
  · obtain ⟨choice, late, now, ready, w, item, plan, exact, late', rfl, hat⟩ := hplace
    obtain ⟨advance, hexact, hpublished⟩ := advance_goes_through hs.lane hat h
    have hrelies := hs.lane.place
    rw [hat] at hrelies
    obtain ⟨hplan, hobserved⟩ := hrelies
    have hextends : Covered t.plane.shared w plan.workspaceRevision advance.exactRevision ↔
        Covered s.plane.shared w plan.workspaceRevision advance.exactRevision :=
      covered_extends hsound hsound' hext hplan.assigned
    have hnew : ((planResult viewCacheKernel plan late' exact).resultClass = .fastExact →
        Covered s.plane.shared w plan.workspaceRevision advance.exactRevision) ↔
        (late' = false → plan.ViewOnly →
          GapViewOnly s.plane.shared w advance.exactRevision plan) :=
      covered_publication hsound hplan (hexact ▸ hobserved)
    have hmem : (w, publicationOf plan (planResult viewCacheKernel plan late' exact) advance) ∈
        t.published := by
      rw [hpublished]
      exact List.mem_append_right _ List.mem_cons_self
    constructor
    · rintro hall _ _ _ _ _ _ _ _ ⟨⟩ hat' hview
      rw [hat] at hat'
      cases hat'
      rw [← hexact]
      exact hnew.mp (fun hclass => hextends.mp (hall w _ hmem hclass)) rfl hview
    · intro hgaps u publication hmem hclass
      rw [hpublished, List.mem_append, List.mem_singleton] at hmem
      rcases hmem with hmem | hmem
      · exact hold u publication hmem hclass
      · obtain ⟨rfl, rfl⟩ := Prod.mk.inj hmem
        refine hextends.mpr (hnew.mpr ?_ hclass)
        rintro rfl hview
        rw [hexact]
        exact hgaps _ _ _ _ _ _ _ _ rfl hat hview
  · rw [FastExactCovered, published_kept (fun c l n r u i p x l' ha hat =>
      hplace ⟨c, l, n, r, u, i, p, x, l', ha, hat⟩) h]
    refine iff_of_true hold ?_
    intro c l n r u i p x ha hat
    exact absurd ⟨c, l, n, r, u, i, p, x, false, ha, hat⟩ hplace

end Steps

/-! ## Runs -/

theorem publishing_fresh {s : System} (h : s.Fresh) : Publishing s.plane.shared s :=
  ⟨invariant_fresh h, by simp [h.published]⟩

/-- In a run every exact fast frame covers the scientific operations below it exactly when each
view-only epoch that is published in time has a view-only gap below it. -/
theorem fast_exact_covered {bounds : Bounds} {start s : System} {events : List LaneEvent}
    (hstart : start.Fresh) (hrun : run (systemStep viewCacheKernel bounds) start events = some s) :
    (∀ reached, Visits (systemStep viewCacheKernel bounds) start events reached →
      FastExactCovered reached) ↔
    EachStep (systemStep viewCacheKernel bounds) GapsViewOnly start events := by
  refine always_iff_eachStep (fun _ _ _ hI h => systemStep_publishing hI h)
    (fun _ _ _ hI hP h => systemStep_fastExactCovered hI hP h) (publishing_fresh hstart) ?_ hrun
  intro w publication hmem
  simp [hstart.published] at hmem

/-! ### A view-only epoch after a planted tree -/

def selectView (id : String) : OperationItem where
  operationId := id
  actorId := "ann"
  clientSequence := none
  baseRevision := none
  sourceFamily := "output_view"
  entityId := none
  verb := "select"
  payload := .obj [("view", .str "utci")]
  receivedAt := "t0"

def freshSystem : System := { plane := freshPlane }

theorem freshSystem_fresh : freshSystem.Fresh :=
  ⟨freshPlane_fresh, rfl, rfl, fun _ => rfl, rfl, rfl, rfl⟩

def planeSteps (thread n : Nat) : List LaneEvent :=
  List.replicate n (.plane thread (.step [] "t"))

def laneSteps (n : Nat) : List LaneEvent := List.replicate n (.lane 0 false "t")

/-- A batch whose epoch is closed, broadcast and hooked up to the fast lane. -/
def closedEpoch (item : OperationItem) (epochId : Nat) : List LaneEvent :=
  [.plane 0 (.append "w" [item] "t1"), .plane 1 (.drive "w" epochId)] ++ planeSteps 1 8 ++ [.hook 1]

/-- The lane first runs after the second epoch, and jumps over the first. -/
def jumpedEpoch : List LaneEvent :=
  closedEpoch (plantTree "a") 0 ++ closedEpoch (selectView "b") 1 ++ laneSteps 14

/-- An exact frame above a scientific operation that the exact lane has not reached. -/
def System.Uncovered (s : System) : Prop :=
  ∃ p ∈ s.published, p.2.resultClass = .fastExact ∧
    ∃ row ∈ epochs s.plane.shared p.1, ∃ r ∈ row.workspaceRevision,
      r ≤ p.2.workspaceRevision ∧ p.2.exactRevision < r ∧
      ∃ operation ∈ operationsForEpoch s.plane.shared p.1 row.epochId,
        operation.sourceFamily ≠ outputView

instance (s : System) : Decidable s.Uncovered :=
  inferInstanceAs (Decidable (∃ p ∈ s.published, _ ∧ ∃ row ∈ epochs s.plane.shared p.1,
    ∃ r ∈ row.workspaceRevision, _ ∧ _ ∧
      ∃ operation ∈ operationsForEpoch s.plane.shared p.1 row.epochId, _))

theorem jumpedEpoch_uncovered : ¬ ∀ (bounds : Bounds) (start s : System) (events : List LaneEvent),
    start.Fresh → run (systemStep viewCacheKernel bounds) start events = some s →
      FastExactCovered s := by
  intro h
  have hrun : (run (systemStep viewCacheKernel {}) freshSystem jumpedEpoch).any
      (fun s => decide s.Uncovered) = true := by decide +kernel
  obtain ⟨s, hs, huncovered⟩ := (Option.any_eq_true _ _).mp hrun
  obtain ⟨p, hp, hclass, row, hrow, r, hr, hle, hlt, operation, hoperation, hscientific⟩ :=
    of_decide_eq_true huncovered
  have := h {} _ s _ freshSystem_fresh hs p.1 p.2 hp hclass row.epochId r ⟨row, hrow, rfl, hr⟩ hle
    operation hoperation hscientific
  omega

theorem fast_exact_covered_jumped :
    ∃ s, run (systemStep viewCacheKernel {}) freshSystem jumpedEpoch = some s ∧
      ((∀ reached, Visits (systemStep viewCacheKernel {}) freshSystem jumpedEpoch reached →
        FastExactCovered reached) ↔
      EachStep (systemStep viewCacheKernel {}) GapsViewOnly freshSystem jumpedEpoch) := by
  have hrun : (run (systemStep viewCacheKernel {}) freshSystem jumpedEpoch).isSome := by
    decide +kernel
  obtain ⟨s, hs⟩ := Option.isSome_iff_exists.mp hrun
  exact ⟨s, hs, fast_exact_covered freshSystem_fresh hs⟩

end Solweig.Lane
