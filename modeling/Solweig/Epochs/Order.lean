import Solweig.Epochs.Chain
import Solweig.Realtime.EpochBoundary

/-!
# Epoch order and revision order

A failed re-drive of a stranded epoch lets a younger one take the lower revision. When the two
orders agree, and what the latest canonical state is then.
-/

namespace Solweig.Epochs

open Solweig.Lib Solweig.Realtime Solweig.Store

/-! ## The order -/

def RevisionsInOrder (db : Database) : Prop :=
  ∀ w e e' r r', Assigned db w e r → Assigned db w e' r' → e < e' → r < r'

/-- A commit that gives an epoch its revision finds none on a younger epoch. -/
def CommitsInOrder (s : Plane) (a : Nat × Event) : Prop :=
  ∀ due now w e operations attempt expected families, a.2 = .step due now →
    (s.threads a.1).activity = .closing w e (.commit operations attempt expected families) →
    (∃ row, epoch? s.shared w e = some row ∧ row.workspaceRevision = none) →
    latestRevision s.shared w = expected →
    ∀ e' r, Assigned s.shared w e' r → e' ≤ e

section Effects

variable {start db db' : Database}

theorem commitEpochReduction_current {w now : String} {e expected : Nat} {families : Families}
    {row : EpochRow} {scenario : ScenarioRow} (hrow : epoch? db w e = some row)
    (hrevision : row.workspaceRevision = none) (hscenario : scenario? db w = some scenario)
    (hlatest : latestRevision db w = expected)
    (hfresh : ∀ r ∈ canonical db w, r.workspaceRevision ≠ scenario.sceneVersion + 1) :
    (commitEpochReduction w e families (some expected) now db).2 =
      assignedDb w e (scenario.sceneVersion + 1)
        { workspaceId := w, workspaceRevision := scenario.sceneVersion + 1, families,
          createdAt := now } now db := by
  have hok : commitEpochReduction w e families (some expected) now db =
      (.ok (some { workspaceRevision := scenario.sceneVersion + 1, firstTime := true }),
        assignedDb w e (scenario.sceneVersion + 1)
          { workspaceId := w, workspaceRevision := scenario.sceneVersion + 1, families,
            createdAt := now } now db) := by
    simp only [commitEpochReduction, Txn.atomically_ok, Txn.bind_ok, Txn.get_ok]
    refine ⟨db, db, ⟨rfl, rfl⟩, ?_⟩
    simp only [hrow, hrevision, assignRevision, Txn.bind_ok, Txn.get_ok]
    refine ⟨db, db, ⟨rfl, rfl⟩, ?_⟩
    simp only [hscenario, checkBaseline, insertCanonical, Txn.bind_ok, Txn.get_ok,
      Txn.refuseIf_ok, Txn.modify_ok, Txn.pure_ok]
    exact ⟨(), db, ⟨db, db, ⟨rfl, rfl⟩, by simpa using hlatest, rfl⟩, (), _,
      ⟨db, db, ⟨rfl, rfl⟩, (), db, ⟨by simpa using hfresh, rfl⟩, rfl⟩, (), _, rfl, (), _, rfl, trivial,
      rfl⟩
  rw [hok]

theorem revisionsInOrder_congr (h : ∀ w e r, Assigned db' w e r ↔ Assigned db w e r) :
    RevisionsInOrder db' ↔ RevisionsInOrder db := by
  simp only [RevisionsInOrder, h]

/-- A new revision is above all others of its workspace, so only a younger epoch that carries one
is out of order. -/
theorem Sound.assign_inOrder (h : Sound start db) {w now : String} {e : Nat}
    {scenario : ScenarioRow} {row : CanonicalRow} (hscenario : scenario? db w = some scenario)
    (hfound : ∃ r ∈ epochs db w, r.epochId = e ∧ r.workspaceRevision = none)
    (horder : RevisionsInOrder db) :
    RevisionsInOrder (assignedDb w e (scenario.sceneVersion + 1) row now db) ↔
      ∀ e' r, Assigned db w e' r → e' ≤ e := by
  have hassigned := fun u i r =>
    @assigned_assignedDb db w e (scenario.sceneVersion + 1) row now hfound h.law u i r
  have hlow : ∀ i r, Assigned db w i r → r ≤ scenario.sceneVersion := by
    intro i r ha
    obtain ⟨c, hc, rfl⟩ := h.assignedRow w i r ha
    obtain ⟨s, hs, -, hle⟩ := h.bounded hc
    obtain rfl := Option.some.inj (hscenario.symm.trans hs)
    exact hle
  constructor
  · intro hnew e' r ha
    by_contra hlt
    have hafter := hnew w e e' (scenario.sceneVersion + 1) r
      ((hassigned w e _).mpr (Or.inr ⟨rfl, rfl, rfl⟩)) ((hassigned w e' r).mpr (Or.inl ha))
      (by omega)
    have := hlow e' r ha
    omega
  · intro hyoung u i i' r r' ha ha' hlt
    rcases (hassigned u i r).mp ha with hold | ⟨rfl, rfl, rfl⟩ <;>
      rcases (hassigned u i' r').mp ha' with hold' | ⟨hu', rfl, rfl⟩
    · exact horder u i i' r r' hold hold' hlt
    · subst hu'
      have := hlow i r hold
      omega
    · have := hyoung i' r' hold'
      omega
    · omega

theorem Sound.commit_inOrder (h : Sound start db) {w : String} {e expected : Nat}
    (families : Families) (now : String) (horder : RevisionsInOrder db) :
    RevisionsInOrder (commitEpochReduction w e families (some expected) now db).2 ↔
      ((∃ row, epoch? db w e = some row ∧ row.workspaceRevision = none) →
        latestRevision db w = expected → ∀ e' r, Assigned db w e' r → e' ≤ e) := by
  by_cases hcurrent : (∃ row, epoch? db w e = some row ∧ row.workspaceRevision = none) ∧
      latestRevision db w = expected ∧ (scenario? db w).isSome
  · obtain ⟨⟨row, hrow, hrevision⟩, hlatest, hscenario⟩ := hcurrent
    obtain ⟨scenario, hscenario⟩ := Option.isSome_iff_exists.mp hscenario
    obtain ⟨hmem, hid⟩ := epoch?_some hrow
    rw [commitEpochReduction_current hrow hrevision hscenario hlatest,
      h.assign_inOrder hscenario ⟨row, hmem, hid, hrevision⟩ horder]
    · exact ⟨fun hall _ _ => hall, fun hall => hall ⟨row, hrow, hrevision⟩ hlatest⟩
    · intro c hc hrev
      obtain ⟨s, hs, -, hle⟩ := h.bounded hc
      obtain rfl := Option.some.inj (hscenario.symm.trans hs)
      omega
  · have hspec : Commit w e families (some expected) now db _ _ := commitEpochReduction_spec
    generalize (commitEpochReduction w e families (some expected) now db).2 = db' at hspec ⊢
    generalize (commitEpochReduction w e families (some expected) now db).1 = o at hspec
    refine iff_of_true ?_ fun hnone hlatest e' r ha => ?_
    · cases hspec with
      | refused | missing | stored => exact horder
      | restored => exact (revisionsInOrder_congr fun _ _ _ => Iff.rfl).mpr horder
      | assigned hrow hrevision hscenario hbaseline =>
        exact absurd ⟨⟨_, hrow, hrevision⟩, hbaseline expected rfl,
          Option.isSome_iff_exists.mpr ⟨_, hscenario⟩⟩ hcurrent
    · obtain ⟨c, hc, -⟩ := h.assignedRow w e' r ha
      obtain ⟨scenario, hscenario, -⟩ := h.bounded hc
      exact absurd ⟨hnone, hlatest, Option.isSome_iff_exists.mpr ⟨scenario, hscenario⟩⟩ hcurrent

end Effects

theorem effect_assigned {start db db' : Database} {activity : Activity}
    (heffect : Effect db activity db') (h : Sound start db) (hrelies : activity.Relies db)
    (hplace : ∀ w e operations attempt expected families,
      activity ≠ .closing w e (.commit operations attempt expected families)) (u : String)
    (i r : Nat) : Assigned db' u i r ↔ Assigned db u i r := by
  cases heffect with
  | none => rfl
  | append w items now =>
    obtain ⟨hext, hback, -⟩ := appendSteps_extends (appendOperations_steps h.law) h.law
    exact ⟨hback u i r, hext.assigned u i r⟩
  | mark now hmark =>
    refine h.mark_assigned _ now ?_ u i r
    exact mark_revision hmark hrelies
  | commit now hcommit => exact absurd hcommit (hplace _ _ _ _ _ _)
  | advance now _ =>
    rcases advanceFastRevision_scenarios with ⟨-, hdb⟩ | ⟨_, -, -, hdb⟩ <;> rw [hdb]
    rfl

theorem planeStep_inOrder {start : Database} {s t : Plane} {a : Nat × Event}
    (hs : Invariant start s) (horder : RevisionsInOrder s.shared) (h : planeStep s a = some t) :
    RevisionsInOrder t.shared ↔ CommitsInOrder s a := by
  obtain ⟨hact, -⟩ := Threads.step_eq h
  have hsound := hs.1
  have hrelies := hs.2 a.1
  have hother : (∀ w e operations attempt expected families,
      (s.threads a.1).activity ≠ .closing w e (.commit operations attempt expected families)) →
      (RevisionsInOrder t.shared ↔ CommitsInOrder s a) := by
    intro hplace
    have hsame := effect_assigned (act_effect hact) hsound hrelies hplace
    refine iff_of_true ((revisionsInOrder_congr hsame).mpr horder) ?_
    intro due now w e operations attempt expected families _ hactivity
    exact absurd hactivity (hplace w e operations attempt expected families)
  rcases act_begin hact with ⟨due, now, hevent, hstep⟩ | ⟨hevent, _, -, heq⟩ | ⟨hfree, -⟩
  · cases hactivity : (s.threads a.1).activity with
    | idle | publishing | consuming | settling => exact hother (by simp [hactivity])
    | closing w e place =>
      cases place with
      | start | mark | reread | load | fold | confirm | publish => exact hother (by simp [hactivity])
      | commit operations attempt expected families =>
        rw [hactivity] at hstep
        simp only [proceed, closeStep_commit, Option.some.injEq, Prod.mk.injEq] at hstep
        rw [← hstep.1, hsound.commit_inOrder families now horder]
        constructor
        · intro hall due' now' w' e' operations' attempt' expected' families' _ hactivity'
          rw [hactivity] at hactivity'
          cases hactivity'
          exact hall
        · exact fun hall => hall due now w e operations attempt expected families hevent hactivity
  · obtain ⟨hdb, -⟩ := Prod.mk.inj heq
    refine iff_of_true (hdb ▸ horder) ?_
    intro due now w e operations attempt expected families hstep
    simp [hevent] at hstep
  · exact hother (by simp [hfree, Thread.free])

theorem revisions_in_order {start s : Plane} {events : List (Nat × Event)} (hstart : start.Fresh)
    (hrun : run planeStep start events = some s) :
    (∀ reached, Visits planeStep start events reached → RevisionsInOrder reached.shared) ↔
      EachStep planeStep CommitsInOrder start events := by
  refine always_iff_eachStep (P := fun s : Plane => RevisionsInOrder s.shared)
    (fun _ _ _ hI h => (planeStep_invariant hI h).1)
    (fun _ _ _ hI hP h => planeStep_inOrder hI hP h) (invariant_fresh hstart) ?_ hrun
  rintro w e e' r r' ⟨row, hrow, -⟩
  simp [epochs, hstart.epochs] at hrow

end Solweig.Epochs
