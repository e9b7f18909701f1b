import Solweig.Epochs.Chain

/-!
# Terminal statuses

A status mark writes whatever the row holds by then. Which marks take a terminal status back, and
that nothing else does.
-/

namespace Solweig.Epochs

open Solweig.Lib Solweig.Realtime Solweig.Store

/-- Every epoch that is terminal in `a` has its status in `b`. -/
def Absorbs (a b : Database) : Prop :=
  ∀ w, ∀ row ∈ epochs a w, row.status.Terminal →
    ∃ row' ∈ epochs b w, row'.epochId = row.epochId ∧ row'.status = row.status

theorem Absorbs.refl (db : Database) : Absorbs db db := fun _ row hrow _ => ⟨row, hrow, rfl, rfl⟩

theorem Absorbs.trans {a b c : Database} (hab : Absorbs a b) (hbc : Absorbs b c) : Absorbs a c := by
  intro w row hrow hterminal
  obtain ⟨row', hrow', hid, hstatus⟩ := hab w row hrow hterminal
  obtain ⟨row'', hrow'', hid', hstatus'⟩ := hbc w row' hrow' (hstatus ▸ hterminal)
  exact ⟨row'', hrow'', hid'.trans hid, hstatus'.trans hstatus⟩

/-- A status mark that goes through finds its epoch not terminal, or with the status already. -/
def MarksLive (s : Plane) (a : Nat × Event) : Prop :=
  ∀ due now w e status revision, a.2 = .step due now →
    (s.threads a.1).activity.mark? = some (w, e, status, revision) →
    ∀ row, epoch? s.shared w e = some row → row.status.Terminal → row.status = status

section Effects

variable {start db db' : Database}

theorem appendSteps_absorbs {w : String} (h : Relation.ReflTransGen (AppendStep w) db db') :
    Absorbs db db' := by
  induction h with
  | refl => exact Absorbs.refl db
  | tail _ hstep ih =>
    obtain ⟨row, happ⟩ := hstep
    refine ih.trans fun u r hr _ => ?_
    obtain ⟨r', hr', hid, hstatus, -⟩ := happ.epoch_kept hr
    exact ⟨r', hr', hid, hstatus⟩

theorem Commit.absorbs {w now : String} {e : Nat} {families : Families} {baseline : Option Nat}
    {o : Except StoreError (Option CommittedEpoch)}
    (h : Commit w e families baseline now db o db') : Absorbs db db' := by
  cases h with
  | refused | missing | stored => exact Absorbs.refl db
  | restored => exact fun _ row hrow _ => ⟨row, hrow, rfl, rfl⟩
  | @assigned _ scenario =>
    intro u row hrow hterminal
    have hf := quiet_assign (scenario.sceneVersion + 1) now
    refine ⟨_, (mem_epochs_updateEpoch hf.workspaceId).mpr ⟨row, hrow, rfl⟩, ?_⟩
    split
    · simp [EpochRow.assign, hterminal]
    · exact ⟨rfl, rfl⟩

theorem effect_absorbs {activity : Activity} (h : Effect db activity db') (hlaw : LogLaw db)
    (hnone : activity.mark? = none) : Absorbs db db' := by
  cases h with
  | none => exact Absorbs.refl db
  | append w items now => exact appendSteps_absorbs (appendOperations_steps hlaw)
  | mark now hmark => simp [hnone] at hmark
  | commit now _ => exact Commit.absorbs commitEpochReduction_spec
  | advance now _ =>
    rcases advanceFastRevision_scenarios with ⟨-, hdb⟩ | ⟨_, -, -, hdb⟩ <;> rw [hdb]
    · exact Absorbs.refl db
    · exact fun _ row hrow _ => ⟨row, hrow, rfl, rfl⟩

theorem mark_absorbs (hlaw : LogLaw db) {w : String} {e : Nat} {status : EpochStatus}
    {revision : Option Nat} (now : String) :
    Absorbs db (updateEpoch w e (·.mark status revision now) db) ↔
      ∀ row, epoch? db w e = some row → row.status.Terminal → row.status = status := by
  have hmem := fun u row => @mem_epochs_updateEpoch db w e (·.mark status revision now)
    (fun _ => rfl) u row
  constructor
  · intro h row hread hterminal
    obtain ⟨hrow, rfl⟩ := epoch?_some hread
    obtain ⟨row', hrow', hid, hstatus⟩ := h w row hrow hterminal
    obtain ⟨r, hr, rfl⟩ := (hmem w row').mp hrow'
    have hsame : r = row := by
      refine (hlaw.partition w).epoch_unique hr hrow (Eq.trans ?_ hid)
      split <;> rfl
    subst hsame
    rw [if_pos ⟨rfl, rfl⟩] at hstatus
    exact hstatus.symm
  · intro h u row hrow hterminal
    refine ⟨_, (hmem u _).mpr ⟨row, hrow, rfl⟩, ?_⟩
    split
    · rename_i hhit
      obtain ⟨rfl, rfl⟩ := hhit
      exact ⟨rfl, (h row (epoch?_of_mem hlaw hrow) hterminal).symm⟩
    · exact ⟨rfl, rfl⟩

theorem proceed_mark {due : List Nat} {now : String} {tasks : List Task} {activity : Activity}
    {thread' : Thread} {w : String} {e : Nat} {status : EpochStatus} {revision : Option Nat}
    (h : proceed db due now tasks activity = some (db', thread'))
    (hmark : activity.mark? = some (w, e, status, revision)) :
    db' = updateEpoch w e (·.mark status revision now) db := by
  cases activity with
  | idle | consuming => simp [Activity.mark?] at hmark
  | closing w e place =>
    cases place <;> simp only [Activity.mark?, Option.some.injEq, Prod.mk.injEq, reduceCtorEq]
      at hmark
    obtain ⟨rfl, rfl, rfl, rfl⟩ := hmark
    simp only [proceed, Option.some.injEq, Prod.mk.injEq] at h
    exact h.1.symm
  | publishing w e place =>
    cases place <;> simp only [Activity.mark?, Option.some.injEq, Prod.mk.injEq, reduceCtorEq]
      at hmark
    obtain ⟨rfl, rfl, rfl, rfl⟩ := hmark
    simp only [proceed, Option.some.injEq, Prod.mk.injEq] at h
    exact h.1.symm
  | settling w rest =>
    rcases rest with _ | ⟨⟨e, revision⟩, rest⟩ <;>
      simp only [Activity.mark?, Option.some.injEq, Prod.mk.injEq, reduceCtorEq] at hmark
    obtain ⟨rfl, rfl, rfl, rfl⟩ := hmark
    simp only [proceed, Option.some.injEq, Prod.mk.injEq] at h
    exact h.1.symm

end Effects

theorem planeStep_absorbs {start : Database} {s t : Plane} {a : Nat × Event}
    (hs : Invariant start s) (h : planeStep s a = some t) :
    Absorbs s.shared t.shared ↔ MarksLive s a := by
  obtain ⟨hact, -⟩ := Threads.step_eq h
  have hlaw := hs.1.law
  rcases act_begin hact with ⟨due, now, hevent, hstep⟩ | ⟨hevent, _, -, heq⟩ | ⟨hfree, hbegin⟩
  · cases hmark : (s.threads a.1).activity.mark? with
    | none =>
      refine iff_of_true (effect_absorbs (proceed_effect hstep) hlaw hmark) ?_
      intro _ _ w e status revision _ hsome
      simp [hmark] at hsome
    | some mark =>
      obtain ⟨w, e, status, revision⟩ := mark
      rw [proceed_mark hstep hmark, mark_absorbs hlaw]
      constructor
      · rintro hall _ _ _ _ _ _ - hsome
        rw [hmark, Option.some.injEq, Prod.mk.injEq, Prod.mk.injEq, Prod.mk.injEq] at hsome
        obtain ⟨rfl, rfl, rfl, -⟩ := hsome
        exact hall
      · exact fun hall => hall due now w e status revision hevent hmark
  · obtain ⟨hdb, -⟩ := Prod.mk.inj heq
    refine iff_of_true (hdb ▸ Absorbs.refl _) ?_
    rintro _ _ _ _ _ _ hstep
    simp [hevent] at hstep
  · refine iff_of_true (effect_absorbs (act_effect hact) hlaw (by rw [hfree]; rfl)) ?_
    rintro _ _ _ _ _ _ - hmark
    rw [hfree] at hmark
    simp [Thread.free, Activity.mark?] at hmark

/-- In a run no terminal status is ever taken back exactly when each mark of the run finds its
epoch live. -/
theorem terminal_absorbing {start s : Plane} {events : List (Nat × Event)} (hstart : start.Fresh)
    (hrun : run planeStep start events = some s) :
    (∀ before middle after u v, events = before ++ middle ++ after →
      run planeStep start before = some u → run planeStep u middle = some v →
      Absorbs u.shared v.shared) ↔ EachStep planeStep MarksLive start events :=
  related_iff_eachStep (R := fun a b : Plane => Absorbs a.shared b.shared)
    (fun a => Absorbs.refl a.shared) (fun _ _ _ => Absorbs.trans)
    (fun _ _ _ hI h => (planeStep_invariant hI h).1) (fun _ _ _ hI h => planeStep_absorbs hI h)
    (invariant_fresh hstart) hrun

/-! ### The fast lane marks an epoch that the exact lane has settled -/

/-- Epoch 0 is committed, the fast lane has read it as `reducing`, the exact lane settles it. -/
def settledEpoch : List (Nat × Event) :=
  [(0, .append "w" [plantTree "a"] "t1"), (1, .drive "w" 0)] ++ steps 1 8 [] ++
    [(2, .publishFast "w" 0)] ++ steps 2 2 [] ++ [(3, .consume "w" 1)] ++ steps 3 2 []

def statusOf (s : Plane) (w : String) (e : Nat) : Option EpochStatus :=
  (epoch? s.shared w e).map (·.status)

theorem fastMark_takes_back : ¬ ∀ (start s t : Plane) (events more : List (Nat × Event)),
    start.Fresh → run planeStep start events = some s → run planeStep s more = some t →
      Absorbs s.shared t.shared := by
  intro h
  have hrun : ((run planeStep freshPlane settledEpoch).bind fun s =>
      (run planeStep s (steps 2 1 [])).map fun t => (statusOf s "w" 0, statusOf t "w" 0)) =
      some (some .exactTargeted, some .fastPlanned) := by decide
  obtain ⟨s, hs, hrest⟩ := Option.bind_eq_some_iff.mp hrun
  obtain ⟨t, ht, hview⟩ := Option.map_eq_some_iff.mp hrest
  rw [Prod.mk.injEq] at hview
  obtain ⟨row, hrow, hstatus⟩ := Option.map_eq_some_iff.mp hview.1
  obtain ⟨row', hrow', hstatus'⟩ := Option.map_eq_some_iff.mp hview.2
  obtain ⟨hmem, hid⟩ := epoch?_some hrow
  obtain ⟨found, hfound, hid', hkept⟩ := h _ _ _ _ _ freshPlane_fresh hs ht "w" row hmem
    (hstatus ▸ by decide)
  have hlaw := (plane_run freshPlane_fresh (by
    rw [run_append, hs, Option.bind_some, ht] :
    run planeStep freshPlane (settledEpoch ++ steps 2 1 []) = some t)).1.law
  have hread := epoch?_of_mem hlaw hfound
  rw [hid', hid, hrow', Option.some.injEq] at hread
  subst hread
  rw [hstatus, hstatus'] at hkept
  simp at hkept

theorem terminal_absorbing_settled : ∃ s, run planeStep freshPlane settledEpoch = some s ∧
    ((∀ before middle after u v, settledEpoch = before ++ middle ++ after →
      run planeStep freshPlane before = some u → run planeStep u middle = some v →
      Absorbs u.shared v.shared) ↔ EachStep planeStep MarksLive freshPlane settledEpoch) := by
  have hrun : (run planeStep freshPlane settledEpoch).isSome := by decide
  obtain ⟨s, hs⟩ := Option.isSome_iff_exists.mp hrun
  exact ⟨s, hs, terminal_absorbing freshPlane_fresh hs⟩

end Solweig.Epochs
