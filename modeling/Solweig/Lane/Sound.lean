import Solweig.Epochs.Order
import Solweig.Lane.FastLane

/-!
# The lane keeps the store sound

What the lane and the exact publications write, what the lane relies on between two of its store
calls, and that no other step breaks it.
-/

namespace Solweig.Lane

open Solweig.Lib Solweig.Realtime Solweig.Store Solweig.Epochs

/-! ## Exact revisions only grow -/

def exactVersion (db : Database) (w : String) : Nat :=
  ((scenario? db w).map (·.exactResultVersion)).getD 0

def ExactGrows (db db' : Database) : Prop := ∀ w, exactVersion db w ≤ exactVersion db' w

section Store

variable {start db db' : Database} {w now : String}

theorem ExactGrows.refl (db : Database) : ExactGrows db db := fun _ => le_refl _

theorem exactVersion_of_row {row : ScenarioRow} (h : scenario? db w = some row) :
    exactVersion db w = row.exactResultVersion := by
  unfold exactVersion
  rw [h, Option.map_some, Option.getD_some]

theorem exactGrows_congr (h : db'.scenarios = db.scenarios) : ExactGrows db db' := by
  intro w
  unfold exactVersion
  rw [scenario?_congr h]

theorem exactGrows_update {row : ScenarioRow} {id : String} {f : ScenarioRow → ScenarioRow}
    (hrow : scenario? db id = some row)
    (hdb : db'.scenarios = (updateScenario id f db).scenarios)
    (hid : ∀ r, (f r).scenarioId = r.scenarioId)
    (hf : row.exactResultVersion ≤ (f row).exactResultVersion) : ExactGrows db db' := by
  intro w
  unfold exactVersion
  rw [scenario?_congr hdb, scenario?_updateScenario hid]
  split
  · subst w
    rw [hrow]
    exact hf
  · exact le_refl _

theorem appendOperations_scenarios (hlaw : LogLaw db) (items : List OperationItem) :
    (appendOperations w items now db).2.scenarios = db.scenarios := by
  have hsteps : Relation.ReflTransGen (AppendStep w) db (appendOperations w items now db).2 :=
    appendOperations_steps hlaw
  generalize (appendOperations w items now db).2 = db' at hsteps ⊢
  induction hsteps with
  | refl => rfl
  | tail _ hstep ih =>
    obtain ⟨row, happ⟩ := hstep
    rw [← ih, ← happ.rest]

theorem effect_exactGrows {activity : Activity} (heffect : Effect db activity db')
    (hlaw : LogLaw db) : ExactGrows db db' := by
  cases heffect with
  | none => exact ExactGrows.refl db
  | append w items now => exact exactGrows_congr (appendOperations_scenarios hlaw items)
  | mark => exact exactGrows_congr rfl
  | commit =>
    rcases commitEpochReduction_spec.scenarios with hdb | ⟨row, hrow, hdb⟩
    · exact exactGrows_congr hdb
    · exact exactGrows_update hrow hdb (fun _ => rfl) (le_refl _)
  | advance =>
    rcases advanceFastRevision_scenarios with ⟨-, hdb⟩ | ⟨row, hrow, -, hdb⟩
    · exact exactGrows_congr (congrArg Database.scenarios hdb)
    · exact exactGrows_update hrow (congrArg Database.scenarios hdb) (fun _ => rfl) (le_refl _)

/-- A publication that is not stale is let in, with the exact revision that the store has then. -/
theorem advanceFastRevision_current {row : ScenarioRow} {revision observed : Nat}
    (hrow : scenario? db w = some row) (hle : revision ≤ row.sceneVersion) :
    advanceFastRevision w revision observed now db =
      (.ok (some {
        revision
        fastRevision := (row.advance revision observed now).fastRevision
        exactRevision := row.exactResultVersion }),
      updateScenario w (·.advance revision observed now) db) := by
  simp [advanceFastRevision, Txn.atomically, bind, Txn.andThen, Txn.get, hrow, pure, Txn.ret,
    Txn.modify, Nat.not_lt.mpr hle]

/-! ## Exact publications -/

/-- A write beside the commits: it keeps the store sound and assigns no revision. -/
structure Aside (start db db' : Database) : Prop where
  ext : Extends db db'
  sound : Sound start db'
  exact : ExactGrows db db'
  assigned : ∀ w e r, Assigned db' w e r → Assigned db w e r

theorem Aside.refl (h : Sound start db) : Aside start db db :=
  ⟨Extends.refl db, h, ExactGrows.refl db, fun _ _ _ h => h⟩

/-- The tables of the epoch plane. -/
def planeTables (db : Database) : List OperationRow × List EpochRow × List CanonicalRow :=
  (db.operations, db.epochs, db.canonical)

theorem aside_of_tables (h : Sound start db) (htables : planeTables db' = planeTables db)
    (hversion : ∀ w, version? db' w = version? db w) (hexact : ExactGrows db db') :
    Aside start db db' := by
  unfold planeTables at htables
  rw [Prod.mk.injEq, Prod.mk.injEq] at htables
  obtain ⟨ho, he, hc⟩ := htables
  have hepochs : ∀ w, epochs db' w = epochs db w := fun w => by rw [epochs, he, epochs]
  have hcanonical : ∀ w, canonical db' w = canonical db w := fun w => by
    rw [canonical, hc, canonical]
  have hassigned : ∀ w e r, Assigned db' w e r ↔ Assigned db w e r := fun w e r => by
    rw [Assigned, hepochs, Assigned]
  have hext : Extends db db' := by
    refine ⟨grows_congr ho he (Grows.refl db), ?_, fun w e r => (hassigned w e r).mpr, ?_⟩
    · intro w e hknown
      rwa [Epochs.Known, hepochs]
    · exact fun w => hcanonical w ▸ List.prefix_refl _
  have hback := fun w e r => (hassigned w e r).mp
  exact ⟨hext, h.congr (logLaw_congr ho he h.law) hext hback hcanonical hversion, hexact, hback⟩

theorem keeps_requireRunning {γ : Type} {view : Database → γ} (jobId : Option String) :
    Txn.Keeps view (requireRunning jobId) := by
  cases jobId with
  | none => exact Txn.keeps_pure ()
  | some id => exact Txn.keeps_get.bind fun _ => Txn.keeps_refuseIf

theorem keeps_publishResult (scenarioId : String) (sceneVersion : Nat) (checksum : String)
    (exact : Bool) (jobId : Option String) (acked : Option Nat) (now : String) :
    Txn.Keeps planeTables (publishResult scenarioId sceneVersion checksum exact jobId acked now) := by
  unfold publishResult publishResultLocked requireScenario
  refine Txn.Keeps.atomically ((keeps_requireRunning jobId).bind fun _ => ?_)
  refine (Txn.keeps_get.bind fun _ => Txn.keeps_require).bind fun scenario => ?_
  refine Txn.keeps_refuseIf.bind fun _ => Txn.keeps_get.bind fun _ => ?_
  refine Txn.keeps_refuseIf.bind fun _ => Txn.Keeps.bind ?_ fun _ => ?_
  · exact Txn.keeps_modify fun _ => rfl
  split
  · exact Txn.keeps_modify fun _ => rfl
  · exact Txn.keeps_pure ()

theorem publishResult_aside {scenarioId checksum : String} {sceneVersion : Nat} {exact : Bool}
    {jobId : Option String} {acked : Option Nat} (h : Sound start db) :
    Aside start db
      (publishResult scenarioId sceneVersion checksum exact jobId acked now db).2 := by
  have htables := keeps_publishResult scenarioId sceneVersion checksum exact jobId acked now db
  rcases publishResult_scenarios with ⟨row, hsettles, hdb⟩ | ⟨-, hdb⟩
  · refine aside_of_tables h htables (fun w => ?_)
      (exactGrows_update hsettles.found hdb (fun _ => rfl) hsettles.newest)
    unfold version?
    rw [scenario?_congr hdb, scenario?_updateScenario]
    · split
      · rw [Option.map_map]
        rfl
      · rfl
    · exact fun _ => rfl
  · refine aside_of_tables h htables (fun w => ?_) (exactGrows_congr hdb)
    unfold version?
    rw [scenario?_congr hdb]

theorem exactAction_aside {action : RevisionAction} (h : Sound start db)
    (haction : isExactPublication action = true) (hstep : revisionStep db action = some db') :
    Aside start db db' := by
  cases action <;> simp only [isExactPublication, Bool.false_eq_true] at haction
  case publishResult =>
    obtain rfl := Option.some.inj hstep
    exact publishResult_aside h
  case republishResultAtVersion source _ _ _ _ _ =>
    obtain rfl := Option.some.inj hstep
    cases source with
    | none => exact Aside.refl h
    | some row => exact publishResult_aside h
  all_goals
    have hdb := Option.some.inj hstep
    have hscenarios : db'.scenarios = db.scenarios := by rw [← hdb]; rfl
    have htables : planeTables db' = planeTables db := by rw [← hdb]; rfl
    refine aside_of_tables h htables (fun w => ?_) (exactGrows_congr hscenarios)
    rw [version?, scenario?_congr hscenarios, ← version?]

/-! ## What the lane relies on -/

/-- The plan is one of the operations of its epoch, which carries the revision. -/
structure Planned (db : Database) (w : String) (e : Nat) (plan : FastPlan) : Prop where
  epoch : plan.epochId = e
  assigned : Assigned db w e plan.workspaceRevision
  families : plan.families = ((operationsForEpoch db w e).map (·.sourceFamily)).eraseDups

def PublishAt.Relies (db : Database) (w : String) (e : Nat) : PublishAt → Prop
  | .epoch => True
  | .scenario _ revision => Assigned db w e revision
  | .operations _ revision exact => Assigned db w e revision ∧ exact ≤ exactVersion db w
  | .canonical _ revision exact ops =>
    Assigned db w e revision ∧ exact ≤ exactVersion db w ∧ operationsForEpoch db w e = ops
  | .mark plan exact => Planned db w e plan ∧ exact ≤ exactVersion db w
  | .kernel plan exact => Planned db w e plan ∧ exact ≤ exactVersion db w
  | .advance plan exact _ => Planned db w e plan ∧ exact ≤ exactVersion db w
  | .record publication => Assigned db w e publication.workspaceRevision
  | .broadcast publication => Assigned db w e publication.workspaceRevision
  | .forget _ => True

def LaneAt.Relies (db : Database) : LaneAt → Prop
  | .planning _ w item place => place.Relies db w item.epochId
  | _ => True

theorem operations_kept (h : Sound start db) (hext : Extends db db') {w : String} {e r : Nat}
    (ha : Assigned db w e r) : operationsForEpoch db' w e = operationsForEpoch db w e :=
  (hext.grows.sealed w e (h.assignedSealed w e r ha)).2

theorem Planned.mono (h : Sound start db) (hext : Extends db db') {w : String} {e : Nat}
    {plan : FastPlan} (hplan : Planned db w e plan) : Planned db' w e plan where
  epoch := hplan.epoch
  assigned := hext.assigned w e _ hplan.assigned
  families := by rw [operations_kept h hext hplan.assigned, hplan.families]

theorem PublishAt.Relies.mono (h : Sound start db) (hext : Extends db db')
    (hexact : ExactGrows db db') {w : String} {e : Nat} {place : PublishAt}
    (hrelies : place.Relies db w e) : place.Relies db' w e := by
  cases place with
  | epoch | forget => trivial
  | scenario row revision => exact hext.assigned w e revision hrelies
  | record publication | broadcast publication => exact hext.assigned w e _ hrelies
  | operations =>
    exact ⟨hext.assigned w e _ hrelies.1, hrelies.2.trans (hexact w)⟩
  | canonical =>
    obtain ⟨hassigned, hle, hoperations⟩ := hrelies
    exact ⟨hext.assigned w e _ hassigned, hle.trans (hexact w),
      (operations_kept h hext hassigned).trans hoperations⟩
  | mark | kernel | advance =>
    exact ⟨hrelies.1.mono h hext, hrelies.2.trans (hexact w)⟩

theorem LaneAt.Relies.mono (h : Sound start db) (hext : Extends db db')
    (hexact : ExactGrows db db') {place : LaneAt} (hrelies : place.Relies db) :
    place.Relies db' := by
  cases place with
  | planning ready w item place =>
    have hplace : place.Relies db w item.epochId := hrelies
    exact hplace.mono h hext hexact
  | _ => trivial

end Store

/-! ## Steps -/

/-- The store, and what the lane relies on. -/
structure Invariant (start : Database) (s : System) : Prop where
  plane : Epochs.Invariant start s.plane
  place : s.place.Relies s.plane.shared

section Steps

variable {start : Database} {kernel : FastKernel} {bounds : Bounds} {s t : System}

theorem invariant_write (hs : Epochs.Invariant start s.plane) {db : Database}
    (haside : Aside start s.plane.shared db) : Epochs.Invariant start (s.write db).plane :=
  ⟨haside.sound, fun i => (hs.2 i).mono haside.ext⟩

theorem pick_mem {α : Type} {choice : Nat} {entries rest : List α} {entry : α}
    (h : pick choice entries = some (entry, rest)) : entry ∈ entries ∧ rest ⊆ entries := by
  obtain ⟨found, hfound, heq⟩ := Option.map_eq_some_iff.mp h
  obtain ⟨rfl, rfl⟩ := Prod.mk.inj heq
  exact ⟨List.mem_of_getElem? hfound, List.eraseIdx_subset⟩

theorem laneStep_loop {place : LaneAt} {choice : Nat} {late : Bool} {now : String}
    (hplace : ∀ ready w item at', place ≠ .planning ready w item at')
    (h : laneStep kernel bounds s choice late now place = some t) :
    t.plane = s.plane ∧ t.published = s.published ∧ ∀ db, t.place.Relies db := by
  cases place with
  | planning => exact absurd rfl (hplace _ _ _ _)
  | superseding rest =>
    rcases rest with _ | ⟨w, rest⟩
    · obtain rfl := Option.some.inj h
      exact ⟨rfl, rfl, fun _ => trivial⟩
    · obtain ⟨⟨w', rest'⟩, -, rfl⟩ := Option.map_eq_some_iff.mp h
      refine ⟨rfl, rfl, fun db => ?_⟩
      dsimp only
      split <;> trivial
  | targeting rows scanned =>
    rcases rows with _ | ⟨row, rows⟩ <;> obtain rfl := Option.some.inj h <;>
      exact ⟨rfl, rfl, fun _ => trivial⟩
  | publishing ready =>
    rcases ready with _ | ⟨entry, ready⟩
    · obtain rfl := Option.some.inj h
      exact ⟨rfl, rfl, fun _ => trivial⟩
    · obtain ⟨⟨⟨w, item⟩, ready'⟩, -, rfl⟩ := Option.map_eq_some_iff.mp h
      exact ⟨rfl, rfl, fun db => show PublishAt.epoch.Relies db w item.epochId from trivial⟩
  | idle | retiring | rebroadcast | scanning | queueing =>
    obtain rfl := Option.some.inj h
    exact ⟨rfl, rfl, fun _ => trivial⟩

theorem prepareStep_aside {db : Database} {w : String} (now : String) {e : Nat} {place : PublishAt}
    (h : Sound start db) (hrelies : place.Relies db w e) :
    Aside start db (prepareStep w e now db place).1 ∧
      ∀ place', (prepareStep w e now db place).2 = some place' →
        place'.Relies (prepareStep w e now db place).1 w e := by
  cases place with
  | mark plan exact =>
    have hassigned : ∀ r, some plan.workspaceRevision = some r → Assigned db w e r := by
      rintro _ ⟨⟩
      exact hrelies.1.assigned
    obtain ⟨hext, hsound⟩ := h.mark now (by decide : EpochStatus.fastPlanned ≠ .opened) hassigned
    refine ⟨⟨hext, hsound, exactGrows_congr rfl, fun u i r =>
      (h.mark_assigned .fastPlanned now hassigned u i r).mp⟩, fun place' hplace' => ?_⟩
    obtain rfl := Option.some.inj hplace'
    have hkernel : (PublishAt.kernel plan exact).Relies db w e := hrelies
    exact hkernel.mono h hext (exactGrows_congr rfl)
  | epoch =>
    refine ⟨Aside.refl h, fun place' hplace' => ?_⟩
    obtain ⟨row, hrow, hplace'⟩ := Option.bind_eq_some_iff.mp hplace'
    obtain ⟨revision, hrevision, rfl⟩ := Option.map_eq_some_iff.mp hplace'
    exact assigned_of_read hrow hrevision
  | scenario row revision =>
    refine ⟨Aside.refl h, fun place' hplace' => ?_⟩
    obtain ⟨scenario, hscenario, hplace'⟩ := Option.bind_eq_some_iff.mp hplace'
    split at hplace'
    · simp at hplace'
    · obtain rfl := Option.some.inj hplace'
      exact ⟨hrelies, (exactVersion_of_row hscenario).ge⟩
  | operations row revision exact =>
    refine ⟨Aside.refl h, fun place' hplace' => ?_⟩
    obtain rfl := Option.some.inj hplace'
    exact ⟨hrelies.1, hrelies.2, rfl⟩
  | canonical row revision exact operations =>
    refine ⟨Aside.refl h, fun place' hplace' => ?_⟩
    obtain ⟨hassigned, hle, rfl⟩ := hrelies
    have hplan : Planned db w e (planOf db w e revision (operationsForEpoch db w e)) :=
      ⟨rfl, hassigned, rfl⟩
    obtain rfl := Option.some.inj hplace'
    split <;> exact ⟨hplan, hle⟩
  | kernel | advance | record | broadcast | forget =>
    refine ⟨Aside.refl h, fun place' hplace' => ?_⟩
    obtain rfl := Option.some.inj hplace'
    exact hrelies

theorem advanceStep_cases (kernel : FastKernel) (w now : String) (plan : FastPlan) (exact : Nat)
    (late : Bool) (db : Database) :
    (∃ row, scenario? db w = some row ∧ plan.workspaceRevision ≤ row.sceneVersion ∧
      advanceStep kernel w plan exact late now db =
        (updateScenario w (·.advance plan.workspaceRevision exact now) db,
          some (publicationOf plan (planResult kernel plan late exact) {
            revision := plan.workspaceRevision
            fastRevision := (row.advance plan.workspaceRevision exact now).fastRevision
            exactRevision := row.exactResultVersion }))) ∨
    ((∀ row, scenario? db w = some row → row.sceneVersion < plan.workspaceRevision) ∧
      advanceStep kernel w plan exact late now db = (db, none)) := by
  unfold advanceStep
  cases hrow : scenario? db w with
  | none =>
    refine Or.inr ⟨by simp, ?_⟩
    simp [advanceFastRevision, Txn.atomically, bind, Txn.andThen, Txn.get, hrow, pure, Txn.ret]
  | some row =>
    by_cases hle : plan.workspaceRevision ≤ row.sceneVersion
    · refine Or.inl ⟨row, rfl, hle, ?_⟩
      rw [advanceFastRevision_current hrow hle]
    · refine Or.inr ⟨by simpa using hle, ?_⟩
      simp [advanceFastRevision, Txn.atomically, bind, Txn.andThen, Txn.get, hrow,
        Nat.not_le.mp hle, pure, Txn.ret]

theorem advanceStep_aside {w now : String} {plan : FastPlan} {exact : Nat} {late : Bool}
    {db : Database} (h : Sound start db) :
    Aside start db (advanceStep kernel w plan exact late now db).1 := by
  rcases advanceStep_cases kernel w now plan exact late db with ⟨row, hrow, hle, heq⟩ | ⟨-, heq⟩
  · obtain ⟨hext, hsound⟩ := h.advance w plan.workspaceRevision exact now
    rw [advanceFastRevision_current hrow hle] at hext hsound
    rw [heq]
    exact ⟨hext, hsound, exactGrows_update hrow rfl (fun _ => rfl) (le_refl _), fun _ _ _ ha => ha⟩
  · rw [heq]
    exact Aside.refl h

theorem publishStep_invariant {ready : List (String × PendingItem)} {w : String}
    {item : PendingItem} {late : Bool} {now : String} {place : PublishAt}
    (hs : Epochs.Invariant start s.plane) (hrelies : place.Relies s.plane.shared w item.epochId)
    (h : publishStep kernel bounds s ready w item late now place = t) :
    Invariant start t ∧ Aside start s.plane.shared t.plane.shared := by
  subst h
  cases place with
  | kernel plan exact => exact ⟨⟨hs, hrelies⟩, Aside.refl hs.1⟩
  | record publication => exact ⟨⟨hs, hrelies⟩, Aside.refl hs.1⟩
  | broadcast publication => exact ⟨⟨hs, trivial⟩, Aside.refl hs.1⟩
  | forget revision => exact ⟨⟨hs, trivial⟩, Aside.refl hs.1⟩
  | advance plan exact late =>
    rw [publishStep]
    have haside : Aside start s.plane.shared
        (advanceStep kernel w plan exact late now s.plane.shared).1 := advanceStep_aside hs.1
    have hassigned := haside.ext.assigned w _ _ hrelies.1.assigned
    rcases advanceStep_cases kernel w now plan exact late s.plane.shared with
      ⟨row, -, -, heq⟩ | ⟨-, heq⟩
    · rw [heq] at haside hassigned ⊢
      exact ⟨⟨invariant_write hs haside, hassigned⟩, haside⟩
    · rw [heq] at haside ⊢
      exact ⟨⟨invariant_write hs haside, trivial⟩, haside⟩
  | epoch | scenario | operations | canonical | mark =>
    obtain ⟨haside, hnext⟩ := prepareStep_aside now hs.1 hrelies
    simp only [publishStep]
    revert haside hnext
    rcases prepareStep w item.epochId now s.plane.shared _ with ⟨db, _ | place'⟩
    · exact fun haside _ => ⟨⟨invariant_write hs haside, trivial⟩, haside⟩
    · exact fun haside hnext => ⟨⟨invariant_write hs haside, hnext place' rfl⟩, haside⟩

theorem noted_eq (s : System) (i : Nat) (event : Event) (plane : Plane) :
    (s.noted i event plane).plane = plane ∧ (s.noted i event plane).place = s.place ∧
      (s.noted i event plane).memory = s.memory ∧
      (s.noted i event plane).published = s.published := by
  unfold System.noted
  split
  · split <;> exact ⟨rfl, rfl, rfl, rfl⟩
  · exact ⟨rfl, rfl, rfl, rfl⟩
  · exact ⟨rfl, rfl, rfl, rfl⟩
  · exact ⟨rfl, rfl, rfl, rfl⟩

theorem laneRaise_eq {place : LaneAt} (h : laneRaise s place = some t) :
    t = { s with place := .idle } ∨ ∃ ready w item at', place = .planning ready w item at' ∧
      t = { s with place := .publishing ready } := by
  unfold laneRaise at h
  split at h
  · split at h
    · simp at h
    · simp at h
    · simp at h
    · exact Or.inr ⟨_, _, _, _, rfl, (Option.some.inj h).symm⟩
  · exact Or.inl (Option.some.inj h).symm
  · exact Or.inl (Option.some.inj h).symm
  · exact Or.inl (Option.some.inj h).symm
  · simp at h

theorem systemStep_invariant {a : LaneEvent} (hs : Invariant start s)
    (h : systemStep kernel bounds s a = some t) :
    Invariant start t ∧ Extends s.plane.shared t.plane.shared ∧
      ExactGrows s.plane.shared t.plane.shared := by
  cases a with
  | plane i event =>
    simp only [systemStep] at h
    split at h
    · simp at h
    · obtain ⟨plane, hplane, rfl⟩ := Option.map_eq_some_iff.mp h
      obtain ⟨hsame, hplace, -⟩ := noted_eq s i event plane
      obtain ⟨hinv, hext⟩ := planeStep_invariant hs.plane hplane
      have hexact := effect_exactGrows (act_effect (Threads.step_eq hplane).1) hs.plane.1.law
      refine ⟨⟨?_, ?_⟩, ?_⟩
      · rwa [hsame]
      · rw [hsame, hplace]
        exact hs.place.mono hs.plane.1 hext hexact
      · rw [hsame]
        exact ⟨hext, hexact⟩
  | hook i =>
    obtain ⟨⟨w, e, revision⟩, -, rfl⟩ := Option.map_eq_some_iff.mp h
    exact ⟨⟨hs.plane, hs.place⟩, Extends.refl _, ExactGrows.refl _⟩
  | exact action =>
    simp only [systemStep] at h
    split at h
    · obtain ⟨db, hdb, rfl⟩ := Option.map_eq_some_iff.mp h
      have haside := exactAction_aside hs.plane.1 ‹_› hdb
      exact ⟨⟨invariant_write hs.plane haside, hs.place.mono hs.plane.1 haside.ext haside.exact⟩,
        haside.ext, haside.exact⟩
    · simp at h
  | lane choice late now =>
    by_cases hplanning : ∃ ready w item at', s.place = .planning ready w item at'
    · obtain ⟨ready, w, item, at', hplace⟩ := hplanning
      have hrelies := hs.place
      rw [hplace] at hrelies
      simp only [systemStep, hplace, laneStep, Option.some.injEq] at h
      obtain ⟨hinv, haside⟩ := publishStep_invariant hs.plane hrelies h
      exact ⟨hinv, haside.ext, haside.exact⟩
    · obtain ⟨hplane, -, hplace⟩ := laneStep_loop
        (fun ready w item at' hplace => hplanning ⟨ready, w, item, at', hplace⟩) h
      rw [hplane]
      exact ⟨⟨hplane ▸ hs.plane, hplace _⟩, Extends.refl _, ExactGrows.refl _⟩
  | laneRaise =>
    rcases laneRaise_eq h with rfl | ⟨ready, w, item, at', -, rfl⟩ <;>
      exact ⟨⟨hs.plane, trivial⟩, Extends.refl _, ExactGrows.refl _⟩

end Steps

/-! ## Runs -/

theorem invariant_fresh {s : System} (h : s.Fresh) : Invariant s.plane.shared s := by
  refine ⟨Epochs.invariant_fresh h.plane, ?_⟩
  rw [h.place]
  trivial

theorem assigned_above {start db db' : Database} (h : Sound start db) (h' : Sound start db')
    (hext : Extends db db') {w : String} {e r i n : Nat} (hnew : Assigned db' w e r)
    (hfresh : ¬ Assigned db w e r) (hold : Assigned db w i n) : n < r := by
  obtain ⟨more, hmore⟩ := hext.canonical w
  obtain ⟨row, hrow, rfl⟩ := h.assignedRow w i n hold
  obtain ⟨row', hrow', rfl⟩ := h'.assignedRow w e r hnew
  have hsorted := h'.ascending w
  rw [← hmore] at hrow' hsorted
  rcases List.mem_append.mp hrow' with hbefore | hafter
  · -- a row that was there before has its epoch before
    obtain ⟨j, hj⟩ := h.rowAssigned w row' hbefore
    obtain rfl := h'.unique w e j _ hnew (hext.assigned w j _ hj)
    exact absurd hj hfresh
  · exact (List.pairwise_append.mp hsorted).2.2 row hrow row' hafter

end Solweig.Lane
