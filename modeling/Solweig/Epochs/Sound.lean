import Solweig.Epochs.Interleaving
import Solweig.Store.Revisions

/-!
# Every action keeps the store sound

One lemma for each kind of write, and from them the invariant of the whole plane.
-/

namespace Solweig.Epochs

open Solweig.Lib Solweig.Realtime Solweig.Store

section Effects

variable {start db db' : Database}

/-! ## Appends -/

theorem appended_assigned {w : String} {row : OperationRow} (h : Appended w db row db')
    {u : String} {e revision : Nat} : Assigned db' u e revision ↔ Assigned db u e revision := by
  constructor
  · rintro ⟨r', hr', rfl, hrevision⟩
    rcases h.epoch_origin hr' with hnone | ⟨r, hr, hid, hsame⟩
    · rw [hnone] at hrevision
      simp at hrevision
    · exact ⟨r, hr, hid, hsame.trans hrevision⟩
  · rintro ⟨r, hr, rfl, hrevision⟩
    obtain ⟨r', hr', hid, -, hsame⟩ := h.epoch_kept hr
    exact ⟨r', hr', hid, hsame.trans hrevision⟩

theorem appendSteps_extends {w : String}
    (h : Relation.ReflTransGen (AppendStep w) db db') (hlaw : LogLaw db) :
    Extends db db' ∧ (∀ u e revision, Assigned db' u e revision → Assigned db u e revision) ∧
      (∀ u, canonical db' u = canonical db u) ∧ ∀ u, version? db' u = version? db u := by
  induction h with
  | refl => exact ⟨Extends.refl db, fun _ _ _ h => h, fun _ => rfl, fun _ => rfl⟩
  | @tail mid last hsteps hstep ih =>
    obtain ⟨row, happ⟩ := hstep
    obtain ⟨hext, hassigned, hcanonical, hversion⟩ := ih
    have hsame : last.canonical = mid.canonical := by rw [← happ.rest]
    have hscenarios : last.scenarios = mid.scenarios := by rw [← happ.rest]
    have hcanon : ∀ u, Store.canonical last u = Store.canonical mid u := fun u => by
      rw [Store.canonical, hsame, Store.canonical]
    refine ⟨hext.trans ⟨happ.grows (appendSteps_law hsteps hlaw).1, ?_, ?_, ?_⟩, ?_, ?_, ?_⟩
    · rintro u e ⟨r, hr, rfl⟩
      obtain ⟨r', hr', hid, -⟩ := happ.epoch_kept hr
      exact ⟨r', hr', hid⟩
    · exact fun u e r ha => (appended_assigned happ).mpr ha
    · exact fun u => hcanon u ▸ List.prefix_refl _
    · exact fun u e r ha => hassigned u e r ((appended_assigned happ).mp ha)
    · exact fun u => (hcanon u).trans (hcanonical u)
    · intro u
      rw [version?, scenario?_congr hscenarios, ← version?, hversion]

theorem Sound.append (h : Sound start db) (w : String) (items : List OperationItem) (now : String) :
    Extends db (appendOperations w items now db).2 ∧
      Sound start (appendOperations w items now db).2 := by
  have hsteps : Relation.ReflTransGen (AppendStep w) db (appendOperations w items now db).2 :=
    appendOperations_steps h.law
  obtain ⟨hext, hassigned, hcanonical, hversion⟩ := appendSteps_extends hsteps h.law
  exact ⟨hext, h.congr (appendSteps_law hsteps h.law).1 hext hassigned hcanonical hversion⟩

/-! ## Marks and advances -/

theorem Sound.mark_assigned (h : Sound start db) {w : String} {e : Nat} (status : EpochStatus)
    {revision : Option Nat} (now : String)
    (hrevision : ∀ r, revision = some r → Assigned db w e r) (u : String) (i r : Nat) :
    Assigned (updateEpoch w e (·.mark status revision now) db) u i r ↔ Assigned db u i r := by
  have hworkspace : ∀ r : EpochRow, (r.mark status revision now).workspaceId = r.workspaceId :=
    fun _ => rfl
  have hid : ∀ r : EpochRow, (r.mark status revision now).epochId = r.epochId := fun _ => rfl
  rw [assigned_updateEpoch hworkspace hid, Assigned]
  refine exists_congr fun row => and_congr_right fun hrow => and_congr_right fun hid => ?_
  split
  · rename_i hhit
    obtain ⟨rfl, rfl⟩ := hhit
    cases hrev : revision with
    | none => simp [EpochRow.mark]
    | some r' =>
      obtain ⟨row', hrow', hid', hrev'⟩ := hrevision r' hrev
      obtain rfl := (h.law.partition u).epoch_unique hrow' hrow (hid'.trans hid.symm)
      simp [EpochRow.mark, hrev']
  · rfl

theorem Sound.mark (h : Sound start db) {w : String} {e : Nat} {status : EpochStatus}
    {revision : Option Nat} (now : String) (hstatus : status ≠ .opened)
    (hrevision : ∀ r, revision = some r → Assigned db w e r) :
    Extends db (updateEpoch w e (·.mark status revision now) db) ∧
      Sound start (updateEpoch w e (·.mark status revision now) db) := by
  have hf := quiet_mark hstatus revision now
  have hassigned := h.mark_assigned status now hrevision
  have hext : Extends db (updateEpoch w e (·.mark status revision now) db) := by
    refine ⟨hf.grows, ?_, fun u i r ha => (hassigned u i r).mpr ha, fun _ => List.prefix_refl _⟩
    rintro u i ⟨row, hrow, rfl⟩
    refine ⟨_, (mem_epochs_updateEpoch hf.workspaceId).mpr ⟨row, hrow, rfl⟩, ?_⟩
    split <;> rfl
  exact ⟨hext, h.congr (hf.logLaw h.law) hext (fun u i r ha => (hassigned u i r).mp ha)
    (fun _ => rfl) fun _ => rfl⟩

theorem Sound.advance (h : Sound start db) (w : String) (revision observed : Nat) (now : String) :
    Extends db (advanceFastRevision w revision observed now db).2 ∧
      Sound start (advanceFastRevision w revision observed now db).2 := by
  rcases advanceFastRevision_scenarios with ⟨-, hdb⟩ | ⟨row, hrow, -, hdb⟩
  · rw [hdb]
    exact ⟨Extends.refl db, h⟩
  · rw [hdb]
    have hext : Extends db (updateScenario w (·.advance revision observed now) db) :=
      ⟨⟨fun _ => List.prefix_refl _, fun _ _ hs => ⟨hs, rfl⟩⟩, fun _ _ hk => hk,
        fun _ _ _ ha => ha, fun _ => List.prefix_refl _⟩
    refine ⟨hext, h.congr ⟨h.law.partition, h.law.ids⟩ hext (fun _ _ _ ha => ha) (fun _ => rfl) ?_⟩
    intro u
    rw [version?, scenario?_updateScenario]
    · split
      · rw [Option.map_map]
        rfl
      · rfl
    · exact fun _ => rfl

/-! ## Commits -/

theorem Sound.row_unique (h : Sound start db) {w : String} {r r' : CanonicalRow}
    (hr : r ∈ canonical db w) (hr' : r' ∈ canonical db w)
    (hrev : r.workspaceRevision = r'.workspaceRevision) : r = r' := by
  have hnodup : ((canonical db w).map (·.workspaceRevision)).Nodup :=
    List.pairwise_map.mpr ((h.ascending w).imp Nat.ne_of_lt)
  exact List.inj_on_of_nodup_map hnodup hr hr' hrev

theorem Sound.base_latest (h : Sound start db) {w : String} {expected : Nat}
    {base : CanonicalState} (hlatest : latestRevision db w = expected)
    (hbase : BaseAt db w expected base) :
    ((canonical db w).getLast?.map stateOf).getD initialState = base := by
  rw [latestRevision, argmax_of_ascending (h.ascending w)] at hlatest
  cases hlast : (canonical db w).getLast? with
  | none =>
    rcases hbase with ⟨-, rfl⟩ | ⟨row, hrow, -⟩
    · rfl
    · rw [List.getLast?_eq_none_iff.mp hlast] at hrow
      simp at hrow
  | some last =>
    have hmem := List.mem_of_getLast? hlast
    simp only [hlast, Option.map_some, Option.getD_some] at hlatest ⊢
    rcases hbase with ⟨hzero, -⟩ | ⟨row, hrow, hrev, rfl⟩
    · obtain ⟨_, -, hpos, -⟩ := h.bounded hmem
      omega
    · rw [h.row_unique hmem hrow (hlatest.trans hrev.symm)]

/-- What the first commit of an epoch writes. -/
def assignedDb (w : String) (e revision : Nat) (row : CanonicalRow) (now : String)
    (db : Database) : Database :=
  updateEpoch w e (·.assign revision now)
    (setSceneVersion w revision now { db with canonical := db.canonical ++ [row] })

section Assign

variable {w : String} (e revision : Nat) (row : CanonicalRow) (now : String)

theorem canonical_assignedDb (hw : row.workspaceId = w) (u : String) :
    canonical (assignedDb w e revision row now db) u =
      canonical db u ++ if u = w then [row] else [] := by
  by_cases hu : u = w
  · subst hu
    simp [assignedDb, canonical, updateEpoch, setSceneVersion, updateScenario, hw]
  · simp [assignedDb, canonical, updateEpoch, setSceneVersion, updateScenario, hw, hu, Ne.symm hu]

theorem version?_assignedDb (hscenario : (scenario? db w).isSome) (u : String) :
    version? (assignedDb w e revision row now db) u =
      if u = w then some revision else version? db u := by
  have hfind : scenario? (assignedDb w e revision row now db) u =
      if u = w then (scenario? db u).map
        (fun r => { r with sceneVersion := revision, updatedAt := now }) else scenario? db u :=
    scenario?_updateScenario fun _ => rfl
  obtain ⟨scenario, hs⟩ := Option.isSome_iff_exists.mp hscenario
  rw [version?, hfind]
  split
  · subst u
    rw [hs]
    rfl
  · rfl

theorem assigned_assignedDb (hfound : ∃ r ∈ epochs db w, r.epochId = e ∧ r.workspaceRevision = none)
    (hlaw : LogLaw db) {u : String} {i r : Nat} :
    Assigned (assignedDb w e revision row now db) u i r ↔
      Assigned db u i r ∨ (u = w ∧ i = e ∧ r = revision) := by
  have hf := quiet_assign revision now
  have hrevision : ∀ r : EpochRow, (r.assign revision now).workspaceRevision = some revision := by
    intro r
    unfold EpochRow.assign
    split <;> rfl
  obtain ⟨found, hmem, hid, hnone⟩ := hfound
  refine (assigned_updateEpoch hf.workspaceId hf.epochId).trans ?_
  show (∃ row ∈ epochs db u, _) ↔ _
  simp only [hrevision]
  constructor
  · rintro ⟨r', hr', rfl, hrev⟩
    split at hrev <;> rename_i hhit
    · exact Or.inr ⟨hhit.1, hhit.2, (Option.some.inj hrev).symm⟩
    · exact Or.inl ⟨r', hr', rfl, hrev⟩
  · rintro (⟨r', hr', rfl, hrev⟩ | ⟨rfl, rfl, rfl⟩)
    · refine ⟨r', hr', rfl, ?_⟩
      rw [if_neg]
      · exact hrev
      · rintro ⟨rfl, hsame⟩
        obtain rfl := (hlaw.partition u).epoch_unique hr' hmem (hsame.trans hid.symm)
        rw [hnone] at hrev
        simp at hrev
    · exact ⟨found, hmem, hid, by simp⟩

variable {e row now}

theorem Sound.assign (h : Sound start db) {scenario : ScenarioRow} {operations : List OperationRow}
    {base : CanonicalState} {reduction : EpochReduction}
    (hfound : ∃ r ∈ epochs db w, r.epochId = e ∧ r.workspaceRevision = none)
    (hscenario : scenario? db w = some scenario) (hloaded : Loaded db w e operations)
    (hbase : ((canonical db w).getLast?.map stateOf).getD initialState = base)
    (hreduce : reduceRows base operations = some reduction) (hrow : row.workspaceId = w)
    (hrevision : row.workspaceRevision = scenario.sceneVersion + 1)
    (hfamilies : reduction.state.families = row.families) :
    Extends db (assignedDb w e (scenario.sceneVersion + 1) row now db) ∧
      Sound start (assignedDb w e (scenario.sceneVersion + 1) row now db) := by
  have hassigned := fun u i r =>
    @assigned_assignedDb db w e (scenario.sceneVersion + 1) row now hfound h.law u i r
  have hcanonical := fun u =>
    @canonical_assignedDb db w e (scenario.sceneVersion + 1) row now hrow u
  have hversion := version?_assignedDb e (scenario.sceneVersion + 1) row now
    (Option.isSome_iff_exists.mpr ⟨scenario, hscenario⟩)
  have hf := quiet_assign (scenario.sceneVersion + 1) now
  have hext : Extends db (assignedDb w e (scenario.sceneVersion + 1) row now db) := by
    have hgrows : Grows db (updateEpoch w e (·.assign (scenario.sceneVersion + 1) now) db) :=
      hf.grows
    refine ⟨⟨hgrows.log, hgrows.sealed⟩, ?_, ?_, ?_⟩
    · rintro u i ⟨r, hr, rfl⟩
      refine ⟨_, (mem_epochs_updateEpoch hf.workspaceId).mpr ⟨r, hr, rfl⟩, ?_⟩
      split
      · exact hf.epochId r
      · rfl
    · exact fun u i r ha => (hassigned u i r).mpr (Or.inl ha)
    · exact fun u => hcanonical u ▸ List.prefix_append _ _
  have hlow : ∀ u i r, Assigned db u i r → u = w → r ≤ scenario.sceneVersion := by
    rintro u i r ha rfl
    obtain ⟨c, hc, rfl⟩ := h.assignedRow u i r ha
    obtain ⟨s, hs, -, hle⟩ := h.bounded hc
    obtain rfl := Option.some.inj (hscenario.symm.trans hs)
    exact hle
  refine ⟨hext, ?_, ?_, ?_, ?_, ?_, ?_, ?_⟩
  · have hlaw : LogLaw (updateEpoch w e (·.assign (scenario.sceneVersion + 1) now) db) :=
      hf.logLaw h.law
    exact ⟨hlaw.partition, hlaw.ids⟩
  · intro u i r ha
    rcases (hassigned u i r).mp ha with ha | ⟨rfl, rfl, -⟩
    · exact (hext.grows.sealed u i (h.assignedSealed u i r ha)).1
    · exact (hext.grows.sealed u i hloaded.1).1
  · intro u i r ha
    rw [hcanonical]
    rcases (hassigned u i r).mp ha with ha | ⟨rfl, -, rfl⟩
    · obtain ⟨c, hc, hrev⟩ := h.assignedRow u i r ha
      exact ⟨c, List.mem_append_left _ hc, hrev⟩
    · exact ⟨row, by simp, hrevision⟩
  · intro u c hc
    rw [hcanonical, List.mem_append] at hc
    rcases hc with hc | hc
    · obtain ⟨i, hi⟩ := h.rowAssigned u c hc
      exact ⟨i, hext.assigned u i _ hi⟩
    · split at hc
      · obtain rfl := List.mem_singleton.mp hc
        exact ⟨e, (hassigned u e _).mpr (Or.inr ⟨‹_›, rfl, hrevision⟩)⟩
      · simp at hc
  · intro u i i' r ha ha'
    rcases (hassigned u i r).mp ha with hold | ⟨hu, rfl, hr⟩ <;>
      rcases (hassigned u i' r).mp ha' with hold' | ⟨hu', rfl, hr'⟩
    · exact h.unique u i i' r hold hold'
    · have := hlow u i r hold hu'
      omega
    · have := hlow u i' r hold' hu
      omega
    · rfl
  · intro u
    have hv := h.versions u
    rw [hcanonical, hversion]
    split
    · subst u
      have hcurrent : version? db w = some scenario.sceneVersion := by rw [version?, hscenario]; rfl
      cases hs : version? start w with
      | none =>
        have := hv.current
        rw [hcurrent, hs] at this
        simp at this
      | some n =>
        have hscene : scenario.sceneVersion = n + (canonical db w).length := by
          have := hv.current
          rw [hcurrent, hs] at this
          exact Option.some.inj this
        refine ⟨?_, ?_, by simp⟩
        · simp [hscene, Nat.add_assoc]
        · rintro _ ⟨⟩
          rw [List.map_append, hv.revisions n hs]
          simp [hrevision, hscene, List.range'_1_concat, Nat.add_right_comm]
    · simpa using hv
  · intro u
    rw [hcanonical]
    split
    · subst u
      refine chainFrom_concat.mpr ⟨(h.chain w).mono hext (h.assignedSealed w), e, reduction, ?_, ?_,
        hfamilies⟩
      · exact (hassigned w e _).mpr (Or.inr ⟨rfl, rfl, hrevision⟩)
      · rw [hbase, (hloaded.mono hext).2]
        exact hreduce
    · rw [List.append_nil]
      exact (h.chain u).mono hext (h.assignedSealed u)

end Assign

theorem Sound.commit (h : Sound start db) {w : String} {e expected : Nat}
    {operations : List OperationRow} {families : Families} (now : String)
    (hloaded : Loaded db w e operations)
    (hfold : ∃ base reduction, BaseAt db w expected base ∧
      reduceRows base operations = some reduction ∧ reduction.state.families = families) :
    Extends db (commitEpochReduction w e families (some expected) now db).2 ∧
      Sound start (commitEpochReduction w e families (some expected) now db).2 := by
  have hspec : Commit w e families (some expected) now db _ _ := commitEpochReduction_spec
  generalize (commitEpochReduction w e families (some expected) now db).2 = db' at hspec ⊢
  generalize (commitEpochReduction w e families (some expected) now db).1 = o at hspec
  obtain ⟨base, reduction, hbase, hreduce, hfamilies⟩ := hfold
  cases hspec with
  | refused | missing | stored => exact ⟨Extends.refl db, h⟩
  | restored hrow hrevision hcanonical =>
    obtain ⟨hmem, hid⟩ := epoch?_some hrow
    obtain ⟨c, hc, hrev⟩ := h.assignedRow w e _ ⟨_, hmem, hid, hrevision⟩
    exact absurd hrev (hcanonical c hc)
  | assigned hrow hrevision hscenario hbaseline =>
    obtain ⟨hmem, hid⟩ := epoch?_some hrow
    exact h.assign ⟨_, hmem, hid, hrevision⟩ hscenario hloaded
      (h.base_latest (hbaseline expected rfl) hbase) hreduce rfl rfl hfamilies

/-! ## Every action -/

theorem mark_status {activity : Activity} {w : String} {e : Nat} {status : EpochStatus}
    {revision : Option Nat} (h : activity.mark? = some (w, e, status, revision)) :
    status ≠ .opened := by
  unfold Activity.mark? at h
  split at h <;> simp only [Option.some.injEq, Prod.mk.injEq, reduceCtorEq] at h <;>
    obtain ⟨-, -, rfl, -⟩ := h <;> decide

theorem mark_revision {activity : Activity} {w : String} {e : Nat} {status : EpochStatus}
    {revision : Option Nat} (h : activity.mark? = some (w, e, status, revision))
    (hrelies : activity.Relies db) : ∀ r, revision = some r → Assigned db w e r := by
  unfold Activity.mark? at h
  split at h <;> simp only [Option.some.injEq, Prod.mk.injEq, reduceCtorEq] at h <;>
    obtain ⟨rfl, rfl, -, rfl⟩ := h
  · simp
  · rintro _ ⟨⟩
    exact hrelies
  · rintro _ ⟨⟩
    exact hrelies _ List.mem_cons_self

theorem Effect.sound {activity : Activity} (heffect : Effect db activity db')
    (h : Sound start db) (hrelies : activity.Relies db) : Extends db db' ∧ Sound start db' := by
  cases heffect with
  | none => exact ⟨Extends.refl db, h⟩
  | append w items now => exact h.append w items now
  | mark now hmark => exact h.mark now (mark_status hmark) (mark_revision hmark hrelies)
  | commit now hplace =>
    subst hplace
    exact h.commit now hrelies.1 hrelies.2
  | advance now hplace => exact h.advance _ _ _ now

theorem known_of_mem {row : EpochRow} {w : String} {e : Nat} (h : epoch? db w e = some row) :
    Known db w e := ⟨row, (epoch?_some h).1, (epoch?_some h).2⟩

theorem assigned_of_read {row : EpochRow} {w : String} {e revision : Nat}
    (h : epoch? db w e = some row) (hrev : row.workspaceRevision = some revision) :
    Assigned db w e revision := ⟨row, (epoch?_some h).1, (epoch?_some h).2, hrev⟩

theorem afterRead_relies {row : EpochRow} {w : String} {e : Nat} (h : Sealed db w e) :
    (afterRead row).Relies db w e := by
  unfold afterRead
  split
  · trivial
  · exact h

theorem baseAt_baselineState (w : String) :
    BaseAt db w (baselineState db w).workspaceRevision.toNat (baselineState db w) := by
  unfold baselineState
  cases hlatest : latestCanonicalState db w with
  | none => exact Or.inl ⟨rfl, rfl⟩
  | some row => exact Or.inr ⟨row, List.argmax_mem hlatest, rfl, rfl⟩

theorem sealed_mark {w : String} {e : Nat} {status : EpochStatus} {revision : Option Nat}
    (now : String) (hstatus : status ≠ .opened) (h : Known db w e) :
    Sealed (updateEpoch w e (·.mark status revision now) db) w e := by
  obtain ⟨row, hrow, rfl⟩ := h
  have hf := quiet_mark hstatus revision now
  refine ⟨_, (mem_epochs_updateEpoch hf.workspaceId).mpr ⟨row, hrow, rfl⟩, ?_, ?_⟩
  · rw [if_pos ⟨rfl, rfl⟩]
    rfl
  · rw [if_pos ⟨rfl, rfl⟩]
    exact hstatus

theorem mem_toSettle {w : String} {through : Nat} {p : Nat × Nat} (h : p ∈ toSettle db w through) :
    ∃ row ∈ epochs db w, row.epochId = p.1 ∧ row.workspaceRevision = some p.2 ∧
      ¬ row.status.Terminal ∧ p.2 ≤ through := by
  obtain ⟨row, hrow, hp⟩ := List.mem_filterMap.mp h
  split at hp
  · simp at hp
  · obtain ⟨revision, hrev, hp⟩ := Option.bind_eq_some_iff.mp hp
    split at hp
    · simp at hp
    · obtain rfl := Option.some.inj hp
      exact ⟨row, (List.mem_insertionSort _).mp hrow, rfl, hrev, ‹_›, by omega⟩

theorem closeStep_relies {w now : String} {e : Nat} {place place' : CloseAt}
    (hext : Extends db (closeStep w e now db place).1) (hrelies : place.Relies db w e)
    (h : (closeStep w e now db place).2 = some place') :
    place'.Relies (closeStep w e now db place).1 w e := by
  cases place with
  | start =>
    rw [closeStep_start]
    simp only [closeStep] at h
    cases hrow : epoch? db w e with
    | none => simp [hrow] at h
    | some row =>
      simp only [hrow] at h
      split at h
      · simp at h
      · split at h <;> obtain rfl := Option.some.inj h
        · exact known_of_mem hrow
        · exact afterRead_relies ⟨row, (epoch?_some hrow).1, (epoch?_some hrow).2, ‹_›⟩
  | mark =>
    obtain rfl := Option.some.inj h
    exact sealed_mark now (by decide) hrelies
  | reread =>
    obtain ⟨row, -, rfl⟩ := Option.map_eq_some_iff.mp h
    exact afterRead_relies hrelies
  | load =>
    simp only [closeStep] at h ⊢
    split at h
    · simp at h
    · obtain rfl := Option.some.inj h
      rw [if_neg ‹_›]
      exact ⟨hrelies, rfl⟩
  | fold operations attempt =>
    obtain ⟨reduction, hreduce, rfl⟩ := Option.map_eq_some_iff.mp h
    exact ⟨hrelies, _, reduction, baseAt_baselineState w, hreduce, rfl⟩
  | commit operations attempt expected families =>
    have hloaded := Loaded.mono hext hrelies.1
    simp only [closeStep] at h
    split at h
    · obtain rfl := Option.some.inj h
      trivial
    · simp at h
    · split at h
      · obtain rfl := Option.some.inj h
        exact hloaded
      · simp at h
    · simp at h
  | confirm =>
    simp only [closeStep] at h
    split at h
    · split at h
      · obtain rfl := Option.some.inj h
        trivial
      · simp at h
    · simp at h
  | publish => simp [closeStep] at h

theorem fastStep_relies {w now : String} {e : Nat} {place place' : FastAt}
    (hext : Extends db (fastStep w e now db place).1) (hrelies : place.Relies db w e)
    (h : (fastStep w e now db place).2 = some place') :
    place'.Relies (fastStep w e now db place).1 w e := by
  cases place with
  | start =>
    obtain ⟨row, hrow, h⟩ := Option.bind_eq_some_iff.mp h
    obtain ⟨revision, hrev, rfl⟩ := Option.map_eq_some_iff.mp h
    exact assigned_of_read hrow hrev
  | scenario row revision =>
    rw [fastStep_scenario]
    simp only [fastStep] at h
    split at h
    · simp at h
    · split at h
      · simp at h
      · split at h <;> obtain rfl := Option.some.inj h <;> exact hrelies
  | mark revision observed =>
    obtain rfl := Option.some.inj h
    exact hext.assigned w e revision hrelies
  | advance revision observed => simp [fastStep] at h

theorem act_relies {thread thread' : Thread} {event : Event}
    (hact : act db thread event = some (db', thread')) (hext : Extends db db')
    (hrelies : thread.activity.Relies db) : thread'.activity.Relies db' := by
  rcases act_begin hact with ⟨due, now, rfl, hstep⟩ | ⟨rfl, _, hraise, heq⟩ | ⟨rfl, hbegin⟩
  · obtain ⟨tasks, activity⟩ := thread
    cases activity with
    | idle =>
      obtain ⟨next, hnext, heq⟩ := Option.map_eq_some_iff.mp hstep
      obtain ⟨rfl, rfl⟩ := Prod.mk.inj heq
      rcases tasks with _ | ⟨⟨_, _⟩ | _ | _, tasks⟩ <;>
        simp only [nextTask, Option.some.injEq, reduceCtorEq] at hnext <;> subst hnext <;> trivial
    | closing w e place =>
      simp only [proceed, Option.some.injEq, Prod.mk.injEq] at hstep
      obtain ⟨rfl, rfl⟩ := hstep
      cases hplace : (closeStep w e now db place).2 with
      | none => trivial
      | some place' => exact closeStep_relies hext hrelies hplace
    | publishing w e place =>
      simp only [proceed, Option.some.injEq, Prod.mk.injEq] at hstep
      obtain ⟨rfl, rfl⟩ := hstep
      cases hplace : (fastStep w e now db place).2 with
      | none => trivial
      | some place' => exact fastStep_relies hext hrelies hplace
    | consuming w through =>
      simp only [proceed, Option.some.injEq, Prod.mk.injEq] at hstep
      obtain ⟨rfl, rfl⟩ := hstep
      intro p hp
      obtain ⟨row, hrow, hid, hrev, -⟩ := mem_toSettle hp
      exact ⟨row, hrow, hid, hrev⟩
    | settling w rest =>
      rcases rest with _ | ⟨⟨e, revision⟩, rest⟩ <;>
        simp only [proceed, Option.some.injEq, Prod.mk.injEq] at hstep <;>
        obtain ⟨rfl, rfl⟩ := hstep
      · trivial
      · exact fun p hp => hext.assigned w p.1 p.2 (hrelies p (List.mem_cons_of_mem _ hp))
  · obtain ⟨rfl, rfl⟩ := Prod.mk.inj heq
    obtain ⟨tasks, activity⟩ := thread
    cases activity <;> simp only [raise, Option.some.injEq] at hraise
    case idle =>
      split at hraise
      · obtain rfl := Option.some.inj hraise
        trivial
      · obtain rfl := Option.some.inj hraise
        trivial
      · simp at hraise
    all_goals
      subst hraise
      trivial
  · cases event <;>
      simp only [begin, Option.some.injEq, Prod.mk.injEq, reduceCtorEq] at hbegin <;>
      obtain ⟨rfl, rfl⟩ := hbegin <;> trivial

end Effects

/-! ## Runs -/

/-- The invariant of the plane. -/
def Invariant (start : Database) : Plane → Prop :=
  Threads.Holds (Sound start) fun _ db thread => thread.activity.Relies db

theorem planeStep_invariant {start : Database} {s t : Plane} {a : Nat × Event}
    (hs : Invariant start s) (h : planeStep s a = some t) :
    Invariant start t ∧ Extends s.shared t.shared := by
  obtain ⟨hact, -⟩ := Threads.step_eq h
  obtain ⟨hext, -⟩ := (act_effect hact).sound hs.1 (hs.2 a.1)
  refine ⟨Threads.holds_step (C := fun _ _ _ => True) ?_ ?_ hs trivial h, hext⟩
  · intro i db thread event db' thread' hsound hrelies _ hact
    obtain ⟨hext, hsound'⟩ := (act_effect hact).sound hsound hrelies
    exact ⟨hsound', act_relies hact hext hrelies⟩
  · intro i j db thread event db' thread' other _ hsound hrelies _ hact hother
    exact hother.mono ((act_effect hact).sound hsound hrelies).1

theorem invariant_fresh {s : Plane} (h : s.Fresh) : Invariant s.shared s := by
  have hepochs : ∀ w, epochs s.shared w = [] := fun w => by simp [epochs, h.epochs]
  have hcanonical : ∀ w, canonical s.shared w = [] := fun w => by simp [canonical, h.canonical]
  have hnone : ∀ w e r, ¬ Assigned s.shared w e r := by
    rintro w e r ⟨row, hrow, -⟩
    simp [hepochs] at hrow
  refine ⟨⟨logLaw_start h.operations h.epochs, fun w e r ha => absurd ha (hnone w e r),
    fun w e r ha => absurd ha (hnone w e r), by simp [hcanonical],
    fun w e _ r ha => absurd ha (hnone w e r), fun w => ?_, fun w => ?_⟩, fun i => ?_⟩
  · rw [hcanonical]
    exact ⟨by cases version? s.shared w <;> rfl, by simp, by simp⟩
  · rw [hcanonical]
    trivial
  · rw [h.free]
    trivial

theorem plane_run {start s : Plane} {events : List (Nat × Event)} (hstart : start.Fresh)
    (hrun : run planeStep start events = some s) :
    Invariant start.shared s :=
  run_invariant (C := fun _ _ => True) (fun _ _ _ hI _ h => (planeStep_invariant hI h).1)
    (invariant_fresh hstart) (eachStep_of_forall (fun _ _ => trivial) _ _) hrun

theorem plane_extends {base : Database} {s t : Plane} {events : List (Nat × Event)}
    (hs : Invariant base s) (hrun : run planeStep s events = some t) :
    Extends s.shared t.shared :=
  run_relation (R := fun a b : Plane => Extends a.shared b.shared) (C := fun _ _ => True)
    (fun a => Extends.refl a.shared) (fun _ _ _ => Extends.trans)
    (fun _ _ _ hI _ h => planeStep_invariant hI h) hs
    (eachStep_of_forall (fun _ _ => trivial) _ _) hrun

end Solweig.Epochs
