import Solweig.Runner.Stranded

/-!
# Which edits a result answers

A job is for a version of its scenario and carries the last edit of that version. Over every run
of the process the two say the same: the edits up to the watermark of a job are those that were
made below its version. So what a result acknowledges is what its scene has, and no edit is
acknowledged, or swept from the ledger, that no exact result has seen.
-/

namespace Solweig.Runner

open Solweig.Lib Solweig.Realtime Solweig.Store Solweig.Jobs

def eventsOf (db : Database) (w : String) : List EditEventRow :=
  db.editEvents.filter fun e => e.scenarioId = w

/-- The ledger of one scenario: its events are in order, and none above the acknowledged ones is
missing. -/
structure Ledger (db : Database) (row : ScenarioRow) : Prop where
  ascending : (eventsOf db row.scenarioId).Pairwise fun a b => a.sequence < b.sequence
  within : ∀ e ∈ eventsOf db row.scenarioId, e.sequence ≤ row.editSequence
  kept : ∀ sequence, row.ackedSequence < sequence → sequence ≤ row.editSequence →
    ∃ e ∈ eventsOf db row.scenarioId, e.sequence = sequence
  before : ∀ e ∈ eventsOf db row.scenarioId, e.baseSceneVersion < row.sceneVersion
  acked : row.ackedSequence ≤ row.editSequence

/-- An exact result of a scene that has the edit. -/
def Answered (db : Database) (e : EditEventRow) : Prop :=
  ∃ result ∈ db.results, result.scenarioId = e.scenarioId ∧ result.exact = true ∧
    e.baseSceneVersion < result.sceneVersion

/-- The job carries the edits below its version, and those alone. -/
structure Window (db : Database) (row : ScenarioRow) (job : JobRow) : Prop where
  target : job.targetSceneVersion ≤ row.sceneVersion
  watermark : job.editWatermark ≤ row.editSequence
  base : job.baseEditWatermark ≤ row.ackedSequence
  newest : job.targetSceneVersion = row.sceneVersion → job.editWatermark = row.editSequence
  edits : ∀ e ∈ eventsOf db row.scenarioId,
    e.sequence ≤ job.editWatermark ↔ e.baseSceneVersion < job.targetSceneVersion

structure ScenarioLaw (db : Database) (row : ScenarioRow) : Prop where
  ledger : Ledger db row
  answered : ∀ e ∈ eventsOf db row.scenarioId, e.sequence ≤ row.ackedSequence → Answered db e
  windows : ∀ job ∈ db.jobs, job.scenarioId = row.scenarioId → Window db row job

structure Accounted (db : Database) : Prop where
  law : ∀ w row, scenario? db w = some row → ScenarioLaw db row
  events : ∀ e ∈ db.editEvents, (scenario? db e.scenarioId).isSome
  jobs : ∀ job ∈ db.jobs, (scenario? db job.scenarioId).isSome

/-! ## What the law reads -/

section Law

variable {db db' : Database} {row row' : ScenarioRow}

theorem scenario?_id {w : String} (h : scenario? db w = some row) : row.scenarioId = w := by
  simpa using List.find?_some h

theorem Answered.mono {e : EditEventRow} (h : Answered db e)
    (hresults : ∀ result ∈ db.results, result ∈ db'.results) : Answered db' e := by
  obtain ⟨result, hmem, hresult⟩ := h
  exact ⟨result, hresults result hmem, hresult⟩

theorem Window.continues {job job' : JobRow} (h : Window db row job) (hjob : Continues job job') :
    Window db row job' where
  target := hjob.target ▸ h.target
  watermark := hjob.watermark ▸ h.watermark
  base := hjob.baseWatermark ▸ h.base
  newest htarget := by
    rw [hjob.watermark]
    exact h.newest (hjob.target ▸ htarget)
  edits e he := by
    rw [hjob.watermark, hjob.target]
    exact h.edits e he

theorem Window.congr {job : JobRow} (h : Window db row job)
    (hevents : eventsOf db' row.scenarioId = eventsOf db row.scenarioId) : Window db' row job :=
  ⟨h.target, h.watermark, h.base, h.newest, fun e he => h.edits e (hevents ▸ he)⟩

theorem ScenarioLaw.frame (h : ScenarioLaw db row)
    (hevents : eventsOf db' row.scenarioId = eventsOf db row.scenarioId)
    (hresults : ∀ result ∈ db.results, result ∈ db'.results)
    (hjobs : ∀ job ∈ db'.jobs, job.scenarioId = row.scenarioId →
      ∃ old ∈ db.jobs, Continues old job) : ScenarioLaw db' row where
  ledger := by
    obtain ⟨hascending, hwithin, hkept, hbefore, hacked⟩ := h.ledger
    rw [← hevents] at hascending hwithin hkept hbefore
    exact ⟨hascending, hwithin, hkept, hbefore, hacked⟩
  answered e he hseq := (h.answered e (hevents ▸ he) hseq).mono hresults
  windows job hjob hid := by
    obtain ⟨old, hold, hcontinues⟩ := hjobs job hjob hid
    have hwindow := h.windows old hold (hcontinues.scenarioId ▸ hid)
    exact (hwindow.continues hcontinues).congr hevents

theorem eventsOf_own {events : List EditEventRow} {w : String}
    (hevents : db'.editEvents = db.editEvents ++ events) (hown : ∀ e ∈ events, e.scenarioId = w) :
    eventsOf db' w = eventsOf db w ++ events := by
  have hall : events.filter (fun e => e.scenarioId = w) = events :=
    List.filter_eq_self.mpr fun e he => by simp [hown e he]
  rw [eventsOf, hevents, List.filter_append, hall, eventsOf]

theorem eventsOf_congr (hevents : db'.editEvents = db.editEvents) (w : String) :
    eventsOf db' w = eventsOf db w := by
  rw [eventsOf, hevents, eventsOf]

theorem Accounted.update {w : String} {f : ScenarioRow → ScenarioRow} {events : List EditEventRow}
    (h : Accounted db) (hrow : scenario? db w = some row)
    (hscenarios : db'.scenarios = (updateScenario w f db).scenarios)
    (hf : ∀ r, (f r).scenarioId = r.scenarioId)
    (hevents : db'.editEvents = db.editEvents ++ events) (hown : ∀ e ∈ events, e.scenarioId = w)
    (hresults : ∀ result ∈ db.results, result ∈ db'.results)
    (hjobs : ∀ job ∈ db'.jobs, (∃ old ∈ db.jobs, Continues old job) ∨ job.scenarioId = w)
    (hlaw : ScenarioLaw db row → ScenarioLaw db' (f row)) : Accounted db' := by
  have hfind : ∀ v, scenario? db' v = if v = w then (scenario? db v).map f else scenario? db v :=
    fun v => (scenario?_congr hscenarios v).trans (scenario?_updateScenario hf)
  have hsome : ∀ v, (scenario? db v).isSome → (scenario? db' v).isSome := by
    intro v hv
    rw [hfind]
    split <;> simpa using hv
  refine ⟨fun v row' hrow' => ?_, fun e he => ?_, fun job hjob => ?_⟩
  · rw [hfind] at hrow'
    split at hrow'
    · subst v
      rw [hrow, Option.map_some, Option.some.injEq] at hrow'
      exact hrow' ▸ hlaw (h.law w row hrow)
    · rename_i hv
      have hid := scenario?_id hrow'
      refine (h.law v row' hrow').frame ?_ hresults fun job hjob hjobId => ?_
      · have hnone : events.filter (fun e => e.scenarioId = row'.scenarioId) = [] :=
          List.filter_eq_nil_iff.mpr fun e he => by simp [hown e he, hid, Ne.symm hv]
        rw [eventsOf, hevents, List.filter_append, hnone, List.append_nil, eventsOf]
      · rcases hjobs job hjob with hold | hjobw
        · exact hold
        · exact absurd (hid.symm.trans (hjobId.symm.trans hjobw)) hv
  · rw [hevents] at he
    rcases List.mem_append.mp he with he | he
    · exact hsome _ (h.events e he)
    · rw [hown e he]
      exact hsome w (by simp [hrow])
  · rcases hjobs job hjob with ⟨old, hold, hcontinues⟩ | hjobw
    · rw [hcontinues.scenarioId]
      exact hsome _ (h.jobs old hold)
    · rw [hjobw]
      exact hsome w (by simp [hrow])

theorem Accounted.frame (h : Accounted db) (hscenarios : db'.scenarios = db.scenarios)
    (hevents : db'.editEvents = db.editEvents)
    (hresults : ∀ result ∈ db.results, result ∈ db'.results)
    (hjobs : ∀ job ∈ db'.jobs, ∃ old ∈ db.jobs, Continues old job) : Accounted db' := by
  have hfind := scenario?_congr hscenarios
  refine ⟨fun v row' hrow' => ?_, fun e he => ?_, fun job hjob => ?_⟩
  · rw [hfind] at hrow'
    exact (h.law v row' hrow').frame (eventsOf_congr hevents _) hresults
      fun job hjob _ => hjobs job hjob
  · rw [hfind]
    exact h.events e (hevents ▸ he)
  · obtain ⟨old, hold, hcontinues⟩ := hjobs job hjob
    rw [hfind, hcontinues.scenarioId]
    exact h.jobs old hold

/-! ## One change -/

theorem continues_updateWhere {p : JobRow → Bool} {f : JobRow → JobRow} {jobs : List JobRow}
    (hf : ∀ job, Continues job (f job)) {job : JobRow} (hjob : job ∈ updateWhere p f jobs) :
    ∃ old ∈ jobs, Continues old job := by
  obtain ⟨old, hold, rfl⟩ := mem_updateWhere.mp hjob
  refine ⟨old, hold, ?_⟩
  split
  · exact hf old
  · exact Continues.refl old

theorem continues_supersede {w now : String} {except : Option String} {jobs : List JobRow}
    {job : JobRow} (hjob : job ∈ supersede w except now jobs) : ∃ old ∈ jobs, Continues old job :=
  continues_updateWhere (fun job => continues_status job _ _) hjob

theorem continues_queued {w now : String} {except : Option String} {added : JobRow}
    (hjobs : db'.jobs = supersede w except now (db.jobs ++ [added])) {job : JobRow}
    (hjob : job ∈ db'.jobs) : (∃ old ∈ db.jobs, Continues old job) ∨ Continues added job := by
  rw [hjobs] at hjob
  obtain ⟨old, hold, hcontinues⟩ := continues_supersede hjob
  rcases List.mem_append.mp hold with hold | hold
  · exact Or.inl ⟨old, hold, hcontinues⟩
  · obtain rfl := List.mem_singleton.mp hold
    exact Or.inr hcontinues

/-- A batch or a reset: new events at the current version, which is left behind. -/
structure Grown (db db' : Database) (row row' : ScenarioRow) (events : List EditEventRow) : Prop where
  id : row'.scenarioId = row.scenarioId
  version : row'.sceneVersion = row.sceneVersion + 1
  sequence : row'.editSequence = row.editSequence + events.length
  ackedLow : row.ackedSequence ≤ row'.ackedSequence
  ackedHigh : row'.ackedSequence ≤ row'.editSequence
  appended : eventsOf db' row.scenarioId = eventsOf db row.scenarioId ++ events
  numbered : events.map (·.sequence) = List.range' (row.editSequence + 1) events.length
  base : ∀ e ∈ events, e.baseSceneVersion = row.sceneVersion

section Grown

variable {events : List EditEventRow} (hgrown : Grown db db' row row' events)

include hgrown

theorem Grown.above {e : EditEventRow} (he : e ∈ events) :
    row.editSequence < e.sequence ∧ e.sequence ≤ row'.editSequence := by
  have hmem : e.sequence ∈ events.map (·.sequence) := List.mem_map_of_mem he
  rw [hgrown.numbered, List.mem_range'_1] at hmem
  have := hgrown.sequence
  omega

theorem Grown.mem {e : EditEventRow} (he : e ∈ eventsOf db' row'.scenarioId) :
    e ∈ eventsOf db row.scenarioId ∨ e ∈ events := by
  rw [hgrown.id, hgrown.appended] at he
  exact List.mem_append.mp he

theorem Grown.ledger (h : Ledger db row) : Ledger db' row' := by
  have hversion := hgrown.version
  have hsequence := hgrown.sequence
  constructor
  · rw [hgrown.id, hgrown.appended]
    refine List.pairwise_append.mpr ⟨h.ascending, ?_, fun a ha b hb => ?_⟩
    · have hsorted : (events.map (·.sequence)).Pairwise (· < ·) :=
        hgrown.numbered ▸ List.pairwise_lt_range'
      exact List.pairwise_map.mp hsorted
    · have := h.within a ha
      have := hgrown.above hb
      omega
  · intro e he
    rcases hgrown.mem he with he | he
    · have := h.within e he
      omega
    · exact (hgrown.above he).2
  · intro sequence hlow hhigh
    rw [hgrown.id, hgrown.appended]
    by_cases hold : sequence ≤ row.editSequence
    · obtain ⟨e, he, hseq⟩ := h.kept sequence (Nat.lt_of_le_of_lt hgrown.ackedLow hlow) hold
      exact ⟨e, List.mem_append_left _ he, hseq⟩
    · have hmem : sequence ∈ events.map (·.sequence) := by
        rw [hgrown.numbered, List.mem_range'_1]
        omega
      obtain ⟨e, he, hseq⟩ := List.mem_map.mp hmem
      exact ⟨e, List.mem_append_right _ he, hseq⟩
  · intro e he
    rcases hgrown.mem he with he | he
    · have := h.before e he
      omega
    · rw [hgrown.base e he]
      omega
  · exact hgrown.ackedHigh

theorem Grown.window {job job' : JobRow} (h : Window db row job) (hjob : Continues job job') :
    Window db' row' job' := by
  have hversion := hgrown.version
  have hsequence := hgrown.sequence
  have hacked := hgrown.ackedLow
  have htarget := h.target
  have hwatermark := h.watermark
  have hbase := h.base
  refine Window.continues ⟨?_, ?_, ?_, ?_, fun e he => ?_⟩ hjob
  · omega
  · omega
  · omega
  · omega
  · rcases hgrown.mem he with he | he
    · exact h.edits e he
    · have := hgrown.above he
      have := hgrown.base e he
      omega

theorem Grown.law (h : ScenarioLaw db row) (hresults : ∀ result ∈ db.results, result ∈ db'.results)
    (hanswered : ∀ e ∈ eventsOf db' row'.scenarioId, row.ackedSequence < e.sequence →
      e.sequence ≤ row'.ackedSequence → Answered db' e)
    (hjobs : ∀ job ∈ db'.jobs, job.scenarioId = row.scenarioId →
      (∃ old ∈ db.jobs, Continues old job) ∨ Window db' row' job) : ScenarioLaw db' row' where
  ledger := hgrown.ledger h.ledger
  answered := by
    intro e he hseq
    by_cases hold : e.sequence ≤ row.ackedSequence
    · rcases hgrown.mem he with hmem | hmem
      · exact (h.answered e hmem hold).mono hresults
      · have := (hgrown.above hmem).1
        have := h.ledger.acked
        omega
    · exact hanswered e he (Nat.lt_of_not_le hold) hseq
  windows := by
    intro job hjob hid
    rw [hgrown.id] at hid
    rcases hjobs job hjob hid with ⟨old, hold, hcontinues⟩ | hwindow
    · exact hgrown.window (h.windows old hold (hcontinues.scenarioId ▸ hid)) hcontinues
    · exact hwindow

end Grown

theorem Ledger.window (h : Ledger db row) {job : JobRow}
    (htarget : job.targetSceneVersion = row.sceneVersion)
    (hwatermark : job.editWatermark = row.editSequence)
    (hbase : job.baseEditWatermark ≤ row.ackedSequence) : Window db row job := by
  refine ⟨htarget.le, hwatermark.le, hbase, fun _ => hwatermark, fun e he => ?_⟩
  have := h.within e he
  have := h.before e he
  omega

theorem Ledger.widen (h : Ledger db row) (hevents : eventsOf db' row.scenarioId =
      eventsOf db row.scenarioId) (hid : row'.scenarioId = row.scenarioId)
    (hversion : row.sceneVersion ≤ row'.sceneVersion)
    (hsequence : row'.editSequence = row.editSequence)
    (hlow : row.ackedSequence ≤ row'.ackedSequence)
    (hhigh : row'.ackedSequence ≤ row.editSequence) : Ledger db' row' := by
  constructor
  · rw [hid, hevents]
    exact h.ascending
  · rw [hid, hevents, hsequence]
    exact h.within
  · rw [hid, hevents, hsequence]
    exact fun s hs => h.kept s (Nat.lt_of_le_of_lt hlow hs)
  · rw [hid, hevents]
    exact fun e he => Nat.lt_of_lt_of_le (h.before e he) hversion
  · omega

theorem ScenarioLaw.widen (h : ScenarioLaw db row)
    (hevents : eventsOf db' row.scenarioId = eventsOf db row.scenarioId)
    (hid : row'.scenarioId = row.scenarioId) (hversion : row.sceneVersion ≤ row'.sceneVersion)
    (hsequence : row'.editSequence = row.editSequence)
    (hlow : row.ackedSequence ≤ row'.ackedSequence)
    (hhigh : row'.ackedSequence ≤ row.editSequence)
    (hresults : ∀ result ∈ db.results, result ∈ db'.results)
    (hanswered : ∀ e ∈ eventsOf db row.scenarioId, row.ackedSequence < e.sequence →
      e.sequence ≤ row'.ackedSequence → Answered db' e)
    (hjobs : ∀ job ∈ db'.jobs, job.scenarioId = row.scenarioId →
      (∃ old ∈ db.jobs, Continues old job) ∨ Window db' row' job) : ScenarioLaw db' row' where
  ledger := h.ledger.widen hevents hid hversion hsequence hlow hhigh
  answered := by
    intro e he hseq
    rw [hid, hevents] at he
    by_cases hold : e.sequence ≤ row.ackedSequence
    · exact (h.answered e he hold).mono hresults
    · exact hanswered e he (Nat.lt_of_not_le hold) hseq
  windows := by
    intro job hjob hjobId
    rw [hid] at hjobId
    rcases hjobs job hjob hjobId with ⟨old, hold, hcontinues⟩ | hwindow
    · have hwindow := h.windows old hold (hcontinues.scenarioId ▸ hjobId)
      have htarget := hwindow.target
      have hwatermark := hwindow.watermark
      have hbase := hwindow.base
      have hnewest := hwindow.newest
      refine Window.continues ⟨by omega, by omega, by omega, by omega, fun e he => ?_⟩ hcontinues
      rw [hid, hevents] at he
      exact hwindow.edits e he
    · exact hwindow

theorem Accounted.create {w : String} {fresh : ScenarioRow} (h : Accounted db)
    (hfree : scenario? db w = none) (hid : fresh.scenarioId = w) (hversion : fresh.sceneVersion = 0)
    (hsequence : fresh.editSequence = 0) (hacked : fresh.ackedSequence = 0)
    (hscenarios : db'.scenarios = db.scenarios ++ [fresh])
    (hevents : db'.editEvents = db.editEvents)
    (hresults : ∀ result ∈ db.results, result ∈ db'.results)
    (hjobs : ∀ job ∈ db'.jobs, job ∈ db.jobs ∨
      job.scenarioId = w ∧ job.targetSceneVersion = 0 ∧ job.editWatermark = 0 ∧
        job.baseEditWatermark = 0) : Accounted db' := by
  have hfind : ∀ v, scenario? db' v = if v = w then some fresh else scenario? db v := by
    intro v
    unfold scenario? at hfree ⊢
    rw [hscenarios, List.find?_append]
    split
    · subst v
      simp [hfree, hid]
    · rename_i hv
      simp [hid, Ne.symm hv]
  have hsome : ∀ v, (scenario? db v).isSome → (scenario? db' v).isSome := by
    intro v hv
    rw [hfind]
    split
    · rfl
    · exact hv
  have hnone : eventsOf db' w = [] := by
    refine List.filter_eq_nil_iff.mpr fun e he => ?_
    rw [hevents] at he
    have hfound := h.events e he
    intro heq
    rw [of_decide_eq_true heq, hfree] at hfound
    cases hfound
  refine ⟨fun v row' hrow' => ?_, fun e he => hsome _ (h.events e (hevents ▸ he)),
    fun job hjob => ?_⟩
  · rw [hfind] at hrow'
    split at hrow'
    · subst v
      obtain rfl := Option.some.inj hrow'
      rw [← hid] at hnone
      have hledger : Ledger db' fresh := by
        constructor
        · simp [hnone]
        · simp [hnone]
        · intro s hlow hhigh
          omega
        · simp [hnone]
        · omega
      refine ⟨hledger, by simp [hnone], fun job hjob hjobId => ?_⟩
      rcases hjobs job hjob with hold | ⟨-, htarget, hwatermark, hbase⟩
      · have hfound := h.jobs job hold
        rw [hjobId, hid, hfree] at hfound
        cases hfound
      · exact hledger.window (htarget.trans hversion.symm) (hwatermark.trans hsequence.symm)
          (hbase ▸ Nat.zero_le _)
    · rename_i hv
      have hrowId := scenario?_id hrow'
      refine (h.law v row' hrow').frame (eventsOf_congr hevents _) hresults fun job hjob hjobId => ?_
      rcases hjobs job hjob with hold | ⟨hjobw, -⟩
      · exact ⟨job, hold, Continues.refl job⟩
      · exact absurd (hrowId.symm.trans (hjobId.symm.trans hjobw)) hv
  · rcases hjobs job hjob with hold | ⟨hjobw, -⟩
    · exact hsome _ (h.jobs job hold)
    · rw [hfind, if_pos hjobw]
      rfl

theorem Accounted.sweep (h : Accounted db) (eventTail : Nat) : Accounted
    { db with editEvents := db.editEvents.filter fun event => ¬ outlived eventTail db event } := by
  have hsub : ∀ e w, e ∈ (db.editEvents.filter fun event => ¬ outlived eventTail db event).filter
      (fun e => e.scenarioId = w) → e ∈ eventsOf db w := by
    intro e w he
    rw [List.mem_filter, List.mem_filter] at he
    exact List.mem_filter.mpr ⟨he.1.1, he.2⟩
  refine ⟨fun w row hrow => ?_, fun e he => h.events e (List.mem_filter.mp he).1, h.jobs⟩
  obtain ⟨hledger, hanswered, hwindows⟩ := h.law w row hrow
  refine ⟨⟨?_, ?_, ?_, ?_, hledger.acked⟩, ?_, ?_⟩
  · have hcomm : (db.editEvents.filter fun event => ¬ outlived eventTail db event).filter
        (fun e => e.scenarioId = row.scenarioId) =
        (eventsOf db row.scenarioId).filter fun event => ¬ outlived eventTail db event :=
      List.filter_comm _ _ _
    show List.Pairwise _ (List.filter _ (List.filter _ _))
    rw [hcomm]
    exact hledger.ascending.filter _
  · exact fun e he => hledger.within e (hsub e _ he)
  · intro s hlow hhigh
    obtain ⟨e, he, hseq⟩ := hledger.kept s hlow hhigh
    refine ⟨e, ?_, hseq⟩
    obtain ⟨hmem, hid⟩ := List.mem_filter.mp he
    refine List.mem_filter.mpr ⟨List.mem_filter.mpr ⟨hmem, ?_⟩, hid⟩
    have hfound : scenario? db e.scenarioId = some row := by
      rw [of_decide_eq_true hid, scenario?_id hrow]
      exact hrow
    simp only [outlived, hfound, Option.any_some, decide_eq_true_eq]
    omega
  · exact fun e he => hledger.before e (hsub e _ he)
  · exact fun e he hseq => hanswered e (hsub e _ he) hseq
  · intro job hjob hid
    obtain ⟨htarget, hwatermark, hbase, hnewest, hedits⟩ := hwindows job hjob hid
    exact ⟨htarget, hwatermark, hbase, hnewest, fun e he => hedits e (hsub e _ he)⟩

theorem Change.accounted {new : Option (String × JobStatus)} (h : Accounted db)
    (hchange : Change db new db') : Accounted db' := by
  have hkept : ∀ job ∈ db.jobs, ∃ old ∈ db.jobs, Continues old job :=
    fun job hjob => ⟨job, hjob, Continues.refl job⟩
  cases hchange with
  | same => exact h
  | created hfree hnew =>
    refine h.create hfree rfl rfl rfl rfl rfl rfl (fun _ hr => hr) fun job hjob => ?_
    rcases List.mem_append.mp hjob with hjob | hjob
    · exact Or.inl hjob
    · obtain rfl := List.mem_singleton.mp hjob
      exact Or.inr ⟨rfl, rfl, rfl, rfl⟩
  | baseline checksum now hfree =>
    exact h.create hfree rfl rfl rfl rfl rfl rfl (fun _ hr => List.mem_append_left _ hr)
      fun job hjob => Or.inl hjob
  | @edited request events row jobId carries now hrow hbase hbatch hnew =>
    have hid := scenario?_id hrow
    refine h.update hrow rfl (fun _ => rfl) rfl hbatch.scenario (fun _ hr => hr) ?_ fun hlaw => ?_
    · intro job hjob
      rcases continues_queued rfl hjob with hold | hcontinues
      · exact Or.inl hold
      · exact Or.inr hcontinues.scenarioId
    · have hgrown : ∀ after : Database, after.editEvents = db.editEvents ++ events →
          Grown db after row (row.edited (row.sceneVersion + 1)
            (row.editSequence + events.length) carries now) events := by
        intro after hafter
        refine ⟨rfl, rfl, rfl, le_refl _, Nat.le_add_right_of_le hlaw.ledger.acked, ?_,
          hbatch.numbered, fun e he => (hbatch.base e he).trans hbase⟩
        exact eventsOf_own hafter fun e he => (hbatch.scenario e he).trans hid.symm
      refine (hgrown _ rfl).law hlaw (fun _ hr => hr)
        (fun e _ hlow hhigh => absurd hhigh (Nat.not_le_of_lt hlow)) fun job hjob _ => ?_
      rcases continues_queued rfl hjob with hold | hcontinues
      · exact Or.inl hold
      · refine Or.inr (Window.continues ?_ hcontinues)
        exact ((hgrown _ rfl).ledger hlaw.ledger).window rfl rfl (le_refl _)
  | @reset row w event checksum now hrow hscenario hbase hsequence =>
    have hid := scenario?_id hrow
    refine h.update hrow rfl (fun _ => rfl) rfl (by simpa using hscenario)
      (fun _ hr => List.mem_append_left _ hr)
      (fun job hjob => Or.inl (continues_supersede hjob)) fun hlaw => ?_
    have hacked := hlaw.ledger.acked
    have hgrown : ∀ after : Database, after.editEvents = db.editEvents ++ [event] →
        Grown db after row
          (row.resetTo (row.sceneVersion + 1) (row.editSequence + 1) now) [event] := by
      intro after hafter
      refine ⟨rfl, rfl, rfl, ?_, ?_, ?_, by simp [hsequence], by simpa using hbase⟩
      · simp only [ScenarioRow.resetTo, ScenarioRow.published, ScenarioRow.reset]
        omega
      · simp [ScenarioRow.resetTo, ScenarioRow.published, ScenarioRow.reset]
      · exact eventsOf_own hafter (by simpa using hscenario.trans hid.symm)
    refine (hgrown _ rfl).law hlaw (fun _ hr => List.mem_append_left _ hr) (fun e he _ _ => ?_)
      fun job hjob _ => Or.inl (continues_supersede hjob)
    -- the baseline is a result past every edit
    refine ⟨_, List.mem_append_right _ (List.mem_singleton_self _), ?_, rfl, ?_⟩
    · have howner := of_decide_eq_true (List.mem_filter.mp he).2
      exact (howner.trans hid).symm
    · exact ((hgrown _ rfl).ledger hlaw.ledger).before e he
  | @revised row w now hrow =>
    refine h.update hrow rfl (fun _ => rfl) (List.append_nil _).symm (by simp) (fun _ hr => hr)
      (fun job hjob => Or.inl (hkept job hjob)) fun hlaw => ?_
    exact hlaw.widen rfl rfl (Nat.le_succ _) rfl (le_refl _) hlaw.ledger.acked (fun _ hr => hr)
      (fun e _ hlow hhigh => absurd hhigh (Nat.not_le_of_lt hlow))
      fun job hjob _ => Or.inl (hkept job hjob)
  | @advanced row w now revision observed hrow hrevision =>
    refine h.update hrow rfl (fun _ => rfl) (List.append_nil _).symm (by simp) (fun _ hr => hr)
      (fun job hjob => Or.inl (hkept job hjob)) fun hlaw => ?_
    exact hlaw.widen rfl rfl (le_refl _) rfl (le_refl _) hlaw.ledger.acked (fun _ hr => hr)
      (fun e _ hlow hhigh => absurd hhigh (Nat.not_le_of_lt hlow))
      fun job hjob _ => Or.inl (hkept job hjob)
  | @minted row w jobId now marker hrow howned hmarker hnew =>
    have hsame : db.scenarios = (updateScenario w id db).scenarios := by
      simp [updateScenario, updateWhere]
    refine h.update hrow hsame (fun _ => rfl) (List.append_nil _).symm (by simp) (fun _ hr => hr)
      (fun job hjob => ?_) fun hlaw => ?_
    · rcases continues_queued rfl hjob with hold | hcontinues
      · exact Or.inl hold
      · exact Or.inr hcontinues.scenarioId
    · refine hlaw.widen rfl rfl (le_refl _) rfl (le_refl _) hlaw.ledger.acked (fun _ hr => hr)
        (fun e _ hlow hhigh => absurd hhigh (Nat.not_le_of_lt hlow)) fun job hjob _ => ?_
      rcases continues_queued rfl hjob with hold | hcontinues
      · exact Or.inl hold
      · refine Or.inr (Window.continues ?_ hcontinues)
        exact (hlaw.ledger.window rfl rfl (le_refl _)).congr rfl
  | marked jobId =>
    exact h.frame rfl rfl (fun _ hr => hr)
      fun job hjob => continues_updateWhere (fun job => continues_status job _ _) hjob
  | finished jobId now hqueued hrunning =>
    exact h.frame rfl rfl (fun _ hr => hr)
      fun job hjob => continues_updateWhere (fun job => continues_status job _ _) hjob
  | requeued jobId from_ =>
    exact h.frame rfl rfl (fun _ hr => hr)
      fun job hjob => continues_updateWhere (fun job => continues_status job _ _) hjob
  | @published job row checksum now acked hjob hrunning hrow hversion hacked hnewest =>
    refine h.update hrow rfl (fun _ => rfl) (List.append_nil _).symm (by simp)
      (fun _ hr => List.mem_append_left _ hr) (fun job hjob => Or.inl (hkept job hjob))
      fun hlaw => ?_
    have hid := scenario?_id hrow
    have hwindow := hlaw.windows job hjob hid.symm
    have hwatermark := hwindow.watermark
    have hledger := hlaw.ledger.acked
    have hbound : acked.getD 0 ≤ job.editWatermark := by
      rcases hacked with rfl | rfl <;> simp
    refine hlaw.widen rfl rfl (le_refl _) rfl (Nat.le_max_left _ _) ?_
      (fun _ hr => List.mem_append_left _ hr) (fun e he hlow hhigh => ?_)
      fun job hjob _ => Or.inl (hkept job hjob)
    · simp only [ScenarioRow.published]
      omega
    · -- what the job acknowledges lies below its version
      simp only [ScenarioRow.published] at hhigh
      have hbase := (hwindow.edits e he).mp (by omega)
      refine ⟨_, List.mem_append_right _ (List.mem_singleton_self _), ?_, rfl, ?_⟩
      · have howner := of_decide_eq_true (List.mem_filter.mp he).2
        exact (howner.trans hid).symm
      · exact hversion ▸ hbase
  | recorded result hrow holder =>
    exact h.frame rfl rfl (fun _ hr => List.mem_append_left _ hr)
      fun job hjob => ⟨job, hjob, Continues.refl job⟩
  | swept eventTail => exact h.sweep eventTail

theorem Accounted.of_core (h : Accounted (core db)) : Accounted db := by
  refine ⟨fun w row hrow => ?_, h.events, h.jobs⟩
  obtain ⟨hledger, hanswered, hwindows⟩ := h.law w row hrow
  refine ⟨⟨hledger.ascending, hledger.within, hledger.kept, hledger.before, hledger.acked⟩,
    hanswered, fun job hjob hid => ?_⟩
  have hwindow := hwindows job hjob hid
  exact ⟨hwindow.target, hwindow.watermark, hwindow.base, hwindow.newest, hwindow.edits⟩

theorem Change.edit_kept {new : Option (String × JobStatus)} {e : EditEventRow} (h : Accounted db)
    (hchange : Change db new db') (he : e ∈ db.editEvents ∨ Answered db e) :
    e ∈ db'.editEvents ∨ Answered db' e := by
  cases hchange with
  | same | created | revised | advanced | minted | marked | finished | requeued => exact he
  | baseline | published | recorded =>
    exact he.imp id fun hanswered => hanswered.mono fun _ hr => List.mem_append_left _ hr
  | edited => exact he.imp (fun hmem => List.mem_append_left _ hmem) id
  | reset =>
    exact he.imp (fun hmem => List.mem_append_left _ hmem)
      fun hanswered => hanswered.mono fun _ hr => List.mem_append_left _ hr
  | swept eventTail =>
    rcases he with hmem | hanswered
    · by_cases hold : outlived eventTail db e = true
      · right
        cases hrow : scenario? db e.scenarioId with
        | none => simp [outlived, hrow] at hold
        | some row =>
          have hid := scenario?_id hrow
          simp only [outlived, hrow, Option.any_some, decide_eq_true_eq] at hold
          refine (h.law _ row hrow).answered e ?_ (by omega)
          exact List.mem_filter.mpr ⟨hmem, by simp [hid]⟩
      · exact Or.inl (List.mem_filter.mpr ⟨hmem, by simpa using hold⟩)
    · exact Or.inr hanswered

end Law

/-! ## Runs -/

theorem empty_accounted : Accounted {} where
  law := by simp [scenario?]
  events := by simp
  jobs := by simp

theorem empty_unique : UniqueJobs {} := List.nodup_nil

theorem run_accounted {events : List RunnerEvent} {r : JobRunner}
    (hrun : run runnerStep (.before {}) events = some r) : Accounted (core r.state.db) :=
  (run_changes (fun _ _ _ _ h hchange => hchange.accounted h) empty_unique empty_accounted hrun).2

/-- Over every run from an empty store, a job for a version of its scenario carries the edits that
were made below that version, and no others; a job for the current version carries them all. -/
theorem job_carries_edits_below {events : List RunnerEvent} {r : JobRunner}
    (hrun : run runnerStep (.before {}) events = some r) {job : JobRow} {row : ScenarioRow}
    (hjob : job ∈ r.state.db.jobs) (hrow : scenario? r.state.db job.scenarioId = some row) :
    (∀ e ∈ r.state.db.editEvents, e.scenarioId = job.scenarioId →
      (e.sequence ≤ job.editWatermark ↔ e.baseSceneVersion < job.targetSceneVersion)) ∧
      job.targetSceneVersion ≤ row.sceneVersion ∧
      (job.targetSceneVersion = row.sceneVersion → job.editWatermark = row.editSequence) ∧
      job.baseEditWatermark ≤ row.ackedSequence := by
  have hid := scenario?_id hrow
  have hwindow := ((run_accounted hrun).of_core.law _ row hrow).windows job hjob hid.symm
  refine ⟨fun e he howner => hwindow.edits e ?_, hwindow.target, hwindow.newest, hwindow.base⟩
  exact List.mem_filter.mpr ⟨he, by simp [howner, hid]⟩

/-- No edit is lost: once it is in the ledger, at every later state it is still there and not
acknowledged, or an exact result of a scene that has it is stored. -/
theorem edit_never_lost {before after : List RunnerEvent} {r r' : JobRunner}
    (hrun : run runnerStep (.before {}) before = some r) (hrun' : run runnerStep r after = some r')
    {e : EditEventRow} (he : e ∈ r.state.db.editEvents) :
    (e ∈ r'.state.db.editEvents ∧ ∀ row, scenario? r'.state.db e.scenarioId = some row →
      row.ackedSequence < e.sequence) ∨ Answered r'.state.db e := by
  have hstep : ∀ s (a : RunnerEvent) t, (Kept s ∧ Accounted (core s.state.db) ∧
      (e ∈ (core s.state.db).editEvents ∨ Answered (core s.state.db) e)) → True →
      runnerStep s a = some t → Kept t ∧ Accounted (core t.state.db) ∧
        (e ∈ (core t.state.db).editEvents ∨ Answered (core t.state.db) e) := by
    rintro s a t ⟨hkept, haccounted, hmem⟩ - hstep
    obtain ⟨hkept', new, hchange⟩ := runnerStep_advances hkept hstep
    exact ⟨hkept', hchange.accounted haccounted, hchange.edit_kept haccounted hmem⟩
  obtain ⟨-, haccounted, hmem | hanswered⟩ := run_invariant (C := fun _ _ => True) hstep
    ⟨run_kept empty_unique hrun, run_accounted hrun, Or.inl he⟩
    (eachStep_of_forall (fun _ _ => trivial) _ _) hrun'
  · by_cases hacked : ∀ row, scenario? r'.state.db e.scenarioId = some row →
        row.ackedSequence < e.sequence
    · exact Or.inl ⟨hmem, hacked⟩
    · simp only [not_forall, Nat.not_lt] at hacked
      obtain ⟨row, hrow, hle⟩ := hacked
      right
      refine (haccounted.of_core.law _ row hrow).answered e ?_ hle
      exact List.mem_filter.mpr ⟨hmem, by simp [scenario?_id hrow]⟩
  · exact Or.inr hanswered

/-! ### An edit that is solved and then swept -/

def newScenario : RunnerCall :=
  .createScenario
    { scenarioId := "w", maxScenarios := none, idempotencyKey := none, requestFingerprint := none }
    "j0" (some fun _ _ => .ok "c0") "t0" fun _ _ => { statusCode := 201, body := .null }

def solvedWork : RunnerEvent :=
  .work {
    tick := quietTick
    solved := some ({ status := .published, sceneVersion := 1, checksum := "c1" }, some "full")
    today := "d1"
    lastFull := none
    idleGrace := 300 }

/-- The job of the edit runs to its end, and a sweep with no tail follows. -/
def editSolved : List RunnerEvent :=
  [.start, .call 0 newScenario, quietWork, quietWork, quietWork, .call 0 oneEdit] ++
    List.replicate 4 (.serve 0 { tick := quietTick, funnelled := none }) ++ [.take] ++
    List.replicate 17 solvedWork ++ [.sweep (fun _ => false) 0]

def addedEvent : EditEventRow where
  scenarioId := "w"
  sequence := 1
  eventId := "e1"
  baseSceneVersion := 0
  operation := "add"
  treeId := some "t1"
  newTree := some (.obj [])
  submittedAt := "t1"
  idempotencyKey := none

theorem job_carries_edits_below_solved :
    ∃ (r : JobRunner) (job : JobRow) (row : ScenarioRow),
      run runnerStep (.before {}) (editSolved.take 28) = some r ∧
      job ∈ r.state.db.jobs ∧ job.status = .complete ∧
      (∀ e ∈ r.state.db.editEvents, e.scenarioId = job.scenarioId →
        (e.sequence ≤ job.editWatermark ↔ e.baseSceneVersion < job.targetSceneVersion)) ∧
      job.targetSceneVersion ≤ row.sceneVersion ∧
      (job.targetSceneVersion = row.sceneVersion → job.editWatermark = row.editSequence) ∧
      job.baseEditWatermark ≤ row.ackedSequence := by
  have hrun : ((run runnerStep (.before {}) (editSolved.take 28)).bind fun r =>
      (job? r.state.db "j1").bind fun job => (scenario? r.state.db job.scenarioId).map fun _ =>
        job.status) = some .complete := by decide
  obtain ⟨r, hr, hrest⟩ := Option.bind_eq_some_iff.mp hrun
  obtain ⟨job, hjob, hrest⟩ := Option.bind_eq_some_iff.mp hrest
  obtain ⟨row, hrow, hstatus⟩ := Option.map_eq_some_iff.mp hrest
  have hmem := List.mem_of_find?_eq_some hjob
  exact ⟨r, job, row, hr, hmem, hstatus, job_carries_edits_below hr hmem hrow⟩

theorem edit_never_lost_swept :
    ∃ r r', run runnerStep (.before {}) (editSolved.take 6) = some r ∧
      run runnerStep r (editSolved.drop 6) = some r' ∧ addedEvent ∈ r.state.db.editEvents ∧
      ((addedEvent ∈ r'.state.db.editEvents ∧ ∀ row,
        scenario? r'.state.db addedEvent.scenarioId = some row →
          row.ackedSequence < addedEvent.sequence) ∨ Answered r'.state.db addedEvent) := by
  have hrun : ((run runnerStep (.before {}) (editSolved.take 6)).bind fun r =>
      (run runnerStep r (editSolved.drop 6)).map fun r' =>
        (r.state.db.editEvents, r'.state.db.editEvents)) = some ([addedEvent], []) := by
    decide
  obtain ⟨r, hr, hrest⟩ := Option.bind_eq_some_iff.mp hrun
  obtain ⟨r', hr', hevents⟩ := Option.map_eq_some_iff.mp hrest
  have hmem : addedEvent ∈ r.state.db.editEvents := by
    rw [(Prod.mk.inj hevents).1]
    exact List.mem_singleton_self _
  exact ⟨r, r', hr, hr', hmem, edit_never_lost hr hr' hmem⟩

end Solweig.Runner
