import Solweig.Lane.CanonicalFirst
import Solweig.Realtime.AdmissionWindows

/-!
# Reservations

What admission reads of the pending work of the lane, over runs in which the app may restart at
any moment.
-/

namespace Solweig.Lane

open Solweig.Lib Solweig.Realtime Solweig.Store Solweig.Epochs

/-! ## The admission seam -/

/-- The compute that is booked for the pending epoch of a workspace. -/
def reservedMs (running : Bool) (db : Database) (memory : Memory) (workspaceId : String) : Rat :=
  if ¬ running then 0
  else
    match memory.pending[workspaceId]? with
    | none => 0
    | some item =>
      predictEpochComputeMs ((operationsForEpoch db workspaceId item.epochId).map fun record =>
        { sourceFamily := record.sourceFamily, verb := record.verb, payload := record.payload })

def Memory.saturated (bounds : Bounds) (memory : Memory) : Bool :=
  bounds.maxPendingWorkspaces ≤ memory.pending.size

/-! ## Restarts -/

/-- The process ends wherever its threads stand. The store is all that is left. -/
def System.restart (s : System) : System :=
  { s with
    plane := { s.plane with threads := fun _ => .free }
    memory := {}
    place := .idle
    owed := fun _ => none }

inductive BootEvent where
  | system (event : LaneEvent)
  | restart

def bootStep (kernel : FastKernel) (bounds : Bounds) (s : System) : BootEvent → Option System
  | .system event => systemStep kernel bounds s event
  | .restart => some s.restart

/-! ## Due work -/

def fastRevision? (db : Database) (w : String) : Option Nat :=
  (scenario? db w).map (·.fastRevision)

/-- The durable fast revision of the workspace is below `revision`. -/
def Due (db : Database) (w : String) (revision : Nat) : Prop :=
  ∃ fast ∈ fastRevision? db w, fast < revision

/-- `run_once` has come to its end. -/
def LaneAt.over : LaneAt → Bool
  | .publishing [] | .idle => true
  | _ => false

/-- What is pending is due, and so is all that admission counts. -/
structure System.OnlyDueWork (bounds : Bounds) (s : System) : Prop where
  pending : ∀ w item, s.memory.pending[w]? = some item →
    Due s.plane.shared w item.workspaceRevision
  reserved : ∀ running w, reservedMs running s.plane.shared s.memory w ≠ 0 →
    ∃ item, s.memory.pending[w]? = some item ∧ Due s.plane.shared w item.workspaceRevision
  saturated : s.memory.saturated bounds → ∃ ws : List String, ws.Nodup ∧
    bounds.maxPendingWorkspaces ≤ ws.length ∧
    ∀ w ∈ ws, ∃ item, s.memory.pending[w]? = some item ∧
      Due s.plane.shared w item.workspaceRevision

/-- The fast revision of the workspace is advanced, and its pending entry is not yet removed. -/
def LaneAt.Settles (w : String) : LaneAt → Prop
  | .planning _ u _ (.record _) => u = w
  | .planning _ u _ (.broadcast _) => u = w
  | .planning _ u _ (.forget _) => u = w
  | _ => False

/-- Every pending entry is due, but for the one that the lane is about to remove. -/
def System.Reserved (s : System) : Prop :=
  ∀ w item, s.memory.pending[w]? = some item →
    Due s.plane.shared w item.workspaceRevision ∨ s.place.Settles w

/-- The hook puts an entry into the queue. -/
structure Memory.Wakes (bounds : Bounds) (memory : Memory) (w : String) (revision : Nat) :
    Prop where
  unpublished : ∀ last ∈ (memory.publishedKeys.getD w []).getLast?, last < revision
  room : memory.pending[w]? = none → memory.pending.size < bounds.maxPendingWorkspaces
  newer : ∀ current ∈ memory.pending[w]?, current.workspaceRevision < revision

/-- A hook that puts an entry into the queue has work for it, or comes while the lane is about to
remove the entry. -/
def WakesForDueWork (bounds : Bounds) (s : System) : BootEvent → Prop
  | .system (.hook i) => ∀ w e revision, s.owed i = some (w, e, revision) →
      s.memory.Wakes bounds w revision → Due s.plane.shared w revision ∨ s.place.Settles w
  | _ => True

/-! ## What writes the fast revision -/

/-- The columns of the workspaces that the lane looks at first. -/
def fastColumns (db : Database) : List (String × Nat) :=
  db.scenarios.map fun row => (row.scenarioId, row.fastRevision)

section Store

variable {start db db' : Database} {w : String}

theorem fastRevision?_eq (db : Database) (w : String) :
    fastRevision? db w = ((fastColumns db).find? fun entry => entry.1 = w).map (·.2) := by
  unfold fastRevision? scenario? fastColumns
  rw [List.find?_map, Option.map_map]
  rfl

theorem fastRevision?_congr (h : fastColumns db' = fastColumns db) (w : String) :
    fastRevision? db' w = fastRevision? db w := by
  rw [fastRevision?_eq, h, ← fastRevision?_eq]

theorem Due.congr {revision : Nat} (h : fastRevision? db' w = fastRevision? db w)
    (hdue : Due db w revision) : Due db' w revision := by
  unfold Due
  rwa [h]

theorem fastColumns_updateScenario {id : String} {f : ScenarioRow → ScenarioRow}
    (hid : ∀ r, (f r).scenarioId = r.scenarioId)
    (hfast : ∀ r, (f r).fastRevision = r.fastRevision) (db : Database) :
    fastColumns (updateScenario id f db) = fastColumns db := by
  unfold fastColumns updateScenario updateWhere
  simp only [List.map_map]
  apply List.map_congr_left
  intro row _
  simp only [Function.comp_apply]
  split
  · rw [hid, hfast]
  · rfl

theorem fastColumns_congr (h : db'.scenarios = db.scenarios) :
    fastColumns db' = fastColumns db := by
  rw [fastColumns, h, fastColumns]

theorem effect_fastColumns {activity : Activity} (heffect : Effect db activity db')
    (hquiet : ∀ w e place, activity ≠ .publishing w e place) (hlaw : LogLaw db) :
    fastColumns db' = fastColumns db := by
  cases heffect with
  | none => rfl
  | append w items now => exact fastColumns_congr (appendOperations_scenarios hlaw items)
  | mark => rfl
  | commit =>
    rcases commitEpochReduction_spec.scenarios with hdb | ⟨row, -, hdb⟩
    · exact fastColumns_congr hdb
    · rw [fastColumns_congr hdb]
      apply fastColumns_updateScenario <;> exact fun _ => rfl
  | advance now h => exact absurd h (hquiet _ _ _)

theorem publishResult_fastColumns {scenarioId checksum now : String} {sceneVersion : Nat}
    {exact : Bool} {jobId : Option String} {acked : Option Nat} :
    fastColumns (publishResult scenarioId sceneVersion checksum exact jobId acked now db).2 =
      fastColumns db := by
  rcases publishResult_scenarios with ⟨row, -, hdb⟩ | ⟨-, hdb⟩
  · rw [fastColumns_congr hdb]
    apply fastColumns_updateScenario <;> exact fun _ => rfl
  · exact fastColumns_congr hdb

theorem exactAction_fastColumns {action : RevisionAction}
    (haction : isExactPublication action = true) (hstep : revisionStep db action = some db') :
    fastColumns db' = fastColumns db := by
  cases action <;> simp only [isExactPublication, Bool.false_eq_true] at haction
  case publishResult =>
    obtain rfl := Option.some.inj hstep
    exact publishResult_fastColumns
  case republishResultAtVersion source _ _ _ _ _ =>
    obtain rfl := Option.some.inj hstep
    cases source with
    | none => rfl
    | some row => exact publishResult_fastColumns
  all_goals
    have hdb := Option.some.inj hstep
    rw [← hdb]
    rfl

theorem scenarioIds_advance (w : String) (revision observed : Nat) (now : String) :
    (updateScenario w (·.advance revision observed now) db).scenarios.map (·.scenarioId) =
      db.scenarios.map (·.scenarioId) := by
  unfold updateScenario updateWhere
  simp only [List.map_map]
  apply List.map_congr_left
  intro row _
  simp only [Function.comp_apply]
  split <;> rfl

theorem fastRevision?_advance {u : String} (revision observed : Nat) (now : String) (h : u ≠ w) :
    fastRevision? (updateScenario w (·.advance revision observed now) db) u =
      fastRevision? db u := by
  unfold fastRevision?
  rw [scenario?_updateScenario, if_neg h]
  exact fun _ => rfl

end Store

/-! ## What holds across restarts -/

/-- What the scan has read of a workspace still stands: only the lane moves the fast revision. -/
def LaneAt.Scans (db : Database) : LaneAt → Prop
  | .targeting rows scanned =>
    (∀ row ∈ rows, fastRevision? db row.scenarioId = some row.fastRevision) ∧
      ∀ entry ∈ scanned, Due db entry.1 entry.2.workspaceRevision
  | .queueing scanned => ∀ entry ∈ scanned, Due db entry.1 entry.2.workspaceRevision
  | _ => True

structure Booted (start : Database) (s : System) : Prop where
  lane : Invariant start s
  quiet : ∀ i w e place, (s.plane.threads i).activity ≠ .publishing w e place
  keyed : (s.plane.shared.scenarios.map (·.scenarioId)).Nodup
  scans : s.place.Scans s.plane.shared

section Steps

variable {start : Database} {kernel : FastKernel} {bounds : Bounds} {s t : System}

theorem LaneAt.Scans.congr {db db' : Database} {place : LaneAt}
    (h : fastColumns db' = fastColumns db) (hs : place.Scans db) : place.Scans db' := by
  have hfast := fastRevision?_congr h
  cases place with
  | targeting rows scanned =>
    refine ⟨fun row hrow => ?_, fun entry hentry => (hs.2 entry hentry).congr (hfast _)⟩
    rw [hfast]
    exact hs.1 row hrow
  | queueing scanned => exact fun entry hentry => (hs entry hentry).congr (hfast _)
  | _ => trivial

theorem fastRevision?_of_mem {db : Database} (hkeyed : (db.scenarios.map (·.scenarioId)).Nodup)
    {row : ScenarioRow} (hrow : row ∈ db.scenarios) :
    fastRevision? db row.scenarioId = some row.fastRevision := by
  unfold fastRevision? scenario?
  generalize db.scenarios = rows at hkeyed hrow
  induction rows with
  | nil => simp at hrow
  | cons first rest ih =>
    rw [List.map_cons, List.nodup_cons] at hkeyed
    rcases List.mem_cons.mp hrow with rfl | hrest
    · simp
    · have hne : first.scenarioId ≠ row.scenarioId := fun heq =>
        hkeyed.1 (heq ▸ List.mem_map_of_mem hrest)
      rw [List.find?_cons_of_neg (by simpa using hne)]
      exact ih hkeyed.2 hrest

theorem discovered?_due {db : Database} {row : ScenarioRow} {entry : String × PendingItem}
    (hrow : fastRevision? db row.scenarioId = some row.fastRevision)
    (h : discovered? row (epochRecords db row.scenarioId) = some entry) :
    Due db entry.1 entry.2.workspaceRevision := by
  unfold discovered? at h
  obtain ⟨⟨e, revision⟩, hmax, rfl⟩ := Option.map_eq_some_iff.mp h
  have hmem := List.argmax_mem hmax
  unfold dueEpochs at hmem
  obtain ⟨epoch, -, hepoch⟩ := List.mem_filterMap.mp hmem
  obtain ⟨r, -, hr⟩ := Option.bind_eq_some_iff.mp hepoch
  split at hr
  · rename_i hbetween
    obtain ⟨rfl, rfl⟩ := Prod.mk.inj (Option.some.inj hr)
    exact ⟨row.fastRevision, hrow, hbetween.1⟩
  · simp at hr

theorem act_quiet {db db' : Database} {thread thread' : Thread} {event : Event}
    (hevent : isFastCall event = false) (h : act db thread event = some (db', thread'))
    (hquiet : ∀ w e place, thread.activity ≠ .publishing w e place) :
    ∀ w e place, thread'.activity ≠ .publishing w e place := by
  rcases act_begin h with ⟨due, now, rfl, hstep⟩ | ⟨rfl, raised, hraise, heq⟩ | ⟨-, hbegin⟩
  · cases hactivity : thread.activity with
    | publishing w e place => exact absurd hactivity (hquiet w e place)
    | idle =>
      simp only [proceed, hactivity, Option.map_eq_some_iff, Prod.mk.injEq] at hstep
      obtain ⟨next, hnext, -, rfl⟩ := hstep
      revert hnext
      rcases thread.tasks with _ | ⟨_ | _ | _, rest⟩ <;> simp [nextTask] <;> rintro rfl <;> simp
    | closing w e place =>
      simp only [proceed, hactivity, Option.some.injEq, Prod.mk.injEq] at hstep
      obtain ⟨-, rfl⟩ := hstep
      rcases (closeStep w e now db place).2 with _ | place' <;> simp
    | consuming w through =>
      simp only [proceed, hactivity, Option.some.injEq, Prod.mk.injEq] at hstep
      obtain ⟨-, rfl⟩ := hstep
      simp
    | settling w rest =>
      rcases rest with _ | ⟨⟨e, revision⟩, rest⟩ <;>
        simp only [proceed, hactivity, Option.some.injEq, Prod.mk.injEq] at hstep <;>
        obtain ⟨-, rfl⟩ := hstep <;> simp
  · obtain ⟨-, rfl⟩ := Prod.mk.inj heq
    unfold raise at hraise
    split at hraise
    · split at hraise <;> simp at hraise <;> subst hraise <;> simp [Thread.free]
    · obtain rfl := Option.some.inj hraise
      simp
  · cases event <;>
      simp only [begin, isFastCall, Option.some.injEq, Prod.mk.injEq, reduceCtorEq] at hbegin hevent
        <;> obtain ⟨-, rfl⟩ := hbegin <;> simp [Thread.free]

/-! ## One step -/

theorem scenarioIds_eq {db db' : Database} (h : fastColumns db' = fastColumns db) :
    db'.scenarios.map (·.scenarioId) = db.scenarios.map (·.scenarioId) := by
  have hids := congrArg (List.map Prod.fst) h
  simpa [fastColumns, Function.comp_def] using hids

theorem System.Reserved.move (hs : s.Reserved)
    (hpending : t.memory.pending = s.memory.pending)
    (hdue : ∀ w revision, Due s.plane.shared w revision →
      Due t.plane.shared w revision ∨ t.place.Settles w)
    (hsettles : ∀ w, s.place.Settles w → t.place.Settles w) : t.Reserved := by
  intro w item hitem
  rw [hpending] at hitem
  rcases hs w item hitem with hwork | hplace
  · exact hdue w _ hwork
  · exact Or.inr (hsettles w hplace)

theorem System.Reserved.aside (hs : s.Reserved)
    (hpending : t.memory.pending = s.memory.pending)
    (hfast : fastColumns t.plane.shared = fastColumns s.plane.shared)
    (hsettles : ∀ w, s.place.Settles w → t.place.Settles w) : t.Reserved :=
  hs.move hpending (fun w _ hdue => Or.inl (hdue.congr (fastRevision?_congr hfast w))) hsettles

theorem prepareStep_fastColumns (db : Database) (w : String) (e : Nat) (now : String)
    (place : PublishAt) : fastColumns (prepareStep w e now db place).1 = fastColumns db := by
  cases place <;> rfl

theorem prepared_plane {ready : List (String × PendingItem)} {w : String} {item : PendingItem}
    {read : Database × Option PublishAt} (hfast : fastColumns read.1 = fastColumns s.plane.shared) :
    (s.prepared ready w item read).plane.threads = s.plane.threads ∧
      fastColumns (s.prepared ready w item read).plane.shared = fastColumns s.plane.shared ∧
      (s.prepared ready w item read).memory = s.memory ∧
      (s.prepared ready w item read).place.Scans (s.prepared ready w item read).plane.shared := by
  rcases read with ⟨db, _ | place⟩ <;> exact ⟨rfl, hfast, rfl, trivial⟩

theorem publishStep_plane {ready : List (String × PendingItem)} {w : String} {item : PendingItem}
    {late : Bool} {now : String} {place : PublishAt}
    (h : publishStep kernel bounds s ready w item late now place = t) :
    t.plane.threads = s.plane.threads ∧
      t.plane.shared.scenarios.map (·.scenarioId) = s.plane.shared.scenarios.map (·.scenarioId) ∧
      t.place.Scans t.plane.shared := by
  subst h
  cases place with
  | kernel | record | broadcast | forget => exact ⟨rfl, rfl, trivial⟩
  | advance plan exact late =>
    rw [publishStep]
    rcases advanceStep_cases kernel w now plan exact late s.plane.shared with
      ⟨row, -, -, heq⟩ | ⟨-, heq⟩
    · rw [heq]
      exact ⟨rfl, scenarioIds_advance w _ exact now, trivial⟩
    · rw [heq]
      exact ⟨rfl, rfl, trivial⟩
  | epoch | scenario | operations | canonical | mark =>
    obtain ⟨hthreads, hfast, -, hscans⟩ := prepared_plane
      (prepareStep_fastColumns s.plane.shared w item.epochId now _)
    exact ⟨hthreads, scenarioIds_eq hfast, hscans⟩

theorem publishStep_reserved {ready : List (String × PendingItem)} {w : String}
    {item : PendingItem} {late : Bool} {now : String} {place : PublishAt} (hs : s.Reserved)
    (hplace : s.place = .planning ready w item place)
    (h : publishStep kernel bounds s ready w item late now place = t) : t.Reserved := by
  subst h
  cases place with
  | kernel plan exact =>
    refine hs.aside rfl rfl ?_
    simp [hplace, LaneAt.Settles]
  | record publication =>
    refine hs.aside rfl rfl ?_
    simp [hplace, publishStep, LaneAt.Settles]
  | broadcast publication =>
    refine hs.aside rfl rfl ?_
    simp [hplace, publishStep, LaneAt.Settles]
  | forget revision =>
    intro u entry hentry
    have hkept : (s.memory.pending.erase w)[u]? = some entry := hentry
    have hne : w ≠ u := by
      rintro rfl
      simp at hkept
    rw [Dict.getElem?_erase_of_ne _ hne] at hkept
    rcases hs u entry hkept with hdue | hsettles
    · exact Or.inl hdue
    · rw [hplace] at hsettles
      exact absurd hsettles hne
  | advance plan exact late =>
    have hnone : ∀ u, ¬ s.place.Settles u := by simp [hplace, LaneAt.Settles]
    rw [publishStep]
    rcases advanceStep_cases kernel w now plan exact late s.plane.shared with
      ⟨row, -, -, heq⟩ | ⟨-, heq⟩
    · rw [heq]
      refine hs.move rfl ?_ fun u hu => absurd hu (hnone u)
      intro u revision hdue
      by_cases hu : u = w
      · exact Or.inr hu.symm
      · exact Or.inl (hdue.congr (fastRevision?_advance _ _ _ hu))
    · rw [heq]
      exact hs.aside rfl rfl fun u hu => absurd hu (hnone u)
  | epoch | scenario | operations | canonical | mark =>
    have hnone : ∀ u, ¬ s.place.Settles u := by simp [hplace, LaneAt.Settles]
    obtain ⟨-, hfast, hmemory, -⟩ := prepared_plane
      (prepareStep_fastColumns s.plane.shared w item.epochId now _)
    exact hs.aside (congrArg Memory.pending hmemory) hfast fun u hu => absurd hu (hnone u)

theorem laneStep_scans {choice : Nat} {late : Bool} {now : String} (hbooted : Booted start s)
    (hplace : ∀ ready w item place, s.place ≠ .planning ready w item place)
    (h : laneStep kernel bounds s choice late now s.place = some t) :
    t.place.Scans s.plane.shared := by
  have hscans := hbooted.scans
  generalize hat : s.place = place at hplace hscans h
  cases place with
  | planning => exact absurd rfl (hplace _ _ _ _)
  | superseding rest =>
    rcases rest with _ | ⟨w, rest⟩
    · obtain rfl := Option.some.inj h
      trivial
    · obtain ⟨⟨w', rest'⟩, -, rfl⟩ := Option.map_eq_some_iff.mp h
      dsimp only
      split <;> trivial
  | scanning =>
    obtain rfl := Option.some.inj h
    refine ⟨fun row hrow => ?_, by simp⟩
    exact fastRevision?_of_mem hbooted.keyed (List.mem_filter.mp hrow).1
  | targeting rows scanned =>
    rcases rows with _ | ⟨row, rows⟩ <;> obtain rfl := Option.some.inj h
    · exact hscans.2
    · obtain ⟨hrow, hrows⟩ := List.forall_mem_cons.mp hscans.1
      refine ⟨hrows, fun entry hentry => ?_⟩
      rcases List.mem_append.mp hentry with hold | hnew
      · exact hscans.2 entry hold
      · exact discovered?_due hrow (Option.mem_toList.mp hnew)
  | publishing ready =>
    rcases ready with _ | ⟨entry, ready⟩
    · obtain rfl := Option.some.inj h
      trivial
    · obtain ⟨⟨⟨w, item⟩, ready'⟩, -, rfl⟩ := Option.map_eq_some_iff.mp h
      trivial
  | idle | retiring | rebroadcast | queueing =>
    obtain rfl := Option.some.inj h
    trivial

theorem laneStep_reserved {choice : Nat} {late : Bool} {now : String} (hbooted : Booted start s)
    (hs : s.Reserved) (hplace : ∀ ready w item place, s.place ≠ .planning ready w item place)
    (h : laneStep kernel bounds s choice late now s.place = some t) : t.Reserved := by
  have hscans := hbooted.scans
  have hdue : ∀ w item, s.memory.pending[w]? = some item →
      Due s.plane.shared w item.workspaceRevision := by
    intro w item hitem
    refine (hs w item hitem).resolve_right fun hsettles => ?_
    revert hplace hsettles
    cases s.place <;> simp [LaneAt.Settles]
  have hkept : t.memory.pending = s.memory.pending → t.plane = s.plane → t.Reserved := by
    intro hpending hplane w item hitem
    rw [hpending] at hitem
    rw [hplane]
    exact Or.inl (hdue w item hitem)
  generalize hat : s.place = place at hplace hscans h
  cases place with
  | planning => exact absurd rfl (hplace _ _ _ _)
  | queueing scanned =>
    obtain rfl := Option.some.inj h
    intro w item hitem
    exact Or.inl ((enqueueAll_items (fun _ _ hwork => hwork) hdue hscans).1 w item hitem)
  | superseding rest =>
    rcases rest with _ | ⟨w, rest⟩
    · obtain rfl := Option.some.inj h
      exact hkept rfl rfl
    · obtain ⟨⟨w', rest'⟩, -, rfl⟩ := Option.map_eq_some_iff.mp h
      exact hkept rfl rfl
  | targeting rows scanned =>
    rcases rows with _ | ⟨row, rows⟩ <;> obtain rfl := Option.some.inj h <;> exact hkept rfl rfl
  | publishing ready =>
    rcases ready with _ | ⟨entry, ready⟩
    · obtain rfl := Option.some.inj h
      exact hkept rfl rfl
    · obtain ⟨⟨⟨w, item⟩, ready'⟩, -, rfl⟩ := Option.map_eq_some_iff.mp h
      exact hkept rfl rfl
  | idle | retiring | rebroadcast | scanning =>
    obtain rfl := Option.some.inj h
    exact hkept rfl rfl

/-! ### The hook -/

theorem onEpochClosed_pending (memory : Memory) (w : String) (e revision : Nat) :
    (memory.Wakes bounds w revision ∧ (memory.onEpochClosed bounds w e revision).pending =
      memory.pending.insert w { epochId := e, workspaceRevision := revision }) ∨
    (¬ memory.Wakes bounds w revision ∧
      (memory.onEpochClosed bounds w e revision).pending = memory.pending) := by
  unfold Memory.onEpochClosed
  split
  · rename_i hpublished
    obtain ⟨last, hlast, hle⟩ := hpublished
    refine Or.inr ⟨fun hwakes => ?_, rfl⟩
    have := hwakes.unpublished last hlast
    omega
  · rename_i hpublished
    split
    · rename_i hfull
      refine Or.inr ⟨fun hwakes => ?_, rfl⟩
      have := hwakes.room hfull.1
      omega
    · rename_i hfull
      split
      · rename_i hnewer
        refine Or.inl ⟨⟨fun last hlast => ?_, fun hnone => ?_, hnewer⟩, rfl⟩
        · by_contra hle
          exact hpublished ⟨last, hlast, by omega⟩
        · by_contra hle
          exact hfull ⟨hnone, by omega⟩
      · rename_i hnewer
        exact Or.inr ⟨fun hwakes => hnewer hwakes.newer, rfl⟩

theorem hook_reserved (owed : Nat → Option (String × Nat × Nat)) {w : String} {e revision : Nat}
    (hs : s.Reserved) :
    System.Reserved { s with memory := s.memory.onEpochClosed bounds w e revision, owed } ↔
      (s.memory.Wakes bounds w revision →
        Due s.plane.shared w revision ∨ s.place.Settles w) := by
  unfold System.Reserved
  dsimp only
  rcases onEpochClosed_pending s.memory w e revision with ⟨hwakes, hpending⟩ | ⟨hwakes, hpending⟩
  · rw [hpending]
    constructor
    · intro h _
      exact h w _ Std.ExtTreeMap.getElem?_insert_self
    · intro h u item hitem
      rcases Dict.of_getElem?_insert hitem with ⟨rfl, rfl⟩ | hold
      · exact h hwakes
      · exact hs u item hold
  · rw [hpending]
    exact ⟨fun _ hwakes' => absurd hwakes' hwakes, fun _ => hs⟩

/-! ### All steps -/

theorem booted_restart (h : Booted start s) : Booted start s.restart where
  lane := ⟨⟨h.lane.plane.1, fun _ => trivial⟩, trivial⟩
  quiet := by simp [System.restart, Thread.free]
  keyed := h.keyed
  scans := trivial

theorem bootStep_booted {a : BootEvent} (hs : Booted start s)
    (h : bootStep kernel bounds s a = some t) : Booted start t := by
  cases a with
  | restart =>
    obtain rfl := Option.some.inj h
    exact booted_restart hs
  | system event =>
    have hlane := (systemStep_invariant hs.lane h).1
    simp only [bootStep] at h
    cases event with
    | plane i event =>
      simp only [systemStep] at h
      split at h
      · simp at h
      · rename_i hfree
        rw [not_or] at hfree
        obtain ⟨plane, hplane, rfl⟩ := Option.map_eq_some_iff.mp h
        obtain ⟨hact, hothers⟩ := Threads.step_eq hplane
        obtain ⟨hsame, hplace, -⟩ := noted_eq s i event plane
        have hfast := effect_fastColumns (act_effect hact) (hs.quiet i) hs.lane.plane.1.law
        refine ⟨hlane, ?_, ?_, ?_⟩
        · rw [hsame]
          intro j
          by_cases hj : j = i
          · exact hj ▸ act_quiet (Bool.not_eq_true _ ▸ hfree.1) hact (hs.quiet i)
          · exact hothers j hj ▸ hs.quiet j
        · rw [hsame, scenarioIds_eq hfast]
          exact hs.keyed
        · rw [hsame, hplace]
          exact hs.scans.congr hfast
    | hook i =>
      obtain ⟨⟨w, e, revision⟩, -, rfl⟩ := Option.map_eq_some_iff.mp h
      exact ⟨hlane, hs.quiet, hs.keyed, hs.scans⟩
    | exact action =>
      simp only [systemStep] at h
      split at h
      · obtain ⟨db, hdb, rfl⟩ := Option.map_eq_some_iff.mp h
        have hfast := exactAction_fastColumns ‹_› hdb
        refine ⟨hlane, hs.quiet, ?_, hs.scans.congr hfast⟩
        exact (scenarioIds_eq hfast).symm ▸ hs.keyed
      · simp at h
    | lane choice late now =>
      by_cases hplanning : ∃ ready w item place, s.place = .planning ready w item place
      · obtain ⟨ready, w, item, place, hplace⟩ := hplanning
        simp only [systemStep, hplace, laneStep, Option.some.injEq] at h
        obtain ⟨hthreads, hids, hscans⟩ := publishStep_plane h
        exact ⟨hlane, hthreads ▸ hs.quiet, hids ▸ hs.keyed, hscans⟩
      · have hloop : ∀ ready w item place, s.place ≠ .planning ready w item place :=
          fun ready w item place hplace => hplanning ⟨ready, w, item, place, hplace⟩
        obtain ⟨hplane, -⟩ := laneStep_loop hloop h
        refine ⟨hlane, hplane ▸ hs.quiet, hplane ▸ hs.keyed, ?_⟩
        rw [hplane]
        exact laneStep_scans hs hloop h
    | laneRaise =>
      rcases laneRaise_eq h with rfl | ⟨ready, w, item, place, -, rfl⟩ <;>
        exact ⟨hlane, hs.quiet, hs.keyed, trivial⟩

theorem laneRaise_reserved (hs : s.Reserved) (h : laneRaise s s.place = some t) : t.Reserved := by
  have hnone : ∀ w, ¬ s.place.Settles w := by
    intro w hsettles
    unfold laneRaise at h
    unfold LaneAt.Settles at hsettles
    split at hsettles <;> simp_all
  rcases laneRaise_eq h with rfl | ⟨ready, w, item, place, -, rfl⟩ <;>
    exact hs.aside rfl rfl fun w hw => absurd hw (hnone w)

theorem bootStep_reserved {a : BootEvent} (hbooted : Booted start s) (hs : s.Reserved)
    (h : bootStep kernel bounds s a = some t) : t.Reserved ↔ WakesForDueWork bounds s a := by
  cases a with
  | restart =>
    obtain rfl := Option.some.inj h
    refine iff_of_true ?_ trivial
    intro w item hitem
    simp [System.restart] at hitem
  | system event =>
    simp only [bootStep] at h
    cases event with
    | hook i =>
      obtain ⟨⟨w, e, revision⟩, howed, rfl⟩ := Option.map_eq_some_iff.mp h
      refine (hook_reserved _ hs).trans ?_
      unfold WakesForDueWork
      simp [howed]
    | plane i event =>
      refine iff_of_true ?_ trivial
      simp only [systemStep] at h
      split at h
      · simp at h
      · obtain ⟨plane, hplane, rfl⟩ := Option.map_eq_some_iff.mp h
        obtain ⟨hsame, hplace, hmemory, -⟩ := noted_eq s i event plane
        have hfast := effect_fastColumns (act_effect (Threads.step_eq hplane).1)
          (hbooted.quiet i) hbooted.lane.plane.1.law
        refine hs.aside (congrArg Memory.pending hmemory) ?_ fun w hw => ?_
        · rw [hsame]
          exact hfast
        · rwa [hplace]
    | exact action =>
      refine iff_of_true ?_ trivial
      simp only [systemStep] at h
      split at h
      · obtain ⟨db, hdb, rfl⟩ := Option.map_eq_some_iff.mp h
        exact hs.aside rfl (exactAction_fastColumns ‹_› hdb) fun w hw => hw
      · simp at h
    | lane choice late now =>
      refine iff_of_true ?_ trivial
      by_cases hplanning : ∃ ready w item place, s.place = .planning ready w item place
      · obtain ⟨ready, w, item, place, hplace⟩ := hplanning
        simp only [systemStep, hplace, laneStep, Option.some.injEq] at h
        exact publishStep_reserved hs hplace h
      · exact laneStep_reserved hbooted hs
          (fun ready w item place hplace => hplanning ⟨ready, w, item, place, hplace⟩) h
    | laneRaise => exact iff_of_true (laneRaise_reserved hs h) trivial

/-! ## Runs -/

theorem booted_fresh (h : s.Fresh) (hkeyed : (s.plane.shared.scenarios.map (·.scenarioId)).Nodup) :
    Booted s.plane.shared s where
  lane := invariant_fresh h
  quiet := fun i => by simp [h.plane.free i, Thread.free]
  keyed := hkeyed
  scans := by
    rw [h.place]
    trivial

theorem reserved_onlyDueWork (hs : s.Reserved) (hover : s.place.over = true) : s.OnlyDueWork bounds := by
  have hdue : ∀ w item, s.memory.pending[w]? = some item →
      Due s.plane.shared w item.workspaceRevision := by
    intro w item hitem
    refine (hs w item hitem).resolve_right fun hsettles => ?_
    unfold LaneAt.Settles at hsettles
    split at hsettles <;> simp_all [LaneAt.over]
  refine ⟨hdue, fun running w hreserved => ?_, fun hsaturated => ?_⟩
  · unfold reservedMs at hreserved
    cases hitem : s.memory.pending[w]? with
    | none => simp [hitem] at hreserved
    | some item => exact ⟨item, rfl, hdue w item hitem⟩
  · refine ⟨s.memory.pending.keys, Std.ExtTreeMap.nodup_keys, ?_, fun w hw => ?_⟩
    · rw [Std.ExtTreeMap.length_keys]
      simpa [Memory.saturated] using hsaturated
    · have hsome := Std.ExtTreeMap.mem_iff_isSome_getElem?.mp (Std.ExtTreeMap.mem_keys.mp hw)
      obtain ⟨item, hitem⟩ := Option.isSome_iff_exists.mp hsome
      exact ⟨item, hitem, hdue w item hitem⟩

/-- In a run whose hooks wake the lane for due work only, no reservation outlives its work. The
entries are due all the time, but for the one in hand, exactly when the hooks do so. -/
theorem reservations_due {start s : System} {events : List BootEvent} (hstart : start.Fresh)
    (hkeyed : (start.plane.shared.scenarios.map (·.scenarioId)).Nodup)
    (hrun : run (bootStep kernel bounds) start events = some s) :
    (EachStep (bootStep kernel bounds) (WakesForDueWork bounds) start events →
      ∀ reached, Visits (bootStep kernel bounds) start events reached →
        reached.place.over = true → reached.OnlyDueWork bounds) ∧
    ((∀ reached, Visits (bootStep kernel bounds) start events reached → reached.Reserved) ↔
      EachStep (bootStep kernel bounds) (WakesForDueWork bounds) start events) := by
  have hreserved : start.Reserved := by
    intro w item hitem
    simp [hstart.memory] at hitem
  have hiff : (∀ reached, Visits (bootStep kernel bounds) start events reached →
      reached.Reserved) ↔ EachStep (bootStep kernel bounds) (WakesForDueWork bounds) start events :=
    always_iff_eachStep (fun _ _ _ hs h => bootStep_booted hs h)
      (fun _ _ _ hbooted hs h => bootStep_reserved hbooted hs h)
      (booted_fresh hstart hkeyed) hreserved hrun
  exact ⟨fun heach reached hreached => reserved_onlyDueWork (hiff.mpr heach reached hreached), hiff⟩

end Steps

/-! ### A broadcast after a restart -/

/-- The lane publishes revision 1. The exact lane has not settled the epoch when the app restarts,
so `recover` broadcasts it again, and the lane makes one more pass. -/
def rebroadcastEpoch : List BootEvent :=
  (closedEpoch (plantTree "a") 0 ++ laneSteps 18).map .system ++ [.restart] ++
    ([LaneEvent.plane 1 .recover] ++ planeSteps 1 3 ++ [LaneEvent.hook 1] ++ laneSteps 5).map .system

/-- The pass is over and the pending revision of the workspace is published already. -/
def System.Stranded (s : System) (w : String) : Prop :=
  s.place.over = true ∧ ∃ item ∈ s.memory.pending[w]?, ∃ fast ∈ fastRevision? s.plane.shared w,
    item.workspaceRevision ≤ fast

instance (s : System) (w : String) : Decidable (s.Stranded w) :=
  inferInstanceAs (Decidable (_ ∧ ∃ item ∈ s.memory.pending[w]?,
    ∃ fast ∈ fastRevision? s.plane.shared w, _))

theorem rebroadcastEpoch_stranded : ¬ ∀ (kernel : FastKernel) (bounds : Bounds)
    (start s : System) (events : List BootEvent), start.Fresh →
      (start.plane.shared.scenarios.map (·.scenarioId)).Nodup →
      run (bootStep kernel bounds) start events = some s → s.place.over = true →
      s.OnlyDueWork bounds := by
  intro h
  have hrun : (run (bootStep viewCacheKernel {}) freshSystem rebroadcastEpoch).any
      (fun s => decide (s.Stranded "w")) = true := by decide
  obtain ⟨s, hs, hstranded⟩ := (Option.any_eq_true _ _).mp hrun
  obtain ⟨hover, item, hitem, fast, hfast, hle⟩ := of_decide_eq_true hstranded
  have hdue := h viewCacheKernel {} _ s _ freshSystem_fresh (by decide) hs hover
  obtain ⟨other, hother, hlt⟩ := hdue.pending "w" item hitem
  obtain rfl := Option.some.inj (hfast.symm.trans hother)
  omega

theorem reservations_due_rebroadcast :
    ∃ s, run (bootStep viewCacheKernel {}) freshSystem rebroadcastEpoch = some s ∧
      (EachStep (bootStep viewCacheKernel {}) (WakesForDueWork {}) freshSystem rebroadcastEpoch →
        ∀ reached, Visits (bootStep viewCacheKernel {}) freshSystem rebroadcastEpoch reached →
          reached.place.over = true → reached.OnlyDueWork {}) ∧
      ((∀ reached, Visits (bootStep viewCacheKernel {}) freshSystem rebroadcastEpoch reached →
        reached.Reserved) ↔
      EachStep (bootStep viewCacheKernel {}) (WakesForDueWork {}) freshSystem rebroadcastEpoch) := by
  have hrun : (run (bootStep viewCacheKernel {}) freshSystem rebroadcastEpoch).isSome := by
    decide
  obtain ⟨s, hs⟩ := Option.isSome_iff_exists.mp hrun
  exact ⟨s, hs, reservations_due freshSystem_fresh (by decide) hs⟩

end Solweig.Lane
