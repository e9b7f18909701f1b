import Solweig.Epochs.Assigned

/-!
# Interleavings of the plane

What one action does to the store, what each thread may rely on between its steps, and that no
other thread breaks it.
-/

namespace Solweig.Epochs

open Solweig.Lib Solweig.Realtime Solweig.Store

/-! ## The effect of one action -/

/-- The status mark that the activity is about to write. -/
def Activity.mark? : Activity → Option (String × Nat × EpochStatus × Option Nat)
  | .closing w e .mark => some (w, e, .closed, none)
  | .publishing w e (.mark revision _) => some (w, e, .fastPlanned, some revision)
  | .settling w ((e, revision) :: _) => some (w, e, .exactTargeted, some revision)
  | _ => none

inductive Effect (db : Database) (activity : Activity) : Database → Prop
  | none : Effect db activity db
  | append (w : String) (items : List OperationItem) (now : String) :
      Effect db activity (appendOperations w items now db).2
  | mark {w : String} {e : Nat} {status : EpochStatus} {revision : Option Nat} (now : String)
      (h : activity.mark? = some (w, e, status, revision)) :
      Effect db activity (updateEpoch w e (·.mark status revision now) db)
  | commit {w : String} {e : Nat} {operations : List OperationRow} {attempt expected : Nat}
      {families : Families} (now : String)
      (h : activity = .closing w e (.commit operations attempt expected families)) :
      Effect db activity (commitEpochReduction w e families (some expected) now db).2
  | advance {w : String} {e revision observed : Nat} (now : String)
      (h : activity = .publishing w e (.advance revision observed)) :
      Effect db activity (advanceFastRevision w revision observed now db).2

theorem closeStep_commit {w now : String} {e : Nat} {db : Database} {operations : List OperationRow}
    {attempt expected : Nat} {families : Families} :
    (closeStep w e now db (.commit operations attempt expected families)).1 =
      (commitEpochReduction w e families (some expected) now db).2 := by
  simp only [closeStep]
  rcases commitEpochReduction w e families (some expected) now db with ⟨(e | o), db'⟩
  · cases e <;> rfl
  · cases o <;> rfl

theorem closeStep_start {w now : String} {e : Nat} {db : Database} :
    (closeStep w e now db .start).1 = db := by
  simp only [closeStep]
  split
  · rfl
  · split
    · rfl
    · split <;> rfl

theorem fastStep_scenario {w now : String} {e revision : Nat} {db : Database} {row : EpochRow} :
    (fastStep w e now db (.scenario row revision)).1 = db := by
  simp only [fastStep]
  split
  · rfl
  · split
    · rfl
    · split <;> rfl

theorem proceed_effect {db db' : Database} {due : List Nat} {now : String} {tasks : List Task}
    {activity : Activity} {thread' : Thread}
    (h : proceed db due now tasks activity = some (db', thread')) : Effect db activity db' := by
  cases activity with
  | idle =>
    simp only [proceed, Option.map_eq_some_iff, Prod.mk.injEq] at h
    obtain ⟨_, -, rfl, -⟩ := h
    exact .none
  | closing w e place =>
    simp only [proceed, Option.some.injEq, Prod.mk.injEq] at h
    obtain ⟨rfl, -⟩ := h
    cases place with
    | mark => exact .mark now rfl
    | commit operations attempt expected families =>
      rw [closeStep_commit]
      exact .commit now rfl
    | start =>
      rw [closeStep_start]
      exact .none
    | load =>
      simp only [closeStep]
      split <;> exact .none
    | reread | fold | confirm | publish => exact .none
  | publishing w e place =>
    simp only [proceed, Option.some.injEq, Prod.mk.injEq] at h
    obtain ⟨rfl, -⟩ := h
    cases place with
    | start => exact .none
    | scenario row revision =>
      rw [fastStep_scenario]
      exact .none
    | mark revision observed => exact .mark now rfl
    | advance revision observed => exact .advance now rfl
  | consuming w through =>
    simp only [proceed, Option.some.injEq, Prod.mk.injEq] at h
    obtain ⟨rfl, -⟩ := h
    exact .none
  | settling w rest =>
    rcases rest with _ | ⟨⟨e, revision⟩, rest⟩ <;>
      simp only [proceed, Option.some.injEq, Prod.mk.injEq] at h <;> obtain ⟨rfl, -⟩ := h
    · exact .none
    · exact .mark now rfl

theorem act_begin {db : Database} {thread : Thread} {event : Event}
    {r : Database × Thread} (h : act db thread event = some r) :
    (∃ due now, event = .step due now ∧
      proceed db due now thread.tasks thread.activity = some r) ∨
    (event = .fail ∧ ∃ thread', raise thread.tasks thread.activity = some thread' ∧
      r = (db, thread')) ∨
    (thread = .free ∧ begin db event = some r) := by
  cases event
  case step due now => exact Or.inl ⟨due, now, rfl, h⟩
  case fail =>
    obtain ⟨thread', hraise, rfl⟩ := Option.map_eq_some_iff.mp h
    exact Or.inr (Or.inl ⟨rfl, thread', hraise, rfl⟩)
  all_goals
    refine Or.inr (Or.inr ?_)
    simp only [act] at h
    split at h
    · exact ⟨rfl, h⟩
    · simp at h

theorem act_effect {db db' : Database} {thread thread' : Thread} {event : Event}
    (h : act db thread event = some (db', thread')) : Effect db thread.activity db' := by
  rcases act_begin h with ⟨due, now, rfl, hstep⟩ | ⟨rfl, _, -, heq⟩ | ⟨rfl, hbegin⟩
  · exact proceed_effect hstep
  · obtain ⟨rfl, -⟩ := Prod.mk.inj heq
    exact .none
  · cases event <;>
      simp only [begin, Option.some.injEq, Prod.mk.injEq, reduceCtorEq] at hbegin
    case append w items now =>
      obtain ⟨rfl, -⟩ := hbegin
      exact .append w items now
    all_goals
      obtain ⟨rfl, -⟩ := hbegin
      exact .none

/-! ## What a thread relies on -/

/-- The newest state that had the revision `expected`, or the initial one. -/
def BaseAt (db : Database) (w : String) (expected : Nat) (base : CanonicalState) : Prop :=
  (expected = 0 ∧ base = initialState) ∨
    ∃ row ∈ canonical db w, row.workspaceRevision = expected ∧ stateOf row = base

/-- The epoch is sealed, and these are its operations. -/
def Loaded (db : Database) (w : String) (e : Nat) (operations : List OperationRow) : Prop :=
  Sealed db w e ∧ operationsForEpoch db w e = operations

def CloseAt.Relies (db : Database) (w : String) (e : Nat) : CloseAt → Prop
  | .mark => Known db w e
  | .reread | .load => Sealed db w e
  | .fold operations _ => Loaded db w e operations
  | .commit operations _ expected families => Loaded db w e operations ∧
    ∃ base reduction, BaseAt db w expected base ∧ reduceRows base operations = some reduction ∧
      reduction.state.families = families
  | _ => True

def FastAt.Relies (db : Database) (w : String) (e : Nat) : FastAt → Prop
  | .start => True
  | .scenario _ revision | .mark revision _ | .advance revision _ => Assigned db w e revision

def Activity.Relies (db : Database) : Activity → Prop
  | .closing w e place => place.Relies db w e
  | .publishing w e place => place.Relies db w e
  | .settling w rest => ∀ p ∈ rest, Assigned db w p.1 p.2
  | _ => True

section Relies

variable {db db' : Database}

theorem BaseAt.mono {w : String} {expected : Nat} {base : CanonicalState} (hext : Extends db db')
    (h : BaseAt db w expected base) : BaseAt db' w expected base := by
  rcases h with h | ⟨row, hrow, h⟩
  · exact Or.inl h
  · exact Or.inr ⟨row, (hext.canonical w).subset hrow, h⟩

theorem Loaded.mono {w : String} {e : Nat} {operations : List OperationRow}
    (hext : Extends db db') (h : Loaded db w e operations) : Loaded db' w e operations := by
  obtain ⟨hsealed, hops⟩ := hext.grows.sealed w e h.1
  exact ⟨hsealed, hops.trans h.2⟩

theorem Activity.Relies.mono {activity : Activity} (hext : Extends db db')
    (h : activity.Relies db) : activity.Relies db' := by
  cases activity with
  | idle | consuming => trivial
  | closing w e place =>
    cases place with
    | start | confirm | publish => trivial
    | mark => exact hext.known w e h
    | reread | load => exact (hext.grows.sealed w e h).1
    | fold operations attempt => exact Loaded.mono hext h
    | commit operations attempt expected families =>
      obtain ⟨hloaded, base, reduction, hbase, hreduce⟩ := h
      exact ⟨hloaded.mono hext, base, reduction, hbase.mono hext, hreduce⟩
  | publishing w e place =>
    cases place with
    | start => trivial
    | scenario | mark | advance => exact hext.assigned w e _ h
  | settling w rest => exact fun p hp => hext.assigned w p.1 p.2 (h p hp)

end Relies

end Solweig.Epochs
