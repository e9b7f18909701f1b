import Solweig.Realtime.FamilyView

/-!
# Entities of the two object families

Adds and deletions are remembered under the bare entity id. What a family reads back is its own
as long as no id is added in both families, and no edit finds an entity gone whose last deletion
was in the other family.
-/

namespace Solweig.Realtime

open Solweig.Lib

def ObjectFamily.other : ObjectFamily → ObjectFamily
  | .buildingGeometry => .vegetationGeometry
  | .vegetationGeometry => .buildingGeometry

theorem ObjectFamily.eq_other {o p : ObjectFamily} (h : p ≠ o) : p = o.other := by
  cases o <;> cases p <;> simp_all [other]

theorem ObjectFamily.other_ne (o : ObjectFamily) : o.other ≠ o := by
  cases o <;> simp [other]

/-! ## What an operation is about -/

/-- The operation is about the entity of the family. -/
def Targets (op : Operation) (o : ObjectFamily) (e : String) : Prop :=
  op.sourceFamily = .object o ∧ op.entityId = some e ∧ e ≠ ""

def AddsTo (op : Operation) (o : ObjectFamily) (e : String) : Prop :=
  Targets op o e ∧ op.verb = .add

def Edits (op : Operation) (o : ObjectFamily) (e : String) : Prop :=
  Targets op o e ∧ op.verb ∈ [OperationVerb.replace, .update, .move]

/-- The turns that a state allows an operation. -/
inductive TurnOf (o : ObjectFamily) (state : ObjectState) (op : Operation) : ObjectTurn → Prop
  | audit (hidle : ∀ e, op.entityId = some e → e ≠ "" →
      op.verb ≠ .add ∧ (op.verb = .delete → e ∉ state.objects)) : TurnOf o state op .audit
  | fail (error : ReduceError) (e : String) (live : Dict String Json)
      (hl : state.objects[e]? = some live) (hg : generationOf e live = .error error) :
      TurnOf o state op (.fail error)
  | add (e : String) (fields : Dict String Json) (previous : Option Int)
      (he : op.entityId = some e) (hne : e ≠ "") (hv : op.verb = .add)
      (hp : previousGeneration state e = .ok previous) : TurnOf o state op (.add e fields previous)
  | edit (e : String) (fields live : Dict String Json)
      (he : op.entityId = some e) (hne : e ≠ "")
      (hv : op.verb ∈ [OperationVerb.replace, .update, .move])
      (hl : state.objects[e]? = some live)
      (hf : fields = editFields o op (objectFields o op.payload.mapping)) :
      TurnOf o state op (.edit e fields live)
  | reject (e : String) (generation : Int)
      (he : op.entityId = some e) (hne : e ≠ "")
      (hv : op.verb ∈ [OperationVerb.replace, .update, .move])
      (hl : state.objects[e]? = none) (ht : state.tombstones[e]? = some generation) :
      TurnOf o state op (.reject e generation)
  | delete (e : String) (live : Dict String Json) (generation : Int)
      (he : op.entityId = some e) (hne : e ≠ "") (hv : op.verb = .delete)
      (hl : state.objects[e]? = some live) (hg : generationOf e live = .ok generation) :
      TurnOf o state op (.delete e generation)

theorem objectTurn_spec (o : ObjectFamily) (state : ObjectState) (op : Operation) :
    TurnOf o state op (objectTurn o state op) := by
  unfold objectTurn
  cases he : op.entityId with
  | none => exact .audit (by simp [he])
  | some e =>
    dsimp only
    split
    · exact .audit (by simp_all)
    · cases hv : op.verb
      case add =>
        dsimp only
        cases hp : previousGeneration state e with
        | error err =>
          unfold previousGeneration at hp
          cases hl : state.objects[e]? with
          | none => simp [hl] at hp
          | some live =>
            simp only [hl] at hp
            cases hg : generationOf e live with
            | error err' =>
              simp only [hg, Except.map, Except.error.injEq] at hp
              exact hp ▸ .fail err' e live hl hg
            | ok generation => simp [hg, Except.map] at hp
        | ok previous => exact .add e _ previous he ‹_› hv hp
      case delete =>
        cases hl : state.objects[e]? with
        | none =>
          refine .audit fun e' he' _ => ⟨by simp [hv], fun _ => ?_⟩
          obtain rfl := Option.some.inj (he.symm.trans he')
          rw [Std.ExtTreeMap.mem_iff_isSome_getElem?, hl]
          simp
        | some live =>
          simp only [Option.map_some]
          cases hg : generationOf e live with
          | error err => exact .fail err e live hl hg
          | ok generation => exact .delete e live generation he ‹_› hv hl hg
      case replace | update | move =>
        dsimp only
        cases hl : state.objects[e]? with
        | some live => exact .edit e _ live he ‹_› (by simp [hv]) hl rfl
        | none =>
          cases ht : state.tombstones[e]? with
          | some generation => exact .reject e generation he ‹_› (by simp [hv]) hl ht
          | none => exact .audit (by simp [hv])
      all_goals exact .audit (by simp [hv])

/-! ## The deletions that a list of operations allows -/

/-- As seen by one family: whether it is sure to hold the entity, whether the other family may
hold it, and whether the last deletion may be one of the other family. -/
structure Presence where
  live : Bool
  otherLive : Bool
  otherDeleted : Bool
  deriving DecidableEq, Repr

def Presence.step (o : ObjectFamily) (e : String) (p : Presence) (op : Operation) : Presence :=
  if op.entityId = some e then
    if op.sourceFamily = .object o then
      if op.verb = .add then { p with live := true }
      else if op.verb = .delete ∧ p.live then { p with live := false, otherDeleted := false }
      else p
    else if op.sourceFamily = .object o.other then
      if op.verb = .add then { p with otherLive := true }
      else if op.verb = .delete ∧ p.otherLive then { p with otherLive := false, otherDeleted := true }
      else p
    else p
  else p

/-- At first the entity is gone in the family and live in the other one. -/
def presence (o : ObjectFamily) (e : String) (ops : List Operation) : Presence :=
  ops.foldl (Presence.step o e) { live := false, otherLive := true, otherDeleted := false }

theorem presence_append (o : ObjectFamily) (e : String) (ops : List Operation) (op : Operation) :
    presence o e (ops ++ [op]) = (presence o e ops).step o e op := by
  simp [presence]

section PresenceStep

variable {o : ObjectFamily} {e : String} {op : Operation} (p : Presence)

theorem Presence.step_apart (h : op.entityId ≠ some e) : p.step o e op = p := by
  simp [step, h]

theorem Presence.step_unrelated (h : op.sourceFamily ≠ .object o)
    (h' : op.sourceFamily ≠ .object o.other) : p.step o e op = p := by
  simp [step, h, h']

theorem Presence.step_edit (h : op.verb ∈ [OperationVerb.replace, .update, .move]) :
    p.step o e op = p := by
  have hne : op.verb ≠ .add ∧ op.verb ≠ .delete := by
    constructor <;> rintro heq <;> simp [heq] at h
  simp [step, hne.1, hne.2]

theorem Presence.step_own (he : op.entityId = some e) (hf : op.sourceFamily = .object o) :
    p.step o e op = if op.verb = .add then { p with live := true }
      else if op.verb = .delete ∧ p.live = true then
        { p with live := false, otherDeleted := false }
      else p := by
  simp [step, he, hf]

theorem Presence.step_other (he : op.entityId = some e) (hf : op.sourceFamily = .object o.other) :
    p.step o e op = if op.verb = .add then { p with otherLive := true }
      else if op.verb = .delete ∧ p.otherLive = true then
        { p with otherLive := false, otherDeleted := true }
      else p := by
  simp [step, he, hf, o.other_ne]

theorem Presence.step_own_otherLive (hf : op.sourceFamily = .object o) :
    (p.step o e op).otherLive = p.otherLive := by
  by_cases he : op.entityId = some e
  · rw [p.step_own he hf]
    split
    · rfl
    · split <;> rfl
  · rw [p.step_apart he]

theorem Presence.step_other_live (hf : op.sourceFamily = .object o.other) :
    (p.step o e op).live = p.live := by
  by_cases he : op.entityId = some e
  · rw [p.step_other he hf]
    split
    · rfl
    · split <;> rfl
  · rw [p.step_apart he]

/-- Whether the entity is there after the operation, if `b` tells it before. -/
def presentAfter (e : String) (op : Operation) (b : Bool) : Bool :=
  if op.entityId = some e then
    if op.verb = .add then true else if op.verb = .delete then false else b
  else b

theorem Presence.step_own_live (hf : op.sourceFamily = .object o) :
    (p.step o e op).live = presentAfter e op p.live := by
  unfold presentAfter
  split
  · rw [p.step_own ‹_› hf]
    split
    · rfl
    · cases hp : p.live <;> by_cases hv : op.verb = .delete <;> simp [hp, hv]
  · rw [p.step_apart ‹_›]

theorem Presence.step_other_otherLive (hf : op.sourceFamily = .object o.other) :
    (p.step o e op).otherLive = presentAfter e op p.otherLive := by
  unfold presentAfter
  split
  · rw [p.step_other ‹_› hf]
    split
    · rfl
    · cases hp : p.otherLive <;> by_cases hv : op.verb = .delete <;> simp [hp, hv]
  · rw [p.step_apart ‹_›]

end PresenceStep

section TurnState

variable {o : ObjectFamily} {state : ObjectState} {op : Operation} {turn : ObjectTurn} {e : String}

theorem TurnOf.objects_apart (h : TurnOf o state op turn) (he : op.entityId ≠ some e) :
    (turn.state state).objects[e]? = state.objects[e]? := by
  cases h with
  | add e₀ _ _ he₀ | edit e₀ _ _ he₀ =>
    exact Dict.getElem?_insert_of_ne _ _ fun heq => he (heq ▸ he₀)
  | delete e₀ _ _ he₀ => exact Dict.getElem?_erase_of_ne _ fun heq => he (heq ▸ he₀)
  | audit | fail | reject => rfl

theorem TurnOf.mem_iff_present (h : TurnOf o state op turn) (herr : turn.error? = none)
    (he : op.entityId = some e) (hne : e ≠ "") :
    e ∈ (turn.state state).objects ↔
      op.verb = .add ∨ op.verb ≠ .delete ∧ e ∈ state.objects := by
  cases h with
  | audit hidle =>
    obtain ⟨hadd, hdelete⟩ := hidle e he hne
    simp only [ObjectTurn.state, hadd, false_or]
    exact ⟨fun hmem => ⟨fun hd => hdelete hd hmem, hmem⟩, fun h => h.2⟩
  | fail => simp [ObjectTurn.error?] at herr
  | add e₀ fields previous he₀ _ hv =>
    obtain rfl := Option.some.inj (he.symm.trans he₀)
    simp [ObjectTurn.state, hv]
  | edit e₀ fields live he₀ _ hv hl =>
    obtain rfl := Option.some.inj (he.symm.trans he₀)
    have hmem : e ∈ state.objects := Std.ExtTreeMap.mem_iff_isSome_getElem?.mpr (by simp [hl])
    have hd : op.verb ≠ .delete := by rintro heq; simp [heq] at hv
    simp [ObjectTurn.state, hmem, hd]
  | reject e₀ generation he₀ _ hv hl =>
    have hd : op.verb ≠ .add ∧ op.verb ≠ .delete := by
      constructor <;> rintro heq <;> simp [heq] at hv
    simp [ObjectTurn.state, hd]
  | delete e₀ live generation he₀ _ hv hl =>
    obtain rfl := Option.some.inj (he.symm.trans he₀)
    simp [ObjectTurn.state, hv]

theorem TurnOf.mem_of_present (h : TurnOf o state op turn) (herr : turn.error? = none)
    (hne : e ≠ "") {b : Bool} (hb : b = true → e ∈ state.objects)
    (hp : presentAfter e op b = true) : e ∈ (turn.state state).objects := by
  unfold presentAfter at hp
  split at hp
  · rename_i he
    rw [h.mem_iff_present herr he hne]
    split at hp
    · exact Or.inl ‹_›
    · split at hp
      · simp at hp
      · exact Or.inr ⟨‹_›, hb hp⟩
  · rename_i he
    rw [Std.ExtTreeMap.mem_iff_isSome_getElem?, h.objects_apart he,
      ← Std.ExtTreeMap.mem_iff_isSome_getElem?]
    exact hb hp

theorem TurnOf.present_of_mem (h : TurnOf o state op turn) (herr : turn.error? = none)
    (hne : e ≠ "") {b : Bool} (hb : e ∈ state.objects → b = true)
    (hmem : e ∈ (turn.state state).objects) : presentAfter e op b = true := by
  unfold presentAfter
  split
  · rename_i he
    rw [h.mem_iff_present herr he hne] at hmem
    rcases hmem with hadd | ⟨hdel, hmem⟩
    · rw [if_pos hadd]
    · split
      · rfl
      · exact hb hmem
  · rename_i he
    rw [Std.ExtTreeMap.mem_iff_isSome_getElem?, h.objects_apart he,
      ← Std.ExtTreeMap.mem_iff_isSome_getElem?] at hmem
    exact hb hmem

end TurnState

/-- No entity id is added in both object families. -/
def AddsApart (ops : List Operation) : Prop :=
  ∀ u ∈ ops, ∀ v ∈ ops, ∀ o p e, AddsTo u o e → AddsTo v p e → o = p

/-- No edit comes where its entity may be gone and last deleted in the other family. -/
def DeletesApart (ops : List Operation) : Prop :=
  ∀ done u rest o e, ops = done ++ u :: rest → Edits u o e →
    (presence o e done).live = true ∨ (presence o e done).otherDeleted = false

/-- The operations of two families meet under no name that the bookkeeping shares. -/
def Apart (ops : List Operation) : Prop :=
  FieldsApart ops ∧ AddsApart ops ∧ DeletesApart ops

end Solweig.Realtime
