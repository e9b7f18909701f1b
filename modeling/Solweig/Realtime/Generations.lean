import Solweig.Lib.Run
import Solweig.Realtime.EpochBoundary
import Solweig.Realtime.Interference

/-!
# Generations and tombstones

The generation of a live entity lies among the fields that its operations write. The log of a
family, over all epochs, is a run of operations on its entities.
-/

namespace Solweig.Realtime

open Solweig.Lib

variable {o : ObjectFamily} {op : Operation} {s t u : ObjectState} {e : String}

/-! ## The operations of a family as a run -/

/-- One operation on the entities. The bookkeeping of the epoch has no say. -/
def objectStep (o : ObjectFamily) (s : ObjectState) (op : Operation) : Option ObjectState :=
  ((foldObject o s op {}).map Prod.fst).toOption

/-- The operations of the family in the order in which the epochs fold them. -/
def objectLog (o : ObjectFamily) (batches : List (List Operation)) : List Operation :=
  batches.flatMap fun ops => ownOps (.object o) (inOrder ops)

theorem objectStep_turn : objectStep o s op = some t ↔
    (objectTurn o s op).error? = none ∧ t = (objectTurn o s op).state s := by
  unfold objectStep
  rw [foldObject_turn]
  cases (objectTurn o s op).error? with
  | some e => simp [Except.map, Except.toOption]
  | none =>
    simp only [Except.map, Except.toOption, Option.some.injEq, true_and]
    exact eq_comm

theorem objectStep_own {x y : Families × Fold} (hown : op.sourceFamily = .object o)
    (h : foldOperation x op = .ok y) : objectStep o (x.1.objects o) op = some (y.1.objects o) := by
  obtain ⟨herr, rfl⟩ := (foldOperation_object hown).mp h
  exact objectStep_turn.mpr ⟨herr, Function.update_self o _ _⟩

theorem foldlM_objectRun {ops : List Operation} {x y : Families × Fold}
    (h : ops.foldlM foldOperation x = .ok y) :
    run (objectStep o) (x.1.objects o) (ownOps (.object o) ops) = some (y.1.objects o) := by
  induction ops generalizing x with
  | nil =>
    cases h
    rfl
  | cons op ops ih =>
    obtain ⟨z, hz, hrest⟩ := foldlM_cons_ok.mp h
    unfold ownOps
    by_cases hown : op.sourceFamily = .object o
    · rw [List.filter_cons_of_pos (by simpa using hown)]
      simp only [run, objectStep_own hown hz, Option.bind_some]
      exact ih hrest
    · rw [List.filter_cons_of_neg (by simpa using hown), ← objects_other hown hz]
      exact ih hrest

theorem reduceBatches_objectRun {batches : List (List Operation)} {b b' : CanonicalState}
    (h : reduceBatches b batches = .ok b') :
    run (objectStep o) (b.families.objects o) (objectLog o batches) =
      some (b'.families.objects o) := by
  induction batches generalizing b with
  | nil =>
    cases h
    rfl
  | cons ops rest ih =>
    unfold reduceBatches at h
    cases hr : reduceEpoch b ops with
    | error e => simp [hr] at h
    | ok r =>
      rw [hr] at h
      obtain ⟨-, x, hx, rfl⟩ := reduceEpoch_ok.mp hr
      simp only [objectLog, List.flatMap_cons, run_append, foldlM_objectRun hx, Option.bind_some]
      exact ih h

/-! ## The recorded generation -/

/-- `int()` of the generation of the live entity, else its tombstone. -/
def recorded (s : ObjectState) (e : String) : Option Int :=
  match s.objects[e]? with
  | some live => (generationOf e live).toOption
  | none => s.tombstones[e]?

theorem recorded_live {live : Dict String Json} (h : s.objects[e]? = some live) :
    recorded s e = live["generation"]?.bind Json.pyInt := by
  unfold recorded generationOf
  rw [h]
  dsimp only
  cases live["generation"]?.bind Json.pyInt <;> rfl

/-- A recorded generation stays recorded, and does not fall. -/
def NotLower (s t : ObjectState) : Prop :=
  ∀ e n, recorded s e = some n → ∃ m, recorded t e = some m ∧ n ≤ m

/-- A replace or update of a live entity that carries a generation carries one that `int()`
takes, and not a lower one. -/
def KeepsGeneration (o : ObjectFamily) (s : ObjectState) (op : Operation) : Prop :=
  ∀ e live v n, op.entityId = some e → e ≠ "" → op.verb ∈ [OperationVerb.replace, .update] →
    s.objects[e]? = some live → (objectFields o op.payload.mapping)["generation"]? = some v →
    recorded s e = some n → ∃ m, v.pyInt = some m ∧ n ≤ m

theorem recorded_of_ne {e' : String} (hobj : t.objects[e']? = s.objects[e']?)
    (htomb : t.tombstones[e']? = s.tombstones[e']?) : recorded t e' = recorded s e' := by
  unfold recorded
  rw [hobj, htomb]

theorem previousGeneration_recorded {previous : Option Int}
    (h : previousGeneration s e = .ok previous) : recorded s e = previous := by
  unfold previousGeneration at h
  unfold recorded
  cases hl : s.objects[e]? with
  | none =>
    simp only [hl] at h
    exact Except.ok.inj h
  | some live =>
    simp only [hl] at h
    obtain ⟨n, hn, rfl⟩ := except_map_ok.mp h
    simp [hn, Except.toOption]

theorem objectTurn_edit {live : Dict String Json} (he : op.entityId = some e) (hne : e ≠ "")
    (hv : op.verb ∈ [OperationVerb.replace, .update, .move]) (hl : s.objects[e]? = some live) :
    objectTurn o s op = .edit e (editFields o op (objectFields o op.payload.mapping)) live := by
  simp only [List.mem_cons, List.not_mem_nil, or_false] at hv
  unfold objectTurn
  rcases hv with hv | hv | hv <;> simp [he, hne, hv, hl]

theorem editFields_move (h : op.verb = .move) (fields : Dict String Json) :
    (editFields o op fields)["generation"]? = none := by
  unfold editFields
  rw [if_pos h, Std.ExtTreeMap.getElem?_filter']
  cases o <;> simp [positionFields]

theorem recorded_step (hstep : objectStep o s op = some t) (e : String) :
    recorded t e = recorded s e ∨
      (op.entityId = some e ∧ e ≠ "" ∧ op.verb = .add ∧
        recorded t e = some (nextGeneration (recorded s e))) ∨
      ∃ live v, op.entityId = some e ∧ e ≠ "" ∧ op.verb ∈ [OperationVerb.replace, .update] ∧
        s.objects[e]? = some live ∧
        (objectFields o op.payload.mapping)["generation"]? = some v ∧ recorded t e = v.pyInt := by
  obtain ⟨herr, rfl⟩ := objectStep_turn.mp hstep
  have h := objectTurn_spec o s op
  generalize objectTurn o s op = turn at h herr
  cases h with
  | audit | reject => exact Or.inl rfl
  | fail => simp [ObjectTurn.error?] at herr
  | add e₀ fields previous he hne hv hp =>
    by_cases heq : e₀ = e
    · subst heq
      refine Or.inr (Or.inl ⟨he, hne, hv, ?_⟩)
      rw [recorded_live Std.ExtTreeMap.getElem?_insert_self, previousGeneration_recorded hp]
      simp [Json.pyInt]
    · refine Or.inl (recorded_of_ne (Dict.getElem?_insert_of_ne _ _ heq) ?_)
      simp only [ObjectTurn.state]
      split
      · rfl
      · exact Dict.getElem?_erase_of_ne _ heq
  | edit e₀ fields live he hne hv hl hf =>
    by_cases heq : e₀ = e
    · subst heq
      rw [recorded_live Std.ExtTreeMap.getElem?_insert_self, Dict.getElem?_foldl_over,
        recorded_live hl]
      cases hw : fields["generation"]? with
      | none => exact Or.inl rfl
      | some v =>
        have hv' : op.verb ∈ [OperationVerb.replace, .update] := by
          have hmove : op.verb ≠ .move := by
            intro hmove
            rw [hf, editFields_move hmove] at hw
            cases hw
          simpa [hmove] using hv
        exact Or.inr (Or.inr ⟨live, v, he, hne, hv', hl, editFields_some (hf ▸ hw), rfl⟩)
    · exact Or.inl (recorded_of_ne (Dict.getElem?_insert_of_ne _ _ heq) rfl)
  | delete e₀ live generation he hne hv hl hg =>
    refine Or.inl ?_
    by_cases heq : e₀ = e
    · subst heq
      simp [recorded, ObjectTurn.state, hl, hg, Except.toOption]
    · exact recorded_of_ne (Dict.getElem?_erase_of_ne _ heq) (Dict.getElem?_insert_of_ne _ _ heq)

theorem notLower_step (h : objectStep o s op = some t) : NotLower s t ↔ KeepsGeneration o s op := by
  constructor
  · intro hlow e live v n he hne hv hl hfield hn
    obtain ⟨m, hm, hle⟩ := hlow e n hn
    refine ⟨m, ?_, hle⟩
    rw [← hm]
    have hedit : op.verb ∈ [OperationVerb.replace, .update, .move] := by
      simp only [List.mem_cons, List.not_mem_nil, or_false] at hv ⊢
      tauto
    have hmove : op.verb ≠ .move := by
      intro hmove
      simp [hmove] at hv
    obtain ⟨-, rfl⟩ := objectStep_turn.mp h
    rw [objectTurn_edit he hne hedit hl, recorded_live Std.ExtTreeMap.getElem?_insert_self,
      Dict.getElem?_foldl_over]
    unfold editFields
    rw [if_neg hmove, hfield]
    rfl
  · intro hkeep e n hn
    rcases recorded_step h e with hsame | ⟨-, -, -, hadd⟩ | ⟨live, v, he, hne, hv, hl, hfield, hw⟩
    · exact ⟨n, hsame.trans hn, Int.le_refl n⟩
    · exact ⟨n + 1, by rw [hadd, hn]; rfl, by omega⟩
    · obtain ⟨m, hm, hle⟩ := hkeep e live v n he hne hv hl hfield hn
      exact ⟨m, hw.trans hm, hle⟩

/-! ## Tombstones -/

/-- No entity is both live and tombstoned, and none has the empty id. -/
structure OneSided (s : ObjectState) : Prop where
  apart : ∀ e ∈ s.objects, e ∉ s.tombstones
  named : ¬ Known "" s

theorem oneSided_initial (o : ObjectFamily) : OneSided (initialState.families.objects o) := by
  constructor <;> simp [initialState, Families.empty, Known]

theorem OneSided.step (hs : OneSided s) (h : objectStep o s op = some t) : OneSided t := by
  obtain ⟨herr, rfl⟩ := objectStep_turn.mp h
  have hturn := objectTurn_spec o s op
  generalize objectTurn o s op = turn at hturn herr
  obtain ⟨hapart, hnamed⟩ := hs
  simp only [Known, not_or] at hnamed
  cases hturn with
  | audit | reject => exact ⟨hapart, not_or.mpr hnamed⟩
  | fail => simp [ObjectTurn.error?] at herr
  | add e₀ fields previous he hne hv hp =>
    constructor
    · intro e hmem
      simp only [ObjectTurn.state, Std.ExtTreeMap.mem_insert, Std.compare_eq_iff_eq] at hmem ⊢
      split
      · rcases hmem with rfl | hmem
        · exact hapart e₀ ‹_›
        · exact hapart e hmem
      · simp only [Std.ExtTreeMap.mem_erase, ne_eq, Std.compare_eq_iff_eq]
        rcases hmem with rfl | hmem
        · simp
        · simp [hapart e hmem]
    · simp only [ObjectTurn.state, Known, Std.ExtTreeMap.mem_insert, Std.compare_eq_iff_eq]
      split <;> simp [hne, hnamed]
  | edit e₀ fields live he hne hv hl hf =>
    have hmem : e₀ ∈ s.objects := Std.ExtTreeMap.mem_iff_isSome_getElem?.mpr (by simp [hl])
    constructor
    · intro e he
      simp only [ObjectTurn.state, Std.ExtTreeMap.mem_insert, Std.compare_eq_iff_eq] at he
      rcases he with rfl | he
      · exact hapart e₀ hmem
      · exact hapart e he
    · simp [ObjectTurn.state, Known, hne, hnamed]
  | delete e₀ live generation he hne hv hl hg =>
    constructor
    · intro e he
      simp only [ObjectTurn.state, Std.ExtTreeMap.mem_erase, Std.ExtTreeMap.mem_insert,
        Std.compare_eq_iff_eq, ne_eq, not_or] at he ⊢
      exact ⟨he.1, hapart e he.2⟩
    · simp [ObjectTurn.state, Known, hne, hnamed]

theorem resurrects_step (hs : OneSided s) (h : objectStep o s op = some t)
    (ht : e ∈ s.tombstones) (hlive : e ∈ t.objects) : op.verb = .add ∧ op.entityId = some e := by
  have hgone : e ∉ s.objects := fun hmem => hs.apart e hmem ht
  obtain ⟨herr, rfl⟩ := objectStep_turn.mp h
  have hturn := objectTurn_spec o s op
  generalize objectTurn o s op = turn at hturn herr hlive
  cases hturn with
  | audit | reject => exact absurd hlive hgone
  | fail => simp [ObjectTurn.error?] at herr
  | add e₀ fields previous he hne hv hp =>
    simp only [ObjectTurn.state, Std.ExtTreeMap.mem_insert, Std.compare_eq_iff_eq] at hlive
    obtain rfl := hlive.resolve_right hgone
    exact ⟨hv, he⟩
  | edit e₀ fields live he hne hv hl hf =>
    simp only [ObjectTurn.state, Std.ExtTreeMap.mem_insert, Std.compare_eq_iff_eq] at hlive
    obtain rfl := hlive.resolve_right hgone
    exact absurd (Std.ExtTreeMap.mem_iff_isSome_getElem?.mpr (by simp [hl])) hgone
  | delete e₀ live generation he hne hv hl hg =>
    simp only [ObjectTurn.state, Std.ExtTreeMap.mem_erase] at hlive
    exact absurd hlive.2 hgone

theorem recreated_step (hs : OneSided s) (h : objectStep o s op = some t) (hv : op.verb = .add)
    (he : op.entityId = some e) (hk : Known e s) :
    ∃ n m, recorded s e = some n ∧ recorded t e = some m ∧ n < m := by
  have hne : e ≠ "" := fun heq => hs.named (heq ▸ hk)
  obtain ⟨herr, rfl⟩ := objectStep_turn.mp h
  unfold objectTurn at herr ⊢
  simp only [he, hne, hv, if_false] at herr ⊢
  cases hp : previousGeneration s e with
  | error err => simp [hp, ObjectTurn.error?] at herr
  | ok previous =>
    obtain ⟨n, rfl⟩ := previousGeneration_known hk hp
    refine ⟨n, n + 1, previousGeneration_recorded hp, ?_, by omega⟩
    rw [recorded_live Std.ExtTreeMap.getElem?_insert_self]
    simp [Json.pyInt, nextGeneration]

/-! ## Every log -/

/-- What the log of a family is to keep: the two sides apart, only adds that resurrect, adds over
known entities that count up, and generations that never fall. -/
structure Disciplined (o : ObjectFamily) (s : ObjectState) (ops : List Operation) : Prop where
  apart : ∀ u, Visits (objectStep o) s ops u → ∀ e ∈ u.objects, e ∉ u.tombstones
  resurrects : ∀ before op after u v e, ops = before ++ op :: after →
    run (objectStep o) s before = some u → objectStep o u op = some v →
    e ∈ u.tombstones → e ∈ v.objects → op.verb = .add ∧ op.entityId = some e
  recreated : ∀ before op after u v e, ops = before ++ op :: after →
    run (objectStep o) s before = some u → objectStep o u op = some v → op.verb = .add →
    op.entityId = some e → Known e u →
    ∃ n m, recorded u e = some n ∧ recorded v e = some m ∧ n < m
  notLower : ∀ before middle after u v, ops = before ++ middle ++ after →
    run (objectStep o) s before = some u → run (objectStep o) u middle = some v → NotLower u v

/-- The generations of a family are disciplined exactly when every edit of a live entity that
carries a generation carries one that is a number and not lower. -/
theorem disciplined_iff {batches : List (List Operation)} {b : CanonicalState}
    (h : reduceBatches initialState batches = .ok b) (o : ObjectFamily) :
    Disciplined o (initialState.families.objects o) (objectLog o batches) ↔
      EachStep (objectStep o) (KeepsGeneration o) (initialState.families.objects o)
        (objectLog o batches) := by
  have hrun := reduceBatches_objectRun (o := o) h
  generalize objectLog o batches = ops at hrun
  have hinv : ∀ s op t, OneSided s → objectStep o s op = some t → OneSided t :=
    fun s op t hs ht => hs.step ht
  have hreach : ∀ before u, run (objectStep o) (initialState.families.objects o) before = some u →
      OneSided u := fun before u hu => run_invariant (C := fun _ _ => True)
    (fun s a t hs _ ht => hs.step ht) (oneSided_initial o) (eachStep_of_forall (by simp) _ _) hu
  have hlow := related_iff_eachStep (R := NotLower) (C := KeepsGeneration o)
    (fun s e n hn => ⟨n, hn, Int.le_refl n⟩) ?_ hinv (fun s op t _ ht => notLower_step ht)
    (oneSided_initial o) hrun
  · refine ⟨fun hd => hlow.mp hd.notLower, fun hC => ⟨?_, ?_, ?_, hlow.mpr hC⟩⟩
    · rintro u ⟨before, after, -, hu⟩
      exact (hreach before u hu).apart
    · intro before op after u v e _ hu hv ht hlive
      exact resurrects_step (hreach before u hu) hv ht hlive
    · intro before op after u v e _ hu hv hadd he hk
      exact recreated_step (hreach before u hu) hv hadd he hk
  · intro s t u hst htu e n hn
    obtain ⟨m, hm, hle⟩ := hst e n hn
    obtain ⟨k, hk, hle'⟩ := htu e m hm
    exact ⟨k, hk, Int.le_trans hle hle'⟩

def treeOp (n : Nat) (verb : OperationVerb) (fields : List (String × Json)) : Operation where
  operationId := toString n
  actorId := "ada"
  sourceFamily := .object .vegetationGeometry
  entityId := some "oak"
  verb := verb
  payload := .obj [("values", .obj fields)]
  serverSequence := n
  epochId := 0

/-- A tree added, deleted and added again. -/
theorem readded_tree :
    Disciplined .vegetationGeometry (initialState.families.objects .vegetationGeometry)
      (objectLog .vegetationGeometry [[treeOp 1 .add [("u", .int 3)], treeOp 2 .delete []],
        [treeOp 3 .add [("u", .int 4)]]]) := by
  obtain ⟨b, hb⟩ := except_of_isOk (x := reduceBatches initialState
    [[treeOp 1 .add [("u", .int 3)], treeOp 2 .delete []], [treeOp 3 .add [("u", .int 4)]]])
    (by decide +kernel)
  refine (disciplined_iff hb .vegetationGeometry).mpr ?_
  have hlog : objectLog .vegetationGeometry [[treeOp 1 .add [("u", .int 3)], treeOp 2 .delete []],
      [treeOp 3 .add [("u", .int 4)]]] =
      [treeOp 1 .add [("u", .int 3)], treeOp 2 .delete [], treeOp 3 .add [("u", .int 4)]] := by rfl
  rw [hlog]
  refine ⟨?_, fun _ _ => ⟨?_, fun _ _ => ⟨?_, fun _ _ => trivial⟩⟩⟩
  all_goals
    intro e live v n _ _ hv
    simp [treeOp] at hv

/-- A replace that writes a negative generation. -/
theorem lowered_generation : ∃ b, reduceBatches initialState
      [[treeOp 1 .add [], treeOp 2 .replace [("generation", .int (-5))]]] = .ok b ∧
    ¬ Disciplined .vegetationGeometry (initialState.families.objects .vegetationGeometry)
      (objectLog .vegetationGeometry
        [[treeOp 1 .add [], treeOp 2 .replace [("generation", .int (-5))]]]) := by
  obtain ⟨b, hb⟩ := except_of_isOk (x := reduceBatches initialState
    [[treeOp 1 .add [], treeOp 2 .replace [("generation", .int (-5))]]]) (by decide)
  refine ⟨b, hb, fun h => ?_⟩
  have hadd : (run (objectStep .vegetationGeometry)
      (initialState.families.objects .vegetationGeometry) [treeOp 1 .add []]).map
      (recorded · "oak") = some (some 0) := by decide
  have hreplace : ((run (objectStep .vegetationGeometry)
      (initialState.families.objects .vegetationGeometry) [treeOp 1 .add []]).bind fun u =>
      (run (objectStep .vegetationGeometry) u [treeOp 2 .replace [("generation", .int (-5))]])).map
      (recorded · "oak") = some (some (-5)) := by decide
  obtain ⟨u, hu, hru⟩ := Option.map_eq_some_iff.mp hadd
  rw [hu, Option.bind_some] at hreplace
  obtain ⟨v, hv, hrv⟩ := Option.map_eq_some_iff.mp hreplace
  obtain ⟨m, hm, hle⟩ := h.notLower [treeOp 1 .add []]
    [treeOp 2 .replace [("generation", .int (-5))]] [] u v (by rfl) hu hv "oak" 0 hru
  rw [hrv, Option.some.injEq] at hm
  omega

end Solweig.Realtime
