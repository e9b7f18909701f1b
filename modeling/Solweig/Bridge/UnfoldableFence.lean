import Solweig.Realtime.Interference

/-!
# The fence before the fold

Deletes, replaces and moves of an id that was never there fold to nothing. The bridge looks for
them before it folds, with the ids that it knows instead of the state.
-/

namespace Solweig.Bridge

open Solweig.Lib Solweig.Realtime

/-! ## The fence -/

/-- The ids of the baseline, live or tombstoned. -/
def knownIds (baseline : CanonicalState) (o : ObjectFamily) : List String :=
  (baseline.families.objects o).objects.keys ++ (baseline.families.objects o).tombstones.keys

/-- `_OBJECT_UNFOLDABLE_VERBS` -/
def objectUnfoldableVerbs : List OperationVerb := [.delete, .replace, .move]

/-- What the loop does with one operation. -/
def fenceStep (s : (ObjectFamily → List String) × List Operation) (op : Operation) :
    (ObjectFamily → List String) × List Operation :=
  match op.sourceFamily, op.entityId with
  | .object o, some entity =>
    if entity = "" then s
    else if op.verb = .add then (Function.update s.1 o (entity :: s.1 o), s.2)
    else if op.verb ∈ objectUnfoldableVerbs ∧ entity ∉ s.1 o then (s.1, s.2 ++ [op])
    else s
  | _, _ => s

/-- `_unfoldable_native_object_ops` -/
def unfoldableNativeObjectOps (baseline : CanonicalState) (operations : List Operation) :
    List Operation :=
  ((inOrder operations).foldl fenceStep (knownIds baseline, [])).2

/-! ## What the fold drops -/

/-- The entity that an operation is about. -/
def targetOf (op : Operation) : Option (ObjectFamily × String) :=
  match op.sourceFamily, op.entityId with
  | .object o, some entity => if entity = "" then none else some (o, entity)
  | _, _ => none

/-- The operation deletes, replaces or moves an entity that is neither live nor tombstoned. -/
def Dropped (s : Families × Fold) (op : Operation) : Prop :=
  (op.verb = .delete ∨ op.verb = .replace ∨ op.verb = .move) ∧
    ∃ x ∈ targetOf op, ¬ Known x.2 (s.1.objects x.1)

instance (s : Families × Fold) (op : Operation) : Decidable (Dropped s op) :=
  have : DecidablePred fun x : ObjectFamily × String => Known x.2 (s.1.objects x.1) :=
    fun _ => inferInstanceAs (Decidable (_ ∨ _))
  inferInstanceAs (Decidable ((_ ∨ _ ∨ _) ∧ ∃ x ∈ targetOf op, ¬ Known x.2 (s.1.objects x.1)))

/-- The dropped operations of a fold, up to where it stops. -/
def drops (s : Families × Fold) : List Operation → List Operation
  | [] => []
  | op :: ops => (if Dropped s op then [op] else []) ++
    match foldOperation s op with
    | .error _ => []
    | .ok t => drops t ops

variable {s t : Families × Fold} {op : Operation} {known : ObjectFamily → List String}

theorem mem_objectUnfoldableVerbs {verb : OperationVerb} :
    verb ∈ objectUnfoldableVerbs ↔ verb = .delete ∨ verb = .replace ∨ verb = .move := by
  simp [objectUnfoldableVerbs]

theorem targetOf_eq_some {o : ObjectFamily} {e : String} :
    targetOf op = some (o, e) ↔ Targets op o e := by
  unfold targetOf Targets
  cases hf : op.sourceFamily <;> cases he : op.entityId <;> simp
  grind

theorem dropped_unchanged (h : Dropped s op) : foldOperation s op = .ok s := by
  obtain ⟨hv, ⟨o, e⟩, htarget, hk⟩ := h
  obtain ⟨hf, he, hne⟩ := targetOf_eq_some.mp htarget
  simp only [Known, not_or, Std.ExtTreeMap.mem_iff_isSome_getElem?, Option.isSome_iff_ne_none,
    ne_eq, not_not] at hk
  have hturn : objectTurn o (s.1.objects o) op = .audit := by
    unfold objectTurn
    rcases hv with hv | hv | hv <;> simp [he, hne, hv, hk.1, hk.2]
  refine (foldOperation_object hf).mpr ?_
  rw [hturn]
  refine ⟨rfl, ?_⟩
  simp [ObjectTurn.state, ObjectTurn.fold, ObjectTurn.conflicts]

/-! ## Ids and states in step -/

/-- The bridge knows the ids that the state knows. -/
def InStepWith (known : ObjectFamily → List String) (s : Families) : Prop :=
  ∀ o e, e ≠ "" → (e ∈ known o ↔ Known e (s.objects o))

theorem inStepWith_baseline (b : CanonicalState) : InStepWith (knownIds b) b.families := by
  intro o e _
  simp [knownIds, Known]

theorem known_of_step {o : ObjectFamily} {e : String} (h : foldOperation s op = .ok t)
    (hk : Known e (t.1.objects o)) : Known e (s.1.objects o) ∨ AddsTo op o e := by
  by_cases hf : op.sourceFamily = .object o
  · obtain ⟨herr, rfl⟩ := (foldOperation_object hf).mp h
    have hturn := objectTurn_spec o (s.1.objects o) op
    simp only [Function.update_self] at hk
    generalize objectTurn o (s.1.objects o) op = turn at hturn hk
    generalize s.1.objects o = state at hturn hk
    cases hturn with
    | audit | fail | reject => exact Or.inl hk
    | add e₀ fields previous he hne hv =>
      by_cases heq : e₀ = e
      · subst heq
        exact Or.inr ⟨⟨hf, he, hne⟩, hv⟩
      · refine Or.inl (hk.imp ?_ ?_)
        · simp [ObjectTurn.state, heq]
        · simp only [ObjectTurn.state]
          split <;> simp
    | edit e₀ fields live he hne hv hl =>
      have hmem : e₀ ∈ state.objects := Std.ExtTreeMap.mem_iff_isSome_getElem?.mpr (by simp [hl])
      refine Or.inl (hk.imp ?_ id)
      simp only [ObjectTurn.state, Std.ExtTreeMap.mem_insert, Std.compare_eq_iff_eq]
      rintro (rfl | hin)
      · exact hmem
      · exact hin
    | delete e₀ live generation he hne hv hl =>
      have hmem : e₀ ∈ state.objects := Std.ExtTreeMap.mem_iff_isSome_getElem?.mpr (by simp [hl])
      rcases hk with hk | hk
      · exact Or.inl (Or.inl (by simpa [ObjectTurn.state] using (Std.ExtTreeMap.mem_erase.mp hk).2))
      · simp only [ObjectTurn.state, Std.ExtTreeMap.mem_insert, Std.compare_eq_iff_eq] at hk
        rcases hk with rfl | hk
        · exact Or.inl (Or.inl hmem)
        · exact Or.inl (Or.inr hk)
  · rw [objects_other hf h] at hk
    exact Or.inl hk

theorem known_after {o : ObjectFamily} {e : String} (h : foldOperation s op = .ok t)
    (hk : Known e (s.1.objects o) ∨ AddsTo op o e) : Known e (t.1.objects o) := by
  rcases hk with hk | ⟨⟨hf, he, hne⟩, hv⟩
  · have hrun : [op].foldlM foldOperation s = .ok t := foldlM_cons_ok.mpr ⟨t, h, rfl⟩
    exact known_run hk hrun
  · obtain ⟨herr, rfl⟩ := (foldOperation_object hf).mp h
    simp only [Function.update_self]
    have hturn := objectTurn_spec o (s.1.objects o) op
    generalize objectTurn o (s.1.objects o) op = turn at hturn herr
    cases hturn with
    | fail => simp [ObjectTurn.error?] at herr
    | audit hidle => exact absurd hv (hidle e he hne).1
    | add e₀ fields previous he₀ =>
      obtain rfl := Option.some.inj (he.symm.trans he₀)
      exact Or.inl (by simp [ObjectTurn.state])
    | edit e₀ fields live _ _ hv' | reject e₀ generation _ _ hv' => simp [hv] at hv'
    | delete e₀ live generation _ _ hv' => simp [hv] at hv'

theorem fenceStep_none (s : (ObjectFamily → List String) × List Operation)
    (h : targetOf op = none) : fenceStep s op = s := by
  unfold targetOf at h
  unfold fenceStep
  split
  · rename_i o entity hf he
    simp only [hf, he, ite_eq_left_iff, reduceCtorEq, imp_false, not_not] at h
    rw [if_pos h]
  · rfl

theorem fenceStep_some {o : ObjectFamily} {e : String}
    (s : (ObjectFamily → List String) × List Operation) (h : Targets op o e) :
    fenceStep s op =
      if op.verb = .add then (Function.update s.1 o (e :: s.1 o), s.2)
      else if op.verb ∈ objectUnfoldableVerbs ∧ e ∉ s.1 o then (s.1, s.2 ++ [op])
      else s := by
  obtain ⟨hf, he, hne⟩ := h
  simp only [fenceStep, hf, he, hne, if_false]

theorem fenceStep_reports (hk : InStepWith known s.1) (out : List Operation) :
    (fenceStep (known, out) op).2 = out ++ if Dropped s op then [op] else [] := by
  cases htarget : targetOf op with
  | none =>
    rw [fenceStep_none _ htarget, if_neg]
    · simp
    · rintro ⟨-, x, hx, -⟩
      simp [htarget] at hx
  | some x =>
    obtain ⟨o, e⟩ := x
    have ht := targetOf_eq_some.mp htarget
    have hdropped : Dropped s op ↔ op.verb ∈ objectUnfoldableVerbs ∧ e ∉ known o := by
      simp [Dropped, mem_objectUnfoldableVerbs, htarget, hk o e ht.2.2]
    rw [fenceStep_some _ ht]
    simp only [hdropped]
    split
    · rename_i hadd
      simp [hadd, objectUnfoldableVerbs]
    · split <;> simp

theorem fenceStep_known (hk : InStepWith known s.1) (out : List Operation)
    (h : foldOperation s op = .ok t) : InStepWith (fenceStep (known, out) op).1 t.1 := by
  intro o e hne
  have hstate : Known e (t.1.objects o) ↔ e ∈ known o ∨ AddsTo op o e := by
    rw [hk o e hne]
    exact ⟨known_of_step h, known_after h⟩
  rw [hstate]
  cases htarget : targetOf op with
  | none =>
    rw [fenceStep_none _ htarget]
    refine ⟨Or.inl, fun hor => hor.resolve_right fun hadd => ?_⟩
    rw [targetOf_eq_some.mpr hadd.1] at htarget
    cases htarget
  | some x =>
    obtain ⟨p, e'⟩ := x
    have ht := targetOf_eq_some.mp htarget
    rw [fenceStep_some _ ht]
    have hadd : AddsTo op o e ↔ op.verb = .add ∧ p = o ∧ e' = e := by
      refine ⟨fun hadd => ?_, ?_⟩
      · have hsame := htarget.symm.trans (targetOf_eq_some.mpr hadd.1)
        simp only [Option.some.injEq, Prod.mk.injEq] at hsame
        exact ⟨hadd.2, hsame⟩
      · rintro ⟨hv, rfl, rfl⟩
        exact ⟨ht, hv⟩
    rw [hadd]
    split
    · rename_i hv
      by_cases hp : p = o
      · subst hp
        simp [hv, or_comm, eq_comm]
      · simp [hp, Function.update_of_ne (Ne.symm hp)]
    · rename_i hv
      simp only [hv, false_and, or_false]
      split <;> rfl

theorem fenceStep_out (known : ObjectFamily → List String) (out : List Operation) (op : Operation) :
    fenceStep (known, out) op =
      ((fenceStep (known, []) op).1, out ++ (fenceStep (known, []) op).2) := by
  unfold fenceStep
  split
  · split
    · simp
    · split
      · simp
      · split <;> simp
  · simp

theorem fence_out (known : ObjectFamily → List String) (out ops : List Operation) :
    (ops.foldl fenceStep (known, out)).2 = out ++ (ops.foldl fenceStep (known, [])).2 := by
  induction ops generalizing known out with
  | nil => simp
  | cons op ops ih =>
    rw [List.foldl_cons, List.foldl_cons, fenceStep_out, ih, ih _ (fenceStep (known, []) op).2,
      List.append_assoc]

theorem fence_drops {ops : List Operation} (hk : InStepWith known s.1) :
    drops s ops <+: (ops.foldl fenceStep (known, [])).2 ∧
      ((∃ x, ops.foldlM foldOperation s = .ok x) →
        (ops.foldl fenceStep (known, [])).2 = drops s ops) := by
  induction ops generalizing s known with
  | nil => simp [drops]
  | cons op ops ih =>
    rw [List.foldl_cons, fenceStep_out]
    rw [fence_out, fenceStep_reports hk []]
    unfold drops
    cases hstep : foldOperation s op with
    | error e =>
      have hkept : ¬ Dropped s op := fun hd => by simp [dropped_unchanged hd] at hstep
      rw [if_neg hkept]
      refine ⟨by simp, ?_⟩
      rintro ⟨x, hx⟩
      obtain ⟨u, hu, -⟩ := foldlM_cons_ok.mp hx
      rw [hstep] at hu
      cases hu
    | ok t =>
      obtain ⟨hstart, hall⟩ := ih (fenceStep_known hk [] hstep)
      refine ⟨?_, ?_⟩
      · rw [List.append_assoc, List.nil_append]
        exact (List.prefix_append_right_inj _).mpr hstart
      · rintro ⟨x, hx⟩
        obtain ⟨u, hu, hx⟩ := foldlM_cons_ok.mp hx
        obtain rfl := Except.ok.inj (hstep.symm.trans hu)
        simp [hall ⟨x, hx⟩]

/-! ## Every span -/

/-- The fence reports exactly the operations that the fold drops without a trace. Where the fold
stops at an operation, it reports those before it and may report later ones. -/
theorem unfoldable_eq_drops (b : CanonicalState) (ops : List Operation) :
    drops (b.families, {}) (inOrder ops) <+: unfoldableNativeObjectOps b ops ∧
      (∀ x, (inOrder ops).foldlM foldOperation (b.families, {}) = .ok x →
        unfoldableNativeObjectOps b ops = drops (b.families, {}) (inOrder ops)) ∧
      ∀ s op, Dropped s op → foldOperation s op = .ok s := by
  have hfence : drops (b.families, {}) (inOrder ops) <+: unfoldableNativeObjectOps b ops ∧
      ((∃ x, (inOrder ops).foldlM foldOperation (b.families, {}) = .ok x) →
        unfoldableNativeObjectOps b ops = drops (b.families, {}) (inOrder ops)) :=
    fence_drops (inStepWith_baseline b)
  obtain ⟨hstart, hall⟩ := hfence
  exact ⟨hstart, fun x hx => hall ⟨x, hx⟩, fun s op => dropped_unchanged⟩

end Solweig.Bridge
