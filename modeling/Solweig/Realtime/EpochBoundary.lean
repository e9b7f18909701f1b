import Solweig.Realtime.SharedField

/-!
# Where an epoch is cut

The same log folded in one epoch and in several. The owners of segment fields live as long as
an epoch, so the cut matters as soon as two families write a field of one name.
-/

namespace Solweig.Realtime

open Solweig.Lib Solweig.Lib.Interval

/-- The batches one after another, each from the state that the one before it returned. -/
def reduceBatches (b : CanonicalState) : List (List Operation) → Except ReduceError CanonicalState
  | [] => .ok b
  | ops :: rest =>
    match reduceEpoch b ops with
    | .error e => .error e
    | .ok r => reduceBatches r.state rest

theorem reduceBatches_state {b : CanonicalState} {batches : List (List Operation)}
    (h : ∀ ops ∈ batches, InLogOrder ops ∧ FieldsApart ops) :
    (reduceBatches b batches).map (·.families) = batches.flatten.foldlM applyOperation b.families := by
  induction batches generalizing b with
  | nil => rfl
  | cons ops rest ih =>
    rw [List.forall_mem_cons] at h
    have hstate := reduceEpoch_state (b := b) h.1.1 h.1.2
    rw [List.flatten_cons, List.foldlM_append, ← hstate, reduceBatches]
    cases reduceEpoch b ops with
    | error e => rfl
    | ok r => exact ih h.2

theorem FieldsApart.sublist {ops ops' : List Operation} (h : FieldsApart ops)
    (hs : ∀ op ∈ ops', op ∈ ops) : FieldsApart ops' :=
  fun u hu v hv => h u (hs u hu) v (hs v hv)

/-- The batches give the families that one epoch gives. -/
def CutsAgree (b : CanonicalState) (ops : List Operation) : Prop :=
  ∀ r batches, reduceEpoch b ops = .ok r → batches.flatten = ops →
    ∃ s, reduceBatches b batches = .ok s ∧ s.families = r.state.families

theorem cutsAgree_of_apart {ops : List Operation} (hlog : InLogOrder ops) (hf : FieldsApart ops)
    (b : CanonicalState) : CutsAgree b ops := by
  rintro r batches hr rfl
  have hwhole := reduceEpoch_state (b := b) hlog hf
  have hparts := @reduceBatches_state b batches fun ops hops =>
    ⟨(List.pairwise_flatten.mp hlog).1 ops hops,
      hf.sublist fun op hop => List.mem_flatten_of_mem hops hop⟩
  rw [← hwhole, hr] at hparts
  cases hs : reduceBatches b batches with
  | error e => simp [hs, Except.map] at hparts
  | ok s =>
    simp only [hs, Except.map, Except.ok.injEq] at hparts
    exact ⟨s, rfl, hparts⟩

/-- A shared field name shows in some state: folded in one epoch the operations lose a time step
that they keep when each has an epoch of its own. -/
theorem apart_of_cutsAgree {ops : List Operation} (hlog : InLogOrder ops) (hr : InRange ops)
    (hok : ∃ b r, reduceEpoch b ops = .ok r) (h : ∀ b, CutsAgree b ops) : FieldsApart ops := by
  by_contra hnot
  obtain ⟨b, r, hok⟩ := hok
  obtain ⟨p, hp, -⟩ := (reduceEpoch_log hlog).mp hok
  obtain ⟨g, field, edge, n, hn, hexact, hlost⟩ := lost_of_not_apart hr hnot
  let b' : CanonicalState :=
    { b with families := { b.families with segments := spotted g field edge n } }
  have hview := Exact.foldlM_insert (v := (spotted g field edge n, ∅)) hexact hr.insertions
  obtain ⟨q, hq, -⟩ := foldlM_objects (t := (b'.families, {})) hp rfl hview
  have hsingle : (ops.map ([·])).flatten = ops := by
    rw [← List.flatMap_def, List.flatMap_singleton']
  obtain ⟨s, hs, heq⟩ := h b' _ (ops.map ([·])) ((reduceEpoch_log hlog).mpr ⟨q, hq, rfl⟩) hsingle
  have halone := @reduceBatches_state b' (ops.map ([·])) (by
    simp only [List.forall_mem_map]
    exact fun op _ => ⟨List.pairwise_singleton _ _, fieldsApart_of_family (F := op.sourceFamily) (by simp)⟩)
  rw [hs, hsingle] at halone
  have hcut := foldlM_apply_segments halone.symm
  have hwhole := foldlM_view hq
  rw [show viewOf (b'.families, {}) = (spotted g field edge n, ∅) from rfl, hview,
    Except.ok.injEq] at hwhole
  rw [show b'.families.segments = spotted g field edge n from rfl, hexact.foldlM_paste hr.insertions,
    Except.ok.injEq] at hcut
  have hkept := kept_operations g field edge hn ops
  refine hlost.2 ?_
  have hsame : (viewOf q).1 = s.families.segments := by rw [heq]; rfl
  rw [← hwhole, ← hcut] at hsame
  exact hsame ▸ hkept.2

/-- Two time steps of a forcing field, a parameter of the same name, a third time step. -/
def sharedNameOps : List Operation :=
  let write (n : Nat) (family : SegmentFamily) (fields : List (String × Json)) : Operation :=
    { operationId := toString n, actorId := "ada", sourceFamily := .segment family,
      entityId := none, verb := .set, payload := .obj fields, serverSequence := n, epochId := 0 }
  let value : String × Json := ("values", .obj [("Ta", .int 20)])
  [write 1 .meteorologicalForcing [("time_index", .int 0), value],
    write 2 .meteorologicalForcing [("time_index", .int 5), value],
    write 3 .modelReceptorParameters [value],
    write 4 .meteorologicalForcing [("time_index", .int 9), value]]

theorem sharedNameOps_cut :
    InLogOrder sharedNameOps ∧ (reduceEpoch initialState sharedNameOps).isOk = true ∧
      ¬ CutsAgree initialState sharedNameOps := by
  let forcing (s : Families) : List Segment := (s.segments .meteorologicalForcing).getD "Ta" []
  have hwhole : (reduceEpoch initialState sharedNameOps).map (fun r => forcing r.state.families) =
      .ok [⟨0, some 0, .int 20⟩, ⟨9, some 9, .int 20⟩] := by decide +kernel
  have hcut : (reduceBatches initialState [sharedNameOps.take 3, sharedNameOps.drop 3]).map
      (fun s => forcing s.families) =
      .ok [⟨0, some 0, .int 20⟩, ⟨5, some 5, .int 20⟩, ⟨9, some 9, .int 20⟩] := by decide +kernel
  refine ⟨by decide, by decide +kernel, fun h => ?_⟩
  cases hr : reduceEpoch initialState sharedNameOps with
  | error e => simp [hr, Except.map] at hwhole
  | ok r =>
    obtain ⟨s, hs, heq⟩ := h r [sharedNameOps.take 3, sharedNameOps.drop 3] hr rfl
    rw [hr] at hwhole
    rw [hs] at hcut
    simp only [Except.map, Except.ok.injEq, heq] at hwhole hcut
    rw [hwhole] at hcut
    simp at hcut

/-- Every list is stable under cuts if no field name is written in two segment families, and one
with moderate times only then. -/
theorem epoch_cut_irrelevant {ops : List Operation} (hlog : InLogOrder ops) :
    (FieldsApart ops → ∀ b, CutsAgree b ops) ∧
      (InRange ops → (∃ b r, reduceEpoch b ops = .ok r) → (∀ b, CutsAgree b ops) →
        FieldsApart ops) :=
  ⟨fun hf b => cutsAgree_of_apart hlog hf b, fun hr hok => apart_of_cutsAgree hlog hr hok⟩

theorem epoch_cut_irrelevant_two_steps :
    (∀ b, CutsAgree b (sharedNameOps.take 2)) ∧ FieldsApart (sharedNameOps.take 2) :=
  have h := @epoch_cut_irrelevant (sharedNameOps.take 2) (by decide)
  have hcuts := h.1 (fieldsApart_of_family (F := .segment .meteorologicalForcing) (by decide))
  ⟨hcuts, h.2 (by decide) ⟨initialState, except_of_isOk (by decide +kernel)⟩ hcuts⟩

end Solweig.Realtime
