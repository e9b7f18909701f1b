import Solweig.Realtime.Independence

/-!
# Families that do interfere

Each way in which two families can meet under a shared name shows in some baseline: a time step
is lost, or a conflict record names an operation of the other family.
-/

namespace Solweig.Realtime

open Solweig.Lib

/-! ## Folds that run to their end -/

/-- Every live entity has a generation that is a number. -/
def Sound (s : Families) : Prop :=
  ∀ o e live, (s.objects o).objects[e]? = some live → ∃ n, generationOf e live = .ok n

/-- No operation writes a generation that is not one. -/
def SoundFields (ops : List Operation) : Prop :=
  ∀ op ∈ ops, ∀ o v, op.sourceFamily = .object o →
    (objectFields o op.payload.mapping)["generation"]? = some v → v.pyInt ≠ none

theorem generationOf_ok {e : String} {fields : Dict String Json} :
    (∃ n, generationOf e fields = .ok n) ↔ ∃ v, fields["generation"]? = some v ∧ v.pyInt ≠ none := by
  unfold generationOf
  cases hv : fields["generation"]? with
  | none => simp
  | some v => cases hi : v.pyInt <;> simp [hi]

theorem foldl_insert {k : String} (entries : List (String × Json)) (live : Dict String Json) :
    (∀ v, (entries.foldl (fun d e => d.insert e.1 e.2) live)[k]? = some v →
      (k, v) ∈ entries ∨ live[k]? = some v) ∧
    (k ∈ live → k ∈ entries.foldl (fun d e => d.insert e.1 e.2) live) := by
  induction entries generalizing live with
  | nil => exact ⟨fun v hv => Or.inr hv, id⟩
  | cons e entries ih =>
    obtain ⟨hval, hmem⟩ := ih (live.insert e.1 e.2)
    refine ⟨fun v hv => ?_, fun hk => hmem (Std.ExtTreeMap.mem_insert.mpr (Or.inr hk))⟩
    rcases hval v hv with h | h
    · exact Or.inl (List.mem_cons_of_mem _ h)
    · by_cases hke : e.1 = k
      · subst hke
        rw [Std.ExtTreeMap.getElem?_insert_self, Option.some.injEq] at h
        subst h
        exact Or.inl List.mem_cons_self
      · rw [Dict.getElem?_insert_of_ne _ _ hke] at h
        exact Or.inr h

theorem editFields_some {o : ObjectFamily} {op : Operation} {fields : Dict String Json}
    {k : String} {v : Json} (h : (editFields o op fields)[k]? = some v) : fields[k]? = some v := by
  unfold editFields at h
  split at h
  · rw [Std.ExtTreeMap.getElem?_filter'] at h
    simp only [Option.filter_eq_some_iff] at h
    exact h.1
  · exact h

theorem TurnOf.sound {o : ObjectFamily} {state : ObjectState} {op : Operation} {turn : ObjectTurn}
    (h : TurnOf o state op turn)
    (hs : ∀ e live, state.objects[e]? = some live → ∃ n, generationOf e live = .ok n)
    (hop : ∀ v, (objectFields o op.payload.mapping)["generation"]? = some v → v.pyInt ≠ none) :
    turn.error? = none ∧ ∀ e live, (turn.state state).objects[e]? = some live →
      ∃ n, generationOf e live = .ok n := by
  cases h with
  | audit | reject => exact ⟨rfl, hs⟩
  | fail error e live hl hg =>
    obtain ⟨n, hn⟩ := hs e live hl
    simp [hn] at hg
  | add e fields previous he hne hv hp =>
    refine ⟨rfl, fun e' live hl => ?_⟩
    by_cases heq : e = e'
    · subst heq
      simp only [ObjectTurn.state, Std.ExtTreeMap.getElem?_insert_self, Option.some.injEq] at hl
      subst hl
      exact generationOf_ok.mpr ⟨_, Std.ExtTreeMap.getElem?_insert_self, by simp [Json.pyInt]⟩
    · simp only [ObjectTurn.state, Dict.getElem?_insert_of_ne _ _ heq] at hl
      exact hs e' live hl
  | edit e fields live₀ he hne hv hl₀ hf =>
    refine ⟨rfl, fun e' live hl => ?_⟩
    by_cases heq : e = e'
    · subst heq
      simp only [ObjectTurn.state, Std.ExtTreeMap.getElem?_insert_self, Option.some.injEq,
        Std.ExtTreeMap.foldl_eq_foldl_toList] at hl
      subst hl
      obtain ⟨w, hw, hnum⟩ := generationOf_ok.mp (hs e live₀ hl₀)
      obtain ⟨hval, hmem⟩ := foldl_insert (k := "generation") fields.toList live₀
      obtain ⟨v, hv'⟩ := Option.isSome_iff_exists.mp (Std.ExtTreeMap.mem_iff_isSome_getElem?.mp
        (hmem (Std.ExtTreeMap.mem_iff_isSome_getElem?.mpr (by simp [hw]))))
      refine generationOf_ok.mpr ⟨v, hv', ?_⟩
      rcases hval v hv' with h | h
      · rw [Std.ExtTreeMap.mem_toList_iff_getElem?_eq_some, hf] at h
        exact hop v (editFields_some h)
      · rw [hw, Option.some.injEq] at h
        exact h ▸ hnum
    · simp only [ObjectTurn.state, Dict.getElem?_insert_of_ne _ _ heq] at hl
      exact hs e' live hl
  | delete e live₀ generation he hne hv hl₀ hg =>
    refine ⟨rfl, fun e' live hl => ?_⟩
    by_cases heq : e = e'
    · subst heq
      simp [ObjectTurn.state] at hl
    · simp only [ObjectTurn.state, Dict.getElem?_erase_of_ne _ heq] at hl
      exact hs e' live hl

theorem sound_run_of_inserts {ops : List Operation} (hops : SoundFields ops)
    {s : Families × Fold} (hs : Sound s.1) {v : SegmentView}
    (hv : (ops.flatMap insertions).foldlM insertInto (viewOf s) = .ok v) :
    ∃ x, ops.foldlM foldOperation s = .ok x := by
  induction ops generalizing s with
  | nil => exact ⟨s, rfl⟩
  | cons op ops ih =>
    rw [List.flatMap_cons] at hv
    obtain ⟨w, hw, hv⟩ := foldlM_append_ok.mp hv
    have hnext : ∃ t, foldOperation s op = .ok t ∧ Sound t.1 := by
      by_cases hobj : ∃ o, op.sourceFamily = .object o
      · obtain ⟨o, hf⟩ := hobj
        obtain ⟨herr, hsound⟩ := (objectTurn_spec o (s.1.objects o) op).sound (hs o)
          fun v => hops op List.mem_cons_self o v hf
        refine ⟨_, (foldOperation_object hf).mpr ⟨herr, rfl⟩, fun p e live hl => ?_⟩
        by_cases hp : p = o
        · subst hp
          simp only [Function.update_self] at hl
          exact hsound e live hl
        · simp only [Function.update_of_ne hp] at hl
          exact hs p e live hl
      · have hok : ∃ t, foldOperation s op = .ok t := by
          cases hf : op.sourceFamily with
          | object o => exact absurd ⟨o, hf⟩ hobj
          | landcoverSurface => exact ⟨_, foldOperation_landcover hf⟩
          | segment g => exact ⟨_, (foldOperation_segment hf).mpr ⟨w, hw, rfl⟩⟩
          | outputView => exact ⟨_, foldOperation_outputView hf⟩
        obtain ⟨t, ht⟩ := hok
        refine ⟨t, ht, ?_⟩
        rw [Sound, (object_unrelated (fun p hp => hobj ⟨p, hp⟩) ht).1]
        exact hs
    obtain ⟨t, ht, hsound⟩ := hnext
    rw [foldOperation_view ht, Except.ok.injEq] at hw
    obtain ⟨x, hx⟩ := ih (fun op hop => hops op (List.mem_cons_of_mem _ hop)) hsound (hw ▸ hv)
    exact ⟨x, foldlM_cons_ok.mpr ⟨t, ht, hx⟩⟩

theorem sound_run {ops : List Operation} (hops : SoundFields ops) (hr : InRange ops)
    {s : Families} (hs : Sound s) (hexact : Exact s.segments) :
    ∃ x, ops.foldlM foldOperation (s, {}) = .ok x :=
  sound_run_of_inserts (s := (s, {})) hops hs
    (Exact.foldlM_insert (v := viewOf (s, {})) hexact hr.insertions)

/-! ## What records can name -/

def ConflictRecord.ids (c : ConflictRecord) : List String :=
  c.winnerOperationId :: c.loserOperationIds

/-- The bookkeeping and the records of object families name operations that were folded. -/
structure OwnBook (done : List Operation) (s : Families × Fold) : Prop where
  adds : ∀ e, ∀ v ∈ s.2.addOps.getD e [], v ∈ done ∧ ∃ o, AddsTo v o e
  added : ∀ e, (∃ v ∈ done, ∃ o, AddsTo v o e) → s.2.addOps.getD e [] ≠ []
  deletes : ∀ (e : String) d, s.2.deleteOps[e]? = some d → d ∈ done
  named : ∀ c ∈ s.2.conflicts, (∃ o, c.sourceFamily = .object o) →
    ∀ id ∈ c.ids, ∃ v ∈ done, v.operationId = id

theorem TurnOf.mem_addOps {o : ObjectFamily} {state : ObjectState} {op : Operation}
    {turn : ObjectTurn} (h : TurnOf o state op turn) (hf : op.sourceFamily = .object o)
    (fold : Fold) {e : String} {v : Operation}
    (hv : v ∈ (turn.fold o state op fold).addOps.getD e []) :
    v ∈ fold.addOps.getD e [] ∨ v = op ∧ AddsTo op o e := by
  cases h with
  | add e₀ fields previous he hne hverb hp =>
    by_cases heq : e₀ = e
    · subst heq
      simp only [ObjectTurn.fold, Dict.push, Std.ExtTreeMap.getD_insert_self, List.mem_append,
        List.mem_singleton] at hv
      exact hv.imp_right fun hv => ⟨hv, ⟨hf, he, hne⟩, hverb⟩
    · simp only [ObjectTurn.fold, Dict.push, Dict.getD_insert_of_ne _ _ _ heq] at hv
      exact Or.inl hv
  | _ => exact Or.inl hv

theorem TurnOf.addOps_ne_nil {o : ObjectFamily} {state : ObjectState} {op : Operation}
    {turn : ObjectTurn} (h : TurnOf o state op turn) (herr : turn.error? = none) (fold : Fold)
    {e : String} (hadd : fold.addOps.getD e [] ≠ [] ∨ AddsTo op o e) :
    (turn.fold o state op fold).addOps.getD e [] ≠ [] := by
  rcases hadd with hne | ⟨⟨-, he, hne⟩, hverb⟩
  · cases h with
    | add e₀ fields previous he _ hverb hp =>
      by_cases heq : e₀ = e
      · simp [ObjectTurn.fold, Dict.push, heq]
      · simpa only [ObjectTurn.fold, Dict.push, Dict.getD_insert_of_ne _ _ _ heq] using hne
    | _ => exact hne
  · cases h with
    | add e₀ fields previous he₀ =>
      obtain rfl := Option.some.inj (he₀.symm.trans he)
      simp [ObjectTurn.fold, Dict.push]
    | audit hidle => exact absurd hverb (hidle e he hne).1
    | fail => simp [ObjectTurn.error?] at herr
    | edit e₀ fields live _ _ hv | reject e₀ generation _ _ hv => simp [hverb] at hv
    | delete e₀ live generation _ _ hv => simp [hverb] at hv

theorem ObjectTurn.deleteOps_some {o : ObjectFamily} {state : ObjectState} {op : Operation}
    {turn : ObjectTurn} {fold : Fold} {e : String} {d : Operation}
    (hd : (turn.fold o state op fold).deleteOps[e]? = some d) :
    fold.deleteOps[e]? = some d ∨ d = op := by
  cases turn with
  | delete e₀ generation =>
    by_cases heq : e₀ = e
    · subst heq
      simp only [ObjectTurn.fold, Std.ExtTreeMap.getElem?_insert_self, Option.some.injEq] at hd
      exact Or.inr hd.symm
    · simp only [ObjectTurn.fold, Dict.getElem?_insert_of_ne _ _ heq] at hd
      exact Or.inl hd
  | _ => exact Or.inl hd

theorem ObjectTurn.conflicts_ids {o : ObjectFamily} {state : ObjectState} {op : Operation}
    {turn : ObjectTurn} {fold : Fold} {c : ConflictRecord}
    (hc : c ∈ turn.conflicts o state op fold) : ∀ id ∈ c.ids, ∃ v, v.operationId = id ∧
      (v = op ∨ (∃ e, v ∈ fold.addOps.getD e []) ∨ ∃ e : String, fold.deleteOps[e]? = some v) := by
  intro id hid
  cases turn with
  | add e fields previous =>
    simp only [ObjectTurn.conflicts, Option.mem_toList, Option.map_eq_some_iff] at hc
    obtain ⟨n, -, rfl⟩ := hc
    simp only [ConflictRecord.ids, recreatedConflict, List.mem_cons, List.mem_map,
      Option.mem_toList] at hid
    rcases hid with rfl | ⟨v, hv, rfl⟩
    · exact ⟨op, rfl, Or.inl rfl⟩
    · exact ⟨v, rfl, Or.inr (Or.inl ⟨e, List.mem_of_getLast? hv⟩)⟩
  | reject e generation =>
    simp only [ObjectTurn.conflicts, List.mem_singleton] at hc
    subst hc
    simp only [ConflictRecord.ids, rejectedConflict, List.mem_cons, List.not_mem_nil,
      or_false] at hid
    rcases hid with rfl | rfl
    · cases hd : fold.deleteOps[e]? with
      | none => exact ⟨op, rfl, Or.inl rfl⟩
      | some d => exact ⟨d, rfl, Or.inr (Or.inr ⟨e, hd⟩)⟩
    · exact ⟨op, rfl, Or.inl rfl⟩
  | _ => simp [ObjectTurn.conflicts] at hc

theorem OwnBook.object {done : List Operation} {s t : Families × Fold} {op : Operation}
    {o : ObjectFamily} (hs : OwnBook done s) (hf : op.sourceFamily = .object o)
    (h : foldOperation s op = .ok t) : OwnBook (done ++ [op]) t := by
  have hmore : ∀ {v}, v ∈ done → v ∈ done ++ [op] := List.mem_append_left _
  have hself : op ∈ done ++ [op] := by simp
  obtain ⟨herr, rfl⟩ := (foldOperation_object hf).mp h
  have hturn := objectTurn_spec o (s.1.objects o) op
  generalize objectTurn o (s.1.objects o) op = turn at hturn herr
  refine ⟨fun e v hv => ?_, fun e => ?_, fun e d hd => ?_, fun c hc hfam id hid => ?_⟩
  · rcases hturn.mem_addOps hf s.2 hv with hv | ⟨rfl, hadd⟩
    · exact ⟨hmore (hs.adds e v hv).1, (hs.adds e v hv).2⟩
    · exact ⟨hself, o, hadd⟩
  · rintro ⟨v, hv, p, hadd⟩
    refine hturn.addOps_ne_nil herr s.2 ?_
    rcases List.mem_append.mp hv with hv | hv
    · exact Or.inl (hs.added e ⟨v, hv, p, hadd⟩)
    · obtain rfl := List.mem_singleton.mp hv
      obtain rfl : o = p := by simpa using hf.symm.trans hadd.1.1
      exact Or.inr hadd
  · rcases ObjectTurn.deleteOps_some hd with hd | rfl
    · exact hmore (hs.deletes e d hd)
    · exact hself
  · rcases List.mem_append.mp hc with hc | hc
    · obtain ⟨v, hv, rfl⟩ := hs.named c hc hfam id hid
      exact ⟨v, hmore hv, rfl⟩
    · obtain ⟨v, rfl, rfl | ⟨e, hv⟩ | ⟨e, hv⟩⟩ := ObjectTurn.conflicts_ids hc id hid
      · exact ⟨v, hself, rfl⟩
      · exact ⟨v, hmore (hs.adds e v hv).1, rfl⟩
      · exact ⟨v, hmore (hs.deletes e v hv), rfl⟩

theorem OwnBook.unrelated {done : List Operation} {s t : Families × Fold} {op : Operation}
    (hs : OwnBook done s) (hun : ∀ p, op.sourceFamily ≠ .object p)
    (h : foldOperation s op = .ok t) : OwnBook (done ++ [op]) t := by
  have hmore : ∀ {v}, v ∈ done → v ∈ done ++ [op] := List.mem_append_left _
  obtain ⟨-, hadds, -, hdeletes⟩ := object_unrelated hun h
  obtain ⟨cs, hcs, hfam⟩ := foldOperation_conflicts h
  refine ⟨fun e v hv => ?_, fun e => ?_, fun e d hd => ?_, fun c hc hobj id hid => ?_⟩
  · rw [hadds] at hv
    exact ⟨hmore (hs.adds e v hv).1, (hs.adds e v hv).2⟩
  · rintro ⟨v, hv, p, hadd⟩
    rw [hadds]
    rcases List.mem_append.mp hv with hv | hv
    · exact hs.added e ⟨v, hv, p, hadd⟩
    · obtain rfl := List.mem_singleton.mp hv
      exact absurd hadd.1.1 (hun p)
  · rw [hdeletes] at hd
    exact hmore (hs.deletes e d hd)
  · rw [hcs, List.mem_append] at hc
    rcases hc with hc | hc
    · obtain ⟨v, hv, rfl⟩ := hs.named c hc hobj id hid
      exact ⟨v, hmore hv, rfl⟩
    · obtain ⟨p, hp⟩ := hobj
      exact absurd ((hfam c hc).symm.trans hp) (hun p)

theorem ownBook_run {ops : List Operation} {s : Families} {x : Families × Fold}
    (h : ops.foldlM foldOperation (s, {}) = .ok x) : OwnBook ops x :=
  foldlM_invariant (I := OwnBook)
    (fun _ op _ _ _ _ hI hx => by
      by_cases hobj : ∃ o, op.sourceFamily = .object o
      · obtain ⟨o, hf⟩ := hobj
        exact hI.object hf hx
      · exact hI.unrelated (fun p hp => hobj ⟨p, hp⟩) hx)
    ⟨by simp, by simp, by simp, by simp⟩ h

theorem aggregate_kind {fold : Fold} {c : ConflictRecord} (hc : c ∈ aggregateConflicts fold) :
    c.kind = .lastWriteWins ∨ c.kind = .rasterChunkOverwritten := by
  have hrace : ∀ {kind F entityId detail writers},
      raceConflict kind F entityId detail writers = some c → c.kind = kind := by
    intro kind F entityId detail writers h
    unfold raceConflict at h
    split at h
    · obtain ⟨winner, -, rfl⟩ := Option.map_eq_some_iff.mp h
      rfl
    · simp at h
  simp only [aggregateConflicts, List.mem_append, List.mem_filterMap, Option.mem_toList] at hc
  rcases hc with (⟨e, -, he⟩ | ⟨e, -, he⟩) | he
  · exact Or.inl (hrace he)
  · exact Or.inr (hrace he)
  · exact Or.inl (hrace he)

theorem foldlM_conflicts {ops : List Operation} {s x : Families × Fold}
    (h : ops.foldlM foldOperation s = .ok x) : ∀ c ∈ s.2.conflicts, c ∈ x.2.conflicts := by
  induction ops generalizing s with
  | nil =>
    cases h
    exact fun c hc => hc
  | cons op ops ih =>
    obtain ⟨t, ht, hx⟩ := foldlM_cons_ok.mp h
    obtain ⟨cs, hcs, -⟩ := foldOperation_conflicts ht
    exact fun c hc => ih hx c (by rw [hcs]; exact List.mem_append_left _ hc)

/-- What independence says of the folds of a sorted list. -/
def FoldIndependent (ops : List Operation) : Prop :=
  ∀ s x, ops.foldlM foldOperation (s, {}) = .ok x → ∀ F, ∃ y,
    (ownOps F ops).foldlM foldOperation (s, {}) = .ok y ∧ x.1.SameAt F y.1 ∧
      conflictsOf F (x.2.conflicts ++ aggregateConflicts x.2) =
        conflictsOf F (y.2.conflicts ++ aggregateConflicts y.2)

theorem foldIndependent_of_independent {ops : List Operation}
    (hseq : (ops.map (·.serverSequence)).Nodup) (h : ∀ b, Independent b ops) :
    FoldIndependent (inOrder ops) := by
  intro s x hx F
  let b : CanonicalState := { workspaceRevision := 0, families := s }
  obtain ⟨q, hq, hsame, -, hconf⟩ := h b _ (reduceEpoch_ok.mpr ⟨hseq, x, hx, rfl⟩) F
  obtain ⟨-, y, hy, rfl⟩ := reduceEpoch_ok.mp hq
  rw [inOrder_ownOps hseq] at hy
  exact ⟨y, hy, hsame, hconf⟩

theorem no_foreign_record {ops : List Operation} (hind : FoldIndependent ops)
    (hids : (ops.map (·.operationId)).Nodup) {s : Families} {x : Families × Fold}
    (hx : ops.foldlM foldOperation (s, {}) = .ok x) {c : ConflictRecord} (hc : c ∈ x.2.conflicts)
    {o : ObjectFamily} (hfam : c.sourceFamily = .object o)
    (hkind : c.kind = .generationRecreated ∨ c.kind = .tombstoneRejected) {v : Operation}
    (hv : v ∈ ops) (hid : v.operationId ∈ c.ids) : v.sourceFamily = .object o := by
  obtain ⟨y, hy, -, hconf⟩ := hind s x hx (.object o)
  have hmem : c ∈ conflictsOf (.object o) (y.2.conflicts ++ aggregateConflicts y.2) := by
    rw [← hconf]
    exact List.mem_filter.mpr ⟨List.mem_append_left _ hc, by simp [hfam]⟩
  have hown : c ∈ y.2.conflicts := by
    rcases List.mem_append.mp (List.mem_filter.mp hmem).1 with h | h
    · exact h
    · rcases aggregate_kind h with h | h <;> rw [h] at hkind <;> simp at hkind
  obtain ⟨w, hw, hwid⟩ := (ownBook_run hy).named c hown ⟨o, hfam⟩ _ hid
  obtain ⟨hw, hwf⟩ := List.mem_filter.mp hw
  rw [← List.inj_on_of_nodup_map hids hw hv hwid]
  simpa using hwf

/-! ## A baseline for an entity

Gone in one family, live in the other. -/

def goneIn (o : ObjectFamily) (e : String) : Families :=
  { Families.empty with
    objects := fun p =>
      if p = o then { objects := ∅, tombstones := (∅ : Dict String Int).insert e 0 }
      else {
        objects := (∅ : Dict String (Dict String Json)).insert e
          ((∅ : Dict String Json).insert "generation" (.int 0))
        tombstones := ∅ } }

theorem goneIn_sound (o : ObjectFamily) (e : String) : Sound (goneIn o e) := by
  intro p e' live hl
  by_cases hp : p = o
  · simp [goneIn, hp] at hl
  · simp only [goneIn, if_neg hp, Std.ExtTreeMap.getElem?_insert] at hl
    split at hl
    · obtain rfl := Option.some.inj hl
      exact generationOf_ok.mpr ⟨_, Std.ExtTreeMap.getElem?_insert_self, by simp [Json.pyInt]⟩
    · simp at hl

theorem goneIn_exact (o : ObjectFamily) (e : String) : Exact (goneIn o e).segments := by
  intro g field s hs
  simp [goneIn, Families.empty] at hs

/-! ## Adds -/

/-- The family has held the entity. -/
def Known (e : String) (state : ObjectState) : Prop := e ∈ state.objects ∨ e ∈ state.tombstones

theorem TurnOf.known {o : ObjectFamily} {state : ObjectState} {op : Operation} {turn : ObjectTurn}
    (h : TurnOf o state op turn) {e : String} (hk : Known e state) : Known e (turn.state state) := by
  cases h with
  | audit | fail | reject => exact hk
  | add e₀ fields previous =>
    by_cases heq : e₀ = e
    · exact Or.inl (by simp [ObjectTurn.state, heq])
    · rcases hk with hk | hk
      · exact Or.inl (by simp [ObjectTurn.state, hk])
      · refine Or.inr ?_
        simp only [ObjectTurn.state]
        split <;> simp [hk, heq]
  | edit e₀ fields live => exact hk.imp (by simp +contextual [ObjectTurn.state]) id
  | delete e₀ live generation =>
    by_cases heq : e₀ = e
    · exact Or.inr (by simp [ObjectTurn.state, heq])
    · exact hk.imp (by simp +contextual [ObjectTurn.state, heq])
        (by simp +contextual [ObjectTurn.state])

theorem known_run {o : ObjectFamily} {e : String} {ops : List Operation} {s x : Families × Fold}
    (hs : Known e (s.1.objects o)) (h : ops.foldlM foldOperation s = .ok x) :
    Known e (x.1.objects o) := by
  refine foldlM_invariant (I := fun _ s => Known e (s.1.objects o)) ?_ hs h
  intro done op rest s t _ hk ht
  by_cases hobj : ∃ p, op.sourceFamily = .object p
  · obtain ⟨p, hf⟩ := hobj
    obtain ⟨-, rfl⟩ := (foldOperation_object hf).mp ht
    by_cases hp : o = p
    · subst hp
      simp only [Function.update_self]
      exact (objectTurn_spec _ _ op).known hk
    · simpa only [Function.update_of_ne hp] using hk
  · rwa [(object_unrelated (fun p hp => hobj ⟨p, hp⟩) ht).1]

theorem previousGeneration_known {state : ObjectState} {e : String} {previous : Option Int}
    (hk : Known e state) (hp : previousGeneration state e = .ok previous) :
    ∃ n, previous = some n := by
  unfold previousGeneration at hp
  cases hl : state.objects[e]? with
  | some live =>
    simp only [hl] at hp
    cases hg : generationOf e live with
    | error err => simp [hg, Except.map] at hp
    | ok n =>
      simp only [hg, Except.map, Except.ok.injEq] at hp
      exact ⟨n, hp.symm⟩
  | none =>
    simp only [hl, Except.ok.injEq] at hp
    have ht : e ∈ state.tombstones := hk.resolve_left (by
      rw [Std.ExtTreeMap.mem_iff_isSome_getElem?, hl]
      simp)
    obtain ⟨n, hn⟩ := Option.isSome_iff_exists.mp (Std.ExtTreeMap.mem_iff_isSome_getElem?.mp ht)
    exact ⟨n, by rw [← hp, hn]⟩

/-- The family to which the operation adds the entity. -/
def addFamily (e : String) (op : Operation) : Option ObjectFamily :=
  match op.sourceFamily with
  | .object o => if op.entityId = some e ∧ e ≠ "" ∧ op.verb = .add then some o else none
  | _ => none

theorem addFamily_eq_some {e : String} {op : Operation} {o : ObjectFamily} :
    addFamily e op = some o ↔ AddsTo op o e := by
  unfold addFamily AddsTo Targets
  cases hf : op.sourceFamily with
  | object p =>
    simp only [Option.ite_none_right_eq_some, Option.some.injEq, SourceFamily.object.injEq]
    tauto
  | _ => simp

theorem addsApart_of_independent {ops : List Operation} (hind : FoldIndependent ops)
    (hids : (ops.map (·.operationId)).Nodup) (hsound : SoundFields ops) (hrange : InRange ops) :
    AddsApart ops := by
  intro u hu v hv o p e hadd hadd'
  by_contra hne
  -- the first add of the entity in a second family records the last add, of the first one
  obtain ⟨before, w, after, j, k, rfl, honly, ⟨a, ha, hja⟩, hwk, hkj⟩ :=
    exists_first_change (addFamily e) ⟨u, hu, v, hv, o, p, addFamily_eq_some.mpr hadd,
      addFamily_eq_some.mpr hadd', hne⟩
  obtain ⟨⟨hwf, hwe, hwne⟩, hwv⟩ := addFamily_eq_some.mp hwk
  obtain ⟨x, hx⟩ := sound_run hsound hrange (goneIn_sound k e) (goneIn_exact k e)
  obtain ⟨s, hs, hsx⟩ := foldlM_append_ok.mp hx
  obtain ⟨t, ht, htx⟩ := foldlM_cons_ok.mp hsx
  have hknown : Known e (s.1.objects k) :=
    known_run (Or.inr (by simp [goneIn])) hs
  have hbook := ownBook_run hs
  obtain ⟨herr, rfl⟩ := (foldOperation_object hwf).mp ht
  have hturn := objectTurn_spec k (s.1.objects k) w
  generalize objectTurn k (s.1.objects k) w = turn at hturn herr htx
  cases hturn with
  | add e₀ fields previous he _ hverb hp =>
    obtain rfl := Option.some.inj (he.symm.trans hwe)
    obtain ⟨n, rfl⟩ := previousGeneration_known hknown hp
    have hadds := hbook.added e₀ ⟨a, ha, j, addFamily_eq_some.mp hja⟩
    obtain ⟨last, hlast⟩ := Option.isSome_iff_exists.mp (List.getLast?_isSome.mpr hadds)
    obtain ⟨hmem, q, hq⟩ := hbook.adds e₀ last (List.mem_of_getLast? hlast)
    have hlastj : q = j := honly last hmem q (addFamily_eq_some.mpr hq)
    have hforeign := no_foreign_record hind hids hx (v := last) (foldlM_conflicts htx
      (recreatedConflict k e₀ w (s.2.addOps.getD e₀ []) (e₀ ∈ (s.1.objects k).tombstones) n)
      (by simp [ObjectTurn.fold, ObjectTurn.conflicts])) rfl (Or.inl rfl) (by simp [hmem])
      (by simp [ConflictRecord.ids, recreatedConflict, hlast])
    rw [hq.1.1, SourceFamily.object.injEq, hlastj] at hforeign
    exact hkj hforeign.symm
  | audit hidle => exact (hidle e hwe hwne).1 hwv
  | fail => simp [ObjectTurn.error?] at herr
  | edit e₀ fields live _ _ hv | reject e₀ generation _ _ hv => simp [hwv] at hv
  | delete e₀ live generation _ _ hv => simp [hwv] at hv

/-! ## Deletions -/

/-- The presence is what the fold has: `e` is gone in the family and live in the other at first. -/
structure Tracked (o : ObjectFamily) (e : String) (done : List Operation) (s : Families × Fold) :
    Prop where
  live : e ∈ (s.1.objects o).objects ↔ (presence o e done).live = true
  otherLive : e ∈ (s.1.objects o.other).objects ↔ (presence o e done).otherLive = true
  gone : (presence o e done).live = false → e ∈ (s.1.objects o).tombstones
  deleted : (presence o e done).otherDeleted = true →
    ∃ d, s.2.deleteOps[e]? = some d ∧ d.sourceFamily = .object o.other

section Tracked

variable {o : ObjectFamily} {e : String} {done : List Operation} {s t : Families × Fold}
  {op : Operation} {state : ObjectState} {turn : ObjectTurn} {p : Presence}

theorem TurnOf.mem_iff_presentAfter (h : TurnOf o state op turn) (herr : turn.error? = none)
    (hne : e ≠ "") {b : Bool} (hb : e ∈ state.objects ↔ b = true) :
    e ∈ (turn.state state).objects ↔ presentAfter e op b = true :=
  ⟨h.present_of_mem herr hne hb.mp, h.mem_of_present herr hne hb.mpr⟩

theorem entityId_ne {e₀ : String} (he : op.entityId = some e₀) (hne : e₀ ≠ e) :
    op.entityId ≠ some e := by
  rw [he]
  simpa using hne

theorem TurnOf.gone (h : TurnOf o state op turn) (herr : turn.error? = none) (hne : e ≠ "")
    {b : Bool}
    (hb : e ∈ state.objects ↔ b = true) (hgone : b = false → e ∈ state.tombstones)
    (hp : presentAfter e op b = false) : e ∈ (turn.state state).tombstones := by
  unfold presentAfter at hp
  cases h with
  | audit hidle =>
    refine hgone ?_
    split at hp
    · rename_i he
      obtain ⟨hadd, hdelete⟩ := hidle e he hne
      rw [if_neg hadd] at hp
      split at hp
      · have hmem := hdelete ‹_›
        rw [hb] at hmem
        simpa using hmem
      · exact hp
    · exact hp
  | fail => simp [ObjectTurn.error?] at herr
  | add e₀ fields previous he₀ _ hv =>
    by_cases heq : e₀ = e
    · subst heq
      simp [he₀, hv] at hp
    · rw [if_neg (entityId_ne he₀ heq)] at hp
      simp only [ObjectTurn.state]
      split <;> simp [hgone hp, heq]
  | edit e₀ fields live he₀ _ hv | reject e₀ generation he₀ _ hv =>
    have hd : op.verb ≠ .add ∧ op.verb ≠ .delete := by
      constructor <;> rintro heq <;> simp [heq] at hv
    rw [if_neg hd.1, if_neg hd.2, ite_self] at hp
    exact hgone hp
  | delete e₀ live generation he₀ _ hv hl =>
    by_cases heq : e₀ = e
    · simp [ObjectTurn.state, heq]
    · rw [if_neg (entityId_ne he₀ heq)] at hp
      simp [ObjectTurn.state, hgone hp]

theorem TurnOf.deleted_own (h : TurnOf o state op turn) (hf : op.sourceFamily = .object o)
    (hlive : e ∈ state.objects → p.live = true) {fold : Fold} {P : Operation → Prop}
    (hp : p.otherDeleted = true → ∃ d, fold.deleteOps[e]? = some d ∧ P d)
    (hstep : (p.step o e op).otherDeleted = true) :
    ∃ d, (turn.fold o state op fold).deleteOps[e]? = some d ∧ P d := by
  have hkeep : p.otherDeleted = true := by
    by_cases he : op.entityId = some e
    · rw [p.step_own he hf] at hstep
      split at hstep
      · exact hstep
      · split at hstep
        · simp at hstep
        · exact hstep
    · rwa [p.step_apart he] at hstep
  cases h with
  | delete e₀ live generation he₀ _ hv hl =>
    by_cases heq : e₀ = e
    · subst heq
      have hmem := hlive (Std.ExtTreeMap.mem_iff_isSome_getElem?.mpr (by simp [hl]))
      simp [p.step_own he₀ hf, hv, hmem] at hstep
    · simpa only [ObjectTurn.fold, Dict.getElem?_insert_of_ne _ _ heq] using hp hkeep
  | _ => exact hp hkeep

theorem TurnOf.deleted_other (h : TurnOf o.other state op turn)
    (hf : op.sourceFamily = .object o.other) (herr : turn.error? = none) (hne : e ≠ "")
    (hlive : p.otherLive = true → e ∈ state.objects) {fold : Fold}
    (hp : p.otherDeleted = true →
      ∃ d, fold.deleteOps[e]? = some d ∧ d.sourceFamily = .object o.other)
    (hstep : (p.step o e op).otherDeleted = true) :
    ∃ d, (turn.fold o.other state op fold).deleteOps[e]? = some d ∧
      d.sourceFamily = .object o.other := by
  cases h with
  | delete e₀ live generation he₀ _ hv hl =>
    by_cases heq : e₀ = e
    · subst heq
      exact ⟨op, by simp [ObjectTurn.fold], hf⟩
    · rw [p.step_apart (entityId_ne he₀ heq)] at hstep
      simpa only [ObjectTurn.fold, Dict.getElem?_insert_of_ne _ _ heq] using hp hstep
  | audit hidle =>
    refine hp ?_
    by_cases he : op.entityId = some e
    · obtain ⟨hadd, hdelete⟩ := hidle e he hne
      rwa [p.step_other he hf, if_neg hadd,
        if_neg fun hd => hdelete hd.1 (hlive hd.2)] at hstep
    · rwa [p.step_apart he] at hstep
  | fail => simp [ObjectTurn.error?] at herr
  | add e₀ fields previous he₀ _ hv =>
    refine hp ?_
    by_cases he : op.entityId = some e
    · rwa [p.step_other he hf, if_pos hv] at hstep
    · rwa [p.step_apart he] at hstep
  | edit e₀ fields live he₀ _ hv | reject e₀ generation he₀ _ hv =>
    rw [p.step_edit hv] at hstep
    exact hp hstep

theorem Tracked.step (hs : Tracked o e done s) (hne : e ≠ "") (h : foldOperation s op = .ok t) :
    Tracked o e (done ++ [op]) t := by
  by_cases hf : op.sourceFamily = .object o
  · obtain ⟨herr, rfl⟩ := (foldOperation_object hf).mp h
    have hturn := objectTurn_spec o (s.1.objects o) op
    generalize objectTurn o (s.1.objects o) op = turn at hturn herr
    refine ⟨?_, ?_, ?_, ?_⟩ <;> rw [presence_append]
    · simp only [Presence.step_own_live _ hf, Function.update_self]
      exact hturn.mem_iff_presentAfter herr hne hs.live
    · simp only [Presence.step_own_otherLive _ hf, Function.update_of_ne o.other_ne]
      exact hs.otherLive
    · simp only [Presence.step_own_live _ hf, Function.update_self]
      exact hturn.gone herr hne hs.live hs.gone
    · exact hturn.deleted_own hf hs.live.mp hs.deleted
  · by_cases hf' : op.sourceFamily = .object o.other
    · obtain ⟨herr, rfl⟩ := (foldOperation_object hf').mp h
      have hturn := objectTurn_spec o.other (s.1.objects o.other) op
      generalize objectTurn o.other (s.1.objects o.other) op = turn at hturn herr
      refine ⟨?_, ?_, ?_, ?_⟩ <;> rw [presence_append]
      · simp only [Presence.step_other_live _ hf', Function.update_of_ne o.other_ne.symm]
        exact hs.live
      · simp only [Presence.step_other_otherLive _ hf', Function.update_self]
        exact hturn.mem_iff_presentAfter herr hne hs.otherLive
      · simp only [Presence.step_other_live _ hf', Function.update_of_ne o.other_ne.symm]
        exact hs.gone
      · exact hturn.deleted_other hf' herr hne hs.otherLive.mpr hs.deleted
    · have hun : ∀ p, op.sourceFamily ≠ .object p := by
        rintro p hp
        by_cases hpo : p = o
        · exact hf (hpo ▸ hp)
        · exact hf' (by rw [hp, ObjectFamily.eq_other hpo])
      obtain ⟨hobj, -, -, hdeletes⟩ := object_unrelated hun h
      refine ⟨?_, ?_, ?_, ?_⟩ <;> rw [presence_append, Presence.step_unrelated _ hf hf'] <;>
        simp only [hobj, hdeletes]
      · exact hs.live
      · exact hs.otherLive
      · exact hs.gone
      · exact hs.deleted

end Tracked

theorem objectTurn_reject {o : ObjectFamily} {state : ObjectState} {op : Operation} {e : String}
    {n : Int} (h : Edits op o e) (hl : state.objects[e]? = none)
    (ht : state.tombstones[e]? = some n) : objectTurn o state op = .reject e n := by
  obtain ⟨⟨-, he, hne⟩, hv⟩ := h
  simp only [List.mem_cons, List.not_mem_nil, or_false] at hv
  simp only [objectTurn, he, if_neg hne]
  rcases hv with hv | hv | hv <;> simp only [hv, hl, ht]

theorem deletesApart_of_independent {ops : List Operation} (hind : FoldIndependent ops)
    (hids : (ops.map (·.operationId)).Nodup) (hsound : SoundFields ops) (hrange : InRange ops) :
    DeletesApart ops := by
  intro done u rest o e hops hedit
  by_contra hboth
  simp only [not_or, Bool.not_eq_true, Bool.not_eq_false] at hboth
  obtain ⟨hlive, hdeleted⟩ := hboth
  subst hops
  have huf : u.sourceFamily = .object o := hedit.1.1
  -- the edit is rejected, and its record names the last deletion, of the other family
  obtain ⟨x, hx⟩ := sound_run hsound hrange (goneIn_sound o e) (goneIn_exact o e)
  obtain ⟨s, hs, hsx⟩ := foldlM_append_ok.mp hx
  obtain ⟨t, ht, htx⟩ := foldlM_cons_ok.mp hsx
  have htracked : Tracked o e done s := by
    refine foldlM_invariant (I := Tracked o e)
      (fun _ _ _ _ _ _ hI hst => hI.step hedit.1.2.2 hst) ?_ hs
    exact ⟨by simp [goneIn, presence], by simp [goneIn, presence, o.other_ne],
      by simp [goneIn], by simp [presence]⟩
  obtain ⟨d, hd, hdf⟩ := htracked.deleted hdeleted
  obtain ⟨n, hn⟩ := Option.isSome_iff_exists.mp
    (Std.ExtTreeMap.mem_iff_isSome_getElem?.mp (htracked.gone hlive))
  have hgone : (s.1.objects o).objects[e]? = none :=
    Std.ExtTreeMap.getElem?_eq_none (by rw [htracked.live, hlive]; simp)
  obtain ⟨-, rfl⟩ := (foldOperation_object huf).mp ht
  rw [objectTurn_reject hedit hgone hn] at htx
  have hmem := (ownBook_run hs).deletes e d hd
  have hforeign := no_foreign_record hind hids hx (v := d) (foldlM_conflicts htx
    (rejectedConflict o e u (some d) n)
    (by simp [ObjectTurn.fold, ObjectTurn.conflicts, hd])) rfl (Or.inr rfl) (by simp [hmem])
    (by simp [ConflictRecord.ids, rejectedConflict])
  rw [hdf, SourceFamily.object.injEq] at hforeign
  exact o.other_ne hforeign

/-! ## Fields -/

theorem fieldsApart_of_independent {ops : List Operation} (hind : FoldIndependent ops)
    (hsound : SoundFields ops) (hrange : InRange ops) : FieldsApart ops := by
  by_contra hnot
  obtain ⟨g, field, edge, n, hn, hexact, hlost⟩ := lost_of_not_apart hrange hnot
  let s : Families := { Families.empty with segments := spotted g field edge n }
  have hs : Sound s := fun o e live hl => by simp [s, Families.empty] at hl
  obtain ⟨x, hx⟩ := sound_run hsound hrange hs hexact
  obtain ⟨y, hy, hsame, -⟩ := hind s x hx (.segment g)
  have hown : FieldsApart (ownOps (.segment g) ops) :=
    fieldsApart_of_family (F := .segment g) fun op hop => by
      simpa using (List.mem_filter.mp hop).2
  have halone := foldlM_apply_of_apart (s := s) hown
  rw [hy] at halone
  have hcut := foldlM_apply_segments halone.symm
  have hownRange : InRange (ownOps (.segment g) ops) :=
    fun op hop => hrange op (List.mem_filter.mp hop).1
  rw [show s.segments = spotted g field edge n from rfl,
    hexact.foldlM_paste hownRange.insertions, Except.ok.injEq] at hcut
  have hwhole := foldlM_view hx
  rw [show viewOf (s, {}) = (spotted g field edge n, ∅) from rfl,
    Exact.foldlM_insert (v := (spotted g field edge n, ∅)) hexact hrange.insertions,
    Except.ok.injEq] at hwhole
  have hkept := kept_operations g field edge hn (ownOps (.segment g) ops)
  rw [hwhole] at hlost
  rw [hcut] at hkept
  have hcovers : Interval.Covers ((x.1.segments g).getD field []) (edge - 2) := by
    rw [show x.1.segments g = y.1.segments g from hsame]
    exact hkept.2
  exact hlost.2 hcovers

/-! ## The exact condition -/

/-- A tree and a building under one id, each deleted, and a move of the tree. -/
def sharedIdOps : List Operation :=
  let write (n : Nat) (family : ObjectFamily) (verb : OperationVerb) : Operation :=
    { operationId := toString n, actorId := "ada", sourceFamily := .object family,
      entityId := some "7", verb, payload := .obj [("u", .int 3)], serverSequence := n,
      epochId := 0 }
  [write 1 .vegetationGeometry .add, write 2 .buildingGeometry .add,
    write 3 .vegetationGeometry .delete, write 4 .buildingGeometry .delete,
    write 5 .vegetationGeometry .move]

theorem sharedIdOps_interfere :
    (reduceEpoch initialState sharedIdOps).isOk = true ∧ ¬ Independent initialState sharedIdOps := by
  let trees : SourceFamily := .object .vegetationGeometry
  let winners (r : EpochReduction) : List String :=
    (conflictsOf trees r.reduced.conflicts).map (·.winnerOperationId)
  have hwhole : (reduceEpoch initialState sharedIdOps).map winners = .ok ["4"] := by decide +kernel
  have halone : (reduceEpoch initialState (ownOps trees sharedIdOps)).map winners = .ok ["3"] := by
    decide +kernel
  refine ⟨by decide +kernel, fun h => ?_⟩
  cases hr : reduceEpoch initialState sharedIdOps with
  | error e => simp [hr, Except.map] at hwhole
  | ok r =>
    obtain ⟨q, hq, -, -, hconf⟩ := h r hr trees
    rw [hr] at hwhole
    rw [hq] at halone
    simp only [Except.map, Except.ok.injEq, winners, hconf] at hwhole halone
    rw [hwhole] at halone
    simp at halone

theorem presence_of_own {o : ObjectFamily} {e : String} {ops : List Operation}
    (h : ∀ op ∈ ops, op.entityId = some e → op.sourceFamily = .object o) :
    (presence o e ops).otherDeleted = false := by
  induction ops using List.reverseRecOn with
  | nil => rfl
  | append_singleton ops op ih =>
    have hprev := ih fun op' hop => h op' (List.mem_append_left _ hop)
    rw [presence_append]
    by_cases he : op.entityId = some e
    · rw [Presence.step_own _ he (h op (by simp) he)]
      split
      · exact hprev
      · split
        · rfl
        · exact hprev
    · rwa [Presence.step_apart _ he]

theorem apart_of_owner {ops : List Operation} (owner : String → ObjectFamily)
    (h : ∀ op ∈ ops, ∀ e, op.entityId = some e → op.sourceFamily = .object (owner e))
    (hfields : FieldsApart ops) : Apart ops := by
  have howner : ∀ op ∈ ops, ∀ o e, Targets op o e → o = owner e := fun op hop o e htarget => by
    have hown := h op hop e htarget.2.1
    rw [htarget.1] at hown
    exact SourceFamily.object.inj hown
  refine ⟨hfields, fun u hu v hv o p e hadd hadd' => ?_,
    fun done u rest o e hops hedit => Or.inr (presence_of_own fun op hop he => ?_)⟩
  · exact (howner u hu o e hadd.1).trans (howner v hv p e hadd'.1).symm
  · rw [howner u (by simp [hops]) o e hedit.1]
    exact h op (by simp [hops, hop]) e he

/-- Families never interfere exactly when their operations meet under no shared name. The other
direction needs distinct operation ids, as the log has them, generations that are numbers and
moderate times. -/
theorem independent_iff_apart (ops : List Operation) :
    (Apart (inOrder ops) → ∀ b, Independent b ops) ∧
      ((ops.map (·.serverSequence)).Nodup → (ops.map (·.operationId)).Nodup → SoundFields ops →
        InRange ops → (∀ b, Independent b ops) → Apart (inOrder ops)) := by
  refine ⟨independent_of_apart, fun hseq hids hsound hrange h => ?_⟩
  have hind := foldIndependent_of_independent hseq h
  have hids' : ((inOrder ops).map (·.operationId)).Nodup :=
    ((inOrder_perm ops).map _).nodup_iff.mpr hids
  have hsound' : SoundFields (inOrder ops) :=
    fun op hop => hsound op ((inOrder_perm ops).mem_iff.mp hop)
  have hrange' : InRange (inOrder ops) :=
    fun op hop => hrange op ((inOrder_perm ops).mem_iff.mp hop)
  exact ⟨fieldsApart_of_independent hind hsound' hrange',
    addsApart_of_independent hind hids' hsound' hrange',
    deletesApart_of_independent hind hids' hsound' hrange'⟩

/-- A tree comes and goes while a building is added and moved. -/
def twoFamilyOps : List Operation :=
  let write (n : Nat) (family : ObjectFamily) (entity : String) (verb : OperationVerb) : Operation :=
    { operationId := toString n, actorId := "ada", sourceFamily := .object family,
      entityId := some entity, verb, payload := .obj [("u", .int 3)], serverSequence := n,
      epochId := 0 }
  [write 1 .vegetationGeometry "7" .add, write 2 .buildingGeometry "9" .add,
    write 3 .vegetationGeometry "7" .delete, write 4 .buildingGeometry "9" .move]

theorem independent_of_two_families :
    (∀ b, Independent b twoFamilyOps) ∧ Apart (inOrder twoFamilyOps) := by
  have h := independent_iff_apart twoFamilyOps
  have hobject : ∀ op ∈ inOrder twoFamilyOps, ∀ g, op.sourceFamily ≠ .segment g := by
    intro op hop g
    cases g <;> revert op <;> decide
  have hapart : Apart (inOrder twoFamilyOps) := by
    refine apart_of_owner (fun e => if e = "7" then .vegetationGeometry else .buildingGeometry) ?_
      fun u hu v hv g k field hug hvk => absurd hug.1 (hobject u hu g)
    decide
  have hind := h.1 hapart
  have hnone : ∀ op ∈ twoFamilyOps, ∀ o,
      (objectFields o op.payload.mapping)["generation"]? = none := by
    intro op hop o
    cases o <;> revert op <;> decide +kernel
  refine ⟨hind, h.2 (by decide) (by decide) (fun op hop o v _ hv => ?_) (by decide) hind⟩
  simp [hnone op hop o] at hv

end Solweig.Realtime
