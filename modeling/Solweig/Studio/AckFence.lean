import Solweig.Lib.Run
import Solweig.Studio.SubmitAcks

/-!
# Promises of submitted operations

An operation is applied once, so a promise that is made after that has no canonical appearance to
settle it. Every other promise that is not settled has its entry.
-/

namespace Solweig.Studio

open Solweig.Lib

namespace Submits

variable {s t : Submits} {operationId : String} {f : Promise → Outcome} {p : Promise}

/-! ## Entries -/

/-- The entries are those of the promises that are not settled. -/
def Entries (s : Submits) : Prop :=
  ∀ (operationId : String) (i : Nat), s.pendingAcks[operationId]? = some i ↔
    ∃ p : Promise, s.promises[i]? = some p ∧ p.operationId = operationId ∧ p.outcome = none

/-- A promise after its entry was settled. -/
def settledBy (operationId : String) (f : Promise → Outcome) (p : Promise) : Promise :=
  if p.operationId = operationId ∧ p.outcome = none then { p with outcome := some (f p) } else p

theorem settledBy_unsettled (h : (settledBy operationId f p).outcome = none) :
    settledBy operationId f p = p ∧ p.outcome = none ∧ p.operationId ≠ operationId := by
  unfold settledBy at h ⊢
  split at h
  · cases h
  · next hnot =>
    rw [if_neg hnot]
    exact ⟨rfl, h, fun hid => hnot ⟨hid, h⟩⟩

theorem settledBy_of_ne (h : p.operationId ≠ operationId) : settledBy operationId f p = p :=
  if_neg fun hsame => h hsame.1

theorem settledBy_kept (operationId : String) (f : Promise → Outcome) (p : Promise) :
    (settledBy operationId f p).operationId = p.operationId ∧
      (settledBy operationId f p).call = p.call ∧ (settledBy operationId f p).late = p.late := by
  unfold settledBy
  split <;> exact ⟨rfl, rfl, rfl⟩

theorem settleAck_eq (h : s.Entries) (operationId : String) (f : Promise → Outcome) :
    s.settleAck operationId f =
      { s with
        promises := s.promises.map (settledBy operationId f)
        pendingAcks := s.pendingAcks.erase operationId } := by
  unfold settleAck
  rcases hentry : s.pendingAcks[operationId]? with _ | i
  · have hpromises : s.promises.map (settledBy operationId f) = s.promises.map id := by
      refine List.map_congr_left fun p hp => if_neg fun hsame => ?_
      obtain ⟨i, hi⟩ := List.getElem?_of_mem hp
      have hfound := (h operationId i).mpr ⟨p, hi, hsame⟩
      rw [hentry] at hfound
      cases hfound
    have herase : s.pendingAcks.erase operationId = s.pendingAcks := by
      apply Std.ExtTreeMap.ext_getElem?
      intro other
      rw [Std.ExtTreeMap.getElem?_erase]
      split
      · next hsame =>
        rw [← Std.compare_eq_iff_eq.mp hsame, hentry]
      · rfl
    simp only [hpromises, List.map_id, herase]
  · obtain ⟨p, hp, hid, hopen⟩ := (h operationId i).mp hentry
    have hany : s.promises[i]?.any (fun entry => entry.outcome.isNone) = true := by
      simp [hp, hopen]
    have hpromises : s.promises.modify i (fun entry => { entry with outcome := some (f entry) }) =
        s.promises.map (settledBy operationId f) := by
      apply List.ext_getElem?
      intro j
      rw [List.getElem?_modify, List.getElem?_map]
      by_cases hj : i = j
      · subst hj
        simp [hp, settledBy, hid, hopen]
      · rcases hq : s.promises[j]? with _ | q
        · simp
        · have hnot : ¬ (q.operationId = operationId ∧ q.outcome = none) := by
            intro hsame
            have hother := (h operationId j).mpr ⟨q, hq, hsame⟩
            rw [hentry] at hother
            exact hj (Option.some.inj hother)
          simp [hj, settledBy, hnot]
    simp only [hany, if_true, hpromises]

theorem Entries.settleAck (h : s.Entries) (operationId : String) (f : Promise → Outcome) :
    (s.settleAck operationId f).Entries := by
  rw [settleAck_eq h]
  intro other i
  dsimp only
  by_cases hsame : operationId = other
  · subst hsame
    rw [Std.ExtTreeMap.getElem?_erase_self]
    constructor
    · intro hnone
      cases hnone
    · rintro ⟨p, hp, hid, hopen⟩
      rw [List.getElem?_map, Option.map_eq_some_iff] at hp
      obtain ⟨q, -, rfl⟩ := hp
      obtain ⟨hkept, -, hne⟩ := settledBy_unsettled hopen
      exact absurd (hkept ▸ hid) hne
  · rw [Dict.getElem?_erase_of_ne _ hsame, h other i]
    constructor
    · rintro ⟨p, hp, hid, hopen⟩
      refine ⟨p, ?_, hid, hopen⟩
      rw [List.getElem?_map, hp, Option.map_some, settledBy_of_ne (hid ▸ Ne.symm hsame)]
    · rintro ⟨p, hp, hid, hopen⟩
      rw [List.getElem?_map, Option.map_eq_some_iff] at hp
      obtain ⟨q, hq, rfl⟩ := hp
      obtain ⟨hkept, hopenBefore, -⟩ := settledBy_unsettled hopen
      exact ⟨q, hq, hkept ▸ hid, hopenBefore⟩

theorem Entries.registerAck (h : s.Entries) (call : Nat) (operationId : String) :
    (s.registerAck call operationId).Entries := by
  have hsettled := h.settleAck operationId fun _ => .acked none none true
  have hnone : (s.settleAck operationId fun _ => .acked none none true).pendingAcks[operationId]? =
      none := by
    rw [settleAck_eq h]
    exact Std.ExtTreeMap.getElem?_erase_self
  unfold Submits.registerAck
  generalize s.settleAck operationId (fun _ => .acked none none true) = settled at hsettled hnone ⊢
  intro other i
  dsimp only
  by_cases hsame : operationId = other
  · subst hsame
    rw [Std.ExtTreeMap.getElem?_insert_self, Option.some_inj]
    constructor
    · rintro rfl
      refine ⟨⟨operationId, call, none, none, false, none, operationId ∈ s.appliedOperationIds⟩,
        ?_, rfl, rfl⟩
      simp
    · rintro ⟨p, hp, hid, hopen⟩
      rcases Nat.lt_trichotomy i settled.promises.length with hlt | heq | hgt
      · rw [List.getElem?_append_left hlt] at hp
        have hfound := (hsettled operationId i).mpr ⟨p, hp, hid, hopen⟩
        rw [hnone] at hfound
        cases hfound
      · exact heq.symm
      · rw [List.getElem?_eq_none (by simp; omega)] at hp
        cases hp
  · rw [Dict.getElem?_insert_of_ne _ _ hsame, hsettled other i]
    refine exists_congr fun p => and_congr_left fun hp => ?_
    rcases Nat.lt_trichotomy i settled.promises.length with hlt | heq | hgt
    · rw [List.getElem?_append_left hlt]
    · subst heq
      simp only [List.getElem?_eq_none (Nat.le_refl _), List.getElem?_concat_length,
        Option.some_inj, false_iff, reduceCtorEq]
      rintro rfl
      exact hsame hp.1
    · rw [List.getElem?_eq_none (Nat.le_of_lt hgt), List.getElem?_eq_none (by simp; omega)]

/-! ## The fence -/

/-- A promise that is not settled was made late exactly when its operation is applied, and it is
of an operation of its call. -/
structure Fence (s : Submits) : Prop where
  entries : s.Entries
  late : ∀ p ∈ s.promises, p.outcome = none →
    (p.late = true ↔ p.operationId ∈ s.appliedOperationIds)
  batch : ∀ p ∈ s.promises, ∃ call, s.calls[p.call]? = some call ∧
    p.operationId ∈ call.operationIds

/-- No promise that is not settled has an answered POST while its operation is applied, or an entry
that is not its own. -/
structure NoneDangles (s : Submits) : Prop where
  answered : ∀ p ∈ s.promises, p.outcome = none → p.operationId ∈ s.appliedOperationIds →
    ∀ call, s.calls[p.call]? = some call → call.state ≠ .returned
  entered : ∀ (i : Nat) (p : Promise), s.promises[i]? = some p → p.outcome = none →
    s.pendingAcks[p.operationId]? = some i

/-- A promise of the call was made late and is not settled. -/
def Stranded (s : Submits) (i : Nat) : Prop :=
  ∃ p ∈ s.promises, p.call = i ∧ p.late = true ∧ p.outcome = none

instance (s : Submits) (i : Nat) : Decidable (s.Stranded i) :=
  inferInstanceAs (Decidable (∃ p ∈ s.promises, _))

theorem Fence.entered (h : s.Fence) : ∀ (i : Nat) (p : Promise), s.promises[i]? = some p →
    p.outcome = none → s.pendingAcks[p.operationId]? = some i :=
  fun i p hp hopen => (h.entries p.operationId i).mpr ⟨p, hp, rfl, hopen⟩

theorem getElem?_setCall {i j : Nat} {call next other : Call} (hcall : s.calls[i]? = some call)
    (hother : (s.setCall i next).calls[j]? = some other) :
    j = i ∧ other = next ∨ s.calls[j]? = some other := by
  unfold Submits.setCall at hother
  rw [List.getElem?_set] at hother
  split at hother
  · next hij =>
    subst hij
    rw [if_pos (List.getElem?_eq_some_iff.mp hcall).1, Option.some_inj] at hother
    exact Or.inl ⟨rfl, hother.symm⟩
  · exact Or.inr hother

theorem Fence.setCall (h : s.Fence) {i : Nat} {call next : Call} (hcall : s.calls[i]? = some call)
    (hids : next.operationIds = call.operationIds) : (s.setCall i next).Fence := by
  refine ⟨h.entries, h.late, fun p hp => ?_⟩
  obtain ⟨own, hown, hmem⟩ := h.batch p hp
  unfold Submits.setCall
  rw [List.getElem?_set]
  split
  · next hi =>
    subst hi
    rw [if_pos (List.getElem?_eq_some_iff.mp hcall).1]
    obtain rfl := Option.some.inj (hcall.symm.trans hown)
    exact ⟨next, rfl, hids ▸ hmem⟩
  · exact ⟨own, hown, hmem⟩

theorem Fence.applyOperation (h : s.Fence) (op : Operation) : (s.applyOperation op).Fence := by
  unfold Submits.applyOperation
  split
  · exact h
  next hnew =>
  have hentries : Entries
      { s with appliedOperationIds := s.appliedOperationIds ++ [op.operationId] } := h.entries
  have hsettled := hentries.settleAck op.operationId fun entry => .acked
    (entry.serverSequence <|> if 0 < op.serverSequence then some op.serverSequence else none)
    entry.epochId entry.duplicate
  refine ⟨hsettled, ?_, ?_⟩
  · rw [settleAck_eq hentries]
    dsimp only
    intro p hp hopen
    obtain ⟨q, hq, rfl⟩ := List.mem_map.mp hp
    obtain ⟨hkept, hopenBefore, hne⟩ := settledBy_unsettled hopen
    rw [hkept, h.late q hq hopenBefore]
    simp [hne]
  · rw [settleAck_eq hentries]
    dsimp only
    intro p hp
    obtain ⟨q, hq, rfl⟩ := List.mem_map.mp hp
    rw [(settledBy_kept _ _ q).1, (settledBy_kept _ _ q).2.1]
    exact h.batch q hq

theorem stranded_applyOperation (h : s.Fence) (op : Operation) (i : Nat) :
    (s.applyOperation op).Stranded i ↔ s.Stranded i := by
  unfold Submits.applyOperation
  split
  · exact Iff.rfl
  next hnew =>
  have hentries : Entries
      { s with appliedOperationIds := s.appliedOperationIds ++ [op.operationId] } := h.entries
  rw [settleAck_eq hentries]
  unfold Stranded
  dsimp only
  constructor
  · rintro ⟨p, hp, hcall, hlate, hopen⟩
    obtain ⟨q, hq, rfl⟩ := List.mem_map.mp hp
    obtain ⟨hkept, hopenBefore, -⟩ := settledBy_unsettled hopen
    rw [hkept] at hcall hlate
    exact ⟨q, hq, hcall, hlate, hopenBefore⟩
  · rintro ⟨p, hp, hcall, hlate, hopen⟩
    have hold := (h.late p hp hopen).mp hlate
    have hne : p.operationId ≠ op.operationId := fun hid => hnew (Or.inr (hid ▸ hold))
    exact ⟨p, List.mem_map.mpr ⟨p, hp, settledBy_of_ne hne⟩, hcall, hlate, hopen⟩

theorem NoneDangles.applyOperation (hfence : s.Fence) (h : s.NoneDangles) (op : Operation) :
    (s.applyOperation op).NoneDangles := by
  refine ⟨?_, (hfence.applyOperation op).entered⟩
  unfold Submits.applyOperation
  split
  · exact h.answered
  have hentries : Entries
      { s with appliedOperationIds := s.appliedOperationIds ++ [op.operationId] } :=
    hfence.entries
  rw [settleAck_eq hentries]
  dsimp only
  intro p hp hopen happlied
  obtain ⟨q, hq, rfl⟩ := List.mem_map.mp hp
  obtain ⟨hkept, hopenBefore, hne⟩ := settledBy_unsettled hopen
  rw [hkept] at happlied ⊢
  refine h.answered q hq hopenBefore ?_
  simpa [hne] using happlied

theorem Fence.applyOperations (h : s.Fence) (operations : List Operation) :
    (operations.foldl Submits.applyOperation s).Fence := by
  induction operations generalizing s with
  | nil => exact h
  | cons op operations ih => exact ih (h.applyOperation op)

theorem applyOperations_kept (hfence : s.Fence) (h : s.NoneDangles) (operations : List Operation)
    (i : Nat) :
    (operations.foldl Submits.applyOperation s).NoneDangles ∧
      ((operations.foldl Submits.applyOperation s).Stranded i ↔ s.Stranded i) := by
  induction operations generalizing s with
  | nil => exact ⟨h, Iff.rfl⟩
  | cons op operations ih =>
    obtain ⟨hd, hs⟩ := ih (hfence.applyOperation op) (h.applyOperation hfence op)
    exact ⟨hd, hs.trans (stranded_applyOperation hfence op i)⟩

/-! ## Failing -/

theorem Fence.failPendingAck (h : s.Fence) (operationId : String) :
    (s.failPendingAck operationId).Fence := by
  refine ⟨h.entries.settleAck operationId _, ?_, ?_⟩
  · unfold Submits.failPendingAck
    rw [settleAck_eq h.entries]
    intro p hp hopen
    obtain ⟨q, hq, rfl⟩ := List.mem_map.mp hp
    obtain ⟨hkept, hopenBefore, -⟩ := settledBy_unsettled hopen
    rw [hkept]
    exact h.late q hq hopenBefore
  · unfold Submits.failPendingAck
    rw [settleAck_eq h.entries]
    intro p hp
    obtain ⟨q, hq, rfl⟩ := List.mem_map.mp hp
    rw [(settledBy_kept _ _ q).1, (settledBy_kept _ _ q).2.1]
    exact h.batch q hq

theorem NoneDangles.failPendingAck (hfence : s.Fence) (h : s.NoneDangles) (operationId : String) :
    (s.failPendingAck operationId).NoneDangles := by
  refine ⟨?_, (hfence.failPendingAck operationId).entered⟩
  unfold Submits.failPendingAck
  rw [settleAck_eq hfence.entries]
  dsimp only
  intro p hp hopen happlied
  obtain ⟨q, hq, rfl⟩ := List.mem_map.mp hp
  obtain ⟨hkept, hopenBefore, -⟩ := settledBy_unsettled hopen
  rw [hkept] at happlied ⊢
  exact h.answered q hq hopenBefore happlied

theorem Fence.failPendingAcks (h : s.Fence) (operationIds : List String) :
    (operationIds.foldl Submits.failPendingAck s).Fence ∧
      (operationIds.foldl Submits.failPendingAck s).calls = s.calls := by
  induction operationIds generalizing s with
  | nil => exact ⟨h, rfl⟩
  | cons operationId operationIds ih =>
    obtain ⟨hf, hcalls⟩ := ih (h.failPendingAck operationId)
    refine ⟨hf, hcalls.trans ?_⟩
    unfold Submits.failPendingAck
    rw [settleAck_eq h.entries]

theorem NoneDangles.failPendingAcks (hfence : s.Fence) (h : s.NoneDangles)
    (operationIds : List String) : (operationIds.foldl Submits.failPendingAck s).NoneDangles := by
  induction operationIds generalizing s with
  | nil => exact h
  | cons operationId operationIds ih =>
    exact ih (hfence.failPendingAck operationId) (h.failPendingAck hfence operationId)

theorem NoneDangles.setCall (h : s.NoneDangles) {i : Nat} {call next : Call}
    (hcall : s.calls[i]? = some call) (hstate : next.state ≠ .returned) :
    (s.setCall i next).NoneDangles := by
  refine ⟨fun p hp hopen happlied other hother => ?_, h.entered⟩
  rcases getElem?_setCall hcall hother with ⟨-, rfl⟩ | hother
  · exact hstate
  · exact h.answered p hp hopen happlied other hother

theorem Fence.fail (h : s.Fence) {i : Nat} {call : Call} (hcall : s.calls[i]? = some call) :
    (s.fail i call).Fence := by
  obtain ⟨hf, hcalls⟩ := h.failPendingAcks call.operationIds
  rw [← hcalls] at hcall
  exact hf.setCall hcall rfl

theorem NoneDangles.fail (hfence : s.Fence) (h : s.NoneDangles) {i : Nat} {call : Call}
    (hcall : s.calls[i]? = some call) : (s.fail i call).NoneDangles := by
  rw [← (hfence.failPendingAcks call.operationIds).2] at hcall
  exact (h.failPendingAcks hfence call.operationIds).setCall hcall (by simp)

/-! ## Answers -/

/-- The data of an ack goes to its entry; nothing is settled by it. -/
def noted (ack : Ack) (entry : Promise) : Promise :=
  if entry.outcome.isNone then
    { entry with
      serverSequence := ack.serverSequence
      epochId := ack.epochId
      duplicate := ack.duplicate }
  else entry

theorem noted_kept (ack : Ack) (p : Promise) :
    (noted ack p).operationId = p.operationId ∧ (noted ack p).call = p.call ∧
      (noted ack p).late = p.late ∧ (noted ack p).outcome = p.outcome := by
  unfold noted
  split <;> exact ⟨rfl, rfl, rfl, rfl⟩

theorem getElem?_recordAck (s : Submits) (ack : Ack) (j : Nat) :
    ∃ g : Promise → Promise, (s.recordAck ack).promises[j]? = s.promises[j]?.map g ∧
      ∀ p, (g p).operationId = p.operationId ∧ (g p).call = p.call ∧ (g p).late = p.late ∧
        (g p).outcome = p.outcome := by
  unfold recordAck
  split
  · exact ⟨id, by simp, fun p => ⟨rfl, rfl, rfl, rfl⟩⟩
  · next i hentry =>
    dsimp only
    rw [List.getElem?_modify]
    by_cases hij : i = j
    · refine ⟨noted ack, ?_, noted_kept ack⟩
      subst hij
      simp only [if_true]
      rfl
    · exact ⟨id, by simp [hij], fun p => ⟨rfl, rfl, rfl, rfl⟩⟩

/-- Two states whose promises differ in the data of their entries only. -/
structure Alike (s t : Submits) : Prop where
  applied : t.appliedOperationIds = s.appliedOperationIds
  pending : t.pendingAcks = s.pendingAcks
  calls : t.calls = s.calls
  promises : ∀ j : Nat, ∃ g : Promise → Promise, t.promises[j]? = s.promises[j]?.map g ∧
    ∀ p, (g p).operationId = p.operationId ∧ (g p).call = p.call ∧ (g p).late = p.late ∧
      (g p).outcome = p.outcome

theorem Alike.refl (s : Submits) : Alike s s :=
  ⟨rfl, rfl, rfl, fun _ => ⟨id, by simp, fun _ => ⟨rfl, rfl, rfl, rfl⟩⟩⟩

theorem Alike.trans {u : Submits} (h : Alike s t) (h' : Alike t u) : Alike s u := by
  refine ⟨h'.applied.trans h.applied, h'.pending.trans h.pending, h'.calls.trans h.calls,
    fun j => ?_⟩
  obtain ⟨g, hg, hkept⟩ := h.promises j
  obtain ⟨g', hg', hkept'⟩ := h'.promises j
  refine ⟨g' ∘ g, by rw [hg', hg, Option.map_map], fun p => ?_⟩
  obtain ⟨hid, hcall, hlate, hopen⟩ := hkept p
  obtain ⟨hid', hcall', hlate', hopen'⟩ := hkept' (g p)
  exact ⟨hid'.trans hid, hcall'.trans hcall, hlate'.trans hlate, hopen'.trans hopen⟩

theorem alike_recordAcks (s : Submits) (acks : List Ack) : Alike s (acks.foldl recordAck s) := by
  induction acks generalizing s with
  | nil => exact Alike.refl s
  | cons ack acks ih =>
    refine Alike.trans ⟨?_, ?_, ?_, getElem?_recordAck s ack⟩ (ih (s.recordAck ack))
    all_goals
      unfold recordAck
      split <;> rfl

theorem Alike.promise (h : Alike s t) {j : Nat} (hp : t.promises[j]? = some p) :
    ∃ q, s.promises[j]? = some q ∧ q.operationId = p.operationId ∧ q.call = p.call ∧
      q.late = p.late ∧ q.outcome = p.outcome := by
  obtain ⟨g, hg, hkept⟩ := h.promises j
  rw [hg, Option.map_eq_some_iff] at hp
  obtain ⟨q, hq, rfl⟩ := hp
  obtain ⟨hid, hcall, hlate, hopen⟩ := hkept q
  exact ⟨q, hq, hid.symm, hcall.symm, hlate.symm, hopen.symm⟩

theorem Alike.promise_back (h : Alike s t) {j : Nat} (hp : s.promises[j]? = some p) :
    ∃ q, t.promises[j]? = some q ∧ q.operationId = p.operationId ∧ q.call = p.call ∧
      q.late = p.late ∧ q.outcome = p.outcome := by
  obtain ⟨g, hg, hkept⟩ := h.promises j
  exact ⟨g p, by rw [hg, hp, Option.map_some], hkept p⟩

theorem Fence.alike (h : s.Fence) (halike : Alike s t) : t.Fence := by
  refine ⟨fun operationId i => ?_, fun p hp hopen => ?_, fun p hp => ?_⟩
  · rw [halike.pending, h.entries operationId i]
    constructor
    · rintro ⟨p, hp, hid, hopen⟩
      obtain ⟨q, hq, hsameId, -, -, hsame⟩ := halike.promise_back hp
      exact ⟨q, hq, hsameId.trans hid, hsame.trans hopen⟩
    · rintro ⟨p, hp, hid, hopen⟩
      obtain ⟨q, hq, hsameId, -, -, hsame⟩ := halike.promise hp
      exact ⟨q, hq, hsameId.trans hid, hsame.trans hopen⟩
  · obtain ⟨j, hj⟩ := List.getElem?_of_mem hp
    obtain ⟨q, hq, hid, -, hlate, hsame⟩ := halike.promise hj
    rw [halike.applied, ← hlate, ← hid]
    exact h.late q (List.mem_of_getElem? hq) (hsame.trans hopen)
  · obtain ⟨j, hj⟩ := List.getElem?_of_mem hp
    obtain ⟨q, hq, hid, hcall, -, -⟩ := halike.promise hj
    rw [halike.calls, ← hcall, ← hid]
    exact h.batch q (List.mem_of_getElem? hq)

theorem NoneDangles.alike (hfence : s.Fence) (h : s.NoneDangles) (halike : Alike s t) :
    t.NoneDangles := by
  refine ⟨fun p hp hopen happlied => ?_, (hfence.alike halike).entered⟩
  obtain ⟨j, hj⟩ := List.getElem?_of_mem hp
  obtain ⟨q, hq, hid, hcall, -, hsame⟩ := halike.promise hj
  rw [halike.applied, ← hid] at happlied
  rw [halike.calls, ← hcall]
  exact h.answered q (List.mem_of_getElem? hq) (hsame.trans hopen) happlied

theorem stranded_alike (halike : Alike s t) (i : Nat) : t.Stranded i ↔ s.Stranded i := by
  constructor
  · rintro ⟨p, hp, hcall, hlate, hopen⟩
    obtain ⟨j, hj⟩ := List.getElem?_of_mem hp
    obtain ⟨q, hq, -, hsameCall, hsameLate, hsame⟩ := halike.promise hj
    exact ⟨q, List.mem_of_getElem? hq, hsameCall.trans hcall, hsameLate.trans hlate,
      hsame.trans hopen⟩
  · rintro ⟨p, hp, hcall, hlate, hopen⟩
    obtain ⟨j, hj⟩ := List.getElem?_of_mem hp
    obtain ⟨q, hq, -, hsameCall, hsameLate, hsame⟩ := halike.promise_back hj
    exact ⟨q, List.mem_of_getElem? hq, hsameCall.trans hcall, hsameLate.trans hlate,
      hsame.trans hopen⟩

theorem returned_iff (hfence : s.Fence) (h : s.NoneDangles) {i : Nat} {call : Call}
    (hcall : s.calls[i]? = some call) :
    (s.setCall i { call with state := .returned }).NoneDangles ↔ ¬ s.Stranded i := by
  constructor
  · rintro hdangles ⟨p, hp, rfl, hlate, hopen⟩
    refine hdangles.answered p hp hopen ((hfence.late p hp hopen).mp hlate)
      { call with state := .returned } ?_ rfl
    unfold setCall
    simp [(List.getElem?_eq_some_iff.mp hcall).1]
  · intro hfree
    refine ⟨fun p hp hopen happlied other hother => ?_, h.entered⟩
    rcases getElem?_setCall hcall hother with ⟨hown, rfl⟩ | hother
    · exact (hfree ⟨p, hp, hown, (hfence.late p hp hopen).mpr happlied, hopen⟩).elim
    · exact h.answered p hp hopen happlied other hother

theorem Fence.reconcile (h : s.Fence) {i : Nat} {call : Call} (hcall : s.calls[i]? = some call) :
    (s.reconcile i call).Fence := by
  unfold Submits.reconcile
  split
  · exact h.setCall hcall rfl
  · exact h.fail hcall

theorem reconcile_iff (hfence : s.Fence) (h : s.NoneDangles) {i : Nat} {call : Call}
    (hcall : s.calls[i]? = some call) : (s.reconcile i call).NoneDangles ↔ ¬ s.Stranded i := by
  unfold Submits.reconcile
  split
  · exact returned_iff hfence h hcall
  · next hnone =>
    refine iff_of_true (h.fail hfence hcall) ?_
    rintro ⟨p, hp, rfl, hlate, hopen⟩
    obtain ⟨own, hown, hmem⟩ := hfence.batch p hp
    obtain rfl := Option.some.inj (hcall.symm.trans hown)
    refine hnone (List.any_eq_true.mpr ⟨p.operationId, hmem, ?_⟩)
    simpa using (hfence.late p hp hopen).mp hlate

theorem calls_applyOperations (h : s.Fence) (operations : List Operation) :
    (operations.foldl Submits.applyOperation s).calls = s.calls := by
  induction operations generalizing s with
  | nil => rfl
  | cons op operations ih =>
    refine (ih (h.applyOperation op)).trans ?_
    unfold Submits.applyOperation
    split
    · rfl
    · have hentries : Entries
          { s with appliedOperationIds := s.appliedOperationIds ++ [op.operationId] } := h.entries
      rw [settleAck_eq hentries]

/-! ## A new call -/

/-- What the registrations of a new call keep, before the call itself is there. -/
structure Registering (s t : Submits) (operationIds : List String) : Prop where
  applied : t.appliedOperationIds = s.appliedOperationIds
  calls : t.calls = s.calls
  entries : t.Entries
  promises : ∀ p ∈ t.promises,
    p.call = s.calls.length ∧ p.operationId ∈ operationIds ∧
      (p.outcome = none → (p.late = true ↔ p.operationId ∈ s.appliedOperationIds)) ∨
    ∃ q ∈ s.promises, q.operationId = p.operationId ∧ q.call = p.call ∧ q.late = p.late ∧
      (p.outcome = none → q.outcome = none)

theorem Registering.registerAck {operationIds : List String} (h : Registering s t operationIds)
    (hmem : operationId ∈ operationIds) :
    Registering s (t.registerAck s.calls.length operationId) operationIds := by
  refine ⟨?_, ?_, h.entries.registerAck s.calls.length operationId, ?_⟩
  · unfold Submits.registerAck
    rw [settleAck_eq h.entries]
    exact h.applied
  · unfold Submits.registerAck
    rw [settleAck_eq h.entries]
    exact h.calls
  · unfold Submits.registerAck
    rw [settleAck_eq h.entries]
    intro p hp
    rcases List.mem_append.mp hp with hp | hp
    · obtain ⟨q, hq, rfl⟩ := List.mem_map.mp hp
      obtain ⟨hid, hcall, hlate⟩ := settledBy_kept operationId
        (fun _ => .acked none none true) q
      rw [hid, hcall, hlate]
      refine (h.promises q hq).imp (fun hnew => ⟨hnew.1, hnew.2.1, fun hopen => ?_⟩) ?_
      · exact hnew.2.2 (settledBy_unsettled hopen).2.1
      · rintro ⟨r, hr, hsameId, hsameCall, hsameLate, hsame⟩
        exact ⟨r, hr, hsameId, hsameCall, hsameLate,
          fun hopen => hsame (settledBy_unsettled hopen).2.1⟩
    · rw [List.mem_singleton.mp hp]
      exact Or.inl ⟨rfl, hmem, by simp [h.applied]⟩

theorem Registering.registerAcks {operationIds few : List String}
    (h : Registering s t operationIds) (hsub : ∀ operationId ∈ few, operationId ∈ operationIds) :
    Registering s (few.foldl (Submits.registerAck s.calls.length) t) operationIds := by
  induction few generalizing t with
  | nil => exact h
  | cons operationId few ih =>
    obtain ⟨hfirst, hrest⟩ := List.forall_mem_cons.mp hsub
    exact ih (h.registerAck hfirst) hrest

theorem Registering.start (h : s.Entries) (operationIds : List String) :
    Registering s s operationIds :=
  ⟨rfl, rfl, h, fun p hp => Or.inr ⟨p, hp, rfl, rfl, rfl, id⟩⟩

theorem registering_submit (h : s.Fence) (operationIds : List String) :
    Registering s (operationIds.foldl (Submits.registerAck s.calls.length) s) operationIds :=
  (Registering.start h.entries operationIds).registerAcks fun _ hmem => hmem

theorem Fence.call_lt (h : s.Fence) (hp : p ∈ s.promises) : p.call < s.calls.length := by
  obtain ⟨call, hcall, -⟩ := h.batch p hp
  exact (List.getElem?_eq_some_iff.mp hcall).1

theorem Fence.submit (h : s.Fence) (operationIds : List String) : (s.submit operationIds).Fence := by
  obtain ⟨happlied, hcalls, hentries, hpromises⟩ := registering_submit h operationIds
  refine ⟨hentries, fun p hp hopen => ?_, fun p hp => ?_⟩
  · unfold Submits.submit
    dsimp only
    rw [happlied]
    rcases hpromises p hp with ⟨-, -, hlate⟩ | ⟨q, hq, hid, -, hlate, hsame⟩
    · exact hlate hopen
    · rw [← hid, ← hlate]
      exact h.late q hq (hsame hopen)
  · unfold Submits.submit
    dsimp only
    rw [hcalls]
    rcases hpromises p hp with ⟨hown, hmem, -⟩ | ⟨q, hq, hid, hcall, -, -⟩
    · exact ⟨⟨operationIds, 0, .posting⟩, by simp [hown], hmem⟩
    · rw [← hcall, List.getElem?_append_left (h.call_lt hq), ← hid]
      exact h.batch q hq

theorem NoneDangles.submit (hfence : s.Fence) (h : s.NoneDangles) (operationIds : List String) :
    (s.submit operationIds).NoneDangles := by
  obtain ⟨happlied, hcalls, -, hpromises⟩ := registering_submit hfence operationIds
  refine ⟨fun p hp hopen hmem call hcall => ?_, (hfence.submit operationIds).entered⟩
  unfold Submits.submit at hmem hcall
  dsimp only at hmem hcall
  rw [happlied] at hmem
  rw [hcalls] at hcall
  rcases hpromises p hp with ⟨hown, -, -⟩ | ⟨q, hq, hid, hsameCall, -, hsame⟩
  · rw [hown, List.getElem?_concat_length, Option.some_inj] at hcall
    simp [← hcall]
  · rw [← hsameCall, List.getElem?_append_left (hfence.call_lt hq)] at hcall
    exact h.answered q hq (hsame hopen) (hid ▸ hmem) call hcall

/-! ## Runs -/

variable {maxSubmitRetries : Nat} {move : Submission}

theorem of_call {i : Nat} {state : Posting} {next : Call → Submits}
    (h : (match s.calls[i]? with
      | some call => if call.state = state then some (next call) else none
      | none => none) = some t) :
    ∃ call, s.calls[i]? = some call ∧ call.state = state ∧ next call = t := by
  split at h
  · next call hcall =>
    rw [Option.ite_none_right_eq_some, Option.some.injEq] at h
    exact ⟨call, hcall, h.1, h.2⟩
  · cases h

theorem Fence.step (h : s.Fence) (hstep : step maxSubmitRetries s move = some t) : t.Fence := by
  cases move with
  | submit operationIds =>
    simp only [Submits.step, Option.ite_none_left_eq_some, Option.some.injEq] at hstep
    exact hstep.2 ▸ h.submit operationIds
  | apply op => exact Option.some.inj hstep ▸ h.applyOperation op
  | answered i acks =>
    obtain ⟨call, hcall, -, rfl⟩ := of_call hstep
    have halike := alike_recordAcks s acks
    rw [← halike.calls] at hcall
    exact (h.alike halike).setCall hcall rfl
  | transient i =>
    obtain ⟨call, hcall, -, rfl⟩ := of_call hstep
    split
    · exact h.setCall hcall rfl
    · exact h.fail hcall
  | turnedAway i =>
    obtain ⟨call, hcall, -, rfl⟩ := of_call hstep
    split
    · exact h.setCall hcall rfl
    · exact h.fail hcall
  | refused i =>
    obtain ⟨call, hcall, -, rfl⟩ := of_call hstep
    exact h.fail hcall
  | reconciled i operations =>
    obtain ⟨call, hcall, -, rfl⟩ := of_call hstep
    cases operations with
    | none => exact h.fail hcall
    | some operations =>
      rw [← calls_applyOperations h operations] at hcall
      exact (h.applyOperations operations).reconcile hcall

theorem step_iff (hfence : s.Fence) (h : s.NoneDangles)
    (hstep : step maxSubmitRetries s move = some t) :
    t.NoneDangles ↔ ∀ i ∈ move.returns, ¬ s.Stranded i := by
  cases move with
  | submit operationIds =>
    simp only [Submits.step, Option.ite_none_left_eq_some, Option.some.injEq] at hstep
    refine iff_of_true (hstep.2 ▸ h.submit hfence operationIds) ?_
    simp [Submission.returns]
  | apply op =>
    refine iff_of_true (Option.some.inj hstep ▸ h.applyOperation hfence op) ?_
    simp [Submission.returns]
  | answered i acks =>
    obtain ⟨call, hcall, -, rfl⟩ := of_call hstep
    have halike := alike_recordAcks s acks
    rw [← halike.calls] at hcall
    rw [returned_iff (hfence.alike halike) (h.alike hfence halike) hcall, stranded_alike halike]
    simp [Submission.returns]
  | transient i =>
    obtain ⟨call, hcall, hstate, rfl⟩ := of_call hstep
    refine iff_of_true ?_ (by simp [Submission.returns])
    split
    · exact h.setCall hcall (by simp [hstate])
    · exact h.fail hfence hcall
  | turnedAway i =>
    obtain ⟨call, hcall, -, rfl⟩ := of_call hstep
    refine iff_of_true ?_ (by simp [Submission.returns])
    split
    · exact h.setCall hcall (by simp)
    · exact h.fail hfence hcall
  | refused i =>
    obtain ⟨call, hcall, -, rfl⟩ := of_call hstep
    exact iff_of_true (h.fail hfence hcall) (by simp [Submission.returns])
  | reconciled i operations =>
    obtain ⟨call, hcall, -, rfl⟩ := of_call hstep
    cases operations with
    | none => exact iff_of_true (h.fail hfence hcall) (by simp [Submission.returns])
    | some operations =>
      obtain ⟨hd, hs⟩ := applyOperations_kept hfence h operations i
      rw [← calls_applyOperations hfence operations] at hcall
      dsimp only
      rw [reconcile_iff (hfence.applyOperations operations) hd hcall, hs]
      simp [Submission.returns]

/-- A run has no dangling promise in any state exactly when no POST of it comes back to a promise
that was made after its operation was applied and is not settled since. -/
theorem never_dangles_iff {maxSubmitRetries : Nat} {moves : List Submission} {s : Submits}
    (hrun : run (step maxSubmitRetries) .initial moves = some s) :
    (∀ u, Visits (step maxSubmitRetries) .initial moves u → u.NoneDangles) ↔
      EachStep (step maxSubmitRetries) (fun u move => ∀ i ∈ move.returns, ¬ u.Stranded i) .initial
        moves := by
  refine always_iff_eachStep (fun _ _ _ h hstep => Fence.step h hstep)
    (fun _ _ _ hfence h hstep => step_iff hfence h hstep) (I := Fence) ?_ ?_ hrun
  · refine ⟨fun operationId i => ?_, by simp [initial], by simp [initial]⟩
    simp [initial]
  · exact ⟨by simp [initial], by simp [initial]⟩

/-- The same operation is submitted again before it appears. -/
theorem resubmit_before_settles :
    (run (step 3) .initial [.submit ["a"], .submit ["a"], .apply ⟨"a", 1⟩, .answered 0 [],
        .answered 1 [⟨"a", some 1, none, true⟩]]).isSome = true ∧
      ∀ u, Visits (step 3) .initial [.submit ["a"], .submit ["a"], .apply ⟨"a", 1⟩,
        .answered 0 [], .answered 1 [⟨"a", some 1, none, true⟩]] u → u.NoneDangles := by
  refine ⟨rfl, (never_dangles_iff (s := _) rfl).mpr ?_⟩
  refine eachStep_cons rfl (by decide) (eachStep_cons rfl (by decide) (eachStep_cons rfl (by decide)
    (eachStep_cons rfl ?_ (eachStep_cons rfl ?_ trivial))))
  · decide
  · decide

/-- The same operation is submitted again after it appeared: the server acks the duplicate, and
nothing settles the second promise. -/
theorem resubmit_after_dangles :
    ∃ s, run (step 3) .initial [.submit ["a"], .answered 0 [⟨"a", some 1, none, false⟩],
        .apply ⟨"a", 1⟩, .submit ["a"], .answered 1 [⟨"a", some 1, none, true⟩]] = some s ∧
      ¬ s.NoneDangles := by
  refine ⟨_, rfl, fun h => ?_⟩
  exact h.answered _ (List.mem_cons_of_mem _ (List.mem_cons_self ..)) rfl (by decide) _ rfl
    rfl

end Submits

end Solweig.Studio
