import Solweig.Realtime.Payload

/-!
# Segment algebra

The segment map of a field is an interval map. Beside it the fold keeps the operation of this
epoch that wrote each segment, for the conflict records; the insert walks both lists together.
Whether two intervals overlap is decided on floats.
-/

namespace Solweig.Realtime

open Solweig.Lib Solweig.Lib.Interval

/-! ## Overlap -/

/-- The nearest number of 53 binary digits, ties to even. -/
def roundDigits (m : Nat) : Nat :=
  let unit := 2 ^ (m.log2 - 52)
  let q := m / unit
  let r := m % unit
  (if 2 * r < unit ∨ 2 * r = unit ∧ q % 2 = 0 then q else q + 1) * unit

/-- `float(n)`; `none` where the exponent overflows. -/
@[irreducible]
def doubleOf (n : Int) : Option Int :=
  if (roundDigits n.natAbs).log2 < 1024 then some (n.sign * roundDigits n.natAbs) else none

/-- `_seg_stop`; no stop is infinity. -/
def segStop : Option Int → Except ReduceError (Option Int)
  | none => .ok none
  | some stop =>
    match doubleOf stop with
    | some double => .ok (some double)
    | none => .error .overflow

/-- `_overlaps`, which looks at the second stop only if it has to. -/
def overlapsFloat (startA : Int) (stopA : Option Int) (startB : Int) (stopB : Option Int) :
    Except ReduceError Bool :=
  match segStop stopB with
  | .error e => .error e
  | .ok b =>
    if atMost startA b then (segStop stopA).map fun a => decide (atMost startB a) else .ok false

/-- Which of the stored segments the new one overlaps. -/
def overlapFlags (seg : Segment) : List Segment → Except ReduceError (List Bool)
  | [] => .ok []
  | s :: rest =>
    match overlapsFloat seg.start seg.stop s.start s.stop with
    | .error e => .error e
    | .ok hit => (overlapFlags seg rest).map (hit :: ·)

/-! ## Placing a segment -/

/-- A stored segment with the operation that wrote it. -/
abbrev Owned := Segment × Option Operation

/-- The merge loop over segments and owners; the last merged one comes first. -/
def mergeOwned : List Owned → List Owned → List Owned
  | merged, [] => merged.reverse
  | [], x :: rest => mergeOwned [x] rest
  | m :: ms, x :: rest =>
    if joins Json.pyEq m.1 x.1 then
      mergeOwned (({ x.1 with start := m.1.start }, if m.2 = none then x.2 else m.2) :: ms) rest
    else mergeOwned (x :: m :: ms) rest

/-- What an insert makes of the stored segments and their owners. Each comes with its flag. -/
def placeOwned (stored : List (Owned × Bool)) (seg : Segment) (op : Operation) : List Owned :=
  let kept := stored.flatMap fun x =>
    if x.2 then (cutOut seg.start seg.stop x.1.1).map fun s => (s, x.1.2) else [x.1]
  mergeOwned [] ((kept ++ [(seg, some op)]).insertionSort fun x y => x.1.start ≤ y.1.start)

/-- More than one time step. -/
def isRanged (start : Int) : Option Int → Prop
  | none => True
  | some stop => start < stop

instance : ∀ (start : Int) (stop : Option Int), Decidable (isRanged start stop)
  | _, none => isTrue trivial
  | start, some stop => inferInstanceAs (Decidable (start < stop))

def stopJson : Option Int → Json
  | none => .null
  | some stop => .int stop

/-- The record of an insert over a segment that another actor wrote in this epoch. -/
def overlapConflict (family : SegmentFamily) (field : String) (seg : Segment) (op : Operation)
    (x : Owned × Bool) : Option ConflictRecord :=
  match x.1.2 with
  | none => none
  | some owner =>
    if x.2 = true ∧ owner.actorId ≠ op.actorId then
      some {
        kind :=
          if isRanged seg.start seg.stop ∨ isRanged x.1.1.start x.1.1.stop then .rangeSegmented
          else .lastWriteWins
        sourceFamily := .segment family
        entityId := some field
        winnerOperationId := op.operationId
        loserOperationIds := [owner.operationId]
        detail := .obj [
          ("field", .str field),
          ("inserted", .arr [.int seg.start, stopJson seg.stop]),
          ("overlapped", .arr [.int x.1.1.start, stopJson x.1.1.stop])] }
    else none

/-! ## The segments alone -/

def placeSegments (stored : List (Segment × Bool)) (seg : Segment) : List Segment :=
  merge Json.pyEq [] ((stored.flatMap (fun x =>
    if x.2 then cutOut seg.start seg.stop x.1 else [x.1]) ++ [seg]).insertionSort
      fun x y => x.start ≤ y.start)

theorem mergeOwned_fst (merged rest : List Owned) :
    (mergeOwned merged rest).map Prod.fst =
      merge Json.pyEq (merged.map Prod.fst) (rest.map Prod.fst) := by
  induction rest generalizing merged with
  | nil => simp [mergeOwned, merge]
  | cons x xs ih =>
    cases merged with
    | nil => exact ih [x]
    | cons m ms =>
      simp only [mergeOwned, List.map_cons, merge]
      split
      · exact ih _
      · exact ih _

theorem placeOwned_fst (stored : List Owned) (hits : List Bool) (seg : Segment) (op : Operation) :
    (placeOwned (stored.zip hits) seg op).map Prod.fst =
      placeSegments ((stored.map Prod.fst).zip hits) seg := by
  unfold placeOwned placeSegments
  rw [mergeOwned_fst, List.map_insertionSort (fun x y : Owned => x.1.start ≤ y.1.start)
    (fun x y : Segment => x.start ≤ y.start) _ _ (by simp)]
  congr 2
  rw [List.map_append, List.map_flatMap, List.zip_map_left, List.flatMap_map]
  congr 2
  funext x
  obtain ⟨⟨s, owner⟩, _ | _⟩ := x <;> simp [Function.comp_def]

/-! ## Time steps that floats represent -/

theorem log2_small {m : Nat} (h : m < 2 ^ 53) : m.log2 < 53 := by
  rcases Nat.eq_zero_or_pos m with rfl | h0
  · decide
  · exact (Nat.log2_lt (by omega)).mpr h

theorem roundDigits_exact {m : Nat} (h : m < 2 ^ 53) : roundDigits m = m := by
  have hlog : m.log2 - 52 = 0 := by
    have := log2_small h
    omega
  simp [roundDigits, hlog, Nat.mod_one]

theorem doubleOf_exact {n : Int} (h : n.natAbs < 2 ^ 53) : doubleOf n = some n := by
  have hlog : n.natAbs.log2 < 1024 := lt_trans (log2_small h) (by decide)
  unfold doubleOf
  rw [roundDigits_exact h, if_pos hlog, Int.sign_mul_natAbs]

theorem doubleOf_of_le {n : Int} (h : n.natAbs ≤ 2 ^ 53) : doubleOf n = some n := by
  rcases Nat.lt_or_eq_of_le h with hlt | heq
  · exact doubleOf_exact hlt
  · unfold doubleOf
    rw [heq, show roundDigits (2 ^ 53) = 2 ^ 53 by decide, if_pos (by decide), ← heq,
      Int.sign_mul_natAbs]

/-- A stop that is a float. -/
def Sharp (stop : Option Int) : Prop := ∀ b, stop = some b → doubleOf b = some b

theorem segStop_sharp {stop : Option Int} (h : Sharp stop) : segStop stop = .ok stop := by
  cases stop with
  | none => rfl
  | some b => rw [segStop, h b rfl]

theorem overlapsFloat_sharp {startA startB : Int} {stopA stopB : Option Int} (ha : Sharp stopA)
    (hb : Sharp stopB) :
    overlapsFloat startA stopA startB stopB = .ok (decide (overlaps startA stopA startB stopB)) := by
  simp only [overlapsFloat, segStop_sharp ha, segStop_sharp hb, overlaps, Except.map]
  split <;> simp [*]

theorem overlapFlags_sharp {seg : Segment} {stored : List Segment} (hseg : Sharp seg.stop)
    (hs : ∀ s ∈ stored, Sharp s.stop) :
    overlapFlags seg stored =
      .ok (stored.map fun s => decide (overlaps seg.start seg.stop s.start s.stop)) := by
  induction stored with
  | nil => rfl
  | cons s rest ih =>
    rw [List.forall_mem_cons] at hs
    simp only [overlapFlags, overlapsFloat_sharp hseg hs.1, ih hs.2, Except.map, List.map_cons]

/-- A stop that a float represents. -/
def Tame (stop : Option Int) : Prop := ∀ b, stop = some b → b.natAbs < 2 ^ 53

theorem Tame.sharp {stop : Option Int} (h : Tame stop) : Sharp stop :=
  fun b hb => doubleOf_exact (h b hb)

theorem overlapFlags_tame {seg : Segment} {stored : List Segment} (hseg : Tame seg.stop)
    (hs : ∀ s ∈ stored, Tame s.stop) :
    overlapFlags seg stored =
      .ok (stored.map fun s => decide (overlaps seg.start seg.stop s.start s.stop)) :=
  overlapFlags_sharp hseg.sharp fun s hmem => (hs s hmem).sharp

theorem placeSegments_flags (stored : List Segment) (seg : Segment) :
    placeSegments (stored.zip
      (stored.map fun s => decide (overlaps seg.start seg.stop s.start s.stop))) seg =
      paste Json.pyEq stored seg := by
  unfold placeSegments paste
  congr 3
  induction stored with
  | nil => rfl
  | cons s rest ih =>
    simp only [List.map_cons, List.zip_cons_cons, List.flatMap_cons, ih, decide_eq_true_eq]
    rfl

end Solweig.Realtime
