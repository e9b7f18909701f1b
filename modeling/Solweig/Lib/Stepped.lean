import Mathlib.Data.Int.Range
import Solweig.Lib.Dict

/-!
# A machine that reads one input at each time

Its state after some times, and the outputs that are kept of some of them. A run that stops and
goes on later ends in the state of one run, with its outputs.
-/

namespace Solweig.Lib.Stepped

/-! ## Ranges of times -/

theorem range_append {a b c : Int} (hab : a ≤ b) (hbc : b ≤ c) :
    Int.range a b ++ Int.range b c = Int.range a c := by
  unfold Int.range
  have hlength : (c - a).toNat = (b - a).toNat + (c - b).toNat := by omega
  rw [hlength, List.range_add, List.map_append, List.map_map]
  congr 1
  apply List.map_congr_left
  intro n _
  simp only [Function.comp_apply]
  omega

theorem range_succ {a b : Int} (h : a ≤ b) : Int.range a (b + 1) = Int.range a b ++ [b] := by
  rw [← range_append h (by omega)]
  congr 1
  unfold Int.range
  simp

theorem range_self (a : Int) : Int.range a a = [] := by
  unfold Int.range
  simp

variable {σ ι ο : Type} (f : ι → σ → ο × σ)

/-! ## The state -/

/-- The state after the steps of some times. -/
def after (input : Int → ι) (s : σ) (times : List Int) : σ :=
  times.foldl (fun s t => (f (input t) s).2) s

variable {f} {input input' : Int → ι} {s : σ}

theorem after_append (times later : List Int) :
    after f input s (times ++ later) = after f input (after f input s times) later :=
  List.foldl_append ..

theorem after_range {a b c : Int} (hab : a ≤ b) (hbc : b ≤ c) :
    after f input (after f input s (Int.range a b)) (Int.range b c) =
      after f input s (Int.range a c) := by
  rw [← after_append, range_append hab hbc]

theorem after_congr {times : List Int} (h : ∀ t ∈ times, input t = input' t) :
    after f input s times = after f input' s times := by
  induction times generalizing s with
  | nil => rfl
  | cons t times ih =>
    unfold after
    rw [List.foldl_cons, List.foldl_cons, h t (List.mem_cons_self ..)]
    exact ih fun u hu => h u (List.mem_cons_of_mem _ hu)

/-! ## The outputs -/

/-- One step, whose output may be kept. -/
def record (f : ι → σ → ο × σ) (input : Int → ι) (collect : List Int) (acc : Dict Int ο × σ)
    (t : Int) : Dict Int ο × σ :=
  let result := f (input t) acc.2
  (if t ∈ collect then acc.1.insert t result.1 else acc.1, result.2)

theorem foldl_record_state (collect times : List Int) (acc : Dict Int ο × σ) :
    (times.foldl (record f input collect) acc).2 = after f input acc.2 times := by
  induction times generalizing acc with
  | nil => rfl
  | cons t times ih => exact ih _

theorem getElem?_record_self {collect : List Int} {t : Int} (acc : Dict Int ο × σ)
    (h : acc.1[t]? = none) : (record f input collect acc t).1[t]? =
      if t ∈ collect then some (f (input t) acc.2).1 else none := by
  unfold record
  dsimp only
  split
  · exact Std.ExtTreeMap.getElem?_insert_self
  · exact h

theorem getElem?_record_of_ne {t u : Int} (collect : List Int) (acc : Dict Int ο × σ)
    (h : t ≠ u) : (record f input collect acc t).1[u]? = acc.1[u]? := by
  unfold record
  dsimp only
  split
  · exact Dict.getElem?_insert_of_ne _ _ h
  · rfl

theorem getElem?_foldl_record {collect : List Int} {a b : Int} (hab : a ≤ b) (t : Int) :
    ((Int.range a b).foldl (record f input collect) (∅, s)).1[t]? =
      if a ≤ t ∧ t < b ∧ t ∈ collect then
        some (f (input t) (after f input s (Int.range a t))).1
      else none := by
  induction b, hab using Int.leInduction with
  | base =>
    rw [range_self, if_neg (by omega)]
    exact Std.ExtTreeMap.getElem?_empty
  | succ b hab ih =>
    rw [range_succ hab, List.foldl_append, List.foldl_cons, List.foldl_nil]
    by_cases ht : b = t
    · subst ht
      rw [if_neg (by omega)] at ih
      rw [getElem?_record_self _ ih, foldl_record_state]
      apply if_congr _ rfl rfl
      exact ⟨fun h => ⟨hab, by omega, h⟩, fun h => h.2.2⟩
    · rw [getElem?_record_of_ne _ _ ht, ih]
      apply if_congr _ rfl rfl
      have hlater : t < b + 1 ↔ t < b := by omega
      rw [hlater]

end Solweig.Lib.Stepped
