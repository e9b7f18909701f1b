import Mathlib.Data.List.MinMax
import Mathlib.Data.List.Sort
import Mathlib.Data.List.Induction

/-!
# Tables

A table is the list of its rows, oldest first. What an update of some rows does to the rows of
one group, and what the newest row is when the keys of a group ascend.
-/

namespace Solweig.Lib

variable {ρ κ : Type}

/-- `UPDATE … SET f WHERE p` -/
def updateWhere (p : ρ → Bool) (f : ρ → ρ) (rows : List ρ) : List ρ :=
  rows.map fun r => if p r then f r else r

section Update

variable {p q : ρ → Bool} {f : ρ → ρ} {rows : List ρ}

theorem mem_updateWhere {r : ρ} :
    r ∈ updateWhere p f rows ↔ ∃ s ∈ rows, (if p s then f s else s) = r :=
  List.mem_map

theorem updateWhere_length : (updateWhere p f rows).length = rows.length :=
  List.length_map _

theorem filter_updateWhere (h : ∀ r, p r = true → q (f r) = q r) :
    (updateWhere p f rows).filter q = updateWhere p f (rows.filter q) := by
  induction rows with
  | nil => rfl
  | cons r rows ih =>
    have hq : q (if p r then f r else r) = q r := by
      split
      · exact h r ‹_›
      · rfl
    simp only [updateWhere, List.map_cons, List.filter_cons, hq] at ih ⊢
    split
    · rw [List.map_cons, ← ih]
    · exact ih

theorem updateWhere_twice {g : ρ → ρ} (h : ∀ r, p r = true → p (f r) = true) :
    updateWhere p g (updateWhere p f rows) = updateWhere p (fun r => g (f r)) rows := by
  simp only [updateWhere, List.map_map]
  refine List.map_congr_left fun r _ => ?_
  by_cases hr : p r = true
  · simp [hr, h r hr]
  · simp [hr]

theorem updateWhere_of_none (h : ∀ r ∈ rows, p r = false) : updateWhere p f rows = rows := by
  unfold updateWhere
  conv_rhs => rw [← List.map_id rows]
  exact List.map_congr_left fun r hr => by simp [h r hr]

theorem map_updateWhere {key : ρ → κ} (h : ∀ r, p r = true → key (f r) = key r) :
    (updateWhere p f rows).map key = rows.map key := by
  rw [updateWhere, List.map_map]
  refine List.map_congr_left fun r _ => ?_
  simp only [Function.comp_apply]
  split
  · exact h r ‹_›
  · rfl

theorem updateWhere_last {before : List ρ} {last : ρ} (hp : p last = true)
    (h : ∀ r ∈ before, p r = false) : updateWhere p f (before ++ [last]) = before ++ [f last] := by
  rw [updateWhere, List.map_append]
  congr 1
  · exact updateWhere_of_none h
  · simp [hp]

end Update

/-! ## The newest row -/

theorem getLast?_cons_getD {α β : Type} (f : α → β) (a : α) (l : List α) (b : β) :
    ((a :: l).getLast?.map f).getD b = (l.getLast?.map f).getD (f a) := by
  rw [List.getLast?_cons]
  cases l.getLast? <;> rfl

theorem argmax_of_ascending {key : ρ → Nat} {rows : List ρ}
    (h : rows.Pairwise fun a b => key a < key b) : rows.argmax key = rows.getLast? := by
  induction rows using List.reverseRecOn with
  | nil => rfl
  | append_singleton rows last ih =>
    rw [List.pairwise_append] at h
    rw [List.argmax_concat, ih h.1, List.getLast?_append, List.getLast?_singleton, Option.some_or]
    cases hl : rows.getLast? with
    | none => rfl
    | some r => simp [h.2.2 r (List.mem_of_getLast? hl) last (by simp)]

theorem sorted_of_ascending {key : ρ → Nat} {rows : List ρ}
    (h : rows.Pairwise fun a b => key a < key b) :
    rows.insertionSort (fun a b => key a ≤ key b) = rows :=
  List.Pairwise.insertionSort_eq (h.imp Nat.le_of_lt)

end Solweig.Lib
