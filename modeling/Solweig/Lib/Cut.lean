import Mathlib.Data.List.Basic
import Mathlib.Order.Monotone.Basic

/-!
# Sequences cut at their first stop

The lists that a loop makes of an unbounded sequence, when it goes on until an item stops it
and keeps that item.
-/

namespace Solweig.Lib

variable {α : Type}

/-- The items of a sequence up to the first one that stops it, with that one. -/
def IsCut (stop : α → Prop) (sequence : Nat → α) (items : List α) : Prop :=
  ∃ last, items = (List.range (last + 1)).map sequence ∧ stop (sequence last) ∧
    ∀ k < last, ¬ stop (sequence k)

variable {stop stop' : α → Prop} {sequence : Nat → α} {items items' : List α}

theorem IsCut.append (h : IsCut stop sequence items) (h' : IsCut stop' sequence items')
    (himp : ∀ a, stop a → stop' a) : items = items' ++ items.drop items'.length := by
  obtain ⟨last, rfl, hstop, -⟩ := h
  obtain ⟨last', rfl, -, hgo⟩ := h'
  have hle : last' ≤ last := by
    by_contra hlt
    exact hgo last (by omega) (himp _ hstop)
  obtain ⟨extra, rfl⟩ := Nat.exists_eq_add_of_le hle
  rw [show last' + extra + 1 = last' + 1 + extra by omega, List.range_add, List.map_append]
  simp

theorem IsCut.unique (h : IsCut stop sequence items) (h' : IsCut stop sequence items') :
    items = items' := by
  have hlonger := h.append h' fun _ => id
  have hshorter := congrArg List.length (h'.append h fun _ => id)
  rw [List.length_append] at hshorter
  rw [List.drop_eq_nil_of_le (by omega), List.append_nil] at hlonger
  exact hlonger

/-- An item past the end of the shorter list comes after the last of that one, which stops it and
not the longer. -/
theorem IsCut.mem_drop (h : IsCut stop sequence items) (h' : IsCut stop' sequence items')
    {item : α} (hitem : item ∈ items.drop items'.length) :
    ∃ last k, items' = (List.range (last + 1)).map sequence ∧ last < k ∧ item = sequence k ∧
      stop' (sequence last) ∧ ¬ stop (sequence last) := by
  obtain ⟨last, rfl, -, hgo⟩ := h
  obtain ⟨last', rfl, hstop', -⟩ := h'
  obtain ⟨k, hk, rfl⟩ := List.mem_iff_getElem.mp hitem
  simp only [List.length_drop, List.length_map, List.length_range] at hk
  refine ⟨last', last' + 1 + k, rfl, by omega, by simp, hstop', hgo last' (by omega)⟩

theorem IsCut.before (h : IsCut stop sequence items) {last : Nat}
    (hlast : items = (List.range (last + 1)).map sequence) {k : Nat} (hk : k < last) :
    ¬ stop (sequence k) := by
  obtain ⟨last', rfl, -, hgo⟩ := h
  have hlength := congrArg List.length hlast
  simp only [List.length_map, List.length_range] at hlength
  exact hgo k (by omega)

theorem IsCut.eq_singleton_iff (h : IsCut stop sequence items) {a : α} :
    items = [a] ↔ sequence 0 = a ∧ stop (sequence 0) := by
  obtain ⟨last, rfl, hstop, hgo⟩ := h
  constructor
  · intro heq
    have hlength := congrArg List.length heq
    simp only [List.length_map, List.length_range, List.length_singleton] at hlength
    obtain rfl : last = 0 := by omega
    exact ⟨by simpa using heq, hstop⟩
  · rintro ⟨rfl, hzero⟩
    have hlast : last = 0 := by
      by_contra hne
      exact hgo 0 (Nat.pos_of_ne_zero hne) hzero
    subst hlast
    rfl

end Solweig.Lib
