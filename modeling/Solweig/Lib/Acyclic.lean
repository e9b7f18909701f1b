import Mathlib.Data.Fintype.Card
import Mathlib.Data.List.Sort
import Mathlib.Data.Set.Finite.List
import Mathlib.Logic.Relation

/-!
# Acyclic relations

On a finite list, a relation without a cycle is one that some order of the list follows.
-/

namespace Solweig.Lib

variable {α : Type}

def Cyclic (r : α → α → Prop) : Prop := ∃ a, Relation.TransGen r a a

section Cycles

variable {r : α → α → Prop}

theorem cyclic_of_predecessors {l : List α} (hne : l ≠ []) (h : ∀ a ∈ l, ∃ b ∈ l, r b a) :
    Cyclic r := by
  by_contra hacyclic
  unfold Cyclic at hacyclic
  push Not at hacyclic
  let before : {a // a ∈ l} → {a // a ∈ l} → Prop := fun b a => Relation.TransGen r b.1 a.1
  have htrans : IsTrans _ before := ⟨fun _ _ _ => Relation.TransGen.trans⟩
  have hirrefl : Std.Irrefl before := ⟨fun a => hacyclic a.1⟩
  have hfinite : Finite {a // a ∈ l} := (List.finite_toSet l).to_subtype
  have hwf := Finite.wellFounded_of_trans_of_irrefl before
  obtain ⟨a, ha⟩ := List.exists_mem_of_ne_nil l hne
  -- No item is there: it would have an earlier one before it.
  refine hwf.fix (C := fun _ => False) (fun item ih => ?_) ⟨a, ha⟩
  obtain ⟨b, hb, hrel⟩ := h item.1 item.2
  exact ih ⟨b, hb⟩ (Relation.TransGen.single hrel)

theorem not_cyclic_of_rank (rank : α → Nat) (h : ∀ a b, r a b → rank a < rank b) :
    ¬ Cyclic r := by
  rintro ⟨a, hcycle⟩
  have hup : ∀ b, Relation.TransGen r a b → rank a < rank b := by
    intro b hreach
    induction hreach with
    | single hstep => exact h _ _ hstep
    | tail _ hstep ih => exact ih.trans (h _ _ hstep)
  exact Nat.lt_irrefl _ (hup a hcycle)

end Cycles

theorem insertionSort_perm [LinearOrder α] {l l' : List α} (h : l.Perm l') :
    l.insertionSort (· ≤ ·) = l'.insertionSort (· ≤ ·) :=
  (((List.perm_insertionSort _ l).trans h).trans (List.perm_insertionSort _ l').symm).eq_of_pairwise
    (fun _ _ _ _ => le_antisymm) (List.pairwise_insertionSort _ l) (List.pairwise_insertionSort _ l')

end Solweig.Lib
