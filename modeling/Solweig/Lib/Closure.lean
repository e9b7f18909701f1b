import Mathlib.Data.Finset.Card
import Mathlib.Data.List.Nodup
import Mathlib.Logic.Relation

/-!
# Closures

What a search with a stack finds from some seeds, in a finite universe: everything that is
reachable from them.
-/

namespace Solweig.Lib

variable {α : Type} [DecidableEq α]

/-- A search: what it has seen, and what it has yet to expand. -/
structure Search (α : Type) where
  seen : List α
  stack : List α

def Search.visit (s : Search α) (x : α) : Search α :=
  if x ∈ s.seen then s else { seen := x :: s.seen, stack := x :: s.stack }

def Search.visitAll (s : Search α) (xs : List α) : Search α := xs.foldl Search.visit s

/-- The search to its end, or for `fuel` expansions. -/
def Search.run (succ : α → List α) : Nat → Search α → List α
  | 0, s => s.seen
  | fuel + 1, s =>
    match s.stack with
    | [] => s.seen
    | x :: rest => Search.run succ fuel (Search.visitAll { s with stack := rest } (succ x))

/-- Everything that the search finds from the seeds. `bound` is the size of the universe. -/
def closure (succ : α → List α) (bound : Nat) (seeds : List α) : List α :=
  Search.run succ (2 * bound) (Search.visitAll { seen := [], stack := [] } seeds)

namespace Search

variable {s : Search α} {xs : List α} {a : α}

theorem mem_seen_visit {x : α} : a ∈ (s.visit x).seen ↔ a ∈ s.seen ∨ a = x := by
  unfold visit
  split
  · constructor
    · exact Or.inl
    · rintro (h | rfl)
      · exact h
      · assumption
  · rw [List.mem_cons, or_comm]

theorem mem_seen_visitAll : a ∈ (s.visitAll xs).seen ↔ a ∈ s.seen ∨ a ∈ xs := by
  induction xs generalizing s with
  | nil => simp [visitAll]
  | cons x xs ih =>
    show a ∈ ((s.visit x).visitAll xs).seen ↔ _
    rw [ih, mem_seen_visit, List.mem_cons, or_assoc]

/-- What a search must keep: `U` is the universe. -/
structure Sound (U : List α) (s : Search α) : Prop where
  nodup : s.seen.Nodup
  inside : s.seen ⊆ U
  pending : s.stack ⊆ s.seen

/-- How much the search still has to do. -/
def work (U : List α) (s : Search α) : Nat := s.stack.length + 2 * (U.length - s.seen.length)

theorem pending_visitAll (h : s.stack ⊆ s.seen) : (s.visitAll xs).stack ⊆ (s.visitAll xs).seen := by
  induction xs generalizing s with
  | nil => exact h
  | cons x xs ih =>
    apply ih (s := s.visit x)
    unfold visit
    split
    · exact h
    · exact List.cons_subset_cons x h

variable {U : List α}

theorem Sound.visit {x : α} (h : Sound U s) (hx : x ∈ U) : Sound U (s.visit x) := by
  unfold Search.visit
  split
  · exact h
  · rename_i hnew
    refine ⟨List.nodup_cons.mpr ⟨hnew, h.nodup⟩, List.cons_subset.mpr ⟨hx, h.inside⟩, ?_⟩
    exact List.cons_subset_cons x h.pending

theorem Sound.visitAll (h : Sound U s) (hxs : xs ⊆ U) : Sound U (s.visitAll xs) := by
  induction xs generalizing s with
  | nil => exact h
  | cons x xs ih =>
    obtain ⟨hx, hrest⟩ := List.cons_subset.mp hxs
    exact ih (h.visit hx) hrest

theorem stack_visitAll_subset : s.stack ⊆ (s.visitAll xs).stack := by
  induction xs generalizing s with
  | nil => exact List.Subset.refl _
  | cons x xs ih =>
    refine List.Subset.trans ?_ (ih (s := s.visit x))
    unfold visit
    split
    · exact List.Subset.refl _
    · exact List.subset_cons_self x s.stack

theorem mem_stack_of_new (h : a ∈ (s.visitAll xs).seen) :
    a ∈ s.seen ∨ a ∈ (s.visitAll xs).stack := by
  induction xs generalizing s with
  | nil => exact Or.inl h
  | cons x xs ih =>
    rcases ih h with hold | hnew
    · rcases mem_seen_visit.mp hold with hseen | rfl
      · exact Or.inl hseen
      · by_cases hseen : a ∈ s.seen
        · exact Or.inl hseen
        · refine Or.inr (stack_visitAll_subset (s := s.visit a) ?_)
          rw [visit, if_neg hseen]
          exact List.mem_cons_self
    · exact Or.inr hnew

theorem work_visitAll (h : Sound U s) (hxs : xs ⊆ U) : work U (s.visitAll xs) ≤ work U s := by
  induction xs generalizing s with
  | nil => exact le_refl _
  | cons x xs ih =>
    obtain ⟨hx, hrest⟩ := List.cons_subset.mp hxs
    refine (ih (h.visit hx) hrest).trans ?_
    have hbound := (h.visit hx).nodup.subperm (h.visit hx).inside |>.length_le
    unfold visit at hbound ⊢
    split
    · exact le_refl _
    · rename_i hnew
      rw [if_neg hnew] at hbound
      simp only [work, List.length_cons] at hbound ⊢
      omega

variable {succ : α → List α}

theorem run_closed (hU : ∀ x ∈ U, succ x ⊆ U) (fuel : Nat) (h : Sound U s)
    (hdone : ∀ x ∈ s.seen, x ∈ s.stack ∨ succ x ⊆ s.seen) (hfuel : work U s ≤ fuel) :
    s.seen ⊆ run succ fuel s ∧ ∀ x ∈ run succ fuel s, succ x ⊆ run succ fuel s := by
  induction fuel generalizing s with
  | zero =>
    have hempty : s.stack = [] := List.length_eq_zero_iff.mp (by unfold work at hfuel; omega)
    refine ⟨List.Subset.refl _, fun x hx => (hdone x hx).resolve_left ?_⟩
    simp [hempty]
  | succ fuel ih =>
    unfold run
    split
    · rename_i hempty
      refine ⟨List.Subset.refl _, fun x hx => (hdone x hx).resolve_left ?_⟩
      simp [hempty]
    · rename_i x rest hstack
      have hx : x ∈ U := h.inside (h.pending (hstack ▸ List.mem_cons_self))
      have hrest : Sound U { s with stack := rest } :=
        ⟨h.nodup, h.inside, fun y hy => h.pending (hstack ▸ List.mem_cons_of_mem x hy)⟩
      have hwork := work_visitAll hrest (hU x hx)
      have hless : work U { s with stack := rest } + 1 = work U s := by
        simp only [work, hstack, List.length_cons]
        omega
      have hnext : ∀ y ∈ (visitAll { s with stack := rest } (succ x)).seen,
          y ∈ (visitAll { s with stack := rest } (succ x)).stack ∨
            succ y ⊆ (visitAll { s with stack := rest } (succ x)).seen := by
        intro y hy
        rcases mem_stack_of_new hy with hold | hnew
        · rcases hdone y hold with hpending | hexpanded
          · rw [hstack] at hpending
            rcases List.mem_cons.mp hpending with rfl | hlater
            · exact Or.inr fun z hz => mem_seen_visitAll.mpr (Or.inr hz)
            · exact Or.inl (stack_visitAll_subset hlater)
          · exact Or.inr fun z hz => mem_seen_visitAll.mpr (Or.inl (hexpanded hz))
        · exact Or.inl hnew
      obtain ⟨hseen, hclosed⟩ := ih (hrest.visitAll (hU x hx)) hnext (by omega)
      exact ⟨fun y hy => hseen (mem_seen_visitAll.mpr (Or.inl hy)), hclosed⟩

theorem run_sound {P : α → Prop} (hP : ∀ x, P x → ∀ y ∈ succ x, P y) (fuel : Nat)
    (hpending : s.stack ⊆ s.seen) (hs : ∀ x ∈ s.seen, P x) : ∀ x ∈ run succ fuel s, P x := by
  induction fuel generalizing s with
  | zero => exact hs
  | succ fuel ih =>
    unfold run
    split
    · exact hs
    · rename_i x rest hstack
      have hx : P x := hs x (hpending (hstack ▸ List.mem_cons_self))
      have hnext : ∀ y ∈ (visitAll { s with stack := rest } (succ x)).seen, P y := by
        intro y hy
        rcases mem_seen_visitAll.mp hy with hold | hnew
        · exact hs y hold
        · exact hP x hx y hnew
      exact ih (pending_visitAll fun y hy => hpending (hstack ▸ List.mem_cons_of_mem x hy)) hnext

theorem nodup_visitAll (h : s.seen.Nodup) : (s.visitAll xs).seen.Nodup := by
  induction xs generalizing s with
  | nil => exact h
  | cons x xs ih =>
    apply ih (s := s.visit x)
    unfold visit
    split
    · exact h
    · rename_i hnew
      exact List.nodup_cons.mpr ⟨hnew, h⟩

theorem nodup_run (fuel : Nat) (h : s.seen.Nodup) : (run succ fuel s).Nodup := by
  induction fuel generalizing s with
  | zero => exact h
  | succ fuel ih =>
    unfold run
    split
    · exact h
    · exact ih (nodup_visitAll h)

end Search

theorem nodup_closure (succ : α → List α) (bound : Nat) (seeds : List α) :
    (closure succ bound seeds).Nodup :=
  Search.nodup_run _ (Search.nodup_visitAll List.nodup_nil)

theorem mem_closure {succ : α → List α} {U seeds : List α} (hseeds : seeds ⊆ U)
    (hU : ∀ x ∈ U, succ x ⊆ U) {a : α} :
    a ∈ closure succ U.length seeds ↔
      ∃ s ∈ seeds, Relation.ReflTransGen (fun x y => y ∈ succ x) s a := by
  unfold closure
  constructor
  · apply Search.run_sound (P := fun y => ∃ s ∈ seeds,
      Relation.ReflTransGen (fun x y => y ∈ succ x) s y)
    · rintro x ⟨s, hs, hreach⟩ y hy
      exact ⟨s, hs, hreach.tail hy⟩
    · exact Search.pending_visitAll (List.Subset.refl _)
    · intro x hx
      rcases Search.mem_seen_visitAll.mp hx with hnil | hx
      · cases hnil
      · exact ⟨x, hx, .refl⟩
  · rintro ⟨s, hs, hreach⟩
    have hempty : Search.Sound U { seen := [], stack := [] } :=
      ⟨List.nodup_nil, List.nil_subset U, List.nil_subset _⟩
    have hstart : ∀ x ∈ (Search.visitAll { seen := [], stack := [] } seeds).seen,
        x ∈ (Search.visitAll { seen := [], stack := [] } seeds).stack ∨
          succ x ⊆ (Search.visitAll { seen := [], stack := [] } seeds).seen := fun x hx =>
      (Search.mem_stack_of_new hx).elim (fun h => by cases h) Or.inl
    obtain ⟨hseen, hclosed⟩ := Search.run_closed hU (2 * U.length) (hempty.visitAll hseeds) hstart
      ((Search.work_visitAll hempty hseeds).trans (by simp [Search.work]))
    induction hreach with
    | refl => exact hseen (Search.mem_seen_visitAll.mpr (Or.inr hs))
    | tail _ hstep ih => exact hclosed _ ih hstep

end Solweig.Lib
