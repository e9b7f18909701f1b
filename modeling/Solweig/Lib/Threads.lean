import Mathlib.Logic.Function.Basic
import Solweig.Lib.Run

/-!
# Threads over a shared state

Any number of threads, each with a state of its own. A step is one atomic action of one thread
on the shared state. The rule at the end is the one of Owicki and Gries: an assertion of each
thread about the shared state and itself holds throughout, when the thread keeps it and no step
of another thread breaks it.
-/

namespace Solweig.Lib

/-- `σ` is shared, and thread `i` is in state `threads i`. -/
structure Threads (σ τ : Type) where
  shared : σ
  threads : Nat → τ

namespace Threads

variable {σ τ κ : Type}

/-- Thread `a.1` takes the atomic action `a.2`. -/
def step (act : σ → τ → κ → Option (σ × τ)) (s : Threads σ τ) (a : Nat × κ) :
    Option (Threads σ τ) :=
  (act s.shared (s.threads a.1) a.2).map fun r => ⟨r.1, Function.update s.threads a.1 r.2⟩

variable {act : σ → τ → κ → Option (σ × τ)}

theorem step_eq {s t : Threads σ τ} {a : Nat × κ} (h : step act s a = some t) :
    act s.shared (s.threads a.1) a.2 = some (t.shared, t.threads a.1) ∧
      ∀ j, j ≠ a.1 → t.threads j = s.threads j := by
  simp only [step, Option.map_eq_some_iff] at h
  obtain ⟨r, hr, rfl⟩ := h
  refine ⟨by simp [hr], ?_⟩
  intro j hj
  simp [hj]

/-- The shared assertion and the assertion of every thread. -/
def Holds (I : σ → Prop) (L : Nat → σ → τ → Prop) (s : Threads σ τ) : Prop :=
  I s.shared ∧ ∀ i, L i s.shared (s.threads i)

theorem holds_step {I : σ → Prop} {L : Nat → σ → τ → Prop} {C : σ → τ → κ → Prop}
    (hown : ∀ i s l k s' l', I s → L i s l → C s l k → act s l k = some (s', l') →
      I s' ∧ L i s' l')
    (hother : ∀ i j s l k s' l' m, i ≠ j → I s → L i s l → C s l k → act s l k = some (s', l') →
      L j s m → L j s' m)
    {s t : Threads σ τ} {a : Nat × κ} (hs : Holds I L s)
    (hC : C s.shared (s.threads a.1) a.2) (h : step act s a = some t) : Holds I L t := by
  obtain ⟨hact, hframe⟩ := step_eq h
  obtain ⟨hI, hL⟩ := hs
  refine ⟨(hown a.1 _ _ _ _ _ hI (hL a.1) hC hact).1, fun j => ?_⟩
  by_cases hj : j = a.1
  · subst hj
    exact (hown a.1 _ _ _ _ _ hI (hL a.1) hC hact).2
  · rw [hframe j hj]
    exact hother a.1 j _ _ _ _ _ _ (Ne.symm hj) hI (hL a.1) hC hact (hL j)

end Threads

end Solweig.Lib
