import Solweig.Lib.Txn

/-!
# Two runs that end alike

Two transactions, each from its own state, in one error or in one value. What the states have in
common is carried along as a relation.
-/

namespace Solweig.Lib.Txn

variable {σ ε α β : Type}

/-- The two transactions end alike: in one error or in one value, in related states. -/
def Alike (E : σ → σ → Prop) (R : α → σ → σ → Prop) (m n : Txn σ ε α) (s t : σ) : Prop :=
  (∃ e s' t', m s = (.error e, s') ∧ n t = (.error e, t') ∧ E s' t') ∨
    ∃ a s' t', m s = (.ok a, s') ∧ n t = (.ok a, t') ∧ R a s' t'

variable {E : σ → σ → Prop} {R : α → σ → σ → Prop} {Q : β → σ → σ → Prop} {m n : Txn σ ε α}
  {f g : α → Txn σ ε β} {s t : σ}

theorem alike_refl (m : Txn σ ε α) (s : σ) (hE : ∀ s, E s s) (hR : ∀ a s, R a s s) :
    Alike E R m m s s := by
  rcases h : m s with ⟨e | a, t⟩
  · exact Or.inl ⟨e, t, t, h, h, hE t⟩
  · exact Or.inr ⟨a, t, t, h, h, hR a t⟩

theorem alike_pure {a : α} (h : R a s t) : Alike E R (pure a : Txn σ ε α) (pure a) s t :=
  Or.inr ⟨a, s, t, rfl, rfl, h⟩

theorem Alike.bind (hm : Alike E R m n s t)
    (hf : ∀ a s' t', R a s' t' → Alike E Q (f a) (g a) s' t') :
    Alike E Q (m >>= f) (n >>= g) s t := by
  rcases hm with ⟨e, s', t', hs, ht, hrelated⟩ | ⟨a, s', t', hs, ht, hrelated⟩
  · exact Or.inl ⟨e, s', t', bind_of_error hs, bind_of_error ht, hrelated⟩
  · unfold Alike
    rw [bind_of_ok hs, bind_of_ok ht]
    exact hf a s' t' hrelated

theorem alike_get {f g : σ → Txn σ ε β} (h : Alike E Q (f s) (g t) s t) :
    Alike E Q (get >>= f) (get >>= g) s t := h

theorem alike_modify {k : σ → σ} {f g : Unit → Txn σ ε β} (h : Alike E Q (f ()) (g ()) (k s) (k t)) :
    Alike E Q (modify k >>= f) (modify k >>= g) s t := h

theorem alike_ofExcept {r : Except ε α} (hE : E s t)
    (h : ∀ a, r = .ok a → Alike E Q (f a) (g a) s t) :
    Alike E Q (ofExcept r >>= f) (ofExcept r >>= g) s t := by
  cases r with
  | error e => exact Or.inl ⟨e, s, t, rfl, rfl, hE⟩
  | ok a => exact h a rfl

theorem alike_refuseIf {p : Prop} [Decidable p] {e : ε} {f g : Unit → Txn σ ε β} (hE : E s t)
    (h : Alike E Q (f ()) (g ()) s t) :
    Alike E Q (refuseIf p e >>= f) (refuseIf p e >>= g) s t := by
  unfold refuseIf
  split
  · exact Or.inl ⟨e, s, t, rfl, rfl, hE⟩
  · exact h

theorem alike_ite {p : Prop} [Decidable p] {m' n' : Txn σ ε α} (hthen : Alike E R m n s t)
    (helse : Alike E R m' n' s t) :
    Alike E R (if p then m else m') (if p then n else n') s t := by
  split
  · exact hthen
  · exact helse

end Solweig.Lib.Txn
