import Mathlib.Logic.Basic

/-!
# Transactions

A transaction reads and writes one shared state and ends in a value or an error. An error
keeps what was written before it; `atomically` is the boundary that takes those writes back.
-/

namespace Solweig.Lib

def Txn (σ ε α : Type) : Type := σ → Except ε α × σ

namespace Txn

variable {σ ε α β : Type}

def ret (a : α) : Txn σ ε α := fun s => (.ok a, s)

def andThen (m : Txn σ ε α) (f : α → Txn σ ε β) : Txn σ ε β := fun s =>
  match m s with
  | (.ok a, s') => f a s'
  | (.error e, s') => (.error e, s')

instance : Monad (Txn σ ε) where
  pure := ret
  bind := andThen

def throw (e : ε) : Txn σ ε α := fun s => (.error e, s)

def get : Txn σ ε σ := fun s => (.ok s, s)

def modify (f : σ → σ) : Txn σ ε Unit := fun s => (.ok (), f s)

/-- Stops with `e` unless the value is there. -/
def require (o : Option α) (e : ε) : Txn σ ε α :=
  match o with
  | some a => ret a
  | none => throw e

/-- Stops with `e` when `p` holds. -/
def refuseIf (p : Prop) [Decidable p] (e : ε) : Txn σ ε Unit :=
  if p then throw e else ret ()

def ofExcept : Except ε α → Txn σ ε α
  | .ok a => ret a
  | .error e => throw e

/-- Runs the body to its end, or leaves the state as it was. -/
def atomically (body : Txn σ ε α) : Txn σ ε α := fun s =>
  match body s with
  | (.ok a, s') => (.ok a, s')
  | (.error e, _) => (.error e, s)

/-! ## What a finished transaction tells -/

theorem bind_ok {m : Txn σ ε α} {f : α → Txn σ ε β} {s s' : σ} {b : β} :
    (m >>= f) s = (.ok b, s') ↔ ∃ a t, m s = (.ok a, t) ∧ f a t = (.ok b, s') := by
  show andThen m f s = _ ↔ _
  unfold andThen
  rcases m s with ⟨_ | a, t⟩
  · simp
  · constructor
    · intro h
      exact ⟨a, t, rfl, h⟩
    · rintro ⟨_, _, heq, h⟩
      simp only [Prod.mk.injEq, Except.ok.injEq] at heq
      obtain ⟨rfl, rfl⟩ := heq
      exact h

theorem bind_of_ok {m : Txn σ ε α} {f : α → Txn σ ε β} {s t : σ} {a : α} (h : m s = (.ok a, t)) :
    (m >>= f) s = f a t := by
  show andThen m f s = _
  rw [andThen, h]

theorem bind_of_error {m : Txn σ ε α} {f : α → Txn σ ε β} {s t : σ} {e : ε}
    (h : m s = (.error e, t)) : (m >>= f) s = (.error e, t) := by
  show andThen m f s = _
  rw [andThen, h]

theorem bind_error {m : Txn σ ε α} {f : α → Txn σ ε β} {s t : σ} {e : ε} :
    (m >>= f) s = (.error e, t) ↔
      m s = (.error e, t) ∨ ∃ a u, m s = (.ok a, u) ∧ f a u = (.error e, t) := by
  rcases h : m s with ⟨e' | a, u⟩
  · rw [bind_of_error h]
    simp
  · rw [bind_of_ok h]
    constructor
    · exact fun hf => Or.inr ⟨a, u, rfl, hf⟩
    · rintro (hm | ⟨_, _, hm, hf⟩)
      · cases hm
      · obtain ⟨rfl, rfl⟩ : a = _ ∧ u = _ := by simpa using hm
        exact hf

theorem bind_elim {Q : Except ε β × σ → Prop} {m : Txn σ ε α} {f : α → Txn σ ε β} {s : σ}
    (herror : ∀ e t, m s = (.error e, t) → Q (.error e, t))
    (hok : ∀ a t, m s = (.ok a, t) → Q (f a t)) : Q ((m >>= f) s) := by
  rcases h : m s with ⟨e | a, t⟩
  · rw [bind_of_error h]
    exact herror e t h
  · rw [bind_of_ok h]
    exact hok a t h

/-- Runs to its end from `s`. -/
def Succeeds (m : Txn σ ε α) (s : σ) : Prop := ∃ a t, m s = (.ok a, t)

theorem succeeds_bind {m : Txn σ ε α} {f : α → Txn σ ε β} {s t : σ} {a : α} (h : m s = (.ok a, t))
    (hf : Succeeds (f a) t) : Succeeds (m >>= f) s := by
  obtain ⟨b, u, hrun⟩ := hf
  exact ⟨b, u, (bind_of_ok h).trans hrun⟩

@[simp]
theorem pure_ok {a b : α} {s s' : σ} : (pure a : Txn σ ε α) s = (.ok b, s') ↔ a = b ∧ s = s' := by
  show ((Except.ok a : Except ε α), s) = _ ↔ _
  simp

@[simp]
theorem throw_ok {e : ε} {b : α} {s s' : σ} : ¬ (throw e : Txn σ ε α) s = (.ok b, s') := by
  simp [throw]

@[simp]
theorem get_ok {s s' t : σ} : (get : Txn σ ε σ) s = (.ok t, s') ↔ s = t ∧ s = s' := by
  simp [get]

@[simp]
theorem modify_ok {f : σ → σ} {s s' : σ} {u : Unit} :
    (modify f : Txn σ ε Unit) s = (.ok u, s') ↔ f s = s' := by
  simp [modify]

@[simp]
theorem require_ok {o : Option α} {e : ε} {a : α} {s s' : σ} :
    (require o e : Txn σ ε α) s = (.ok a, s') ↔ o = some a ∧ s = s' := by
  cases o <;> simp [require, ret, throw]

@[simp]
theorem refuseIf_ok {p : Prop} [Decidable p] {e : ε} {u : Unit} {s s' : σ} :
    (refuseIf p e : Txn σ ε Unit) s = (.ok u, s') ↔ ¬ p ∧ s = s' := by
  unfold refuseIf
  split <;> simp_all [throw, ret]

@[simp]
theorem ofExcept_ok {r : Except ε α} {a : α} {s s' : σ} :
    (ofExcept r : Txn σ ε α) s = (.ok a, s') ↔ r = .ok a ∧ s = s' := by
  cases r <;> simp [ofExcept, ret, throw]

theorem ofExcept_error {r : Except ε α} {e : ε} {s s' : σ} :
    (ofExcept r : Txn σ ε α) s = (.error e, s') ↔ r = .error e ∧ s = s' := by
  cases r <;> simp [ofExcept, ret, throw]

@[simp]
theorem atomically_ok {body : Txn σ ε α} {s s' : σ} {a : α} :
    atomically body s = (.ok a, s') ↔ body s = (.ok a, s') := by
  unfold atomically
  rcases body s with ⟨_ | b, t⟩ <;> simp

theorem atomically_error {body : Txn σ ε α} {s s' : σ} {e : ε}
    (h : atomically body s = (.error e, s')) : s' = s := by
  unfold atomically at h
  rcases hb : body s with ⟨_ | b, t⟩
  · rw [hb] at h
    exact (congrArg Prod.snd h).symm
  · rw [hb] at h
    simp at h

theorem atomically_cases (body : Txn σ ε α) (s : σ) :
    (∃ a s', body s = (.ok a, s') ∧ atomically body s = (.ok a, s')) ∨
      ∃ e, atomically body s = (.error e, s) := by
  unfold atomically
  rcases body s with ⟨e | b, t⟩
  · exact Or.inr ⟨e, rfl⟩
  · exact Or.inl ⟨b, t, rfl, rfl⟩

theorem succeeds_forM {f : α → Txn σ ε Unit} {as : List α} (h : ∀ a s, Succeeds (f a) s) (s : σ) :
    Succeeds (as.forM f) s := by
  induction as generalizing s with
  | nil => exact ⟨(), s, rfl⟩
  | cons a as ih =>
    obtain ⟨⟨⟩, t, ha⟩ := h a s
    exact succeeds_bind ha (ih t)

theorem forM_ok_each {f : α → Txn σ ε Unit} {as : List α} {s t : σ} (h : as.forM f s = (.ok (), t))
    {a : α} (ha : a ∈ as) : ∃ u v, f a u = (.ok (), v) := by
  induction as generalizing s with
  | nil => cases ha
  | cons first as ih =>
    obtain ⟨_, u, hfirst, hrest⟩ := bind_ok.mp h
    rcases List.mem_cons.mp ha with rfl | hlater
    · exact ⟨s, u, hfirst⟩
    · exact ih hrest hlater

theorem forM_error {f : α → Txn σ ε Unit} {as : List α} {s t : σ} {e : ε}
    (h : as.forM f s = (.error e, t)) : ∃ before a after u, as = before ++ a :: after ∧
      before.forM f s = (.ok (), u) ∧ f a u = (.error e, t) := by
  induction as generalizing s with
  | nil => cases h
  | cons a as ih =>
    change (f a >>= fun _ => as.forM f) s = _ at h
    rcases ha : f a s with ⟨e' | ⟨⟩, u⟩
    · rw [bind_of_error ha] at h
      exact ⟨[], a, as, s, rfl, rfl, ha.trans h⟩
    · rw [bind_of_ok ha] at h
      obtain ⟨before, b, after, v, rfl, hbefore, hb⟩ := ih h
      exact ⟨a :: before, b, after, v, rfl, (bind_of_ok ha).trans hbefore, hb⟩

/-! ## What a transaction preserves -/

/-- Whatever its outcome, the property holds after it if it held before. -/
def Preserves (I : σ → Prop) (m : Txn σ ε α) : Prop := ∀ s, I s → I (m s).2

theorem preserves_get {I : σ → Prop} : Preserves I (get : Txn σ ε σ) := fun _ hs => hs

theorem Preserves.bind {I : σ → Prop} {m : Txn σ ε α} {f : α → Txn σ ε β} (hm : Preserves I m)
    (hf : ∀ a, Preserves I (f a)) : Preserves I (m >>= f) := by
  intro s hs
  apply bind_elim (Q := fun result => I result.2)
  · intro e t h
    simpa [h] using hm s hs
  · intro a t h
    exact hf a t (by simpa [h] using hm s hs)

theorem preserves_forM {I : σ → Prop} {f : α → Txn σ ε Unit} {as : List α}
    (h : ∀ a, Preserves I (f a)) : Preserves I (as.forM f) := by
  induction as with
  | nil => exact fun s hs => hs
  | cons a as ih => exact (h a).bind fun _ => ih

/-! ## Views that a transaction leaves alone -/

/-- Whatever its outcome, the transaction does not change `view`. -/
def Keeps {γ : Type} (view : σ → γ) (m : Txn σ ε α) : Prop := ∀ s, view (m s).2 = view s

section Keeps

variable {γ : Type} {view : σ → γ}

theorem keeps_pure (a : α) : Keeps view (pure a : Txn σ ε α) := fun _ => rfl

theorem keeps_throw (e : ε) : Keeps view (throw e : Txn σ ε α) := fun _ => rfl

theorem keeps_get : Keeps view (get : Txn σ ε σ) := fun _ => rfl

theorem keeps_modify {f : σ → σ} (h : ∀ s, view (f s) = view s) :
    Keeps view (modify f : Txn σ ε Unit) := h

theorem Keeps.bind {m : Txn σ ε α} {f : α → Txn σ ε β} (hm : Keeps view m)
    (hf : ∀ a, Keeps view (f a)) : Keeps view (m >>= f) := by
  intro s
  show view (andThen m f s).2 = view s
  unfold andThen
  have hs := hm s
  rcases hms : m s with ⟨e | a, t⟩
  · rw [hms] at hs
    exact hs
  · rw [hms] at hs
    exact (hf a t).trans hs

theorem Keeps.ended {m : Txn σ ε α} (h : Keeps view m) {s t : σ} {r : Except ε α}
    (hs : m s = (r, t)) : view t = view s := by
  simpa [hs] using h s

theorem Keeps.ok {m : Txn σ ε α} (h : Keeps view m) {s s' : σ} {a : α} (hs : m s = (.ok a, s')) :
    view s' = view s := by
  simpa [hs] using h s

theorem Keeps.atomically {m : Txn σ ε α} (h : Keeps view m) : Keeps view (Txn.atomically m) := by
  intro s
  rcases atomically_cases m s with ⟨a, t, hbody, hrun⟩ | ⟨e, hrun⟩
  · have hs := h s
    rw [hbody] at hs
    rw [hrun]
    exact hs
  · rw [hrun]

theorem keeps_forM {f : α → Txn σ ε Unit} {as : List α} (h : ∀ a, Keeps view (f a)) :
    Keeps view (as.forM f) := by
  induction as with
  | nil => exact keeps_pure ()
  | cons a as ih => exact (h a).bind fun _ => ih

theorem keeps_forM_mem {f : α → Txn σ ε Unit} {as : List α} (h : ∀ a ∈ as, Keeps view (f a)) :
    Keeps view (as.forM f) := by
  induction as with
  | nil => exact keeps_pure ()
  | cons a as ih =>
    obtain ⟨ha, has⟩ := List.forall_mem_cons.mp h
    exact ha.bind fun _ => ih has

theorem keeps_require {o : Option α} {e : ε} :
    Keeps view (require o e : Txn σ ε α) := by
  cases o <;> exact fun _ => rfl

theorem keeps_refuseIf {p : Prop} [Decidable p] {e : ε} :
    Keeps view (refuseIf p e : Txn σ ε Unit) := by
  intro s
  unfold refuseIf
  split <;> rfl

theorem keeps_ofExcept {r : Except ε α} :
    Keeps view (ofExcept r : Txn σ ε α) := by
  cases r <;> exact fun _ => rfl

end Keeps

end Txn

end Solweig.Lib
