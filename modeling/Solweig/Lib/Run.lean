import Mathlib.Logic.Basic

/-!
# Runs of a labelled transition system

`step s a` is the state after the action `a`, or `none` when `a` is not enabled. A label holds
every choice that the step makes, so a run is its list of labels.
-/

namespace Solweig.Lib

variable {σ α : Type}

def run (step : σ → α → Option σ) : σ → List α → Option σ
  | s, [] => some s
  | s, a :: as => (step s a).bind fun t => run step t as

/-- Each step of the run starts in a state that meets the condition on its action. -/
def EachStep (step : σ → α → Option σ) (C : σ → α → Prop) : σ → List α → Prop
  | _, [] => True
  | s, a :: as => C s a ∧ ∀ t, step s a = some t → EachStep step C t as

/-- Runs from a given state can be checked step by step. -/
instance decidableEachStep {step : σ → α → Option σ} {C : σ → α → Prop} [∀ s a, Decidable (C s a)] :
    ∀ s as, Decidable (EachStep step C s as)
  | _, [] => inferInstanceAs (Decidable True)
  | s, a :: as =>
    match h : step s a with
    | none => decidable_of_iff (C s a) (by simp [EachStep, h])
    | some t =>
      have : Decidable (EachStep step C t as) := decidableEachStep t as
      decidable_of_iff (C s a ∧ EachStep step C t as) (by simp [EachStep, h])

/-- The run passes through `t`. -/
def Visits (step : σ → α → Option σ) (s : σ) (as : List α) (t : σ) : Prop :=
  ∃ before after, as = before ++ after ∧ run step s before = some t

variable {step : σ → α → Option σ}

theorem run_append (s : σ) (as bs : List α) :
    run step s (as ++ bs) = (run step s as).bind fun t => run step t bs := by
  induction as generalizing s with
  | nil => rfl
  | cons a as ih =>
    simp only [List.cons_append, run, Option.bind_assoc]
    congr 1
    funext t
    exact ih t

theorem run_cons {s u : σ} {a : α} {as : List α} (h : run step s (a :: as) = some u) :
    ∃ t, step s a = some t ∧ run step t as = some u := by
  simpa [run, Option.bind_eq_some_iff] using h

theorem eachStep_append {C : σ → α → Prop} {s t : σ} {as bs : List α}
    (h : EachStep step C s (as ++ bs)) (hr : run step s as = some t) :
    EachStep step C s as ∧ EachStep step C t bs := by
  induction as generalizing s with
  | nil =>
    simp only [run, Option.some.injEq] at hr
    subst hr
    exact ⟨trivial, h⟩
  | cons a as ih =>
    obtain ⟨u, hu, hr⟩ := run_cons hr
    obtain ⟨hC, hrest⟩ := h
    refine ⟨⟨hC, fun v hv => ?_⟩, (ih (hrest u hu) hr).2⟩
    rw [hu, Option.some.injEq] at hv
    subst hv
    exact (ih (hrest u hu) hr).1

theorem eachStep_cons {C : σ → α → Prop} {s t : σ} {a : α} {as : List α} (hstep : step s a = some t)
    (hC : C s a) (hrest : EachStep step C t as) : EachStep step C s (a :: as) := by
  refine ⟨hC, fun u hu => ?_⟩
  rw [hstep, Option.some.injEq] at hu
  exact hu ▸ hrest

theorem eachStep_of_forall {C : σ → α → Prop} (h : ∀ s a, C s a) (s : σ) (as : List α) :
    EachStep step C s as := by
  induction as generalizing s with
  | nil => trivial
  | cons a as ih => exact ⟨h s a, fun t _ => ih t⟩

theorem eachStep_congr {I : σ → Prop} {C D : σ → α → Prop}
    (hinv : ∀ s a t, I s → step s a = some t → I t) (h : ∀ s a, I s → (C s a ↔ D s a)) {s : σ}
    {as : List α} (hs : I s) : EachStep step C s as ↔ EachStep step D s as := by
  induction as generalizing s with
  | nil => exact Iff.rfl
  | cons a as ih =>
    refine and_congr (h s a hs) (forall_congr' fun t => ?_)
    exact imp_congr_right fun ht => ih (hinv s a t hs ht)

theorem eachStep_congr_while {I : σ → Prop} {C D : σ → α → Prop}
    (hinv : ∀ s a t, I s → D s a → step s a = some t → I t) (h : ∀ s a, I s → (C s a ↔ D s a))
    {s : σ} {as : List α} (hs : I s) : EachStep step C s as ↔ EachStep step D s as := by
  induction as generalizing s with
  | nil => exact Iff.rfl
  | cons a as ih =>
    unfold EachStep
    rw [h s a hs]
    refine and_congr_right fun hD => forall_congr' fun t => ?_
    exact imp_congr_right fun ht => ih (hinv s a t hs hD ht)

theorem run_invariant {I : σ → Prop} {C : σ → α → Prop}
    (hstep : ∀ s a t, I s → C s a → step s a = some t → I t) {s t : σ} {as : List α}
    (hs : I s) (hC : EachStep step C s as) (hr : run step s as = some t) : I t := by
  induction as generalizing s with
  | nil =>
    simp only [run, Option.some.injEq] at hr
    exact hr ▸ hs
  | cons a as ih =>
    obtain ⟨u, hu, hr⟩ := run_cons hr
    exact ih (hstep s a u hs hC.1 hu) (hC.2 u hu) hr

theorem run_relation {I : σ → Prop} {C : σ → α → Prop} {R : σ → σ → Prop}
    (hrefl : ∀ s, R s s) (htrans : ∀ s t u, R s t → R t u → R s u)
    (hstep : ∀ s a t, I s → C s a → step s a = some t → I t ∧ R s t) {s t : σ} {as : List α}
    (hs : I s) (hC : EachStep step C s as) (hr : run step s as = some t) : R s t := by
  induction as generalizing s with
  | nil =>
    simp only [run, Option.some.injEq] at hr
    exact hr ▸ hrefl s
  | cons a as ih =>
    obtain ⟨u, hu, hr⟩ := run_cons hr
    obtain ⟨hI, hR⟩ := hstep s a u hs hC.1 hu
    exact htrans s u t hR (ih hI (hC.2 u hu) hr)

/-- Where one step keeps `P` exactly when it meets `C`, a run stays in `P` exactly when each of
its steps meets `C`. `I` is what every run keeps anyway. -/
theorem always_iff_eachStep {I P : σ → Prop} {C : σ → α → Prop}
    (hinv : ∀ s a t, I s → step s a = some t → I t)
    (hstep : ∀ s a t, I s → P s → step s a = some t → (P t ↔ C s a)) {s t : σ} {as : List α}
    (hI : I s) (hP : P s) (hr : run step s as = some t) :
    (∀ u, Visits step s as u → P u) ↔ EachStep step C s as := by
  induction as generalizing s with
  | nil =>
    refine ⟨fun _ => trivial, ?_⟩
    rintro - u ⟨before, after, has, hu⟩
    obtain ⟨rfl, rfl⟩ := List.append_eq_nil_iff.mp has.symm
    simp only [run, Option.some.injEq] at hu
    exact hu ▸ hP
  | cons a as ih =>
    obtain ⟨v, hv, hr⟩ := run_cons hr
    have key := hstep s a v hI hP hv
    constructor
    · intro hall
      have hPv : P v := hall v ⟨[a], as, rfl, by simp [run, hv]⟩
      refine ⟨key.mp hPv, fun w hw => ?_⟩
      rw [hv, Option.some.injEq] at hw
      subst hw
      refine (ih (hinv s a v hI hv) hPv hr).mp ?_
      rintro u ⟨before, after, rfl, hu⟩
      exact hall u ⟨a :: before, after, rfl, by simp [run, hv, hu]⟩
    · rintro ⟨hC, hrest⟩ u ⟨before, after, has, hu⟩
      cases before with
      | nil =>
        simp only [run, Option.some.injEq] at hu
        exact hu ▸ hP
      | cons b before =>
        obtain ⟨rfl, rfl⟩ := List.cons.inj has
        obtain ⟨w, hw, hu⟩ := run_cons hu
        rw [hv, Option.some.injEq] at hw
        subst hw
        exact (ih (hinv s a v hI hv) (key.mpr hC) hr).mpr (hrest v hv) u ⟨before, after, rfl, hu⟩

/-- Where one step is in `R` exactly when it meets `C`, any earlier state of a run is in `R` to any
later one exactly when each step of the run meets `C`. -/
theorem related_iff_eachStep {I : σ → Prop} {R : σ → σ → Prop} {C : σ → α → Prop}
    (hrefl : ∀ s, R s s) (htrans : ∀ s t u, R s t → R t u → R s u)
    (hinv : ∀ s a t, I s → step s a = some t → I t)
    (hstep : ∀ s a t, I s → step s a = some t → (R s t ↔ C s a)) {s t : σ} {as : List α}
    (hI : I s) (hr : run step s as = some t) :
    (∀ before middle after u v, as = before ++ middle ++ after → run step s before = some u →
      run step u middle = some v → R u v) ↔ EachStep step C s as := by
  constructor
  · intro hall
    induction as generalizing s with
    | nil => trivial
    | cons a as ih =>
      obtain ⟨u, hu, hr⟩ := run_cons hr
      have hR := hall [] [a] as s u rfl rfl (by simp [run, hu])
      refine ⟨(hstep s a u hI hu).mp hR, fun v hv => ?_⟩
      obtain rfl := Option.some.inj (hu.symm.trans hv)
      refine ih (hinv s a u hI hu) hr fun before middle after v w has hv hw => ?_
      exact hall (a :: before) middle after v w (by simp [has]) (by simp [run, hu, hv]) hw
  · rintro hC before middle after u v rfl hu hv
    have hmid := (eachStep_append hC (by rw [run_append, hu, Option.bind_some, hv])).1
    have hIu : I u := run_invariant (C := fun _ _ => True) (fun s a t h _ => hinv s a t h) hI
      (eachStep_of_forall (fun _ _ => trivial) _ _) hu
    exact run_relation hrefl htrans (fun s a t h hc hst => ⟨hinv s a t h hst,
      (hstep s a t h hst).mpr hc⟩) hIu (eachStep_append hmid hu).2 hv

end Solweig.Lib
