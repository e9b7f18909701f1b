import Mathlib.Data.List.Induction

/-!
# Folds that may stop

A fold over a list and the fold over some of its items, side by side. The relation between the
two may depend on the items that are done.
-/

namespace Solweig.Lib

variable {σ ε α : Type}

theorem except_toOption_some {x : Except ε α} {a : α} : x.toOption = some a ↔ x = .ok a := by
  cases x <;> simp [Except.toOption]

theorem except_map_ok {β : Type} {x : Except ε α} {f : α → β} {b : β} :
    x.map f = .ok b ↔ ∃ a, x = .ok a ∧ f a = b := by
  cases x <;> simp [Except.map]

theorem except_map_map {β γ : Type} (x : Except ε α) (f : α → β) (g : β → γ) :
    (x.map f).map g = x.map (g ∘ f) := by
  cases x <;> rfl

theorem except_map_bind {β γ : Type} (x : Except ε α) (f : α → Except ε β) (g : β → γ) :
    (x >>= f).map g = x >>= fun a => (f a).map g := by
  cases x <;> rfl

theorem except_bind_ok {β : Type} {x : Except ε α} {f : α → Except ε β} {b : β} :
    (x >>= f) = .ok b ↔ ∃ a, x = .ok a ∧ f a = .ok b := by
  cases x <;> simp [bind, Except.bind]

theorem except_bind_error {β : Type} {x : Except ε α} {f : α → Except ε β} {e : ε} :
    (x >>= f) = .error e ↔ x = .error e ∨ ∃ a, x = .ok a ∧ f a = .error e := by
  cases x <;> simp [bind, Except.bind]

@[simp]
theorem except_ok_bind {β : Type} (a : α) (f : α → Except ε β) :
    ((.ok a : Except ε α) >>= f) = f a := rfl

@[simp]
theorem except_error_bind {β : Type} (e : ε) (f : α → Except ε β) :
    ((.error e : Except ε α) >>= f) = .error e := rfl

theorem except_mapError_ok {ε' : Type} {x : Except ε α} {f : ε → ε'} {a : α} :
    x.mapError f = .ok a ↔ x = .ok a := by
  cases x <;> simp [Except.mapError]

theorem except_mapError_error {ε' : Type} {x : Except ε α} {f : ε → ε'} {e : ε'} :
    x.mapError f = .error e ↔ ∃ error, x = .error error ∧ f error = e := by
  cases x <;> simp [Except.mapError]

/-- A check that raises. -/
def refuseIf (p : Prop) [Decidable p] (e : ε) : Except ε Unit := if p then .error e else .ok ()

@[simp]
theorem refuseIf_ok {p : Prop} [Decidable p] {e : ε} {u : Unit} :
    refuseIf p e = .ok u ↔ ¬ p := by
  unfold refuseIf
  split <;> simp_all

theorem refuseIf_error {p : Prop} [Decidable p] {e e' : ε} :
    refuseIf p e = .error e' ↔ p ∧ e = e' := by
  unfold refuseIf
  split <;> simp_all

theorem refuseIf_false {p : Prop} [Decidable p] {e : ε} (h : ¬ p) : refuseIf p e = .ok () :=
  if_neg h

theorem forM_ok {f : α → Except ε Unit} {as : List α} :
    as.forM f = .ok () ↔ ∀ a ∈ as, f a = .ok () := by
  induction as with
  | nil => exact iff_of_true rfl fun a ha => by cases ha
  | cons a as ih =>
    show (f a >>= fun _ => as.forM f) = .ok () ↔ _
    rw [except_bind_ok, List.forall_mem_cons, ← ih]
    constructor
    · rintro ⟨_, ha, hrest⟩
      exact ⟨ha, hrest⟩
    · rintro ⟨ha, hrest⟩
      exact ⟨(), ha, hrest⟩

theorem forM_error {f : α → Except ε Unit} {before after : List α} {a : α} {e : ε}
    (hbefore : ∀ b ∈ before, f b = .ok ()) (ha : f a = .error e) :
    (before ++ a :: after).forM f = .error e := by
  induction before with
  | nil =>
    show (f a >>= fun _ => after.forM f) = _
    rw [ha, except_error_bind]
  | cons b before ih =>
    obtain ⟨hb, hbefore⟩ := List.forall_mem_cons.mp hbefore
    show (f b >>= fun _ => (before ++ a :: after).forM f) = _
    rw [hb, except_ok_bind, ih hbefore]

theorem mapM_ok_of_forall {β : Type} {f : α → Except ε β} {g : α → β} {as : List α}
    (h : ∀ a ∈ as, f a = .ok (g a)) : as.mapM f = .ok (as.map g) := by
  induction as with
  | nil => rfl
  | cons a as ih =>
    obtain ⟨hfirst, hrest⟩ := List.forall_mem_cons.mp h
    rw [List.mapM_cons, hfirst, ih hrest]
    rfl

theorem mapM_error {β : Type} {f : α → Except ε β} {as : List α} {e : ε}
    (h : ∀ a ∈ as, f a = .error e ∨ ∃ b, f a = .ok b) (hbad : ∃ a ∈ as, f a = .error e) :
    as.mapM f = .error e := by
  induction as with
  | nil => simp at hbad
  | cons a as ih =>
    obtain ⟨hfirst, hrest⟩ := List.forall_mem_cons.mp h
    rw [List.mapM_cons]
    rcases hfirst with hfirst | ⟨b, hb⟩
    · rw [hfirst, except_error_bind]
    · obtain ⟨bad, hbad, hfails⟩ := hbad
      rcases List.mem_cons.mp hbad with rfl | hbad
      · rw [hb] at hfails
        cases hfails
      · rw [hb, except_ok_bind, ih hrest ⟨bad, hbad, hfails⟩, except_error_bind]

theorem mem_of_mapM_ok {β : Type} {f : α → Except ε β} {as : List α} {bs : List β}
    (h : as.mapM f = .ok bs) {b : β} (hb : b ∈ bs) : ∃ a ∈ as, f a = .ok b := by
  induction as generalizing bs with
  | nil =>
    cases h
    cases hb
  | cons a as ih =>
    simp only [List.mapM_cons, except_bind_ok] at h
    obtain ⟨b', hb', bs', hbs', hpure⟩ := h
    obtain rfl := Except.ok.inj hpure
    rcases List.mem_cons.mp hb with rfl | hrest
    · exact ⟨a, List.mem_cons_self, hb'⟩
    · obtain ⟨a', ha', hfa'⟩ := ih hbs' hrest
      exact ⟨a', List.mem_cons_of_mem a ha', hfa'⟩

theorem mapM_ok_mem {β : Type} {f : α → Except ε β} {as : List α} {bs : List β}
    (h : as.mapM f = .ok bs) {a : α} (ha : a ∈ as) : ∃ b ∈ bs, f a = .ok b := by
  induction as generalizing bs with
  | nil => cases ha
  | cons first as ih =>
    simp only [List.mapM_cons, except_bind_ok] at h
    obtain ⟨b, hb, bs', hbs', hpure⟩ := h
    obtain rfl := Except.ok.inj hpure
    rcases List.mem_cons.mp ha with rfl | hrest
    · exact ⟨b, List.mem_cons_self, hb⟩
    · obtain ⟨b', hb', hfa⟩ := ih hbs' hrest
      exact ⟨b', List.mem_cons_of_mem b hb', hfa⟩

theorem except_of_isOk {x : Except ε α} (h : x.isOk = true) : ∃ a, x = .ok a := by
  cases x with
  | error e => cases h
  | ok a => exact ⟨a, rfl⟩

theorem foldlM_cons_ok {f : σ → α → Except ε σ} {a : α} {as : List α} {s t : σ} :
    (a :: as).foldlM f s = .ok t ↔ ∃ u, f s a = .ok u ∧ as.foldlM f u = .ok t := by
  rw [List.foldlM_cons]
  cases h : f s a with
  | error e =>
    simp only [reduceCtorEq, false_and, exists_false, iff_false]
    intro h
    cases h
  | ok u => simp [bind, Except.bind]

theorem foldlM_append_ok {f : σ → α → Except ε σ} {as bs : List α} {s t : σ} :
    (as ++ bs).foldlM f s = .ok t ↔ ∃ u, as.foldlM f s = .ok u ∧ bs.foldlM f u = .ok t := by
  rw [List.foldlM_append]
  cases h : as.foldlM f s with
  | error e =>
    simp only [reduceCtorEq, false_and, exists_false, iff_false]
    intro h
    cases h
  | ok u => simp [bind, Except.bind]

theorem foldlM_invariant {f : σ → α → Except ε σ} {I : List α → σ → Prop} {as : List α}
    (hstep : ∀ done a rest s t, as = done ++ a :: rest → I done s → f s a = .ok t →
      I (done ++ [a]) t) {s t : σ} (hs : I [] s) (h : as.foldlM f s = .ok t) : I as t := by
  suffices key : ∀ done rest s, as = done ++ rest → I done s → rest.foldlM f s = .ok t → I as t from
    key [] as s rfl hs h
  intro done rest
  induction rest generalizing done with
  | nil =>
    intro s has hI hr
    cases hr
    rwa [has, List.append_nil]
  | cons a rest ih =>
    intro s has hI hr
    obtain ⟨u, hu, hr⟩ := foldlM_cons_ok.mp hr
    exact ih (done ++ [a]) u (by simp [has]) (hstep done a rest s u has hI hu) hr

theorem foldlM_progress {f : σ → α → Except ε σ} {I : List α → σ → Prop} {as : List α}
    (hstep : ∀ done a rest s, as = done ++ a :: rest → I done s →
      ∃ t, f s a = .ok t ∧ I (done ++ [a]) t) {s : σ} (hs : I [] s) :
    ∃ t, as.foldlM f s = .ok t ∧ I as t := by
  suffices key : ∀ done rest s, as = done ++ rest → I done s →
      ∃ t, rest.foldlM f s = .ok t ∧ I as t from key [] as s rfl hs
  intro done rest
  induction rest generalizing done with
  | nil =>
    intro s has hI
    refine ⟨s, rfl, ?_⟩
    rwa [has, List.append_nil]
  | cons a rest ih =>
    intro s has hI
    obtain ⟨u, hu, hI⟩ := hstep done a rest s has hI
    obtain ⟨t, ht, hend⟩ := ih (done ++ [a]) u (by simp [has]) hI
    exact ⟨t, foldlM_cons_ok.mpr ⟨u, hu, ht⟩, hend⟩

theorem mapM_some_mem {β : Type} {f : α → Option β} {l : List α} {bs : List β}
    (h : l.mapM f = some bs) {a : α} (ha : a ∈ l) : ∃ b ∈ bs, f a = some b := by
  induction l generalizing bs with
  | nil => cases ha
  | cons x l ih =>
    simp only [List.mapM_cons, Option.bind_eq_bind, Option.bind_eq_some_iff] at h
    obtain ⟨b, hb, rest, hrest, hpure⟩ := h
    obtain rfl := Option.some.inj hpure
    rcases List.mem_cons.mp ha with rfl | htail
    · exact ⟨b, List.mem_cons_self, hb⟩
    · obtain ⟨b', hb', hfa⟩ := ih hrest htail
      exact ⟨b', List.mem_cons_of_mem b hb', hfa⟩

theorem mapM_ok_map {β γ : Type} {f : α → Except ε β} {g : β → γ} {k : α → γ}
    {l : List α} (h : ∀ a ∈ l, ∃ b, f a = .ok b ∧ g b = k a) :
    ∃ bs, l.mapM f = .ok bs ∧ bs.map g = l.map k := by
  induction l with
  | nil => exact ⟨[], rfl, rfl⟩
  | cons a l ih =>
    rw [List.forall_mem_cons] at h
    obtain ⟨b, hb, hshown⟩ := h.1
    obtain ⟨bs, hbs, hrest⟩ := ih h.2
    refine ⟨b :: bs, ?_, by rw [List.map_cons, List.map_cons, hshown, hrest]⟩
    simp [List.mapM_cons, hb, hbs, bind, Except.bind, pure, Except.pure]

theorem map_of_mapM_ok {β γ : Type} {f : α → Except ε β} {g : β → γ} {k : α → γ} {l : List α}
    {bs : List β} (hshows : ∀ a b, f a = .ok b → g b = k a) (h : l.mapM f = .ok bs) :
    bs.map g = l.map k := by
  induction l generalizing bs with
  | nil =>
    cases h
    rfl
  | cons a l ih =>
    simp only [List.mapM_cons, except_bind_ok, pure, Except.pure, Except.ok.injEq] at h
    obtain ⟨b, hb, rest, hrest, rfl⟩ := h
    rw [List.map_cons, List.map_cons, hshows a b hb, ih hrest]

theorem foldlM_total {f : σ → α → Except ε σ} {g : σ → α → σ} {I : σ → Prop} {as : List α}
    (hstep : ∀ a ∈ as, ∀ s, I s → f s a = .ok (g s a) ∧ I (g s a)) {s : σ} (hs : I s) :
    as.foldlM f s = .ok (as.foldl g s) ∧ I (as.foldl g s) := by
  induction as generalizing s with
  | nil => exact ⟨rfl, hs⟩
  | cons a as ih =>
    rw [List.forall_mem_cons] at hstep
    obtain ⟨hok, hI⟩ := hstep.1 s hs
    obtain ⟨hrest, hI⟩ := ih hstep.2 hI
    exact ⟨foldlM_cons_ok.mpr ⟨_, hok, hrest⟩, hI⟩

theorem foldlM_view_map {τ : Type} {f : σ → α → Except ε σ} {g : τ → α → Except ε τ} {view : σ → τ}
    {I : σ → Prop} {as : List α}
    (hstep : ∀ a ∈ as, ∀ s, I s → (f s a).map view = g (view s) a ∧ ∀ t, f s a = .ok t → I t)
    {s : σ} (hs : I s) :
    (as.foldlM f s).map view = as.foldlM g (view s) ∧ ∀ t, as.foldlM f s = .ok t → I t := by
  induction as generalizing s with
  | nil =>
    refine ⟨rfl, fun t ht => ?_⟩
    cases ht
    exact hs
  | cons a as ih =>
    rw [List.forall_mem_cons] at hstep
    obtain ⟨hview, hI⟩ := hstep.1 s hs
    rw [List.foldlM_cons, List.foldlM_cons, ← hview]
    cases hu : f s a with
    | error e => exact ⟨rfl, fun t ht => by cases ht⟩
    | ok u => exact ih hstep.2 (hI u hu)

theorem foldlM_filter {f : σ → α → Except ε σ} {p : α → Bool} {R : List α → σ → σ → Prop}
    {as : List α}
    (hown : ∀ done a rest s t u, as = done ++ a :: rest → p a = true → R done s u →
      f s a = .ok t → ∃ v, f u a = .ok v ∧ R (done ++ [a]) t v)
    (hother : ∀ done a rest s t u, as = done ++ a :: rest → p a = false → R done s u →
      f s a = .ok t → R (done ++ [a]) t u)
    {s t u : σ} (hs : R [] s u) (h : as.foldlM f s = .ok t) :
    ∃ v, (as.filter p).foldlM f u = .ok v ∧ R as t v := by
  suffices key : ∀ done rest s u, as = done ++ rest → R done s u → rest.foldlM f s = .ok t →
      ∃ v, (rest.filter p).foldlM f u = .ok v ∧ R as t v from key [] as s u rfl hs h
  intro done rest
  induction rest generalizing done with
  | nil =>
    intro s u has hR hr
    cases hr
    exact ⟨u, rfl, by rwa [has, List.append_nil]⟩
  | cons a rest ih =>
    intro s u has hR hr
    obtain ⟨s', hs', hr⟩ := foldlM_cons_ok.mp hr
    cases hp : p a with
    | true =>
      obtain ⟨u', hu', hR'⟩ := hown done a rest s s' u has hp hR hs'
      obtain ⟨v, hv, hRv⟩ := ih (done ++ [a]) s' u' (by simp [has]) hR' hr
      exact ⟨v, by rw [List.filter_cons_of_pos hp]; exact foldlM_cons_ok.mpr ⟨u', hu', hv⟩, hRv⟩
    | false =>
      have hR' := hother done a rest s s' u has hp hR hs'
      obtain ⟨v, hv, hRv⟩ := ih (done ++ [a]) s' u (by simp [has]) hR' hr
      exact ⟨v, by rwa [List.filter_cons_of_neg (by simp [hp])], hRv⟩

theorem exists_first_not {p : α → Prop} {l : List α} (h : ¬ ∀ a ∈ l, p a) :
    ∃ before a after, l = before ++ a :: after ∧ (∀ b ∈ before, p b) ∧ ¬ p a := by
  induction l with
  | nil => exact absurd (fun a ha => by cases ha) h
  | cons first l ih =>
    by_cases hfirst : p first
    · obtain ⟨before, a, after, hl, hbefore, ha⟩ :=
        ih fun hall => h (List.forall_mem_cons.mpr ⟨hfirst, hall⟩)
      exact ⟨first :: before, a, after, by rw [hl, List.cons_append],
        List.forall_mem_cons.mpr ⟨hfirst, hbefore⟩, ha⟩
    · exact ⟨[], first, l, rfl, fun b hb => (by cases hb), hfirst⟩

theorem exists_first_change {κ : Type} (key : α → Option κ) {l : List α}
    (h : ∃ a ∈ l, ∃ b ∈ l, ∃ j k, key a = some j ∧ key b = some k ∧ j ≠ k) :
    ∃ before a after j k, l = before ++ a :: after ∧ (∀ b ∈ before, ∀ i, key b = some i → i = j) ∧
      (∃ b ∈ before, key b = some j) ∧ key a = some k ∧ k ≠ j := by
  induction l using List.reverseRecOn with
  | nil => simp at h
  | append_singleton l last ih =>
    by_cases hprev : ∃ a ∈ l, ∃ b ∈ l, ∃ j k, key a = some j ∧ key b = some k ∧ j ≠ k
    · obtain ⟨before, a, after, j, k, rfl, hrest⟩ := ih hprev
      exact ⟨before, a, after ++ [last], j, k, by simp, hrest⟩
    · have honly : ∀ a ∈ l, ∀ b ∈ l, ∀ j k, key a = some j → key b = some k → j = k := by
        intro a ha b hb j k hj hk
        by_contra hne
        exact hprev ⟨a, ha, b, hb, j, k, hj, hk, hne⟩
      obtain ⟨a, ha, b, hb, j, k, hj, hk, hne⟩ := h
      simp only [List.mem_append, List.mem_singleton] at ha hb
      rcases ha with ha | rfl <;> rcases hb with hb | rfl
      · exact absurd (honly a ha b hb j k hj hk) hne
      · exact ⟨l, b, [], j, k, rfl, fun c hc i hi => honly c hc a ha i j hi hj, ⟨a, ha, hj⟩, hk,
          hne.symm⟩
      · exact ⟨l, a, [], k, j, rfl, fun c hc i hi => honly c hc b hb i k hi hk, ⟨b, hb, hk⟩, hj,
          hne⟩
      · exact absurd (Option.some.inj (hj.symm.trans hk)) hne

theorem foldl_look {β : Type} (f : σ → α → σ) (look : σ → β) (Writes : α → Prop) (v : β)
    {as : List α} (hwrite : ∀ a ∈ as, Writes a → ∀ s, look (f s a) = v)
    (hskip : ∀ a ∈ as, ¬ Writes a → ∀ s, look (f s a) = look s) (s : σ) :
    ((∃ a ∈ as, Writes a) → look (as.foldl f s) = v) ∧
      ((∀ a ∈ as, ¬ Writes a) → look (as.foldl f s) = look s) := by
  induction as generalizing s with
  | nil => simp
  | cons a as ih =>
    obtain ⟨hwa, hwrite⟩ := List.forall_mem_cons.mp hwrite
    obtain ⟨hsa, hskip⟩ := List.forall_mem_cons.mp hskip
    obtain ⟨hlast, hrest⟩ := ih hwrite hskip (f s a)
    rw [List.foldl_cons]
    constructor
    · rintro ⟨b, hb, hw⟩
      by_cases hlater : ∃ c ∈ as, Writes c
      · exact hlast hlater
      · have hnone : ∀ c ∈ as, ¬ Writes c := fun c hc hwc => hlater ⟨c, hc, hwc⟩
        rw [hrest hnone]
        rcases List.mem_cons.mp hb with rfl | hb
        · exact hwa hw s
        · exact absurd hw (hnone b hb)
    · intro hnone
      rw [hrest fun c hc => hnone c (List.mem_cons_of_mem a hc)]
      exact hsa (hnone a List.mem_cons_self) s

/-! ## Loops that break -/

/-- A loop over a list that breaks after the first item that leaves it done. -/
def exitLoop (step : σ → α → σ) (done : σ → Prop) [DecidablePred done] : σ → List α → σ
  | s, [] => s
  | s, a :: as => if done (step s a) then step s a else exitLoop step done (step s a) as

section ExitLoop

variable {step : σ → α → σ} {done : σ → Prop} [DecidablePred done]

theorem exitLoop_never (h : ∀ s, ¬ done s) (s : σ) (as : List α) :
    exitLoop step done s as = as.foldl step s := by
  induction as generalizing s with
  | nil => rfl
  | cons a as ih => rw [exitLoop, if_neg (h _), ih, List.foldl_cons]

theorem exitLoop_map {σ' α' : Type} {step' : σ' → α' → σ'} {done' : σ' → Prop} [DecidablePred done']
    (view : σ → σ') (item : α → α') (hstep : ∀ s a, step' (view s) (item a) = view (step s a))
    (hdone : ∀ s, done' (view s) ↔ done s) (s : σ) (as : List α) :
    exitLoop step' done' (view s) (as.map item) = view (exitLoop step done s as) := by
  induction as generalizing s with
  | nil => rfl
  | cons a as ih =>
    rw [List.map_cons, exitLoop, exitLoop, hstep, ih]
    by_cases hbreak : done (step s a)
    · rw [if_pos hbreak, if_pos ((hdone _).mpr hbreak)]
    · rw [if_neg hbreak, if_neg (mt (hdone _).mp hbreak)]

theorem exitLoop_look {β : Type} (look : σ → β) (I : σ → Prop) (hkeep : ∀ s a, I s → I (step s a))
    (hstill : ∀ s a, I s → done s → done (step s a) ∧ look (step s a) = look s)
    {s : σ} (hs : I s) (as : List α) : look (exitLoop step done s as) = look (as.foldl step s) := by
  have hrest : ∀ (as : List α) (s : σ), I s → done s → look (as.foldl step s) = look s := by
    intro as
    induction as with
    | nil => exact fun _ _ _ => rfl
    | cons a as ih =>
      intro s hs hdone
      obtain ⟨hdone', hlook⟩ := hstill s a hs hdone
      rw [List.foldl_cons, ih _ (hkeep s a hs) hdone', hlook]
  induction as generalizing s with
  | nil => rfl
  | cons a as ih =>
    rw [exitLoop, List.foldl_cons]
    split
    · rename_i hdone
      exact (hrest as _ (hkeep s a hs) hdone).symm
    · exact ih (hkeep s a hs)

end ExitLoop

end Solweig.Lib
