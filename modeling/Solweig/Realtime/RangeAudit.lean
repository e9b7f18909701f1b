import Solweig.Realtime.Independence
import Solweig.Realtime.LastWriter

/-!
# The audit of overlapping ranges

The fold keeps one owner for each merged segment. Where equal neighbours have one writer, these are
the writers of the time steps, and the conflict records name who overwrote whom.
-/

namespace Solweig.Realtime

open Solweig.Lib Solweig.Lib.Interval

/-! ## Writers of time steps -/

/-- A value with the operation of this epoch that wrote it. -/
abbrev Stamp := Json × Option Operation

def overwrite (T : Int → Option Stamp) (w : Write) (t : Int) : Option Stamp :=
  if w.1.Contains t then some (w.1.value, some w.2) else T t

/-- What each time step holds after the writes, and who of them wrote it. -/
def heldAt (stored : List Segment) (writes : List Write) : Int → Option Stamp :=
  writes.foldl overwrite fun t => (valueAt stored t).map (·, none)

theorem heldAt_append (stored : List Segment) (writes : List Write) (w : Write) :
    heldAt stored (writes ++ [w]) = overwrite (heldAt stored writes) w := by
  simp [heldAt]

/-- The time steps from one to the other all hold equal values. -/
def SameRun (T : Int → Option Stamp) (s t : Int) : Prop :=
  ∃ v, ∀ u, s ≤ u ∧ u ≤ t ∨ t ≤ u ∧ u ≤ s → ∃ q, T u = some q ∧ Json.pyEq q.1 v = true

/-- All time steps of the run have one writer. -/
def OneWriter (T : Int → Option Stamp) (t : Int) : Prop :=
  ∀ s, SameRun T s t → (T s).map Prod.snd = (T t).map Prod.snd

variable {T : Int → Option Stamp} {owned : List Owned} {seg : Segment} {op : Operation}
  {s t u : Int}

theorem SameRun.symm (h : SameRun T s t) : SameRun T t s := by
  obtain ⟨v, hv⟩ := h
  exact ⟨v, fun u hu => hv u hu.symm⟩

theorem SameRun.trans (h : SameRun T s t) (h' : SameRun T t u) : SameRun T s u := by
  obtain ⟨v, hv⟩ := h
  obtain ⟨v', hv'⟩ := h'
  refine ⟨v, fun r hr => ?_⟩
  by_cases hst : s ≤ r ∧ r ≤ t ∨ t ≤ r ∧ r ≤ s
  · exact hv r hst
  -- what lies behind `t` has the value of `t`
  · obtain ⟨q, hq, hqv⟩ := hv t (by omega)
    obtain ⟨q', hq', hqv'⟩ := hv' t (by omega)
    obtain rfl := Option.some.inj (hq.symm.trans hq')
    obtain ⟨p, hp, hpv⟩ := hv' r (by omega)
    exact ⟨p, hp, Json.pyEq_trans _ _ _ (Json.pyEq_trans _ _ _ hpv (Json.pyEq_symm _ _ hqv')) hqv⟩

theorem SameRun.within (h : SameRun T s t) (hu : s ≤ u ∧ u ≤ t ∨ t ≤ u ∧ u ≤ s) :
    SameRun T u t := by
  obtain ⟨v, hv⟩ := h
  exact ⟨v, fun r hr => hv r (by omega)⟩

theorem OneWriter.run (h : OneWriter T t) (hs : SameRun T s t) : OneWriter T s := by
  intro r hr
  rw [h r (hr.trans hs), h s hs]

/-- The interval is a run of equal time steps as a whole. -/
structure IsRun (T : Int → Option Stamp) (start : Int) (stop : Option Int) : Prop where
  proper : atMost start stop
  same : ∀ t, start ≤ t → atMost t stop → SameRun T start t
  first : ¬ SameRun T (start - 1) start
  last : ∀ b, stop = some b → ¬ SameRun T b (b + 1)

/-! ## Owners of segments -/

/-- The segments hold the values of the time steps, and their owners are the writers where the run
has only one. -/
structure Credited (owned : List Owned) (T : Int → Option Stamp) : Prop where
  proper : ∀ x ∈ owned, x.1.Proper
  holds : ∀ t v, Holds Json.pyEq (owned.map Prod.fst) t v ↔
    ∃ q, T t = some q ∧ Json.pyEq q.1 v = true
  owner : ∀ x ∈ owned, ∀ t, x.1.Contains t → OneWriter T t → (T t).map Prod.snd = some x.2

theorem Credited.segment (h : Credited owned T) {q : Stamp} (hq : T t = some q) :
    ∃ x ∈ owned, x.1.Contains t := by
  obtain ⟨i, hi, ht, -⟩ := (h.holds t q.1).mpr ⟨q, hq, Json.pyEq_refl _⟩
  obtain ⟨x, hx, rfl⟩ := List.mem_map.mp hi
  exact ⟨x, hx, ht⟩

/-- Which segments the write overlaps. -/
def hitsOf (seg : Segment) (owned : List Owned) : List Bool :=
  owned.map fun x => decide (overlaps seg.start seg.stop x.1.start x.1.stop)

theorem mem_zip_hitsOf {x : Owned × Bool} : x ∈ owned.zip (hitsOf seg owned) ↔
    x.1 ∈ owned ∧ x.2 = decide (overlaps seg.start seg.stop x.1.1.start x.1.1.stop) := by
  obtain ⟨x, hit⟩ := x
  unfold hitsOf
  induction owned with
  | nil => simp
  | cons y owned ih =>
    simp only [List.map_cons, List.zip_cons_cons, List.mem_cons, ih, Prod.mk.injEq]
    constructor
    · rintro (⟨rfl, hhit⟩ | ⟨hx, hhit⟩)
      · exact ⟨Or.inl rfl, hhit⟩
      · exact ⟨Or.inr hx, hhit⟩
    · rintro ⟨rfl | hx, hhit⟩
      · exact Or.inl ⟨rfl, hhit⟩
      · exact Or.inr ⟨hx, hhit⟩

theorem overlaps_iff {i j : Segment} (hi : i.Proper) (hj : j.Proper) :
    overlaps i.start i.stop j.start j.stop ↔ ∃ t, i.Contains t ∧ j.Contains t := by
  constructor
  · rintro ⟨hij, hji⟩
    by_cases hle : i.start ≤ j.start
    · exact ⟨j.start, ⟨hle, hji⟩, contains_start hj⟩
    · exact ⟨i.start, contains_start hi, ⟨by omega, hij⟩⟩
  · rintro ⟨t, ⟨hi₁, hi₂⟩, hj₁, hj₂⟩
    constructor
    · cases hs : j.stop with
      | none => trivial
      | some b =>
        simp only [hs, atMost] at hj₂ ⊢
        omega
    · cases hs : i.stop with
      | none => trivial
      | some b =>
        simp only [hs, atMost] at hi₂ ⊢
        omega

/-! ## Merging -/

theorem mergeOwned_owner {merged rest : List Owned} (hm : ∀ x ∈ merged, x.1.Proper)
    (hr : ∀ x ∈ rest, x.1.Proper) {x : Owned} (hx : x ∈ mergeOwned merged rest) :
    ∃ p ∈ merged ++ rest, p.2 = x.2 ∧ ∀ t, p.1.Contains t → x.1.Contains t := by
  induction rest generalizing merged with
  | nil => exact ⟨x, by simpa [mergeOwned] using hx, rfl, fun t ht => ht⟩
  | cons y rest ih =>
    rw [List.forall_mem_cons] at hr
    cases merged with
    | nil =>
      obtain ⟨p, hp, h⟩ := ih (by simpa using hr.1) hr.2 hx
      exact ⟨p, by simpa using hp, h⟩
    | cons m ms =>
      rw [List.forall_mem_cons] at hm
      simp only [mergeOwned] at hx
      split at hx
      · rename_i hj
        have hspec := join_spec hm.1 hr.1 hj
        obtain ⟨p, hp, howner, hin⟩ :=
          ih (List.forall_mem_cons.mpr ⟨(hspec m.1.start).1, hm.2⟩) hr.2 hx
        rcases List.mem_cons.mp hp with rfl | hp
        · dsimp only at howner hin
          split at howner
          · exact ⟨y, by simp, howner, fun t ht => hin t ((hspec t).2.mpr (Or.inr ht))⟩
          · exact ⟨m, by simp, howner, fun t ht => hin t ((hspec t).2.mpr (Or.inl ht))⟩
        · exact ⟨p, List.mem_cons_of_mem m (List.mem_append.mpr ((List.mem_append.mp hp).imp id
            (List.mem_cons_of_mem y))), howner, hin⟩
      · obtain ⟨p, hp, h⟩ := ih (List.forall_mem_cons.mpr ⟨hr.1, List.forall_mem_cons.mpr hm⟩) hr.2 hx
        refine ⟨p, ?_, h⟩
        simp only [List.cons_append, List.mem_cons, List.mem_append] at hp ⊢
        tauto

/-! ## One write -/

/-- The segments that a write leaves, before they merge. -/
def unmerged (owned : List Owned) (seg : Segment) (op : Operation) : List Owned :=
  (((owned.zip (hitsOf seg owned)).flatMap fun x =>
    if x.2 then (cutOut seg.start seg.stop x.1.1).map fun s => (s, x.1.2) else [x.1]) ++
      [(seg, some op)]).insertionSort fun x y => x.1.start ≤ y.1.start

theorem placeOwned_unmerged (owned : List Owned) (seg : Segment) (op : Operation) :
    placeOwned (owned.zip (hitsOf seg owned)) seg op = mergeOwned [] (unmerged owned seg op) := rfl

theorem mem_unmerged {p : Owned} (hp : p ∈ unmerged owned seg op) :
    p = (seg, some op) ∨ ∃ x ∈ owned, p.1 ∈ carve seg.start seg.stop x.1 ∧ p.2 = x.2 := by
  unfold unmerged at hp
  rw [List.mem_insertionSort, List.mem_append, List.mem_singleton, List.mem_flatMap] at hp
  refine hp.symm.imp id ?_
  rintro ⟨x, hx, hp⟩
  obtain ⟨hx, hhit⟩ := mem_zip_hitsOf.mp hx
  refine ⟨x.1, hx, ?_⟩
  unfold carve
  split at hp
  · rename_i h
    rw [if_pos (by simpa [hhit] using h)]
    obtain ⟨j, hj, rfl⟩ := List.mem_map.mp hp
    exact ⟨hj, rfl⟩
  · rename_i h
    rw [if_neg (by simpa [hhit] using h)]
    obtain rfl := List.mem_singleton.mp hp
    exact ⟨List.mem_singleton_self _, rfl⟩

theorem placeOwned_paste (owned : List Owned) (seg : Segment) (op : Operation) :
    (placeOwned (owned.zip (hitsOf seg owned)) seg op).map Prod.fst =
      paste Json.pyEq (owned.map Prod.fst) seg := by
  rw [placeOwned_fst, ← placeSegments_flags]
  unfold hitsOf
  rw [List.map_map]
  rfl

theorem SameRun.overwrite (h : SameRun T s t)
    (hout : ∀ u, s ≤ u ∧ u ≤ t ∨ t ≤ u ∧ u ≤ s → ¬ seg.Contains u) :
    SameRun (overwrite T (seg, op)) s t := by
  obtain ⟨v, hv⟩ := h
  refine ⟨v, fun u hu => ?_⟩
  unfold Realtime.overwrite
  rw [if_neg (hout u hu)]
  exact hv u hu

/-- A time step outside the write had one writer if it has one now and the write met no run of
several. -/
theorem OneWriter.before (h : OneWriter (overwrite T (seg, op)) t) (ht : ¬ seg.Contains t)
    (hseg : ∀ u, seg.Contains u → OneWriter T u) : OneWriter T t := by
  intro s hs
  by_cases hmeet : ∃ u, (s ≤ u ∧ u ≤ t ∨ t ≤ u ∧ u ≤ s) ∧ seg.Contains u
  · obtain ⟨u, hu, hc⟩ := hmeet
    have hut := hs.within hu
    rw [hseg u hc s (hs.trans hut.symm), hseg u hc t hut.symm]
  · rw [not_exists] at hmeet
    have hkept := h s (hs.overwrite fun u hu hc => hmeet u ⟨hu, hc⟩)
    have hs' : ¬ seg.Contains s := fun hc => hmeet s ⟨by omega, hc⟩
    unfold Realtime.overwrite at hkept
    rwa [if_neg hs', if_neg ht] at hkept

theorem Credited.place (h : Credited owned T) (hseg : seg.Proper)
    (hone : ∀ t, seg.Contains t → OneWriter T t) :
    Credited (placeOwned (owned.zip (hitsOf seg owned)) seg op) (overwrite T (seg, op)) := by
  have hstored : ∀ j ∈ owned.map Prod.fst, j.Proper := by
    intro j hj
    obtain ⟨x, hx, rfl⟩ := List.mem_map.mp hj
    exact h.proper x hx
  have hproper : ∀ x ∈ placeOwned (owned.zip (hitsOf seg owned)) seg op, x.1.Proper := by
    intro x hx
    have hpasted : x.1 ∈ paste Json.pyEq (owned.map Prod.fst) seg := by
      rw [← placeOwned_paste owned seg op]
      exact List.mem_map_of_mem hx
    exact paste_proper hstored hseg x.1 hpasted
  have hholds : ∀ t v, Holds Json.pyEq
      ((placeOwned (owned.zip (hitsOf seg owned)) seg op).map Prod.fst) t v ↔
      ∃ q, overwrite T (seg, op) t = some q ∧ Json.pyEq q.1 v = true := by
    intro t v
    rw [placeOwned_paste, holds_paste Json.pyEq_equivalence hstored hseg]
    unfold overwrite
    by_cases ht : seg.Contains t
    · simp [ht]
    · simp [ht, h.holds]
  refine ⟨hproper, hholds, fun x hx t ht hclean => ?_⟩
  have hrun : ∀ s, x.1.Contains s → SameRun (overwrite T (seg, op)) s t := by
    intro s hs
    refine ⟨x.1.value, fun u hu => (hholds u x.1.value).mp ?_⟩
    refine ⟨x.1, List.mem_map_of_mem hx, ⟨?_, ?_⟩, Json.pyEq_refl _⟩
    · have := hs.1
      have := ht.1
      omega
    · have hs' := hs.2
      have ht' := ht.2
      cases hstop : x.1.stop with
      | none => trivial
      | some b =>
        simp only [hstop, atMost] at hs' ht' ⊢
        omega
  have hparts : ∀ p ∈ unmerged owned seg op, p.1.Proper := by
    intro p hp
    rcases mem_unmerged hp with rfl | ⟨y, hy, hcarve, -⟩
    · exact hseg
    · rcases mem_carve hcarve with heq | hcut
      · exact heq ▸ h.proper y hy
      · exact cutOut_proper hcut
  -- the owner comes from a part, whose first time step is in the same run
  obtain ⟨p, hp, howner, hin⟩ :=
    mergeOwned_owner (by simp) hparts (placeOwned_unmerged owned seg op ▸ hx)
  have hstart := contains_start (hparts p hp)
  have hsame := hrun p.1.start (hin _ hstart)
  rw [← hclean p.1.start hsame, ← howner]
  rcases mem_unmerged hp with rfl | ⟨y, hy, hcarve, hown⟩
  · simp [overwrite, hstart]
  · obtain ⟨hin', hout⟩ := (covers_carve hseg y.1 p.1.start).mp ⟨p.1, hcarve, hstart⟩
    have hbefore := (hclean.run hsame).before hout hone
    have hkept : overwrite T (seg, op) p.1.start = T p.1.start := if_neg hout
    rw [hkept, hown]
    exact h.owner y hy _ hin' hbefore

theorem overlapConflict_loser (family : SegmentFamily) (field l : String) (x : Owned × Bool) :
    (∃ c, overlapConflict family field seg op x = some c ∧ l ∈ c.loserOperationIds) ↔
      x.2 = true ∧ ∃ o, x.1.2 = some o ∧ o.operationId = l ∧ o.actorId ≠ op.actorId := by
  unfold overlapConflict
  cases x.1.2 with
  | none => simp
  | some o =>
    dsimp only
    split
    · rename_i h
      simp only [Option.some.injEq, exists_eq_left', List.mem_singleton, h.1, true_and]
      exact ⟨fun hl => ⟨hl.symm, h.2⟩, fun hl => hl.1.symm⟩
    · rename_i h
      simp only [reduceCtorEq, false_and, exists_false, Option.some.injEq, exists_eq_left', false_iff]
      exact fun hl => h ⟨hl.1, hl.2.2⟩

theorem Credited.records (h : Credited owned T) (hseg : seg.Proper)
    (hone : ∀ t, seg.Contains t → OneWriter T t) (family : SegmentFamily) (field l : String) :
    (∃ c ∈ (owned.zip (hitsOf seg owned)).filterMap (overlapConflict family field seg op),
      l ∈ c.loserOperationIds) ↔
    ∃ t o, seg.Contains t ∧ (T t).map Prod.snd = some (some o) ∧ o.operationId = l ∧
      o.actorId ≠ op.actorId := by
  constructor
  · rintro ⟨c, hc, hl⟩
    obtain ⟨x, hx, hrecord⟩ := List.mem_filterMap.mp hc
    obtain ⟨hx, hhit⟩ := mem_zip_hitsOf.mp hx
    obtain ⟨hit, o, ho, hid, hactor⟩ := (overlapConflict_loser _ _ _ _).mp ⟨c, hrecord, hl⟩
    have hov : overlaps seg.start seg.stop x.1.1.start x.1.1.stop := by simpa [hit] using hhit
    obtain ⟨t, ht, htx⟩ := (overlaps_iff hseg (h.proper _ hx)).mp hov
    exact ⟨t, o, ht, ho ▸ h.owner x.1 hx t htx (hone t ht), hid, hactor⟩
  · rintro ⟨t, o, ht, hheld, hid, hactor⟩
    obtain ⟨q, hq, -⟩ := Option.map_eq_some_iff.mp hheld
    obtain ⟨x, hx, htx⟩ := h.segment hq
    have hown := Option.some.inj ((h.owner x hx t htx (hone t ht)).symm.trans hheld)
    have hov := (overlaps_iff hseg (h.proper x hx)).mpr ⟨t, ht, htx⟩
    obtain ⟨c, hrecord, hl⟩ :=
      (overlapConflict_loser family field l (x, true)).mpr ⟨rfl, o, hown, hid, hactor⟩
    have hmem : (x, true) ∈ owned.zip (hitsOf seg owned) :=
      mem_zip_hitsOf.mpr ⟨hx, by simp [hov]⟩
    exact ⟨c, List.mem_filterMap.mpr ⟨_, hmem, hrecord⟩, hl⟩

/-! ## One field of the fold -/

variable {g : SegmentFamily} {field : String} {v w : SegmentView} {i : Insertion}

/-- The stored segments of a field with their owners, as an insert pairs them. -/
def ownedAt (v : SegmentView) (g : SegmentFamily) (field : String) : List Owned :=
  ((v.1 g).getD field []).zip (v.2.getD field (((v.1 g).getD field []).map fun _ => none))

/-- The segments hold the values of the time steps, in normal form. -/
structure Stores (stored : List Segment) (T : Int → Option Stamp) : Prop where
  normal : Normal Json.pyEq stored
  holds : ∀ t v, Holds Json.pyEq stored t v ↔ ∃ q, T t = some q ∧ Json.pyEq q.1 v = true

/-- The comparisons with the runs of equal time steps come out on floats as on integers. -/
def Compared (T : Int → Option Stamp) (seg : Segment) : Prop :=
  ∀ start stop, IsRun T start stop → overlapsFloat seg.start seg.stop start stop =
    .ok (decide (overlaps seg.start seg.stop start stop))

variable {stored : List Segment}

theorem Stores.sameRun (h : Stores stored T) {j : Segment} (hj : j ∈ stored) (hs : j.Contains s)
    (hrun : SameRun T s t) : Holds Json.pyEq stored t j.value := by
  obtain ⟨v, hv⟩ := hrun
  obtain ⟨p, hp, hpv⟩ := hv s (by omega)
  obtain ⟨q, hq, hqv⟩ := hv t (by omega)
  obtain ⟨p', hp', hpj⟩ := (h.holds s j.value).mp ⟨j, hj, hs, Json.pyEq_refl _⟩
  obtain rfl := Option.some.inj (hp.symm.trans hp')
  exact (h.holds t j.value).mpr
    ⟨q, hq, Json.pyEq_trans _ _ _ hqv (Json.pyEq_trans _ _ _ (Json.pyEq_symm _ _ hpv) hpj)⟩

theorem Stores.isRun (h : Stores stored T) {j : Segment} (hj : j ∈ stored) :
    IsRun T j.start j.stop := by
  have hproper := h.normal.proper j hj
  obtain ⟨hfirst, hlast⟩ := h.normal.edges Json.pyEq_equivalence hj
  refine ⟨hproper, fun t hstart hstop => ⟨j.value, fun u hu => ?_⟩, fun hrun => ?_, fun b hb hrun => ?_⟩
  · refine (h.holds u j.value).mp ⟨j, hj, ⟨by omega, ?_⟩, Json.pyEq_refl _⟩
    cases hb : j.stop with
    | none => trivial
    | some b =>
      simp only [hb, atMost] at hstop ⊢
      omega
  · exact hfirst (h.sameRun hj (contains_start hproper) hrun.symm)
  · refine hlast b hb (h.sameRun hj ⟨?_, ?_⟩ hrun)
    · simpa [Proper, hb, atMost] using hproper
    · simp [hb, atMost]

theorem overlapFlags_of_forall {stored : List Segment}
    (h : ∀ j ∈ stored, overlapsFloat seg.start seg.stop j.start j.stop =
      .ok (decide (overlaps seg.start seg.stop j.start j.stop))) :
    overlapFlags seg stored =
      .ok (stored.map fun j => decide (overlaps seg.start seg.stop j.start j.stop)) := by
  induction stored with
  | nil => rfl
  | cons j rest ih =>
    rw [List.forall_mem_cons] at h
    simp only [overlapFlags, h.1, ih h.2, Except.map, List.map_cons]

structure Follows (g : SegmentFamily) (field : String) (v : SegmentView) (T : Int → Option Stamp) :
    Prop where
  fst : (ownedAt v g field).map Prod.fst = (v.1 g).getD field []
  normal : Normal Json.pyEq ((v.1 g).getD field [])
  credited : Credited (ownedAt v g field) T

theorem Follows.stores (h : Follows g field v T) : Stores ((v.1 g).getD field []) T :=
  ⟨h.normal, h.fst ▸ h.credited.holds⟩

theorem Stores.nil (h : Stores stored T) (hT : ∀ t, T t = none) : stored = [] := by
  refine List.eq_nil_iff_forall_not_mem.mpr fun j hj => ?_
  obtain ⟨q, hq, -⟩ := (h.holds j.start j.value).mp
    ⟨j, hj, contains_start (h.normal.proper j hj), Json.pyEq_refl _⟩
  simp [hT] at hq

theorem Stores.follows (h : Stores ((v.1 g).getD field []) T) (hT : ∀ t, T t = none) :
    Follows g field v T := by
  have hnil := h.nil hT
  have howned : ownedAt v g field = [] := by simp [ownedAt, hnil]
  refine ⟨by simp [howned, hnil], h.normal, ?_⟩
  rw [howned]
  exact ⟨by simp, by simp [hT], by simp⟩

theorem Follows.flags (h : Follows g field v T) (hseg : Compared T seg) :
    overlapFlags seg ((ownedAt v g field).map Prod.fst) =
      .ok (hitsOf seg (ownedAt v g field)) := by
  rw [overlapFlags_of_forall, hitsOf, List.map_map]
  · rfl
  · rw [h.fst]
    intro j hj
    exact hseg j.start j.stop (h.stores.isRun hj)

theorem Follows.conflicts (h : Follows i.family i.field v T) (hseg : Compared T i.seg) :
    insertConflicts v i =
      ((ownedAt v i.family i.field).zip (hitsOf i.seg (ownedAt v i.family i.field))).filterMap
        (overlapConflict i.family i.field i.seg i.op) := by
  have hflags := h.flags hseg
  unfold ownedAt at hflags ⊢
  unfold insertConflicts
  dsimp only
  rw [hflags]

theorem ownedAt_insert (segments : SegmentFamily → SegmentMap)
    (owners : Dict String (List (Option Operation))) (placed : List Owned) :
    ownedAt (Function.update segments g ((segments g).insert field (placed.map Prod.fst)),
      owners.insert field (placed.map Prod.snd)) g field = placed := by
  simp only [ownedAt, Function.update_self, Std.ExtTreeMap.getD_insert_self]
  exact (List.zip_of_prod rfl rfl).symm

theorem Follows.insert (h : Follows i.family i.field v T) (hproper : i.seg.Proper)
    (hseg : Compared T i.seg) (hone : ∀ t, i.seg.Contains t → OneWriter T t)
    (hw : insertInto v i = .ok w) : Follows i.family i.field w (overwrite T (i.seg, i.op)) := by
  have hflags := h.flags hseg
  obtain ⟨hits, hhits, rfl⟩ := except_map_ok.mp hw
  obtain rfl := Except.ok.inj (hflags.symm.trans hhits)
  have hpaste := placeOwned_paste (ownedAt v i.family i.field) i.seg i.op
  rw [h.fst] at hpaste
  -- what the insert stores, read back
  generalize hplaced : placeOwned ((ownedAt v i.family i.field).zip
    (hitsOf i.seg (ownedAt v i.family i.field))) i.seg i.op = placed at hpaste
  have hfollows : Follows i.family i.field
      (Function.update v.1 i.family ((v.1 i.family).insert i.field (placed.map Prod.fst)),
        v.2.insert i.field (placed.map Prod.snd)) (overwrite T (i.seg, i.op)) := by
    refine ⟨?_, ?_, ?_⟩
    · rw [ownedAt_insert]
      simp
    · simp only [Function.update_self, Std.ExtTreeMap.getD_insert_self, hpaste]
      exact paste_normal Json.pyEq_equivalence h.normal.inOrder h.normal.proper hproper
    · rw [ownedAt_insert, ← hplaced]
      exact h.credited.place hproper hone
  subst hplaced
  exact hfollows

theorem ownedAt_other (hne : i.field ≠ field) (hw : insertInto v i = .ok w) :
    (w.1 g).getD field [] = (v.1 g).getD field [] ∧ ownedAt w g field = ownedAt v g field := by
  have hsegments : (w.1 g).getD field [] = (v.1 g).getD field [] := by
    by_cases hg : g = i.family
    · obtain ⟨segments, owners, -, rfl⟩ := insertInto_ok hw
      subst hg
      simp [Dict.getD_insert_of_ne _ _ _ hne]
    · rw [insertInto_family hw hg]
  refine ⟨hsegments, ?_⟩
  simp only [ownedAt, hsegments, Std.ExtTreeMap.getD_eq_getD_getElem?, insertInto_owners hw hne]

theorem Follows.other (h : Follows g field v T) (hne : i.field ≠ field)
    (hw : insertInto v i = .ok w) : Follows g field w T := by
  obtain ⟨hsegments, howned⟩ := ownedAt_other (g := g) hne hw
  refine ⟨?_, ?_, ?_⟩
  · rw [howned, hsegments, h.fst]
  · rw [hsegments]
    exact h.normal
  · rw [howned]
    exact h.credited

theorem Follows.fresh {segments : SegmentFamily → SegmentMap}
    (h : Normal Json.pyEq ((segments g).getD field [])) :
    Follows g field (segments, ∅) (heldAt ((segments g).getD field []) []) := by
  have howned : ownedAt (segments, ∅) g field =
      ((segments g).getD field []).map fun s => (s, none) := by
    have hzip : ∀ l : List Segment, l.zip (l.map fun _ => none) =
        l.map fun s => ((s, none) : Owned) := by
      intro l
      induction l with
      | nil => rfl
      | cons s l ih => simp only [List.map_cons, List.zip_cons_cons, ih]
    simp only [ownedAt, Dict.getD_of_none Std.ExtTreeMap.getElem?_empty, hzip]
  have hfst : (ownedAt (segments, ∅) g field).map Prod.fst = (segments g).getD field [] := by
    simp [howned, Function.comp_def]
  refine ⟨hfst, h, ?_, fun t v => ?_, ?_⟩
  · intro x hx
    rw [howned] at hx
    obtain ⟨s, hs, rfl⟩ := List.mem_map.mp hx
    exact h.proper s hs
  · rw [hfst, holds_iff_valueAt h.inOrder]
    cases hv : valueAt ((segments g).getD field []) t <;> simp [heldAt, hv]
  · intro x hx t ht _
    rw [howned] at hx
    obtain ⟨s, hs, rfl⟩ := List.mem_map.mp hx
    have hheld : Holds Json.pyEq ((segments g).getD field []) t s.value :=
      ⟨s, hs, ht, Json.pyEq_refl _⟩
    obtain ⟨u, hu, -⟩ := (holds_iff_valueAt h.inOrder t s.value).mp hheld
    simp [heldAt, hu]

/-- The writes to one field. -/
def writesTo (g : SegmentFamily) (field : String) (is : List Insertion) : List Write :=
  (is.filter fun i => i.family = g ∧ i.field = field).map fun i => (i.seg, i.op)

/-- The value and the writer that an insertion finds at a time step. -/
def foundBy (segments : SegmentFamily → SegmentMap) (before : List Insertion) (i : Insertion) :
    Int → Option Stamp :=
  heldAt ((segments i.family).getD i.field []) (writesTo i.family i.field before)

theorem foundBy_own {segments : SegmentFamily → SegmentMap} {done : List Insertion}
    {j : Insertion} (hfamily : j.family = i.family) (hfield : j.field = i.field) :
    foundBy segments done j = foundBy segments done i ∧
      foundBy segments (done ++ [j]) i = overwrite (foundBy segments done i) (j.seg, j.op) := by
  unfold foundBy writesTo
  simp only [List.filter_append, List.map_append, hfamily, hfield]
  refine ⟨trivial, ?_⟩
  rw [← heldAt_append]
  simp [hfamily, hfield]

theorem foundBy_other {segments : SegmentFamily → SegmentMap} {done : List Insertion}
    {j : Insertion} (hfield : j.field ≠ i.field) :
    foundBy segments (done ++ [j]) i = foundBy segments done i := by
  simp [foundBy, writesTo, hfield]

/-! ## One epoch -/

/-- The records of an epoch name exactly who overwrote whom: `w` takes a time step of the field
whose value another actor's operation `l` of the epoch had written. -/
def Audited (b : CanonicalState) (ops : List Operation) (r : EpochReduction) : Prop :=
  ∀ g field w l,
    (∃ c ∈ r.reduced.conflicts, c.sourceFamily = .segment g ∧ c.entityId = some field ∧
      c.winnerOperationId = w ∧ l ∈ c.loserOperationIds) ↔
    ∃ before i after, (inOrder ops).flatMap insertions = before ++ i :: after ∧ i.family = g ∧
      i.field = field ∧ i.op.operationId = w ∧
      ∃ t o, i.seg.Contains t ∧
        (foundBy b.families.segments before i t).map Prod.snd = some (some o) ∧
        o.operationId = l ∧ o.actorId ≠ i.op.actorId

/-- The family of the last of the writes that has the name. -/
def lastFamily (is : List Insertion) (field : String) : Option SegmentFamily :=
  (is.reverse.find? fun i => i.field = field).map (·.family)

/-- What a write finds that can be credited: one writer in each run that it meets, comparisons that
floats do not change, and nothing stored under a name that another family has written since. -/
structure Creditable (segments : SegmentFamily → SegmentMap) (before : List Insertion)
    (i : Insertion) : Prop where
  oneWriter : ∀ t, i.seg.Contains t → OneWriter (foundBy segments before i) t
  compared : Compared (foundBy segments before i) i.seg
  ownRow : ∀ g, lastFamily before i.field = some g → g ≠ i.family →
    ∀ t, foundBy segments before i t = none

/-- The stored segments are in normal form, and each write finds what can be credited. -/
structure Auditable (b : CanonicalState) (ops : List Operation) : Prop where
  normal : ∀ op ∈ ops, ∀ i ∈ insertions op,
    Normal Json.pyEq ((b.families.segments i.family).getD i.field [])
  creditable : ∀ before i after, (inOrder ops).flatMap insertions = before ++ i :: after →
    Creditable b.families.segments before i

theorem lastFamily_append (is : List Insertion) (i : Insertion) (field : String) :
    lastFamily (is ++ [i]) field =
      if i.field = field then some i.family else lastFamily is field := by
  unfold lastFamily
  rw [List.reverse_append, List.reverse_singleton, List.singleton_append, List.find?_cons]
  by_cases hfield : i.field = field <;> simp [hfield]

/-- What is stored for the field and, unless another family has written the name since, who wrote
it. -/
structure Credit (g : SegmentFamily) (field : String) (v : SegmentView) (T : Int → Option Stamp)
    (last : Option SegmentFamily) : Prop where
  stores : Stores ((v.1 g).getD field []) T
  follows : (∀ k, last = some k → k = g) → Follows g field v T

theorem Follows.credit {last : Option SegmentFamily} (h : Follows g field v T) :
    Credit g field v T last := ⟨h.stores, fun _ => h⟩

theorem Credit.found {segments : SegmentFamily → SegmentMap} {before : List Insertion}
    (h : Credit i.family i.field v (foundBy segments before i) (lastFamily before i.field))
    (hi : Creditable segments before i) :
    Follows i.family i.field v (foundBy segments before i) := by
  by_cases hown : ∀ k, lastFamily before i.field = some k → k = i.family
  · exact h.follows hown
  · simp only [not_forall] at hown
    obtain ⟨k, hk, hne⟩ := hown
    exact h.stores.follows (hi.ownRow k hk hne)

theorem mem_insertions {ops : List Operation} (hi : i ∈ (inOrder ops).flatMap insertions) :
    ∃ op ∈ ops, i ∈ insertions op := by
  obtain ⟨op, hop, hi⟩ := List.mem_flatMap.mp hi
  exact ⟨op, (List.mem_insertionSort _).mp hop, hi⟩

theorem foundBy_family {segments : SegmentFamily → SegmentMap} {done : List Insertion}
    {j : Insertion} (hfamily : j.family ≠ i.family) :
    foundBy segments (done ++ [j]) i = foundBy segments done i := by
  simp [foundBy, writesTo, hfamily]

theorem Credit.step {segments : SegmentFamily → SegmentMap} {done : List Insertion} {j : Insertion}
    (h : Credit i.family i.field v (foundBy segments done i) (lastFamily done i.field))
    (hproper : j.seg.Proper) (hj : Creditable segments done j) (hw : insertInto v j = .ok w) :
    Credit i.family i.field w (foundBy segments (done ++ [j]) i)
      (lastFamily (done ++ [j]) i.field) := by
  rw [lastFamily_append]
  by_cases hfield : j.field = i.field
  · rw [if_pos hfield]
    by_cases hfamily : j.family = i.family
    · obtain ⟨hsame, hnext⟩ : foundBy segments done j = foundBy segments done i ∧
          foundBy segments (done ++ [j]) i =
            overwrite (foundBy segments done i) (j.seg, j.op) := foundBy_own hfamily hfield
      rw [← hfamily, ← hfield, ← hsame] at h
      have hfollows := (h.found hj).insert hproper hj.compared hj.oneWriter hw
      rw [hnext, ← hsame, ← hfamily, ← hfield]
      exact hfollows.credit
    -- a write of another family takes the owners of the name with it
    · rw [foundBy_family hfamily]
      refine ⟨?_, fun hlast => absurd (hlast j.family rfl) hfamily⟩
      rw [insertInto_family hw (Ne.symm hfamily)]
      exact h.stores
  · rw [if_neg hfield, foundBy_other hfield]
    refine ⟨?_, fun hlast => (h.follows hlast).other hfield hw⟩
    rw [(ownedAt_other hfield hw).1]
    exact h.stores

theorem Auditable.follows {b : CanonicalState} {ops : List Operation} (h : Auditable b ops)
    {before after : List Insertion}
    (hsplit : (inOrder ops).flatMap insertions = before ++ i :: after)
    (hv : before.foldlM insertInto (b.families.segments, ∅) = .ok v) :
    Follows i.family i.field v (foundBy b.families.segments before i) := by
  have hmem : ∀ j ∈ before ++ [i], j ∈ (inOrder ops).flatMap insertions := by
    intro j hj
    rw [hsplit]
    simp only [List.mem_append, List.mem_cons] at hj ⊢
    tauto
  obtain ⟨op, hop, hi⟩ := mem_insertions (hmem i (by simp))
  refine Credit.found ?_ (h.creditable before i after hsplit)
  refine foldlM_invariant (I := fun done v => Credit i.family i.field v
    (foundBy b.families.segments done i) (lastFamily done i.field)) ?_
    (Follows.fresh (h.normal op hop i hi)).credit hv
  intro done j rest s u hdone hcredit hu
  obtain ⟨op', hop', hj'⟩ := mem_insertions (hmem j (by simp [hdone]))
  have hj := h.creditable done j (rest ++ i :: after) (by rw [hsplit, hdone]; simp)
  exact hcredit.step (insertions_proper hj') hj hu

theorem mem_conflictsAlong {is : List Insertion} {c : ConflictRecord}
    (h : is.foldlM insertInto v = .ok w) : c ∈ conflictsAlong v is ↔
      ∃ before i after u, is = before ++ i :: after ∧ before.foldlM insertInto v = .ok u ∧
        c ∈ insertConflicts u i := by
  induction is generalizing v with
  | nil => simp [conflictsAlong]
  | cons i is ih =>
    obtain ⟨u, hu, hrest⟩ := foldlM_cons_ok.mp h
    simp only [conflictsAlong, hu, List.mem_append, ih hrest]
    constructor
    · rintro (hc | ⟨before, j, after, t, rfl, ht, hc⟩)
      · exact ⟨[], i, is, v, rfl, rfl, hc⟩
      · exact ⟨i :: before, j, after, t, rfl, foldlM_cons_ok.mpr ⟨u, hu, ht⟩, hc⟩
    · rintro ⟨before, j, after, t, heq, ht, hc⟩
      cases before with
      | nil =>
        obtain ⟨rfl, rfl⟩ := List.cons.inj heq
        cases ht
        exact Or.inl hc
      | cons k before =>
        obtain ⟨rfl, rfl⟩ := List.cons.inj heq
        obtain ⟨u', hu', ht⟩ := foldlM_cons_ok.mp ht
        obtain rfl := Except.ok.inj (hu.symm.trans hu')
        exact Or.inr ⟨before, j, after, t, rfl, ht, hc⟩

theorem conflictsAlong_append {is js : List Insertion} (h : is.foldlM insertInto v = .ok w) :
    conflictsAlong v (is ++ js) = conflictsAlong v is ++ conflictsAlong w js := by
  induction is generalizing v with
  | nil =>
    cases h
    rfl
  | cons i is ih =>
    obtain ⟨u, hu, hrest⟩ := foldlM_cons_ok.mp h
    simp only [List.cons_append, conflictsAlong, hu, ih hrest, List.append_assoc]

theorem conflictsOf_segment {ops : List Operation} {s x : Families × Fold}
    (h : ops.foldlM foldOperation s = .ok x) :
    conflictsOf (.segment g) x.2.conflicts = conflictsOf (.segment g) s.2.conflicts ++
      conflictsOf (.segment g) (conflictsAlong (viewOf s) (ops.flatMap insertions)) := by
  induction ops generalizing s with
  | nil =>
    cases h
    simp [conflictsAlong, conflictsOf]
  | cons op ops ih =>
    obtain ⟨t, ht, hx⟩ := foldlM_cons_ok.mp h
    have hview := foldOperation_view ht
    rw [ih hx, List.flatMap_cons, conflictsAlong_append hview]
    simp only [conflictsOf, List.filter_append, ← List.append_assoc]
    congr 1
    by_cases hseg : ∃ k, op.sourceFamily = .segment k
    · obtain ⟨k, hk⟩ := hseg
      obtain ⟨u, -, rfl⟩ := (foldOperation_segment hk).mp ht
      exact List.filter_append _ _
    · have hnone : insertions op = [] := by
        unfold insertions
        split
        · exact absurd ⟨_, ‹_›⟩ hseg
        · rfl
      have hother := conflictsOf_other (F := .segment g) (fun hf => hseg ⟨g, hf⟩) ht
      simpa [hnone, conflictsAlong, conflictsOf] using hother

theorem aggregate_family {fold : Fold} {c : ConflictRecord} (hc : c ∈ aggregateConflicts fold) :
    c.sourceFamily ≠ .segment g := by
  have hrace : ∀ {kind F entityId detail writers},
      raceConflict kind F entityId detail writers = some c → c.sourceFamily = F := by
    intro kind F entityId detail writers h
    unfold raceConflict at h
    split at h
    · obtain ⟨winner, -, rfl⟩ := Option.map_eq_some_iff.mp h
      rfl
    · simp at h
  simp only [aggregateConflicts, List.mem_append, List.mem_filterMap, Option.mem_toList] at hc
  rcases hc with (⟨e, -, he⟩ | ⟨e, -, he⟩) | he
  all_goals
    rw [hrace he]
    simp

theorem insertConflicts_names {c : ConflictRecord} (hc : c ∈ insertConflicts v i) :
    c.entityId = some i.field ∧ c.winnerOperationId = i.op.operationId := by
  simp only [insertConflicts] at hc
  split at hc
  · simp at hc
  · obtain ⟨x, -, hx⟩ := List.mem_filterMap.mp hc
    unfold overlapConflict at hx
    split at hx
    · simp at hx
    · split at hx
      · obtain rfl := Option.some.inj hx
        exact ⟨rfl, rfl⟩
      · simp at hx

/-- The records are exact as long as no write meets a run of equal time steps with several
writers. -/
theorem audit_exact {b : CanonicalState} {ops : List Operation} {r : EpochReduction}
    (h : Auditable b ops) (hr : reduceEpoch b ops = .ok r) : Audited b ops r := by
  obtain ⟨-, x, hx, rfl⟩ := reduceEpoch_ok.mp hr
  have hview := foldlM_view hx
  intro g field w l
  have hrecords : ∀ c, c.sourceFamily = .segment g →
      (c ∈ (reduction b (inOrder ops) x).reduced.conflicts ↔
        c ∈ conflictsAlong (b.families.segments, ∅) ((inOrder ops).flatMap insertions)) := by
    intro c hc
    have hown := congrArg (c ∈ ·) (conflictsOf_segment (g := g) hx)
    simp only [conflictsOf, List.mem_append, List.mem_filter, hc, decide_true, and_true,
      List.not_mem_nil, false_or, eq_iff_iff] at hown
    rw [show viewOf (b.families, {}) = (b.families.segments, ∅) from rfl] at hown
    rw [← hown]
    simp only [reduction, List.mem_append, or_iff_left_iff_imp]
    exact fun hagg => absurd hc (aggregate_family hagg)
  have hmeets : ∀ before i after u, (inOrder ops).flatMap insertions = before ++ i :: after →
      before.foldlM insertInto (b.families.segments, ∅) = .ok u →
      ((∃ c ∈ insertConflicts u i, l ∈ c.loserOperationIds) ↔ ∃ t o, i.seg.Contains t ∧
        (foundBy b.families.segments before i t).map Prod.snd = some (some o) ∧
        o.operationId = l ∧ o.actorId ≠ i.op.actorId) := by
    intro before i after u hsplit hu
    have hmem : i ∈ (inOrder ops).flatMap insertions := by simp [hsplit]
    obtain ⟨op, hop, hi⟩ := mem_insertions hmem
    have hfollows := h.follows hsplit hu
    obtain ⟨hone, hcompared, -⟩ := h.creditable before i after hsplit
    rw [hfollows.conflicts hcompared]
    exact hfollows.credited.records (insertions_proper hi) hone _ _ _
  constructor
  · rintro ⟨c, hc, hfamily, hentity, rfl, hl⟩
    obtain ⟨before, i, after, u, hsplit, hu, hc⟩ :=
      (mem_conflictsAlong hview).mp ((hrecords c hfamily).mp hc)
    obtain ⟨hname, hwinner⟩ := insertConflicts_names hc
    refine ⟨before, i, after, hsplit, ?_, ?_, hwinner.symm,
      (hmeets before i after u hsplit hu).mp ⟨c, hc, hl⟩⟩
    · simpa [insertConflicts_family c hc] using hfamily
    · simpa [hname] using hentity
  · rintro ⟨before, i, after, hsplit, rfl, rfl, rfl, hfound⟩
    obtain ⟨u, hu, -⟩ := foldlM_append_ok.mp (hsplit ▸ hview)
    obtain ⟨c, hc, hl⟩ := (hmeets before i after u hsplit hu).mpr hfound
    obtain ⟨hname, hwinner⟩ := insertConflicts_names hc
    have hfamily := insertConflicts_family c hc
    exact ⟨c, (hrecords c hfamily).mpr ((mem_conflictsAlong hview).mpr
      ⟨before, i, after, u, hsplit, hu, hc⟩), hfamily, hname, hwinner, hl⟩

def forcingWrite (n : Nat) (actor : String) (t value : Int) : Operation where
  operationId := toString n
  actorId := actor
  sourceFamily := .segment .meteorologicalForcing
  entityId := none
  verb := .set
  payload := .obj [("time_index", .int t), ("values", .obj [("Ta", .int value)])]
  serverSequence := n
  epochId := 0

theorem SameRun.eq_of_distinct (hT : ∀ t p q, T t = some p → T (t + 1) = some q →
    Json.pyEq p.1 q.1 = false) (h : SameRun T s t) : s = t := by
  obtain ⟨v, hv⟩ := h
  have hnext : ∀ u, (s ≤ u ∧ u ≤ t ∨ t ≤ u ∧ u ≤ s) →
      ¬ (s ≤ u + 1 ∧ u + 1 ≤ t ∨ t ≤ u + 1 ∧ u + 1 ≤ s) := by
    intro u hu hu'
    obtain ⟨p, hp, hpv⟩ := hv u hu
    obtain ⟨q, hq, hqv⟩ := hv (u + 1) hu'
    have heq := Json.pyEq_trans _ _ _ hpv (Json.pyEq_symm _ _ hqv)
    rw [hT u p q hp hq] at heq
    cases heq
  rcases Int.lt_trichotomy s t with hlt | heq | hlt
  · exact absurd (by omega) (hnext s (by omega))
  · exact heq
  · exact absurd (by omega) (hnext t (by omega))

theorem IsRun.of_distinct (hT : ∀ t p q, T t = some p → T (t + 1) = some q →
    Json.pyEq p.1 q.1 = false) {start : Int} {stop : Option Int} (h : IsRun T start stop) :
    stop = some start ∧ T start ≠ none := by
  have hproper := h.proper
  obtain ⟨v, hv⟩ := h.same start (Int.le_refl _) hproper
  obtain ⟨q, hq, -⟩ := hv start (by omega)
  refine ⟨?_, by simp [hq]⟩
  cases stop with
  | none =>
    have hlong := (h.same (start + 1) (by omega) trivial).eq_of_distinct hT
    omega
  | some b =>
    have hlong := (h.same b hproper (Int.le_refl _)).eq_of_distinct hT
    rw [← hlong]

/-- Two neighbouring time steps with different values, the second of them written twice. -/
def rewrittenOps : List Operation :=
  [forcingWrite 1 "ada" 0 5, forcingWrite 2 "bob" 1 6, forcingWrite 3 "ada" 1 7]

def forcingInsert (n : Nat) (actor : String) (t value : Int) : Insertion :=
  ⟨forcingWrite n actor t value, .meteorologicalForcing, "Ta", ⟨t, some t, .int value⟩⟩

theorem rewritten_insertions : (inOrder rewrittenOps).flatMap insertions =
    [forcingInsert 1 "ada" 0 5, forcingInsert 2 "bob" 1 6, forcingInsert 3 "ada" 1 7] := by rfl

/-- What each write finds: five at the first time step and six at the second. -/
theorem rewritten_found {before after : List Insertion} {i : Insertion}
    (hsplit : (inOrder rewrittenOps).flatMap insertions = before ++ i :: after) {t : Int}
    {p : Stamp}
    (hp : foundBy initialState.families.segments before i t = some p) :
    t = 0 ∧ p.1 = .int 5 ∨ t = 1 ∧ p.1 = .int 6 := by
  rw [rewritten_insertions] at hsplit
  match before, hsplit with
  | [], hsplit =>
    obtain ⟨rfl, -⟩ := List.cons.inj hsplit
    cases hp
  | [j], hsplit =>
    obtain ⟨rfl, hrest⟩ := List.cons.inj hsplit
    obtain ⟨rfl, -⟩ := List.cons.inj hrest
    change (if _ then _ else _) = _ at hp
    split at hp
    · rename_i hc
      obtain rfl := Option.some.inj hp
      exact Or.inl ⟨Int.le_antisymm hc.2 hc.1, rfl⟩
    · cases hp
  | [j, k], hsplit =>
    simp only [List.cons_append, List.nil_append, List.cons.injEq] at hsplit
    obtain ⟨rfl, rfl, rfl, -⟩ := hsplit
    change (if _ then _ else if _ then _ else _) = _ at hp
    split at hp
    · rename_i hc
      obtain rfl := Option.some.inj hp
      exact Or.inr ⟨Int.le_antisymm hc.2 hc.1, rfl⟩
    split at hp
    · rename_i hc
      obtain rfl := Option.some.inj hp
      exact Or.inl ⟨Int.le_antisymm hc.2 hc.1, rfl⟩
    · cases hp
  | j :: k :: l :: rest, hsplit => simp at hsplit

theorem rewritten_auditable : Auditable initialState rewrittenOps := by
  refine ⟨fun op hop i hi => ?_, fun before i after hsplit => ?_⟩
  · have hempty : (initialState.families.segments i.family).getD i.field [] = [] :=
      Dict.getD_of_none Std.ExtTreeMap.getElem?_empty _
    rw [hempty]
    exact normal_nil
  have hmem : ∀ j ∈ before ++ i :: after, j.family = .meteorologicalForcing ∧
      ∃ t value n actor, j = forcingInsert n actor t value ∧ (t = 0 ∨ t = 1) := by
    rw [← hsplit, rewritten_insertions]
    simp only [List.mem_cons, List.not_mem_nil, or_false]
    rintro j (rfl | rfl | rfl)
    · exact ⟨rfl, 0, 5, 1, "ada", rfl, Or.inl rfl⟩
    · exact ⟨rfl, 1, 6, 2, "bob", rfl, Or.inr rfl⟩
    · exact ⟨rfl, 1, 7, 3, "ada", rfl, Or.inr rfl⟩
  obtain ⟨hfamily, t, value, n, actor, heq, ht⟩ := hmem i (by simp)
  have hdistinct : ∀ t p q, foundBy initialState.families.segments before i t = some p →
      foundBy initialState.families.segments before i (t + 1) = some q →
      Json.pyEq p.1 q.1 = false := by
    intro t p q hp hq
    obtain ⟨ht, hp⟩ | ⟨ht, hp⟩ := rewritten_found hsplit hp
    all_goals
      obtain ⟨ht', hq⟩ | ⟨ht', hq⟩ := rewritten_found hsplit hq
      all_goals first | omega | (rw [hp, hq]; rfl)
  refine ⟨fun t _ s hs => by rw [hs.eq_of_distinct hdistinct], fun start stop hrun => ?_,
    fun g hg hne => ?_⟩
  · obtain ⟨rfl, hheld⟩ := hrun.of_distinct hdistinct
    obtain ⟨p, hp⟩ := Option.ne_none_iff_exists'.mp hheld
    refine overlapsFloat_sharp ?_ ?_
    · rintro b hb
      rw [heq] at hb
      obtain rfl := Option.some.inj hb
      exact doubleOf_exact (by rcases ht with rfl | rfl <;> decide)
    · rintro b hb
      obtain rfl := Option.some.inj hb
      exact doubleOf_exact (by rcases rewritten_found hsplit hp with ⟨rfl, -⟩ | ⟨rfl, -⟩ <;> decide)
  · obtain ⟨j, hj, rfl⟩ := Option.map_eq_some_iff.mp hg
    have hlast := (hmem j (by
      simp [List.mem_reverse.mp (List.mem_of_find?_eq_some hj)])).1
    exact absurd (hlast.trans hfamily.symm) hne

theorem rewritten_step : ∃ r, reduceEpoch initialState rewrittenOps = .ok r ∧
    Audited initialState rewrittenOps r := by
  obtain ⟨r, hr⟩ := except_of_isOk (x := reduceEpoch initialState rewrittenOps) (by decide +kernel)
  exact ⟨r, hr, audit_exact rewritten_auditable hr⟩

/-- One value at two time steps by two actors, then the second one overwritten. -/
def mergedOps : List Operation :=
  [forcingWrite 1 "ada" 0 5, forcingWrite 2 "bob" 1 5, forcingWrite 3 "ada" 1 7]

theorem merged_owner_lost :
    ∃ r, reduceEpoch initialState mergedOps = .ok r ∧ ¬ Audited initialState mergedOps r := by
  have hconflicts : (reduceEpoch initialState mergedOps).map (fun r => r.reduced.conflicts.length) =
      .ok 0 := by decide +kernel
  obtain ⟨r, hr, hlength⟩ := except_map_ok.mp hconflicts
  refine ⟨r, hr, fun h => ?_⟩
  obtain ⟨c, hc, -⟩ := (h .meteorologicalForcing "Ta" "3" "2").mpr
    ⟨[⟨forcingWrite 1 "ada" 0 5, .meteorologicalForcing, "Ta", ⟨0, some 0, .int 5⟩⟩,
        ⟨forcingWrite 2 "bob" 1 5, .meteorologicalForcing, "Ta", ⟨1, some 1, .int 5⟩⟩],
      ⟨forcingWrite 3 "ada" 1 7, .meteorologicalForcing, "Ta", ⟨1, some 1, .int 7⟩⟩, [],
      by rfl, rfl, rfl, rfl, 1, forcingWrite 2 "bob" 1 5, by simp [Contains, atMost], by rfl, rfl,
      by decide⟩
  rw [List.length_eq_zero_iff.mp hlength] at hc
  cases hc

end Solweig.Realtime
