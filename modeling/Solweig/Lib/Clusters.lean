import Mathlib.Data.List.Nodup
import Mathlib.Data.List.Pairwise
import Mathlib.Data.List.Induction
import Mathlib.Data.List.Perm.Basic

/-!
# Clusters

Items that meet are joined until none of them meet. Where joins are least upper bounds and larger
items meet more, the clusters do not depend on the order of the items: they are the least items
that cover the given ones and stay apart.
-/

namespace Solweig.Lib

variable {α : Type}

section Loops

variable (meets : α → α → Bool) (join : α → α → α)

/-- One look through the clusters: the candidate takes in those that it meets. -/
def clusterLook (candidate : α) (clusters : List α) : α × List α :=
  clusters.foldl (fun s existing =>
    if meets s.1 existing then (join s.1 existing, s.2) else (s.1, s.2 ++ [existing]))
    (candidate, [])

/-- Looks again until nothing is taken in; `none` when the fuel does not last. -/
def clusterIn : Nat → α → List α → Option (List α)
  | 0, _, _ => none
  | fuel + 1, candidate, clusters =>
    let (candidate', retained) := clusterLook meets join candidate clusters
    if retained.length = clusters.length then some (retained ++ [candidate'])
    else clusterIn fuel candidate' retained

/-- The items join the clusters one by one. -/
def clusterAll (fuel : Nat) (items : List α) : Option (List α) :=
  items.foldlM (fun clusters item => clusterIn meets join fuel item clusters) []

end Loops

/-- `join` gives least upper bounds of good items, and what meets still meets when it grows. -/
structure Joins (Good : α → Prop) (le : α → α → Prop) (meets : α → α → Bool)
    (join : α → α → α) : Prop where
  refl : ∀ a, le a a
  trans : ∀ {a b c}, le a b → le b c → le a c
  symm : ∀ {a b}, meets a b = true → meets b a = true
  grow : ∀ {a b c d}, meets a b = true → le a c → le b d → meets c d = true
  itself : ∀ {a}, Good a → meets a a = true
  good : ∀ {a b}, Good a → Good b → Good (join a b)
  left : ∀ {a b}, Good a → le a (join a b)
  right : ∀ {a b}, Good b → le b (join a b)
  least : ∀ {a b c}, le a c → le b c → le (join a b) c

/-- No two of the items meet. -/
def Separate (meets : α → α → Bool) (items : List α) : Prop :=
  items.Pairwise fun a b => meets a b = false

/-- Each of the items is inside one of the others. -/
def CoveredBy (le : α → α → Prop) (items cover : List α) : Prop :=
  ∀ item ∈ items, ∃ c ∈ cover, le item c

/-- The least separate cover of the items. -/
structure Clustered (Good : α → Prop) (le : α → α → Prop) (meets : α → α → Bool)
    (items clusters : List α) : Prop where
  good : ∀ c ∈ clusters, Good c
  separate : Separate meets clusters
  covers : CoveredBy le items clusters
  least : ∀ cover, Separate meets cover → CoveredBy le items cover →
    CoveredBy le clusters cover

section Separate

variable {Good : α → Prop} {le : α → α → Prop} {meets : α → α → Bool} {join : α → α → α}
  {items clusters : List α}

theorem Separate.eq_of_meets (hJ : Joins Good le meets join) (h : Separate meets items) {a b : α}
    (ha : a ∈ items) (hb : b ∈ items) (hab : meets a b = true) : a = b := by
  by_contra hne
  have : Std.Symm fun a b => meets a b = false := by
    refine ⟨fun x y hxy => ?_⟩
    by_contra hyx
    rw [Bool.not_eq_false] at hyx
    rw [hJ.symm hyx] at hxy
    cases hxy
  have hapart := List.Pairwise.forall h ha hb hne
  rw [hab] at hapart
  cases hapart

theorem Separate.perm (hJ : Joins Good le meets join) {other : List α} (h : Separate meets items)
    (hperm : other.Perm items) : Separate meets other := by
  refine (hperm.pairwise_iff fun {a b} hab => ?_).mpr h
  by_contra hba
  rw [Bool.not_eq_false] at hba
  rw [hJ.symm hba] at hab
  cases hab

theorem Separate.nodup (hJ : Joins Good le meets join) (hgood : ∀ a ∈ items, Good a)
    (h : Separate meets items) : items.Nodup := by
  refine List.Pairwise.imp_of_mem (fun {a b} ha _ hab heq => ?_) h
  rw [← heq, hJ.itself (hgood a ha)] at hab
  cases hab

theorem CoveredBy.trans (hJ : Joins Good le meets join) {middle cover : List α}
    (h : CoveredBy le items middle) (h' : CoveredBy le middle cover) :
    CoveredBy le items cover := by
  intro item hitem
  obtain ⟨m, hm, hle⟩ := h item hitem
  obtain ⟨c, hc, hle'⟩ := h' m hm
  exact ⟨c, hc, hJ.trans hle hle'⟩

theorem Separate.unique (hJ : Joins Good le meets join) (h : Separate meets clusters) {item a b : α}
    (hitem : Good item) (ha : a ∈ clusters) (hb : b ∈ clusters) (hla : le item a)
    (hlb : le item b) : a = b :=
  h.eq_of_meets hJ ha hb (hJ.grow (hJ.itself hitem) hla hlb)

end Separate

/-! ## One look -/

/-- What one look through `clusters` leaves: the candidate has grown over what it has taken in. -/
structure Looked (le : α → α → Prop) (meets : α → α → Bool) (candidate : α) (clusters : List α)
    (candidate' : α) (retained : List α) : Prop where
  sub : retained.Sublist clusters
  grows : le candidate candidate'
  covers : ∀ c ∈ clusters, c ∈ retained ∨ le c candidate'
  least : ∀ cover, Separate meets cover → CoveredBy le (candidate :: clusters) cover →
    ∃ c ∈ cover, le candidate' c
  settled : retained.length = clusters.length →
    candidate' = candidate ∧ ∀ c ∈ clusters, meets candidate c = false

section Runs

variable {Good : α → Prop} {le : α → α → Prop} {meets : α → α → Bool} {join : α → α → α}

theorem clusterLook_spec (hJ : Joins Good le meets join) {candidate : α} {clusters : List α}
    (hcandidate : Good candidate) (hclusters : ∀ c ∈ clusters, Good c) :
    Good (clusterLook meets join candidate clusters).1 ∧
      Looked le meets candidate clusters (clusterLook meets join candidate clusters).1
        (clusterLook meets join candidate clusters).2 := by
  suffices h : ∀ kept, ∃ candidate' retained, clusters.foldl (fun s existing =>
      if meets s.1 existing then (join s.1 existing, s.2) else (s.1, s.2 ++ [existing]))
      (candidate, kept) = (candidate', kept ++ retained) ∧ Good candidate' ∧
        Looked le meets candidate clusters candidate' retained by
    obtain ⟨candidate', retained, heq, hlooked⟩ := h []
    unfold clusterLook
    rw [heq]
    exact hlooked
  induction clusters generalizing candidate with
  | nil =>
    intro kept
    refine ⟨candidate, [], by simp, hcandidate, List.Sublist.refl _, hJ.refl _, by simp, ?_,
      by simp⟩
    exact fun cover _ hcover => hcover candidate (by simp)
  | cons existing rest ih =>
    intro kept
    obtain ⟨hexisting, hrest⟩ := List.forall_mem_cons.mp hclusters
    rw [List.foldl_cons]
    by_cases hmeets : meets candidate existing = true
    · -- the cluster is taken in, and the look is not the last
      have hgrows : le candidate (join candidate existing) := hJ.left hcandidate
      have hinside : le existing (join candidate existing) := hJ.right hexisting
      obtain ⟨candidate', retained, heq, hgood, h⟩ := ih (hJ.good hcandidate hexisting) hrest kept
      refine ⟨candidate', retained, by simpa only [hmeets, if_true] using heq, hgood, ?_⟩
      refine ⟨h.sub.cons existing, hJ.trans hgrows h.grows, ?_, ?_, ?_⟩
      · exact List.forall_mem_cons.mpr ⟨Or.inr (hJ.trans hinside h.grows), h.covers⟩
      · intro cover hseparate hcover
        obtain ⟨hfirst, hothers⟩ := List.forall_mem_cons.mp hcover
        obtain ⟨hsecond, hothers⟩ := List.forall_mem_cons.mp hothers
        obtain ⟨c, hc, hle⟩ := hfirst
        obtain ⟨d, hd, hle'⟩ := hsecond
        obtain rfl := hseparate.eq_of_meets hJ hc hd (hJ.grow hmeets hle hle')
        exact h.least cover hseparate
          (List.forall_mem_cons.mpr ⟨⟨c, hc, hJ.least hle hle'⟩, hothers⟩)
      · intro hlength
        have := h.sub.length_le
        simp only [List.length_cons] at hlength
        omega
    · obtain ⟨candidate', retained, heq, hgood, h⟩ := ih hcandidate hrest (kept ++ [existing])
      rw [Bool.not_eq_true] at hmeets
      refine ⟨candidate', existing :: retained, by simpa [hmeets] using heq, hgood, ?_⟩
      refine ⟨h.sub.cons_cons existing, h.grows, ?_, ?_, ?_⟩
      · refine List.forall_mem_cons.mpr ⟨Or.inl List.mem_cons_self, fun c hc => ?_⟩
        exact (h.covers c hc).imp_left (List.mem_cons_of_mem existing)
      · intro cover hseparate hcover
        apply h.least cover hseparate
        intro item hitem
        apply hcover
        simp only [List.mem_cons] at hitem ⊢
        tauto
      · intro hlength
        obtain ⟨hsame, hapart⟩ := h.settled (by simpa using hlength)
        exact ⟨hsame, List.forall_mem_cons.mpr ⟨hmeets, hapart⟩⟩

/-! ## All of them -/

/-- The looks end with a candidate that stays apart from all that is left. Each look but the last
one takes in a cluster, so there are at most as many as there are clusters. -/
theorem clusterIn_spec (hJ : Joins Good le meets join) {candidate : α} {fuel : Nat}
    {clusters : List α} (hfuel : clusters.length < fuel) (hcandidate : Good candidate)
    (hclusters : ∀ c ∈ clusters, Good c) (hseparate : Separate meets clusters) :
    ∃ result, clusterIn meets join fuel candidate clusters = some result ∧
      result.length ≤ clusters.length + 1 ∧
      Clustered Good le meets (candidate :: clusters) result := by
  induction fuel generalizing candidate clusters with
  | zero => omega
  | succ fuel ih =>
    obtain ⟨hgood, h⟩ := clusterLook_spec hJ hcandidate hclusters
    rw [clusterIn]
    generalize clusterLook meets join candidate clusters = look at hgood h
    obtain ⟨candidate', retained⟩ := look
    dsimp only at hgood h ⊢
    have hretained : ∀ c ∈ retained, Good c := fun c hc => hclusters c (h.sub.subset hc)
    have hstep : CoveredBy le (candidate :: clusters) (candidate' :: retained) := by
      refine List.forall_mem_cons.mpr ⟨⟨candidate', List.mem_cons_self, h.grows⟩, fun c hc => ?_⟩
      rcases h.covers c hc with hkept | hinside
      · exact ⟨c, List.mem_cons_of_mem _ hkept, hJ.refl c⟩
      · exact ⟨candidate', List.mem_cons_self, hinside⟩
    have hleast : ∀ cover, Separate meets cover → CoveredBy le (candidate :: clusters) cover →
        CoveredBy le (candidate' :: retained) cover := by
      intro cover hapart hcover
      refine List.forall_mem_cons.mpr ⟨h.least cover hapart hcover, fun c hc => ?_⟩
      exact hcover c (List.mem_cons_of_mem _ (h.sub.subset hc))
    have hshorter := h.sub.length_le
    split
    · rename_i hlength
      obtain ⟨rfl, hclear⟩ := h.settled hlength
      have hperm := List.perm_append_singleton candidate' retained
      have hcons : Separate meets (candidate' :: retained) :=
        List.pairwise_cons.mpr
          ⟨fun c hc => hclear c (h.sub.subset hc), hseparate.sublist h.sub⟩
      refine ⟨_, rfl, by simp [hlength], ?_, hcons.perm hJ hperm, ?_, ?_⟩
      · intro c hc
        rcases List.mem_cons.mp (hperm.mem_iff.mp hc) with rfl | hc
        · exact hgood
        · exact hretained c hc
      · intro item hitem
        obtain ⟨c, hc, hle⟩ := hstep item hitem
        exact ⟨c, hperm.mem_iff.mpr hc, hle⟩
      · intro cover hapart hcover c hc
        exact hleast cover hapart hcover c (hperm.mem_iff.mp hc)
    · obtain ⟨result, hresult, hlength, hrest⟩ := ih (by omega) hgood hretained
        (hseparate.sublist h.sub)
      refine ⟨result, hresult, by omega, hrest.good, hrest.separate,
        hstep.trans hJ hrest.covers, fun cover hapart hcover => ?_⟩
      exact hrest.least cover hapart (hleast cover hapart hcover)

theorem clusterAll_spec (hJ : Joins Good le meets join) {fuel : Nat} {items : List α}
    (hfuel : items.length < fuel) (hitems : ∀ item ∈ items, Good item) :
    ∃ clusters, clusterAll meets join fuel items = some clusters ∧
      clusters.length ≤ items.length ∧ Clustered Good le meets items clusters := by
  unfold clusterAll
  induction items using List.reverseRecOn with
  | nil =>
    exact ⟨[], rfl, Nat.le_refl _, by simp, List.Pairwise.nil, by simp [CoveredBy],
      by simp [CoveredBy]⟩
  | append_singleton before last ih =>
    obtain ⟨hbefore, hlast⟩ := List.forall_mem_append.mp hitems
    rw [List.length_append, List.length_singleton] at hfuel
    obtain ⟨clusters, hclusters, hlength, hprev⟩ := ih (by omega) hbefore
    obtain ⟨result, hresult, hmore, hnext⟩ := clusterIn_spec hJ (by omega : clusters.length < fuel)
      (hlast last (by simp)) hprev.good hprev.separate
    refine ⟨result, by simp [List.foldlM_append, hclusters, hresult], by simp; omega, hnext.good,
      hnext.separate, ?_, ?_⟩
    · refine List.forall_mem_append.mpr ⟨fun item hitem => ?_, fun item hitem => ?_⟩
      · obtain ⟨c, hc, hle⟩ := hprev.covers item hitem
        obtain ⟨d, hd, hle'⟩ := hnext.covers c (List.mem_cons_of_mem _ hc)
        exact ⟨d, hd, hJ.trans hle hle'⟩
      · obtain rfl := List.mem_singleton.mp hitem
        exact hnext.covers item List.mem_cons_self
    · intro cover hapart hcover
      obtain ⟨hfirst, hothers⟩ := List.forall_mem_append.mp hcover
      exact hnext.least cover hapart
        (List.forall_mem_cons.mpr ⟨hothers last (by simp), hprev.least cover hapart hfirst⟩)

end Runs

/-! ## The clusters are canonical -/

section Canonical

variable {Good : α → Prop} {le : α → α → Prop} {meets : α → α → Bool} {join : α → α → α}
  {items others clusters clusters' : List α}

theorem Clustered.of_perm (hperm : others.Perm items) (h : Clustered Good le meets items clusters) :
    Clustered Good le meets others clusters where
  good := h.good
  separate := h.separate
  covers := fun item hitem => h.covers item (hperm.mem_iff.mp hitem)
  least := fun cover hapart hcover => h.least cover hapart fun item hitem =>
    hcover item (hperm.mem_iff.mpr hitem)

theorem Clustered.perm (hJ : Joins Good le meets join) (hperm : clusters'.Perm clusters)
    (h : Clustered Good le meets items clusters) : Clustered Good le meets items clusters' where
  good := fun c hc => h.good c (hperm.mem_iff.mp hc)
  separate := h.separate.perm hJ hperm
  covers := by
    intro item hitem
    obtain ⟨c, hc, hle⟩ := h.covers item hitem
    exact ⟨c, hperm.mem_iff.mpr hc, hle⟩
  least := fun cover hapart hcover c hc => h.least cover hapart hcover c (hperm.mem_iff.mp hc)

theorem Clustered.subset (hJ : Joins Good le meets join)
    (hantisymm : ∀ a b, le a b → le b a → a = b) (h : Clustered Good le meets items clusters)
    (h' : Clustered Good le meets items clusters') : clusters ⊆ clusters' := by
  intro c hc
  obtain ⟨d, hd, hcd⟩ := h.least clusters' h'.separate h'.covers c hc
  obtain ⟨e, he, hde⟩ := h'.least clusters h.separate h.covers d hd
  have hce := hJ.trans hcd hde
  obtain rfl := h.separate.eq_of_meets hJ hc he
    (hJ.grow (hJ.itself (h.good c hc)) (hJ.refl c) hce)
  rw [hantisymm c d hcd hde]
  exact hd

theorem Clustered.unique (hJ : Joins Good le meets join)
    (hantisymm : ∀ a b, le a b → le b a → a = b) (h : Clustered Good le meets items clusters)
    (h' : Clustered Good le meets items clusters') : clusters.Perm clusters' := by
  apply (List.perm_ext_iff_of_nodup (h.separate.nodup hJ h.good)
    (h'.separate.nodup hJ h'.good)).mpr
  exact fun c => ⟨fun hc => h.subset hJ hantisymm h' hc, fun hc => h'.subset hJ hantisymm h hc⟩

end Canonical

end Solweig.Lib
