import Mathlib.Algebra.Order.Floor.Ring
import Mathlib.Data.Finset.Sort
import Mathlib.Data.Int.Range
import Mathlib.Order.Interval.Set.Basic
import Solweig.Lib.Dict

/-!
# Buckets

An index that files each entry under all the keys it covers and then looks only at what is
filed under the keys of a query; and the keys of closed intervals on a line that is cut into
buckets of one size. Two intervals with a common point have a common bucket.
-/

namespace Solweig.Lib

/-! ## Buckets of a line -/

section Line

variable {K : Type} [Field K] [LinearOrder K] [FloorRing K]

/-- The buckets that a closed interval reaches. -/
def bucketRange (size lo hi : K) : List Int := Int.range ⌊lo / size⌋ (⌊hi / size⌋ + 1)

theorem mem_bucketRange {size lo hi : K} {b : Int} :
    b ∈ bucketRange size lo hi ↔ ⌊lo / size⌋ ≤ b ∧ b ≤ ⌊hi / size⌋ := by
  unfold bucketRange
  rw [Int.mem_range_iff, Int.lt_add_one_iff]

variable [IsStrictOrderedRing K]

theorem floor_mem_bucketRange {size lo hi x : K} (hsize : 0 < size) (hx : x ∈ Set.Icc lo hi) :
    ⌊x / size⌋ ∈ bucketRange size lo hi := by
  rw [mem_bucketRange]
  constructor
  · apply Int.floor_mono
    exact div_le_div_of_nonneg_right hx.1 hsize.le
  · apply Int.floor_mono
    exact div_le_div_of_nonneg_right hx.2 hsize.le

end Line

/-! ## Closed intervals -/

section Interval

variable {K : Type} [LinearOrder K]

theorem exists_mem_Icc_iff {a b c d : K} (hab : a ≤ b) (hcd : c ≤ d) :
    (∃ x, x ∈ Set.Icc a b ∧ x ∈ Set.Icc c d) ↔ ¬ (b < c ∨ d < a) := by
  have hmeet : (∃ x, x ∈ Set.Icc a b ∧ x ∈ Set.Icc c d) ↔ (Set.Icc a b ∩ Set.Icc c d).Nonempty :=
    Iff.rfl
  rw [hmeet, Set.Icc_inter_Icc, Set.nonempty_Icc, sup_le_iff, le_inf_iff, le_inf_iff, not_or,
    not_lt, not_lt]
  tauto

/-- The nearest value of an interval, as `min(max(x, lo), hi)`. -/
def clamp (x lo hi : K) : K := min (max x lo) hi

theorem clamp_mem {x lo hi : K} (h : lo ≤ hi) : clamp x lo hi ∈ Set.Icc lo hi :=
  ⟨le_min (le_max_right x lo) h, min_le_right _ _⟩

end Interval

theorem clamp_nearest {K : Type} [Field K] [LinearOrder K] [IsStrictOrderedRing K] {x lo hi y : K}
    (hy : y ∈ Set.Icc lo hi) : |clamp x lo hi - x| ≤ |y - x| := by
  obtain ⟨hlo, hhi⟩ := hy
  unfold clamp
  rcases le_total x lo with hx | hx
  · rw [max_eq_right hx, min_eq_left (hlo.trans hhi), abs_of_nonneg (sub_nonneg.mpr hx),
      abs_of_nonneg (sub_nonneg.mpr (hx.trans hlo))]
    exact sub_le_sub_right hlo x
  · rw [max_eq_left hx]
    rcases le_total x hi with hxhi | hxhi
    · simp [min_eq_left hxhi]
    · rw [min_eq_right hxhi, abs_of_nonpos (sub_nonpos.mpr hxhi),
        abs_of_nonpos (sub_nonpos.mpr (hhi.trans hxhi))]
      exact neg_le_neg (sub_le_sub_right hhi x)

/-! ## The index -/

section Index

variable {κ ι ε : Type} [Ord κ] [Std.TransOrd κ] [Std.LawfulEqOrd κ] [DecidableEq ι]

/-- `d.setdefault(k, set()).add(i)` -/
def Dict.addTo (d : Dict κ (Finset ι)) (k : κ) (i : ι) : Dict κ (Finset ι) :=
  d.insert k (insert i (d.getD k ∅))

theorem mem_getD_addTo {d : Dict κ (Finset ι)} {k a : κ} {i j : ι} :
    j ∈ (d.addTo k i).getD a ∅ ↔ j ∈ d.getD a ∅ ∨ (a = k ∧ j = i) := by
  unfold Dict.addTo
  by_cases h : k = a
  · subst h
    rw [Dict.getD_of_some Std.ExtTreeMap.getElem?_insert_self, Finset.mem_insert]
    tauto
  · rw [Dict.getD_insert_of_ne _ _ _ h]
    simp [Ne.symm h]

/-- Every entry filed under each key that it covers. -/
def fileUnder (keys : ε → List κ) (name : ε → ι) (entries : List ε) : Dict κ (Finset ι) :=
  entries.foldl (fun d e => (keys e).foldl (fun d k => d.addTo k (name e)) d) ∅

variable {keys : ε → List κ} {name : ε → ι} {entries : List ε} {i : ι}

theorem mem_getD_addAll {d : Dict κ (Finset ι)} {ks : List κ} {a : κ} {j : ι} :
    j ∈ (ks.foldl (fun d k => d.addTo k i) d).getD a ∅ ↔ j ∈ d.getD a ∅ ∨ (a ∈ ks ∧ j = i) := by
  induction ks generalizing d with
  | nil => simp
  | cons k ks ih =>
    rw [List.foldl_cons, ih, mem_getD_addTo, List.mem_cons]
    tauto

theorem mem_fileUnder {k : κ} :
    i ∈ (fileUnder keys name entries).getD k ∅ ↔ ∃ e ∈ entries, k ∈ keys e ∧ name e = i := by
  unfold fileUnder
  induction entries using List.reverseRecOn with
  | nil => simp
  | append_singleton entries last ih =>
    rw [List.foldl_append, List.foldl_cons, List.foldl_nil, mem_getD_addAll, ih]
    constructor
    · rintro (⟨e, he, hfiled⟩ | ⟨hk, rfl⟩)
      · exact ⟨e, List.mem_append_left _ he, hfiled⟩
      · exact ⟨last, by simp, hk, rfl⟩
    · rintro ⟨e, he, hk, hname⟩
      rcases List.mem_append.mp he with he | he
      · exact Or.inl ⟨e, he, hk, hname⟩
      · obtain rfl := List.mem_singleton.mp he
        exact Or.inr ⟨hk, hname.symm⟩

/-- What some buckets hold between them. -/
def gather (bucket : κ → List ι) (query : List κ) : Finset ι :=
  query.foldl (fun found k => found ∪ (bucket k).toFinset) ∅

omit [Ord κ] [Std.TransOrd κ] [Std.LawfulEqOrd κ] in
theorem mem_gather {bucket : κ → List ι} {query : List κ} :
    i ∈ gather bucket query ↔ ∃ k ∈ query, i ∈ bucket k := by
  unfold gather
  induction query using List.reverseRecOn with
  | nil => simp
  | append_singleton query last ih =>
    rw [List.foldl_append, List.foldl_cons, List.foldl_nil, Finset.mem_union, ih,
      List.mem_toFinset]
    simp [or_and_right, exists_or]

end Index

/-- Buckets that are frozen as sorted lists. -/
def freeze {κ ι : Type} [Ord κ] [Std.TransOrd κ] [LinearOrder ι] (d : Dict κ (Finset ι)) :
    Dict κ (List ι) :=
  d.map fun _ ids => ids.sort (· ≤ ·)

theorem mem_getD_freeze {κ ι : Type} [Ord κ] [Std.TransOrd κ] [Std.LawfulEqOrd κ] [LinearOrder ι]
    {d : Dict κ (Finset ι)} {k : κ} {i : ι} : i ∈ (freeze d).getD k [] ↔ i ∈ d.getD k ∅ := by
  unfold freeze
  rw [Std.ExtTreeMap.getD_map, Std.ExtTreeMap.getD_eq_getD_getElem?]
  cases d[k]? with
  | none => simp
  | some ids => simp

end Solweig.Lib
