import Mathlib.Data.List.Induction
import Mathlib.Data.List.Sort

/-!
# Finite maps

The extensional tree maps of the standard library, with the operations that a program in a
scripting language uses on its dictionaries. Two of these maps are equal exactly when they
look up alike, and they list their entries in key order.
-/

namespace Solweig.Lib

-- pairs are keys too, in lexicographic order
attribute [instance] lexOrd

abbrev Dict (κ α : Type) [Ord κ] := Std.ExtTreeMap κ α compare

namespace Dict

variable {κ α : Type} [Ord κ] [Std.TransOrd κ]

/-- Later entries win, as in a dictionary display. -/
def ofEntries (entries : List (κ × α)) : Dict κ α :=
  entries.foldl (fun d e => d.insert e.1 e.2) ∅

/-- `d.setdefault(k, []).append(v)` -/
def push (d : Dict κ (List α)) (k : κ) (v : α) : Dict κ (List α) :=
  d.insert k (d.getD k [] ++ [v])

theorem getD_of_some {d : Dict κ α} {k : κ} {v : α} (h : d[k]? = some v) (fallback : α) :
    d.getD k fallback = v := by
  rw [Std.ExtTreeMap.getD_eq_getD_getElem?, h, Option.getD_some]

theorem getD_of_none {d : Dict κ α} {k : κ} (h : d[k]? = none) (fallback : α) :
    d.getD k fallback = fallback := by
  rw [Std.ExtTreeMap.getD_eq_getD_getElem?, h, Option.getD_none]

theorem of_getElem?_erase {d : Dict κ α} {k a : κ} {x : α} (h : (d.erase k)[a]? = some x) :
    d[a]? = some x := by
  rw [Std.ExtTreeMap.getElem?_erase] at h
  split at h
  · simp at h
  · exact h

variable [Std.LawfulEqOrd κ]

theorem getElem?_insert_of_ne (d : Dict κ α) {k a : κ} (v : α) (h : k ≠ a) :
    (d.insert k v)[a]? = d[a]? := by
  rw [Std.ExtTreeMap.getElem?_insert, if_neg]
  simpa [Std.compare_eq_iff_eq] using h

theorem getElem?_erase_of_ne (d : Dict κ α) {k a : κ} (h : k ≠ a) :
    (d.erase k)[a]? = d[a]? := by
  rw [Std.ExtTreeMap.getElem?_erase, if_neg]
  simpa [Std.compare_eq_iff_eq] using h

theorem of_getElem?_insert {d : Dict κ α} {k a : κ} {v x : α} (h : (d.insert k v)[a]? = some x) :
    (k = a ∧ v = x) ∨ d[a]? = some x := by
  by_cases hk : k = a
  · subst hk
    rw [Std.ExtTreeMap.getElem?_insert_self] at h
    exact Or.inl ⟨rfl, Option.some.inj h⟩
  · rw [getElem?_insert_of_ne d v hk] at h
    exact Or.inr h

theorem getD_insert_of_ne (d : Dict κ α) {k a : κ} (v fallback : α) (h : k ≠ a) :
    (d.insert k v).getD a fallback = d.getD a fallback := by
  simp only [Std.ExtTreeMap.getD_eq_getD_getElem?, getElem?_insert_of_ne d v h]

theorem getElem?_ofEntries_map [DecidableEq κ] (f : κ → α) (keys : List κ) (k : κ) :
    (ofEntries (keys.map fun k => (k, f k)))[k]? = if k ∈ keys then some (f k) else none := by
  unfold ofEntries
  induction keys using List.reverseRecOn with
  | nil => simp
  | append_singleton keys last ih =>
    rw [List.map_append, List.foldl_append]
    by_cases hk : last = k
    · subst hk
      simp
    · simp [getElem?_insert_of_ne _ _ hk, ih, Ne.symm hk]

@[simp]
theorem getElem?_push_self (d : Dict κ (List α)) (k : κ) (v : α) :
    (d.push k v)[k]? = some (d.getD k [] ++ [v]) := by
  simp [push]

theorem getElem?_push_of_ne (d : Dict κ (List α)) {k a : κ} (v : α) (h : k ≠ a) :
    (d.push k v)[a]? = d[a]? :=
  getElem?_insert_of_ne d _ h

theorem getElem?_foldl_push {ε : Type} [DecidableEq κ] (key : ε → κ) (val : ε → α) (l : List ε)
    (k : κ) :
    (l.foldl (fun d e => d.push (key e) (val e)) (∅ : Dict κ (List α)))[k]? =
      if ∃ e ∈ l, key e = k then some ((l.filter fun e => key e = k).map val) else none := by
  induction l using List.reverseRecOn with
  | nil => simp
  | append_singleton l last ih =>
    rw [List.foldl_append, List.foldl_cons, List.foldl_nil]
    by_cases hk : key last = k
    · subst hk
      have hlast : ∃ e ∈ l ++ [last], key e = key last := ⟨last, by simp, rfl⟩
      rw [getElem?_push_self, Std.ExtTreeMap.getD_eq_getD_getElem?, ih, if_pos hlast]
      split
      · simp
      · rename_i hnone
        have hempty : l.filter (fun e => key e = key last) = [] := by
          simpa using hnone
        simp [hempty]
    · rw [getElem?_push_of_ne _ _ hk, ih]
      simp [hk]

/-- A value written under each item's key: where all items of a key agree, theirs is the value. -/
theorem getElem?_foldl_insert {ε : Type} [DecidableEq κ] {key : ε → κ} {val : ε → α} {l : List ε}
    {d : Dict κ α} {k : κ} {v : α} (h : ∀ e ∈ l, key e = k → val e = v) :
    (l.foldl (fun d e => d.insert (key e) (val e)) d)[k]? =
      if ∃ e ∈ l, key e = k then some v else d[k]? := by
  induction l using List.reverseRecOn with
  | nil => simp
  | append_singleton l last ih =>
    have hfirst := ih fun e he => h e (List.mem_append_left _ he)
    rw [List.foldl_append, List.foldl_cons, List.foldl_nil]
    by_cases hk : key last = k
    · have hlast : ∃ e ∈ l ++ [last], key e = k := ⟨last, by simp, hk⟩
      rw [if_pos hlast, ← h last (by simp) hk, hk, Std.ExtTreeMap.getElem?_insert_self]
    · rw [getElem?_insert_of_ne _ _ hk, hfirst]
      simp [hk]

theorem getElem?_foldl_insert_of_ne {ε : Type} {key : ε → κ} {val : ε → α} {l : List ε}
    {d : Dict κ α} {k : κ} (h : ∀ e ∈ l, key e ≠ k) :
    (l.foldl (fun d e => d.insert (key e) (val e)) d)[k]? = d[k]? := by
  induction l generalizing d with
  | nil => rfl
  | cons e l ih =>
    obtain ⟨hfirst, hrest⟩ := List.forall_mem_cons.mp h
    rw [List.foldl_cons, ih hrest, getElem?_insert_of_ne _ _ hfirst]

theorem getElem?_foldl_over [DecidableEq κ] (upper d : Dict κ α) (k : κ) :
    (upper.foldl (fun d k v => d.insert k v) d)[k]? = upper[k]?.or d[k]? := by
  rw [Std.ExtTreeMap.foldl_eq_foldl_toList]
  rcases hk : upper[k]? with _ | v
  · rw [getElem?_foldl_insert_of_ne]
    · rfl
    · rintro e he rfl
      rw [Std.ExtTreeMap.mem_toList_iff_getElem?_eq_some, hk] at he
      cases he
  · rw [getElem?_foldl_insert (v := v), if_pos]
    · rfl
    · exact ⟨(k, v), Std.ExtTreeMap.mem_toList_iff_getElem?_eq_some.mpr hk, rfl⟩
    · rintro e he rfl
      rw [Std.ExtTreeMap.mem_toList_iff_getElem?_eq_some, hk] at he
      exact (Option.some.inj he).symm

theorem ofEntries_toList [DecidableEq κ] (d : Dict κ α) : ofEntries d.toList = d := by
  apply Std.ExtTreeMap.ext_getElem?
  intro k
  unfold ofEntries
  rcases hk : d[k]? with _ | v
  · rw [getElem?_foldl_insert_of_ne]
    · exact Std.ExtTreeMap.getElem?_empty
    · intro e he heq
      have hsome := Std.ExtTreeMap.mem_toList_iff_getElem?_eq_some.mp he
      rw [heq, hk] at hsome
      cases hsome
  · rw [getElem?_foldl_insert (v := v), if_pos]
    · exact ⟨(k, v), Std.ExtTreeMap.mem_toList_iff_getElem?_eq_some.mpr hk, rfl⟩
    · intro e he heq
      have hsome := Std.ExtTreeMap.mem_toList_iff_getElem?_eq_some.mp he
      rw [heq, hk, Option.some.injEq] at hsome
      exact hsome.symm

theorem ofEntries_map_toList {β : Type} [DecidableEq κ] (f : α → β) (d : Dict κ α) :
    ofEntries (d.toList.map fun e => (e.1, f e.2)) = d.map fun _ => f := by
  have hlist : (d.map fun _ => f).toList = d.toList.map fun e => (e.1, f e.2) :=
    Std.ExtTreeMap.toList_map
  rw [← hlist, ofEntries_toList]

theorem mem_of_getElem?_ofEntries {entries : List (κ × α)} {k : κ} {v : α}
    (h : (ofEntries entries)[k]? = some v) : (k, v) ∈ entries := by
  unfold ofEntries at h
  induction entries using List.reverseRecOn with
  | nil => simp at h
  | append_singleton entries entry ih =>
    rw [List.foldl_append, List.foldl_cons, List.foldl_nil] at h
    rcases of_getElem?_insert h with ⟨rfl, rfl⟩ | hearlier
    · exact List.mem_append_right _ (List.mem_singleton_self _)
    · exact List.mem_append_left _ (ih hearlier)

theorem getElem?_ofEntries_of_mem [DecidableEq κ] {entries : List (κ × α)}
    (hnodup : (entries.map (·.1)).Nodup) {k : κ} {v : α} (h : (k, v) ∈ entries) :
    (ofEntries entries)[k]? = some v := by
  refine (getElem?_foldl_insert ?_).trans (if_pos ⟨(k, v), h, rfl⟩)
  intro e he hk
  rw [List.inj_on_of_nodup_map hnodup he h hk]

end Dict

end Solweig.Lib
