import Mathlib.Data.List.Induction
import Mathlib.Data.List.Nodup

/-!
# Maps in order of insertion

A key that is assigned again keeps its place.
-/

namespace Solweig.Lib.Ordered

variable {κ α β : Type} [DecidableEq κ] {entries writes : List (κ × α)}

def assign (entries : List (κ × α)) (entry : κ × α) : List (κ × α) :=
  if entries.any fun e => e.1 = entry.1 then
    entries.map fun e => if e.1 = entry.1 then entry else e
  else entries ++ [entry]

def assignAll (writes : List (κ × α)) : List (κ × α) := writes.foldl assign []

theorem mem_assign_iff {entry e : κ × α} :
    e ∈ assign entries entry ↔ e = entry ∨ e ∈ entries ∧ e.1 ≠ entry.1 := by
  unfold assign
  split
  · next hany =>
    rw [List.any_eq_true] at hany
    obtain ⟨old, hold, hkey⟩ := hany
    rw [List.mem_map]
    constructor
    · rintro ⟨other, hother, rfl⟩
      split
      · exact Or.inl rfl
      · next hne => exact Or.inr ⟨hother, hne⟩
    · rintro (rfl | ⟨hmem, hne⟩)
      · exact ⟨old, hold, if_pos (of_decide_eq_true hkey)⟩
      · exact ⟨e, hmem, if_neg hne⟩
  · next hany =>
    rw [List.mem_append, List.mem_singleton, or_comm]
    apply or_congr_right
    rw [iff_self_and]
    intro hmem hkey
    exact hany (List.any_eq_true.mpr ⟨e, hmem, decide_eq_true hkey⟩)

theorem mem_assign {entry e : κ × α} (h : e ∈ assign entries entry) : e = entry ∨ e ∈ entries :=
  (mem_assign_iff.mp h).imp_right And.left

/-- The last write of a key. -/
def lastOf (writes : List (κ × α)) (key : κ) : Option (κ × α) :=
  writes.reverse.find? fun e => e.1 = key

@[simp] theorem lastOf_nil (key : κ) : lastOf ([] : List (κ × α)) key = none := rfl

theorem lastOf_append (writes other : List (κ × α)) (key : κ) :
    lastOf (writes ++ other) key = (lastOf other key).or (lastOf writes key) := by
  unfold lastOf
  rw [List.reverse_append, List.find?_append]

theorem lastOf_concat (writes : List (κ × α)) (entry : κ × α) (key : κ) :
    lastOf (writes ++ [entry]) key = if entry.1 = key then some entry else lastOf writes key := by
  rw [lastOf_append]
  by_cases hkey : entry.1 = key
  · simp [lastOf, hkey]
  · simp [lastOf, hkey]

theorem lastOf_mem {entry : κ × α} {key : κ} (h : lastOf writes key = some entry) :
    entry ∈ writes ∧ entry.1 = key := by
  unfold lastOf at h
  refine ⟨List.mem_reverse.mp (List.mem_of_find?_eq_some h), ?_⟩
  simpa using List.find?_some h

theorem lastOf_isSome {entry : κ × α} (h : entry ∈ writes) : (lastOf writes entry.1).isSome := by
  unfold lastOf
  rw [List.find?_isSome]
  exact ⟨entry, List.mem_reverse.mpr h, decide_eq_true rfl⟩

theorem lastOf_getLast? {entry : κ × α} (h : writes.getLast? = some entry) :
    lastOf writes entry.1 = some entry := by
  obtain ⟨before, rfl⟩ := List.getLast?_eq_some_iff.mp h
  rw [lastOf_concat, if_pos rfl]

theorem lastOf_filter {p : κ → Bool} {key : κ} (hp : p key = true) (writes : List (κ × α)) :
    lastOf (writes.filter fun e => p e.1) key = lastOf writes key := by
  unfold lastOf
  rw [← List.filter_reverse, List.find?_filter]
  congr 1
  funext e
  by_cases hkey : e.1 = key
  · simp [hkey, hp]
  · simp [hkey]

theorem assignAll_concat (writes : List (κ × α)) (entry : κ × α) :
    assignAll (writes ++ [entry]) = assign (assignAll writes) entry := by
  unfold assignAll
  rw [List.foldl_append]
  rfl

theorem filter_assign (p : κ → Bool) (entries : List (κ × α)) (entry : κ × α) :
    (assign entries entry).filter (fun e => p e.1) =
      if p entry.1 then assign (entries.filter fun e => p e.1) entry
      else entries.filter fun e => p e.1 := by
  have hkept : (entries.map fun e => if e.1 = entry.1 then entry else e).filter (fun e => p e.1) =
      (entries.filter fun e => p e.1).map fun e => if e.1 = entry.1 then entry else e := by
    rw [List.filter_map]
    congr 1
    apply List.filter_congr
    intro e _
    by_cases hkey : e.1 = entry.1
    · simp [hkey]
    · simp [hkey]
  unfold assign
  by_cases hp : p entry.1
  · have hany : ((entries.filter fun e => p e.1).any fun e => e.1 = entry.1) =
        entries.any fun e => e.1 = entry.1 := by
      rw [List.any_filter]
      congr 1
      funext e
      by_cases hkey : e.1 = entry.1
      · simp [hkey, hp]
      · simp [hkey]
    rw [if_pos hp, hany]
    split
    · exact hkept
    · simp [hp]
  · rw [if_neg hp]
    split
    · rw [hkept]
      conv_rhs => rw [← List.map_id (entries.filter fun e => p e.1)]
      apply List.map_congr_left
      intro e he
      have hpe := (List.mem_filter.mp he).2
      have hkey : e.1 ≠ entry.1 := fun hkey => hp (hkey ▸ hpe)
      simp [hkey]
    · simp [hp]

theorem filter_assignAll (p : κ → Bool) (writes : List (κ × α)) :
    (assignAll writes).filter (fun e => p e.1) = assignAll (writes.filter fun e => p e.1) := by
  induction writes using List.reverseRecOn with
  | nil => rfl
  | append_singleton writes entry ih =>
    rw [assignAll_concat, filter_assign, ih, List.filter_append]
    by_cases hp : p entry.1
    · simp [hp, assignAll_concat]
    · simp [hp]

theorem map_assign (f : α → β) (entries : List (κ × α)) (entry : κ × α) :
    (assign entries entry).map (Prod.map id f) =
      assign (entries.map (Prod.map id f)) (entry.1, f entry.2) := by
  unfold assign
  rw [List.any_map]
  have hany : (entries.any ((fun e : κ × β => decide (e.1 = entry.1)) ∘ Prod.map id f)) =
      entries.any fun e => e.1 = entry.1 := rfl
  rw [hany]
  split
  · rw [List.map_map, List.map_map]
    apply List.map_congr_left
    intro e _
    by_cases hkey : e.1 = entry.1
    · simp [hkey, Prod.map]
    · simp [hkey]
  · simp [Prod.map]

theorem map_assignAll (f : α → β) (writes : List (κ × α)) :
    (assignAll writes).map (Prod.map id f) = assignAll (writes.map (Prod.map id f)) := by
  induction writes using List.reverseRecOn with
  | nil => rfl
  | append_singleton writes entry ih =>
    rw [assignAll_concat, map_assign, ih, List.map_append, List.map_singleton, assignAll_concat]
    rfl

theorem mem_assignAll {e : κ × α} (h : e ∈ assignAll writes) : e ∈ writes := by
  induction writes using List.reverseRecOn with
  | nil => exact h
  | append_singleton writes entry ih =>
    rw [assignAll_concat] at h
    rcases mem_assign h with rfl | h
    · exact List.mem_append_right _ List.mem_cons_self
    · exact List.mem_append_left _ (ih h)

theorem keys_assign (entries : List (κ × α)) (entry : κ × α) :
    (assign entries entry).map Prod.fst =
      if entry.1 ∈ entries.map Prod.fst then entries.map Prod.fst
      else entries.map Prod.fst ++ [entry.1] := by
  have hany : entry.1 ∈ entries.map Prod.fst ↔ (entries.any fun e => e.1 = entry.1) = true := by
    simp only [List.mem_map, List.any_eq_true, decide_eq_true_eq]
  unfold assign
  by_cases hmem : entry.1 ∈ entries.map Prod.fst
  · rw [if_pos hmem, if_pos (hany.mp hmem), List.map_map]
    apply List.map_congr_left
    intro e _
    by_cases hkey : e.1 = entry.1
    · simp [hkey]
    · simp [hkey]
  · rw [if_neg hmem, if_neg (mt hany.mpr hmem)]
    simp

theorem nodup_assign (h : (entries.map Prod.fst).Nodup) (entry : κ × α) :
    ((assign entries entry).map Prod.fst).Nodup := by
  rw [keys_assign]
  split
  · exact h
  · next hnew =>
    refine List.nodup_append.mpr ⟨h, List.nodup_singleton _, fun key hkey other hother => ?_⟩
    rw [List.mem_singleton.mp hother]
    exact fun hsame => hnew (hsame ▸ hkey)

theorem assignAll_nodup (writes : List (κ × α)) : ((assignAll writes).map Prod.fst).Nodup := by
  induction writes using List.reverseRecOn with
  | nil => exact List.nodup_nil
  | append_singleton writes entry ih =>
    rw [assignAll_concat]
    exact nodup_assign ih entry

theorem assignAll_of_nodup (h : (entries.map Prod.fst).Nodup) : assignAll entries = entries := by
  induction entries using List.reverseRecOn with
  | nil => rfl
  | append_singleton entries entry ih =>
    rw [List.map_append, List.nodup_append] at h
    have hnew : ¬ (entries.any fun e => e.1 = entry.1) = true := by
      rw [List.any_eq_true]
      rintro ⟨e, he, hkey⟩
      exact h.2.2 e.1 (List.mem_map_of_mem he) entry.1 (by simp) (by simpa using hkey)
    rw [assignAll_concat, ih h.1]
    unfold assign
    rw [if_neg hnew]

theorem assignAll_append (writes other : List (κ × α)) :
    assignAll (assignAll writes ++ other) = assignAll (writes ++ other) := by
  have hsame := assignAll_of_nodup (assignAll_nodup writes)
  unfold assignAll at hsame ⊢
  rw [List.foldl_append, List.foldl_append, hsame]

theorem assignAll_pair {first second : κ} (hne : first ≠ second)
    (hpair : ∀ e ∈ writes, e.1 = first ∨ e.1 = second)
    (hfirst : ∀ e, writes.head? = some e → e.1 = first) :
    assignAll writes = (lastOf writes first).toList ++ (lastOf writes second).toList := by
  induction writes using List.reverseRecOn with
  | nil => rfl
  | append_singleton writes entry ih =>
    rw [assignAll_concat, lastOf_concat, lastOf_concat]
    cases writes with
    | nil =>
      have hkey : entry.1 = first := hfirst entry rfl
      simp [assignAll, assign, hkey, hne]
    | cons start writes =>
      have hstart : start.1 = first := hfirst start rfl
      rw [ih (fun e he => hpair e (List.mem_append_left _ he)) fun e he => hfirst e (by simpa using he)]
      obtain ⟨old, hold⟩ := Option.isSome_iff_exists.mp
        (lastOf_isSome (List.mem_cons_self (a := start) (l := writes)))
      rw [hstart] at hold
      have holdKey := (lastOf_mem hold).2
      rw [hold]
      rcases hpair entry (List.mem_append_right _ List.mem_cons_self) with hkey | hkey
      · -- the first key is written again and stays where it is
        rw [if_pos hkey, if_neg (hkey ▸ hne)]
        cases hother : lastOf (start :: writes) second with
        | none => simp [assign, hkey, holdKey]
        | some other => simp [assign, hkey, holdKey, (lastOf_mem hother).2, hne.symm]
      · rw [if_neg (hkey ▸ hne.symm), if_pos hkey]
        cases hother : lastOf (start :: writes) second with
        | none => simp [assign, hkey, holdKey, hne]
        | some other => simp [assign, hkey, holdKey, (lastOf_mem hother).2, hne]

end Solweig.Lib.Ordered
