import Mathlib.Algebra.GroupWithZero.Nat
import Mathlib.Data.List.Perm.Subperm
import Mathlib.Data.List.Dedup

/-!
# Caches that keep what was used last

Entries with a weight, the least recently used one first. A new entry puts the oldest ones out
until the others fit.
-/

namespace Solweig.Lib.Lru

variable {K V : Type}

def weight (size : V → Nat) (entries : List (K × V)) : Nat := (entries.map fun e => size e.2).sum

/-- The entry of `key` goes to the end with this value, wherever it was. -/
def touch [DecidableEq K] (key : K) (value : V) (entries : List (K × V)) : List (K × V) :=
  entries.filter (fun e => e.1 ≠ key) ++ [(key, value)]

/-- Drops the oldest entries until the others fit. -/
def evict (size : V → Nat) (capacity : Nat) : List (K × V) → List (K × V)
  | [] => []
  | e :: entries =>
    if capacity < weight size (e :: entries) then evict size capacity entries else e :: entries

def lookup [DecidableEq K] (key : K) (entries : List (K × V)) : Option V :=
  (entries.find? fun e => e.1 = key).map (·.2)

/-- Drops nothing where the entry does not fit alone. -/
def put [DecidableEq K] (size : V → Nat) (capacity : Nat) (key : K) (value : V)
    (entries : List (K × V)) : List (K × V) :=
  if capacity < size value then entries else evict size capacity (touch key value entries)

/-- An entry that is found becomes the newest one. -/
def get [DecidableEq K] (key : K) (entries : List (K × V)) : List (K × V) :=
  match lookup key entries with
  | some value => touch key value entries
  | none => entries

inductive Op (K V : Type) where
  | get (key : K)
  | put (key : K) (value : V)

def Op.key : Op K V → K
  | .get key => key
  | .put key _ => key

def step [DecidableEq K] (size : V → Nat) (capacity : Nat) (entries : List (K × V)) :
    Op K V → List (K × V)
  | .get key => get key entries
  | .put key value => put size capacity key value entries

/-! ## Weights -/

section Weights

variable {size : V → Nat} {capacity : Nat} {e : K × V} {entries later : List (K × V)}

@[simp]
theorem weight_nil : weight size ([] : List (K × V)) = 0 := rfl

@[simp]
theorem weight_cons : weight size (e :: entries) = size e.2 + weight size entries := by
  simp [weight]

@[simp]
theorem weight_append : weight size (entries ++ later) = weight size entries + weight size later := by
  simp [weight]

theorem weight_mem (size : V → Nat) (h : e ∈ entries) : size e.2 ≤ weight size entries := by
  induction entries with
  | nil => cases h
  | cons first entries ih =>
    rw [weight_cons]
    rcases List.mem_cons.mp h with rfl | h
    · omega
    · have := ih h
      omega

theorem evict_suffix : evict size capacity entries <:+ entries := by
  induction entries with
  | nil => exact List.suffix_refl _
  | cons e entries ih =>
    unfold evict
    split
    · exact ih.trans (List.suffix_cons e entries)
    · exact List.suffix_refl _

theorem evict_fits : weight size (evict size capacity entries) ≤ capacity := by
  induction entries with
  | nil => exact Nat.zero_le _
  | cons e entries ih =>
    unfold evict
    split
    · exact ih
    · omega

theorem evict_of_fits (h : weight size entries ≤ capacity) :
    evict size capacity entries = entries := by
  cases entries with
  | nil => rfl
  | cons e entries =>
    unfold evict
    rw [if_neg (by omega)]

theorem evict_append {front : List (K × V)}
    (h : ∀ e, front.getLast? = some e → capacity < size e.2 + weight size later) :
    evict size capacity (front ++ later) = evict size capacity later := by
  induction front with
  | nil => rfl
  | cons first front ih =>
    have hrest : ∀ e, front.getLast? = some e → capacity < size e.2 + weight size later := by
      intro e hlast
      apply h e
      cases front with
      | nil => cases hlast
      | cons second front => simpa using hlast
    have hheavy : capacity < weight size (first :: (front ++ later)) := by
      cases front with
      | nil => simpa using h first rfl
      | cons second front =>
        obtain ⟨e, hlast⟩ : ∃ e, (second :: front).getLast? = some e :=
          ⟨_, List.getLast?_eq_some_getLast (by simp)⟩
        have := hrest e hlast
        have hle := weight_mem size (List.mem_of_getLast? hlast)
        rw [weight_cons, weight_append]
        omega
    rw [List.cons_append, evict, if_pos hheavy]
    exact ih hrest

end Weights

/-! ## What every step keeps -/

section Steps

variable [DecidableEq K] {size : V → Nat} {capacity : Nat} {key : K} {value : V}
  {entries : List (K × V)}

/-- The keys are distinct and the entries fit. -/
structure Fits (size : V → Nat) (capacity : Nat) (entries : List (K × V)) : Prop where
  distinct : (entries.map (·.1)).Nodup
  weight : weight size entries ≤ capacity

theorem touch_distinct (h : (entries.map (·.1)).Nodup) :
    ((touch key value entries).map (·.1)).Nodup := by
  unfold touch
  rw [List.map_append, List.nodup_append]
  refine ⟨h.sublist (List.filter_sublist.map _), by simp, fun a ha b hb => ?_⟩
  obtain ⟨e, he, rfl⟩ := List.mem_map.mp ha
  obtain rfl : b = key := by simpa using hb
  simpa using (List.mem_filter.mp he).2

theorem lookup_some (h : lookup key entries = some value) : (key, value) ∈ entries := by
  obtain ⟨e, hfind, rfl⟩ := Option.map_eq_some_iff.mp h
  obtain rfl : e.1 = key := by simpa using List.find?_some hfind
  exact List.mem_of_find?_eq_some hfind

theorem touch_absent (h : key ∉ entries.map (·.1)) :
    touch key value entries = entries ++ [(key, value)] := by
  rw [touch, List.filter_eq_self.mpr]
  intro e he
  rw [decide_eq_true_eq]
  rintro rfl
  exact h (List.mem_map.mpr ⟨e, he, rfl⟩)

theorem weight_touch (size : V → Nat) (h : (entries.map (·.1)).Nodup)
    (hmem : (key, value) ∈ entries) :
    weight size (touch key value entries) = weight size entries := by
  induction entries with
  | nil => cases hmem
  | cons e entries ih =>
    rw [List.map_cons, List.nodup_cons] at h
    rcases List.mem_cons.mp hmem with rfl | hmem
    · have hrest : touch key value ((key, value) :: entries) = touch key value entries := by
        simp [touch]
      rw [hrest, touch_absent h.1]
      simp [Nat.add_comm]
    · have he : e.1 ≠ key := by
        rintro rfl
        exact h.1 (List.mem_map.mpr ⟨_, hmem, rfl⟩)
      have hrest : touch key value (e :: entries) = e :: touch key value entries := by
        simp [touch, he]
      rw [hrest, weight_cons, weight_cons, ih h.2 hmem]

theorem weight_replaced (h : (entries.map (·.1)).Nodup) :
    weight size (touch key value entries) + ((lookup key entries).map size).getD 0 =
      weight size entries + size value := by
  cases hfound : lookup key entries with
  | none =>
    rw [touch_absent]
    · simp
    · intro hmem
      obtain ⟨e, he, rfl⟩ := List.mem_map.mp hmem
      rw [lookup, Option.map_eq_none_iff, List.find?_eq_none] at hfound
      simpa using hfound e he
  | some old =>
    have hold := weight_touch size h (lookup_some hfound)
    simp only [touch, weight_append, weight_cons, weight_nil] at hold ⊢
    simp only [Option.map_some, Option.getD_some]
    omega

theorem Fits.step (h : Fits size capacity entries) (op : Op K V) :
    Fits size capacity (step size capacity entries op) := by
  cases op with
  | get key =>
    simp only [Lru.step, Lru.get]
    split
    · rename_i value hfound
      refine ⟨touch_distinct h.distinct, ?_⟩
      rw [weight_touch size h.distinct (lookup_some hfound)]
      exact h.weight
    · exact h
  | put key value =>
    simp only [Lru.step, Lru.put]
    split
    · exact h
    · refine ⟨?_, evict_fits⟩
      exact (touch_distinct h.distinct).sublist (evict_suffix.sublist.map _)

theorem lookup_append_self (h : lookup key entries = none) :
    lookup key (entries ++ [(key, value)]) = some value := by
  rw [lookup, Option.map_eq_none_iff] at h
  simp [lookup, List.find?_append, h]

theorem lookup_put (hfits : size value ≤ capacity) :
    lookup key (put size capacity key value entries) = some value := by
  rw [put, if_neg (by omega), touch]
  generalize hothers : entries.filter (fun e => e.1 ≠ key) = others
  have habsent : ∀ e ∈ others, e.1 ≠ key := by
    intro e he
    rw [← hothers] at he
    simpa using (List.mem_filter.mp he).2
  clear hothers
  induction others with
  | nil =>
    rw [List.nil_append, evict_of_fits (by simpa using hfits)]
    simp [lookup]
  | cons e others ih =>
    rw [List.cons_append, evict]
    split
    · exact ih fun e he => habsent e (List.mem_cons_of_mem _ he)
    · rw [← List.cons_append]
      apply lookup_append_self
      rw [lookup, Option.map_eq_none_iff, List.find?_eq_none]
      simpa using habsent

end Steps

/-! ## The most recent keys -/

section Recent

variable [DecidableEq K] {size : V → Nat} {capacity : Nat} {key : K} {content : K → V}
  {keys : List K}

/-- The keys in the order of their last use, after one more. -/
def use (keys : List K) (key : K) : List K := keys.filter (· ≠ key) ++ [key]

/-- The key that an operation uses: one that is put and fits, or one that is found. -/
def used? (size : V → Nat) (capacity : Nat) (entries : List (K × V)) : Op K V → Option K
  | .get key => (lookup key entries).map fun _ => key
  | .put key value => if capacity < size value then none else some key

/-- The entries of some keys, where each key stands for one value. -/
def entriesOf (content : K → V) (keys : List K) : List (K × V) :=
  keys.map fun key => (key, content key)

theorem use_nodup (h : keys.Nodup) : (use keys key).Nodup := by
  unfold use
  rw [List.nodup_append]
  refine ⟨h.filter _, by simp, fun a ha b hb => ?_⟩
  obtain rfl : b = key := by simpa using hb
  simpa using (List.mem_filter.mp ha).2

omit [DecidableEq K] in
theorem entriesOf_append (keys later : List K) :
    entriesOf content (keys ++ later) = entriesOf content keys ++ entriesOf content later :=
  List.map_append

theorem touch_entriesOf :
    touch key (content key) (entriesOf content keys) = entriesOf content (use keys key) := by
  simp only [touch, use, entriesOf, List.map_append, List.map_cons, List.map_nil, List.filter_map]
  rfl

theorem lookup_entriesOf :
    lookup key (entriesOf content keys) = if key ∈ keys then some (content key) else none := by
  induction keys with
  | nil => rfl
  | cons first keys ih =>
    simp only [lookup, entriesOf, List.map_cons, List.find?_cons] at ih ⊢
    by_cases hfirst : first = key
    · simp [hfirst]
    · simp only [hfirst, decide_false, List.mem_cons, Ne.symm hfirst, false_or]
      exact ih

omit [DecidableEq K] in
theorem evict_entriesOf (size : V → Nat) (capacity : Nat) (content : K → V) (keys : List K) :
    ∃ front kept, keys = front ++ kept ∧
      evict size capacity (entriesOf content keys) = entriesOf content kept ∧
      ∀ last, front.getLast? = some last →
        capacity < size (content last) + weight size (entriesOf content kept) := by
  induction keys with
  | nil => exact ⟨[], [], rfl, rfl, nofun⟩
  | cons first keys ih =>
    obtain ⟨front, kept, hkeys, hevict, hlast⟩ := ih
    by_cases hheavy : capacity < weight size (entriesOf content (first :: keys))
    · refine ⟨first :: front, kept, by rw [hkeys, List.cons_append], ?_, ?_⟩
      · rw [← hevict]
        simp only [entriesOf, List.map_cons, evict] at hheavy ⊢
        exact if_pos hheavy
      · intro last hfirst
        cases front with
        | nil =>
          obtain rfl : first = last := by simpa using hfirst
          rw [← List.nil_append kept, ← hkeys]
          simpa [entriesOf] using hheavy
        | cons second front => exact hlast last (by simpa using hfirst)
    · exact ⟨[], first :: keys, rfl, evict_of_fits (by omega), nofun⟩

omit [DecidableEq K] in
theorem keys_entriesOf : (entriesOf content keys).map (·.1) = keys := by
  simp [entriesOf, Function.comp_def]

theorem weight_use (size : V → Nat) (content : K → V) (key : K) (h : keys.Nodup) :
    weight size (entriesOf content keys) ≤ weight size (entriesOf content (use keys key)) ∧
      (key ∉ keys → weight size (entriesOf content (use keys key)) =
        weight size (entriesOf content keys) + size (content key)) := by
  have hdistinct : ((entriesOf content keys).map (·.1)).Nodup := by rwa [keys_entriesOf]
  by_cases hmem : key ∈ keys
  · refine ⟨?_, fun hnot => absurd hmem hnot⟩
    rw [← touch_entriesOf]
    exact Nat.le_of_eq (weight_touch size hdistinct (List.mem_map.mpr ⟨key, hmem, rfl⟩)).symm
  · rw [← touch_entriesOf, touch_absent (by rwa [keys_entriesOf])]
    simp

theorem front_heavy {front kept : List K} {last : K} (hnodup : (front ++ kept).Nodup)
    (hheavy : ∀ last, front.getLast? = some last →
      capacity < size (content last) + weight size (entriesOf content kept))
    (hlast : (front.filter (· ≠ key)).getLast? = some last) :
    capacity < size (content last) + weight size (entriesOf content (use kept key)) := by
  obtain ⟨hfront, hkept, hdisjoint⟩ := List.nodup_append.mp hnodup
  obtain ⟨hmore, hnew⟩ := weight_use size content key hkept
  rcases List.eq_nil_or_concat front with rfl | ⟨earlier, newest, rfl⟩
  · cases hlast
  · have := hheavy newest (by simp)
    by_cases hkey : newest = key
    · have := hnew fun hmem => hdisjoint newest (by simp) key hmem hkey
      subst hkey
      omega
    · obtain rfl : newest = last := by simpa [hkey] using hlast
      omega

theorem evict_use (hnodup : keys.Nodup) :
    evict size capacity (touch key (content key) (evict size capacity (entriesOf content keys))) =
      evict size capacity (entriesOf content (use keys key)) := by
  obtain ⟨front, kept, rfl, hkept, hheavy⟩ := evict_entriesOf size capacity content keys
  rw [hkept, touch_entriesOf, use, use, List.filter_append, List.append_assoc,
    entriesOf_append (front.filter _), evict_append]
  intro e he
  obtain ⟨last, hlast, rfl⟩ : ∃ last, (front.filter (· ≠ key)).getLast? = some last ∧
      e = (last, content last) := by
    rw [entriesOf, List.getLast?_map] at he
    obtain ⟨last, hlast, rfl⟩ := Option.map_eq_some_iff.mp he
    exact ⟨last, hlast, rfl⟩
  exact front_heavy hnodup hheavy hlast

/-- What an operation does to the keys in the order of their use. -/
def useBy (size : V → Nat) (capacity : Nat) (entries : List (K × V)) (keys : List K)
    (op : Op K V) : List K :=
  match used? size capacity entries op with
  | some key => use keys key
  | none => keys

/-- The cache holds the newest keys that fit, where a key is put with its own value. -/
structure Newest (size : V → Nat) (capacity : Nat) (content : K → V) (keys : List K)
    (entries : List (K × V)) : Prop where
  distinct : keys.Nodup
  entries : entries = evict size capacity (entriesOf content keys)

theorem Newest.step {entries : List (K × V)} (h : Newest size capacity content keys entries)
    (op : Op K V) (hop : ∀ key value, op = .put key value → value = content key) :
    Newest size capacity content (useBy size capacity entries keys op)
      (step size capacity entries op) := by
  have hheld : ∀ key value, lookup key entries = some value → value = content key := by
    intro key value hfound
    obtain ⟨front, kept, -, hkept, -⟩ := evict_entriesOf size capacity content keys
    rw [h.entries, hkept, lookup_entriesOf] at hfound
    split at hfound
    · exact (Option.some.inj hfound).symm
    · cases hfound
  have hfits : weight size entries ≤ capacity := by
    rw [h.entries]
    exact evict_fits
  cases op with
  | get key =>
    simp only [Lru.step, Lru.get, useBy, used?]
    cases hfound : lookup key entries with
    | none => exact h
    | some value =>
      obtain rfl := hheld key value hfound
      show Newest size capacity content (use keys key) (touch key (content key) entries)
      refine ⟨use_nodup h.distinct, ?_⟩
      rw [← evict_use h.distinct, ← h.entries, evict_of_fits]
      rw [weight_touch size _ (lookup_some hfound)]
      · exact hfits
      · obtain ⟨front, kept, hkeys, hkept, -⟩ := evict_entriesOf size capacity content keys
        rw [h.entries, hkept, keys_entriesOf]
        exact (List.nodup_append.mp (hkeys ▸ h.distinct)).2.1
  | put key value =>
    obtain rfl := hop key value rfl
    by_cases hlarge : capacity < size (content key)
    · simpa [Lru.step, Lru.put, useBy, used?, hlarge] using h
    · simp only [Lru.step, Lru.put, useBy, used?, if_neg hlarge]
      refine ⟨use_nodup h.distinct, ?_⟩
      rw [← evict_use h.distinct, ← h.entries]

end Recent

/-! ## How long an entry stays -/

section Kept

variable {size : V → Nat} {capacity : Nat} {key : K} {content : K → V}

theorem evict_keeps {later : List (K × V)} (front : List (K × V))
    (h : weight size later ≤ capacity) : later <:+ evict size capacity (front ++ later) := by
  induction front with
  | nil =>
    simp only [List.nil_append, evict_of_fits h, List.suffix_refl]
  | cons first front ih =>
    rw [List.cons_append, evict]
    split
    · exact ih
    · exact ⟨first :: front, rfl⟩

theorem weight_sublist {some more : List K} (h : some.Sublist more) :
    weight size (entriesOf content some) ≤ weight size (entriesOf content more) := by
  induction h with
  | slnil => exact Nat.le_refl _
  | cons key _ ih =>
    simp only [entriesOf, List.map_cons, weight_cons] at ih ⊢
    omega
  | cons_cons key _ ih =>
    simp only [entriesOf, List.map_cons, weight_cons] at ih ⊢
    omega

theorem weight_subset {some more : List K} (hdistinct : some.Nodup) (h : some ⊆ more) :
    weight size (entriesOf content some) ≤ weight size (entriesOf content more) := by
  obtain ⟨same, hperm, hsub⟩ := List.subperm_of_subset hdistinct h
  have hweight : weight size (entriesOf content same) = weight size (entriesOf content some) := by
    simp only [weight, entriesOf, List.map_map]
    exact (hperm.map _).sum_nat
  rw [← hweight]
  exact weight_sublist hsub

variable [DecidableEq K]

/-- The key was used, and since then only others of some keys. -/
def UsedThen (keys : List K) (key : K) (later : List K) : Prop :=
  ∃ older after, keys = older ++ key :: after ∧ after ⊆ later

theorem UsedThen.use {keys later : List K} (h : UsedThen keys key later) (other : K) :
    UsedThen (use keys other) key (later ++ [other]) := by
  obtain ⟨older, after, rfl, hafter⟩ := h
  unfold Lru.use
  by_cases hother : key = other
  · subst hother
    exact ⟨_, [], rfl, List.nil_subset _⟩
  · refine ⟨older.filter (· ≠ other), after.filter (· ≠ other) ++ [other], by simp [hother], ?_⟩
    intro k hk
    rcases List.mem_append.mp hk with hk | hk
    · exact List.mem_append_left _ (hafter (List.mem_filter.mp hk).1)
    · exact List.mem_append_right _ hk

theorem UsedThen.step {keys later : List K} {entries : List (K × V)}
    (h : UsedThen keys key later) (op : Op K V) :
    UsedThen (useBy size capacity entries keys op) key (later ++ [op.key]) := by
  have hmore : UsedThen keys key (later ++ [op.key]) := by
    obtain ⟨older, after, hkeys, hafter⟩ := h
    exact ⟨older, after, hkeys, fun k hk => List.mem_append_left _ (hafter hk)⟩
  cases op with
  | get other =>
    simp only [useBy, used?]
    cases lookup other entries with
    | none => exact hmore
    | some value => exact h.use other
  | put other value =>
    simp only [useBy, used?]
    by_cases hlarge : capacity < size value
    · simpa [hlarge] using hmore
    · rw [if_neg hlarge]
      exact h.use other

/-- Each key is put with its own value. -/
def Own (content : K → V) (ops : List (Op K V)) : Prop :=
  ∀ key value, Op.put key value ∈ ops → value = content key

omit [DecidableEq K] in
theorem Own.tail {op : Op K V} {ops : List (Op K V)} (h : Own content (op :: ops)) :
    Own content ops :=
  fun key value hmem => h key value (List.mem_cons_of_mem _ hmem)

theorem newest_run {keys : List K} {entries : List (K × V)} {ops : List (Op K V)}
    (h : Newest size capacity content keys entries) (hown : Own content ops) :
    ∃ keys', Newest size capacity content keys' (ops.foldl (step size capacity) entries) ∧
      ∀ key later, UsedThen keys key later → UsedThen keys' key (later ++ ops.map Op.key) := by
  induction ops generalizing keys entries with
  | nil => exact ⟨keys, h, fun key later hused => by simpa using hused⟩
  | cons op ops ih =>
    have hstep := h.step op fun key value hop =>
      hown key value (hop ▸ List.mem_cons_self)
    obtain ⟨keys', hnewest, hthen⟩ := ih hstep hown.tail
    refine ⟨keys', hnewest, fun key later hused => ?_⟩
    have := hthen key _ (hused.step op)
    rwa [List.append_assoc] at this

theorem kept_while_fits {before later : List (Op K V)} {value : V}
    (hown : Own content (before ++ .put key value :: later))
    (hfits : weight size (entriesOf content (key :: later.map Op.key).dedup) ≤ capacity) :
    lookup key ((before ++ .put key value :: later).foldl (step size capacity) []) =
      some (content key) := by
  have hbefore : Own content before := fun key value hmem =>
    hown key value (List.mem_append_left _ hmem)
  have hlater : Own content later := fun key value hmem =>
    hown key value (List.mem_append_right _ (List.mem_cons_of_mem _ hmem))
  have hvalue : value = content key := hown key value (by simp)
  have hempty : Newest size capacity content [] [] := ⟨List.nodup_nil, rfl⟩
  obtain ⟨old, hold, -⟩ := newest_run hempty hbefore
  -- the key fits alone, so putting it uses it
  have hkey : key ∈ (key :: later.map Op.key).dedup := by simp
  have hsize : size value ≤ capacity := by
    have hmem : (key, content key) ∈ entriesOf content (key :: later.map Op.key).dedup :=
      List.mem_map.mpr ⟨key, hkey, rfl⟩
    rw [hvalue]
    exact Nat.le_trans (weight_mem size hmem) hfits
  have hput := hold.step (.put key value) fun k v hop => by
    obtain ⟨rfl, rfl⟩ := Op.put.inj hop
    exact hvalue
  have hused : useBy size capacity (before.foldl (step size capacity) []) old (.put key value) =
      use old key := by
    simp only [useBy, used?, if_neg (Nat.not_lt.mpr hsize)]
  rw [hused] at hput
  obtain ⟨keys, hnewest, hthen⟩ := newest_run hput hlater
  obtain ⟨older, after, rfl, hafter⟩ := hthen key [] ⟨_, [], rfl, List.nil_subset _⟩
  rw [List.foldl_append, List.foldl_cons, hnewest.entries]
  have hdistinct : (key :: after).Nodup := (List.nodup_append.mp hnewest.distinct).2.1
  have hweight : weight size (entriesOf content (key :: after)) ≤ capacity := by
    refine Nat.le_trans (weight_subset hdistinct fun k hk => ?_) hfits
    rw [List.mem_dedup]
    rcases List.mem_cons.mp hk with rfl | hk
    · exact List.mem_cons_self
    · exact List.mem_cons_of_mem _ (by simpa using hafter hk)
  obtain ⟨front, kept, hkeys, hkept, -⟩ :=
    evict_entriesOf size capacity content (older ++ key :: after)
  have hsuffix := evict_keeps (entriesOf content older) hweight
  rw [← entriesOf_append, hkept] at hsuffix
  rw [hkept, lookup_entriesOf, if_pos]
  have hmem := hsuffix.subset (List.mem_map.mpr ⟨key, List.mem_cons_self, rfl⟩)
  obtain ⟨k, hk, hsame⟩ := List.mem_map.mp hmem
  obtain ⟨rfl, -⟩ := Prod.mk.inj hsame
  exact hk

end Kept

end Solweig.Lib.Lru
