import Mathlib.Data.List.Basic
import Solweig.Lib.Fold

/-!
# Keyed writes

A list of writes, each with a key and the value before and after it. A key touches cells, and a
write gives each of them what its value after says of it. The net of the list keeps, for each key,
the first value before and the last value after where they differ.
-/

namespace Solweig.Lib

/-- The key, the value before and the value after. -/
abbrev KeyedWrite (κ ω : Type) := κ × ω × ω

variable {κ ω ι β : Type}

section Net

variable [DecidableEq κ]

/-- The value before the first write of the key. -/
def firstBefore? (writes : List (KeyedWrite κ ω)) (key : κ) : Option ω :=
  (writes.find? (·.1 = key)).map (·.2.1)

/-- The value after the last write of the key. -/
def lastAfter? (writes : List (KeyedWrite κ ω)) (key : κ) : Option ω :=
  (writes.reverse.find? (·.1 = key)).map (·.2.2)

/-- The writes of a net, in any order. -/
def IsNet (writes net : List (KeyedWrite κ ω)) : Prop :=
  ∀ w, w ∈ net ↔
    firstBefore? writes w.1 = some w.2.1 ∧ lastAfter? writes w.1 = some w.2.2 ∧ w.2.1 ≠ w.2.2

/-- The first value before and the last value after of the key differ. -/
def Survives (writes : List (KeyedWrite κ ω)) (key : κ) : Prop :=
  ∃ before after, firstBefore? writes key = some before ∧ lastAfter? writes key = some after ∧
    before ≠ after

variable {writes net : List (KeyedWrite κ ω)} {key : κ} {w : KeyedWrite κ ω}

theorem IsNet.survives_iff (hnet : IsNet writes net) :
    Survives writes key ↔ ∃ w ∈ net, w.1 = key := by
  constructor
  · rintro ⟨before, after, hfirst, hlast, hdiff⟩
    exact ⟨(key, before, after), (hnet _).mpr ⟨hfirst, hlast, hdiff⟩, rfl⟩
  · rintro ⟨w, hw, rfl⟩
    exact ⟨w.2.1, w.2.2, (hnet w).mp hw⟩

theorem firstBefore?_append :
    firstBefore? (writes ++ [w]) key =
      (firstBefore? writes key).or (if w.1 = key then some w.2.1 else none) := by
  unfold firstBefore?
  rw [List.find?_append, Option.map_or]
  congr 1
  by_cases h : w.1 = key <;> simp [h]

theorem lastAfter?_append :
    lastAfter? (writes ++ [w]) key = if w.1 = key then some w.2.2 else lastAfter? writes key := by
  unfold lastAfter?
  rw [List.reverse_append]
  by_cases h : w.1 = key <;> simp [h]

theorem exists_of_lastAfter? {after : ω} (h : lastAfter? writes key = some after) :
    ∃ w ∈ writes, w.1 = key := by
  unfold lastAfter? at h
  obtain ⟨w, hw, -⟩ := Option.map_eq_some_iff.mp h
  exact ⟨w, List.mem_reverse.mp (List.mem_of_find?_eq_some hw), by simpa using List.find?_some hw⟩

theorem written_spec (hw : w ∈ writes) :
    ∃ before after, firstBefore? writes w.1 = some before ∧ lastAfter? writes w.1 = some after := by
  unfold firstBefore? lastAfter?
  have hfirst : (writes.find? (·.1 = w.1)).isSome := by
    rw [List.find?_isSome]
    exact ⟨w, hw, by simp⟩
  have hlast : (writes.reverse.find? (·.1 = w.1)).isSome := by
    rw [List.find?_isSome]
    exact ⟨w, List.mem_reverse.mpr hw, by simp⟩
  obtain ⟨first, hfirst⟩ := Option.isSome_iff_exists.mp hfirst
  obtain ⟨last, hlast⟩ := Option.isSome_iff_exists.mp hlast
  exact ⟨first.2.1, last.2.2, by rw [hfirst]; rfl, by rw [hlast]; rfl⟩

theorem lastAfter?_split {pre post : List (KeyedWrite κ ω)} (hpost : ∀ v ∈ post, v.1 ≠ w.1) :
    lastAfter? (pre ++ w :: post) w.1 = some w.2.2 := by
  have hnone : post.reverse.find? (·.1 = w.1) = none := by
    rw [List.find?_eq_none]
    exact fun v hv => by simpa using hpost v (List.mem_reverse.mp hv)
  simp [lastAfter?, List.reverse_append, List.find?_append, hnone]

theorem firstBefore?_split {before : ω} (h : firstBefore? writes key = some before) :
    ∃ pre w post, writes = pre ++ w :: post ∧ (∀ v ∈ pre, v.1 ≠ key) ∧ w.1 = key ∧
      w.2.1 = before := by
  unfold firstBefore? at h
  obtain ⟨w, hw, hbefore⟩ := Option.map_eq_some_iff.mp h
  obtain ⟨hkey, pre, post, hsplit, hpre⟩ := List.find?_eq_some_iff_append.mp hw
  exact ⟨pre, w, post, hsplit, fun v hv => by simpa using hpre v hv, by simpa using hkey, hbefore⟩

end Net

/-! ## What the writes leave -/

section Cells

variable (touches : κ → ι → Prop) [∀ key i, Decidable (touches key i)] (value : ω → ι → β)

def write (s : ι → β) (w : KeyedWrite κ ω) : ι → β :=
  fun i => if touches w.1 i then value w.2.2 i else s i

/-- No cell is touched by two keys of the list. -/
def Separated (writes : List (KeyedWrite κ ω)) : Prop :=
  ∀ v ∈ writes, ∀ w ∈ writes, ∀ i, touches v.1 i → touches w.1 i → v.1 = w.1

/-- The first write of each key starts from what the writes before it leave. -/
def StartsFrom (base : ι → β) (writes : List (KeyedWrite κ ω)) : Prop :=
  ∀ pre w post, writes = pre ++ w :: post → (∀ v ∈ pre, v.1 ≠ w.1) →
    ∀ i, touches w.1 i → value w.2.1 i = pre.foldl (write touches value) base i

/-- Where the first value before of a key says the same as its last value after of each cell that
the key touches, the two are the same value. -/
def OneForm [DecidableEq κ] (writes : List (KeyedWrite κ ω)) : Prop :=
  ∀ key before after, firstBefore? writes key = some before → lastAfter? writes key = some after →
    (∀ i, touches key i → value before i = value after i) → before = after

/-- Where a key that cancels has the last word on a cell, that is what the keys that survive leave
there, or what the base has if none of them touches it. -/
def LastWordKept [DecidableEq κ] (base : ι → β) (writes : List (KeyedWrite κ ω)) : Prop :=
  ∀ pre w post i, writes = pre ++ w :: post → touches w.1 i → (∀ v ∈ post, ¬ touches v.1 i) →
    ¬ Survives writes w.1 →
    (∀ key after, Survives writes key → touches key i → lastAfter? writes key = some after →
      value after i = value w.2.2 i) ∧
    ((∀ key, Survives writes key → ¬ touches key i) → base i = value w.2.2 i)

/-- The keys that survive, if there are any, do not all leave what the base has. -/
def Alters [DecidableEq κ] (base : ι → β) (writes : List (KeyedWrite κ ω)) : Prop :=
  (∃ key, Survives writes key) → ∃ key after i, Survives writes key ∧ touches key i ∧
    lastAfter? writes key = some after ∧ value after i ≠ base i

variable {touches value} {writes net : List (KeyedWrite κ ω)} {base : ι → β}

theorem foldl_write_untouched {i : ι} (h : ∀ w ∈ writes, ¬ touches w.1 i) :
    writes.foldl (write touches value) base i = base i :=
  (foldl_look (write touches value) (fun s => s i) (fun w => touches w.1 i) (base i)
    (fun w hw hi => absurd hi (h w hw)) (fun w _ hi s => by simp [write, hi]) base).2 h

variable [DecidableEq κ] {key : κ}

theorem foldl_write_touched (hsep : Separated touches writes) {i : ι} (hi : touches key i)
    {after : ω} (hlast : lastAfter? writes key = some after) :
    writes.foldl (write touches value) base i = value after i := by
  induction writes using List.reverseRecOn with
  | nil => simp [lastAfter?] at hlast
  | append_singleton writes w ih =>
    rw [List.foldl_append, List.foldl_cons, List.foldl_nil]
    rw [lastAfter?_append] at hlast
    by_cases hw : w.1 = key
    · obtain rfl : w.2.2 = after := by simpa [hw] using hlast
      simp [write, hw, hi]
    · rw [if_neg hw] at hlast
      have hmiss : ¬ touches w.1 i := by
        intro hwi
        obtain ⟨v, hv, rfl⟩ := exists_of_lastAfter? hlast
        exact hw (hsep w (by simp) v (List.mem_append_left _ hv) i hwi hi)
      have hrest : Separated touches writes := fun a ha b hb =>
        hsep a (List.mem_append_left _ ha) b (List.mem_append_left _ hb)
      rw [write, if_neg hmiss]
      exact ih hrest hlast

theorem starts_at_base (hsep : Separated touches writes) (hstart : StartsFrom touches value base writes)
    {before : ω} (h : firstBefore? writes key = some before) {i : ι} (hi : touches key i) :
    value before i = base i := by
  obtain ⟨pre, w, post, hsplit, hpre, rfl, rfl⟩ := firstBefore?_split h
  rw [hstart pre w post hsplit hpre i hi]
  apply foldl_write_untouched
  intro v hv hvi
  exact hpre v hv (hsep v (by simp [hsplit, hv]) w (by simp [hsplit]) i hvi hi)

omit [DecidableEq κ] in
theorem foldl_write_last {pre post : List (KeyedWrite κ ω)} {w : KeyedWrite κ ω} {i : ι}
    (hi : touches w.1 i) (hpost : ∀ v ∈ post, ¬ touches v.1 i) :
    (pre ++ w :: post).foldl (write touches value) base i = value w.2.2 i := by
  rw [List.foldl_append, List.foldl_cons, foldl_write_untouched hpost]
  simp [write, hi]

omit [DecidableEq κ] in
theorem exists_last_touch {i : ι} (h : ∃ w ∈ writes, touches w.1 i) :
    ∃ pre w post, writes = pre ++ w :: post ∧ touches w.1 i ∧ ∀ v ∈ post, ¬ touches v.1 i := by
  induction writes using List.reverseRecOn with
  | nil => simp at h
  | append_singleton writes w ih =>
    by_cases hw : touches w.1 i
    · exact ⟨writes, w, [], rfl, hw, by simp⟩
    · obtain ⟨v, hv, hvi⟩ := h
      have hmem : v ∈ writes := by
        rcases List.mem_append.mp hv with hv | hv
        · exact hv
        · obtain rfl := List.mem_singleton.mp hv
          exact absurd hvi hw
      obtain ⟨pre, u, post, rfl, hu, hpost⟩ := ih ⟨v, hmem, hvi⟩
      refine ⟨pre, u, post ++ [w], by simp, hu, ?_⟩
      intro v hv
      rcases List.mem_append.mp hv with hv | hv
      · exact hpost v hv
      · rwa [List.mem_singleton.mp hv]

variable (value base) in
theorem foldl_net_cell (hnet : IsNet writes net) (hsep : Separated touches net) (i : ι) :
    (∀ key after, Survives writes key → touches key i → lastAfter? writes key = some after →
      net.foldl (write touches value) base i = value after i) ∧
    ((∀ key, Survives writes key → ¬ touches key i) →
      net.foldl (write touches value) base i = base i) := by
  constructor
  · intro key after hkey hi hlast
    obtain ⟨w, hw, rfl⟩ := hnet.survives_iff.mp hkey
    refine foldl_write_touched hsep hi ?_
    obtain ⟨before', after', -, hlast'⟩ := written_spec hw
    obtain ⟨v, hv, hkey', hafter⟩ : ∃ v ∈ net, v.1 = w.1 ∧ v.2.2 = after' := by
      obtain ⟨v, hv, hfound⟩ := Option.map_eq_some_iff.mp hlast'
      exact ⟨v, List.mem_reverse.mp (List.mem_of_find?_eq_some hv),
        by simpa using List.find?_some hv, hfound⟩
    have hsame := ((hnet v).mp hv).2.1
    rw [hkey', hlast, hafter] at hsame
    rw [hlast', hsame]
  · intro hnone
    refine foldl_write_untouched fun w hw => hnone w.1 (hnet.survives_iff.mpr ⟨w, hw, rfl⟩)

theorem foldl_net_iff (hnet : IsNet writes net) (hsep : Separated touches net) :
    net.foldl (write touches value) base = writes.foldl (write touches value) base ↔
      LastWordKept touches value base writes := by
  constructor
  · rintro hsame pre w post i rfl hi hpost -
    have hcell := congrFun hsame i
    rw [foldl_write_last hi hpost] at hcell
    obtain ⟨hsurvivor, hnone⟩ := foldl_net_cell value base hnet hsep i
    exact ⟨fun key after hkey hkeyi hlast => (hsurvivor key after hkey hkeyi hlast).symm.trans hcell,
      fun hno => (hnone hno).symm.trans hcell⟩
  · intro hkept
    ext i
    obtain ⟨hsurvivor, hnone⟩ := foldl_net_cell value base hnet hsep i
    by_cases hi : ∃ w ∈ writes, touches w.1 i
    · obtain ⟨pre, w, post, rfl, hi, hpost⟩ := exists_last_touch hi
      rw [foldl_write_last hi hpost]
      have hlast : lastAfter? (pre ++ w :: post) w.1 = some w.2.2 :=
        lastAfter?_split fun v hv hkey => hpost v hv (hkey ▸ hi)
      by_cases hw : Survives (pre ++ w :: post) w.1
      · exact hsurvivor w.1 w.2.2 hw hi hlast
      · obtain ⟨hsame, hbase⟩ := hkept pre w post i rfl hi hpost hw
        by_cases hother : ∃ key, Survives (pre ++ w :: post) key ∧ touches key i
        · obtain ⟨key, hkey, hkeyi⟩ := hother
          obtain ⟨-, after, -, hafter, -⟩ := id hkey
          exact (hsurvivor key after hkey hkeyi hafter).trans (hsame key after hkey hkeyi hafter)
        · have hno : ∀ key, Survives (pre ++ w :: post) key → ¬ touches key i :=
            fun key hkey hkeyi => hother ⟨key, hkey, hkeyi⟩
          exact (hnone hno).trans (hbase hno)
    · have huntouched : ∀ w ∈ writes, ¬ touches w.1 i := fun w hw hwi => hi ⟨w, hw, hwi⟩
      rw [foldl_write_untouched huntouched]
      refine hnone fun key ⟨_, _, _, hlast, _⟩ hkeyi => ?_
      obtain ⟨w, hw, rfl⟩ := exists_of_lastAfter? hlast
      exact huntouched w hw hkeyi

theorem net_nil_iff (hnet : IsNet writes net) (hsep : Separated touches net) :
    (net.foldl (write touches value) base = base → net = []) ↔
      Alters touches value base writes := by
  constructor
  · rintro hnil ⟨key, hkey⟩
    obtain ⟨w, hw, -⟩ := hnet.survives_iff.mp hkey
    by_contra hsame
    have hempty : net = [] := by
      refine hnil (funext fun i => ?_)
      obtain ⟨hsurvivor, hnone⟩ := foldl_net_cell value base hnet hsep i
      by_cases hother : ∃ key, Survives writes key ∧ touches key i
      · obtain ⟨key, hkey, hkeyi⟩ := hother
        obtain ⟨-, after, -, hafter, -⟩ := id hkey
        rw [hsurvivor key after hkey hkeyi hafter]
        by_contra hne
        exact hsame ⟨key, after, i, hkey, hkeyi, hafter, hne⟩
      · exact hnone fun key hkey hkeyi => hother ⟨key, hkey, hkeyi⟩
    rw [hempty] at hw
    cases hw
  · intro halters hbase
    rw [List.eq_nil_iff_forall_not_mem]
    intro w hw
    obtain ⟨key, after, i, hkey, hi, hlast, hne⟩ := halters ⟨w.1, hnet.survives_iff.mpr ⟨w, hw, rfl⟩⟩
    refine hne ?_
    rw [← (foldl_net_cell value base hnet hsep i).1 key after hkey hi hlast, hbase]

theorem lastWordKept_of_separated (hsep : Separated touches writes)
    (hstart : StartsFrom touches value base writes) : LastWordKept touches value base writes := by
  rintro pre w post i rfl hi hpost hcancels
  have hw : w ∈ pre ++ w :: post := by simp
  obtain ⟨before, after, hfirst, hlast⟩ := written_spec hw
  have hafter : lastAfter? (pre ++ w :: post) w.1 = some w.2.2 :=
    lastAfter?_split fun v hv hkey => hpost v hv (hkey ▸ hi)
  obtain rfl := Option.some.inj (hlast.symm.trans hafter)
  constructor
  · rintro key _ hkey hkeyi hkeylast
    obtain ⟨v, hv, rfl⟩ := exists_of_lastAfter? hkeylast
    exact absurd (hsep v hv w hw i hkeyi hi ▸ hkey) hcancels
  · intro _
    have hsame : before = w.2.2 := by
      by_contra hdiff
      exact hcancels ⟨before, w.2.2, hfirst, hlast, hdiff⟩
    rw [← hsame]
    exact (starts_at_base hsep hstart hfirst hi).symm

theorem alters_of_separated (hsep : Separated touches writes)
    (hstart : StartsFrom touches value base writes) (hform : OneForm touches value writes) :
    Alters touches value base writes := by
  rintro ⟨key, before, after, hfirst, hlast, hdiff⟩
  by_contra hsame
  refine hdiff (hform key before after hfirst hlast fun i hi => ?_)
  rw [starts_at_base hsep hstart hfirst hi]
  by_contra hne
  exact hsame ⟨key, after, i, ⟨before, after, hfirst, hlast, hdiff⟩, hi, hlast, Ne.symm hne⟩

theorem net_eq_nil_iff (hnet : IsNet writes net) (hsep : Separated touches net)
    (hkept : LastWordKept touches value base writes) (halters : Alters touches value base writes) :
    net = [] ↔ writes.foldl (write touches value) base = base := by
  rw [← (foldl_net_iff hnet hsep).mpr hkept]
  refine ⟨fun hnil => ?_, (net_nil_iff hnet hsep).mpr halters⟩
  rw [hnil, List.foldl_nil]

end Cells

end Solweig.Lib
