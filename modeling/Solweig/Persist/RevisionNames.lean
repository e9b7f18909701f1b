import Mathlib.Data.String.Basic
import Solweig.Lib.Decimal

/-!
# Names of revision directories

A revision directory has its revision in its name, with six digits or more, and its staging
directory the same name with a suffix.
-/

namespace Solweig.Persist

open Solweig.Lib

/-- `rev-{revision:06d}` -/
def revName (revision : Nat) : String := "rev-" ++ String.ofList (Decimal.padded 6 revision)

def stagingName (revision : Nat) : String := revName revision ++ ".tmp"

/-- `_REVISION_DIR`: six digits, no more. -/
def revisionDir? (name : String) : Option Nat :=
  match name.toList with
  | 'r' :: 'e' :: 'v' :: '-' :: digits =>
    if digits.length = 6 ∧ digits.all Char.isDigit then some (Decimal.value digits) else none
  | _ => none

theorem toList_revName (revision : Nat) :
    (revName revision).toList = 'r' :: 'e' :: 'v' :: '-' :: Decimal.padded 6 revision := by
  unfold revName
  simp

theorem revName_inj {revision other : Nat} : revName revision = revName other ↔ revision = other := by
  constructor
  · intro h
    have hlists := congrArg String.toList h
    rw [toList_revName, toList_revName] at hlists
    simpa [Decimal.padded_inj] using hlists
  · rintro rfl
    rfl

theorem stagingName_inj {revision other : Nat} :
    stagingName revision = stagingName other ↔ revision = other := by
  unfold stagingName
  rw [String.append_left_inj, revName_inj]

theorem stagingName_ne_revName (revision other : Nat) : stagingName revision ≠ revName other := by
  intro h
  have hlists := congrArg String.toList h
  rw [stagingName, String.toList_append, toList_revName, toList_revName] at hlists
  have hmem : 'p' ∈ Decimal.padded 6 other := by
    have hdigits : Decimal.padded 6 revision ++ ".tmp".toList = Decimal.padded 6 other := by
      simpa using hlists
    rw [← hdigits]
    simp
  exact absurd (Decimal.isDigit_of_mem_padded hmem) (by decide)

theorem revisionDir?_revName {revision : Nat} (h : revision < 10 ^ 6) :
    revisionDir? (revName revision) = some revision := by
  unfold revisionDir?
  rw [toList_revName]
  refine (if_pos ?_).trans (congrArg some (Decimal.value_padded 6 revision))
  exact ⟨(Decimal.length_padded (by omega)).mpr h,
    List.all_eq_true.mpr fun c hc => Decimal.isDigit_of_mem_padded hc⟩

theorem revisionDir?_some {name : String} {revision : Nat} (h : revisionDir? name = some revision) :
    name = revName revision ∧ revision < 10 ^ 6 := by
  unfold revisionDir? at h
  split at h
  · next digits hname =>
    split at h
    · next hdigits =>
      obtain rfl := Option.some.inj h
      have hall := List.all_eq_true.mp hdigits.2
      constructor
      · apply String.toList_inj.mp
        rw [hname, toList_revName, Decimal.padded_value hall hdigits.1 (by omega)]
      · rw [← hdigits.1]
        exact Decimal.value_lt hall
    · cases h
  · cases h

/-! ## Order -/

theorem revName_append_lt {revision other : Nat} (hrevision : revision < 10 ^ 6)
    (hother : other < 10 ^ 6) (tail otherTail : String) :
    revName revision ++ tail < revName other ++ otherTail ↔
      revision < other ∨ revision = other ∧ tail < otherTail := by
  have hlength : (Decimal.padded 6 revision).length = (Decimal.padded 6 other).length := by
    rw [(Decimal.length_padded (by omega)).mpr hrevision,
      (Decimal.length_padded (by omega)).mpr hother]
  rw [String.lt_iff_toList_lt, String.toList_append, String.toList_append, toList_revName,
    toList_revName]
  simp only [List.cons_append, List.cons_lt_cons_iff, lt_irrefl, true_and, false_or]
  rw [Decimal.append_lt_append hlength, Decimal.padded_lt_padded (by omega) hrevision hother,
    Decimal.padded_inj, ← String.lt_iff_toList_lt]

theorem revName_lt {revision other : Nat} (hrevision : revision < 10 ^ 6) (hother : other < 10 ^ 6) :
    revName revision < revName other ↔ revision < other := by
  have h := revName_append_lt hrevision hother "" ""
  simpa using h

theorem revName_lt_stagingName {revision other : Nat} (hrevision : revision < 10 ^ 6)
    (hother : other < 10 ^ 6) :
    revName revision < stagingName other ↔ revision ≤ other := by
  have h := revName_append_lt hrevision hother "" ".tmp"
  have htail : "" < ".tmp" := by decide
  rw [String.append_empty] at h
  simp only [htail, and_true] at h
  rw [stagingName, h]
  omega

theorem rev_prefix (revision : Nat) (tail : String) :
    "rev-".toList.isPrefixOf (revName revision ++ tail).toList := by
  rw [String.toList_append, toList_revName]
  rfl

end Solweig.Persist
