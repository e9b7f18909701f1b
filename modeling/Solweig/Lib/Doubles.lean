import Mathlib.Algebra.Order.Field.Rat
import Mathlib.Algebra.Order.Floor.Ring
import Mathlib.Data.Int.Log
import Mathlib.Data.Rat.Floor
import Mathlib.Tactic.FieldSimp
import Mathlib.Tactic.Linarith

/-!
# Doubles

The double that an exact value is rounded to. Binary64 keeps 53 digits, and its smallest step is
`2 ^ -1074`. Values above the largest double are not treated.
-/

namespace Solweig.Lib.Doubles

/-! ## The nearest integer -/

/-- The nearest integer, and the even one of two. -/
def roundHalfEven (x : Rat) : Int :=
  if x - ⌊x⌋ < 1 / 2 then ⌊x⌋
  else if 1 / 2 < x - ⌊x⌋ then ⌊x⌋ + 1
  else if ⌊x⌋ % 2 = 0 then ⌊x⌋
  else ⌊x⌋ + 1

/-- No integer is nearer, and of two that are as near it is the even one. -/
def IsNearest (x : Rat) (m : Int) : Prop :=
  |x - m| < 1 / 2 ∨ |x - m| = 1 / 2 ∧ m % 2 = 0

theorem isNearest_roundHalfEven (x : Rat) : IsNearest x (roundHalfEven x) := by
  have hlow := Int.floor_le x
  have hhigh := Int.lt_floor_add_one x
  unfold roundHalfEven IsNearest
  split
  · rename_i hless
    rw [abs_of_nonneg (by linarith)]
    exact Or.inl hless
  · rename_i hless
    push Not at hless
    split
    · rw [Int.cast_add, Int.cast_one, abs_of_neg (by linarith)]
      exact Or.inl (by linarith)
    · rename_i hmore
      have hhalf : x - ⌊x⌋ = 1 / 2 := le_antisymm (not_lt.mp hmore) hless
      split
      · rename_i heven
        rw [abs_of_nonneg (by linarith)]
        exact Or.inr ⟨hhalf, heven⟩
      · rename_i hodd
        rw [Int.cast_add, Int.cast_one, abs_of_neg (by linarith)]
        exact Or.inr ⟨by linarith, by omega⟩

theorem IsNearest.within {x : Rat} {m : Int} (h : IsNearest x m) : |x - m| ≤ 1 / 2 := by
  rcases h with h | ⟨h, -⟩
  · exact h.le
  · exact h.le

theorem IsNearest.unique {x : Rat} {m n : Int} (hm : IsNearest x m) (hn : IsNearest x n) :
    m = n := by
  have hclose : |(m : Rat) - n| ≤ 1 := by
    calc |(m : Rat) - n| = |(x - n) - (x - m)| := by ring_nf
      _ ≤ |x - n| + |x - m| := abs_sub _ _
      _ ≤ 1 / 2 + 1 / 2 := add_le_add hn.within hm.within
      _ = 1 := by norm_num
  have hint : |m - n| ≤ 1 := by exact_mod_cast hclose
  -- integers a step apart are both halves, and only one of them is even
  by_contra hne
  have hapart : |(m : Rat) - n| = 1 := by
    have : |m - n| = 1 := by
      have := abs_pos.mpr (sub_ne_zero.mpr hne)
      omega
    exact_mod_cast this
  have htriangle : |(m : Rat) - n| ≤ |x - n| + |x - m| := by
    calc |(m : Rat) - n| = |(x - n) - (x - m)| := by ring_nf
      _ ≤ |x - n| + |x - m| := abs_sub _ _
  have hmHalf := hm.within
  have hnHalf := hn.within
  rcases hm with hm | ⟨-, hm⟩
  · linarith
  · rcases hn with hn | ⟨-, hn⟩
    · linarith
    · rw [abs_le] at hint
      omega

theorem roundHalfEven_eq_iff {x : Rat} {m : Int} : roundHalfEven x = m ↔ IsNearest x m := by
  constructor
  · rintro rfl
    exact isNearest_roundHalfEven x
  · intro h
    exact (isNearest_roundHalfEven x).unique h

theorem roundHalfEven_intCast (m : Int) : roundHalfEven m = m :=
  roundHalfEven_eq_iff.mpr (Or.inl (by norm_num))

/-! ## The nearest double -/

/-- The exponent of the last digit that a double of this size keeps. -/
def lastPlace (x : Rat) : Int := max (Int.log 2 |x| - 52) (-1074)

def toDouble (x : Rat) : Rat := roundHalfEven (x / 2 ^ lastPlace x) * 2 ^ lastPlace x

theorem abs_toDouble_sub_le (x : Rat) : |toDouble x - x| ≤ 2 ^ lastPlace x / 2 := by
  have hpos : (0 : Rat) < 2 ^ lastPlace x := zpow_pos (by norm_num) _
  have hscaled : toDouble x - x =
      -((x / 2 ^ lastPlace x - roundHalfEven (x / 2 ^ lastPlace x)) * 2 ^ lastPlace x) := by
    unfold toDouble
    rw [sub_mul, div_mul_cancel₀ _ hpos.ne']
    ring
  rw [hscaled, abs_neg, abs_mul, abs_of_pos hpos]
  have hhalf := (isNearest_roundHalfEven (x / 2 ^ lastPlace x)).within
  calc _ ≤ 1 / 2 * (2 : Rat) ^ lastPlace x := mul_le_mul_of_nonneg_right hhalf hpos.le
    _ = 2 ^ lastPlace x / 2 := by ring

theorem toDouble_one : toDouble 1 = 1 := by decide +kernel

theorem abs_toDouble_sub_le_of_fraction {x : Rat} (hlow : 0 ≤ x) (hhigh : x ≤ 1) :
    |toDouble x - x| ≤ 1 / 2 ^ 54 := by
  rcases hlow.eq_or_lt with rfl | hpos
  · simp [toDouble, show roundHalfEven 0 = 0 by exact_mod_cast roundHalfEven_intCast 0]
  rcases hhigh.eq_or_lt with rfl | hlt
  · simp [toDouble_one]
  have hlog : Int.log 2 |x| < 0 := by
    rw [abs_of_pos hpos, ← Int.lt_zpow_iff_log_lt (by norm_num) hpos]
    simpa using hlt
  have hplace : lastPlace x ≤ -53 := by
    unfold lastPlace
    omega
  calc |toDouble x - x| ≤ 2 ^ lastPlace x / 2 := abs_toDouble_sub_le x
    _ ≤ 2 ^ (-53 : Int) / 2 := by
      gcongr
      norm_num
    _ = 1 / 2 ^ 54 := by norm_num

end Solweig.Lib.Doubles
