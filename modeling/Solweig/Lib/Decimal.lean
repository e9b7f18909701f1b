import Mathlib.Algebra.Ring.Nat
import Mathlib.Data.Char
import Mathlib.Data.List.Lex

/-!
# Padded decimals

Decimal numbers that are padded with zeros to a width. Within the width, their order as texts is
the order of the numbers.
-/

namespace Solweig.Lib.Decimal

def padded (width n : Nat) : List Char :=
  List.replicate (width - (Nat.toDigits 10 n).length) '0' ++ Nat.toDigits 10 n

def value (digits : List Char) : Nat := Nat.ofDigitChars 10 digits 0

variable {width n m : Nat}

theorem value_padded (width n : Nat) : value (padded width n) = n := by
  unfold value padded
  rw [Nat.ofDigitChars_append, Nat.ofDigitChars_replicate_zero, Nat.mul_zero,
    Nat.ofDigitChars_ten_toDigits]

theorem padded_inj : padded width n = padded width m ↔ n = m := by
  constructor
  · intro h
    rw [← value_padded width n, h, value_padded]
  · rintro rfl
    rfl

theorem isDigit_of_mem_padded {c : Char} (h : c ∈ padded width n) : c.isDigit := by
  unfold padded at h
  rcases List.mem_append.mp h with hzero | hdigit
  · rw [(List.mem_replicate.mp hzero).2]
    rfl
  · exact Nat.isDigit_of_mem_toDigits (by omega) (by omega) hdigit

theorem length_padded (hwidth : 0 < width) : (padded width n).length = width ↔ n < 10 ^ width := by
  have hlength := Nat.length_toDigits_le_iff (b := 10) (n := n) (by omega) hwidth
  unfold padded
  rw [List.length_append, List.length_replicate]
  omega

/-! ## Order -/

theorem value_cons (c : Char) (digits : List Char) :
    value (c :: digits) = 10 ^ digits.length * (c.toNat - 48) + value digits := by
  unfold value
  rw [Nat.ofDigitChars_cons, Nat.ofDigitChars_eq_ofDigitChars_zero]
  simp

theorem value_lt {digits : List Char} (hdigits : ∀ c ∈ digits, c.isDigit) :
    value digits < 10 ^ digits.length := by
  induction digits with
  | nil => simp [value]
  | cons c digits ih =>
    obtain ⟨hc, hdigits⟩ := List.forall_mem_cons.mp hdigits
    have hbound := (Char.isDigit_iff_toNat.mp hc).2
    simp only [Char.reduceToNat] at hbound
    have hrest := ih hdigits
    rw [value_cons, List.length_cons, Nat.pow_succ]
    have hdigit : 10 ^ digits.length * (c.toNat - 48) ≤ 10 ^ digits.length * 9 :=
      Nat.mul_le_mul_left _ (by omega)
    omega

theorem lt_iff_value_lt {digits others : List Char} (hdigits : ∀ c ∈ digits, c.isDigit)
    (hothers : ∀ c ∈ others, c.isDigit) (hlength : digits.length = others.length) :
    digits < others ↔ value digits < value others := by
  induction digits generalizing others with
  | nil =>
    cases others with
    | nil => simp
    | cons d others => cases hlength
  | cons c digits ih =>
    cases others with
    | nil => cases hlength
    | cons d others =>
      obtain ⟨hc, hdigits⟩ := List.forall_mem_cons.mp hdigits
      obtain ⟨hd, hothers⟩ := List.forall_mem_cons.mp hothers
      have hlen : digits.length = others.length := Nat.succ.inj hlength
      rw [List.cons_lt_cons_iff, ih hdigits hothers hlen, value_cons, value_cons, hlen,
        Char.lt_def]
      have hcBound := Char.isDigit_iff_toNat.mp hc
      have hdBound := Char.isDigit_iff_toNat.mp hd
      simp only [Char.reduceToNat] at hcBound hdBound
      have hvalue := value_lt hdigits
      have hother := value_lt hothers
      rw [hlen] at hvalue
      have hval : c.val < d.val ↔ c.toNat < d.toNat := UInt32.lt_iff_toNat_lt
      rw [hval]
      rcases Nat.lt_trichotomy c.toNat d.toNat with hlt | heq | hgt
      · have hstep : 10 ^ others.length * (c.toNat - 48) + 10 ^ others.length ≤
            10 ^ others.length * (d.toNat - 48) := by
          rw [← Nat.mul_succ]
          exact Nat.mul_le_mul_left _ (by omega)
        simp only [hlt, true_or, true_iff]
        omega
      · have hsame : c = d := Char.toNat_inj.mp heq
        rw [heq]
        simp [hsame]
      · have hstep : 10 ^ others.length * (d.toNat - 48) + 10 ^ others.length ≤
            10 ^ others.length * (c.toNat - 48) := by
          rw [← Nat.mul_succ]
          exact Nat.mul_le_mul_left _ (by omega)
        have hne : c ≠ d := fun h => by
          rw [h] at hgt
          exact lt_irrefl _ hgt
        simp only [hne, false_and, or_false]
        omega

theorem eq_of_value_eq {digits others : List Char} (hdigits : ∀ c ∈ digits, c.isDigit)
    (hothers : ∀ c ∈ others, c.isDigit) (hlength : digits.length = others.length)
    (h : value digits = value others) : digits = others := by
  rcases lt_trichotomy digits others with hlt | heq | hgt
  · rw [lt_iff_value_lt hdigits hothers hlength] at hlt
    omega
  · exact heq
  · rw [lt_iff_value_lt hothers hdigits hlength.symm] at hgt
    omega

theorem padded_value {digits : List Char} (hdigits : ∀ c ∈ digits, c.isDigit)
    (hlength : digits.length = width) (hwidth : 0 < width) :
    padded width (value digits) = digits := by
  refine eq_of_value_eq (fun c => isDigit_of_mem_padded) hdigits ?_ (value_padded width _)
  rw [hlength, length_padded hwidth, ← hlength]
  exact value_lt hdigits

theorem padded_lt_padded (hwidth : 0 < width) (hn : n < 10 ^ width) (hm : m < 10 ^ width) :
    padded width n < padded width m ↔ n < m := by
  rw [lt_iff_value_lt (fun c => isDigit_of_mem_padded) (fun c => isDigit_of_mem_padded),
    value_padded, value_padded]
  rw [(length_padded hwidth).mpr hn, (length_padded hwidth).mpr hm]

theorem append_lt_append {digits others tail other : List Char} (h : digits.length = others.length) :
    digits ++ tail < others ++ other ↔ digits < others ∨ digits = others ∧ tail < other := by
  induction digits generalizing others with
  | nil =>
    cases others with
    | nil => simp
    | cons d others => cases h
  | cons c digits ih =>
    cases others with
    | nil => cases h
    | cons d others =>
      rw [List.cons_append, List.cons_append, List.cons_lt_cons_iff, List.cons_lt_cons_iff,
        ih (Nat.succ.inj h), List.cons.injEq]
      tauto

end Solweig.Lib.Decimal
