import Blocklist.Text.Blank
import Blocklist.Text.Decimal
import Mathlib.Algebra.Ring.Nat

/-!
# Decimal digits and the numbers they stand for

The digits of a number are read as that number, also up to a bound and also with zeros in front.
-/

namespace Blocklist.Text

/-- No digit is a blank. -/
theorem isBlank_of_isDigit {c : Char} (h : c.isDigit = true) : isBlank c = false := by
  simp only [Char.isDigit, Bool.and_eq_true, decide_eq_true_eq, UInt32.le_iff_toNat_le] at h
  change 48 ≤ c.toNat ∧ c.toNat ≤ 57 at h
  apply Bool.eq_false_iff.mpr
  intro hblank
  simp only [isBlank, Bool.or_eq_true, Bool.and_eq_true, decide_eq_true_eq, beq_iff_eq] at hblank
  omega

/-! ### Reading up to a bound -/

theorem foldl_min_eq (bound : Nat) (s : List Char) (n : Nat) :
    (s.map fun c => c.toNat - 48).foldl (fun n digit => min bound (n * 10 + digit)) (min bound n) =
      min bound (Nat.ofDigitChars 10 s n) := by
  induction s generalizing n with
  | nil => rfl
  | cons c rest ih =>
      have hstep : min bound (min bound n * 10 + (c.toNat - 48)) =
          min bound (10 * n + (c.toNat - 48)) := by
        omega
      rw [List.map_cons, List.foldl_cons, hstep, ih, Nat.ofDigitChars_cons]
      rfl

/-- Digits stand for their number, unless it passes the bound. -/
theorem decimalUpTo_eq (bound : Nat) (s : List Char) :
    decimalUpTo bound s = min bound (Nat.ofDigitChars 10 s 0) := by
  have h := foldl_min_eq bound s 0
  rwa [Nat.min_zero] at h

theorem digitsUpTo?_eq_some {bound : Nat} {s : List Char} (hne : s ≠ [])
    (hdigits : ∀ c ∈ s, c.isDigit = true) (hle : Nat.ofDigitChars 10 s 0 ≤ bound) :
    digitsUpTo? bound s = some (Nat.ofDigitChars 10 s 0) := by
  have hn : decimalUpTo (bound + 1) s = Nat.ofDigitChars 10 s 0 := by
    rw [decimalUpTo_eq]
    omega
  simpa [digitsUpTo?, hn, hne, hle] using hdigits

/-! ### The digits of a number -/

theorem isDigit_of_mem_toDigits {n : Nat} {c : Char} (h : c ∈ Nat.toDigits 10 n) :
    c.isDigit = true :=
  Nat.isDigit_of_mem_toDigits (by decide) (by decide) h

/-- A number is read from its own digits. -/
theorem natUpTo?_toDigits {bound n : Nat} (h : n ≤ bound) :
    natUpTo? bound (Nat.toDigits 10 n) = some n := by
  have hle : Nat.ofDigitChars 10 (Nat.toDigits 10 n) 0 ≤ bound := by
    rwa [Nat.ofDigitChars_ten_toDigits]
  have hread := digitsUpTo?_eq_some Nat.toDigits_ne_nil (fun c => isDigit_of_mem_toDigits) hle
  rw [Nat.ofDigitChars_ten_toDigits] at hread
  rw [← hread, natUpTo?.eq_2]
  intro rest hplus
  have hdigit := isDigit_of_mem_toDigits (n := n) (hplus ▸ List.mem_cons_self)
  exact absurd hdigit (by decide)

theorem isDigit_of_mem_padded {width n : Nat} {c : Char} (h : c ∈ padded width n) :
    c.isDigit = true := by
  rcases List.mem_append.mp h with h | h
  · rw [List.eq_of_mem_replicate h]
    decide
  · exact isDigit_of_mem_toDigits h

theorem padded_ne_nil (width n : Nat) : padded width n ≠ [] := by
  simp [padded]

theorem ofDigitChars_padded (width n : Nat) : Nat.ofDigitChars 10 (padded width n) 0 = n := by
  rw [padded, Nat.ofDigitChars_append, Nat.ofDigitChars_replicate_zero, Nat.mul_zero,
    Nat.ofDigitChars_ten_toDigits]

/-- A number that fits its width takes exactly that width. -/
theorem length_padded {width n : Nat} (hwidth : 0 < width) (h : n < 10 ^ width) :
    (padded width n).length = width := by
  have hle : (Nat.toDigits 10 n).length ≤ width :=
    (Nat.length_toDigits_le_iff (by decide) hwidth).mpr h
  rw [padded, List.length_append, List.length_replicate]
  omega

end Blocklist.Text
