import Mathlib.Data.List.Basic
import Mathlib.Data.List.Induction

/-!
# FluxRs.Lib.Decimal — decimal digits and the numbers they spell

A number is printed by `Nat.toDigits` and read by `Nat.ofDigitChars`.  Without leading zeros the text is the one
that the number prints as; with them it is that text behind zeros.
-/

namespace FluxRs.Lib

def decimal (n : ℕ) : List Char := Nat.toDigits 10 n

/-- The number some digits spell. -/
def decimalValue (digits : List Char) : ℕ := Nat.ofDigitChars 10 digits 0

/-- One digit at least, and nothing but digits. -/
structure IsDecimal (text : List Char) : Prop where
  ne_nil : text ≠ []
  digit : ∀ c ∈ text, c.isDigit = true

theorem decimal_ne_nil (n : ℕ) : decimal n ≠ [] := Nat.toDigits_ne_nil

theorem digit_of_mem_decimal {n : ℕ} {c : Char} (h : c ∈ decimal n) : c.isDigit = true :=
  Nat.isDigit_of_mem_toDigits (by decide) (by decide) h

theorem isDecimal_decimal (n : ℕ) : IsDecimal (decimal n) := ⟨decimal_ne_nil n, fun _ => digit_of_mem_decimal⟩

theorem decimalValue_decimal (n : ℕ) : decimalValue (decimal n) = n := Nat.ofDigitChars_ten_toDigits

theorem not_mem_decimal {c : Char} (h : c.isDigit = false) (n : ℕ) : c ∉ decimal n := by
  intro hmem
  rw [digit_of_mem_decimal hmem] at h
  cases h

/-- Only zero starts with a zero. -/
theorem decimal_head (n : ℕ) (h : (decimal n).head? = some '0') : n = 0 := by
  induction n using Nat.strongRecOn with
  | _ n ih =>
    by_cases hlt : n < 10
    · rw [decimal, Nat.toDigits_of_lt_base hlt] at h
      exact Nat.digitChar_eq_zero.mp (Option.some.inj h)
    · have hle : 10 ≤ n := Nat.not_lt.mp hlt
      rw [decimal, Nat.toDigits_of_base_le (by decide) hle, List.head?_append_of_ne_nil _ Nat.toDigits_ne_nil] at h
      have hzero := ih (n / 10) (by omega) h
      omega

theorem digitChar_isDigit {c : Char} (h : c.isDigit = true) : ∃ d < 10, c = Nat.digitChar d := by
  have hrange : 48 ≤ c.toNat ∧ c.toNat ≤ 57 := by
    unfold Char.isDigit at h
    rw [Bool.and_eq_true, decide_eq_true_eq, decide_eq_true_eq] at h
    exact ⟨h.1, h.2⟩
  refine ⟨c.toNat - 48, by omega, ?_⟩
  apply Char.toNat_inj.mp
  rw [Nat.toNat_digitChar_of_lt_ten (by omega)]
  omega

theorem decimalValue_append_digit (text : List Char) {d : ℕ} (hd : d < 10) :
    decimalValue (text ++ [Nat.digitChar d]) = 10 * decimalValue text + d := by
  rw [decimalValue, Nat.ofDigitChars_append, Nat.ofDigitChars_cons_digitChar_of_lt_ten hd, Nat.ofDigitChars_nil]
  rfl

/-- **Digits without leading zeros are what their number prints as.** -/
theorem decimal_decimalValue {text : List Char} (h : IsDecimal text)
    (hzero : 1 < text.length → text.head? ≠ some '0') : decimal (decimalValue text) = text := by
  induction text using List.reverseRecOn with
  | nil => exact absurd rfl h.ne_nil
  | append_singleton front c ih =>
    obtain ⟨d, hd, rfl⟩ := digitChar_isDigit (h.digit c (by simp))
    rw [decimalValue_append_digit front hd]
    by_cases hfront : front = []
    · subst hfront
      show decimal (10 * 0 + d) = [Nat.digitChar d]
      rw [Nat.mul_zero, Nat.zero_add, decimal, Nat.toDigits_of_lt_base hd]
    · have hhead : front.head? ≠ some '0' := by
        have hlong : 1 < (front ++ [Nat.digitChar d]).length := by
          have hpos := List.length_pos_of_ne_nil hfront
          rw [List.length_append, List.length_singleton]
          omega
        have hnot := hzero hlong
        rwa [List.head?_append_of_ne_nil _ hfront] at hnot
      have hdigits : IsDecimal front := ⟨hfront, fun b hb => h.digit b (List.mem_append_left _ hb)⟩
      have hprint := ih hdigits fun _ => hhead
      have hpos : 0 < decimalValue front := by
        refine Nat.pos_of_ne_zero fun hvalue => ?_
        rw [hvalue] at hprint
        exact hhead (by rw [← hprint]; rfl)
      have hquot : (10 * decimalValue front + d) / 10 = decimalValue front := by omega
      have hrem : (10 * decimalValue front + d) % 10 = d := by omega
      rw [decimal, Nat.toDigits_of_base_le (by decide) (by omega), hquot, hrem]
      exact congrArg (· ++ [Nat.digitChar d]) hprint

end FluxRs.Lib
