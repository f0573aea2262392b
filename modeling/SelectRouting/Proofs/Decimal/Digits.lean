import SelectRouting.Decimal.Numeral
/-!
# The digits of a number

A natural number is written with digits only (`isDigit_of_mem_toDigits`), they stand for the number (`digitsValue_toDigits`),
and no zero is in front of others (`head_toDigits`).
-/
namespace SelectRouting.Decimal

theorem isDigit_of_mem_toDigits {n : Nat} {d : Char} (hd : d ∈ Nat.toDigits 10 n) : isDigit d = true := by
  have hdigit := Nat.isDigit_of_mem_toDigits (by decide) (by decide) hd
  simp only [Char.isDigit, Bool.and_eq_true, decide_eq_true_eq] at hdigit
  simp only [isDigit, Bool.and_eq_true, decide_eq_true_eq]
  exact hdigit

theorem digitsValue_toDigits (n : Nat) : digitsValue (Nat.toDigits 10 n) = n := by
  rw [digitsValue, ← Nat.ofDigitChars_eq_foldl]
  exact Nat.ofDigitChars_ten_toDigits

theorem digitChar_ne_zero : ∀ n < 10, n ≠ 0 → Nat.digitChar n ≠ '0' := by decide

/-- The first digit of a number is a zero only if it is the only digit. -/
theorem head_toDigits (n : Nat) : Nat.toDigits 10 n = ['0'] ∨ ∃ d ds, Nat.toDigits 10 n = d :: ds ∧ d ≠ '0' := by
  by_cases hzero : n = 0
  · exact .inl (hzero ▸ Nat.toDigits_zero 10)
  · refine .inr ?_
    by_cases hn : n < 10
    · exact ⟨_, [], Nat.toDigits_of_lt_base hn, digitChar_ne_zero n hn hzero⟩
    · rw [Nat.toDigits_of_base_le (by decide) (by omega)]
      rcases head_toDigits (n / 10) with hone | ⟨d, ds, hmore, hd⟩
      · have hvalue := digitsValue_toDigits (n / 10)
        rw [hone] at hvalue
        have : n / 10 = 0 := hvalue.symm
        omega
      · exact ⟨d, ds ++ _, by rw [hmore, List.cons_append], hd⟩
termination_by n

end SelectRouting.Decimal
