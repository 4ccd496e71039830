import DriveClient.Decimal.Layout

/-!
# Decimal digits

The digits of a natural number spell it (`natOfDigits_toDigits`), and the first is no zero unless
the number is (`head?_toDigits`). Zeros before digits do not count, and zeros after them are powers
of ten; so the significant digits of a number spell it up to a power of ten (`toDigits_eq_append`,
`eq_natOfDigits_significant_mul`).
-/

namespace DriveClient.Decimal

/-! ## The number that digits spell -/

theorem natOfDigits_append (cs ds : List Char) :
    natOfDigits (cs ++ ds) = Nat.ofDigitChars 10 ds (natOfDigits cs) :=
  Nat.ofDigitChars_append 0

theorem natOfDigits_toDigits (n : Nat) : natOfDigits (Nat.toDigits 10 n) = n :=
  Nat.ofDigitChars_toDigits (by decide) (by decide)

/-- Zeros in front count for nothing. -/
theorem natOfDigits_zeros_append (k : Nat) (cs : List Char) :
    natOfDigits (List.replicate k '0' ++ cs) = natOfDigits cs := by
  have hzeros : natOfDigits (List.replicate k '0') = 0 := Nat.ofDigitChars_replicate_zero
  rw [natOfDigits_append, hzeros]
  rfl

/-- Zeros behind are powers of ten. -/
theorem natOfDigits_append_zeros (cs : List Char) (k : Nat) :
    natOfDigits (cs ++ List.replicate k '0') = natOfDigits cs * Nat.pow 10 k := by
  rw [natOfDigits_append, Nat.ofDigitChars_replicate_zero, Nat.mul_comm]
  rfl

/-! ## The digits of a number -/

theorem isDigit_of_mem_toDigits {n : Nat} {c : Char} (h : c ∈ Nat.toDigits 10 n) : c.isDigit :=
  Nat.isDigit_of_mem_toDigits (by decide) (by decide) h

/-- A number other than zero does not begin with a zero. -/
theorem head?_toDigits {n : Nat} (hn : n ≠ 0) : (Nat.toDigits 10 n).head? ≠ some '0' := by
  induction n using Nat.strongRecOn with
  | ind n ih =>
    rw [Nat.toDigits_eq_if (by decide)]
    split
    · rw [List.head?_cons, ne_eq, Option.some.injEq, Nat.digitChar_eq_zero]
      exact hn
    · -- the first digit is that of the number without its last digit
      have hq : n / 10 ≠ 0 := by omega
      have hhead := ih (n / 10) (by omega) hq
      have hne : Nat.toDigits 10 (n / 10) ≠ [] := Nat.toDigits_ne_nil
      obtain ⟨d, more, hd⟩ := List.exists_cons_of_ne_nil hne
      rw [hd] at hhead ⊢
      exact hhead

/-! ## Significant digits -/

theorem toDigits_eq_append (n : Nat) :
    ∃ k, Nat.toDigits 10 n = significant n ++ List.replicate k '0' := by
  let zeros := (Nat.toDigits 10 n).reverse.takeWhile (· = '0')
  have hzeros : zeros = List.replicate zeros.length '0' := by
    refine List.eq_replicate_of_mem fun c hc => ?_
    have hall : zeros.all (· = '0') := List.all_takeWhile
    exact of_decide_eq_true (List.all_eq_true.1 hall c hc)
  refine ⟨zeros.length, ?_⟩
  calc Nat.toDigits 10 n
      = (zeros ++ (Nat.toDigits 10 n).reverse.dropWhile (· = '0')).reverse := by
        rw [List.takeWhile_append_dropWhile, List.reverse_reverse]
    _ = significant n ++ zeros.reverse := by rw [List.reverse_append, significant]
    _ = significant n ++ List.replicate zeros.length '0' := by rw [hzeros]; simp

theorem isDigit_of_mem_significant {n : Nat} {c : Char} (h : c ∈ significant n) : c.isDigit := by
  obtain ⟨k, hk⟩ := toDigits_eq_append n
  exact isDigit_of_mem_toDigits (hk ▸ List.mem_append_left _ h)

theorem significant_ne_nil {n : Nat} (hn : n ≠ 0) : significant n ≠ [] := by
  obtain ⟨k, hk⟩ := toDigits_eq_append n
  intro hnil
  rw [hnil, List.nil_append] at hk
  have hvalue := natOfDigits_toDigits n
  rw [hk, ← List.append_nil (List.replicate k '0'), natOfDigits_zeros_append] at hvalue
  exact hn hvalue.symm

theorem head?_significant {n : Nat} (hn : n ≠ 0) : (significant n).head? ≠ some '0' := by
  obtain ⟨k, hk⟩ := toDigits_eq_append n
  have hhead := head?_toDigits hn
  obtain ⟨d, more, hd⟩ := List.exists_cons_of_ne_nil (significant_ne_nil hn)
  rw [hk, hd] at hhead
  rw [hd]
  exact hhead

/-- A number is its significant digits and as many zeros as it has other digits. -/
theorem eq_natOfDigits_significant_mul (n : Nat) :
    ∃ k, n = natOfDigits (significant n) * Nat.pow 10 k ∧
      width n = (significant n).length + k := by
  obtain ⟨k, hk⟩ := toDigits_eq_append n
  refine ⟨k, ?_, ?_⟩
  · rw [← natOfDigits_append_zeros, ← hk, natOfDigits_toDigits]
  · rw [width, hk, List.length_append, List.length_replicate]

end DriveClient.Decimal
