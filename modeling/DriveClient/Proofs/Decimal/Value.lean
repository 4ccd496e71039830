import DriveClient.Proofs.Decimal.Digits
import DriveClient.Proofs.Double.Operations

/-!
# The double of a decimal

The double of a decimal is its value rounded once (`toDouble_eq_ofQuanta`): where the size is
settled early, rounding would have come to the same. So zeros may be moved between the digits and
the exponent (`toDouble_shift`), and the decimal that is chosen for a double is read as that double
(`toDouble_shortest`).
-/

namespace DriveClient.Decimal

/-! ## One rounding -/

/-- Below `10 ^ -400` there is less than half a quantum. -/
theorem two_mul_quanta_lt {d : Decimal} (h : d.exponent + d.digits.log2 + 1 < -400) :
    2 * (d.digits * 10 ^ d.exponent.toNat * quantaPerOne) < 10 ^ (-d.exponent).toNat := by
  obtain ⟨k, hk, hten⟩ : ∃ k, k = 400 ∧ 2 * quantaPerOne ≤ 10 ^ k := ⟨400, rfl, by decide +kernel⟩
  have hlog : d.digits < 10 ^ (d.digits.log2 + 1) :=
    Nat.lt_of_lt_of_le Nat.lt_log2_self (Nat.pow_le_pow_left (by decide) _)
  have hzero : d.exponent.toNat = 0 := by omega
  have hexp : d.digits.log2 + 1 + k ≤ (-d.exponent).toNat := by omega
  calc 2 * (d.digits * 10 ^ d.exponent.toNat * quantaPerOne)
      = d.digits * (2 * quantaPerOne) := by rw [hzero, Nat.pow_zero]; ring
    _ ≤ d.digits * 10 ^ k := Nat.mul_le_mul_left _ hten
    _ < 10 ^ (d.digits.log2 + 1) * 10 ^ k :=
        Nat.mul_lt_mul_of_pos_right hlog (Nat.pow_pos (by decide))
    _ = 10 ^ (d.digits.log2 + 1 + k) := (Nat.pow_add _ _ _).symm
    _ ≤ 10 ^ (-d.exponent).toNat := Nat.pow_le_pow_right (by decide) hexp

/-- From `10 ^ 401` on a number is past the largest double. -/
theorem quantaLimit_le_quanta {d : Decimal} (hd : d.digits ≠ 0) (h : d.exponent > 400) :
    quantaLimit * 10 ^ (-d.exponent).toNat ≤ d.digits * 10 ^ d.exponent.toNat * quantaPerOne := by
  obtain ⟨k, hk, hten⟩ : ∃ k, k = 401 ∧ quantaLimit ≤ 10 ^ k * quantaPerOne :=
    ⟨401, rfl, by decide +kernel⟩
  have hzero : (-d.exponent).toNat = 0 := by omega
  have hexp : k ≤ d.exponent.toNat := by omega
  calc quantaLimit * 10 ^ (-d.exponent).toNat
      = quantaLimit := by rw [hzero, Nat.pow_zero, Nat.mul_one]
    _ ≤ 10 ^ k * quantaPerOne := hten
    _ ≤ 10 ^ d.exponent.toNat * quantaPerOne :=
        Nat.mul_le_mul_right _ (Nat.pow_le_pow_right (by decide) hexp)
    _ ≤ d.digits * 10 ^ d.exponent.toNat * quantaPerOne :=
        Nat.mul_le_mul_right _ (Nat.le_mul_of_pos_left _ (Nat.pos_of_ne_zero hd))

/-- The double of a decimal is its value in quanta, rounded. -/
theorem toDouble_eq_ofQuanta (negative : Bool) (d : Decimal) :
    d.toDouble negative = .ofQuanta negative (d.digits * 10 ^ d.exponent.toNat * quantaPerOne)
      (10 ^ (-d.exponent).toNat) := by
  have hden : 0 < 10 ^ (-d.exponent).toNat := Nat.pow_pos (by decide)
  rw [toDouble]
  by_cases hzero : d.digits = 0
  · rw [if_pos hzero, hzero, Nat.zero_mul, Nat.zero_mul]
    exact Double.ofQuanta_congr negative Nat.one_pos hden (by rw [Nat.zero_mul, Nat.zero_mul])
  · rw [if_neg hzero]
    by_cases hlarge : d.exponent > 400
    · rw [if_pos hlarge,
        Double.ofQuanta_eq_infinite negative hden (quantaLimit_le_quanta hzero hlarge)]
    · rw [if_neg hlarge]
      by_cases hsmall : d.exponent + d.digits.log2 + 1 < -400
      · -- too small for half a quantum, whatever the digits
        have hnum := nearestQuanta_eq_zero (two_mul_quanta_lt hsmall)
        have hone : nearestQuanta 0 1 = 0 := nearestQuanta_zero Nat.one_pos
        rw [if_pos hsmall]
        simp only [Double.ofQuanta, hnum, hone]
      · rw [if_neg hsmall]
        obtain ⟨digits, exponent⟩ := d
        cases exponent with
        | ofNat k => simp
        | negSucc k => simp

/-- Zeros at the end of the digits count as so much more exponent. -/
theorem toDouble_shift (negative : Bool) (digits k : ℕ) (exponent : ℤ) :
    toDouble negative ⟨digits * 10 ^ k, exponent⟩ = toDouble negative ⟨digits, exponent + k⟩ := by
  rw [toDouble_eq_ofQuanta, toDouble_eq_ofQuanta]
  refine Double.ofQuanta_congr negative (Nat.pow_pos (by decide)) (Nat.pow_pos (by decide)) ?_
  have hexp : k + exponent.toNat + (-(exponent + k)).toNat =
      (exponent + k).toNat + (-exponent).toNat := by omega
  calc digits * 10 ^ k * 10 ^ exponent.toNat * quantaPerOne * 10 ^ (-(exponent + k)).toNat
      = digits * quantaPerOne * 10 ^ (k + exponent.toNat + (-(exponent + k)).toNat) := by
        rw [Nat.pow_add, Nat.pow_add]; ring
    _ = digits * 10 ^ (exponent + k).toNat * quantaPerOne * 10 ^ (-exponent).toNat := by
        rw [hexp, Nat.pow_add]; ring

/-- The zeros that the significant digits leave out are in the place of the point. -/
theorem toDouble_significant (negative : Bool) (d : Decimal) :
    toDouble negative ⟨natOfDigits (significant d.digits),
      d.pointAfter - (significant d.digits).length⟩ = d.toDouble negative := by
  obtain ⟨digits, exponent⟩ := d
  obtain ⟨k, hdigits, hwidth⟩ := eq_natOfDigits_significant_mul digits
  have hexp : pointAfter ⟨digits, exponent⟩ - (significant digits).length = exponent + k := by
    change (width digits : ℤ) + exponent - (significant digits).length = exponent + k
    omega
  calc toDouble negative ⟨natOfDigits (significant digits), _⟩
      = toDouble negative ⟨natOfDigits (significant digits) * 10 ^ k, exponent⟩ := by
        rw [hexp, toDouble_shift]
    _ = toDouble negative ⟨digits, exponent⟩ :=
        congrArg (toDouble negative ⟨·, exponent⟩) hdigits.symm

/-! ## Reading back -/

theorem toDouble_of_readsAs (negative : Bool) {d : Decimal} {quanta : ℕ}
    (hq : Representable quanta) (h : d.ReadsAs quanta = true) :
    d.toDouble negative = .finite negative quanta hq := by
  rw [ReadsAs, toDouble_eq_ofQuanta] at h
  rw [toDouble_eq_ofQuanta]
  generalize d.digits * 10 ^ d.exponent.toNat * quantaPerOne = num at h ⊢
  generalize 10 ^ (-d.exponent).toNat = den at h ⊢
  by_cases hfit : nearestQuanta num den < quantaLimit
  · have hread : Double.ofQuanta false num den = .finite false (nearestQuanta num den) _ :=
      dif_pos hfit
    rw [hread] at h
    exact Double.ofQuanta_eq_finite hq (of_decide_eq_true h)
  · have hread : Double.ofQuanta false num den = .infinite false := dif_neg hfit
    rw [hread] at h
    exact absurd h Bool.false_ne_true

/-- Only zero is read from no digits. -/
theorem digits_ne_zero_of_readsAs {d : Decimal} {quanta : ℕ} (hq : Representable quanta)
    (hne : quanta ≠ 0) (h : d.ReadsAs quanta = true) : d.digits ≠ 0 := by
  intro hzero
  have hread := toDouble_of_readsAs false hq h
  have hone : nearestQuanta 0 1 = 0 := nearestQuanta_zero Nat.one_pos
  rw [toDouble, if_pos hzero, Double.ofQuanta_eq_finite ⟨quantaLimit_pos, Nat.dvd_zero _⟩ hone]
    at hread
  injection hread with _ heq
  exact hne heq.symm

theorem readsAs_exact {quanta : ℕ} (hq : Representable quanta) :
    (exact quanta).ReadsAs quanta = true := by
  obtain ⟨k, hk, hten⟩ : ∃ k, k = 1074 ∧ Nat.pow 5 1074 * quantaPerOne = 10 ^ k :=
    ⟨1074, rfl, by decide +kernel⟩
  have hnum : (exact quanta).digits * 10 ^ (exact quanta).exponent.toNat * quantaPerOne =
      quanta * 10 ^ k := by
    have hzero : (exact quanta).exponent.toNat = 0 := rfl
    calc (exact quanta).digits * 10 ^ (exact quanta).exponent.toNat * quantaPerOne
        = quanta * Nat.pow 5 1074 * quantaPerOne := by rw [hzero, Nat.pow_zero, Nat.mul_one, exact]
      _ = quanta * (Nat.pow 5 1074 * quantaPerOne) := Nat.mul_assoc _ _ _
      _ = quanta * 10 ^ k := by rw [hten]
  have hden : (-(exact quanta).exponent).toNat = k := hk.symm
  have hread : (exact quanta).toDouble false = .finite false quanta hq := by
    rw [toDouble_eq_ofQuanta, hnum, hden]
    exact Double.ofQuanta_eq_finite hq (nearestQuanta_mul_self (Nat.pow_pos (by decide)) hq.2)
  rw [ReadsAs, hread]
  exact decide_eq_true rfl

/-- Whichever neighbour is taken, its own reading was looked at. -/
theorem neighbour?_eq_some {tie : Tie} {quanta rest grid : ℕ} {lower upper d : Decimal}
    (h : neighbour? tie quanta rest grid lower upper = some d) :
    (d = lower ∨ d = upper) ∧ d.ReadsAs quanta = true := by
  unfold neighbour? at h
  rcases Bool.eq_false_or_eq_true (lower.ReadsAs quanta) with hlower | hlower
  · rcases Bool.eq_false_or_eq_true (upper.ReadsAs quanta) with hupper | hupper
    · have hboth : lower = d ∨ upper = d := by
        simp only [hlower, hupper] at h
        split at h
        · exact .inl (Option.some.inj h)
        · split at h
          · exact .inr (Option.some.inj h)
          · cases tie with
            | up => exact .inr (Option.some.inj h)
            | toEven =>
              simp only at h
              split at h
              · exact .inl (Option.some.inj h)
              · exact .inr (Option.some.inj h)
      rcases hboth with rfl | rfl
      · exact ⟨.inl rfl, hlower⟩
      · exact ⟨.inr rfl, hupper⟩
    · simp only [hlower, hupper, Option.some.injEq] at h
      exact ⟨.inl h.symm, h ▸ hlower⟩
  · rcases Bool.eq_false_or_eq_true (upper.ReadsAs quanta) with hupper | hupper
    · simp only [hlower, hupper, Option.some.injEq] at h
      exact ⟨.inr h.symm, h ▸ hupper⟩
    · simp only [hlower, hupper, reduceCtorEq] at h

/-- The decimal chosen for a double is one that is read as it. -/
theorem readsAs_shortest (tie : Tie) {quanta : ℕ} (hq : Representable quanta) :
    (shortest tie quanta).ReadsAs quanta = true := by
  rw [shortest]
  cases hfind : (List.range 17).findSome? fun n => withDigits? tie quanta (n + 1) with
  | none => exact readsAs_exact hq
  | some d =>
    obtain ⟨n, -, hn⟩ := List.exists_of_findSome?_eq_some hfind
    rw [withDigits?] at hn
    exact (neighbour?_eq_some hn).2

theorem toDouble_shortest (negative : Bool) (tie : Tie) {quanta : ℕ} (hq : Representable quanta) :
    (shortest tie quanta).toDouble negative = .finite negative quanta hq :=
  toDouble_of_readsAs negative hq (readsAs_shortest tie hq)

end DriveClient.Decimal
