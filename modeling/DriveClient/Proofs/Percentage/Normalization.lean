import DriveClient.Percentage
import DriveClient.Proofs.Double.Operations

/-!
# Normalization of percentages

A number from zero to a hundred, whichever of the two scales it is on, is brought to the scale of a
hundred and rounded there to a whole percentage (`ofValue_of_between`). Every other double is
refused, for one of two reasons that exclude each other (`ofValue_eq_notFinite_iff`,
`ofValue_eq_outOfRange_iff`).
-/

namespace DriveClient

namespace Double

variable {v : Double} {n : ℕ}

/-! ## Numbers from zero to a bound -/

theorem position?_one : (ofNat 1).position? = some (quantaPerOne : ℤ) := by
  rw [position?_ofNat (by decide), Nat.one_mul]

theorem position?_hundred : (ofNat 100).position? = some ((100 * quantaPerOne : ℕ) : ℤ) :=
  position?_ofNat (by decide)

theorem exists_position?_of_isFinite (h : v.isFinite = true) : ∃ p, v.position? = some p := by
  cases v with
  | finite negative a ha => exact ⟨_, rfl⟩
  | infinite negative => exact absurd h Bool.false_ne_true
  | nan => exact absurd h Bool.false_ne_true

/-- A number from zero to `n` is a positive double with no more quanta than `n`, or negative zero. -/
theorem finite_of_between (hn : n ≤ 2 ^ 53) (hlow : zero.le v = true)
    (hhigh : v.le (ofNat n) = true) :
    (∃ a ha, v = .finite false a ha ∧ a ≤ n * quantaPerOne) ∨ ∃ h, v = .finite true 0 h := by
  have hbound := position?_ofNat hn
  cases v with
  | finite negative a ha =>
    cases negative with
    | false =>
      rw [le_iff (position?_finite_false ha) hbound] at hhigh
      exact Or.inl ⟨a, ha, rfl, by exact_mod_cast hhigh⟩
    | true =>
      -- with a sign only zero itself is not below zero
      rw [le_iff position?_zero (position?_finite_true ha)] at hlow
      obtain rfl : a = 0 := by omega
      exact Or.inr ⟨ha, rfl⟩
  | infinite negative =>
    -- the place of an infinity is past that of every whole number
    have hlimit := mul_quantaPerOne_lt_quantaLimit (Nat.le_trans hn (by decide : 2 ^ 53 ≤ 2 ^ 65))
    cases negative with
    | false =>
      rw [le_iff position?_infinite_false hbound] at hhigh
      omega
    | true =>
      rw [le_iff position?_zero position?_infinite_true] at hlow
      omega
  | nan => exact absurd hhigh Bool.false_ne_true

theorem isFinite_of_between (hn : n ≤ 2 ^ 53) (hlow : zero.le v = true)
    (hhigh : v.le (ofNat n) = true) : v.isFinite = true := by
  rcases finite_of_between hn hlow hhigh with ⟨a, ha, rfl, -⟩ | ⟨h, rfl⟩
  · rfl
  · rfl

/-- A number from zero to `n` rounds to a whole number from zero to `n`. -/
theorem round_of_between (hn : n ≤ 2 ^ 53) (hlow : zero.le v = true)
    (hhigh : v.le (ofNat n) = true) :
    v.roundToNat ≤ n ∧ v.round.numEq (ofNat v.roundToNat) = true := by
  rcases finite_of_between hn hlow hhigh with ⟨a, ha, rfl, hle⟩ | ⟨h, rfl⟩
  · have hwhole : wholeQuanta a ≤ n := wholeQuanta_le hle
    have hsmall : wholeQuanta a ≤ 2 ^ 53 := Nat.le_trans hwhole hn
    have hnat : (finite false a ha).roundToNat = wholeQuanta a := rfl
    rw [hnat, round_finite ha hsmall]
    exact ⟨hwhole, (numEq_iff (position?_finite_false _) (position?_ofNat hsmall)).2 rfl⟩
  · have hsmall : wholeQuanta 0 ≤ 2 ^ 53 := by
      rw [wholeQuanta_zero]
      exact Nat.zero_le _
    have hnat : (finite true 0 h).roundToNat = 0 := rfl
    rw [hnat, round_finite h hsmall]
    refine ⟨Nat.zero_le n, (numEq_iff (position?_finite_true _) position?_zero).2 ?_⟩
    rw [wholeQuanta_zero, Nat.zero_mul]
    rfl

/-- A hundred times a ratio is rounded once, and not past a hundred. -/
theorem mul_hundred_of_ratio (negative : Bool) {a : ℕ} (ha : Representable a)
    (h : a ≤ quantaPerOne) :
    nearestQuanta (a * 100) 1 ≤ 100 * quantaPerOne ∧
      ∃ hfit, Double.finite negative a ha * ofNat 100 =
        .finite negative (nearestQuanta (a * 100) 1) hfit := by
  rw [finite_mul_ofNat ha (by decide)]
  apply ofQuanta_of_le negative (representable_mul_quantaPerOne (by decide)) Nat.one_pos
  omega

theorem between_mul_hundred (hlow : zero.le v = true) (hhigh : v.le (ofNat 1) = true) :
    zero.le (v * ofNat 100) = true ∧ (v * ofNat 100).le (ofNat 100) = true := by
  rcases finite_of_between (by decide) hlow hhigh with ⟨a, ha, rfl, hle⟩ | ⟨h, rfl⟩
  · rw [Nat.one_mul] at hle
    obtain ⟨hproduct, hfit, heq⟩ := mul_hundred_of_ratio false ha hle
    rw [heq, le_iff position?_zero (position?_finite_false hfit),
      le_iff (position?_finite_false hfit) position?_hundred]
    exact ⟨by omega, by exact_mod_cast hproduct⟩
  · obtain ⟨-, hfit, heq⟩ := mul_hundred_of_ratio true h (Nat.zero_le _)
    have hzero : nearestQuanta (0 * 100) 1 = 0 := nearestQuanta_zero Nat.one_pos
    rw [heq, le_iff position?_zero (position?_finite_true hfit),
      le_iff (position?_finite_true hfit) position?_hundred, hzero]
    exact ⟨by omega, by omega⟩

end Double

namespace Percentage

open Double

variable {v : Double}

/-! ## Values that are accepted -/

/-- A value from zero to a hundred on the scale of a hundred: a ratio is scaled up, and exactly one
is a ratio. -/
def scaled (v : Double) : Double := if v.le (ofNat 1) then v * ofNat 100 else v

theorem scaled_between (hlow : zero.le v = true) (hhigh : v.le (ofNat 100) = true) :
    zero.le (scaled v) = true ∧ (scaled v).le (ofNat 100) = true := by
  rw [scaled]
  by_cases hratio : v.le (ofNat 1) = true
  · rw [if_pos hratio]
    exact between_mul_hundred hlow hratio
  · rw [if_neg hratio]
    exact ⟨hlow, hhigh⟩

theorem onHundred?_of_between (hlow : zero.le v = true) (hhigh : v.le (ofNat 100) = true) :
    onHundred? v = some (scaled v) := by
  obtain ⟨p, hp⟩ := exists_position?_of_isFinite (isFinite_of_between (by decide) hlow hhigh)
  rw [onHundred?, scaled]
  by_cases hratio : v.le (ofNat 1) = true
  · rw [if_pos hratio, if_pos (by rw [hlow, hratio]; rfl)]
  · have habove : (ofNat 1).lt v = true := by
      rw [le_iff hp position?_one] at hratio
      rw [lt_iff position?_one hp]
      omega
    rw [if_neg hratio, if_neg (by simp [hratio]), if_pos (by rw [habove, hhigh]; rfl)]

/-- A value from zero to a hundred is brought to the scale of a hundred and rounded, and the bound of
the type does not cut what rounding gives. -/
theorem ofValue_of_between (hlow : zero.le v = true) (hhigh : v.le (ofNat 100) = true) :
    ∃ p, ofValue v = .ok p ∧ p.value = (scaled v).roundToNat ∧
      (scaled v).round.numEq (ofNat p.value) = true := by
  obtain ⟨hscaledLow, hscaledHigh⟩ := scaled_between hlow hhigh
  obtain ⟨hle, hround⟩ := round_of_between (by decide) hscaledLow hscaledHigh
  have hcut : (nearest (scaled v)).value = (scaled v).roundToNat := Nat.min_eq_left hle
  refine ⟨nearest (scaled v), ?_, hcut, ?_⟩
  · rw [ofValue, if_pos (isFinite_of_between (by decide) hlow hhigh),
      onHundred?_of_between hlow hhigh]
  · rw [hcut]
    exact hround

/-! ## Values that are refused -/

theorem ofValue_of_not_isFinite (h : v.isFinite = false) : ofValue v = .error (.notFinite v) := by
  rw [ofValue, h, if_neg Bool.false_ne_true]

theorem isFinite_of_ofValue_ne (h : ofValue v ≠ .error (.notFinite v)) : v.isFinite = true := by
  by_contra hnot
  exact h (ofValue_of_not_isFinite (Bool.eq_false_of_not_eq_true hnot))

theorem ofValue_of_outside (hfinite : v.isFinite = true)
    (h : v.lt zero = true ∨ (ofNat 100).lt v = true) : ofValue v = .error (.outOfRange v) := by
  obtain ⟨p, hp⟩ := exists_position?_of_isFinite hfinite
  rw [lt_iff hp position?_zero, lt_iff position?_hundred hp] at h
  -- neither of the two scales takes the value
  have hscale : onHundred? v = none := by
    rw [onHundred?, if_neg, if_neg]
    · rw [Bool.and_eq_true, lt_iff position?_one hp, le_iff hp position?_hundred]
      omega
    · rw [Bool.and_eq_true, le_iff position?_zero hp, le_iff hp position?_one]
      omega
  rw [ofValue, if_pos hfinite, hscale]

/-- A finite value is from zero to a hundred or outside. -/
theorem between_or_outside (hfinite : v.isFinite = true) :
    (zero.le v = true ∧ v.le (ofNat 100) = true) ∨
      (v.lt zero = true ∨ (ofNat 100).lt v = true) := by
  obtain ⟨p, hp⟩ := exists_position?_of_isFinite hfinite
  rw [le_iff position?_zero hp, le_iff hp position?_hundred, lt_iff hp position?_zero,
    lt_iff position?_hundred hp]
  omega

theorem ofValue_eq_notFinite_iff : ofValue v = .error (.notFinite v) ↔ v.isFinite = false := by
  constructor
  · intro h
    by_contra hfinite
    rw [Bool.not_eq_false] at hfinite
    rcases between_or_outside hfinite with ⟨hlow, hhigh⟩ | hout
    · obtain ⟨p, hp, -⟩ := ofValue_of_between hlow hhigh
      rw [hp] at h
      cases h
    · rw [ofValue_of_outside hfinite hout] at h
      cases h
  · exact ofValue_of_not_isFinite

theorem ofValue_eq_outOfRange_iff :
    ofValue v = .error (.outOfRange v) ↔
      v.isFinite = true ∧ (v.lt zero = true ∨ (ofNat 100).lt v = true) := by
  constructor
  · intro h
    have hfinite : v.isFinite = true := isFinite_of_ofValue_ne (by rw [h]; simp)
    refine ⟨hfinite, ?_⟩
    rcases between_or_outside hfinite with ⟨hlow, hhigh⟩ | hout
    · obtain ⟨p, hp, -⟩ := ofValue_of_between hlow hhigh
      rw [hp] at h
      cases h
    · exact hout
  · intro ⟨hfinite, hout⟩
    exact ofValue_of_outside hfinite hout

/-- What is not refused is accepted, with the percentage that rounding gives. -/
theorem exists_ofValue_eq_ok_iff :
    (∃ p, ofValue v = .ok p ∧ (scaled v).round.numEq (ofNat p.value) = true ∧
        (scaled v).roundToNat = p.value) ↔
      v.isFinite = true ∧ ¬(v.lt zero = true ∨ (ofNat 100).lt v = true) := by
  constructor
  · rintro ⟨p, hp, -⟩
    have hfinite : v.isFinite = true := isFinite_of_ofValue_ne (by rw [hp]; simp)
    refine ⟨hfinite, fun hout => ?_⟩
    rw [ofValue_of_outside hfinite hout] at hp
    cases hp
  · intro ⟨hfinite, hin⟩
    rcases between_or_outside hfinite with ⟨hlow, hhigh⟩ | hout
    · obtain ⟨p, hp, hvalue, hround⟩ := ofValue_of_between hlow hhigh
      exact ⟨p, hp, hround, hvalue.symm⟩
    · exact absurd hout hin

/-- A refusal carries the value that was refused. -/
theorem value_of_ofValue_eq_error {refusal : Refusal} (h : ofValue v = .error refusal) :
    refusal.value = v := by
  rw [ofValue] at h
  split at h
  · split at h
    · cases h
    · cases h
      rfl
  · cases h
    rfl

end Percentage

end DriveClient
