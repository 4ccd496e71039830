import DriveClient.Proofs.Double.Operations

/-!
# Where doubles end

A ratio is rounded past the largest double from half a spacing above it on, and not before
(`nearestQuanta_lt_quantaLimit_iff`). Large doubles are whole numbers, so rounding to a whole number
never passes the largest double (`round_eq`).
-/

namespace DriveClient

/-- The least count of quanta that is rounded past the largest double: the number
`2 ^ 1024 - 2 ^ 970`. -/
def overflowQuanta : ℕ := (Nat.pow 2 54 - 1) * Nat.pow 2 2044

/-- It lies half a spacing below the first power of two without a double. -/
theorem two_mul_overflowQuanta_add :
    2 * overflowQuanta + spacing overflowQuanta = 2 * quantaLimit := by decide +kernel

theorem quantaLimit_le_nearestQuanta_overflowQuanta :
    quantaLimit ≤ nearestQuanta overflowQuanta 1 := by decide +kernel

/-- Rounding stays among the finite doubles just below the point of overflow. -/
theorem nearestQuanta_lt_quantaLimit_iff {num den : ℕ} (hden : 0 < den) :
    nearestQuanta num den < quantaLimit ↔ num < overflowQuanta * den := by
  constructor
  · intro hfinite
    by_contra hge
    have hself := nearestQuanta_mul_right overflowQuanta 1 hden
    have hmono := nearestQuanta_mono_left hden (Nat.le_of_not_lt hge)
    rw [Nat.one_mul] at hself
    rw [hself] at hmono
    exact absurd (Nat.le_trans quantaLimit_le_nearestQuanta_overflowQuanta hmono)
      (Nat.not_le.2 hfinite)
  · intro hlt
    have hq : num / den < overflowQuanta := (Nat.div_lt_iff_lt_mul hden).2 hlt
    have hspacing : spacing (num / den) ≤ spacing overflowQuanta :=
      Nat.le_of_dvd (spacing_pos _) (spacing_dvd_spacing (log2_mono (Nat.le_of_lt hq)))
    have herror := two_mul_abs_nearestQuanta_sub_le num hden
    have hhalf := two_mul_overflowQuanta_add
    generalize spacing overflowQuanta = s at *
    generalize overflowQuanta = o at *
    generalize quantaLimit = limit at *
    have hden' : (0 : ℚ) < den := by exact_mod_cast hden
    have hratio : (num / den : ℚ) < o := by
      rw [div_lt_iff₀ hden']
      exact_mod_cast hlt
    have hup := (abs_le.1 (show |(nearestQuanta num den : ℚ) - num / den| ≤ s / 2 by
      have hs : (spacing (num / den) : ℚ) ≤ s := by exact_mod_cast hspacing
      linarith)).2
    have hhalf' : (2 * o + s : ℚ) = 2 * limit := by exact_mod_cast hhalf
    have hbelow : (nearestQuanta num den : ℚ) < limit := by linarith
    exact_mod_cast hbelow

namespace Double

theorem ofQuanta_of_lt_overflow (negative : Bool) {num den : ℕ} (hden : 0 < den)
    (h : num < overflowQuanta * den) :
    ∃ hfit, ofQuanta negative num den = .finite negative (nearestQuanta num den) hfit := by
  have hlt := (nearestQuanta_lt_quantaLimit_iff hden).2 h
  exact ⟨⟨hlt, spacing_dvd_nearest num den⟩, ofQuanta_eq_finite _ rfl⟩

theorem ofQuanta_of_overflow_le (negative : Bool) {num den : ℕ} (hden : 0 < den)
    (h : overflowQuanta * den ≤ num) : ofQuanta negative num den = .infinite negative := by
  have hnot : ¬nearestQuanta num den < quantaLimit := by
    rw [nearestQuanta_lt_quantaLimit_iff hden]
    exact Nat.not_lt.2 h
  rw [ofQuanta, dif_neg hnot]

/-! ## Whole doubles -/

/-- From `2^53` on every double is a whole number. -/
theorem quantaPerOne_dvd {a : ℕ} (ha : Representable a) (h : 2 ^ 53 * quantaPerOne ≤ a) :
    quantaPerOne ∣ a := by
  obtain ⟨k, hk⟩ : ∃ k, quantaPerOne = 2 ^ k := ⟨1074, quantaPerOne_eq⟩
  rw [hk, ← Nat.pow_add] at h
  have hne : a ≠ 0 := (Nat.lt_of_lt_of_le (Nat.two_pow_pos _) h).ne'
  have hlog : 53 + k ≤ a.log2 := (Nat.le_log2 hne).2 h
  have hwide : quantaPerOne ∣ spacing a := by
    rw [hk, spacing, Nat.pow_eq]
    exact Nat.pow_dvd_pow 2 (by omega)
  exact Nat.dvd_trans hwide ha.2

/-- Rounding a finite double to a whole number gives a finite double. -/
theorem round_eq (s : Bool) {a : ℕ} (ha : Representable a) :
    ∃ hfit, (Double.finite s a ha).round = .finite s (wholeQuanta a * quantaPerOne) hfit := by
  by_cases hsmall : wholeQuanta a ≤ 2 ^ 53
  · exact ⟨_, round_finite ha hsmall⟩
  · have hlarge : 2 ^ 53 * quantaPerOne ≤ a := by
      by_contra hlt
      exact hsmall (wholeQuanta_le (Nat.le_of_lt (Nat.lt_of_not_le hlt)))
    obtain ⟨m, hm⟩ := quantaPerOne_dvd ha hlarge
    have hwhole : wholeQuanta a * quantaPerOne = a := by
      rw [hm, Nat.mul_comm quantaPerOne m, wholeQuanta_mul]
    have hself := nearestQuanta_mul_self Nat.one_pos ha.2
    rw [Nat.mul_one] at hself
    rw [round]
    generalize wholeQuanta a * quantaPerOne = n at hwhole ⊢
    subst hwhole
    exact ⟨ha, ofQuanta_eq_finite ha hself⟩

end Double

end DriveClient
