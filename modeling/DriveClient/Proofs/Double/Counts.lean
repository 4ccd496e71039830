import DriveClient.Proofs.Double.Operations

/-!
# Counts as doubles

The double nearest to a natural number of up to 64 bits is finite (`ofNat_eq_count`). Its quanta are
those of the number, rounded, and they grow with the number.
-/

namespace DriveClient

open Double

/-- The quanta of the double nearest to a natural number. -/
def countQuanta (n : ℕ) : ℕ := nearestQuanta (n * quantaPerOne) 1

theorem countQuanta_le {n : ℕ} (h : n ≤ 2 ^ 64) : countQuanta n ≤ 2 ^ 64 * quantaPerOne := by
  apply nearestQuanta_le Nat.one_pos (representable_two_pow_mul_quantaPerOne (by decide)).2
  rw [Nat.mul_one]
  exact Nat.mul_le_mul_right _ h

theorem countQuanta_zero : countQuanta 0 = 0 := by
  rw [countQuanta, Nat.zero_mul, nearestQuanta_zero Nat.one_pos]

/-- A count that is not zero is at least one, also after rounding. -/
theorem quantaPerOne_le_countQuanta {n : ℕ} (h : 0 < n) : quantaPerOne ≤ countQuanta n := by
  apply le_nearestQuanta Nat.one_pos representable_quantaPerOne.2
  rw [Nat.mul_one]
  exact Nat.le_mul_of_pos_left _ h

theorem countQuanta_mono {m n : ℕ} (h : m ≤ n) : countQuanta m ≤ countQuanta n :=
  nearestQuanta_mono_left Nat.one_pos (Nat.mul_le_mul_right _ h)

theorem ofNat_eq_count {n : ℕ} (h : n ≤ 2 ^ 64) :
    ∃ hfit, ofNat n = .finite false (countQuanta n) hfit := by
  refine (ofQuanta_of_le false (representable_two_pow_mul_quantaPerOne (k := 64) (by decide))
    Nat.one_pos ?_).2
  rw [Nat.mul_one]
  exact Nat.mul_le_mul_right _ h

/-- A word of 64 bits is a number within the range of doubles. -/
theorem isFinite_ofNat (count : UInt64) : (ofNat count.toNat).isFinite := by
  obtain ⟨hfit, heq⟩ := ofNat_eq_count (Nat.le_of_lt count.toNat_lt)
  rw [heq]
  rfl

end DriveClient
