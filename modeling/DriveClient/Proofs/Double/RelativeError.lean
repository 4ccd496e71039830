import DriveClient.Proofs.Double.Rounding

/-!
# Relative error

A chain of rounded operations loses a few parts in `2^53`. Errors are counted in such parts: one
rounding adds one part, a quotient adds up the parts of its two sides, and a chain adds up the parts
of its links, with one part to spare for their product.
-/

namespace DriveClient

/-- `a` differs from `b` by no more than `k` parts in `2^53` of `b`. -/
def Within (k a b : ℚ) : Prop := |a - b| ≤ k / 2 ^ 53 * b

namespace Within

variable {a b c d j k : ℚ}

/-- One rounding from `2^52` quanta on. -/
theorem nearestQuanta {num den : ℕ} (hden : 0 < den) (h : num = 0 ∨ 2 ^ 52 * den ≤ num) :
    Within 1 (DriveClient.nearestQuanta num den) (num / den) := by
  have herror := abs_nearestQuanta_sub_le hden h
  rw [Within]
  linarith

/-- One rounding of a whole number of quanta: below `2^52` of them nothing is lost. -/
theorem nearestQuanta_one (n : ℕ) : Within 1 (DriveClient.nearestQuanta n 1) n := by
  by_cases hlarge : 2 ^ 52 * 1 ≤ n
  · have h := Within.nearestQuanta Nat.one_pos (.inr hlarge)
    push_cast at h
    rwa [div_one] at h
  · have hsmall : n ≤ Nat.pow 2 53 := by
      rw [Nat.pow_eq]
      omega
    have hgrid := spacing_dvd_mul 0 hsmall
    rw [Nat.pow_eq, Nat.pow_zero, Nat.one_mul] at hgrid
    have hself := nearestQuanta_mul_self Nat.one_pos hgrid
    rw [Nat.mul_one] at hself
    rw [Within, hself, sub_self, abs_zero]
    positivity

theorem mul_left (h : Within k a b) (hc : 0 ≤ c) : Within k (c * a) (c * b) := by
  rw [Within] at h ⊢
  rw [← mul_sub, abs_mul, abs_of_nonneg hc]
  calc c * |a - b| ≤ c * (k / 2 ^ 53 * b) := mul_le_mul_of_nonneg_left h hc
    _ = k / 2 ^ 53 * (c * b) := by ring

/-- A chain of two. -/
theorem trans (hab : Within j a b) (hbc : Within k b c) (hc : 0 ≤ c) (hj : 0 ≤ j)
    (hjk : j * k ≤ 2 ^ 53) : Within (j + k + 1) a c := by
  rw [Within] at hab hbc ⊢
  have hb : b ≤ c + k / 2 ^ 53 * c := by
    have := (abs_le.1 hbc).2
    linarith
  have hspare : j / 2 ^ 53 * (k / 2 ^ 53 * c) ≤ 1 / 2 ^ 53 * c := by
    have hmul : j * k * c ≤ 2 ^ 53 * c := mul_le_mul_of_nonneg_right hjk hc
    calc j / 2 ^ 53 * (k / 2 ^ 53 * c) = j * k * c / 2 ^ 106 := by ring
      _ ≤ 2 ^ 53 * c / 2 ^ 106 := by gcongr
      _ = 1 / 2 ^ 53 * c := by ring
  calc |a - c| ≤ |a - b| + |b - c| := abs_sub_le a b c
    _ ≤ j / 2 ^ 53 * b + k / 2 ^ 53 * c := add_le_add hab hbc
    _ ≤ j / 2 ^ 53 * (c + k / 2 ^ 53 * c) + k / 2 ^ 53 * c := by gcongr
    _ ≤ (j + k + 1) / 2 ^ 53 * c := by linarith

/-- A quotient of two numbers that are rounded once. -/
theorem div (hab : Within 1 a b) (hcd : Within 1 c d) (hb : 0 ≤ b) (hd : 0 < d) :
    Within 3 (a / c) (b / d) := by
  rw [Within] at hab hcd ⊢
  have hc : (1 - 1 / 2 ^ 53) * d ≤ c := by
    have := (abs_le.1 hcd).1
    linarith
  have hcpos : 0 < c := lt_of_lt_of_le (by positivity) hc
  have hcross : |a * d - c * b| ≤ 2 / 2 ^ 53 * (b * d) := by
    have hsplit : a * d - c * b = (a - b) * d - (c - d) * b := by ring
    have hleft : |(a - b) * d| ≤ 1 / 2 ^ 53 * b * d := by
      rw [abs_mul, abs_of_pos hd]
      exact mul_le_mul_of_nonneg_right hab hd.le
    have hright : |(c - d) * b| ≤ 1 / 2 ^ 53 * d * b := by
      rw [abs_mul, abs_of_nonneg hb]
      exact mul_le_mul_of_nonneg_right hcd hb
    rw [hsplit]
    calc |(a - b) * d - (c - d) * b| ≤ |(a - b) * d| + |(c - d) * b| := abs_sub _ _
      _ ≤ 1 / 2 ^ 53 * b * d + 1 / 2 ^ 53 * d * b := add_le_add hleft hright
      _ = 2 / 2 ^ 53 * (b * d) := by ring
  rw [div_sub_div _ _ hcpos.ne' hd.ne', abs_div, abs_of_pos (mul_pos hcpos hd),
    div_le_iff₀ (mul_pos hcpos hd)]
  have hbd : 0 ≤ b * d := mul_nonneg hb hd.le
  calc |a * d - c * b| ≤ 2 / 2 ^ 53 * (b * d) := hcross
    _ ≤ 3 / 2 ^ 53 * (b * ((1 - 1 / 2 ^ 53) * d)) := by linarith
    _ ≤ 3 / 2 ^ 53 * (b * c) := by gcongr
    _ = 3 / 2 ^ 53 * (b / d) * (c * d) := by field_simp

end Within

end DriveClient
