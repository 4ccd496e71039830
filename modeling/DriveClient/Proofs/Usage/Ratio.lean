import DriveClient.Usage.Basic
import DriveClient.Proofs.Double.Counts
import DriveClient.Proofs.Double.Number

/-!
# The ratio of two counts of bytes

A count of bytes may be too large for a double and is rounded then. Bringing it to a unit is exact,
because units are powers of two (`scale_eq`, `scale_mul_size`). The ratio of two counts is therefore
the same in every unit (`ratio_inUnit`).
-/

namespace DriveClient

open Double

/-! ## Units -/

namespace ByteUnit

theorem exists_size_eq_two_pow (unit : ByteUnit) : ∃ k, k ≤ 30 ∧ unit.size = 2 ^ k := by
  cases unit with
  | byte => exact ⟨0, by decide, rfl⟩
  | kilobyte => exact ⟨10, by decide, rfl⟩
  | megabyte => exact ⟨20, by decide, rfl⟩
  | gigabyte => exact ⟨30, by decide, rfl⟩

theorem size_pos (unit : ByteUnit) : 0 < unit.size := by
  obtain ⟨k, -, hsize⟩ := unit.exists_size_eq_two_pow
  rw [hsize]
  exact Nat.two_pow_pos k

theorem size_le (unit : ByteUnit) : unit.size ≤ 2 ^ 53 := by
  obtain ⟨k, hk, hsize⟩ := unit.exists_size_eq_two_pow
  rw [hsize]
  exact Nat.pow_le_pow_right (by decide) (by omega)

/-- The quanta of a count have more factors of two than any unit, and without those of the unit they
are still on the grid. -/
theorem exists_countQuanta_eq (unit : ByteUnit) {n : ℕ} (h : n ≤ 2 ^ 64) :
    ∃ u, countQuanta n = unit.size * u ∧ Representable u := by
  obtain ⟨k, hk, hsize⟩ := unit.exists_size_eq_two_pow
  obtain ⟨hfit, -⟩ := ofNat_eq_count h
  by_cases hzero : n = 0
  · subst hzero
    rw [countQuanta_zero] at hfit ⊢
    exact ⟨0, (Nat.mul_zero _).symm, hfit⟩
  · obtain ⟨m, hm, hmk⟩ : ∃ m, quantaPerOne = 2 ^ m ∧ 82 ≤ m := ⟨1074, quantaPerOne_eq, by decide⟩
    have hlog : 82 ≤ (n * quantaPerOne).log2 := by
      have hone : 2 ^ m ≤ n * quantaPerOne := by
        rw [hm]
        exact Nat.le_mul_of_pos_left _ (Nat.pos_of_ne_zero hzero)
      have hne : n * quantaPerOne ≠ 0 := Nat.mul_ne_zero hzero quantaPerOne_pos.ne'
      exact Nat.le_trans hmk ((Nat.le_log2 hne).2 hone)
    -- the spacing is a power of two, with more factors than the size of the unit
    obtain ⟨whole, hwhole, hcount⟩ := nearestQuanta_eq_mul (n * quantaPerOne) 1
    rw [Nat.div_one, spacing, Nat.pow_eq] at hcount
    obtain ⟨e, he⟩ : ∃ e, (n * quantaPerOne).log2 - 52 = k + e := Nat.exists_eq_add_of_le (by omega)
    rw [he, Nat.pow_add, Nat.mul_assoc, ← hsize] at hcount
    refine ⟨2 ^ e * whole, hcount, ?_, spacing_dvd_mul e hwhole⟩
    calc 2 ^ e * whole ≤ unit.size * (2 ^ e * whole) := by
          exact Nat.le_mul_of_pos_left _ unit.size_pos
      _ = countQuanta n := hcount.symm
      _ < quantaLimit := hfit.1

theorem scale_eq (unit : ByteUnit) {n : ℕ} (h : n ≤ 2 ^ 64) :
    ∃ u hfit, countQuanta n = unit.size * u ∧ unit.scale n = .finite false u hfit := by
  obtain ⟨u, hu, hfit⟩ := unit.exists_countQuanta_eq h
  obtain ⟨hcount, heq⟩ := ofNat_eq_count h
  refine ⟨u, hfit, hu, ?_⟩
  have hpos := unit.size_pos
  rw [scale, heq, ofNat_eq unit.size_le,
    finite_div_finite _ _ (Nat.mul_ne_zero hpos.ne' quantaPerOne_pos.ne')]
  apply ofQuanta_eq_finite hfit
  -- the exact quotient is on the grid
  have hnum : countQuanta n * quantaPerOne = u * (unit.size * quantaPerOne) := by
    rw [hu]
    ring
  rw [hnum]
  exact nearestQuanta_mul_self (Nat.mul_pos hpos quantaPerOne_pos) hfit.2

/-- A count in a unit times the size of the unit is the count again. -/
theorem scale_mul_size (unit : ByteUnit) {n : ℕ} (h : n ≤ 2 ^ 64) :
    unit.scale n * Double.ofNat unit.size = Double.ofNat n := by
  obtain ⟨u, hfit, hcount, hscale⟩ := unit.scale_eq h
  obtain ⟨hfitN, hofNat⟩ := ofNat_eq_count h
  have hself := nearestQuanta_mul_self Nat.one_pos hfitN.2
  rw [Nat.mul_one, hcount, Nat.mul_comm] at hself
  rw [hscale, hofNat, finite_mul_ofNat hfit unit.size_le]
  apply ofQuanta_eq_finite hfitN
  rw [hself, hcount, Nat.mul_comm]

/-- The same for the numbers that the doubles stand for. -/
theorem exists_number?_scale (unit : ByteUnit) {n : ℕ} (h : n ≤ 2 ^ 64) :
    ∃ x, (unit.scale n).number? = some x ∧
      (Double.ofNat n).number? = some (x * unit.size) := by
  obtain ⟨u, hfit, hcount, hscale⟩ := unit.scale_eq h
  obtain ⟨hfitN, hofNat⟩ := ofNat_eq_count h
  refine ⟨_, by rw [hscale, number?_finite_false], ?_⟩
  rw [hofNat, number?_finite_false, hcount, Nat.cast_mul, mul_comm, mul_div_right_comm]

end ByteUnit

/-! ## Ratios -/

namespace Usage

/-- The usage for two counts of bytes in a unit, whether that fits the total or not. -/
def inUnit (unit : ByteUnit) (used total : ℕ) : Usage :=
  ⟨unit.scale used, unit.scale total, unit.symbol⟩

theorem ofBytes_eq_inUnit (used total : ℕ) :
    ofBytes used total = inUnit (.fitting total) used total := rfl

/-- The ratio of two counts is the same in every unit: that of the two nearest doubles. -/
theorem ratio_inUnit (unit : ByteUnit) {used total : ℕ} (hused : used ≤ 2 ^ 64)
    (htotal : total ≤ 2 ^ 64) : (inUnit unit used total).ratio = ofNat used / ofNat total := by
  obtain ⟨u, hu, hcountU, hscaleU⟩ := unit.scale_eq hused
  obtain ⟨t, ht, hcountT, hscaleT⟩ := unit.scale_eq htotal
  obtain ⟨hfitU, hofNatU⟩ := ofNat_eq_count hused
  obtain ⟨hfitT, hofNatT⟩ := ofNat_eq_count htotal
  have hpos := unit.size_pos
  change unit.scale used / unit.scale total = _
  rw [hscaleU, hscaleT, hofNatU, hofNatT]
  by_cases hzero : t = 0
  · -- a total of nothing: the ratio is infinite, or it is no number, in every unit
    have hnone : countQuanta total = 0 := by rw [hcountT, hzero, Nat.mul_zero]
    have hsame : u = 0 ↔ countQuanta used = 0 := by
      rw [hcountU, Nat.mul_eq_zero]
      omega
    rw [finite_div_zero _ _ hzero, finite_div_zero _ _ hnone]
    simp only [hsame]
  · have hnonzero : countQuanta total ≠ 0 := by
      rw [hcountT]
      exact Nat.mul_ne_zero hpos.ne' hzero
    rw [finite_div_finite _ _ hzero, finite_div_finite _ _ hnonzero]
    apply ofQuanta_congr _ (Nat.pos_of_ne_zero hzero) (Nat.pos_of_ne_zero hnonzero)
    rw [hcountU, hcountT]
    ring

/-- So it is in the unit that fits the total. -/
theorem ratio_ofBytes {used total : ℕ} (hused : used ≤ 2 ^ 64) (htotal : total ≤ 2 ^ 64) :
    (ofBytes used total).ratio = ofNat used / ofNat total :=
  ratio_inUnit (.fitting total) hused htotal

end Usage

end DriveClient
