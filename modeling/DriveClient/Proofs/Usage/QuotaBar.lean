import DriveClient.Proofs.Double.RelativeError
import DriveClient.Proofs.Percentage.Bar
import DriveClient.Proofs.Usage.Ratio

/-!
# The bar of a usage within its quota

Two counts of bytes become a bar by four roundings to a double and one to a whole percentage. None of
them lets the ratio pass one, where it would be read on the other scale, so the bar is the percentage
that one expects, up to the errors of the roundings (`quotaBar_right`).
-/

namespace DriveClient

open Double

namespace Usage

/-- The quanta of the rounded ratio of two counts. -/
def ratioQuanta (used total : ℕ) : ℕ :=
  nearestQuanta (countQuanta used * quantaPerOne) (countQuanta total)

/-- The quanta of the rounded ratio on the scale of a hundred. -/
def hundredQuanta (used total : ℕ) : ℕ := nearestQuanta (ratioQuanta used total * 100) 1

/-- The whole percentage of two counts. -/
def percent (used total : ℕ) : ℕ := wholeQuanta (hundredQuanta used total)

section

variable {used total : ℕ}

/-! ## Within the quota -/

theorem countQuanta_pos (h : 0 < total) : 0 < countQuanta total :=
  Nat.lt_of_lt_of_le quantaPerOne_pos (quantaPerOne_le_countQuanta h)

theorem countQuanta_mul_le (h : used ≤ total) :
    countQuanta used * quantaPerOne ≤ quantaPerOne * countQuanta total := by
  rw [Nat.mul_comm]
  exact Nat.mul_le_mul_left _ (countQuanta_mono h)

/-- The ratio does not creep above one. -/
theorem ratioQuanta_le (htotal : 0 < total) (h : used ≤ total) :
    ratioQuanta used total ≤ quantaPerOne :=
  nearestQuanta_le (countQuanta_pos htotal) representable_quantaPerOne.2 (countQuanta_mul_le h)

theorem ratio_ofBytes_eq (hlimit : total ≤ 2 ^ 64) (htotal : 0 < total) (h : used ≤ total) :
    ∃ hfit, (ofBytes used total).ratio = .finite false (ratioQuanta used total) hfit := by
  obtain ⟨hfitU, hofNatU⟩ := ofNat_eq_count (Nat.le_trans h hlimit)
  obtain ⟨hfitT, hofNatT⟩ := ofNat_eq_count hlimit
  rw [ratio_ofBytes (Nat.le_trans h hlimit) hlimit, hofNatU, hofNatT,
    finite_div_finite _ _ (countQuanta_pos htotal).ne']
  exact (ofQuanta_of_le false representable_quantaPerOne (countQuanta_pos htotal)
    (countQuanta_mul_le h)).2

/-- The bar of a usage within its quota is the bar of its percentage, and nothing is logged. -/
theorem bar_ofBytes (hlimit : total ≤ 2 ^ 64) (htotal : 0 < total) (h : used ≤ total) :
    ∃ p : Percentage, (ofBytes used total).bar = ⟨.ofPercentage p, []⟩ ∧
      p.value = percent used total := by
  obtain ⟨hfit, hratio⟩ := ratio_ofBytes_eq hlimit htotal h
  have hle := ratioQuanta_le htotal h
  rw [bar, hratio]
  generalize hv : Double.finite false (ratioQuanta used total) hfit = v
  have hplace : v.position? = some (ratioQuanta used total : ℤ) := by
    rw [← hv, position?_finite_false]
  have hone : v.le (ofNat 1) = true := by
    rw [le_iff hplace position?_one]
    exact_mod_cast hle
  have hhundred : v.le (ofNat 100) = true := by
    rw [le_iff hplace position?_hundred]
    omega
  have hzero : zero.le v = true := by
    rw [le_iff position?_zero hplace]
    omega
  obtain ⟨p, hp, hvalue, -⟩ := Percentage.ofValue_of_between hzero hhundred
  refine ⟨p, Bar.ofValue_of_ok hp, ?_⟩
  -- the ratio is no more than one, so it is read on the scale of one
  obtain ⟨-, hfitH, hmul⟩ := mul_hundred_of_ratio false hfit hle
  rw [hvalue, Percentage.scaled, if_pos hone, ← hv, hmul]
  rfl

/-! ## The percentage -/

theorem ratioQuanta_zero (htotal : 0 < total) : ratioQuanta 0 total = 0 := by
  rw [ratioQuanta, countQuanta_zero, Nat.zero_mul, nearestQuanta_zero (countQuanta_pos htotal)]

theorem percent_zero (htotal : 0 < total) : percent 0 total = 0 := by
  rw [percent, hundredQuanta, ratioQuanta_zero htotal, Nat.zero_mul, nearestQuanta_zero Nat.one_pos,
    wholeQuanta_zero]

theorem percent_self (htotal : 0 < total) : percent total total = 100 := by
  have hratio : ratioQuanta total total = quantaPerOne := by
    rw [ratioQuanta, Nat.mul_comm]
    exact nearestQuanta_mul_self (countQuanta_pos htotal) representable_quantaPerOne.2
  have hgrid := (representable_mul_quantaPerOne (n := 100) (by decide)).2
  have hhundred := nearestQuanta_mul_self Nat.one_pos hgrid
  rw [Nat.mul_one] at hhundred
  rw [percent, hundredQuanta, hratio, Nat.mul_comm, hhundred, wholeQuanta_mul]

/-- More bytes never give a smaller percentage. -/
theorem percent_mono (htotal : 0 < total) {more : ℕ} (h : used ≤ more) :
    percent used total ≤ percent more total := by
  have hcount := countQuanta_mono h
  have hratio : ratioQuanta used total ≤ ratioQuanta more total :=
    nearestQuanta_mono_left (countQuanta_pos htotal) (Nat.mul_le_mul_right _ hcount)
  have hhundred : hundredQuanta used total ≤ hundredQuanta more total :=
    nearestQuanta_mono_left Nat.one_pos (Nat.mul_le_mul_right _ hratio)
  exact wholeQuanta_mono hhundred

/-! ## The error of the percentage -/

theorem within_countQuanta (n : ℕ) : Within 1 (countQuanta n) (n * quantaPerOne) := by
  have h := Within.nearestQuanta_one (n * quantaPerOne)
  rw [← countQuanta] at h
  push_cast at h
  exact h

/-- The ratio of two counts is far from the least doubles. -/
theorem ratio_large (hlimit : total ≤ 2 ^ 64) (hused : 0 < used) :
    2 ^ 52 * countQuanta total ≤ countQuanta used * quantaPerOne := by
  have hq : 2 ^ 52 * 2 ^ 64 ≤ quantaPerOne := by
    rw [← Nat.pow_add]
    exact le_quantaPerOne (Nat.le_refl _) (by decide)
  calc 2 ^ 52 * countQuanta total ≤ 2 ^ 52 * (2 ^ 64 * quantaPerOne) :=
        Nat.mul_le_mul_left _ (countQuanta_le hlimit)
    _ = 2 ^ 52 * 2 ^ 64 * quantaPerOne := by ring
    _ ≤ countQuanta used * quantaPerOne :=
        Nat.mul_le_mul_right _ (Nat.le_trans hq (quantaPerOne_le_countQuanta hused))

theorem within_ratioQuanta (used : ℕ) (hlimit : total ≤ 2 ^ 64) (htotal : 0 < total) :
    Within 5 (ratioQuanta used total) (quantaPerOne * (used / total)) := by
  have hlarge : countQuanta used * quantaPerOne = 0 ∨
      2 ^ 52 * countQuanta total ≤ countQuanta used * quantaPerOne := by
    rcases Nat.eq_zero_or_pos used with hu | hu
    · left
      rw [hu, countQuanta_zero, Nat.zero_mul]
    · right
      exact ratio_large hlimit hu
  have hround := Within.nearestQuanta (countQuanta_pos htotal) hlarge
  have hused := within_countQuanta used
  have hcount := within_countQuanta total
  have hq := cast_quantaPerOne_pos
  rw [← ratioQuanta] at hround
  generalize quantaPerOne = q at *
  have ht : (0 : ℚ) < total := by exact_mod_cast htotal
  -- the two counts are rounded once each
  have hcounts : Within 3 (countQuanta used / countQuanta total) (used / total) := by
    have hdiv := hused.div hcount (by positivity) (mul_pos ht hq)
    rwa [mul_div_mul_right _ _ hq.ne'] at hdiv
  -- and then their ratio
  push_cast at hround
  rw [mul_div_right_comm, mul_comm] at hround
  have h := hround.trans (hcounts.mul_left hq.le) (by positivity) (by norm_num) (by norm_num)
  norm_num at h
  exact h

theorem within_hundredQuanta (used : ℕ) (hlimit : total ≤ 2 ^ 64) (htotal : 0 < total) :
    Within 7 (hundredQuanta used total) (quantaPerOne * (100 * used / total)) := by
  have hround := Within.nearestQuanta_one (ratioQuanta used total * 100)
  have hratio := within_ratioQuanta used hlimit htotal
  have hq := cast_quantaPerOne_pos
  rw [← hundredQuanta] at hround
  generalize quantaPerOne = q at *
  have ht : (0 : ℚ) < total := by exact_mod_cast htotal
  push_cast at hround
  rw [mul_comm] at hround
  have hscaled := hratio.mul_left (show (0 : ℚ) ≤ 100 by norm_num)
  have h := hround.trans hscaled (by positivity) (by norm_num) (by norm_num)
  have hvalue : (100 : ℚ) * (q * (used / total)) = q * (100 * used / total) := by ring
  norm_num at h
  rwa [hvalue] at h

/-- The percentage is right up to the rounding to a whole one and `10 ^ -12` for the others. -/
theorem abs_percent_sub_le (hlimit : total ≤ 2 ^ 64) (htotal : 0 < total) (h : used ≤ total) :
    |(percent used total : ℚ) - 100 * used / total| ≤ 1 / 2 + 1 / 10 ^ 12 := by
  have hwhole := two_mul_abs_wholeQuanta_sub_le (hundredQuanta used total)
  have herror := within_hundredQuanta used hlimit htotal
  have hq := cast_quantaPerOne_pos
  rw [← percent] at hwhole
  generalize quantaPerOne = q at *
  have ht : (0 : ℚ) < total := by exact_mod_cast htotal
  have hle : 100 * (used : ℚ) / total ≤ 100 := by
    rw [div_le_iff₀ ht]
    have : (used : ℚ) ≤ total := by exact_mod_cast h
    linarith
  -- the roundings to a double cost seven parts in `2 ^ 53` of a hundred at most
  have hratio : |(hundredQuanta used total : ℚ) / q - 100 * used / total| ≤ 7 / 2 ^ 53 * 100 := by
    have hscaled := herror.mul_left (show (0 : ℚ) ≤ 1 / q by positivity)
    have hback : 1 / (q : ℚ) * (q * (100 * used / total)) = 100 * used / total := by field_simp
    rw [Within, hback, one_div_mul_eq_div] at hscaled
    exact le_trans hscaled (mul_le_mul_of_nonneg_left hle (by norm_num))
  calc |(percent used total : ℚ) - 100 * used / total|
      ≤ |(percent used total : ℚ) - hundredQuanta used total / q| +
          |(hundredQuanta used total : ℚ) / q - 100 * used / total| := abs_sub_le _ _ _
    _ ≤ 1 / 2 + 7 / 2 ^ 53 * 100 := add_le_add (by linarith) hratio
    _ ≤ 1 / 2 + 1 / 10 ^ 12 := by norm_num

end

/-! ## The bar -/

/-- **The quota bar is right.** For two counts of bytes with a total that is not zero and a used part
within it: nothing is logged; the filled percentage is the exact one up to rounding to a whole
percentage and `10 ^ -12`; nothing used gives an empty bar, and all used gives a full bar without a
second part; and more used bytes never give a smaller percentage. -/
theorem quotaBar_right (used total : UInt64) (hpositive : 0 < total) (hquota : used ≤ total) :
    let bar (count : UInt64) : Logged Bar := (ofBytes count.toNat total.toNat).bar
    let filled (count : UInt64) : ℕ := (bar count).value.filled.value
    (bar used).log = [] ∧
      |(filled used : ℚ) - 100 * used.toNat / total.toNat| ≤ 1 / 2 + 1 / 10 ^ 12 ∧
      (used = 0 → filled used = 0) ∧
      (used = total → filled used = 100 ∧ (bar used).value.remainder = none) ∧
      ∀ less : UInt64, less ≤ used → filled less ≤ filled used := by
  intro bar filled
  have htotal : 0 < total.toNat := UInt64.lt_iff_toNat_lt.1 hpositive
  have hlimit : total.toNat ≤ 2 ^ 64 := Nat.le_of_lt total.toNat_lt
  -- within the quota a bar is that of the percentage
  have hbar (count : UInt64) (h : count ≤ total) :
      ∃ p : Percentage, bar count = ⟨.ofPercentage p, []⟩ ∧
        p.value = percent count.toNat total.toNat :=
    bar_ofBytes hlimit htotal (UInt64.le_iff_toNat_le.1 h)
  have hfilled (count : UInt64) (h : count ≤ total) :
      filled count = percent count.toNat total.toNat := by
    obtain ⟨p, hp, hvalue⟩ := hbar count h
    rw [← hvalue]
    simp only [filled, hp, Bar.ofPercentage]
  obtain ⟨p, hp, hvalue⟩ := hbar used hquota
  refine ⟨by rw [hp], ?_, ?_, ?_, ?_⟩
  · rw [hfilled used hquota]
    exact abs_percent_sub_le hlimit htotal (UInt64.le_iff_toNat_le.1 hquota)
  · intro hzero
    rw [hfilled used hquota, hzero]
    exact percent_zero htotal
  · intro hall
    have hfull : p.value = 100 := by
      rw [hvalue, hall]
      exact percent_self htotal
    rw [hfilled used hquota, ← hvalue, hp]
    exact ⟨hfull, (Bar.ofPercentage_remainder_eq_none_iff p).2 hfull⟩
  · intro less hless
    rw [hfilled used hquota, hfilled less (UInt64.le_trans hless hquota)]
    exact percent_mono htotal (UInt64.le_iff_toNat_le.1 hless)

/-- Two counts that are no doubles and differ by one byte: the ratio is rounded to one, so the bar is
full although one byte is left. -/
theorem quotaBar_right_one_byte_left :
    let total : UInt64 := 18446744073709551615
    let used : UInt64 := 18446744073709551614
    let bar := (ofBytes used.toNat total.toNat).bar
    0 < total ∧ used ≤ total ∧ bar.log = [] ∧ bar.value.filled.value = 100 ∧
      |(bar.value.filled.value : ℚ) - 100 * used.toNat / total.toNat| ≤ 1 / 2 + 1 / 10 ^ 12 := by
  intro total used bar
  have h := quotaBar_right used total (by decide) (by decide)
  exact ⟨by decide, by decide, h.1, by decide +kernel, h.2.1⟩

end Usage

end DriveClient
