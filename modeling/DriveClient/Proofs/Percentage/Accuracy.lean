import Mathlib.Data.Rat.Floor
import DriveClient.Proofs.Double.Number
import DriveClient.Proofs.Percentage.Normalization
import DriveClient.Proofs.Quantity.Display

/-!
# Accuracy of percentages

On the scale of a hundred a value is rounded to the nearest whole percentage, a half going up. On the
scale of one its hundredfold is rounded to a double before, so the percentage may be off by a little
more than a half. On either scale larger values never have smaller percentages
(`normalization_accurate`).
-/

namespace DriveClient

open Double

/-- Rounding to a whole number with a half going up is the floor of the number and a half. -/
theorem Double.wholeQuanta_eq_floor (a : ℕ) :
    (wholeQuanta a : ℤ) = ⌊(a / quantaPerOne : ℚ) + 1 / 2⌋ := by
  have hq := cast_quantaPerOne_pos.ne'
  rw [wholeQuanta]
  generalize quantaPerOne = q at *
  have hsum : (a / q : ℚ) + 1 / 2 = ((2 * a + q : ℕ) : ℚ) / ((2 * q : ℕ) : ℚ) := by
    push_cast
    field_simp
  rw [hsum, Rat.floor_natCast_div_natCast, Int.natCast_div]

namespace Percentage

open Quantity (hundredths hundredths_mono abs_hundredths_sub_le)

/-! ## The two scales -/

section Scales

variable {v : Double} {x : ℚ} (hv : v.number? = some x)

include hv

/-- On the scale of one the percentage is the number of hundredths. -/
theorem ofValue_ratio (hlow : 0 ≤ x) (hhigh : x ≤ 1) :
    ∃ p quanta, ofValue v = .ok p ∧ p.value = hundredths quanta ∧ x = quanta / quantaPerOne := by
  have hzeroLe : zero.le v = true := (zero_le_iff_of_number? hv).2 hlow
  have hleOne : v.le (ofNat 1) = true := by
    rw [le_ofNat_iff_of_number? hv (by decide), Nat.cast_one]
    exact hhigh
  have hleHundred : v.le (ofNat 100) = true := by
    rw [le_ofNat_iff_of_number? hv (by decide), Nat.cast_ofNat]
    exact hhigh.trans (by norm_num)
  obtain ⟨p, hp, hvalue, -⟩ := ofValue_of_between hzeroLe hleHundred
  rw [scaled, if_pos hleOne] at hvalue
  rcases finite_of_between (by decide) hzeroLe hleOne with ⟨a, ha, rfl, hle⟩ | ⟨h, rfl⟩
  · rw [Nat.one_mul] at hle
    obtain ⟨-, hfit, hproduct⟩ := mul_hundred_of_ratio false ha hle
    rw [number?_finite_false, Option.some_inj] at hv
    refine ⟨p, a, hp, ?_, hv.symm⟩
    rw [hvalue, hproduct, roundToNat, hundredths]
  · -- zero with a sign is zero
    obtain ⟨-, hfit, hproduct⟩ := mul_hundred_of_ratio true h (Nat.zero_le _)
    rw [number?_finite_true, Option.some_inj, Nat.cast_zero, neg_zero] at hv
    have hnone : (finite true _ hfit).roundToNat = 0 := rfl
    refine ⟨p, 0, hp, ?_, by rw [← hv, Nat.cast_zero]⟩
    rw [hvalue, hproduct, hnone, hundredths, Nat.zero_mul, nearestQuanta_zero Nat.one_pos,
      wholeQuanta_zero]

/-- On the scale of a hundred the percentage is the nearest whole number. -/
theorem ofValue_percentage (hlow : 1 < x) (hhigh : x ≤ 100) :
    ∃ p quanta, ofValue v = .ok p ∧ p.value = wholeQuanta quanta ∧ x = quanta / quantaPerOne := by
  have hzeroLe : zero.le v = true := (zero_le_iff_of_number? hv).2 (zero_le_one.trans hlow.le)
  have hnotOne : ¬v.le (ofNat 1) = true := by
    rw [le_ofNat_iff_of_number? hv (by decide), Nat.cast_one]
    exact not_le.2 hlow
  have hleHundred : v.le (ofNat 100) = true := by
    rw [le_ofNat_iff_of_number? hv (by decide), Nat.cast_ofNat]
    exact hhigh
  obtain ⟨p, hp, hvalue, -⟩ := ofValue_of_between hzeroLe hleHundred
  rw [scaled, if_neg hnotOne] at hvalue
  rcases finite_of_between (by decide) hzeroLe hleHundred with ⟨a, ha, rfl, -⟩ | ⟨h, rfl⟩
  · rw [number?_finite_false, Option.some_inj] at hv
    refine ⟨p, a, hp, ?_, hv.symm⟩
    rw [hvalue, roundToNat]
  · rw [number?_finite_true, Option.some_inj, Nat.cast_zero, neg_zero, zero_div] at hv
    exact absurd hlow (by rw [← hv]; norm_num)

end Scales

/-! ## Accuracy and order -/

/-- **Normalization is accurate and grows with the value on each scale.** A double from zero to one
becomes a whole percentage that is off its hundredfold by a half and `2 ^ -46` at most; one above
one and up to a hundred becomes the nearest whole percentage, a half going up; and of two doubles on
one scale the larger one has no smaller percentage. -/
theorem normalization_accurate {v w : Double} {x y : ℚ} (hv : v.number? = some x)
    (hw : w.number? = some y) :
    (0 ≤ x → x ≤ 1 →
      ∃ p, ofValue v = .ok p ∧ |(p.value : ℚ) - 100 * x| ≤ 1 / 2 + 1 / 2 ^ 46) ∧
    (1 < x → x ≤ 100 → ∃ p, ofValue v = .ok p ∧ (p.value : ℤ) = ⌊x + 1 / 2⌋) ∧
    (x ≤ y → 0 ≤ x ∧ y ≤ 1 ∨ 1 < x ∧ y ≤ 100 →
      ∃ p q, ofValue v = .ok p ∧ ofValue w = .ok q ∧ p.value ≤ q.value) := by
  refine ⟨?_, ?_, ?_⟩
  · intro hlow hhigh
    obtain ⟨p, quanta, hp, hvalue, rfl⟩ := ofValue_ratio hv hlow hhigh
    refine ⟨p, hp, ?_⟩
    have herror := abs_hundredths_sub_le quanta
    rw [← hvalue] at herror
    linarith
  · intro hlow hhigh
    obtain ⟨p, quanta, hp, hvalue, rfl⟩ := ofValue_percentage hv hlow hhigh
    exact ⟨p, hp, by rw [hvalue, wholeQuanta_eq_floor]⟩
  · rintro hle (⟨hlow, hhigh⟩ | ⟨hlow, hhigh⟩)
    · obtain ⟨p, a, hp, hvalueP, rfl⟩ := ofValue_ratio hv hlow (hle.trans hhigh)
      obtain ⟨q, b, hq, hvalueQ, rfl⟩ := ofValue_ratio hw (hlow.trans hle) hhigh
      rw [div_le_div_iff_of_pos_right cast_quantaPerOne_pos, Nat.cast_le] at hle
      refine ⟨p, q, hp, hq, ?_⟩
      rw [hvalueP, hvalueQ]
      exact hundredths_mono hle
    · obtain ⟨p, a, hp, hvalueP, rfl⟩ := ofValue_percentage hv hlow (hle.trans hhigh)
      obtain ⟨q, b, hq, hvalueQ, rfl⟩ := ofValue_percentage hw (hlow.trans_le hle) hhigh
      rw [div_le_div_iff_of_pos_right cast_quantaPerOne_pos, Nat.cast_le] at hle
      refine ⟨p, q, hp, hq, ?_⟩
      rw [hvalueP, hvalueQ]
      exact wholeQuanta_mono hle

/-- The double nearest to `0.015` is below it, but its hundredfold is rounded to one and a half, and
this to two. -/
theorem normalization_accurate_hundredfold_rounded :
    let v := Decimal.toDouble false ⟨15, -3⟩
    let w := Decimal.toDouble false ⟨155, -3⟩
    let x : ℚ := 1080863910568919 / 2 ^ 56
    let y : ℚ := 5584463537939415 / 2 ^ 55
    v.number? = some x ∧ w.number? = some y ∧ 0 ≤ x ∧ 100 * x < 3 / 2 ∧ x ≤ y ∧ y ≤ 1 ∧
      ofValue v = .ok ⟨2, by decide⟩ ∧ |(2 : ℚ) - 100 * x| ≤ 1 / 2 + 1 / 2 ^ 46 ∧
      ∃ q, ofValue w = .ok q ∧ 2 ≤ q.value := by
  intro v w x y
  have hv : v.number? = some x := by decide +kernel
  have hw : w.number? = some y := by decide +kernel
  have hp : ofValue v = .ok ⟨2, by decide⟩ := by decide +kernel
  have hlow : 0 ≤ x := by norm_num [x]
  have hhalf : 100 * x < 3 / 2 := by norm_num [x]
  have hle : x ≤ y := by norm_num [x, y]
  have hhigh : y ≤ 1 := by norm_num [y]
  obtain ⟨hratio, -, hmono⟩ := normalization_accurate hv hw
  obtain ⟨p, hp', herror⟩ := hratio hlow (hle.trans hhigh)
  obtain ⟨p', q, hp'', hq, hmore⟩ := hmono hle (.inl ⟨hlow, hhigh⟩)
  rw [hp, Except.ok.injEq] at hp' hp''
  subst hp' hp''
  exact ⟨hv, hw, hlow, hhalf, hle, hhigh, hp, herror, q, hq, hmore⟩

end Percentage

end DriveClient
