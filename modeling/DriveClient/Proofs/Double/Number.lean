import DriveClient.Proofs.Double.Operations

/-!
# The numbers that doubles stand for

A finite double stands for a rational number, its quanta over those of the number one. Doubles
compare as the numbers that they stand for (`le_iff_of_number?`), and small natural numbers stand
for themselves (`number?_ofNat`).
-/

namespace DriveClient.Double

/-- The number that a finite double stands for. -/
def number? : Double → Option ℚ
  | .finite negative quanta _ =>
    some ((if negative then -(quanta : ℚ) else quanta) / quantaPerOne)
  | _ => none

variable {v w : Double} {x y : ℚ}

theorem number?_finite_false {a : ℕ} (ha : Representable a) :
    (finite false a ha).number? = some (a / quantaPerOne : ℚ) := by
  rw [number?, if_neg Bool.false_ne_true]

theorem number?_finite_true {a : ℕ} (ha : Representable a) :
    (finite true a ha).number? = some (-a / quantaPerOne : ℚ) := by
  rw [number?, if_pos rfl]

theorem number?_ofNat {n : ℕ} (h : n ≤ 2 ^ 53) : (ofNat n).number? = some (n : ℚ) := by
  rw [ofNat_eq h, number?_finite_false, Nat.cast_mul,
    mul_div_cancel_right₀ _ cast_quantaPerOne_pos.ne']

theorem number?_zero : zero.number? = some 0 := by
  have h := number?_ofNat (Nat.zero_le (2 ^ 53))
  rwa [Nat.cast_zero] at h

/-! ## Comparison -/

/-- The number is the place of the double, counted in quanta. -/
theorem exists_position?_of_number? (h : v.number? = some x) :
    ∃ p : ℤ, v.position? = some p ∧ x = p / quantaPerOne := by
  cases v with
  | finite negative quanta hq =>
    cases negative with
    | false =>
      rw [number?_finite_false, Option.some_inj] at h
      exact ⟨quanta, position?_finite_false hq, by rw [← h, Int.cast_natCast]⟩
    | true =>
      rw [number?_finite_true, Option.some_inj] at h
      exact ⟨-quanta, position?_finite_true hq, by rw [← h, Int.cast_neg, Int.cast_natCast]⟩
  | infinite negative => cases h
  | nan => cases h

theorem le_iff_of_number? (hv : v.number? = some x) (hw : w.number? = some y) :
    v.le w = true ↔ x ≤ y := by
  obtain ⟨p, hp, rfl⟩ := exists_position?_of_number? hv
  obtain ⟨r, hr, rfl⟩ := exists_position?_of_number? hw
  rw [le_iff hp hr, div_le_div_iff_of_pos_right cast_quantaPerOne_pos, Int.cast_le]

theorem zero_le_iff_of_number? (hv : v.number? = some x) : zero.le v = true ↔ 0 ≤ x :=
  le_iff_of_number? number?_zero hv

theorem le_ofNat_iff_of_number? (hv : v.number? = some x) {n : ℕ} (hn : n ≤ 2 ^ 53) :
    v.le (ofNat n) = true ↔ x ≤ n :=
  le_iff_of_number? hv (number?_ofNat hn)

end DriveClient.Double
