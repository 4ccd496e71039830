import DriveClient.Double.Arith
import DriveClient.Proofs.Double.Rounding

/-!
# Operations on finite doubles

Small natural numbers are doubles (`ofNat_eq`), comparisons of numbers are comparisons of their
places on the line of quanta, and a product or quotient of finite doubles is the rounded ratio of
their quanta. Rounding a number that is not too large to a whole one gives a number that is one
(`round_finite`).
-/

namespace DriveClient

theorem quantaPerOne_eq : quantaPerOne = 2 ^ 1074 := by decide +kernel

theorem quantaLimit_eq : quantaLimit = 2 ^ 2098 := by decide +kernel

/-- One is many quanta. -/
theorem le_quantaPerOne {n k : ℕ} (hn : n ≤ 2 ^ k) (hk : k ≤ 1074) : n ≤ quantaPerOne := by
  obtain ⟨m, hm, hle⟩ : ∃ m, quantaPerOne = 2 ^ m ∧ k ≤ m := ⟨1074, quantaPerOne_eq, hk⟩
  rw [hm]
  exact Nat.le_trans hn (Nat.pow_le_pow_right (by decide) hle)

theorem quantaPerOne_pos : 0 < quantaPerOne := le_quantaPerOne (Nat.two_pow_pos 0) (by decide)

theorem cast_quantaPerOne_pos : (0 : ℚ) < quantaPerOne := Nat.cast_pos.2 quantaPerOne_pos

theorem quantaLimit_pos : 0 < quantaLimit := by
  obtain ⟨k, hk⟩ : ∃ k, quantaLimit = 2 ^ k := ⟨2098, quantaLimit_eq⟩
  rw [hk]
  exact Nat.two_pow_pos k

/-- Whole numbers far beyond 64 bits are still in range. -/
theorem mul_quantaPerOne_lt_quantaLimit {n : ℕ} (h : n ≤ 2 ^ 65) :
    n * quantaPerOne < quantaLimit := by
  obtain ⟨k, m, hk, hm, hlt⟩ : ∃ k m, quantaPerOne = 2 ^ k ∧ quantaLimit = 2 ^ m ∧ 65 + k < m :=
    ⟨1074, 2098, quantaPerOne_eq, quantaLimit_eq, by decide⟩
  rw [hk, hm]
  calc n * 2 ^ k ≤ 2 ^ 65 * 2 ^ k := Nat.mul_le_mul_right _ h
    _ = 2 ^ (65 + k) := (Nat.pow_add 2 65 k).symm
    _ < 2 ^ m := Nat.pow_lt_pow_right (by decide) hlt

/-- What is no larger than `2^53` stands on the grid of whole numbers. -/
theorem representable_mul_quantaPerOne {n : ℕ} (h : n ≤ 2 ^ 53) :
    Representable (n * quantaPerOne) := by
  constructor
  · exact mul_quantaPerOne_lt_quantaLimit (Nat.le_trans h (by decide))
  · obtain ⟨k, hk⟩ : ∃ k, quantaPerOne = 2 ^ k := ⟨1074, quantaPerOne_eq⟩
    rw [hk, Nat.mul_comm]
    exact spacing_dvd_mul k h

theorem representable_quantaPerOne : Representable quantaPerOne := by
  have h := representable_mul_quantaPerOne (n := 1) (by decide)
  rwa [Nat.one_mul] at h

theorem representable_two_pow_mul_quantaPerOne {k : ℕ} (h : k ≤ 65) :
    Representable (2 ^ k * quantaPerOne) := by
  constructor
  · exact mul_quantaPerOne_lt_quantaLimit (Nat.pow_le_pow_right (by decide) h)
  · obtain ⟨m, hm⟩ : ∃ m, quantaPerOne = 2 ^ m := ⟨1074, quantaPerOne_eq⟩
    rw [hm, ← Nat.pow_add]
    exact spacing_dvd_two_pow (k + m)

namespace Double

/-! ## Results of rounding -/

theorem ofQuanta_eq_finite {negative : Bool} {num den g : ℕ} (hg : Representable g)
    (h : nearestQuanta num den = g) : ofQuanta negative num den = .finite negative g hg := by
  subst h
  rw [ofQuanta, dif_pos hg.1]

/-- A ratio that is no larger than a double is rounded to a finite double that is not larger
either. -/
theorem ofQuanta_of_le (negative : Bool) {num den g : ℕ} (hg : Representable g) (hden : 0 < den)
    (h : num ≤ g * den) :
    nearestQuanta num den ≤ g ∧
      ∃ hfit, ofQuanta negative num den = .finite negative (nearestQuanta num den) hfit := by
  have hle := nearestQuanta_le hden hg.2 h
  have hfit : Representable (nearestQuanta num den) :=
    ⟨Nat.lt_of_le_of_lt hle hg.1, spacing_dvd_nearest num den⟩
  exact ⟨hle, hfit, ofQuanta_eq_finite hfit rfl⟩

theorem ofQuanta_eq_infinite (negative : Bool) {num den : ℕ} (hden : 0 < den)
    (h : quantaLimit * den ≤ num) : ofQuanta negative num den = .infinite negative := by
  obtain ⟨k, hk⟩ : ∃ k, quantaLimit = 2 ^ k := ⟨2098, quantaLimit_eq⟩
  have hgrid : spacing quantaLimit ∣ quantaLimit := hk ▸ spacing_dvd_two_pow k
  have hle : quantaLimit ≤ nearestQuanta num den := le_nearestQuanta hden hgrid h
  rw [ofQuanta, dif_neg (Nat.not_lt.2 hle)]

/-- Rounding gives the same double for every fraction with the same ratio. -/
theorem ofQuanta_congr (negative : Bool) {num den num' den' : ℕ} (hden : 0 < den) (hden' : 0 < den')
    (h : num * den' = num' * den) : ofQuanta negative num den = ofQuanta negative num' den' := by
  simp only [ofQuanta, nearestQuanta_congr hden hden' h]

/-- Small natural numbers are doubles. -/
theorem ofNat_eq {n : ℕ} (h : n ≤ 2 ^ 53) :
    ofNat n = .finite false (n * quantaPerOne) (representable_mul_quantaPerOne h) := by
  have hgrid := (representable_mul_quantaPerOne h).2
  have hself := nearestQuanta_mul_self Nat.one_pos hgrid
  rw [Nat.mul_one] at hself
  exact ofQuanta_eq_finite _ hself

/-! ## Comparison -/

theorem le_iff {x y : Double} {a b : ℤ} (hx : x.position? = some a) (hy : y.position? = some b) :
    x.le y = true ↔ a ≤ b := by
  simp [le, hx, hy]

theorem lt_iff {x y : Double} {a b : ℤ} (hx : x.position? = some a) (hy : y.position? = some b) :
    x.lt y = true ↔ a < b := by
  simp [lt, hx, hy]

theorem numEq_iff {x y : Double} {a b : ℤ} (hx : x.position? = some a)
    (hy : y.position? = some b) : x.numEq y = true ↔ a = b := by
  simp [numEq, hx, hy]

theorem position?_finite_false {a : ℕ} (ha : Representable a) :
    (finite false a ha).position? = some (a : ℤ) := rfl

theorem position?_finite_true {a : ℕ} (ha : Representable a) :
    (finite true a ha).position? = some (-(a : ℤ)) := rfl

theorem position?_infinite_false : (infinite false).position? = some (quantaLimit : ℤ) := rfl

theorem position?_infinite_true : (infinite true).position? = some (-(quantaLimit : ℤ)) := rfl

theorem position?_ofNat {n : ℕ} (h : n ≤ 2 ^ 53) :
    (ofNat n).position? = some ((n * quantaPerOne : ℕ) : ℤ) := by
  rw [ofNat_eq h, position?_finite_false]

theorem position?_zero : zero.position? = some 0 := by
  have h := position?_ofNat (Nat.zero_le (2 ^ 53))
  rwa [Nat.zero_mul] at h

/-! ## Products and quotients -/

theorem finite_mul_finite {s t : Bool} {a b : ℕ} (ha : Representable a) (hb : Representable b) :
    Double.finite s a ha * Double.finite t b hb = ofQuanta (s ^^ t) (a * b) quantaPerOne := by
  change mul (.finite s a ha) (.finite t b hb) = _
  rw [mul]

theorem finite_div_finite {s t : Bool} {a b : ℕ} (ha : Representable a) (hb : Representable b)
    (h : b ≠ 0) :
    Double.finite s a ha / Double.finite t b hb = ofQuanta (s ^^ t) (a * quantaPerOne) b := by
  change div (.finite s a ha) (.finite t b hb) = _
  rw [div, if_neg h]

theorem finite_div_zero {s t : Bool} {a b : ℕ} (ha : Representable a) (hb : Representable b)
    (h : b = 0) :
    Double.finite s a ha / Double.finite t b hb = if a = 0 then .nan else .infinite (s ^^ t) := by
  change div (.finite s a ha) (.finite t b hb) = _
  rw [div, if_pos h]

/-- A double times a small natural number: the quanta are multiplied, and the product is rounded. -/
theorem finite_mul_ofNat {s : Bool} {a n : ℕ} (ha : Representable a) (hn : n ≤ 2 ^ 53) :
    Double.finite s a ha * ofNat n = ofQuanta s (a * n) 1 := by
  rw [ofNat_eq hn, finite_mul_finite, Bool.xor_false]
  apply ofQuanta_congr s quantaPerOne_pos Nat.one_pos
  rw [Nat.mul_one, Nat.mul_assoc]

/-- A double through a small natural number: the quanta are divided, and the quotient is rounded. -/
theorem finite_div_ofNat {s : Bool} {a n : ℕ} (ha : Representable a) (hpos : 0 < n)
    (hn : n ≤ 2 ^ 53) : Double.finite s a ha / ofNat n = ofQuanta s a n := by
  have hfactor : 0 < n * quantaPerOne := Nat.mul_pos hpos quantaPerOne_pos
  rw [ofNat_eq hn, finite_div_finite _ _ hfactor.ne', Bool.xor_false]
  apply ofQuanta_congr s hfactor hpos
  rw [Nat.mul_assoc, Nat.mul_comm quantaPerOne n]

/-! ## Rounding to a whole number -/

theorem wholeQuanta_le {a n : ℕ} (h : a ≤ n * quantaPerOne) : wholeQuanta a ≤ n := by
  have hpos := quantaPerOne_pos
  rw [wholeQuanta, ← Nat.lt_succ_iff, Nat.div_lt_iff_lt_mul (by omega)]
  generalize quantaPerOne = q at *
  calc 2 * a + q < 2 * (n * q) + 2 * q := by omega
    _ = (n + 1) * (2 * q) := by ring

theorem wholeQuanta_mono {a b : ℕ} (h : a ≤ b) : wholeQuanta a ≤ wholeQuanta b :=
  Nat.div_le_div_right (by omega)

theorem wholeQuanta_zero : wholeQuanta 0 = 0 := Nat.le_zero.1 (wholeQuanta_le (Nat.zero_le _))

theorem wholeQuanta_mul (n : ℕ) : wholeQuanta (n * quantaPerOne) = n := by
  have hpos := quantaPerOne_pos
  rw [wholeQuanta]
  generalize quantaPerOne = q at *
  have hsplit : 2 * (n * q) + q = q + n * (2 * q) := by ring
  rw [hsplit, Nat.add_mul_div_right _ _ (by omega), Nat.div_eq_of_lt (by omega), Nat.zero_add]

/-- A whole number is half a unit away at most. -/
theorem two_mul_abs_wholeQuanta_sub_le (a : ℕ) :
    2 * |(wholeQuanta a : ℚ) - a / quantaPerOne| ≤ 1 := by
  have hpos := quantaPerOne_pos
  have hsplit := Nat.div_add_mod (2 * a + quantaPerOne) (2 * quantaPerOne)
  have hmod := Nat.mod_lt (2 * a + quantaPerOne) (show 0 < 2 * quantaPerOne by omega)
  rw [wholeQuanta]
  generalize (2 * a + quantaPerOne) / (2 * quantaPerOne) = n at *
  generalize quantaPerOne = q at *
  have hup : 2 * q * n ≤ 2 * a + q := by omega
  have hdown : 2 * a ≤ 2 * q * n + q := by omega
  have hq : (0 : ℚ) < q := by exact_mod_cast hpos
  have hup' : (2 * q * n : ℚ) ≤ 2 * a + q := by exact_mod_cast hup
  have hdown' : (2 * a : ℚ) ≤ 2 * q * n + q := by exact_mod_cast hdown
  have hratio : (a : ℚ) / q * q = a := div_mul_cancel₀ _ hq.ne'
  rw [← abs_two, ← abs_mul, abs_le]
  constructor
  · nlinarith
  · nlinarith

/-- The rounded number is the whole one, as long as that is small. -/
theorem round_finite {s : Bool} {a : ℕ} (ha : Representable a) (h : wholeQuanta a ≤ 2 ^ 53) :
    (Double.finite s a ha).round =
      .finite s (wholeQuanta a * quantaPerOne) (representable_mul_quantaPerOne h) := by
  have hgrid := (representable_mul_quantaPerOne h).2
  have hself := nearestQuanta_mul_self Nat.one_pos hgrid
  rw [Nat.mul_one] at hself
  rw [round]
  refine ofQuanta_eq_finite _ ?_
  exact hself

end Double

end DriveClient
