import DriveClient.Proofs.Double.Overflow

/-!
# Powers by repeated squaring

Each multiplication of the squaring loop is rounded, and a square that is off is squared again. In
all, a power of a number from one on is no more than the exact power, taken of a base that is larger
by one rounding (`UpTo.powBits`). Hence the powers of ten do not overflow before the exponent 309
(`upTo_pow_ten`).
-/

namespace DriveClient.Double

/-! ## One multiplication -/

/-- By how much one rounding enlarges at most. -/
def roundingFactor : ℚ := 1 + 1 / 2 ^ 53

/-- The least number that is rounded past the largest double. -/
def overflowNumber : ℚ := overflowQuanta / quantaPerOne

/-- Doubles from one on, up to a bound. -/
def UpTo (bound : ℚ) (x : Double) : Prop :=
  ∃ quanta hfit, x = .finite false quanta hfit ∧ quantaPerOne ≤ quanta ∧
    (quanta / quantaPerOne : ℚ) ≤ bound

theorem one_le_roundingFactor : 1 ≤ roundingFactor := by norm_num [roundingFactor]

theorem nearestQuanta_le_mul_roundingFactor {num den : ℕ} (hden : 0 < den)
    (h : 2 ^ 52 * den ≤ num) : (nearestQuanta num den : ℚ) ≤ num / den * roundingFactor := by
  have hup := (abs_le.1 (abs_nearestQuanta_sub_le hden (.inr h))).2
  rw [roundingFactor]
  linarith

namespace UpTo

variable {x y : Double} {A B : ℚ}

theorem one_le (h : UpTo A x) : 1 ≤ A := by
  obtain ⟨a, -, -, hone, hA⟩ := h
  refine le_trans ?_ hA
  rw [one_le_div cast_quantaPerOne_pos]
  exact_mod_cast hone

theorem ofNat {n : ℕ} (hpos : 0 < n) (hn : n ≤ 2 ^ 53) : UpTo n (Double.ofNat n) := by
  refine ⟨n * quantaPerOne, representable_mul_quantaPerOne hn, ofNat_eq hn, ?_, ?_⟩
  · exact Nat.le_mul_of_pos_left _ hpos
  · rw [Nat.cast_mul, mul_div_cancel_right₀ _ cast_quantaPerOne_pos.ne']

/-- The exact product of the quanta is within the product of the bounds. -/
theorem quanta_mul_le {a b : ℕ} (hA : (a / quantaPerOne : ℚ) ≤ A)
    (hB : (b / quantaPerOne : ℚ) ≤ B) (hA0 : 0 ≤ A) :
    (a * b : ℚ) ≤ A * B * (quantaPerOne * quantaPerOne) := by
  have hq := cast_quantaPerOne_pos
  generalize quantaPerOne = q at *
  rw [div_le_iff₀ hq] at hA hB
  calc (a * b : ℚ) ≤ A * q * (B * q) := by gcongr
    _ = A * B * (q * q) := by ring

/-- A product that is below the overflow even after its rounding does not overflow. -/
theorem quanta_mul_lt {a b : ℕ} (hexact : (a * b : ℚ) ≤ A * B * (quantaPerOne * quantaPerOne))
    (hAB : 0 ≤ A * B) (h : A * B * roundingFactor < overflowNumber) :
    a * b < overflowQuanta * quantaPerOne := by
  have hc := one_le_roundingFactor
  have hq := cast_quantaPerOne_pos
  rw [overflowNumber] at h
  generalize overflowQuanta = limit at *
  generalize quantaPerOne = q at *
  rw [lt_div_iff₀ hq] at h
  have hlt : (a * b : ℚ) < limit * q := by
    calc (a * b : ℚ) ≤ A * B * (q * q) := hexact
      _ ≤ A * B * roundingFactor * (q * q) :=
          mul_le_mul_of_nonneg_right (le_mul_of_one_le_right hAB hc) (by positivity)
      _ = A * B * roundingFactor * q * q := by ring
      _ < limit * q := by gcongr
  exact_mod_cast hlt

/-- A product is rounded once. -/
theorem mul (hx : UpTo A x) (hy : UpTo B y) (h : A * B * roundingFactor < overflowNumber) :
    UpTo (A * B * roundingFactor) (x * y) := by
  have hA1 := hx.one_le
  have hB1 := hy.one_le
  obtain ⟨a, ha, rfl, haone, hA⟩ := hx
  obtain ⟨b, hb, rfl, hbone, hB⟩ := hy
  have hexact := quanta_mul_le hA hB (zero_le_one.trans hA1)
  have hfinite := quanta_mul_lt hexact (by positivity) h
  obtain ⟨hfit, hproduct⟩ := ofQuanta_of_lt_overflow false quantaPerOne_pos hfinite
  have hone : quantaPerOne * quantaPerOne ≤ a * b := Nat.mul_le_mul haone hbone
  have hlarge : 2 ^ 52 * quantaPerOne ≤ a * b := by
    have hmany : 2 ^ 52 ≤ quantaPerOne := le_quantaPerOne (k := 52) (Nat.le_refl _) (by decide)
    exact Nat.mul_le_mul (Nat.le_trans hmany haone) hbone
  have hround := nearestQuanta_le_mul_roundingFactor quantaPerOne_pos hlarge
  refine ⟨_, hfit, ?_, le_nearestQuanta quantaPerOne_pos representable_quantaPerOne.2 hone, ?_⟩
  · rw [finite_mul_finite, Bool.xor_self]
    exact hproduct
  · have hc := one_le_roundingFactor
    have hq := cast_quantaPerOne_pos
    generalize nearestQuanta (a * b) quantaPerOne = rounded at *
    generalize quantaPerOne = q at *
    rw [div_le_iff₀ hq]
    push_cast at hround
    calc (rounded : ℚ) ≤ a * b / q * roundingFactor := hround
      _ ≤ A * B * (q * q) / q * roundingFactor := by gcongr
      _ = A * B * roundingFactor * q := by field_simp

/-! ## The squaring loop -/

/-- The exponent loses its lowest bit. -/
theorem log2_half {n above : ℕ} (h : n.log2 = above + 1) : 2 ≤ n ∧ (n / 2).log2 = above := by
  have hn : 2 ≤ n := by
    by_contra hsmall
    rw [Nat.log2_def, if_neg hsmall] at h
    exact absurd h (by omega)
  rw [Nat.log2_def, if_pos hn] at h
  exact ⟨hn, by omega⟩

section Bounds

variable (hA : 1 ≤ A) (hB : 1 ≤ B)

include hA hB

theorem product_le {n : ℕ} (hn : 1 ≤ n) :
    A * B * roundingFactor ≤ A * (B * roundingFactor) ^ n := by
  have hBc : 1 ≤ B * roundingFactor := one_le_mul_of_one_le_of_one_le hB one_le_roundingFactor
  calc A * B * roundingFactor = A * (B * roundingFactor) ^ 1 := by ring
    _ ≤ A * (B * roundingFactor) ^ n := by gcongr

theorem square_le {n : ℕ} (hn : 2 ≤ n) :
    B * B * roundingFactor ≤ A * (B * roundingFactor) ^ n := by
  have hc := one_le_roundingFactor
  have hBc : 1 ≤ B * roundingFactor := one_le_mul_of_one_le_of_one_le hB hc
  calc B * B * roundingFactor ≤ B * B * roundingFactor * roundingFactor :=
        le_mul_of_one_le_right (by positivity) hc
    _ = (B * roundingFactor) ^ 2 := by ring
    _ ≤ (B * roundingFactor) ^ n := pow_le_pow_right₀ hBc hn
    _ ≤ A * (B * roundingFactor) ^ n := le_mul_of_one_le_left (by positivity) hA

end Bounds

/-- The bound after a step that squares the base, for the half of an exponent. -/
theorem bound_square (B : ℚ) (half : ℕ) :
    (B * B * roundingFactor * roundingFactor) ^ half = (B * roundingFactor) ^ (2 * half) := by
  rw [pow_mul]
  congr 1
  ring

/-- The loop keeps the bound `A * (B * roundingFactor) ^ n`: a step moves factors from the power to the
accumulator, or to the base. -/
theorem powBits {n above : ℕ} (hacc : UpTo A x) (hbase : UpTo B y) (habove : n.log2 = above)
    (h : A * (B * roundingFactor) ^ n < overflowNumber) :
    UpTo (A * (B * roundingFactor) ^ n) (Double.powBits x y n above) := by
  induction above generalizing x y A B n with
  | zero =>
    have hn : n < 2 ^ 1 := by
      by_cases hzero : n = 0
      · omega
      · exact (Nat.log2_lt hzero).1 (by omega)
    rw [Double.powBits]
    obtain rfl | rfl : n = 0 ∨ n = 1 := by omega
    · rw [if_neg (by decide), pow_zero, mul_one]
      exact hacc
    · rw [pow_one, ← mul_assoc] at h ⊢
      rw [if_pos (by decide)]
      exact hacc.mul hbase h
  | succ above ih =>
    obtain ⟨hn, hhalf⟩ := log2_half habove
    have hA := hacc.one_le
    have hB := hbase.one_le
    have hsquare : UpTo (B * B * roundingFactor) (y * y) :=
      hbase.mul hbase (lt_of_le_of_lt (square_le hA hB hn) h)
    rw [Double.powBits]
    by_cases hodd : n % 2 = 1
    · have hsplit : n = 1 + 2 * (n / 2) := by omega
      have hbound : A * B * roundingFactor * (B * B * roundingFactor * roundingFactor) ^ (n / 2) =
          A * (B * roundingFactor) ^ n := by
        rw [bound_square]
        conv_rhs => rw [hsplit, pow_add, pow_one]
        ring
      have hproduct : UpTo (A * B * roundingFactor) (x * y) :=
        hacc.mul hbase (lt_of_le_of_lt (product_le hA hB (by omega)) h)
      rw [if_pos hodd, ← hbound]
      exact ih hproduct hsquare hhalf (hbound ▸ h)
    · have hsplit : n = 2 * (n / 2) := by omega
      have hbound : A * (B * B * roundingFactor * roundingFactor) ^ (n / 2) =
          A * (B * roundingFactor) ^ n := by
        rw [bound_square, ← hsplit]
      rw [if_neg hodd, ← hbound]
      exact ih hacc hsquare hhalf (hbound ▸ h)

end UpTo

/-! ## Powers of ten -/

/-- Even with all its roundings the power is below the largest double. -/
theorem pow_ten_lt : (10 * roundingFactor) ^ 308 < overflowNumber := by
  have hnat : (10 * (2 ^ 53 + 1)) ^ 308 * quantaPerOne < overflowQuanta * (2 ^ 53) ^ 308 := by
    decide +kernel
  have hpos := quantaPerOne_pos
  have hfactor : 10 * roundingFactor = (10 * (2 ^ 53 + 1)) / 2 ^ 53 := by
    rw [roundingFactor]
    norm_num
  rw [hfactor, overflowNumber, div_pow]
  generalize overflowQuanta = limit at *
  generalize quantaPerOne = q at *
  rw [div_lt_div_iff₀ (by positivity) (by exact_mod_cast hpos)]
  exact_mod_cast hnat

theorem upTo_pow_ten {n : ℕ} (hn : n ≤ 308) :
    UpTo ((10 * roundingFactor) ^ n) ((Double.ofNat 10).powNat n) := by
  have hone : UpTo 1 (Double.ofNat 1) := by
    have h := UpTo.ofNat (n := 1) (by decide) (by decide)
    rwa [Nat.cast_one] at h
  have hten : UpTo 10 (Double.ofNat 10) := by
    have h := UpTo.ofNat (n := 10) (by decide) (by decide)
    rwa [Nat.cast_ofNat] at h
  have hlt : 1 * (10 * roundingFactor) ^ n < overflowNumber := by
    rw [one_mul]
    refine lt_of_le_of_lt (pow_le_pow_right₀ ?_ hn) pow_ten_lt
    norm_num [roundingFactor]
  have hpower := hone.powBits hten (n := n) rfl hlt
  rw [one_mul] at hpower
  exact hpower

end DriveClient.Double
