/-!
# Doubles

A double-precision number, written as a whole count of quanta. One quantum is `2^-1074`, the least
positive double, so every finite double is a signed whole number of quanta and the arithmetic on
doubles is exact arithmetic on whole numbers followed by one rounding.

The main statement says that rounding a ratio always lands on the grid of doubles
(`spacing_dvd_nearest`), so a finite double carries the proof that it is one.
-/

namespace DriveClient

/-- Quanta in the number one. -/
def quantaPerOne : Nat := Nat.pow 2 1074

/-- The least count of quanta that is too large for a finite double. -/
def quantaLimit : Nat := Nat.pow 2 2098

/-- Distance from `n` quanta to the next double: one quantum below `2^53` quanta, and above that
the weight of the last of the 53 leading bits. -/
def spacing (n : Nat) : Nat := Nat.pow 2 (n.log2 - 52)

/-- Counts of quanta that are the magnitude of a finite double. -/
def Representable (n : Nat) : Prop := n < quantaLimit ∧ spacing n ∣ n

instance (n : Nat) : Decidable (Representable n) := by
  unfold Representable; infer_instance

/-- A double: a sign and a count of quanta, an infinity of either sign, or not a number. -/
inductive Double where
  | finite (negative : Bool) (quanta : Nat) (representable : Representable quanta)
  | infinite (negative : Bool)
  | nan
deriving DecidableEq

/-! ## Rounding a ratio -/

/-- The whole number nearest to `num / den`, a half going to the even neighbour. -/
def roundHalfEven (num den : Nat) : Nat :=
  if 2 * (num % den) < den ∨ (2 * (num % den) = den ∧ num / den % 2 = 0) then num / den
  else num / den + 1

/-- `num / den` quanta rounded to the grid of doubles, as if there were no largest double. -/
def nearestQuanta (num den : Nat) : Nat :=
  spacing (num / den) * roundHalfEven num (den * spacing (num / den))

theorem roundHalfEven_le (num den : Nat) : roundHalfEven num den ≤ num / den + 1 := by
  unfold roundHalfEven
  split <;> omega

/-- A multiple of a power of two with at most 53 further bits lies on the grid. -/
theorem spacing_dvd_mul {m : Nat} (k : Nat) (hm : m ≤ Nat.pow 2 53) :
    spacing (Nat.pow 2 k * m) ∣ Nat.pow 2 k * m := by
  simp only [Nat.pow_eq] at hm ⊢
  by_cases hz : m = 0
  · simp [hz]
  · have hpos : 2 ^ k * m ≠ 0 := Nat.mul_ne_zero (Nat.ne_of_gt (Nat.two_pow_pos k)) hz
    -- with all 53 bits carried over, the number is itself a power of two
    by_cases hfull : m = 2 ^ 53
    · subst hfull
      rw [spacing, Nat.pow_eq, ← Nat.pow_add, Nat.log2_two_pow]
      exact Nat.pow_dvd_pow 2 (by omega)
    · have hlt : 2 ^ k * m < 2 ^ (k + 53) := by
        rw [Nat.pow_add]
        exact Nat.mul_lt_mul_of_pos_left (by omega) (Nat.two_pow_pos k)
      have hlog : (2 ^ k * m).log2 < k + 53 := (Nat.log2_lt hpos).2 hlt
      rw [spacing, Nat.pow_eq]
      exact Nat.dvd_trans (Nat.pow_dvd_pow 2 (by omega)) (Nat.dvd_mul_right _ _)

/-- After division by the spacing at most 53 bits are left. -/
theorem div_spacing_lt (n : Nat) : n / spacing n < Nat.pow 2 53 := by
  simp only [spacing, Nat.pow_eq]
  rw [Nat.div_lt_iff_lt_mul (Nat.two_pow_pos _), ← Nat.pow_add]
  exact Nat.lt_of_lt_of_le Nat.lt_log2_self (Nat.pow_le_pow_right (by decide) (by omega))

/-- Rounding a ratio lands on the grid. -/
theorem spacing_dvd_nearest (num den : Nat) :
    spacing (nearestQuanta num den) ∣ nearestQuanta num den := by
  refine spacing_dvd_mul _ (Nat.le_trans (roundHalfEven_le _ _) ?_)
  rw [← Nat.div_div_eq_div_mul]
  exact div_spacing_lt _

namespace Double

/-- The double nearest to `num / den` quanta, an infinity when that is past the largest double. -/
def ofQuanta (negative : Bool) (num den : Nat) : Double :=
  if h : nearestQuanta num den < quantaLimit then
    .finite negative (nearestQuanta num den) ⟨h, spacing_dvd_nearest num den⟩
  else .infinite negative

/-- The double nearest to a natural number. -/
def ofNat (n : Nat) : Double := ofQuanta false (n * quantaPerOne) 1

/-- Positive zero. -/
def zero : Double := ofNat 0

/-- Whether the double is neither an infinity nor not-a-number. -/
def isFinite : Double → Bool
  | .finite .. => true
  | _ => false

/-- Place of a double on the line of quanta: both zeros at the origin, the infinities just past
the finite doubles, and no place for not-a-number. -/
def position? : Double → Option Int
  | .finite negative quanta _ => some (if negative then -quanta else quanta)
  | .infinite negative => some (if negative then -quantaLimit else quantaLimit)
  | .nan => none

/-- Comparison by place; false when either side is not a number. -/
def le (x y : Double) : Bool :=
  match x.position?, y.position? with
  | some a, some b => decide (a ≤ b)
  | _, _ => false

/-- Strict comparison by place; false when either side is not a number. -/
def lt (x y : Double) : Bool :=
  match x.position?, y.position? with
  | some a, some b => decide (a < b)
  | _, _ => false

/-- Numeric equality: the two zeros are equal, and not-a-number equals nothing. -/
def numEq (x y : Double) : Bool :=
  match x.position?, y.position? with
  | some a, some b => decide (a = b)
  | _, _ => false

end Double

end DriveClient
