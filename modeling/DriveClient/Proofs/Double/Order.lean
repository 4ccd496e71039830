import Mathlib.Order.Monotone.Defs
import DriveClient.Proofs.Double.Operations

/-!
# Operations that keep the order

Multiplying with a positive number, dividing by one, and rounding to a whole number have the same
shape: the sign stays, the magnitude becomes a ratio that grows with it, and the ratio is rounded
(`RoundsRatio`). Operations of this shape keep the order of doubles, also where they overflow or
collapse to zero (`RoundsRatio.le`).
-/

namespace DriveClient.Double

/-! ## Places by sign and magnitude -/

/-- The place of a magnitude with a sign. -/
def placeOf (negative : Bool) (magnitude : ℕ) : ℤ := if negative then -magnitude else magnitude

/-- A growing function of the magnitude that keeps zero also grows with the sign. -/
theorem placeOf_le {g : ℕ → ℕ} (hg : Monotone g) (hzero : g 0 = 0) {s t : Bool} {a b : ℕ}
    (h : placeOf s a ≤ placeOf t b) : placeOf s (g a) ≤ placeOf t (g b) := by
  cases s with
  | false =>
    cases t with
    | false =>
      have hab : a ≤ b := by simpa [placeOf] using h
      simpa [placeOf] using hg hab
    | true =>
      -- only zero is as small as a number below zero
      have hsum : (a : ℤ) ≤ -b := by simpa [placeOf] using h
      obtain ⟨rfl, rfl⟩ : a = 0 ∧ b = 0 := by omega
      simp [placeOf, hzero]
  | true =>
    cases t with
    | false =>
      simp only [placeOf, if_true, if_false, Bool.false_eq_true]
      omega
    | true =>
      have hba : b ≤ a := by simpa [placeOf] using h
      simpa [placeOf] using hg hba

/-- A double that is a number has a sign and a magnitude. That of an infinity is just past the
finite doubles. -/
inductive Sized : Double → Bool → ℕ → Prop where
  | finite (negative : Bool) {quanta : ℕ} (h : Representable quanta) :
      Sized (.finite negative quanta h) negative quanta
  | infinite (negative : Bool) : Sized (.infinite negative) negative quantaLimit

variable {x y : Double} {s t : Bool} {a b : ℕ}

theorem Sized.position? (h : x.Sized s a) : x.position? = some (placeOf s a) := by
  cases h with
  | finite _ hfit =>
    cases s with
    | false => exact position?_finite_false hfit
    | true => exact position?_finite_true hfit
  | infinite =>
    cases s with
    | false => exact position?_infinite_false
    | true => exact position?_infinite_true

theorem exists_sized {p : ℤ} (h : x.position? = some p) : ∃ s a, x.Sized s a := by
  cases x with
  | finite negative quanta hfit => exact ⟨negative, quanta, .finite negative hfit⟩
  | infinite negative => exact ⟨negative, quantaLimit, .infinite negative⟩
  | nan => cases h

/-- What is compared is a number. -/
theorem exists_position?_of_le (h : x.le y = true) :
    ∃ p r, x.position? = some p ∧ y.position? = some r ∧ p ≤ r := by
  cases hx : x.position? with
  | none => simp [le, hx] at h
  | some p =>
    cases hy : y.position? with
    | none => simp [le, hx, hy] at h
    | some r => exact ⟨p, r, rfl, rfl, (le_iff hx hy).1 h⟩

theorem ofQuanta_sized (negative : Bool) (num den : ℕ) :
    (ofQuanta negative num den).Sized negative (min (nearestQuanta num den) quantaLimit) := by
  rw [ofQuanta]
  split
  · next hfinite =>
    rw [Nat.min_eq_left hfinite.le]
    exact .finite negative _
  · next hinfinite =>
    rw [Nat.min_eq_right (Nat.le_of_not_lt hinfinite)]
    exact .infinite negative

/-- A double is known by its sign and magnitude. -/
theorem Sized.unique (hx : x.Sized s a) (hy : y.Sized s a) : x = y := by
  cases hx with
  | finite _ hfit =>
    cases hy with
    | finite => rfl
    | infinite => exact absurd hfit.1 (Nat.lt_irrefl _)
  | infinite =>
    cases hy with
    | finite _ hfit => exact absurd hfit.1 (Nat.lt_irrefl _)
    | infinite => rfl

/-- Doubles at one place are the same, unless one of them is a zero with a sign. -/
theorem eq_of_position? {p : ℤ} (hx : x.position? = some p) (hy : y.position? = some p)
    (hzeroX : ∀ h, x ≠ .finite true 0 h) (hzeroY : ∀ h, y ≠ .finite true 0 h) : x = y := by
  have hzero : Representable 0 := ⟨quantaLimit_pos, Nat.dvd_zero _⟩
  obtain ⟨s, a, hsizeX⟩ := exists_sized hx
  obtain ⟨t, b, hsizeY⟩ := exists_sized hy
  have hplace : placeOf s a = placeOf t b := by
    rw [hsizeX.position?, ← hy, hsizeY.position?, Option.some_inj] at hx
    exact hx
  cases s with
  | false =>
    cases t with
    | false =>
      obtain rfl : a = b := by simpa [placeOf] using hplace
      exact hsizeX.unique hsizeY
    | true =>
      have hsum : (a : ℤ) = -b := by simpa [placeOf] using hplace
      obtain rfl : b = 0 := by omega
      exact absurd (hsizeY.unique (.finite true hzero)) (hzeroY hzero)
  | true =>
    cases t with
    | false =>
      have hsum : -(a : ℤ) = b := by simpa [placeOf] using hplace
      obtain rfl : a = 0 := by omega
      exact absurd (hsizeX.unique (.finite true hzero)) (hzeroX hzero)
    | true =>
      obtain rfl : a = b := by simpa [placeOf] using hplace
      exact hsizeX.unique hsizeY

/-! ## Rounding a ratio of the magnitude -/

/-- An operation that keeps the sign and rounds a ratio of the magnitude, and keeps infinities. -/
structure RoundsRatio (op : Double → Double) (num : ℕ → ℕ) (den : ℕ) : Prop where
  finite : ∀ (negative : Bool) {quanta : ℕ} (h : Representable quanta),
    op (.finite negative quanta h) = ofQuanta negative (num quanta) den
  infinite : ∀ negative : Bool, op (.infinite negative) = .infinite negative

namespace RoundsRatio

variable {op : Double → Double} {num : ℕ → ℕ} {den : ℕ}

/-- What becomes of a magnitude. -/
def magnitude (num : ℕ → ℕ) (den a : ℕ) : ℕ :=
  if a < quantaLimit then min (nearestQuanta (num a) den) quantaLimit else quantaLimit

theorem sized (hop : RoundsRatio op num den) (h : x.Sized s a) :
    (op x).Sized s (magnitude num den a) := by
  cases h with
  | finite _ hfit =>
    rw [hop.finite, magnitude, if_pos hfit.1]
    exact ofQuanta_sized s (num a) den
  | infinite =>
    rw [hop.infinite, magnitude, if_neg (Nat.lt_irrefl _)]
    exact .infinite s

theorem magnitude_mono (hden : 0 < den) (hnum : Monotone num) : Monotone (magnitude num den) := by
  intro a b hab
  unfold magnitude
  by_cases hb : b < quantaLimit
  · rw [if_pos hb, if_pos (Nat.lt_of_le_of_lt hab hb)]
    have hround : nearestQuanta (num a) den ≤ nearestQuanta (num b) den :=
      nearestQuanta_mono_left hden (hnum hab)
    omega
  · rw [if_neg hb]
    split
    · exact Nat.min_le_right _ _
    · exact Nat.le_refl _

theorem magnitude_zero (hden : 0 < den) (hnum : num 0 = 0) : magnitude num den 0 = 0 := by
  rw [magnitude, if_pos quantaLimit_pos, hnum, nearestQuanta_zero hden, Nat.zero_min]

/-- If the ratio grows with the magnitude from zero on, the operation keeps the order. -/
theorem le (hop : RoundsRatio op num den) (hden : 0 < den) (hnum : Monotone num)
    (hzero : num 0 = 0) (h : x.le y = true) : (op x).le (op y) = true := by
  obtain ⟨p, r, hp, hr, hpr⟩ := exists_position?_of_le h
  obtain ⟨s, a, hx⟩ := exists_sized hp
  obtain ⟨t, b, hy⟩ := exists_sized hr
  have hplace : placeOf s a ≤ placeOf t b := (le_iff hx.position? hy.position?).1 h
  rw [le_iff (hop.sized hx).position? (hop.sized hy).position?]
  exact placeOf_le (magnitude_mono hden hnum) (magnitude_zero hden hzero) hplace

end RoundsRatio

/-! ## Operations of this shape -/

section Factor

variable {factor : ℕ} (hfit : Representable factor) (hpos : 0 < factor)

include hpos

theorem roundsRatio_mul : RoundsRatio (· * .finite false factor hfit) (· * factor) quantaPerOne where
  finite negative quanta h := by
    rw [finite_mul_finite, Bool.xor_false]
  infinite negative := by
    change mul (.infinite negative) _ = _
    rw [mul, if_neg hpos.ne', Bool.xor_false]

theorem roundsRatio_div : RoundsRatio (· / .finite false factor hfit) (· * quantaPerOne) factor where
  finite negative quanta h := by
    rw [finite_div_finite _ _ hpos.ne', Bool.xor_false]
  infinite negative := by
    change div (.infinite negative) _ = _
    rw [div, Bool.xor_false]

theorem mul_positive_le (h : x.le y = true) :
    (x * .finite false factor hfit).le (y * .finite false factor hfit) = true :=
  (roundsRatio_mul hfit hpos).le quantaPerOne_pos (fun _ _ => Nat.mul_le_mul_right factor)
    (Nat.zero_mul factor) h

theorem div_positive_le (h : x.le y = true) :
    (x / .finite false factor hfit).le (y / .finite false factor hfit) = true :=
  (roundsRatio_div hfit hpos).le hpos (fun _ _ => Nat.mul_le_mul_right quantaPerOne)
    (Nat.zero_mul quantaPerOne) h

end Factor

theorem roundsRatio_round : RoundsRatio round (wholeQuanta · * quantaPerOne) 1 where
  finite negative quanta h := by rw [round]
  infinite negative := rfl

theorem round_le (h : x.le y = true) : x.round.le y.round = true := by
  refine roundsRatio_round.le Nat.one_pos ?_ ?_ h
  · intro a b hab
    exact Nat.mul_le_mul_right quantaPerOne (wholeQuanta_mono hab)
  · rw [wholeQuanta_zero, Nat.zero_mul]

end DriveClient.Double
