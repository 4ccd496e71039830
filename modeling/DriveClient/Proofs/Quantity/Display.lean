import DriveClient.Proofs.Decimal.Plain
import DriveClient.Proofs.Double.Overflow
import DriveClient.Proofs.Double.RelativeError
import DriveClient.Quantity

/-!
# Quantities as they are shown

A quantity is shown with two places: it is rounded to a whole number of hundredths, and the double
nearest to these is printed. The text is a plain decimal with two places at most as long as a
hundred times the quantity is still finite, and a word from there on (`isNumberText_toText_iff`).
Unless the quantity is very large the decimal stands for just these hundredths
(`toText_hundredths`), and they are the right ones up to the errors of rounding
(`abs_hundredths_sub_le`).
-/

namespace DriveClient

open Double Decimal

/-- Finite doubles of which a hundred times as much, rounded, is still finite. -/
def Double.HundredfoldFits : Double → Prop
  | .finite _ quanta _ => quanta * 100 < overflowQuanta
  | _ => False

namespace Quantity

/-- How many hundredths a magnitude is rounded to. -/
def hundredths (quanta : ℕ) : ℕ := wholeQuanta (nearestQuanta (quanta * 100) 1)

/-- The quanta of the double nearest to some hundredths. -/
def hundredthsQuanta (n : ℕ) : ℕ := nearestQuanta (n * quantaPerOne) (10 ^ 2)

theorem hundredthsQuanta_eq_zero_iff {n : ℕ} : hundredthsQuanta n = 0 ↔ n = 0 := by
  constructor
  · intro hzero
    by_contra hne
    have hquantum : 1 * 10 ^ 2 ≤ n * quantaPerOne := by
      have hone : 1 * 10 ^ 2 ≤ quantaPerOne := le_quantaPerOne (k := 7) (by decide) (by decide)
      exact Nat.le_trans hone (Nat.le_mul_of_pos_left _ (Nat.pos_of_ne_zero hne))
    have hle := le_nearestQuanta (by decide) (show spacing 1 ∣ 1 by decide) hquantum
    rw [← hundredthsQuanta, hzero] at hle
    exact absurd hle (by decide)
  · intro hzero
    rw [hundredthsQuanta, hzero, Nat.zero_mul, nearestQuanta_zero (by decide)]

/-! ## Rounding -/

/-- Rounding to two places is rounding to a whole number between a product with and a quotient by a
hundred. A result of zero loses its sign. -/
theorem roundTo_two (value : Double) :
    roundTo value 2 =
      if ((value * ofNat 100).round / ofNat 100).numEq .zero then .zero
      else (value * ofNat 100).round / ofNat 100 := by
  have hfactor : (ofNat 10).pow (2 : UInt32).toInt32.toInt = ofNat 100 := by decide +kernel
  simp only [roundTo, hfactor]

/-- A zero loses its sign, and another double keeps it. -/
theorem zero_of_numEq_zero (negative : Bool) {quanta : ℕ} (hq : Representable quanta) :
    (if (Double.finite negative quanta hq).numEq .zero then .zero
      else Double.finite negative quanta hq) =
      .finite (negative && decide (quanta ≠ 0)) quanta hq := by
  have hplace : (Double.finite negative quanta hq).numEq .zero = true ↔ quanta = 0 := by
    cases negative with
    | false =>
      rw [numEq_iff (position?_finite_false hq) position?_zero]
      omega
    | true =>
      rw [numEq_iff (position?_finite_true hq) position?_zero]
      omega
  by_cases hzero : quanta = 0
  · have hnone : nearestQuanta (0 * quantaPerOne) 1 = quanta := by
      rw [hzero, Nat.zero_mul, nearestQuanta_zero Nat.one_pos]
    rw [if_pos (hplace.2 hzero), decide_eq_false (not_not.2 hzero), Bool.and_false, zero, ofNat,
      ofQuanta_eq_finite hq hnone]
  · rw [if_neg (mt hplace.1 hzero), decide_eq_true hzero, Bool.and_true]

/-- A quantity is rounded to the double nearest to its hundredths, if a hundred times the quantity
is a double. -/
theorem roundTo_finite (negative : Bool) {quanta : ℕ} (hq : Representable quanta)
    (h : quanta * 100 < overflowQuanta) :
    ∃ hfit, roundTo (.finite negative quanta hq) 2 =
      .finite (negative && decide (hundredths quanta ≠ 0))
        (hundredthsQuanta (hundredths quanta)) hfit := by
  have hsmall : (100 : ℕ) ≤ 2 ^ 53 := by decide
  have hlimit : quanta * 100 < overflowQuanta * 1 := by rwa [Nat.mul_one]
  obtain ⟨hproduct, hmul⟩ := ofQuanta_of_lt_overflow negative Nat.one_pos hlimit
  obtain ⟨hwhole, hround⟩ := round_eq negative hproduct
  have hle := Nat.le_mul_of_pos_right (hundredths quanta * quantaPerOne) (show 0 < 10 ^ 2 by decide)
  obtain ⟨-, hrounded, hdiv⟩ := ofQuanta_of_le negative hwhole (show 0 < 10 ^ 2 by decide) hle
  have hfit : Representable (hundredthsQuanta (hundredths quanta)) := hrounded
  have hquotient : (Double.finite negative quanta hq * ofNat 100).round / ofNat 100 =
      .finite negative (hundredthsQuanta (hundredths quanta)) hfit := by
    rw [finite_mul_ofNat hq hsmall, hmul, hround, finite_div_ofNat hwhole (by decide) hsmall]
    exact hdiv
  refine ⟨hfit, ?_⟩
  rw [roundTo_two, hquotient, zero_of_numEq_zero]
  simp only [ne_eq, hundredthsQuanta_eq_zero_iff]

/-- Once the product with a hundred is an infinity, it stays one. -/
theorem roundTo_of_mul_eq_infinite {value : Double} {negative : Bool}
    (h : value * ofNat 100 = .infinite negative) : roundTo value 2 = .infinite negative := by
  have hsmall : (100 : ℕ) ≤ 2 ^ 53 := by decide
  have hquotient : (Double.infinite negative).round / ofNat 100 = .infinite negative := by
    rw [ofNat_eq hsmall]
    cases negative <;> rfl
  have hplace : ¬(Double.infinite negative).numEq .zero = true := by
    have hpos : (0 : ℤ) < quantaLimit := Int.natCast_pos.2 quantaLimit_pos
    cases negative with
    | false =>
      rw [numEq_iff position?_infinite_false position?_zero]
      exact hpos.ne'
    | true =>
      rw [numEq_iff position?_infinite_true position?_zero]
      exact (neg_neg_of_pos hpos).ne
  rw [roundTo_two, h, hquotient, if_neg hplace]

/-- A quantity is rounded to an infinity, if a hundred times the quantity is no double. -/
theorem roundTo_overflow (negative : Bool) {quanta : ℕ} (hq : Representable quanta)
    (h : overflowQuanta ≤ quanta * 100) :
    roundTo (.finite negative quanta hq) 2 = .infinite negative := by
  have hlimit := (Nat.mul_one overflowQuanta).le.trans h
  apply roundTo_of_mul_eq_infinite
  rw [finite_mul_ofNat hq (by decide), ofQuanta_of_overflow_le negative Nat.one_pos hlimit]

theorem roundTo_infinite (negative : Bool) :
    roundTo (.infinite negative) 2 = .infinite negative := by
  apply roundTo_of_mul_eq_infinite
  have hfactor : 100 * quantaPerOne ≠ 0 := Nat.mul_ne_zero (by decide) quantaPerOne_pos.ne'
  rw [ofNat_eq (by decide)]
  change mul (.infinite negative) _ = _
  rw [mul, if_neg hfactor, Bool.xor_false]

theorem roundTo_nan : roundTo .nan 2 = .nan := by
  rw [roundTo_two, ofNat_eq (by decide)]
  rfl

/-! ## Texts -/

/-- The text of a quantity is a plain decimal with two places at most, which is read as the double
nearest to its hundredths. Nothing has no sign. -/
theorem toText_finite (negative : Bool) {quanta : ℕ} (hq : Representable quanta)
    (h : quanta * 100 < overflowQuanta) :
    ∃ shown n, toText (.finite negative quanta hq) = signed (negative && decide (n ≠ 0)) shown ∧
      SpellsPlain 2 shown n ∧ hundredthsQuanta n = hundredthsQuanta (hundredths quanta) := by
  obtain ⟨hfit, hround⟩ := roundTo_finite negative hq h
  have hunit : 10 ^ 1072 ≤ nearestQuanta quantaPerOne (10 ^ 2) * quantumUnits := by decide +kernel
  obtain ⟨n, hspells, hplain⟩ := exists_spellsPlain_plain rfl hunit hfit rfl
  have hreads : hundredthsQuanta n = hundredthsQuanta (hundredths quanta) := hplain
  have hzero : n = 0 ↔ hundredths quanta = 0 := by
    rw [← hundredthsQuanta_eq_zero_iff, hreads, hundredthsQuanta_eq_zero_iff]
  refine ⟨_, n, ?_, hspells, hreads⟩
  rw [toText, hround, Double.toText]
  simp only [ne_eq, hzero]

/-- Texts that write a number of hundredths as a plain decimal, with a sign if it is below zero. -/
def IsNumberText (text : String) : Prop :=
  ∃ negative shown n, text = signed (negative && decide (n ≠ 0)) shown ∧ SpellsPlain 2 shown n

theorem not_isNumberText_signed (negative : Bool) {c : Char} {rest : List Char}
    (hdigit : ¬c.isDigit) (hsign : c ≠ '-') : ¬IsNumberText (signed negative (c :: rest)) := by
  rintro ⟨minus, shown, n, htext, hspells⟩
  obtain ⟨d, more, rfl, hd⟩ := hspells.exists_digit
  generalize (minus && decide (n ≠ 0)) = sign at htext
  have hlist := String.ofList_injective htext
  -- the texts begin with their signs or with what follows these
  cases negative <;> cases sign <;>
    simp only [if_true, if_false, Bool.false_eq_true, List.cons.injEq] at hlist
  · exact hdigit (hlist.1 ▸ hd)
  · exact hsign hlist.1
  · exact absurd hd (hlist.1 ▸ by decide)
  · exact hdigit (hlist.2.1 ▸ hd)

theorem toText_of_roundTo_infinite {v : Double} {negative : Bool}
    (h : roundTo v 2 = .infinite negative) : toText v = signed negative ['i', 'n', 'f'] := by
  rw [toText, h]
  rfl

/-! ## Which quantities are shown as numbers -/

theorem isFinite_roundTo_iff (v : Double) : (roundTo v 2).isFinite ↔ v.HundredfoldFits := by
  cases v with
  | finite negative quanta hq =>
    by_cases h : quanta * 100 < overflowQuanta
    · obtain ⟨hfit, hround⟩ := roundTo_finite negative hq h
      rw [hround]
      exact iff_of_true rfl h
    · rw [roundTo_overflow negative hq (Nat.le_of_not_lt h)]
      exact iff_of_false Bool.false_ne_true h
  | infinite negative =>
    rw [roundTo_infinite]
    exact iff_of_false Bool.false_ne_true id
  | nan =>
    rw [roundTo_nan]
    exact iff_of_false Bool.false_ne_true id

theorem isNumberText_toText_iff (v : Double) : IsNumberText (toText v) ↔ v.HundredfoldFits := by
  have hinf (negative : Bool) : ¬IsNumberText (signed negative ['i', 'n', 'f']) :=
    not_isNumberText_signed negative (by decide) (by decide)
  cases v with
  | finite negative quanta hq =>
    by_cases h : quanta * 100 < overflowQuanta
    · obtain ⟨shown, n, htext, hspells, -⟩ := toText_finite negative hq h
      exact iff_of_true ⟨negative, shown, n, htext, hspells⟩ h
    · have hround := roundTo_overflow negative hq (Nat.le_of_not_lt h)
      rw [toText_of_roundTo_infinite hround]
      exact iff_of_false (hinf negative) h
  | infinite negative =>
    rw [toText_of_roundTo_infinite (roundTo_infinite negative)]
    exact iff_of_false (hinf negative) id
  | nan =>
    have htext : toText .nan = signed false ['N', 'a', 'N'] := by
      rw [toText, roundTo_nan]
      rfl
    rw [htext]
    exact iff_of_false (not_isNumberText_signed false (by decide) (by decide)) id

theorem toText_mem_of_not_hundredfoldFits {v : Double} (hv : v.isFinite)
    (h : ¬v.HundredfoldFits) : toText v ∈ ["inf", "-inf"] := by
  cases v with
  | finite negative quanta hq =>
    have hround := roundTo_overflow negative hq (Nat.le_of_not_lt h)
    rw [toText_of_roundTo_infinite hround]
    cases negative <;> decide +kernel
  | infinite => exact absurd hv Bool.false_ne_true
  | nan => exact absurd hv Bool.false_ne_true

/-! ## Few hundredths -/

theorem within_hundredthsQuanta (n : ℕ) :
    Within 1 (hundredthsQuanta n) (n * quantaPerOne / 10 ^ 2) := by
  have hlarge : n * quantaPerOne = 0 ∨ 2 ^ 52 * 10 ^ 2 ≤ n * quantaPerOne := by
    rcases Nat.eq_zero_or_pos n with hn | hn
    · left
      rw [hn, Nat.zero_mul]
    · right
      have hone : 2 ^ 52 * 10 ^ 2 ≤ quantaPerOne := le_quantaPerOne (k := 59) (by decide) (by decide)
      exact Nat.le_trans hone (Nat.le_mul_of_pos_left _ hn)
  have h := Within.nearestQuanta (show 0 < 10 ^ 2 by decide) hlarge
  push_cast at h
  exact h

/-- Different numbers of hundredths have different doubles, unless they are very large. -/
theorem hundredthsQuanta_inj {m n : ℕ} (hn : n ≤ 2 ^ 51)
    (h : hundredthsQuanta m = hundredthsQuanta n) : m = n := by
  have hm := within_hundredthsQuanta m
  have hsame := within_hundredthsQuanta n
  have hpos := quantaPerOne_pos
  rw [h] at hm
  generalize quantaPerOne = q at *
  have hq : (0 : ℚ) < q / 10 ^ 2 := by positivity
  have hclose : |(m : ℚ) - n| ≤ (m + n) / 2 ^ 53 := by
    rw [Within, abs_sub_comm] at hm
    rw [Within] at hsame
    have htriangle := abs_sub_le (m * q / 10 ^ 2 : ℚ) (hundredthsQuanta n) (n * q / 10 ^ 2)
    have hfactor : (m * q / 10 ^ 2 - n * q / 10 ^ 2 : ℚ) = (m - n) * (q / 10 ^ 2) := by ring
    rw [hfactor, abs_mul, abs_of_pos hq] at htriangle
    apply le_of_mul_le_mul_right _ hq
    linarith
  have hn' : (n : ℚ) ≤ 2 ^ 51 := by exact_mod_cast hn
  have hm' := (abs_le.1 hclose).2
  by_contra hne
  have hapart := le_abs_sub_of_dvd (one_dvd m) (one_dvd n) hne
  push_cast at hapart
  linarith

/-- Rounding to hundredths does not pass a whole number of them. -/
theorem hundredths_le {quanta n : ℕ} (hn : n ≤ 2 ^ 53) (h : quanta * 100 ≤ n * quantaPerOne) :
    hundredths quanta ≤ n := by
  apply wholeQuanta_le
  apply nearestQuanta_le Nat.one_pos (representable_mul_quantaPerOne hn).2
  rwa [Nat.mul_one]

/-- A quantity up to `2^40` is shown as the number of its hundredths. -/
theorem toText_hundredths (negative : Bool) {quanta : ℕ} (hq : Representable quanta)
    (h : quanta ≤ 2 ^ 40 * quantaPerOne) :
    ∃ shown, toText (.finite negative quanta hq) =
        signed (negative && decide (hundredths quanta ≠ 0)) shown ∧
      SpellsPlain 2 shown (hundredths quanta) := by
  have hlimit : 2 ^ 40 * quantaPerOne * 100 < overflowQuanta := by decide +kernel
  have hfit := Nat.lt_of_le_of_lt (Nat.mul_le_mul_right 100 h) hlimit
  obtain ⟨shown, n, htext, hspells, hreads⟩ := toText_finite negative hq hfit
  have hsmall : hundredths quanta ≤ 2 ^ 51 := by
    apply hundredths_le (by decide)
    generalize quantaPerOne = q at h
    omega
  obtain rfl := hundredthsQuanta_inj hsmall hreads
  exact ⟨shown, htext, hspells⟩

/-! ## Errors -/

theorem hundredths_mono {a b : ℕ} (h : a ≤ b) : hundredths a ≤ hundredths b :=
  wholeQuanta_mono (nearestQuanta_mono_left Nat.one_pos (Nat.mul_le_mul_right 100 h))

/-- The hundredths are right up to the rounding to a whole number and one part in `2^53`. -/
theorem abs_hundredths_sub_le (quanta : ℕ) :
    |(hundredths quanta : ℚ) - 100 * (quanta / quantaPerOne)| ≤
      1 / 2 + 100 * (quanta / quantaPerOne) / 2 ^ 53 := by
  have hwhole := two_mul_abs_wholeQuanta_sub_le (nearestQuanta (quanta * 100) 1)
  have hround := Within.nearestQuanta_one (quanta * 100)
  have hq := cast_quantaPerOne_pos
  rw [← hundredths] at hwhole
  rw [Within] at hround
  generalize nearestQuanta (quanta * 100) 1 = rounded at *
  generalize quantaPerOne = q at *
  have hproduct : |(rounded / q : ℚ) - 100 * (quanta / q)| ≤ 100 * (quanta / q) / 2 ^ 53 := by
    have hratio : (rounded / q : ℚ) - 100 * (quanta / q) = (rounded - (quanta * 100 : ℕ)) / q := by
      push_cast
      ring
    rw [hratio, abs_div, abs_of_pos hq, div_le_iff₀ hq]
    push_cast at hround ⊢
    calc |(rounded : ℚ) - quanta * 100| ≤ 1 / 2 ^ 53 * (quanta * 100) := hround
      _ = 100 * (quanta / q) / 2 ^ 53 * q := by field_simp
  have htriangle := abs_sub_le (hundredths quanta : ℚ) (rounded / q) (100 * (quanta / q))
  linarith

end Quantity

end DriveClient
