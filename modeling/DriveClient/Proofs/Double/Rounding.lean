import Mathlib.Data.Nat.Cast.Order.Field
import Mathlib.Tactic.Linarith
import Mathlib.Tactic.Ring
import Mathlib.Tactic.Positivity
import Mathlib.Tactic.FieldSimp
import DriveClient.Double.Basic

/-!
# Rounding to the grid of doubles

What is true of `nearestQuanta` whatever operation asks for it. It depends on the ratio alone and
not on the fraction that gives it (`nearestQuanta_congr`), it grows with the numerator
(`nearestQuanta_mono_left`), it does not pass a point of the grid (`nearestQuanta_le`,
`le_nearestQuanta`), above `2^52` quanta it is off by one part in `2^53` at most
(`abs_nearestQuanta_sub_le`), and it finds the point of the grid that a ratio is near to
(`nearestQuanta_eq_of_close`).
-/

namespace DriveClient

/-! ## The nearest whole number -/

theorem roundHalfEven_cases (num den : ℕ) :
    (roundHalfEven num den = num / den ∧ 2 * (num % den) ≤ den) ∨
      (roundHalfEven num den = num / den + 1 ∧ den ≤ 2 * (num % den)) := by
  unfold roundHalfEven
  split
  · left
    exact ⟨rfl, by omega⟩
  · right
    exact ⟨rfl, by omega⟩

theorem roundHalfEven_mul_right (num den : ℕ) {k : ℕ} (hk : 0 < k) :
    roundHalfEven (num * k) (den * k) = roundHalfEven num den := by
  have hlt : 2 * (num % den * k) < den * k ↔ 2 * (num % den) < den := by
    rw [← Nat.mul_assoc, Nat.mul_lt_mul_right hk]
  have heq : 2 * (num % den * k) = den * k ↔ 2 * (num % den) = den := by
    rw [← Nat.mul_assoc, Nat.mul_left_inj hk.ne']
  simp only [roundHalfEven, Nat.mul_div_mul_right _ _ hk, Nat.mul_mod_mul_right, hlt, heq]

/-- A multiple of the denominator is a whole number and stays. -/
theorem roundHalfEven_mul_self (m : ℕ) {den : ℕ} (hden : 0 < den) :
    roundHalfEven (m * den) den = m := by
  rw [roundHalfEven, Nat.mul_mod_left, Nat.mul_div_cancel m hden, if_pos (Or.inl hden)]

theorem roundHalfEven_mono {a b : ℕ} (den : ℕ) (h : a ≤ b) :
    roundHalfEven a den ≤ roundHalfEven b den := by
  have hdiv : a / den ≤ b / den := Nat.div_le_div_right h
  have ha := Nat.div_add_mod a den
  have hb := Nat.div_add_mod b den
  by_cases hsame : a / den = b / den
  · -- the whole parts agree, so the remainders are in the order of the numbers
    have hmod : a % den ≤ b % den := by
      rw [hsame] at ha
      omega
    unfold roundHalfEven
    rw [hsame]
    split
    · split <;> omega
    · split
      · rename_i hup hdown
        exact absurd hdown (by omega)
      · exact Nat.le_refl _
  · have hup := roundHalfEven_le a den
    rcases roundHalfEven_cases b den with ⟨hbelow, -⟩ | ⟨habove, -⟩
    · omega
    · omega

/-! ## The grid -/

theorem spacing_pos (n : ℕ) : 0 < spacing n := Nat.two_pow_pos _

/-- The spacing grows with the number, by powers of two. -/
theorem spacing_dvd_spacing {a b : ℕ} (h : a.log2 ≤ b.log2) : spacing a ∣ spacing b :=
  Nat.pow_dvd_pow 2 (by omega)

theorem log2_mono {a b : ℕ} (h : a ≤ b) : a.log2 ≤ b.log2 := by
  by_cases ha : a = 0
  · simp [ha]
  · have hb : b ≠ 0 := by omega
    rw [Nat.le_log2 hb]
    exact Nat.le_trans (Nat.log2_self_le ha) h

theorem spacing_dvd_two_pow (k : ℕ) : spacing (2 ^ k) ∣ 2 ^ k := by
  have h := spacing_dvd_mul (m := 1) k (by decide)
  rwa [Nat.mul_one] at h

/-- Where the spacing is not a single quantum, the least number with it is `2^52` spacings. -/
theorem spacing_mul_eq {n : ℕ} (h : 52 ≤ n.log2) : spacing n * 2 ^ 52 = 2 ^ n.log2 := by
  rw [spacing, Nat.pow_eq, ← Nat.pow_add]
  congr 1
  omega

theorem spacing_mul_le {n : ℕ} (h : 2 ^ 52 ≤ n) : spacing n * 2 ^ 52 ≤ n := by
  have hn : n ≠ 0 := by omega
  rw [spacing_mul_eq ((Nat.le_log2 hn).2 h)]
  exact Nat.log2_self_le hn

/-- A rounded number is a whole number of spacings, and no more than `2^53` of them. -/
theorem nearestQuanta_eq_mul (num den : ℕ) :
    ∃ whole ≤ 2 ^ 53, nearestQuanta num den = spacing (num / den) * whole := by
  refine ⟨roundHalfEven num (den * spacing (num / den)), ?_, rfl⟩
  have hle := roundHalfEven_le num (den * spacing (num / den))
  rw [← Nat.div_div_eq_div_mul] at hle
  have hlt := div_spacing_lt (num / den)
  rw [Nat.pow_eq] at hlt
  omega

/-! ## Rounding does not pass a point of the grid -/

theorem nearestQuanta_le {num den g : ℕ} (hden : 0 < den) (hg : spacing g ∣ g)
    (h : num ≤ g * den) : nearestQuanta num den ≤ g := by
  have hq : num / den ≤ g := by
    rw [Nat.div_le_iff_le_mul_add_pred hden, Nat.mul_comm]
    omega
  -- the spacing at the ratio is no wider than at the point, so the point is a whole number of them
  obtain ⟨m, hm⟩ := Nat.dvd_trans (spacing_dvd_spacing (log2_mono hq)) hg
  have hs := spacing_pos (num / den)
  rw [nearestQuanta]
  generalize spacing (num / den) = s at hm hs
  have hnum : num ≤ m * (den * s) := by
    calc num ≤ g * den := h
      _ = m * (den * s) := by rw [hm]; ring
  have hround : roundHalfEven num (den * s) ≤ m := by
    rw [← roundHalfEven_mul_self m (Nat.mul_pos hden hs)]
    exact roundHalfEven_mono _ hnum
  rw [hm]
  exact Nat.mul_le_mul_left s hround

theorem mul_spacing_le_nearestQuanta {num den m : ℕ} (hden : 0 < den)
    (h : m * spacing (num / den) * den ≤ num) : m * spacing (num / den) ≤ nearestQuanta num den := by
  have hs := spacing_pos (num / den)
  rw [nearestQuanta]
  generalize spacing (num / den) = s at h hs
  have hround : m ≤ roundHalfEven num (den * s) := by
    rw [← roundHalfEven_mul_self m (Nat.mul_pos hden hs)]
    apply roundHalfEven_mono
    calc m * (den * s) = m * s * den := by ring
      _ ≤ num := h
  rw [Nat.mul_comm m s]
  exact Nat.mul_le_mul_left s hround

theorem le_nearestQuanta {num den g : ℕ} (hden : 0 < den) (hg : spacing g ∣ g)
    (h : g * den ≤ num) : g ≤ nearestQuanta num den := by
  have hq : g ≤ num / den := (Nat.le_div_iff_mul_le hden).2 h
  by_cases hsame : spacing (num / den) ∣ g
  · obtain ⟨m, hm⟩ := hsame
    rw [Nat.mul_comm] at hm
    rw [hm] at h ⊢
    exact mul_spacing_le_nearestQuanta hden h
  · -- the point lies below the power of two at which the wider spacing begins
    have hlog : g.log2 < (num / den).log2 := by
      by_contra hle
      exact hsame (Nat.dvd_trans (spacing_dvd_spacing (Nat.le_of_not_lt hle)) hg)
    have hwide : 52 ≤ (num / den).log2 := by
      by_contra hnarrow
      have hone : spacing (num / den) = 1 := by
        rw [spacing, Nat.sub_eq_zero_of_le (by omega), Nat.pow_eq, Nat.pow_zero]
      exact hsame (hone ▸ Nat.one_dvd g)
    have hstart := spacing_mul_eq hwide
    have hbelow : g ≤ 2 ^ (num / den).log2 := by
      have hg' : g < 2 ^ (g.log2 + 1) := Nat.lt_log2_self
      have hpow : 2 ^ (g.log2 + 1) ≤ 2 ^ (num / den).log2 := Nat.pow_le_pow_right (by decide) hlog
      omega
    have hle : 2 ^ 52 * spacing (num / den) * den ≤ num := by
      have hself : 2 ^ (num / den).log2 ≤ num / den := by
        apply Nat.log2_self_le
        intro hzero
        rw [hzero] at hwide
        exact absurd hwide (by decide)
      rw [Nat.mul_comm (2 ^ 52), hstart]
      exact (Nat.le_div_iff_mul_le hden).1 hself
    calc g ≤ 2 ^ (num / den).log2 := hbelow
      _ = 2 ^ 52 * spacing (num / den) := by rw [← hstart, Nat.mul_comm]
      _ ≤ nearestQuanta num den := mul_spacing_le_nearestQuanta hden hle

/-- A point of the grid is its own rounding. -/
theorem nearestQuanta_mul_self {g den : ℕ} (hden : 0 < den) (hg : spacing g ∣ g) :
    nearestQuanta (g * den) den = g :=
  Nat.le_antisymm (nearestQuanta_le hden hg (Nat.le_refl _))
    (le_nearestQuanta hden hg (Nat.le_refl _))

theorem nearestQuanta_zero {den : ℕ} (hden : 0 < den) : nearestQuanta 0 den = 0 := by
  have h := nearestQuanta_mul_self hden (Nat.dvd_zero (spacing 0))
  rwa [Nat.zero_mul] at h

/-- Less than half a quantum is rounded away. -/
theorem nearestQuanta_eq_zero {num den : ℕ} (h : 2 * num < den) : nearestQuanta num den = 0 := by
  have hlt : num < den := by omega
  have hs : spacing (num / den) = 1 := by
    rw [Nat.div_eq_of_lt hlt]
    rfl
  rw [nearestQuanta, hs, Nat.mul_one, Nat.one_mul, roundHalfEven, Nat.mod_eq_of_lt hlt,
    if_pos (Or.inl h), Nat.div_eq_of_lt hlt]

/-! ## Rounding depends on the ratio alone and grows with it -/

theorem nearestQuanta_mul_right (num den : ℕ) {k : ℕ} (hk : 0 < k) :
    nearestQuanta (num * k) (den * k) = nearestQuanta num den := by
  rw [nearestQuanta, Nat.mul_div_mul_right _ _ hk, Nat.mul_right_comm den k,
    roundHalfEven_mul_right _ _ hk, nearestQuanta]

theorem nearestQuanta_congr {num den num' den' : ℕ} (hden : 0 < den) (hden' : 0 < den')
    (h : num * den' = num' * den) : nearestQuanta num den = nearestQuanta num' den' := by
  rw [← nearestQuanta_mul_right num den hden', h, Nat.mul_comm den den',
    nearestQuanta_mul_right num' den' hden]

theorem nearestQuanta_mono_left {a b den : ℕ} (hden : 0 < den) (h : a ≤ b) :
    nearestQuanta a den ≤ nearestQuanta b den := by
  have hq : a / den ≤ b / den := Nat.div_le_div_right h
  by_cases hlog : (a / den).log2 = (b / den).log2
  · have hsame : spacing (a / den) = spacing (b / den) := by rw [spacing, hlog, spacing]
    rw [nearestQuanta, hsame]
    exact Nat.mul_le_mul_left _ (roundHalfEven_mono _ h)
  · -- a power of two lies between the two ratios, and rounding does not pass it
    have hlt : (a / den).log2 < (b / den).log2 :=
      Nat.lt_of_le_of_ne (log2_mono hq) hlog
    have hgrid := spacing_dvd_two_pow (b / den).log2
    have habove : a ≤ 2 ^ (b / den).log2 * den := by
      have hpow : a / den < 2 ^ (b / den).log2 := by
        calc a / den < 2 ^ ((a / den).log2 + 1) := Nat.lt_log2_self
          _ ≤ 2 ^ (b / den).log2 := Nat.pow_le_pow_right (by decide) hlt
      exact Nat.le_of_lt ((Nat.div_lt_iff_lt_mul hden).1 hpow)
    have hbelow : 2 ^ (b / den).log2 * den ≤ b := by
      apply (Nat.le_div_iff_mul_le hden).1
      apply Nat.log2_self_le
      intro hzero
      rw [hzero] at hlt
      exact absurd hlt (by simp)
    exact Nat.le_trans (nearestQuanta_le hden hgrid habove) (le_nearestQuanta hden hgrid hbelow)

/-! ## How far rounding goes -/

/-- Rounding goes at most half a spacing. -/
theorem two_mul_abs_nearestQuanta_sub_le (num : ℕ) {den : ℕ} (hden : 0 < den) :
    2 * |(nearestQuanta num den : ℚ) - num / den| ≤ spacing (num / den) := by
  have hs := spacing_pos (num / den)
  rw [nearestQuanta]
  generalize spacing (num / den) = s at hs
  have hD : 0 < den * s := Nat.mul_pos hden hs
  have hsplit := Nat.div_add_mod num (den * s)
  have hmod := Nat.mod_lt num hD
  -- in units of the denominator the rounded number is half a unit away at most
  have hnat : 2 * (den * s * roundHalfEven num (den * s)) ≤ 2 * num + den * s ∧
      2 * num ≤ 2 * (den * s * roundHalfEven num (den * s)) + den * s := by
    rcases roundHalfEven_cases num (den * s) with ⟨hround, hrest⟩ | ⟨hround, hrest⟩
    · rw [hround]
      omega
    · rw [hround, Nat.mul_add]
      omega
  obtain ⟨hup, hdown⟩ := hnat
  have hden' : (0 : ℚ) < den := by exact_mod_cast hden
  have hup' : (2 * (den * s * roundHalfEven num (den * s)) : ℚ) ≤ 2 * num + den * s := by
    exact_mod_cast hup
  have hdown' : (2 * num : ℚ) ≤ 2 * (den * s * roundHalfEven num (den * s)) + den * s := by
    exact_mod_cast hdown
  have hratio : (num : ℚ) / den * den = num := div_mul_cancel₀ _ hden'.ne'
  rw [← abs_two, ← abs_mul, abs_le]
  push_cast
  constructor
  · nlinarith
  · nlinarith

/-- From `2^52` quanta on, the error is one part in `2^53` at most. -/
theorem abs_nearestQuanta_sub_le {num den : ℕ} (hden : 0 < den)
    (h : num = 0 ∨ 2 ^ 52 * den ≤ num) :
    |(nearestQuanta num den : ℚ) - num / den| ≤ num / den / 2 ^ 53 := by
  rcases h with hzero | hlarge
  · rw [hzero, nearestQuanta_zero hden]
    simp
  · have hq : 2 ^ 52 ≤ num / den := (Nat.le_div_iff_mul_le hden).2 hlarge
    have hspacing : (spacing (num / den) * 2 ^ 52 : ℚ) ≤ num / den := by
      calc (spacing (num / den) * 2 ^ 52 : ℚ) ≤ (num / den : ℕ) := by
            exact_mod_cast spacing_mul_le hq
        _ ≤ num / den := Nat.cast_div_le
    have herror := two_mul_abs_nearestQuanta_sub_le num hden
    rw [le_div_iff₀ (by positivity)]
    linarith

/-! ## What is near to a point of the grid -/

/-- No number is `2^53` of its spacings. -/
theorem lt_mul_spacing (n : ℕ) : n < 2 ^ 53 * spacing n := by
  have h := div_spacing_lt n
  rwa [Nat.pow_eq, Nat.div_lt_iff_lt_mul (spacing_pos n)] at h

theorem ratio_lt_mul_spacing (num : ℕ) {den : ℕ} (hden : 0 < den) :
    (num / den : ℚ) < 2 ^ 53 * spacing (num / den) := by
  have hfloor : num / den + 1 ≤ 2 ^ 53 * spacing (num / den) := lt_mul_spacing (num / den)
  have hnum : num < (num / den + 1) * den := Nat.lt_mul_of_div_lt (Nat.lt_succ_self _) hden
  rw [div_lt_iff₀ (by exact_mod_cast hden)]
  exact_mod_cast Nat.lt_of_lt_of_le hnum (Nat.mul_le_mul_right den hfloor)

/-- The next point of the grid is a power of two at the furthest. -/
theorem add_spacing_le {g : ℕ} (hg : spacing g ∣ g) : g + spacing g ≤ 2 ^ (g.log2 + 1) := by
  have hlt : g < 2 ^ (g.log2 + 1) := Nat.lt_log2_self
  have hdvd : spacing g ∣ 2 ^ (g.log2 + 1) := Nat.pow_dvd_pow 2 (by omega)
  have hle := Nat.le_of_dvd (by omega) (Nat.dvd_sub hdvd hg)
  omega

/-- Different multiples of a number are as far apart as the number is large. -/
theorem le_abs_sub_of_dvd {s a b : ℕ} (ha : s ∣ a) (hb : s ∣ b) (hne : a ≠ b) :
    (s : ℚ) ≤ |(a : ℚ) - b| := by
  obtain ⟨m, rfl⟩ := ha
  obtain ⟨n, rfl⟩ := hb
  have hmn : (m : ℤ) - n ≠ 0 := by
    intro hzero
    have hsame : m = n := by omega
    exact hne (by rw [hsame])
  have hone : (1 : ℚ) ≤ |(m : ℚ) - n| := by exact_mod_cast Int.one_le_abs hmn
  push_cast
  rw [← mul_sub, abs_mul, Nat.abs_cast]
  exact le_mul_of_one_le_right (Nat.cast_nonneg s) hone

section Close

variable {num den g : ℕ} (hpos : 0 < g) (hg : spacing g ∣ g)
  (hclose : |(num : ℚ) / den - g| ≤ g / (2 * 10 ^ 16))

include hpos hg hclose

/-- A point of the grid is a whole number of the spacings near to it. -/
theorem spacing_dvd_of_close : spacing (num / den) ∣ g := by
  by_cases hlog : (num / den).log2 ≤ g.log2
  · exact Nat.dvd_trans (spacing_dvd_spacing hlog) hg
  · -- the ratio would be as far away as the next power of two
    exfalso
    have hself : 2 ^ (num / den).log2 ≤ num / den := by
      apply Nat.log2_self_le
      intro hzero
      rw [hzero] at hlog
      exact hlog (Nat.zero_le _)
    have hpow : 2 ^ (g.log2 + 1) ≤ 2 ^ (num / den).log2 :=
      Nat.pow_le_pow_right (by decide) (by omega)
    have hfloor : g + spacing g ≤ num / den :=
      Nat.le_trans (add_spacing_le hg) (Nat.le_trans hpow hself)
    have hratio : (g + spacing g : ℚ) ≤ num / den := by
      calc (g + spacing g : ℚ) ≤ (num / den : ℕ) := by exact_mod_cast hfloor
        _ ≤ num / den := Nat.cast_div_le
    have hup := (abs_le.1 hclose).2
    have hspacing : (g : ℚ) < 2 ^ 53 * spacing g := by exact_mod_cast lt_mul_spacing g
    have hpos' : (0 : ℚ) < g := by exact_mod_cast hpos
    linarith

/-- A ratio that is off by half of one part in `10^16` at most is rounded to the point of the grid.
-/
theorem nearestQuanta_eq_of_close (hden : 0 < den) : nearestQuanta num den = g := by
  have hdvd := spacing_dvd_of_close hpos hg hclose
  have herror := two_mul_abs_nearestQuanta_sub_le num hden
  have hratio := ratio_lt_mul_spacing num hden
  obtain ⟨whole, -, hround⟩ := nearestQuanta_eq_mul num den
  have hmultiple : spacing (num / den) ∣ nearestQuanta num den := ⟨whole, hround⟩
  -- another multiple of the spacing would be a whole spacing away
  by_contra hne
  have hapart := le_abs_sub_of_dvd hmultiple hdvd hne
  have htriangle := abs_sub_le (nearestQuanta num den : ℚ) (num / den) g
  have hdown := (abs_le.1 hclose).1
  have hpos' : (0 : ℚ) < g := by exact_mod_cast hpos
  linarith

end Close

end DriveClient
