import DriveClient.Proofs.Decimal.Value

/-!
# The digits of the shortest decimal

A grid of decimals reaches one place further to the right with each further leading digit. If a
decimal on some grid is read as a double, then so is one of the two neighbours of the double on that
grid (`isSome_withDigits?_of_readsAs`), and on the grid of 17 leading digits the nearer neighbour
always is (`isSome_withDigits?_seventeen`). So the shortest decimal of a double stands on a grid
that is no finer than any grid with a decimal that is read as the double
(`exists_exponent_shortest`).
-/

namespace DriveClient.Decimal

/-! ## How many digits a number has -/

theorem lt_pow_width (n : ℕ) : n < 10 ^ width n :=
  (Nat.length_toDigits_le_iff (by decide) Nat.length_toDigits_pos).1 (Nat.le_refl _)

theorem pow_le_of_lt_width {n p : ℕ} (hn : n ≠ 0) (h : p < width n) : 10 ^ p ≤ n := by
  rcases Nat.eq_zero_or_pos p with hzero | hpos
  · rw [hzero, Nat.pow_zero]
    exact Nat.pos_of_ne_zero hn
  · by_contra hlt
    have hle := (Nat.length_toDigits_le_iff (by decide) hpos).2 (Nat.lt_of_not_le hlt)
    exact absurd h (Nat.not_lt.2 hle)

theorem lt_width_of_pow_le {n p : ℕ} (h : 10 ^ p ≤ n) : p < width n := by
  by_contra hle
  have hpow : 10 ^ width n ≤ 10 ^ p := Nat.pow_le_pow_right (by decide) (Nat.le_of_not_lt hle)
  exact absurd (lt_pow_width n) (Nat.not_lt.2 (Nat.le_trans hpow h))

/-! ## Decimals on a grid -/

/-- Units of `10 ^ -1074` in one quantum. -/
def quantumUnits : ℕ := Nat.pow 5 1074

/-- One is a power of ten in these units. -/
theorem exists_quantaPerOne_mul_quantumUnits :
    ∃ k, k = 1074 ∧ quantaPerOne * quantumUnits = 10 ^ k :=
  ⟨1074, rfl, by decide +kernel⟩

theorem quantumUnits_pos : 0 < quantumUnits := by
  obtain ⟨k, -, hten⟩ := exists_quantaPerOne_mul_quantumUnits
  apply Nat.pos_of_ne_zero
  intro hzero
  rw [hzero, Nat.mul_zero] at hten
  exact (Nat.pow_pos (by decide)).ne hten

theorem digits_exact (quanta : ℕ) : (exact quanta).digits = quanta * quantumUnits := by
  delta exact quantumUnits
  exact Eq.refl (quanta * _)

theorem readsAs_iff {d : Decimal} {quanta : ℕ} (hq : Representable quanta) :
    d.ReadsAs quanta = true ↔
      nearestQuanta (d.digits * 10 ^ d.exponent.toNat * quantaPerOne)
        (10 ^ (-d.exponent).toNat) = quanta := by
  constructor
  · intro h
    have hread := toDouble_of_readsAs false hq h
    rw [toDouble_eq_ofQuanta, Double.ofQuanta] at hread
    split at hread
    · injection hread
    · cases hread
  · intro h
    rw [ReadsAs, toDouble_eq_ofQuanta, Double.ofQuanta_eq_finite hq h]
    exact decide_eq_true rfl

/-- The decimal of some units on the grid that is `place` digits above the finest one. -/
def onGrid (units place : ℕ) : Decimal := ⟨units, (place : ℤ) - 1074⟩

theorem onGrid_readsAs_iff {units place quanta : ℕ} (hq : Representable quanta) :
    (onGrid units place).ReadsAs quanta = true ↔
      nearestQuanta (units * 10 ^ place) quantumUnits = quanta := by
  obtain ⟨k, hk, hten⟩ := exists_quantaPerOne_mul_quantumUnits
  have hplace : ((place : ℤ) - 1074).toNat + k = place + (-((place : ℤ) - 1074)).toNat := by omega
  have hsame : nearestQuanta (units * 10 ^ ((place : ℤ) - 1074).toNat * quantaPerOne)
      (10 ^ (-((place : ℤ) - 1074)).toNat) = nearestQuanta (units * 10 ^ place) quantumUnits := by
    refine nearestQuanta_congr (Nat.pow_pos (by decide)) quantumUnits_pos ?_
    calc units * 10 ^ ((place : ℤ) - 1074).toNat * quantaPerOne * quantumUnits
        = units * (10 ^ ((place : ℤ) - 1074).toNat * (quantaPerOne * quantumUnits)) := by ring
      _ = units * 10 ^ place * 10 ^ (-((place : ℤ) - 1074)).toNat := by
          rw [hten, ← Nat.pow_add, hplace, Nat.pow_add]
          ring
  rw [readsAs_iff hq, onGrid, hsame]

/-! ## One grid -/

theorem isSome_neighbour? {tie : Tie} {quanta rest grid : ℕ} {lower upper : Decimal}
    (h : lower.ReadsAs quanta = true ∨ upper.ReadsAs quanta = true) :
    (neighbour? tie quanta rest grid lower upper).isSome := by
  unfold neighbour?
  rcases Bool.eq_false_or_eq_true (lower.ReadsAs quanta) with hlower | hlower
  · rcases Bool.eq_false_or_eq_true (upper.ReadsAs quanta) with hupper | hupper
    · simp only [hlower, hupper]
      split
      · rfl
      · split
        · rfl
        · cases tie with
          | up => rfl
          | toEven =>
            simp only
            split
            · rfl
            · rfl
    · simp only [hlower, hupper, Option.isSome_some]
  · rcases Bool.eq_false_or_eq_true (upper.ReadsAs quanta) with hupper | hupper
    · simp only [hlower, hupper, Option.isSome_some]
    · rw [hlower, hupper] at h
      exact absurd h (by decide)

section Grid

variable {tie : Tie} {quanta count : ℕ}

/-- The place of the grid with some leading digits of a double. -/
def gridPlace (quanta count : ℕ) : ℕ := width (quanta * quantumUnits) - count

theorem withDigits?_eq (tie : Tie) (quanta count : ℕ) :
    withDigits? tie quanta count =
      neighbour? tie quanta (quanta * quantumUnits % 10 ^ gridPlace quanta count)
        (10 ^ gridPlace quanta count)
        (onGrid (quanta * quantumUnits / 10 ^ gridPlace quanta count) (gridPlace quanta count))
        (onGrid (quanta * quantumUnits / 10 ^ gridPlace quanta count + 1)
          (gridPlace quanta count)) := by
  rw [withDigits?, digits_exact]
  rfl

/-- What is found on a grid stands on it. -/
theorem exponent_of_withDigits? {d : Decimal} (h : withDigits? tie quanta count = some d) :
    d.exponent = (gridPlace quanta count : ℤ) - 1074 := by
  rw [withDigits?_eq] at h
  rcases (neighbour?_eq_some h).1 with rfl | rfl
  · rfl
  · rfl

/-- Between a decimal that is read as a double and the double itself every decimal is read so. -/
theorem isSome_withDigits?_of_readsAs (tie : Tie) (hq : Representable quanta) {units : ℕ}
    (h : (onGrid units (gridPlace quanta count)).ReadsAs quanta = true) :
    (withDigits? tie quanta count).isSome := by
  rw [withDigits?_eq]
  apply isSome_neighbour?
  rw [onGrid_readsAs_iff hq] at h
  rw [onGrid_readsAs_iff hq, onGrid_readsAs_iff hq]
  have hself := nearestQuanta_mul_self quantumUnits_pos hq.2
  have hpow : 0 < 10 ^ gridPlace quanta count := Nat.pow_pos (by decide)
  generalize 10 ^ gridPlace quanta count = grid at *
  generalize hw : quanta * quantumUnits = whole at *
  by_cases hside : units ≤ whole / grid
  · left
    have hlow : units * grid ≤ whole / grid * grid := Nat.mul_le_mul_right _ hside
    have hhigh : whole / grid * grid ≤ whole := Nat.div_mul_le_self whole grid
    apply Nat.le_antisymm
    · exact hself ▸ nearestQuanta_mono_left quantumUnits_pos hhigh
    · exact h ▸ nearestQuanta_mono_left quantumUnits_pos hlow
  · right
    have hlow : whole ≤ (whole / grid + 1) * grid :=
      Nat.le_of_lt (Nat.lt_mul_of_div_lt (Nat.lt_succ_self _) hpow)
    have hhigh : (whole / grid + 1) * grid ≤ units * grid :=
      Nat.mul_le_mul_right _ (Nat.lt_of_not_le hside)
    apply Nat.le_antisymm
    · exact h ▸ nearestQuanta_mono_left quantumUnits_pos hhigh
    · exact hself ▸ nearestQuanta_mono_left quantumUnits_pos hlow

/-! ## Seventeen digits -/

/-- One unit on the grid of 17 leading digits is one part in `10 ^ 16` of the double at most. -/
theorem mul_pow_gridPlace_le (hne : quanta ≠ 0) (h : 0 < gridPlace quanta 17) :
    10 ^ 16 * 10 ^ gridPlace quanta 17 ≤ quanta * quantumUnits := by
  rw [← Nat.pow_add]
  apply pow_le_of_lt_width (Nat.mul_ne_zero hne quantumUnits_pos.ne')
  rw [gridPlace] at h ⊢
  omega

/-- A number of units is read as a double that it misses by half a unit of 17 digits at most. -/
theorem onGrid_readsAs_of_close (hq : Representable quanta) (hpos : 0 < quanta) {units place : ℕ}
    (habove : 2 * 10 ^ 16 * (units * 10 ^ place) ≤
      2 * 10 ^ 16 * (quanta * quantumUnits) + quanta * quantumUnits)
    (hbelow : 2 * 10 ^ 16 * (quanta * quantumUnits) ≤
      2 * 10 ^ 16 * (units * 10 ^ place) + quanta * quantumUnits) :
    (onGrid units place).ReadsAs quanta = true := by
  rw [onGrid_readsAs_iff hq]
  have hunits := quantumUnits_pos
  apply nearestQuanta_eq_of_close hpos hq.2 _ hunits
  generalize quantumUnits = q at *
  generalize units * 10 ^ place = num at *
  have hq' : (0 : ℚ) < q := by exact_mod_cast hunits
  have habove' : (2 * 10 ^ 16 * num : ℚ) ≤ 2 * 10 ^ 16 * (quanta * q) + quanta * q := by
    exact_mod_cast habove
  have hbelow' : (2 * 10 ^ 16 * (quanta * q) : ℚ) ≤ 2 * 10 ^ 16 * num + quanta * q := by
    exact_mod_cast hbelow
  have hsub : (num : ℚ) / q - quanta = (num - quanta * q) / q := by field_simp
  rw [hsub, abs_div, abs_of_pos hq', div_le_iff₀ hq', abs_le]
  constructor
  · linarith
  · linarith

/-- Seventeen digits always suffice: the nearer neighbour is read as the double. -/
theorem isSome_withDigits?_seventeen (tie : Tie) (hq : Representable quanta) (hne : quanta ≠ 0) :
    (withDigits? tie quanta 17).isSome := by
  rw [withDigits?_eq]
  apply isSome_neighbour?
  have hpos : 0 < quanta := Nat.pos_of_ne_zero hne
  -- the remainder is nothing on the finest grid
  have hgrid : quanta * quantumUnits % 10 ^ gridPlace quanta 17 = 0 ∨
      10 ^ 16 * 10 ^ gridPlace quanta 17 ≤ quanta * quantumUnits := by
    rcases Nat.eq_zero_or_pos (gridPlace quanta 17) with h | h
    · left
      rw [h, Nat.pow_zero, Nat.mod_one]
    · exact .inr (mul_pow_gridPlace_le hne h)
  have hsplit := Nat.div_add_mod (quanta * quantumUnits) (10 ^ gridPlace quanta 17)
  have hmod := Nat.mod_lt (quanta * quantumUnits)
    (show 0 < 10 ^ gridPlace quanta 17 from Nat.pow_pos (by decide))
  rw [Nat.mul_comm] at hsplit
  by_cases hhalf : 2 * (quanta * quantumUnits % 10 ^ gridPlace quanta 17) ≤
      10 ^ gridPlace quanta 17
  · left
    apply onGrid_readsAs_of_close hq hpos
    · omega
    · omega
  · right
    have hupper := Nat.succ_mul (quanta * quantumUnits / 10 ^ gridPlace quanta 17)
      (10 ^ gridPlace quanta 17)
    apply onGrid_readsAs_of_close hq hpos
    · rw [hupper]
      omega
    · rw [hupper]
      omega

/-! ## All grids -/

/-- The first place where something is found is no later than any place where something is. -/
theorem findSome?_range {α : Type} {f : ℕ → Option α} {n j : ℕ} (hj : j < n) (h : (f j).isSome) :
    ∃ i ≤ j, ∃ a, f i = some a ∧ (List.range n).findSome? f = some a := by
  induction n with
  | zero => exact absurd hj (Nat.not_lt_zero j)
  | succ n ih =>
    rw [List.range_succ, List.findSome?_append]
    by_cases hlast : j < n
    · obtain ⟨i, hi, a, ha, hfind⟩ := ih hlast
      exact ⟨i, hi, a, ha, by rw [hfind, Option.some_or]⟩
    · have heq : j = n := by omega
      cases hfind : (List.range n).findSome? f with
      | some a =>
        obtain ⟨i, hi, ha⟩ := List.exists_of_findSome?_eq_some hfind
        exact ⟨i, by rw [List.mem_range] at hi; omega, a, ha, rfl⟩
      | none =>
        obtain ⟨a, ha⟩ := Option.isSome_iff_exists.1 h
        rw [heq] at ha
        exact ⟨n, Nat.le_of_eq heq.symm, a, ha, by simp [ha]⟩

theorem exists_withDigits?_shortest (hpos : 0 < count) (hcount : count ≤ 17)
    (h : (withDigits? tie quanta count).isSome) :
    ∃ fewer ≤ count, withDigits? tie quanta fewer = some (shortest tie quanta) := by
  have hindex : count - 1 + 1 = count := Nat.sub_add_cancel hpos
  have hsome : (withDigits? tie quanta (count - 1 + 1)).isSome := by rwa [hindex]
  obtain ⟨i, hi, d, hd, hfind⟩ := findSome?_range
    (f := fun n => withDigits? tie quanta (n + 1)) (n := 17) (by omega) hsome
  refine ⟨i + 1, by omega, ?_⟩
  rw [shortest, hfind, Option.getD_some]
  exact hd

/-- The grid of the shortest decimal is no finer than one on which some decimal is read as the
double, if the unit of that grid is no larger than the double. -/
theorem exists_exponent_shortest (tie : Tie) (hq : Representable quanta) (hne : quanta ≠ 0)
    {units place : ℕ} (h : (onGrid units place).ReadsAs quanta = true)
    (hplace : 10 ^ place ≤ quanta * quantumUnits) :
    ∃ k : ℕ, (shortest tie quanta).exponent = ((place + k : ℕ) : ℤ) - 1074 := by
  have hwidth := lt_width_of_pow_le hplace
  have hfound : ∃ count, place ≤ gridPlace quanta count ∧
      withDigits? tie quanta count = some (shortest tie quanta) := by
    by_cases hfew : width (quanta * quantumUnits) - place ≤ 17
    · -- the given grid is among those which are looked at
      have hgrid : gridPlace quanta (width (quanta * quantumUnits) - place) = place := by
        rw [gridPlace]
        omega
      rw [← hgrid] at h
      obtain ⟨count, hcount, hshortest⟩ := exists_withDigits?_shortest (by omega) hfew
        (isSome_withDigits?_of_readsAs tie hq h)
      exact ⟨count, by rw [gridPlace]; omega, hshortest⟩
    · obtain ⟨count, hcount, hshortest⟩ := exists_withDigits?_shortest (by decide) (Nat.le_refl 17)
        (isSome_withDigits?_seventeen tie hq hne)
      exact ⟨count, by rw [gridPlace]; omega, hshortest⟩
  obtain ⟨count, hle, hshortest⟩ := hfound
  refine ⟨gridPlace quanta count - place, ?_⟩
  rw [exponent_of_withDigits? hshortest, Nat.add_sub_cancel' hle]

end Grid

end DriveClient.Decimal
