import Mathlib.Tactic.NormNum
import DriveClient.Proofs.Quantity.Display
import DriveClient.Proofs.Usage.Ratio

/-!
# The summary of two counts of bytes

Both counts are brought to the unit that fits the total and shown with two places. What is shown is
right up to the rounding to hundredths and the errors of doubles, and the used part is never shown
as more than the total (`details_accurate`). The unit fits the total and not the number that is
shown for it, so just below the next unit a total is shown as a full one of that
(`total_fits_unit`).
-/

namespace DriveClient

open Double Decimal Quantity

/-! ## Counts in a unit -/

namespace ByteUnit

/-- The hundredths of a unit that are shown for a count of bytes. -/
def shownHundredths (unit : ByteUnit) (bytes : ℕ) : ℕ := hundredths (countQuanta bytes / unit.size)

theorem countQuanta_div_le (unit : ByteUnit) {bytes : ℕ} (hfits : bytes ≤ 2 ^ 34 * unit.size) :
    countQuanta bytes / unit.size ≤ 2 ^ 34 * quantaPerOne := by
  obtain ⟨k, hk, hsize⟩ := unit.exists_size_eq_two_pow
  have hgrid := (representable_two_pow_mul_quantaPerOne (show 34 + k ≤ 65 by omega)).2
  rw [Nat.pow_add, ← hsize] at hgrid
  have hle : countQuanta bytes ≤ 2 ^ 34 * unit.size * quantaPerOne := by
    apply nearestQuanta_le Nat.one_pos hgrid
    rw [Nat.mul_one]
    exact Nat.mul_le_mul_right _ hfits
  apply Nat.div_le_of_le_mul
  calc countQuanta bytes ≤ 2 ^ 34 * unit.size * quantaPerOne := hle
    _ = unit.size * (2 ^ 34 * quantaPerOne) := by ring

section Shown

variable (unit : ByteUnit) {bytes : ℕ} (hlimit : bytes ≤ 2 ^ 64)

include hlimit

theorem scale_eq_div :
    ∃ hfit, unit.scale bytes = .finite false (countQuanta bytes / unit.size) hfit := by
  obtain ⟨u, hfit, hcount, hscale⟩ := unit.scale_eq hlimit
  have hu : countQuanta bytes / unit.size = u := by
    rw [hcount, Nat.mul_div_cancel_left _ unit.size_pos]
  rw [hu]
  exact ⟨hfit, hscale⟩

theorem div_size_mul_size : countQuanta bytes / unit.size * unit.size = countQuanta bytes := by
  obtain ⟨u, hcount, -⟩ := unit.exists_countQuanta_eq hlimit
  exact Nat.div_mul_cancel ⟨u, hcount⟩

/-- A count is shown as a plain decimal of its hundredths. -/
theorem spellsPlain_toText_scale (hfits : bytes ≤ 2 ^ 34 * unit.size) :
    SpellsPlain 2 (Quantity.toText (unit.scale bytes)).toList (unit.shownHundredths bytes) := by
  obtain ⟨hfit, hscale⟩ := unit.scale_eq_div hlimit
  have hsmall := unit.countQuanta_div_le hfits
  have hquanta : countQuanta bytes / unit.size ≤ 2 ^ 40 * quantaPerOne :=
    Nat.le_trans hsmall (Nat.mul_le_mul_right _ (by decide))
  obtain ⟨shown, htext, hspells⟩ := toText_hundredths false hfit hquanta
  rw [hscale, htext, Bool.false_and, signed, if_neg Bool.false_ne_true, String.toList_ofList]
  exact hspells

/-- Bringing a count to a unit loses one part in `2^53` at most. -/
theorem abs_div_size_sub_le :
    |((countQuanta bytes / unit.size : ℕ) / quantaPerOne : ℚ) - bytes / unit.size| ≤
      bytes / unit.size / 2 ^ 53 := by
  have hcount := Within.nearestQuanta_one (bytes * quantaPerOne)
  have hscaled := unit.div_size_mul_size hlimit
  have hq := cast_quantaPerOne_pos
  have hsize := unit.size_pos
  rw [← countQuanta] at hcount
  generalize countQuanta bytes / unit.size = quanta at *
  rw [← hscaled, Within] at hcount
  generalize quantaPerOne = q at *
  generalize unit.size = size at *
  have hsize' : (0 : ℚ) < size := by exact_mod_cast hsize
  have hratio : (quanta / q : ℚ) - bytes / size = (quanta * size - bytes * q) / (size * q) := by
    field_simp
  rw [hratio, abs_div, abs_of_pos (mul_pos hsize' hq), div_le_iff₀ (mul_pos hsize' hq)]
  push_cast at hcount
  calc |(quanta * size - bytes * q : ℚ)| ≤ 1 / 2 ^ 53 * (bytes * q) := hcount
    _ = bytes / size / 2 ^ 53 * (size * q) := by field_simp

/-- What is shown is right up to the rounding to hundredths and the errors of doubles. -/
theorem abs_shownHundredths_sub_le (hfits : bytes ≤ 2 ^ 34 * unit.size) :
    |(unit.shownHundredths bytes / 100 : ℚ) - bytes / unit.size| ≤ 51 / 10000 := by
  have hshown := abs_hundredths_sub_le (countQuanta bytes / unit.size)
  have hvalue := unit.abs_div_size_sub_le hlimit
  have hsize : (0 : ℚ) < unit.size := by exact_mod_cast unit.size_pos
  have hbytes : (bytes / unit.size : ℚ) ≤ 2 ^ 34 := by
    rw [div_le_iff₀ hsize]
    exact_mod_cast hfits
  rw [← shownHundredths, abs_le] at hshown
  rw [abs_le] at hvalue ⊢
  constructor
  · linarith
  · linarith

end Shown

theorem shownHundredths_mono (unit : ByteUnit) {a b : ℕ} (h : a ≤ b) :
    unit.shownHundredths a ≤ unit.shownHundredths b :=
  hundredths_mono (Nat.div_le_div_right (countQuanta_mono h))

/-- A count that is not too large loses nothing before it is rounded to hundredths, a half going up.
-/
theorem shownHundredths_eq (unit : ByteUnit) {bytes : ℕ} (h : bytes * 100 ≤ 2 ^ 53) :
    unit.shownHundredths bytes = (200 * bytes + unit.size) / (2 * unit.size) := by
  obtain ⟨k, hk, hsize⟩ := unit.exists_size_eq_two_pow
  obtain ⟨j, hj⟩ : ∃ j, quantaPerOne = unit.size * 2 ^ j := by
    obtain ⟨m, hm, hmk⟩ : ∃ m, quantaPerOne = 2 ^ m ∧ 30 ≤ m := ⟨1074, quantaPerOne_eq, by decide⟩
    refine ⟨m - k, ?_⟩
    rw [hm, hsize, ← Nat.pow_add, Nat.add_sub_cancel' (Nat.le_trans hk hmk)]
  have hcount : countQuanta bytes / unit.size = bytes * 2 ^ j := by
    have hgrid := (representable_mul_quantaPerOne (show bytes ≤ 2 ^ 53 by omega)).2
    have hself := nearestQuanta_mul_self Nat.one_pos hgrid
    rw [Nat.mul_one, ← countQuanta, hj, Nat.mul_left_comm] at hself
    rw [hself, Nat.mul_div_cancel_left _ unit.size_pos]
  have hround : nearestQuanta (bytes * 2 ^ j * 100) 1 = bytes * 2 ^ j * 100 := by
    have hgrid := spacing_dvd_mul j h
    have hself := nearestQuanta_mul_self Nat.one_pos hgrid
    rw [Nat.pow_eq, Nat.mul_one] at hself
    have hmul : 2 ^ j * (bytes * 100) = bytes * 2 ^ j * 100 := by ring
    rwa [hmul] at hself
  rw [shownHundredths, hundredths, hcount, hround, wholeQuanta, hj]
  have hnum : 2 * (bytes * 2 ^ j * 100) + unit.size * 2 ^ j =
      (200 * bytes + unit.size) * 2 ^ j := by ring
  rw [hnum, ← Nat.mul_assoc, Nat.mul_div_mul_right _ _ (Nat.two_pow_pos j)]

/-! ## The unit that fits -/

/-- There is one of the unit that fits at least, and less than one of the next unit. -/
theorem fitting_bounds (bytes : ℕ) :
    (fitting bytes ≠ .byte → (fitting bytes).size ≤ bytes) ∧
      (fitting bytes ≠ .gigabyte → bytes < 1024 * (fitting bytes).size) := by
  unfold fitting
  split_ifs with hgiga hmega hkilo
  · exact ⟨fun _ => hgiga, fun h => absurd rfl h⟩
  · exact ⟨fun _ => hmega, fun _ => Nat.lt_of_not_le hgiga⟩
  · exact ⟨fun _ => hkilo, fun _ => Nat.lt_of_not_le hmega⟩
  · exact ⟨fun h => absurd rfl h, fun _ => Nat.lt_of_not_le hkilo⟩

/-- A count of 64 bits is no more than `2^34` of the unit that fits it. -/
theorem le_mul_size_fitting {bytes : ℕ} (h : bytes ≤ 2 ^ 64) :
    bytes ≤ 2 ^ 34 * (fitting bytes).size := by
  by_cases hgiga : fitting bytes = .gigabyte
  · rw [hgiga, size]
    omega
  · have hlt := (fitting_bounds bytes).2 hgiga
    omega

theorem hundred_le_shownHundredths {bytes : ℕ} (h : fitting bytes ≠ .byte) :
    100 ≤ (fitting bytes).shownHundredths bytes := by
  generalize hunit : fitting bytes = unit at *
  have hone : unit.shownHundredths unit.size = 100 := by
    cases unit <;> exact shownHundredths_eq _ (by decide)
  rw [← hone, ← hunit]
  exact shownHundredths_mono _ ((fitting_bounds bytes).1 (hunit ▸ h))

/-- Below the largest unit a full next unit is shown from half a hundredth below it on. -/
theorem shownHundredths_fitting {bytes : ℕ} (h : fitting bytes ≠ .gigabyte) :
    (fitting bytes).shownHundredths bytes ≤ 102400 ∧
      ((fitting bytes).shownHundredths bytes = 102400 ↔
        204799 * (fitting bytes).size ≤ 200 * bytes) := by
  have hlt := (fitting_bounds bytes).2 h
  generalize fitting bytes = unit at *
  have hpos := unit.size_pos
  have hsize : unit.size ≤ 1048576 := by
    cases unit with
    | gigabyte => exact absurd rfl h
    | _ => decide
  have hle : (200 * bytes + unit.size) / (2 * unit.size) ≤ 102400 := by
    apply Nat.le_of_lt_succ
    rw [Nat.div_lt_iff_lt_mul (by omega)]
    omega
  have hge : 102400 ≤ (200 * bytes + unit.size) / (2 * unit.size) ↔
      204799 * unit.size ≤ 200 * bytes := by
    rw [Nat.le_div_iff_mul_le (by omega)]
    omega
  rw [shownHundredths_eq unit (by omega), ← hge]
  exact ⟨hle, fun heq => heq.ge, fun hfull => Nat.le_antisymm hle hfull⟩

/-- The same for the number that is shown. -/
theorem shown_fitting {bytes : ℕ} (h : fitting bytes ≠ .gigabyte) :
    ((fitting bytes).shownHundredths bytes / 100 : ℚ) ≤ 1024 ∧
      (((fitting bytes).shownHundredths bytes / 100 : ℚ) = 1024 ↔
        (1024 - 1 / 200) * (fitting bytes).size ≤ (bytes : ℚ)) := by
  obtain ⟨hle, hfull⟩ := shownHundredths_fitting h
  generalize fitting bytes = unit at *
  have heq : (unit.shownHundredths bytes / 100 : ℚ) = 1024 ↔
      unit.shownHundredths bytes = 102400 := by
    rw [div_eq_iff (by norm_num)]
    constructor
    · intro hshown
      have hscaled : (unit.shownHundredths bytes : ℚ) = 102400 := by linarith
      exact_mod_cast hscaled
    · intro hshown
      rw [hshown]
      norm_num
  have hnear : (1024 - 1 / 200) * unit.size ≤ (bytes : ℚ) ↔ 204799 * unit.size ≤ 200 * bytes := by
    constructor
    · intro hbytes
      have hscaled : (204799 * unit.size : ℚ) ≤ 200 * bytes := by linarith
      exact_mod_cast hscaled
    · intro hbytes
      have hscaled : (204799 * unit.size : ℚ) ≤ 200 * bytes := by exact_mod_cast hbytes
      linarith
  rw [div_le_iff₀ (by norm_num), heq, hnear]
  exact ⟨by exact_mod_cast hle, hfull⟩

end ByteUnit

namespace Usage

/-- **The summary is accurate and consistent.** Within the quota both numbers are plain decimals
with two places at most, half a hundredth away from the exact ones up to the errors of doubles, and
the used part is not shown as more than the total. -/
theorem details_accurate (used total : UInt64) (hquota : used ≤ total) :
    let unit : ByteUnit := .fitting total.toNat
    let usage := ofBytes used.toNat total.toNat
    let shownUsed := Quantity.toText usage.used
    let shownTotal := Quantity.toText usage.total
    usage.details = shownUsed ++ unit.symbol ++ " of " ++ shownTotal ++ unit.symbol ∧
      ∃ a b, SpellsPlain 2 shownUsed.toList a ∧ SpellsPlain 2 shownTotal.toList b ∧
        |(a / 100 : ℚ) - used.toNat / unit.size| ≤ 51 / 10000 ∧
        |(b / 100 : ℚ) - total.toNat / unit.size| ≤ 51 / 10000 ∧ a ≤ b ∧
        ∀ word ∈ ["-0", "NaN", "inf"], shownUsed ≠ word ∧ shownTotal ≠ word := by
  intro unit usage shownUsed shownTotal
  have hused : used.toNat ≤ total.toNat := UInt64.le_iff_toNat_le.1 hquota
  have htotal : total.toNat ≤ 2 ^ 64 := Nat.le_of_lt total.toNat_lt
  have hfits : total.toNat ≤ 2 ^ 34 * unit.size := ByteUnit.le_mul_size_fitting htotal
  have hspellsU := unit.spellsPlain_toText_scale (hused.trans htotal) (hused.trans hfits)
  have hspellsT := unit.spellsPlain_toText_scale htotal hfits
  refine ⟨rfl, unit.shownHundredths used.toNat, unit.shownHundredths total.toNat, hspellsU,
    hspellsT, ?_, ?_, unit.shownHundredths_mono hused, ?_⟩
  · exact unit.abs_shownHundredths_sub_le (hused.trans htotal) (hused.trans hfits)
  · exact unit.abs_shownHundredths_sub_le htotal hfits
  · exact fun word hword => ⟨hspellsU.ne_word hword, hspellsT.ne_word hword⟩

/-- Two large counts in gigabytes. -/
theorem details_accurate_large :
    let used : UInt64 := 12345678901234567
    let total : UInt64 := 18446744073709551615
    (ofBytes used.toNat total.toNat).details = "11497809.46GB of 17179869184GB" ∧ used ≤ total ∧
      ∃ a b, SpellsPlain 2 "11497809.46".toList a ∧ SpellsPlain 2 "17179869184".toList b ∧
        |(a / 100 : ℚ) - 12345678901234567 / 1073741824| ≤ 51 / 10000 ∧
        |(b / 100 : ℚ) - 18446744073709551615 / 1073741824| ≤ 51 / 10000 ∧ a ≤ b := by
  intro used total
  have hquota : used ≤ total := by decide
  have hused : Quantity.toText (ofBytes used.toNat total.toNat).used = "11497809.46" := by
    decide +kernel
  have htotal : Quantity.toText (ofBytes used.toNat total.toNat).total = "17179869184" := by
    decide +kernel
  obtain ⟨hdetails, a, b, ha, hb, hnearA, hnearB, hle, -⟩ := details_accurate used total hquota
  rw [hused] at hdetails ha
  rw [htotal] at hdetails hb
  exact ⟨hdetails, hquota, a, b, ha, hb, hnearA, hnearB, hle⟩

/-- **A shown total fits its unit, or it is a full next one.** It is never below one of a unit with
a prefix and never as much as a kilobyte in bytes. In kilobytes and megabytes it is 1024 at most,
and just this from half a hundredth below the next unit on. -/
theorem total_fits_unit (used total : UInt64) :
    let unit : ByteUnit := .fitting total.toNat
    let usage := ofBytes used.toNat total.toNat
    let shown := Quantity.toText usage.total
    usage.details = Quantity.toText usage.used ++ unit.symbol ++ " of " ++ shown ++ unit.symbol ∧
      ∃ n, SpellsPlain 2 shown.toList n ∧
        (unit ≠ .byte → 1 ≤ (n / 100 : ℚ)) ∧
        (unit = .byte → (n / 100 : ℚ) < 1024) ∧
        (unit = .kilobyte ∨ unit = .megabyte → (n / 100 : ℚ) ≤ 1024 ∧
          ((n / 100 : ℚ) = 1024 ↔ (1024 - 1 / 200) * unit.size ≤ (total.toNat : ℚ))) := by
  intro unit usage shown
  have htotal : total.toNat ≤ 2 ^ 64 := Nat.le_of_lt total.toNat_lt
  have hspells := unit.spellsPlain_toText_scale htotal (ByteUnit.le_mul_size_fitting htotal)
  refine ⟨rfl, unit.shownHundredths total.toNat, hspells, ?_, ?_, ?_⟩
  · intro hunit
    rw [le_div_iff₀ (by norm_num), one_mul]
    exact_mod_cast ByteUnit.hundred_le_shownHundredths hunit
  · intro hunit
    have hbelow : unit ≠ .gigabyte := by
      rw [hunit]
      decide
    have hlt := (ByteUnit.fitting_bounds total.toNat).2 hbelow
    obtain ⟨hle, hfull⟩ := ByteUnit.shown_fitting hbelow
    have hone : unit.size = 1 := by rw [hunit, ByteUnit.size]
    -- the next whole byte below a kilobyte is too far away
    have hfar : (total.toNat : ℚ) ≤ 1023 := by
      change total.toNat < 1024 * unit.size at hlt
      exact_mod_cast (show total.toNat ≤ 1023 by omega)
    apply lt_of_le_of_ne hle
    intro heq
    have hnear := hfull.1 heq
    rw [hone, Nat.cast_one] at hnear
    linarith
  · intro hunit
    have hbelow : unit ≠ .gigabyte := by
      rcases hunit with hunit | hunit
      · rw [hunit]
        decide
      · rw [hunit]
        decide
    exact ByteUnit.shown_fitting hbelow

/-- Five bytes less than a megabyte are shown as a full one. -/
theorem total_full_below_megabyte :
    (ofBytes 0 1048571).details = "0KB of 1024KB" ∧
      ¬∀ used total : UInt64, ByteUnit.fitting total.toNat ≠ .gigabyte →
        ∀ n, SpellsPlain 2 (Quantity.toText (ofBytes used.toNat total.toNat).total).toList n →
          (n / 100 : ℚ) < 1024 := by
  have hdetails : (ofBytes 0 1048571).details = "0KB of 1024KB" := by decide +kernel
  refine ⟨hdetails, fun hall => ?_⟩
  have hshown : ByteUnit.kilobyte.shownHundredths 1048571 = 102400 :=
    ByteUnit.shownHundredths_eq _ (by decide)
  have hspells : SpellsPlain 2 (Quantity.toText (ByteUnit.kilobyte.scale 1048571)).toList _ :=
    ByteUnit.kilobyte.spellsPlain_toText_scale (by decide) (by decide)
  have hlt := hall 0 1048571 (by decide) 102400 (hshown ▸ hspells)
  norm_num at hlt

end Usage

end DriveClient
