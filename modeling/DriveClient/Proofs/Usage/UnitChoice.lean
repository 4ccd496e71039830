import DriveClient.Proofs.Percentage.Bar
import DriveClient.Proofs.Usage.Ratio

/-!
# The choice of the unit

A usage shows its two counts of bytes in the unit that fits the total. The choice matters for the
texts only: in every unit the ratio of the counts is that of the two doubles nearest to them, so the
bar and what it logs are the same in all units, and bringing a count to a unit loses nothing
(`unit_immaterial`).
-/

namespace DriveClient

open Double

namespace Usage

/-- A total of nothing has no ratio: it is no number, or an infinity when something is used. -/
theorem ratio_of_total_zero {used : ℕ} (hused : used ≤ 2 ^ 64) :
    Double.ofNat used / Double.ofNat 0 = if used = 0 then .nan else .infinite false := by
  obtain ⟨hfitU, hofNatU⟩ := ofNat_eq_count hused
  obtain ⟨hfitT, hofNatT⟩ := ofNat_eq_count (Nat.zero_le (2 ^ 64))
  have hnone : countQuanta used = 0 ↔ used = 0 := by
    constructor
    · intro hzero
      by_contra hsome
      have hone := quantaPerOne_le_countQuanta (Nat.pos_of_ne_zero hsome)
      rw [hzero] at hone
      exact absurd quantaPerOne_pos (Nat.not_lt.2 hone)
    · intro hzero
      rw [hzero, countQuanta_zero]
  rw [hofNatU, hofNatT, finite_div_zero _ _ countQuanta_zero]
  simp only [hnone, Bool.xor_false]

/-- **The choice of the unit does not affect the bar.** For any two counts of bytes, within the quota
or not: in every unit, the one that fits the total among them, the ratio is the quotient of the
doubles nearest to the counts, and the bar and its log are those of this quotient. It is no number,
or an infinity, when the total is nothing. A count in a unit times the size of the unit is the
double nearest to the count, as a product of doubles and as the exact product of the numbers that
they stand for, and this is the count itself up to `2 ^ 53`. -/
theorem unit_immaterial (used total : UInt64) :
    let usage : Usage := ofBytes used.toNat total.toNat
    let ratio : Double := Double.ofNat used.toNat / Double.ofNat total.toNat
    (usage = inUnit (.fitting total.toNat) used.toNat total.toNat ∧ usage.ratio = ratio) ∧
      (∀ unit : ByteUnit, (inUnit unit used.toNat total.toNat).ratio = ratio ∧
        (inUnit unit used.toNat total.toNat).bar = Bar.ofValue ratio) ∧
      (total = 0 → ratio = if used = 0 then .nan else .infinite false) ∧
      ∀ (unit : ByteUnit) (count : UInt64),
        unit.scale count.toNat * Double.ofNat unit.size = Double.ofNat count.toNat ∧
          ∃ x, (unit.scale count.toNat).number? = some x ∧
            (Double.ofNat count.toNat).number? = some (x * unit.size) ∧
            (count.toNat ≤ 2 ^ 53 → x * unit.size = count.toNat) := by
  intro usage ratio
  have hlimit (count : UInt64) : count.toNat ≤ 2 ^ 64 := Nat.le_of_lt count.toNat_lt
  have hratio (unit : ByteUnit) : (inUnit unit used.toNat total.toNat).ratio = ratio :=
    ratio_inUnit unit (hlimit used) (hlimit total)
  refine ⟨⟨ofBytes_eq_inUnit _ _, hratio (.fitting total.toNat)⟩, ?_, ?_, ?_⟩
  · intro unit
    exact ⟨hratio unit, by rw [bar, hratio unit]⟩
  · intro hnothing
    have hused : used = 0 ↔ used.toNat = 0 := by rw [← UInt64.toNat_inj, UInt64.toNat_zero]
    simp only [ratio, hnothing, UInt64.toNat_zero, ratio_of_total_zero (hlimit used), hused]
  · intro unit count
    obtain ⟨x, hscaled, hcount⟩ := unit.exists_number?_scale (hlimit count)
    refine ⟨unit.scale_mul_size (hlimit count), x, hscaled, hcount, ?_⟩
    intro hsmall
    rw [number?_ofNat hsmall, Option.some_inj] at hcount
    exact hcount.symm

end Usage

end DriveClient
