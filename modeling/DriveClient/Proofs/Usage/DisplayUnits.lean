import DriveClient.Proofs.Quantity.Display
import DriveClient.Proofs.Usage.Agreement

/-!
# Usages reported in display units

A report in display units may hold any finite double. Its numbers are rounded through their
hundredfolds, so they are shown as numbers as long as these are finite too, and as infinities from
there on (`shown_as_number_iff`).
-/

namespace DriveClient

open Double Quantity

/-! ## Numbers of a document -/

namespace Json

theorem Fits.isFinite_number {room : ℕ} {n : Literal} (h : Fits room (.number n)) :
    n.toDouble.isFinite := by
  cases h with
  | number hfinite => exact hfinite

theorem Fits.isFinite_member {room : ℕ} {name : String} {n : Literal}
    {members : List (String × Tree)} (h : Fits room (.object members))
    (honly : OnlyMember name (.number n) members) : n.toDouble.isFinite := by
  obtain ⟨before, after, rfl, -, -⟩ := honly
  cases h with
  | object hmembers => exact (hmembers (name, .number n) (by simp)).isFinite_number

end Json

/-- A document has no place for a number that is not finite. -/
theorem Report.isFinite_of_read_units {text : String} {usage : Usage}
    (h : read text = .ok (.units usage)) : usage.used.isFinite ∧ usage.total.isFinite := by
  obtain ⟨tree, hdoc⟩ := Usage.exists_document_of_report h
  have hform := ((read_iff_form hdoc).1 usage).1 h
  have hfits := hdoc.fits
  generalize Json.maxDepth = room at hfits
  cases hform with
  | object hused htotal => exact ⟨hfits.isFinite_member hused, hfits.isFinite_member htotal⟩
  | array used total unit =>
    cases hfits with
    | array htrees =>
      exact ⟨(htrees (.number used) (by simp)).isFinite_number,
        (htrees (.number total) (by simp)).isFinite_number⟩

/-! ## The summary -/

namespace Usage

/-- **Finite quantities are shown as numbers, as far as their hundredfolds are finite.** A double is
rounded to a finite one exactly when a hundred times as much is finite, and exactly then its text is
a plain decimal with two places at most; a larger one is shown as an infinity. The numbers of a
report in display units are finite, and the summary shows their texts. -/
theorem shown_as_number_iff (v : Double) :
    ((roundTo v 2).isFinite ↔ v.HundredfoldFits) ∧
      (IsNumberText (Quantity.toText v) ↔ v.HundredfoldFits) ∧
      (v.isFinite → ¬v.HundredfoldFits → Quantity.toText v ∈ ["inf", "-inf"]) ∧
      ∀ text usage, Report.read text = .ok (.units usage) → v ∈ [usage.used, usage.total] →
        v.isFinite ∧ usage.details = Quantity.toText usage.used ++ usage.unit ++ " of " ++
          Quantity.toText usage.total ++ usage.unit := by
  refine ⟨isFinite_roundTo_iff v, isNumberText_toText_iff v, toText_mem_of_not_hundredfoldFits, ?_⟩
  intro text usage h hmem
  obtain ⟨hused, htotal⟩ := Report.isFinite_of_read_units h
  refine ⟨?_, rfl⟩
  rcases List.mem_pair.1 hmem with rfl | rfl
  · exact hused
  · exact htotal

/-- A report with a total just below the largest one that is shown as a number. -/
def largeUnits : String := "\x7b\"used\":2.5,\"total\":1.79e306,\"unit\":\"GB\"\x7d"

theorem shown_as_number_iff_largeUnits :
    ∃ usage, Report.read largeUnits = .ok (.units usage) ∧ usage.total.HundredfoldFits ∧
      IsNumberText (Quantity.toText usage.total) ∧
      usage.details = "2.5GB of " ++ Quantity.toText usage.total ++ "GB" := by
  obtain ⟨usage, hread, hround, hused, hunit⟩ : ∃ usage,
      Report.read largeUnits = .ok (.units usage) ∧ (roundTo usage.total 2).isFinite ∧
        Quantity.toText usage.used = "2.5" ∧ usage.unit = "GB" :=
    ⟨⟨Decimal.toDouble false ⟨25, -1⟩, Decimal.toDouble false ⟨179, 304⟩, "GB"⟩,
      by decide +kernel, by decide +kernel, by decide +kernel, rfl⟩
  obtain ⟨hfinite, hnumber, -, hreports⟩ := shown_as_number_iff usage.total
  obtain ⟨-, hdetails⟩ := hreports largeUnits usage hread (by simp)
  rw [hused, hunit] at hdetails
  exact ⟨usage, hread, hfinite.1 hround, hnumber.2 (hfinite.1 hround), hdetails⟩

/-- A report with finite numbers whose hundredfolds are not finite. -/
def hugeUnits : String := "\x7b\"used\":1e308,\"total\":1.7e308,\"unit\":\"GB\"\x7d"

/-- Finite quantities that are shown as infinities. -/
theorem finite_shown_as_infinite :
    (∃ usage, Report.read hugeUnits = .ok (.units usage) ∧ usage.details = "infGB of infGB") ∧
      ¬∀ v : Double, v.isFinite → (roundTo v 2).isFinite := by
  let usage : Usage := ⟨Decimal.toDouble false ⟨1, 308⟩, Decimal.toDouble false ⟨17, 307⟩, "GB"⟩
  have hread : Report.read hugeUnits = .ok (.units usage) := by decide +kernel
  have hdetails : usage.details = "infGB of infGB" := by decide +kernel
  refine ⟨⟨usage, hread, hdetails⟩, fun hall => ?_⟩
  have hfinite : usage.total.isFinite := by decide +kernel
  have hround : (roundTo usage.total 2).isFinite = false := by decide +kernel
  exact Bool.false_ne_true (hround.symm.trans (hall usage.total hfinite))

end Usage

end DriveClient
