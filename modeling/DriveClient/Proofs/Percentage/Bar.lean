import DriveClient.View.Sidebar
import DriveClient.Proofs.Percentage.Normalization

/-!
# The percentage bar

Whatever double it is given, the bar is drawn: its parts make up a hundred, and the element shows
them. A value that is refused leaves the bar empty and puts one error on record that names the value
(`percentageBar_shows`).
-/

namespace DriveClient

open Double

variable {v : Double}

/-! ## Parts -/

namespace Bar

theorem ofPercentage_sum (p : Percentage) :
    (ofPercentage p).filled.value + ((ofPercentage p).remainder.map Percentage.value).getD 0 =
      100 := by
  have hle := p.le_hundred
  rw [ofPercentage]
  by_cases hfull : p = .full
  · rw [if_pos hfull, hfull]
    rfl
  · rw [if_neg hfull]
    change p.value + (100 - p.value) = 100
    omega

theorem eq_full_iff (p : Percentage) : p = .full ↔ p.value = 100 := by
  constructor
  · intro h
    rw [h]
    rfl
  · intro h
    cases p
    subst h
    rfl

theorem ofPercentage_remainder_eq_none_iff (p : Percentage) :
    (ofPercentage p).remainder = none ↔ p.value = 100 := by
  rw [ofPercentage, ← eq_full_iff]
  by_cases hfull : p = .full
  · simp [hfull]
  · simp [hfull]

theorem ofValue_of_ok {p : Percentage} (h : Percentage.ofValue v = .ok p) :
    ofValue v = ⟨ofPercentage p, []⟩ := by
  rw [ofValue, Percentage.ofValueOrEmpty, h]
  rfl

theorem ofValue_of_error {refusal : Percentage.Refusal}
    (h : Percentage.ofValue v = .error refusal) :
    ofValue v = ⟨ofPercentage .empty, [⟨.error, refusal.message⟩]⟩ := by
  rw [ofValue, Percentage.ofValueOrEmpty, h]
  rfl

/-- What is accepted is shown without a word; what is refused is shown as zero, with one error. -/
theorem ofValue_outcome (v : Double) :
    match Percentage.ofValue v with
    | .ok p => (ofValue v).value.filled = p ∧ (ofValue v).log = []
    | .error refusal =>
      (ofValue v).value.filled.value = 0 ∧ (ofValue v).log = [⟨.error, refusal.message⟩] ∧
        refusal.value = v := by
  cases h : Percentage.ofValue v with
  | ok p =>
    rw [ofValue_of_ok h]
    exact ⟨rfl, rfl⟩
  | error refusal =>
    rw [ofValue_of_error h]
    exact ⟨rfl, rfl, Percentage.value_of_ofValue_eq_error h⟩

/-- Every bar is the bar of a percentage. -/
theorem exists_ofPercentage (v : Double) : ∃ p, (ofValue v).value = ofPercentage p :=
  ⟨_, rfl⟩

end Bar

/-! ## The element -/

namespace View

/-- A part of a bar by its width in percent. -/
def segment (name : String) (percent : ℕ) : Node :=
  plain "div" [("class", name), ("style", s!"width: {percent}%")] []

/-- The parts of a bar that is filled to some percent: the rest is left out when there is none. -/
def segments (filled : ℕ) : List Node :=
  if filled < 100 then [segment "filled" filled, segment "remainder" (100 - filled)]
  else [segment "filled" filled]

theorem barNode_ofPercentage (p : Percentage) :
    ∃ attributes, barNode (.ofPercentage p) = plain "div" attributes (segments p.value) ∧
      attribute? attributes "aria-valuenow" = some (toString p.value) := by
  have hle := p.le_hundred
  rw [Bar.ofPercentage, barNode, segments]
  by_cases hfull : p = .full
  · rw [if_pos hfull, if_neg (by rw [(Bar.eq_full_iff p).1 hfull]; omega)]
    exact ⟨_, rfl, rfl⟩
  · have hless : p.value < 100 := by
      rw [Bar.eq_full_iff] at hfull
      omega
    rw [if_neg hfull, if_pos hless]
    exact ⟨_, rfl, rfl⟩

theorem percentageBar_eq (v : Double) :
    percentageBar v = ⟨barNode (Bar.ofValue v).value, (Bar.ofValue v).log⟩ := by
  rw [percentageBar]
  change Logged.mk _ (_ ++ []) = _
  rw [List.append_nil]
  rfl

/-- **The bar always renders and always tells.** A double is refused as not finite exactly when it is
not, and as out of range exactly when it is finite and below zero or above a hundred; every other
double, brought to the scale of a hundred, rounds to a whole percentage. The parts of the bar make up a
hundred, and the second one is missing exactly when the first one is full. A value that is accepted is
shown and leaves no trace in the log; one that is refused is shown as zero and leaves one error that is
built from it. The element says how far it is filled and has the parts at their widths. -/
theorem percentageBar_shows (v : Double) :
    let accepted := Percentage.ofValue v
    let bar := (Bar.ofValue v).value
    let log := (Bar.ofValue v).log
    ((accepted = .error (.notFinite v) ↔ v.isFinite = false) ∧
      (accepted = .error (.outOfRange v) ↔
        v.isFinite = true ∧ (v.lt zero = true ∨ (ofNat 100).lt v = true)) ∧
      ((∃ p, accepted = .ok p ∧ (Percentage.scaled v).round.numEq (ofNat p.value) = true ∧
          (Percentage.scaled v).roundToNat = p.value) ↔
        v.isFinite = true ∧ ¬(v.lt zero = true ∨ (ofNat 100).lt v = true))) ∧
    (bar.filled.value + (bar.remainder.map Percentage.value).getD 0 = 100 ∧
      (bar.remainder = none ↔ bar.filled.value = 100)) ∧
    (match accepted with
      | .ok p => bar.filled = p ∧ log = []
      | .error refusal =>
        bar.filled.value = 0 ∧ log = [⟨.error, refusal.message⟩] ∧ refusal.value = v) ∧
    ((percentageBar v).log = log ∧
      ∃ attributes,
        (percentageBar v).value = plain "div" attributes (segments bar.filled.value) ∧
          attribute? attributes "aria-valuenow" = some (toString bar.filled.value)) := by
  intro accepted bar log
  have hnotFinite : accepted = .error (.notFinite v) ↔ v.isFinite = false :=
    Percentage.ofValue_eq_notFinite_iff
  have houtOfRange : accepted = .error (.outOfRange v) ↔
      v.isFinite = true ∧ (v.lt zero = true ∨ (ofNat 100).lt v = true) :=
    Percentage.ofValue_eq_outOfRange_iff
  obtain ⟨p, hbar⟩ : ∃ p, bar = .ofPercentage p := Bar.exists_ofPercentage v
  have hfilled : bar.filled.value = p.value := by rw [hbar, Bar.ofPercentage]
  refine ⟨⟨hnotFinite, houtOfRange, Percentage.exists_ofValue_eq_ok_iff⟩, ⟨?_, ?_⟩, ?_, ?_⟩
  · rw [hbar]
    exact Bar.ofPercentage_sum p
  · rw [hfilled, hbar]
    exact Bar.ofPercentage_remainder_eq_none_iff p
  · exact Bar.ofValue_outcome v
  · rw [percentageBar_eq, hfilled]
    refine ⟨rfl, ?_⟩
    change ∃ attributes, barNode bar = _ ∧ _
    rw [hbar]
    exact barNode_ofPercentage p

end View

end DriveClient
