import DriveClient.Proofs.Decimal.Fewest
import DriveClient.Proofs.Json.Numerals

/-!
# Plain decimals

The text of a double for people is a plain decimal: no exponent, and no zero at the end that says
nothing. A double that is nearest to a decimal with a few places is shown with no more places than
these (`exists_spellsPlain_plain`).
-/

namespace DriveClient.Decimal

open Json (IsDigits IsWhole)

/-! ## Texts -/

/-- Texts that write a number of units of `10 ^ -places` as a plain decimal: no sign, no exponent,
no more places than these, and no zero at the end of the places. -/
inductive SpellsPlain (places : ℕ) : List Char → ℕ → Prop where
  | whole {digits : List Char} (h : IsWhole digits) :
      SpellsPlain places digits (natOfDigits digits * 10 ^ places)
  | point {whole fraction : List Char} (hw : IsWhole whole) (hf : IsDigits fraction)
      (hlength : fraction.length ≤ places) (hlast : fraction.getLast? ≠ some '0') :
      SpellsPlain places (whole ++ '.' :: fraction)
        (natOfDigits (whole ++ fraction) * 10 ^ (places - fraction.length))

namespace SpellsPlain

variable {places n : ℕ} {text : List Char}

theorem zero (places : ℕ) : SpellsPlain places ['0'] 0 := by
  have h : SpellsPlain places ['0'] _ := .whole Json.isWhole_zero
  have hzero : natOfDigits ['0'] = 0 := rfl
  rwa [hzero, Nat.zero_mul] at h

/-- A plain decimal begins with a digit, so it is neither a word nor a number with a sign. -/
theorem exists_digit (h : SpellsPlain places text n) : ∃ d rest, text = d :: rest ∧ d.isDigit := by
  cases h with
  | whole h =>
    obtain ⟨d, rest, rfl⟩ := List.exists_cons_of_ne_nil h.1.1
    exact ⟨d, rest, rfl, h.1.2 d List.mem_cons_self⟩
  | point hw =>
    obtain ⟨d, rest, rfl⟩ := List.exists_cons_of_ne_nil hw.1.1
    exact ⟨d, _, rfl, hw.1.2 d List.mem_cons_self⟩

/-- A text stands for one number. -/
theorem unique {m : ℕ} (h : SpellsPlain places text n) (h' : SpellsPlain places text m) : n = m := by
  have hpoint : ¬('.').isDigit := by decide
  cases h with
  | whole hd =>
    cases h' with
    | whole => rfl
    | point => exact absurd (hd.1.2 '.' (by simp)) hpoint
  | @point whole fraction hw hf =>
    generalize htext : whole ++ '.' :: fraction = text at h'
    cases h' with
    | whole hd =>
      subst htext
      exact absurd (hd.1.2 '.' (by simp)) hpoint
    | point hw' hf' =>
      -- the first point is where the whole part ends
      have hnone : '.' ∉ fraction := fun hmem => hpoint (hf.2 '.' hmem)
      have hnone' : '.' ∉ whole := fun hmem => hpoint (hw.1.2 '.' hmem)
      obtain ⟨rfl, -, rfl⟩ := (List.append_cons_inj_of_notMem hnone' hnone).1 htext
      rfl

/-- Of the words for what is no number, and the zero with a sign, none is a plain decimal. -/
theorem ne_word {text word : String} (h : SpellsPlain places text.toList n)
    (hword : word ∈ ["-0", "NaN", "inf"]) : text ≠ word := by
  rintro rfl
  obtain ⟨d, rest, htext, hd⟩ := h.exists_digit
  have hdigit : text.toList.head?.any Char.isDigit = true := by
    rw [htext]
    exact hd
  have hwords : ∀ word ∈ ["-0", "NaN", "inf"], word.toList.head?.any Char.isDigit = false := by
    decide +kernel
  exact Bool.false_ne_true ((hwords text hword).symm.trans hdigit)

end SpellsPlain

/-! ## Significant digits -/

/-- The last significant digit is no zero. -/
theorem getLast?_significant (n : ℕ) : (significant n).getLast? ≠ some '0' := by
  rw [significant, List.getLast?_reverse]
  intro hzero
  have hhead := List.head?_dropWhile_not (fun c => decide (c = '0')) (Nat.toDigits 10 n).reverse
  rw [hzero] at hhead
  exact absurd hhead (by decide)

/-! ## The plain layout -/

/-- Digits around a point spell the number of units that they are, if the point stands far enough to
the right. -/
theorem spellsPlain_positional {places : ℕ} {digits : List Char} (hd : IsDigits digits)
    (hhead : digits.head? ≠ some '0') (hlast : digits.getLast? ≠ some '0') {point : ℤ} {k : ℕ}
    (hk : point + places = digits.length + k) :
    SpellsPlain places (positional digits point) (natOfDigits digits * 10 ^ k) := by
  have hlen : 0 < digits.length := List.length_pos_of_ne_nil hd.1
  rw [positional]
  split
  · -- a number below one
    next hpoint =>
    have hfraction := hd.zeros_append (-point).toNat
    have hlength : (List.replicate (-point).toNat '0' ++ digits).length =
        (-point).toNat + digits.length := by
      rw [List.length_append, List.length_replicate]
    have hvalue : natOfDigits (['0'] ++ (List.replicate (-point).toNat '0' ++ digits)) =
        natOfDigits digits := by
      rw [← List.append_assoc]
      exact natOfDigits_zeros_append ((-point).toNat + 1) digits
    have hbehind : (List.replicate (-point).toNat '0' ++ digits).getLast? ≠ some '0' := by
      rwa [List.getLast?_append_of_ne_nil _ hd.1]
    have hspells : SpellsPlain places _ _ := .point Json.isWhole_zero hfraction (by omega) hbehind
    have hplaces : places - (List.replicate (-point).toNat '0' ++ digits).length = k := by omega
    rwa [hvalue, hplaces] at hspells
  · split
    · -- a point between the digits
      next hpoint hbetween =>
      have htake : IsDigits (digits.take point.toNat) := by
        refine hd.of_mem ?_ fun c hc => List.mem_of_mem_take hc
        rw [List.length_take]
        omega
      have hdrop : IsDigits (digits.drop point.toNat) := by
        refine hd.of_mem ?_ fun c hc => List.mem_of_mem_drop hc
        rw [List.length_drop]
        omega
      have hfirst : (digits.take point.toNat).head? ≠ some '0' := by
        rwa [List.head?_take, if_neg (by omega)]
      have hbehind : (digits.drop point.toNat).getLast? ≠ some '0' := by
        rwa [List.getLast?_drop, if_neg (by omega)]
      have hlength : (digits.drop point.toNat).length = digits.length - point.toNat :=
        List.length_drop
      have hspells : SpellsPlain places _ _ :=
        .point (htake.isWhole hfirst) hdrop (by omega) hbehind
      have hplaces : places - (digits.drop point.toNat).length = k := by omega
      rwa [List.take_append_drop, hplaces] at hspells
    · -- a whole number
      next hpoint hwhole =>
      have hdigits : IsWhole (digits ++ List.replicate (point.toNat - digits.length) '0') := by
        apply (hd.append_zeros _).isWhole
        rwa [List.head?_append_of_ne_nil _ hd.1]
      have hspells : SpellsPlain places _ _ := .whole hdigits
      have hplaces : point.toNat - digits.length + places = k := by omega
      rwa [natOfDigits_append_zeros, Nat.pow_eq, Nat.mul_assoc, ← Nat.pow_add, hplaces] at hspells

/-- A decimal with so many places at most is laid out as a plain decimal. -/
theorem spellsPlain_layout {d : Decimal} {places k : ℕ} (hne : d.digits ≠ 0)
    (hk : d.exponent = (k : ℤ) - places) :
    SpellsPlain places (positional (significant d.digits) d.pointAfter) (d.digits * 10 ^ k) := by
  obtain ⟨j, hdigits, hwidth⟩ := eq_natOfDigits_significant_mul d.digits
  have hd : IsDigits (significant d.digits) :=
    ⟨significant_ne_nil hne, fun _ hc => isDigit_of_mem_significant hc⟩
  have hpoint : d.pointAfter + places = (significant d.digits).length + (j + k : ℕ) := by
    rw [pointAfter]
    omega
  have hspells := spellsPlain_positional hd (head?_significant hne) (getLast?_significant d.digits)
    hpoint
  have hvalue : d.digits * 10 ^ k = natOfDigits (significant d.digits) * 10 ^ (j + k) := by
    rw [Nat.pow_add, ← Nat.mul_assoc]
    exact congrArg (· * 10 ^ k) hdigits
  rwa [hvalue]

/-! ## Doubles near to a decimal with a few places -/

section Places

variable {places place : ℕ} (hplace : place + places = 1074)

include hplace

/-- Units of `10 ^ -places` are counted on the grid at their place. -/
theorem nearestQuanta_onGrid (units : ℕ) :
    nearestQuanta (units * 10 ^ place) quantumUnits =
      nearestQuanta (units * quantaPerOne) (10 ^ places) := by
  obtain ⟨k, hk, hten⟩ := exists_quantaPerOne_mul_quantumUnits
  refine nearestQuanta_congr quantumUnits_pos (Nat.pow_pos (by decide)) ?_
  calc units * 10 ^ place * 10 ^ places
      = units * 10 ^ k := by rw [Nat.mul_assoc, ← Nat.pow_add, hplace.trans hk.symm]
    _ = units * quantaPerOne * quantumUnits := by rw [← hten, Nat.mul_assoc]

/-- What is read from a grid that is no finer is read from units of `10 ^ -places`. -/
theorem nearestQuanta_of_readsAs {d : Decimal} {quanta k : ℕ} (hq : Representable quanta)
    (hexponent : d.exponent = ((place + k : ℕ) : ℤ) - 1074) (h : d.ReadsAs quanta = true) :
    nearestQuanta (d.digits * 10 ^ k * quantaPerOne) (10 ^ places) = quanta := by
  have hd : d = onGrid d.digits (place + k) := by
    rw [onGrid, ← hexponent]
  have hunits : d.digits * 10 ^ k * 10 ^ place = d.digits * 10 ^ (place + k) := by
    rw [Nat.pow_add]
    ring
  rw [← nearestQuanta_onGrid hplace, hunits]
  rw [hd] at h
  exact (onGrid_readsAs_iff hq).1 h

/-- A double that is nearest to some units of `10 ^ -places` is shown as a plain decimal with so
many places at most, which is read as the double again; provided that one unit is not rounded down.
-/
theorem exists_spellsPlain_plain {units quanta : ℕ}
    (hunit : 10 ^ place ≤ nearestQuanta quantaPerOne (10 ^ places) * quantumUnits)
    (hq : Representable quanta)
    (h : nearestQuanta (units * quantaPerOne) (10 ^ places) = quanta) :
    ∃ n, SpellsPlain places (plain quanta) n ∧
      nearestQuanta (n * quantaPerOne) (10 ^ places) = quanta := by
  have hden : 0 < 10 ^ places := Nat.pow_pos (by decide)
  by_cases hzero : quanta = 0
  · subst hzero
    refine ⟨0, ?_, ?_⟩
    · rw [plain, if_pos rfl]
      exact .zero places
    · rw [Nat.zero_mul, nearestQuanta_zero hden]
  · have hread : (onGrid units place).ReadsAs quanta = true := by
      rw [onGrid_readsAs_iff hq, nearestQuanta_onGrid hplace]
      exact h
    have hlarge : 10 ^ place ≤ quanta * quantumUnits := by
      have hunits : units ≠ 0 := by
        intro hnone
        rw [hnone, Nat.zero_mul, nearestQuanta_zero hden] at h
        exact hzero h.symm
      have hone : nearestQuanta quantaPerOne (10 ^ places) ≤ quanta := by
        rw [← h]
        exact nearestQuanta_mono_left hden (Nat.le_mul_of_pos_left _ (Nat.pos_of_ne_zero hunits))
      exact Nat.le_trans hunit (Nat.mul_le_mul_right _ hone)
    obtain ⟨k, hexponent⟩ := exists_exponent_shortest .up hq hzero hread hlarge
    have hshortest := readsAs_shortest .up hq
    have hne := digits_ne_zero_of_readsAs hq hzero hshortest
    rw [plain, if_neg hzero]
    generalize shortest .up quanta = d at *
    refine ⟨d.digits * 10 ^ k, spellsPlain_layout hne (by omega), ?_⟩
    exact nearestQuanta_of_readsAs hplace hq hexponent hshortest

end Places

end DriveClient.Decimal
