import DriveClient.Json.Literal
import DriveClient.Proofs.Decimal.Digits
import DriveClient.Proofs.Decimal.Value
import DriveClient.Proofs.Double.Counts
import DriveClient.Proofs.Json.Members
import DriveClient.Proofs.Json.Writing

/-!
# Written numbers

The document text of a finite double spells a number that stands for that double, its sign
included (`spellsDouble_documented`), and the digits of a natural number spell it
(`spells_toDigits`). In every layout of a double the digits stand for the number itself up to a
power of ten, which the place of the point and the exponent make up for.
-/

namespace DriveClient.Json

open Decimal (natOfDigits)

/-- Whether a text spells a number that stands for a double. -/
def SpellsDouble (text : List Char) (v : Double) : Prop := ∃ n, SpellsNumber n text ∧ n.toDouble = v

/-! ## Parts -/

theorem isWhole_zero : IsWhole ['0'] := by
  refine ⟨⟨by decide, fun c hc => ?_⟩, fun _ => rfl⟩
  obtain rfl : c = '0' := List.mem_singleton.1 hc
  decide

theorem IsDigits.isWhole {digits : List Char} (h : IsDigits digits)
    (hz : digits.head? ≠ some '0') : IsWhole digits := ⟨h, fun hzero => absurd hzero hz⟩

theorem isDigits_toDigits (n : ℕ) : IsDigits (Nat.toDigits 10 n) :=
  ⟨Nat.toDigits_ne_nil, fun _ hc => Decimal.isDigit_of_mem_toDigits hc⟩

/-- Some of the digits, and at least one. -/
theorem IsDigits.of_mem {digits part : List Char} (h : IsDigits digits) (hlen : 0 < part.length)
    (hmem : ∀ c ∈ part, c ∈ digits) : IsDigits part :=
  ⟨List.ne_nil_of_length_pos hlen, fun c hc => h.2 c (hmem c hc)⟩

theorem isDigit_of_mem_zeros {k : ℕ} {c : Char} (h : c ∈ List.replicate k '0') : c.isDigit := by
  rw [List.eq_of_mem_replicate h]
  decide

theorem IsDigits.zeros_append (k : ℕ) {digits : List Char} (h : IsDigits digits) :
    IsDigits (List.replicate k '0' ++ digits) := by
  refine ⟨List.append_ne_nil_of_right_ne_nil _ h.1, fun c hc => ?_⟩
  rcases List.mem_append.1 hc with hc | hc
  · exact isDigit_of_mem_zeros hc
  · exact h.2 c hc

theorem IsDigits.append_zeros (k : ℕ) {digits : List Char} (h : IsDigits digits) :
    IsDigits (digits ++ List.replicate k '0') := by
  refine ⟨List.append_ne_nil_of_left_ne_nil h.1 _, fun c hc => ?_⟩
  rcases List.mem_append.1 hc with hc | hc
  · exact h.2 c hc
  · exact isDigit_of_mem_zeros hc

theorem spells_point (negative : Bool) {whole fraction : List Char} (hw : IsWhole whole)
    (hf : IsDigits fraction) :
    SpellsNumber ⟨negative, whole, fraction, none⟩
      (signText negative ++ (whole ++ '.' :: fraction)) := by
  have h := SpellsNumber.intro (n := ⟨negative, whole, fraction, none⟩) hw (.present hf) .absent
  simpa using h

/-- A written exponent shows its sign in any case. -/
theorem spellsExponent_signed (power : ℤ) :
    SpellsExponent (some (decide (power < 0), Nat.toDigits 10 power.natAbs))
      ('e' :: (if power < 0 then '-' else '+') :: Nat.toDigits 10 power.natAbs) := by
  by_cases hneg : power < 0
  · rw [decide_eq_true hneg, if_pos hneg]
    exact .minus (.inl rfl) (isDigits_toDigits _)
  · rw [decide_eq_false hneg, if_neg hneg]
    exact .plus (.inl rfl) (isDigits_toDigits _)

theorem Literal.power_signed {n : Literal} {power : ℤ}
    (h : n.exponent = some (decide (power < 0), Nat.toDigits 10 power.natAbs)) :
    n.power = power := by
  have hvalue := Decimal.natOfDigits_toDigits power.natAbs
  rw [Literal.power, h]
  by_cases hneg : power < 0
  · simp only [decide_eq_true hneg, if_true, hvalue]
    omega
  · simp only [decide_eq_false hneg, Bool.false_eq_true, if_false, hvalue]
    omega

/-! ## Layouts -/

section Layouts

variable (negative : Bool) {digits : List Char} (hd : IsDigits digits)

include hd

/-- A number below one: zeros stand between the point and the digits. -/
theorem spellsDouble_below {point : ℤ} (hp : point ≤ 0) :
    SpellsDouble (signText negative ++ Decimal.positional digits point)
      (Decimal.toDouble negative ⟨natOfDigits digits, point - digits.length⟩) := by
  let zeros := List.replicate (-point).toNat '0'
  refine ⟨⟨negative, ['0'], zeros ++ digits, none⟩, ?_, ?_⟩
  · have h := spells_point negative isWhole_zero (hd.zeros_append (-point).toNat)
    rw [Decimal.positional, if_pos hp]
    exact h
  · have hdigits : natOfDigits (['0'] ++ (zeros ++ digits)) = natOfDigits digits := by
      rw [← List.append_assoc]
      exact Decimal.natOfDigits_zeros_append ((-point).toNat + 1) digits
    have hexp : (0 : ℤ) - (zeros ++ digits).length = point - digits.length := by
      rw [List.length_append, List.length_replicate]
      omega
    rw [Literal.toDouble, Literal.magnitude, hdigits, Literal.power, hexp]

/-- A point between the digits. -/
theorem spellsDouble_between (hz : digits.head? ≠ some '0') {point : ℤ} (hp : ¬point ≤ 0)
    (hlt : point.toNat < digits.length) :
    SpellsDouble (signText negative ++ Decimal.positional digits point)
      (Decimal.toDouble negative ⟨natOfDigits digits, point - digits.length⟩) := by
  obtain ⟨k, hk⟩ : ∃ k, k = point.toNat := ⟨_, rfl⟩
  rw [← hk] at hlt
  have hpos : 0 < k := by omega
  refine ⟨⟨negative, digits.take k, digits.drop k, none⟩, ?_, ?_⟩
  · have htake : IsDigits (digits.take k) := by
      refine hd.of_mem ?_ fun c hc => List.mem_of_mem_take hc
      rw [List.length_take]
      omega
    have hdrop : IsDigits (digits.drop k) := by
      refine hd.of_mem ?_ fun c hc => List.mem_of_mem_drop hc
      rw [List.length_drop]
      omega
    have hhead : (digits.take k).head? ≠ some '0' := by
      rwa [List.head?_take, if_neg (by omega)]
    have h := spells_point negative (htake.isWhole hhead) hdrop
    rw [Decimal.positional, if_neg hp, ← hk, if_pos hlt]
    exact h
  · have hexp : (0 : ℤ) - (digits.drop k).length = point - digits.length := by
      rw [List.length_drop]
      omega
    rw [Literal.toDouble, Literal.magnitude, List.take_append_drop, Literal.power, hexp]

/-- A whole number: zeros follow the digits, and a zero the point. -/
theorem spellsDouble_whole (hz : digits.head? ≠ some '0') {point : ℤ}
    (hle : digits.length ≤ point) :
    SpellsDouble (signText negative ++ (Decimal.positional digits point ++ ['.', '0']))
      (Decimal.toDouble negative ⟨natOfDigits digits, point - digits.length⟩) := by
  let zeros := List.replicate (point.toNat - digits.length) '0'
  have hlen : 0 < digits.length := List.length_pos_of_ne_nil hd.1
  refine ⟨⟨negative, digits ++ zeros, ['0'], none⟩, ?_, ?_⟩
  · have hwhole : IsWhole (digits ++ zeros) := by
      apply (hd.append_zeros _).isWhole
      obtain ⟨d, more, rfl⟩ := List.exists_cons_of_ne_nil hd.1
      exact hz
    have h := spells_point negative hwhole isWhole_zero.1
    rw [Decimal.positional, if_neg (by omega), if_neg (by omega)]
    exact h
  · have hdigits : natOfDigits (digits ++ zeros ++ ['0']) =
        natOfDigits digits * 10 ^ (point.toNat - digits.length + 1) := by
      have hzeros : zeros ++ ['0'] = List.replicate (point.toNat - digits.length + 1) '0' :=
        List.replicate_succ'.symm
      rw [List.append_assoc, hzeros]
      exact Decimal.natOfDigits_append_zeros _ _
    have hexp : (0 : ℤ) - (['0'] : List Char).length + (point.toNat - digits.length + 1 : ℕ) =
        point - digits.length := by
      rw [List.length_singleton]
      omega
    rw [Literal.toDouble, Literal.magnitude, hdigits, Decimal.toDouble_shift, Literal.power, hexp]

/-- One digit before the point, and an exponent. -/
theorem spellsDouble_scientific (hz : digits.head? ≠ some '0') (point : ℤ) :
    SpellsDouble (signText negative ++ Decimal.scientific digits point)
      (Decimal.toDouble negative ⟨natOfDigits digits, point - digits.length⟩) := by
  obtain ⟨first, more, rfl⟩ := List.exists_cons_of_ne_nil hd.1
  let exponent := some (decide (point - 1 < 0), Nat.toDigits 10 (point - 1).natAbs)
  refine ⟨⟨negative, [first], more, exponent⟩, ?_, ?_⟩
  · have hwhole : IsWhole [first] := by
      have hfirst : IsDigits [first] :=
        hd.of_mem (Nat.succ_pos _) fun c hc => List.mem_singleton.1 hc ▸ List.mem_cons_self
      exact hfirst.isWhole hz
    have hexponent := spellsExponent_signed (point - 1)
    -- a point follows the first digit only when there is another
    cases more with
    | nil =>
      have h := SpellsNumber.intro (n := ⟨negative, [first], [], _⟩) hwhole .absent hexponent
      simpa [Decimal.scientific, exponent] using h
    | cons second more =>
      have hmore : IsDigits (second :: more) :=
        hd.of_mem (Nat.succ_pos _) fun c hc => List.mem_cons_of_mem first hc
      have h := SpellsNumber.intro (n := ⟨negative, [first], second :: more, _⟩) hwhole
        (.present hmore) hexponent
      simpa [Decimal.scientific, exponent] using h
  · have hpower : Literal.power ⟨negative, [first], more, exponent⟩ = point - 1 :=
      Literal.power_signed rfl
    have hexp : point - 1 - more.length = point - (first :: more).length := by
      rw [List.length_cons]
      omega
    rw [Literal.toDouble, Literal.magnitude, hpower, hexp]
    rfl

/-- The digits spell the number in whichever layout is chosen for them. -/
theorem spellsDouble_layout (hz : digits.head? ≠ some '0') (point : ℤ) :
    SpellsDouble (signText negative ++
      if -5 < point ∧ point ≤ 16 then
        Decimal.positional digits point ++ (if point < digits.length then [] else ['.', '0'])
      else Decimal.scientific digits point)
      (Decimal.toDouble negative ⟨natOfDigits digits, point - digits.length⟩) := by
  split
  · split
    · next hlt =>
      rw [List.append_nil]
      by_cases hp : point ≤ 0
      · exact spellsDouble_below negative hd hp
      · exact spellsDouble_between negative hd hz hp (by omega)
    · next hge => exact spellsDouble_whole negative hd hz (by omega)
  · exact spellsDouble_scientific negative hd hz point

end Layouts

/-! ## Whole texts -/

theorem spellsDouble_zero (negative : Bool) (hq : Representable 0) :
    SpellsDouble (signText negative ++ Decimal.documented 0) (.finite negative 0 hq) := by
  refine ⟨⟨negative, ['0'], ['0'], none⟩, ?_, ?_⟩
  · rw [Decimal.documented, if_pos rfl]
    exact spells_point negative isWhole_zero isWhole_zero.1
  · have hone : nearestQuanta 0 1 = 0 := nearestQuanta_zero Nat.one_pos
    have hdigits : natOfDigits (['0'] ++ ['0']) = 0 := rfl
    rw [Literal.toDouble, Literal.magnitude, hdigits, Decimal.toDouble, if_pos rfl]
    exact Double.ofQuanta_eq_finite hq hone

/-- The document text of a finite double spells that double. -/
theorem spellsDouble_documented (negative : Bool) {quanta : ℕ} (hq : Representable quanta) :
    SpellsDouble (signText negative ++ Decimal.documented quanta) (.finite negative quanta hq) := by
  by_cases hzero : quanta = 0
  · subst hzero
    exact spellsDouble_zero negative hq
  · have hread := Decimal.readsAs_shortest .toEven hq
    have hne := Decimal.digits_ne_zero_of_readsAs hq hzero hread
    have hd : IsDigits (Decimal.significant (Decimal.shortest .toEven quanta).digits) :=
      ⟨Decimal.significant_ne_nil hne, fun _ hc => Decimal.isDigit_of_mem_significant hc⟩
    rw [Decimal.documented, if_neg hzero, ← Decimal.toDouble_shortest negative .toEven hq,
      ← Decimal.toDouble_significant]
    exact spellsDouble_layout negative hd (Decimal.head?_significant hne) _

/-! ## Natural numbers -/

/-- A natural number as it is written. -/
def Literal.ofNat (n : ℕ) : Literal := ⟨false, Nat.toDigits 10 n, [], none⟩

/-- The digits of a natural number spell it. -/
theorem spells_toDigits (n : ℕ) : SpellsNumber (.ofNat n) (Nat.toDigits 10 n) := by
  have hwhole : IsWhole (Nat.toDigits 10 n) := by
    refine ⟨isDigits_toDigits n, fun hzero => ?_⟩
    by_cases hn : n = 0
    · rw [hn]
      rfl
    · exact absurd hzero (Decimal.head?_toDigits hn)
  have h := SpellsNumber.intro (n := .ofNat n) hwhole .absent .absent
  simpa [signText, Literal.ofNat] using h

theorem Literal.isCount_ofNat (count : UInt64) : (ofNat count.toNat).IsCount count :=
  ⟨rfl, rfl, rfl, Decimal.natOfDigits_toDigits _⟩

theorem Literal.toDouble_ofNat (n : ℕ) : (ofNat n).toDouble = .ofNat n := by
  have hmagnitude : (ofNat n).magnitude = ⟨n, 0⟩ := by
    simp [magnitude, ofNat, power, Decimal.natOfDigits_toDigits]
  rw [toDouble, hmagnitude, Decimal.toDouble_eq_ofQuanta, Double.ofNat]
  simp only [Int.toNat_zero, neg_zero, Nat.pow_zero, Nat.mul_one]
  rfl

/-- A member with a count. -/
def Entry.ofCount (name : String) (count : UInt64) : Entry where
  name := name
  text := toString count.toNat
  tree := .number (.ofNat count.toNat)
  spells := by
    rw [Nat.toString_eq_ofList_toDigits, String.toList_ofList]
    exact .number (spells_toDigits _)
  fits := by
    refine .number ?_
    rw [Literal.toDouble_ofNat]
    exact isFinite_ofNat count

end DriveClient.Json
