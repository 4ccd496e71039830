import Mathlib.Data.Int.ConditionallyCompleteOrder
import Mathlib.Order.WithBotTop
import DriveClient.Proofs.Double.Order
import DriveClient.Proofs.Double.Powers
import DriveClient.Proofs.Quantity.Display

/-!
# The order of quantities

Rounding for display keeps the order of doubles for every factor that is finite and above zero
(`roundBy_le`), and so for every number of places as long as the power of ten for them is a double
(`roundTo_le`). A result of zero has no sign. So of two quantities the larger one is not shown as the
smaller one (`rounding_keeps_order`).
-/

namespace DriveClient.Quantity

open Double Decimal

/-! ## Powers of ten -/

/-- Up to 308 places the power of ten is a double above zero. -/
theorem exists_factor {places : UInt32} (h : places ≤ 308) :
    ∃ quanta hfit, 0 < quanta ∧
      (ofNat 10).pow places.toInt32.toInt = .finite false quanta hfit := by
  have hle : places.toNat ≤ 308 := UInt32.le_iff_toNat_le.1 h
  have hcount : places.toInt32.toInt = places.toNat := by
    apply BitVec.toInt_eq_toNat_of_lt
    change 2 * places.toNat < 2 ^ 32
    omega
  obtain ⟨quanta, hfit, hpower, hone, -⟩ := upTo_pow_ten hle
  rw [hcount]
  exact ⟨quanta, hfit, Nat.lt_of_lt_of_le quantaPerOne_pos hone, hpower⟩

/-! ## Rounding -/

/-- Taking the sign off zero moves nothing. -/
theorem position?_of_numEq_zero (v : Double) :
    (if v.numEq .zero then .zero else v).position? = v.position? := by
  by_cases hzero : v.numEq .zero = true
  · cases hv : v.position? with
    | none => simp [numEq, hv] at hzero
    | some p =>
      rw [numEq_iff hv position?_zero] at hzero
      rw [if_pos (by rw [numEq_iff hv position?_zero, hzero]), position?_zero, hzero]
  · rw [if_neg hzero]

theorem le_congr {v v' w w' : Double} (hv : v.position? = v'.position?)
    (hw : w.position? = w'.position?) : v.le w = v'.le w' := by
  rw [le, le, hv, hw]

/-- Rounding for display, with any factor in the place of the power of ten. -/
def roundBy (factor value : Double) : Double :=
  let rounded := (value * factor).round / factor
  if rounded.numEq .zero then .zero else rounded

theorem roundTo_eq (value : Double) (places : UInt32) :
    roundTo value places = roundBy ((ofNat 10).pow places.toInt32.toInt) value := rfl

/-- Any finite factor above zero keeps the order. -/
theorem roundBy_le {factor : ℕ} (hfit : Representable factor) (hpos : 0 < factor) {v w : Double}
    (h : v.le w = true) :
    (roundBy (.finite false factor hfit) v).le (roundBy (.finite false factor hfit) w) = true := by
  have hscaled := mul_positive_le hfit hpos h
  have hwhole := round_le hscaled
  have hback := div_positive_le hfit hpos hwhole
  rwa [roundBy, roundBy, le_congr (position?_of_numEq_zero _) (position?_of_numEq_zero _)]

/-- A result of zero has no sign, whatever the factor. -/
theorem roundBy_ne_negative_zero (factor value : Double) (h : Representable 0) :
    roundBy factor value ≠ .finite true 0 h := by
  rw [roundBy]
  generalize (value * factor).round / factor = rounded
  by_cases hzero : rounded.numEq .zero = true
  · rw [if_pos hzero, zero, ofNat_eq (Nat.zero_le _)]
    intro heq
    cases heq
  · rw [if_neg hzero]
    rintro rfl
    exact hzero ((numEq_iff (position?_finite_true h) position?_zero).2 rfl)

theorem roundTo_le {places : UInt32} (hplaces : places ≤ 308) {v w : Double}
    (h : v.le w = true) : (roundTo v places).le (roundTo w places) = true := by
  obtain ⟨factor, hfit, hpos, hfactor⟩ := exists_factor hplaces
  rw [roundTo_eq, roundTo_eq, hfactor]
  exact roundBy_le hfit hpos h

theorem roundTo_ne_negative_zero (value : Double) (places : UInt32) (h : Representable 0) :
    roundTo value places ≠ .finite true 0 h := roundBy_ne_negative_zero _ value h

/-! ## What a text shows -/

/-- A text begins with a sign or not, if what follows does not begin with one. -/
theorem signed_inj {s t : Bool} {shown shown' : List Char} (h : shown.head? ≠ some '-')
    (h' : shown'.head? ≠ some '-') (heq : signed s shown = signed t shown') :
    s = t ∧ shown = shown' := by
  have hlist := String.ofList_injective heq
  cases s with
  | false =>
    cases t with
    | false => exact ⟨rfl, hlist⟩
    | true =>
      rw [if_neg Bool.false_ne_true, if_pos rfl] at hlist
      rw [hlist] at h
      exact absurd rfl h
  | true =>
    cases t with
    | false =>
      rw [if_neg Bool.false_ne_true, if_pos rfl] at hlist
      rw [← hlist] at h'
      exact absurd rfl h'
    | true => exact ⟨rfl, List.tail_eq_of_cons_eq hlist⟩

/-- The text of a quantity shows a number of hundredths, nothing without a sign, or an infinity. -/
inductive Shows : String → EInt → Prop where
  | number (negative : Bool) {shown : List Char} {n : ℕ} (hsign : negative = true → n ≠ 0)
      (h : SpellsPlain 2 shown n) : Shows (signed negative shown) (placeOf negative n : ℤ)
  | infinite (negative : Bool) :
      Shows (signed negative ['i', 'n', 'f']) (if negative then ⊥ else ⊤)

theorem head?_ne_sign {shown : List Char} {n : ℕ} (h : SpellsPlain 2 shown n) :
    shown.head? ≠ some '-' := by
  obtain ⟨d, rest, rfl, hd⟩ := h.exists_digit
  intro hsign
  rw [List.head?_cons, Option.some_inj] at hsign
  exact absurd hd (by rw [hsign]; decide)

theorem not_spellsPlain_inf (n : ℕ) : ¬SpellsPlain 2 ['i', 'n', 'f'] n := by
  intro h
  obtain ⟨d, rest, hcons, hd⟩ := h.exists_digit
  rw [List.cons.injEq] at hcons
  exact absurd hd (by rw [← hcons.1]; decide)

namespace Shows

variable {text : String} {a b : EInt}

theorem unique (ha : Shows text a) (hb : Shows text b) : a = b := by
  have hinf : ['i', 'n', 'f'].head? ≠ some '-' := by decide
  cases ha with
  | @number s shown n hsign h =>
    generalize htext : signed s shown = text at hb
    cases hb with
    | number t hsign' h' =>
      obtain ⟨rfl, rfl⟩ := signed_inj (head?_ne_sign h) (head?_ne_sign h') htext
      rw [h.unique h']
    | infinite t =>
      obtain ⟨-, rfl⟩ := signed_inj (head?_ne_sign h) hinf htext
      exact absurd h (not_spellsPlain_inf n)
  | infinite s =>
    generalize htext : signed s ['i', 'n', 'f'] = text at hb
    cases hb with
    | number t hsign' h' =>
      obtain ⟨-, rfl⟩ := signed_inj hinf (head?_ne_sign h') htext
      exact absurd h' (not_spellsPlain_inf _)
    | infinite t =>
      obtain ⟨rfl, -⟩ := signed_inj hinf hinf htext
      rfl

theorem ne_negative_zero (h : Shows text a) : text ≠ "-0" := by
  have hword : "-0" = signed true ['0'] := by decide
  have hzero : ['0'].head? ≠ some '-' := by decide
  rw [hword]
  cases h with
  | number s hsign h =>
    intro htext
    obtain ⟨rfl, rfl⟩ := signed_inj (head?_ne_sign h) hzero htext
    exact hsign rfl (h.unique (.zero 2))
  | infinite s =>
    intro htext
    obtain ⟨-, hlist⟩ := signed_inj (by decide) hzero htext
    exact absurd hlist (by decide)

end Shows

/-! ## The order of what is shown -/

/-- A number of hundredths with the place of the double nearest to it, or an infinity with its
place. -/
inductive Near : EInt → ℤ → Prop where
  | number (negative : Bool) {n : ℕ} (h : hundredthsQuanta n < quantaLimit) :
      Near (placeOf negative n : ℤ) (placeOf negative (hundredthsQuanta n))
  | infinite (negative : Bool) : Near (if negative then ⊥ else ⊤) (placeOf negative quantaLimit)

theorem hundredthsQuanta_mono : Monotone hundredthsQuanta := fun _ _ h =>
  nearestQuanta_mono_left (by decide) (Nat.mul_le_mul_right quantaPerOne h)

theorem Near.bounds {a : EInt} {p : ℤ} (h : Near a p) :
    -(quantaLimit : ℤ) ≤ p ∧ p ≤ quantaLimit := by
  cases h with
  | number negative h | infinite negative =>
    cases negative <;> simp only [placeOf, if_true, if_false, Bool.false_eq_true] <;> omega

/-- What is near to a smaller place is smaller. -/
theorem Near.le_of_lt {a b : EInt} {p r : ℤ} (ha : Near a p) (hb : Near b r)
    (h : p < r) : a ≤ b := by
  have hp := ha.bounds
  have hr := hb.bounds
  cases ha with
  | number s hs =>
    cases hb with
    | number t ht =>
      rw [WithBotTop.coe_le_coe]
      by_contra hnot
      have hback := placeOf_le hundredthsQuanta_mono (hundredthsQuanta_eq_zero_iff.2 rfl)
        (not_le.1 hnot).le
      exact absurd h (not_lt.2 hback)
    | infinite t =>
      cases t with
      | false => exact le_top
      | true => exact absurd h (not_lt.2 hp.1)
  | infinite s =>
    cases s with
    | false => exact absurd h (not_lt.2 hr.2)
    | true => exact bot_le

/-- A quantity that is a number is shown as what its rounding is near to. -/
theorem exists_shows {v : Double} {p : ℤ} (hv : v.position? = some p) :
    ∃ a r, Shows (toText v) a ∧ (roundTo v 2).position? = some r ∧ Near a r := by
  have hinfinite {negative : Bool} (h : roundTo v 2 = .infinite negative) :
      ∃ a r, Shows (toText v) a ∧ (roundTo v 2).position? = some r ∧ Near a r := by
    refine ⟨_, _, ?_, by rw [h, (Sized.infinite negative).position?], .infinite negative⟩
    rw [toText_of_roundTo_infinite h]
    exact .infinite negative
  cases v with
  | finite negative quanta hq =>
    by_cases hfit : quanta * 100 < overflowQuanta
    · obtain ⟨hround, hrounded⟩ := roundTo_finite negative hq hfit
      obtain ⟨shown, n, htext, hspells, hreads⟩ := toText_finite negative hq hfit
      have hzero : hundredths quanta = 0 ↔ n = 0 := by
        rw [← hundredthsQuanta_eq_zero_iff, ← hreads, hundredthsQuanta_eq_zero_iff]
      have hsign : (negative && decide (n ≠ 0)) = true → n ≠ 0 := by
        rw [Bool.and_eq_true, decide_eq_true_iff]
        exact And.right
      refine ⟨_, _, ?_, ?_, .number (negative && decide (n ≠ 0)) (n := n) ?_⟩
      · rw [htext]
        exact .number _ hsign hspells
      · rw [hrounded, (Sized.finite _ hround).position?]
        simp only [ne_eq, hzero, hreads]
      · rw [hreads]
        exact hround.1
    · exact hinfinite (roundTo_overflow negative hq (Nat.le_of_not_lt hfit))
  | infinite negative => exact hinfinite (roundTo_infinite negative)
  | nan => cases hv

/-- Of two quantities the larger one is shown as no less. -/
theorem shows_le {v w : Double} (h : v.le w = true) :
    ∃ a b, Shows (toText v) a ∧ Shows (toText w) b ∧ a ≤ b := by
  obtain ⟨p, r, hp, hr, -⟩ := exists_position?_of_le h
  obtain ⟨a, p', hshowsA, hplaceA, hnearA⟩ := exists_shows hp
  obtain ⟨b, r', hshowsB, hplaceB, hnearB⟩ := exists_shows hr
  have hle : p' ≤ r' := (le_iff hplaceA hplaceB).1 (roundTo_le (by decide) h)
  rcases hle.eq_or_lt with rfl | hlt
  · -- what is rounded to the same double has the same text
    have hsame : roundTo v 2 = roundTo w 2 :=
      eq_of_position? hplaceA hplaceB (roundTo_ne_negative_zero v 2) (roundTo_ne_negative_zero w 2)
    refine ⟨a, a, hshowsA, ?_, le_rfl⟩
    rw [toText, ← hsame]
    exact hshowsA
  · exact ⟨a, b, hshowsA, hshowsB, hnearA.le_of_lt hnearB hlt⟩

theorem toText_ne_negative_zero (v : Double) : toText v ≠ "-0" := by
  cases hv : v.position? with
  | some p =>
    obtain ⟨a, -, hshows, -⟩ := exists_shows hv
    exact hshows.ne_negative_zero
  | none =>
    cases v with
    | nan =>
      rw [toText, roundTo_nan]
      decide
    | finite negative quanta hq => cases hv
    | infinite negative => cases hv

/-- **Rounding for display keeps the order.** Up to 308 places the larger one of two doubles is not
rounded to a smaller one, and the larger one of two quantities is not shown as less. A result of zero
has no sign, however many places are asked for, and no quantity is shown as a zero with a sign. -/
theorem rounding_keeps_order {places : UInt32} (hplaces : places ≤ 308) {v w : Double}
    (h : v.le w = true) :
    (roundTo v places).le (roundTo w places) = true ∧
      (∃ a b, (∀ c, Shows (toText v) c ↔ c = a) ∧ (∀ c, Shows (toText w) c ↔ c = b) ∧ a ≤ b) ∧
      ∀ (value : Double) (count : UInt32),
        (∀ hzero, roundTo value count ≠ .finite true 0 hzero) ∧ toText value ≠ "-0" := by
  refine ⟨roundTo_le hplaces h, ?_, ?_⟩
  · obtain ⟨a, b, ha, hb, hle⟩ := shows_le h
    refine ⟨a, b, fun c => ⟨fun hc => hc.unique ha, ?_⟩, fun c => ⟨fun hc => hc.unique hb, ?_⟩, hle⟩
    · rintro rfl
      exact ha
    · rintro rfl
      exact hb
  · intro value count
    exact ⟨roundTo_ne_negative_zero value count, toText_ne_negative_zero value⟩

/-- With 308 places the smaller number comes back and the larger one is too large to be scaled. -/
theorem rounding_keeps_order_overflowing :
    let v := toDouble false ⟨15, -1⟩
    let w := toDouble false ⟨25, -1⟩
    (308 : UInt32) ≤ 308 ∧ v.le w = true ∧ roundTo v 308 = v ∧ roundTo w 308 = .infinite false ∧
      (roundTo v 308).le (roundTo w 308) = true ∧
      ∃ a b, Shows (toText v) a ∧ Shows (toText w) b ∧ a ≤ b := by
  intro v w
  have hvalues : v.le w = true ∧ roundTo v 308 = v ∧ roundTo w 308 = .infinite false := by
    decide +kernel
  have hplaces : (308 : UInt32) ≤ 308 := by decide
  obtain ⟨horder, ⟨a, b, ha, hb, hle⟩, -⟩ := rounding_keeps_order hplaces hvalues.1
  exact ⟨hplaces, hvalues.1, hvalues.2.1, hvalues.2.2, horder, a, b, (ha a).2 rfl, (hb b).2 rfl, hle⟩

end DriveClient.Quantity
