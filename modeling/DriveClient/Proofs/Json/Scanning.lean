import DriveClient.Proofs.Json.Grammar

/-!
# Reading strings and numbers

What the grammar spells, the readers of strings and of numbers take in: a spelled string up to its
closing quote (`readString_spelled`), and a spelled number up to what can follow a value
(`readAny_spelled`, `read_spelled`).
-/

namespace DriveClient.Json

/-! ## Steps -/

section Steps

variable {α β : Type}

/-- A reader goes on from what has been read. -/
@[simp] theorem ok_bind (a : α) (next : α → Except Stop β) : (Except.ok a >>= next) = next a := rfl

@[simp] theorem pure_eq_ok (a : α) : (pure a : Except Stop α) = .ok a := rfl

/-- What two steps give, they give one after the other. -/
theorem bind_eq_ok {x : Except Stop α} {next : α → Except Stop β} {b : β} :
    (x >>= next) = .ok b ↔ ∃ a, x = .ok a ∧ next a = .ok b := by
  cases x with
  | error stop => simp [bind, Except.bind]
  | ok a => simp

end Steps

/-! ## Strings -/

theorem length_le_bytes (text : List Char) : text.length ≤ bytes text := by
  induction text with
  | nil => exact Nat.le_refl 0
  | cons c rest ih =>
    have hc : 0 < c.utf8Size := Char.utf8Size_pos c
    have hb : bytes (c :: rest) = c.utf8Size + bytes rest := rfl
    rw [List.length_cons, hb]
    omega

theorem readHex_digits {digits : List Char} {n : Nat} (h : FourDigits digits n)
    (rest : List Char) : readHex (digits ++ rest) = .ok n := by
  have hb : ¬bytes (digits ++ rest) < 4 := by
    have hlen := length_le_bytes (digits ++ rest)
    rw [List.length_append, h.length_eq] at hlen
    omega
  rw [readHex, if_neg hb, List.take_left' h.length_eq, h.read_eq]

/-- The number of a character is not that of a surrogate. -/
theorem not_surrogate (c : Char) :
    isLowSurrogate c.toNat = false ∧ isHighSurrogate c.toNat = false := by
  have hc : c.toNat < 0xD800 ∨ 0xDFFF < c.toNat ∧ c.toNat < 0x110000 := c.valid
  simp only [isLowSurrogate, isHighSurrogate, Bool.and_eq_false_iff, decide_eq_false_iff_not]
  omega

theorem readEscape_numbered {c : Char} {digits : List Char} (h : FourDigits digits c.toNat)
    (rest : List Char) : readEscape .full ('u' :: digits ++ rest) = .ok (c, 5) := by
  have hshort : shortEscape? 'u' = none := rfl
  obtain ⟨hlow, hhigh⟩ := not_surrogate c
  simp [readEscape, hshort, readNumbered, readHex_digits h, hlow, hhigh]

theorem readEscape_pair {c : Char} {high low : List Char} {m n : Nat}
    (hm : FourDigits high (0xD800 + m)) (hn : FourDigits low (0xDC00 + n)) (hml : m < 1024)
    (hnl : n < 1024) (hc : c.toNat = 0x10000 + 1024 * m + n) (rest : List Char) :
    readEscape .full ('u' :: high ++ '\\' :: 'u' :: low ++ rest) = .ok (c, 11) := by
  have hshort : shortEscape? 'u' = none := rfl
  -- the two numbers lie in their halves of the surrogates, so the second escape is read
  have hlow : isLowSurrogate (0xD800 + m) = false := by
    simp only [isLowSurrogate, Bool.and_eq_false_iff, decide_eq_false_iff_not]
    omega
  have hhigh : isHighSurrogate (0xD800 + m) = true := by
    simp only [isHighSurrogate, Bool.and_eq_true, decide_eq_true_eq]
    omega
  have hlow' : isLowSurrogate (0xDC00 + n) = true := by
    simp only [isLowSurrogate, Bool.and_eq_true, decide_eq_true_eq]
    omega
  have hchar : pairChar (0xD800 + m) (0xDC00 + n) = c := by
    rw [pairChar, Nat.add_sub_cancel_left, Nat.add_sub_cancel_left, ← hc, Char.ofNat_toNat]
  have htext : 'u' :: high ++ '\\' :: 'u' :: low ++ rest =
      'u' :: (high ++ '\\' :: 'u' :: (low ++ rest)) := by simp
  rw [htext]
  simp [readEscape, hshort, readNumbered, readHex_digits hm, readHex_digits hn, hlow, hhigh, hlow',
    hchar, expectInPair, List.drop_left' hm.length_eq]

/-- A spelled character is read as that character. -/
theorem readChars_spelled {c : Char} {code : List Char} (h : SpellsChar c code)
    (rest : List Char) :
    readChars .full 0 (code ++ rest) =
      (readChars .full 0 rest).map fun r => (c :: r.1, r.2) := by
  cases h with
  | plain hq hb hc => exact readChars_plain .full hq hb hc rest
  | @short letter _ h => exact readChars_escape .full [letter] (readEscape_short .full h rest)
  | @numbered _ digits h =>
    refine readChars_escape .full ('u' :: digits) ?_
    rw [readEscape_numbered h, List.length_cons, h.length_eq]
  | @pair _ high low _ _ hm hn hml hnl hc =>
    refine readChars_escape .full ('u' :: high ++ '\\' :: 'u' :: low) ?_
    rw [readEscape_pair hm hn hml hnl hc]
    simp [hm.length_eq, hn.length_eq]

theorem readChars_allSpelled {cs codes : List Char} (h : SpellsChars cs codes)
    (rest : List Char) : readChars .full 0 (codes ++ '"' :: rest) = .ok (cs, rest) := by
  induction h with
  | nil => simp [readChars]
  | cons h hs ih =>
    rw [List.append_assoc, readChars_spelled h, ih]
    rfl

/-- A spelled string is read after its opening quote. -/
theorem readString_spelled {s : String} {codes : List Char} (h : SpellsChars s.toList codes)
    (rest : List Char) : readString .full (codes ++ '"' :: rest) = .ok (s, rest) := by
  simp [readString, readChars_allSpelled h]

/-! ## Numbers -/

/-- Whether a value may end before a text: there is nothing more, a blank, a comma or a closing
bracket. -/
def Ends (rest : List Char) : Prop :=
  ∀ c, rest.head? = some c → isBlank c ∨ c = ',' ∨ c = ']' ∨ c = '\x7d'

/-- None of the characters that carry on a number can stand after a value. -/
theorem Ends.head_ne {rest : List Char} (h : Ends rest) {c : Char} (hc : rest.head? = some c) :
    c.isDigit = false ∧ c ≠ '.' ∧ c ≠ 'e' ∧ c ≠ 'E' := by
  have hcases : c = ' ' ∨ c = '\t' ∨ c = '\n' ∨ c = '\r' ∨ c = ',' ∨ c = ']' ∨ c = '\x7d' := by
    have hend := h c hc
    simpa only [isBlank, Bool.or_eq_true, decide_eq_true_eq, or_assoc] using hend
  rcases hcases with rfl | rfl | rfl | rfl | rfl | rfl | rfl <;> decide

/-- No digit stands at the start of a text. -/
def NoDigit (text : List Char) : Prop := ∀ c, text.head? = some c → c.isDigit = false

theorem Ends.noDigit {rest : List Char} (h : Ends rest) : NoDigit rest :=
  fun _ hc => (h.head_ne hc).1

theorem IsDigits.exists_cons {digits : List Char} (h : IsDigits digits) :
    ∃ d more, digits = d :: more ∧ d.isDigit := by
  obtain ⟨hne, hall⟩ := h
  obtain ⟨d, more, rfl⟩ := List.exists_cons_of_ne_nil hne
  exact ⟨d, more, rfl, hall d List.mem_cons_self⟩

/-- A run of digits is taken whole. -/
theorem takeWhile_digits {digits rest : List Char} (h : ∀ c ∈ digits, c.isDigit)
    (hr : NoDigit rest) :
    (digits ++ rest).takeWhile Char.isDigit = digits ∧
      (digits ++ rest).dropWhile Char.isDigit = rest := by
  rw [List.takeWhile_append_of_pos h, List.dropWhile_append_of_pos h]
  cases rest with
  | nil => simp
  | cons c more =>
    have hc : c.isDigit = false := hr c rfl
    simp [hc]

/-- A spelled number begins with its sign or with a digit. -/
theorem SpellsNumber.exists_cons {n : Literal} {text : List Char} (h : SpellsNumber n text) :
    ∃ c more, text = c :: more ∧ (c = '-' ∨ c.isDigit) := by
  obtain @⟨fraction, exponent, hw, -, -⟩ := h
  obtain ⟨d, more, hdm, hd⟩ := hw.1.exists_cons
  cases hn : n.negative with
  | true => exact ⟨'-', _, rfl, .inl rfl⟩
  | false => exact ⟨d, more ++ fraction ++ exponent, by simp [signText, hdm], .inr hd⟩

namespace Literal

theorem readDigits_spelled (care : Care) {digits rest : List Char} (h : IsDigits digits)
    (hr : NoDigit rest) : readDigits care (digits ++ rest) = .ok (digits, rest) := by
  obtain ⟨d, more, rfl, hd⟩ := h.exists_cons
  obtain ⟨htake, hdrop⟩ := takeWhile_digits h.2 hr
  rw [List.cons_append] at htake hdrop ⊢
  rw [readDigits, if_pos hd, htake, hdrop]

theorem readWhole_spelled (care : Care) {digits rest : List Char} (h : IsWhole digits)
    (hr : NoDigit rest) : readWhole care (digits ++ rest) = .ok (digits, rest) := by
  obtain ⟨hdigits, hzero⟩ := h
  obtain ⟨d, more, rfl, -⟩ := hdigits.exists_cons
  by_cases hd : d = '0'
  · -- a zero at the start is the only digit
    subst hd
    obtain rfl : more = [] := List.tail_eq_of_cons_eq (hzero rfl)
    cases rest with
    | nil => rfl
    | cons c rest =>
      have hc : c.isDigit = false := hr c rfl
      simp [readWhole, hc]
  · have hread : readWhole care (d :: (more ++ rest)) = readDigits care (d :: (more ++ rest)) := by
      rw [readWhole]
      intro rest' heq
      exact absurd (List.head_eq_of_cons_eq heq) hd
    rw [List.cons_append, hread]
    exact readDigits_spelled care hdigits hr

theorem readFraction_spelled (care : Care) {digits text rest : List Char}
    (h : SpellsFraction digits text) (hr : ∀ c, rest.head? = some c → c.isDigit = false ∧ c ≠ '.') :
    readFraction care (text ++ rest) = .ok (digits, rest) := by
  cases h with
  | absent =>
    rw [List.nil_append, readFraction]
    intro rest' heq
    subst heq
    exact (hr '.' rfl).2 rfl
  | present h => exact readDigits_spelled care h fun c hc => (hr c hc).1

theorem takeSign_digits {digits : List Char} (h : IsDigits digits) (rest : List Char) :
    Decimal.takeSign (digits ++ rest) = (false, digits ++ rest) := by
  obtain ⟨d, more, rfl, hd⟩ := h.exists_cons
  rw [List.cons_append, Decimal.takeSign]
  · intro rest' heq
    rw [List.head_eq_of_cons_eq heq] at hd
    exact absurd hd (by decide)
  · intro rest' heq
    rw [List.head_eq_of_cons_eq heq] at hd
    exact absurd hd (by decide)

theorem readExponent_spelled (care : Care) {exponent : Option (Bool × List Char)}
    {text rest : List Char} (h : SpellsExponent exponent text) (hr : Ends rest) :
    readExponent care (text ++ rest) = .ok (exponent, rest) := by
  cases h with
  | absent =>
    cases rest with
    | nil => rfl
    | cons c rest =>
      obtain ⟨-, -, he, hE⟩ := hr.head_ne rfl
      rw [List.nil_append, readExponent, if_neg (not_or.2 ⟨he, hE⟩)]
  | unsigned he h =>
    rw [List.cons_append, readExponent, if_pos he, takeSign_digits h]
    simp [readDigits_spelled care h hr.noDigit]
  | plus he h =>
    simp [readExponent, he, Decimal.takeSign, readDigits_spelled care h hr.noDigit]
  | minus he h =>
    simp [readExponent, he, Decimal.takeSign, readDigits_spelled care h hr.noDigit]

/-- What stands before a part of a number that may be absent is followed by its first character, or
by what follows the number. -/
theorem head_exponent {exponent : Option (Bool × List Char)} {text rest : List Char}
    (h : SpellsExponent exponent text) (hr : Ends rest) (c : Char)
    (hc : (text ++ rest).head? = some c) : c.isDigit = false ∧ c ≠ '.' := by
  have hletter : ∀ e : Char, e = 'e' ∨ e = 'E' → e.isDigit = false ∧ e ≠ '.' := by
    rintro e (rfl | rfl) <;> decide
  cases h with
  | absent => exact ⟨(hr.head_ne hc).1, (hr.head_ne hc).2.1⟩
  | unsigned he _ => exact Option.some.inj hc ▸ hletter _ he
  | plus he _ => exact Option.some.inj hc ▸ hletter _ he
  | minus he _ => exact Option.some.inj hc ▸ hletter _ he

theorem noDigit_fraction {digits text rest : List Char} (h : SpellsFraction digits text)
    (hr : NoDigit rest) : NoDigit (text ++ rest) := by
  intro c hc
  cases h with
  | absent => exact hr c hc
  | present _ =>
    rw [← Option.some.inj hc]
    decide

/-- A number is read part by part after its sign. -/
theorem readAny_of_parts (care : Care) (negative : Bool) {text text₁ text₂ rest : List Char}
    {whole fraction : List Char} {exponent : Option (Bool × List Char)}
    (hsign : text.head? ≠ some '-') (hw : readWhole care text = .ok (whole, text₁))
    (hf : readFraction care text₁ = .ok (fraction, text₂))
    (he : readExponent care text₂ = .ok (exponent, rest)) :
    readAny care (signText negative ++ text) =
      .ok (⟨negative, whole, fraction, exponent⟩, rest) := by
  cases negative with
  | true => simp [signText, readAny, hw, hf, he]
  | false =>
    cases text with
    | nil => simp [signText, readAny, hw, hf, he]
    | cons c more =>
      have hc : c ≠ '-' := by simpa using hsign
      simp [signText, readAny, hc, hw, hf, he]

/-- A spelled number is read up to its end. -/
theorem readAny_spelled (care : Care) {n : Literal} {text rest : List Char}
    (h : SpellsNumber n text) (hr : Ends rest) : readAny care (text ++ rest) = .ok (n, rest) := by
  obtain @⟨fraction, exponent, hw, hf, he⟩ := h
  have hhead := head_exponent he hr
  have hwhole := readWhole_spelled care hw (noDigit_fraction hf fun c hc => (hhead c hc).1)
  have hfraction := readFraction_spelled care hf hhead
  have hexponent := readExponent_spelled care he hr
  -- a digit at the start is no sign
  have hsign : (n.whole ++ (fraction ++ (exponent ++ rest))).head? ≠ some '-' := by
    obtain ⟨d, more, hdm, hd⟩ := hw.1.exists_cons
    intro hminus
    rw [hdm, List.cons_append, List.head?_cons, Option.some.injEq] at hminus
    rw [hminus] at hd
    exact absurd hd (by decide)
  have hread := readAny_of_parts care n.negative hsign hwhole hfraction hexponent
  simpa only [List.append_assoc] using hread

/-- A spelled number is read when it is not too large. -/
theorem read_spelled {n : Literal} {text rest : List Char} (h : SpellsNumber n text)
    (hr : Ends rest) (hn : n.toDouble.isFinite) : read .full (text ++ rest) = .ok (n, rest) := by
  have hsmall : n.tooLarge? = none := by rw [tooLarge?, if_pos hn]
  simp [read, readAny_spelled .full h hr, hsmall]

end Literal

end DriveClient.Json
