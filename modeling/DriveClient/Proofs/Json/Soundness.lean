import DriveClient.Proofs.Json.Completeness

/-!
# The reader reads nothing else

What a reader takes in is spelled as the grammar says, and it is within the limits. Together with
the other direction: the documents are exactly the texts that are read to their end
(`document_iff`).
-/

namespace DriveClient.Json

/-! ## Strings -/

/-- A hexadecimal digit is a single byte, for a value below sixteen. -/
theorem hexValue_bounds {c : Char} {v : Nat} (h : Hex.value? c = some v) :
    c.utf8Size = 1 ∧ v < 16 := by
  have hone (hc : c.toNat ≤ 127) : c.utf8Size = 1 :=
    Char.utf8Size_eq_one_iff.2 (UInt32.le_iff_toNat_le.2 hc)
  have hle (d : Char) (hd : c ≤ d) : c.toNat ≤ d.toNat := UInt32.le_iff_toNat_le.1 hd
  have hge (d : Char) (hd : d ≤ c) : d.toNat ≤ c.toNat := UInt32.le_iff_toNat_le.1 hd
  unfold Hex.value? at h
  split at h
  · next hc =>
    have hlast : c.toNat ≤ 57 := hle '9' hc.2
    have hv := Option.some.inj h
    exact ⟨hone (by omega), by omega⟩
  · split at h
    · next hc =>
      have hlast : c.toNat ≤ 70 := hle 'F' hc.2
      have hv := Option.some.inj h
      exact ⟨hone (by omega), by omega⟩
    · split at h
      · next hc =>
        have hlast : c.toNat ≤ 102 := hle 'f' hc.2
        have hv := Option.some.inj h
        exact ⟨hone (by omega), by omega⟩
      · exact absurd h (by simp)

/-- Digits that are read as a number are as many bytes, and each leaves room for sixteen values. -/
theorem hexRead_bounds {cs : List Char} {high n : Nat} (h : Hex.read? high cs = some n) :
    bytes cs = cs.length ∧ n < Nat.pow 16 cs.length * (high + 1) := by
  induction cs generalizing high with
  | nil =>
    obtain rfl : high = n := Option.some.inj h
    exact ⟨rfl, by simp⟩
  | cons c rest ih =>
    obtain ⟨v, hv, hread⟩ := Option.bind_eq_some_iff.1 h
    obtain ⟨hsize, hlt⟩ := hexValue_bounds hv
    obtain ⟨hbytes, hn⟩ := ih hread
    have hcons : bytes (c :: rest) = c.utf8Size + bytes rest := rfl
    refine ⟨by rw [hcons, List.length_cons]; omega, Nat.lt_of_lt_of_le hn ?_⟩
    calc Nat.pow 16 rest.length * (16 * high + v + 1)
        ≤ Nat.pow 16 rest.length * (16 * (high + 1)) := Nat.mul_le_mul_left _ (by omega)
      _ = Nat.pow 16 (c :: rest).length * (high + 1) := (Nat.mul_assoc _ _ _).symm

/-- Four bytes that are read as a number are four digits of it. -/
theorem readHex_sound {text : List Char} {n : Nat} (h : readHex text = .ok n) :
    FourDigits (text.take 4) n ∧ n < 0x10000 := by
  rw [readHex] at h
  split at h
  · exact absurd h (by simp)
  · next hbytes =>
    split at h
    · next m hread =>
      obtain rfl : m = n := Except.ok.inj h
      obtain ⟨hsize, hlt⟩ := hexRead_bounds hread
      -- fewer than four characters would be fewer than four bytes
      have hlen : (text.take 4).length = 4 := by
        rw [List.length_take]
        by_cases hshort : text.length < 4
        · rw [List.take_of_length_le (by omega)] at hsize
          omega
        · omega
      have hpow : Nat.pow 16 4 = 0x10000 := rfl
      rw [hlen, hpow] at hlt
      exact ⟨⟨hlen, hread⟩, by omega⟩
    · exact absurd h (by simp)

theorem toNat_ofNat {n : Nat} (h : n.isValidChar) : (Char.ofNat n).toNat = n := by
  rw [Char.ofNat, dif_pos h]
  rfl

theorem expectInPair_sound {c : Char} {text rest : List Char} (h : expectInPair c text = .ok rest) :
    text = c :: rest := by
  cases text with
  | nil => exact absurd h (by simp [expectInPair])
  | cons d more =>
    rw [expectInPair] at h
    split at h
    · next hd => rw [hd, Except.ok.inj h]
    · exact absurd h (by simp)

/-- A number that is no surrogate is that of a character. -/
theorem spellsChar_ofNat {digits : List Char} {n : Nat} (h : FourDigits digits n) (hlt : n < 0x10000)
    (hlow : ¬isLowSurrogate n = true) (hhigh : ¬isHighSurrogate n = true) :
    SpellsChar (Char.ofNat n) ('\\' :: 'u' :: digits) := by
  simp only [isHighSurrogate, isLowSurrogate, Bool.and_eq_true, decide_eq_true_eq] at hlow hhigh
  have hchar : (Char.ofNat n).toNat = n := by
    apply toNat_ofNat
    have hbelow : n < 0xD800 ∨ 0xDFFF < n := by omega
    exact hbelow.imp_right fun hn => ⟨hn, by omega⟩
  exact .numbered (hchar.symm ▸ h)

/-- Two surrogates, the high one first, are those of one character. -/
theorem spellsChar_pairChar {high low : List Char} {m n : Nat} (hm : FourDigits high m)
    (hn : FourDigits low n) (hhigh : isHighSurrogate m = true) (hlow : isLowSurrogate n = true) :
    SpellsChar (pairChar m n) ('\\' :: 'u' :: high ++ '\\' :: 'u' :: low) := by
  simp only [isHighSurrogate, isLowSurrogate, Bool.and_eq_true, decide_eq_true_eq] at hhigh hlow
  obtain ⟨m, rfl⟩ := Nat.exists_eq_add_of_le hhigh.1
  obtain ⟨n, rfl⟩ := Nat.exists_eq_add_of_le hlow.1
  have hchar : (pairChar (0xD800 + m) (0xDC00 + n)).toNat = 0x10000 + 1024 * m + n := by
    rw [pairChar, Nat.add_sub_cancel_left, Nat.add_sub_cancel_left]
    exact toNat_ofNat (.inr (by omega))
  exact .pair hm hn (by omega) (by omega) hchar

/-- What an escape by number takes is the number of the character, or of its two surrogates. -/
theorem readNumbered_sound {text : List Char} {c : Char} {taken : Nat}
    (h : readNumbered .full text = .ok (c, taken)) :
    ∃ code rest, text = code ++ rest ∧ code.length = taken ∧
      SpellsChar c ('\\' :: 'u' :: code) := by
  obtain ⟨n, hread, h⟩ := bind_eq_ok.1 h
  obtain ⟨hdigits, hlt⟩ := readHex_sound hread
  simp only [pure_eq_ok] at h
  split at h
  · exact absurd h (by simp)
  · next hlow =>
    split at h
    · next hhigh =>
      obtain ⟨left, hleft, h⟩ := bind_eq_ok.1 h
      obtain ⟨right, hright, h⟩ := bind_eq_ok.1 h
      obtain ⟨low, hreadLow, h⟩ := bind_eq_ok.1 h
      obtain ⟨hdigitsLow, -⟩ := readHex_sound hreadLow
      split at h
      · next hislow =>
        obtain ⟨rfl, rfl⟩ := Prod.mk.inj (Except.ok.inj h)
        refine ⟨text.take 4 ++ '\\' :: 'u' :: right.take 4, right.drop 4, ?_, ?_, ?_⟩
        · have htext := List.take_append_drop 4 text
          rw [expectInPair_sound hleft, expectInPair_sound hright] at htext
          rw [List.append_assoc, List.cons_append, List.cons_append, List.take_append_drop, htext]
        · simp [hdigits.length_eq, hdigitsLow.length_eq]
        · exact spellsChar_pairChar hdigits hdigitsLow hhigh hislow
      · exact absurd h (by simp)
    · next hhigh =>
      obtain ⟨rfl, rfl⟩ := Prod.mk.inj (Except.ok.inj h)
      exact ⟨text.take 4, text.drop 4, (List.take_append_drop 4 text).symm, hdigits.length_eq,
        spellsChar_ofNat hdigits hlt hlow hhigh⟩

theorem readEscape_sound {text : List Char} {c : Char} {taken : Nat}
    (h : readEscape .full text = .ok (c, taken)) :
    ∃ code rest, text = code ++ rest ∧ code.length = taken ∧ SpellsChar c ('\\' :: code) := by
  cases text with
  | nil => exact absurd h (by simp [readEscape])
  | cons letter more =>
    rw [readEscape] at h
    split at h
    · next d hshort =>
      obtain ⟨rfl, rfl⟩ := Prod.mk.inj (Except.ok.inj h)
      exact ⟨[letter], more, rfl, rfl, .short hshort⟩
    · split at h
      · next hu =>
        obtain ⟨⟨d, count⟩, hnumbered, h⟩ := bind_eq_ok.1 h
        obtain ⟨rfl, rfl⟩ := Prod.mk.inj (Except.ok.inj h)
        obtain ⟨code, rest, rfl, rfl, hspells⟩ := readNumbered_sound hnumbered
        exact ⟨letter :: code, rest, rfl, rfl, hu ▸ hspells⟩
      · exact absurd h (by simp)

/-- The characters that are read are spelled by the text before the closing quote. The induction is
on the length of the text, since an escape takes several characters at once. -/
theorem readChars_sound {text cs rest : List Char} (h : readChars .full 0 text = .ok (cs, rest)) :
    ∃ codes, SpellsChars cs codes ∧ text = codes ++ '"' :: rest := by
  induction hlen : text.length using Nat.strongRecOn generalizing text cs with
  | ind n ih =>
    cases text with
    | nil => exact absurd h (by simp [readChars])
    | cons c more =>
      rw [List.length_cons] at hlen
      rw [readChars] at h
      split at h
      · next hquote =>
        obtain ⟨rfl, rfl⟩ := Prod.mk.inj (Except.ok.inj h)
        exact ⟨[], .nil, by rw [hquote]; rfl⟩
      · next hquote =>
        split at h
        · next hback =>
          obtain ⟨⟨d, taken⟩, hescape, h⟩ := bind_eq_ok.1 h
          obtain ⟨⟨ds, left⟩, hchars, h⟩ := bind_eq_ok.1 h
          obtain ⟨rfl, rfl⟩ := Prod.mk.inj (Except.ok.inj h)
          obtain ⟨code, behind, rfl, rfl, hspells⟩ := readEscape_sound hescape
          rw [readChars_skip] at hchars
          rw [List.length_append] at hlen
          obtain ⟨codes, hcodes, rfl⟩ := ih behind.length (by omega) hchars rfl
          exact ⟨'\\' :: code ++ codes, .cons hspells hcodes, by simp [hback]⟩
        · next hback =>
          split at h
          · exact absurd h (by simp)
          · next hcontrol =>
            obtain ⟨⟨ds, left⟩, hchars, h⟩ := bind_eq_ok.1 h
            obtain ⟨rfl, rfl⟩ := Prod.mk.inj (Except.ok.inj h)
            obtain ⟨codes, hcodes, rfl⟩ := ih more.length (by omega) hchars rfl
            exact ⟨[c] ++ codes, .cons (.plain hquote hback hcontrol) hcodes, rfl⟩

theorem readString_sound {text rest : List Char} {s : String}
    (h : readString .full text = .ok (s, rest)) :
    ∃ codes, SpellsChars s.toList codes ∧ text = codes ++ '"' :: rest := by
  obtain ⟨⟨cs, left⟩, hchars, h⟩ := bind_eq_ok.1 h
  obtain ⟨rfl, rfl⟩ := Prod.mk.inj (Except.ok.inj h)
  rw [String.toList_ofList]
  exact readChars_sound hchars

/-! ## Numbers -/

namespace Literal

theorem readDigits_sound {care : Care} {text digits rest : List Char}
    (h : readDigits care text = .ok (digits, rest)) : text = digits ++ rest ∧ IsDigits digits := by
  cases text with
  | nil => exact absurd h (by simp [readDigits])
  | cons c more =>
    rw [readDigits] at h
    split at h
    · next hc =>
      obtain ⟨rfl, rfl⟩ := Prod.mk.inj (Except.ok.inj h)
      have hall : ((c :: more).takeWhile Char.isDigit).all Char.isDigit := List.all_takeWhile
      refine ⟨List.takeWhile_append_dropWhile.symm, ?_, fun d hd => List.all_eq_true.1 hall d hd⟩
      rw [List.takeWhile_cons_of_pos hc]
      exact List.cons_ne_nil _ _
    · exact absurd h (by simp)

theorem readWhole_sound {care : Care} {text digits rest : List Char}
    (h : readWhole care text = .ok (digits, rest)) : text = digits ++ rest ∧ IsWhole digits := by
  have hzero : IsWhole ['0'] :=
    ⟨⟨List.cons_ne_nil _ _, fun c hc => List.mem_singleton.1 hc ▸ rfl⟩, fun _ => rfl⟩
  unfold readWhole at h
  split at h
  · split at h
    · split at h
      · exact absurd h (by simp)
      · obtain ⟨rfl, rfl⟩ := Prod.mk.inj (Except.ok.inj h)
        exact ⟨rfl, hzero⟩
    · obtain ⟨rfl, rfl⟩ := Prod.mk.inj (Except.ok.inj h)
      exact ⟨rfl, hzero⟩
  · next hne =>
    -- a zero at the start would have been read in the other case
    obtain ⟨rfl, hdigits⟩ := readDigits_sound h
    refine ⟨rfl, hdigits, fun hhead => ?_⟩
    obtain ⟨d, more, rfl, -⟩ := hdigits.exists_cons
    obtain rfl : d = '0' := Option.some.inj hhead
    exact absurd rfl (hne (more ++ rest))

theorem readFraction_sound {care : Care} {text digits rest : List Char}
    (h : readFraction care text = .ok (digits, rest)) :
    ∃ body, text = body ++ rest ∧ SpellsFraction digits body := by
  unfold readFraction at h
  split at h
  · obtain ⟨rfl, hdigits⟩ := readDigits_sound h
    exact ⟨'.' :: digits, rfl, .present hdigits⟩
  · obtain ⟨rfl, rfl⟩ := Prod.mk.inj (Except.ok.inj h)
    exact ⟨[], rfl, .absent⟩

theorem readExponent_sound {care : Care} {text rest : List Char}
    {exponent : Option (Bool × List Char)} (h : readExponent care text = .ok (exponent, rest)) :
    ∃ body, text = body ++ rest ∧ SpellsExponent exponent body := by
  cases text with
  | nil =>
    obtain ⟨rfl, rfl⟩ := Prod.mk.inj (Except.ok.inj h)
    exact ⟨[], rfl, .absent⟩
  | cons c more =>
    rw [readExponent] at h
    split at h
    · next hc =>
      cases hsign : Decimal.takeSign more with
      | mk negative left =>
        rw [hsign] at h
        obtain ⟨⟨digits, behind⟩, hread, h⟩ := bind_eq_ok.1 h
        obtain ⟨rfl, rfl⟩ := Prod.mk.inj (Except.ok.inj h)
        obtain ⟨rfl, hdigits⟩ := readDigits_sound hread
        unfold Decimal.takeSign at hsign
        split at hsign
        · obtain ⟨rfl, rfl⟩ := Prod.mk.inj hsign
          exact ⟨c :: '-' :: digits, rfl, .minus hc hdigits⟩
        · obtain ⟨rfl, rfl⟩ := Prod.mk.inj hsign
          exact ⟨c :: '+' :: digits, rfl, .plus hc hdigits⟩
        · obtain ⟨rfl, rfl⟩ := Prod.mk.inj hsign
          exact ⟨c :: digits, rfl, .unsigned hc hdigits⟩
    · obtain ⟨rfl, rfl⟩ := Prod.mk.inj (Except.ok.inj h)
      exact ⟨[], rfl, .absent⟩

theorem readAny_sound {care : Care} {text rest : List Char} {n : Literal}
    (h : readAny care text = .ok (n, rest)) :
    ∃ body, text = body ++ rest ∧ SpellsNumber n body := by
  unfold readAny at h
  split at h
  next negative left hsign =>
    have htext : text = signText negative ++ left := by
      split at hsign
      · obtain ⟨rfl, rfl⟩ := Prod.mk.inj hsign
        rfl
      · obtain ⟨rfl, rfl⟩ := Prod.mk.inj hsign
        rfl
    obtain ⟨⟨whole, left₁⟩, hwhole, h⟩ := bind_eq_ok.1 h
    obtain ⟨⟨fraction, left₂⟩, hfraction, h⟩ := bind_eq_ok.1 h
    obtain ⟨⟨exponent, left₃⟩, hexponent, h⟩ := bind_eq_ok.1 h
    obtain ⟨rfl, rfl⟩ := Prod.mk.inj (Except.ok.inj h)
    obtain ⟨rfl, hw⟩ := readWhole_sound hwhole
    obtain ⟨fractionText, rfl, hf⟩ := readFraction_sound hfraction
    obtain ⟨exponentText, rfl, he⟩ := readExponent_sound hexponent
    refine ⟨signText negative ++ whole ++ fractionText ++ exponentText, ?_, .intro hw hf he⟩
    simp [htext]

/-- A number that is read in full is not too large. -/
theorem read_sound {text rest : List Char} {n : Literal} (h : read .full text = .ok (n, rest)) :
    ∃ body, text = body ++ rest ∧ SpellsNumber n body ∧ n.toDouble.isFinite := by
  obtain ⟨⟨m, left⟩, hread, h⟩ := bind_eq_ok.1 h
  obtain ⟨body, htext, hspells⟩ := readAny_sound hread
  cases hlarge : m.tooLarge? with
  | some unread => simp [hlarge] at h
  | none =>
    simp only [hlarge, pure_eq_ok] at h
    obtain ⟨rfl, rfl⟩ := Prod.mk.inj (Except.ok.inj h)
    refine ⟨body, htext, hspells, ?_⟩
    -- whatever its exponent, a number past the largest double is too large at some place
    unfold tooLarge? at hlarge
    split at hlarge
    · next hfinite => exact hfinite
    · split at hlarge <;> exact absurd hlarge (by simp)

end Literal

/-! ## Between values -/

/-- A text is its blanks and what is left when they are skipped. -/
theorem skipBlanks_sound {text left : List Char} (h : skipBlanks text = left) :
    ∃ blanks, Blank blanks ∧ text = blanks ++ left :=
  h ▸ Text.exists_only_dropWhile isBlank text

theorem readWord_sound {letters text rest : List Char} (h : readWord letters text = .ok rest) :
    text = letters ++ rest := by
  induction letters generalizing text with
  | nil => exact Except.ok.inj h
  | cons letter letters ih =>
    cases text with
    | nil => exact absurd h (by simp [readWord])
    | cons c more =>
      rw [readWord] at h
      split at h
      · next hc => rw [hc, ih h, List.cons_append]
      · exact absurd h (by simp)

theorem readColon_sound {text rest : List Char} (h : readColon text = .ok rest) :
    ∃ blanks, Blank blanks ∧ text = blanks ++ ':' :: rest := by
  rw [readColon] at h
  split at h
  · exact absurd h (by simp)
  · next c more hskip =>
    split at h
    · next hc =>
      obtain rfl : more = rest := Except.ok.inj h
      obtain ⟨blanks, hb, htext⟩ := skipBlanks_sound hskip
      exact ⟨blanks, hb, hc ▸ htext⟩
    · exact absurd h (by simp)

/-- What stands before an item and its blanks: nothing before the first, a comma before any other. -/
def Lead : (first : Bool) → List Char → Prop
  | true, text => text = []
  | false, text => ∃ blanks, Blank blanks ∧ text = blanks ++ [',']

/-- What may come next before a closing bracket: the bracket, behind blanks, or an item with what
opens it, behind what stands before it. -/
inductive Comes (closing : Char) (opening : List Char) (first : Bool) : List Char → Next → Prop
  | close {blanks rest : List Char} (hb : Blank blanks) :
    Comes closing opening first (blanks ++ closing :: rest) (.close rest)
  | item {lead blanks item : List Char} (hlead : Lead first lead) (hb : Blank blanks) :
    Comes closing opening first (lead ++ blanks ++ (opening ++ item)) (.item item)

theorem Comes.item_first {closing : Char} {opening blanks item : List Char} (hb : Blank blanks) :
    Comes closing opening true (blanks ++ (opening ++ item)) (.item item) := by
  have hlead : Lead true [] := rfl
  exact .item hlead hb

theorem Comes.item_comma {closing : Char} {opening before blanks item : List Char}
    (hbefore : Blank before) (hb : Blank blanks) :
    Comes closing opening false (before ++ ',' :: (blanks ++ (opening ++ item))) (.item item) := by
  have hlead : Lead false (before ++ [',']) := ⟨before, hbefore, rfl⟩
  have hitem : Comes closing opening false _ (.item item) := .item hlead hb
  rwa [List.append_assoc, List.append_assoc, List.singleton_append] at hitem

theorem nextElement_sound {first : Bool} {text : List Char} {next : Next}
    (h : nextElement first text = .ok next) : Comes ']' [] first text next := by
  rw [nextElement] at h
  split at h
  · exact absurd h (by simp)
  · next c more hskip =>
    obtain ⟨blanks, hb, rfl⟩ := skipBlanks_sound hskip
    split at h
    · next hc =>
      obtain rfl := Except.ok.inj h
      exact hc ▸ .close hb
    · split at h
      · next hfirst =>
        obtain rfl := Except.ok.inj h
        exact hfirst ▸ .item_first hb
      · next hfirst =>
        obtain rfl : first = false := Bool.eq_false_iff.2 hfirst
        split at h
        · next hcomma =>
          split at h
          · exact absurd h (by simp)
          · next d behind hskip' =>
            obtain ⟨blanks', hb', rfl⟩ := skipBlanks_sound hskip'
            split at h
            · exact absurd h (by simp)
            · obtain rfl := Except.ok.inj h
              exact hcomma ▸ .item_comma hb hb'
        · exact absurd h (by simp)

theorem nextMember_sound {first : Bool} {text : List Char} {next : Next}
    (h : nextMember first text = .ok next) : Comes '\x7d' ['"'] first text next := by
  rw [nextMember] at h
  split at h
  · exact absurd h (by simp)
  · next c more hskip =>
    obtain ⟨blanks, hb, rfl⟩ := skipBlanks_sound hskip
    split at h
    · next hc =>
      obtain rfl := Except.ok.inj h
      exact hc ▸ .close hb
    · split at h
      · next hfirst =>
        split at h
        · next hquote =>
          obtain rfl := Except.ok.inj h
          exact hfirst ▸ hquote ▸ .item_first hb
        · exact absurd h (by simp)
      · next hfirst =>
        obtain rfl : first = false := Bool.eq_false_iff.2 hfirst
        split at h
        · next hcomma =>
          split at h
          · exact absurd h (by simp)
          · next d behind hskip' =>
            obtain ⟨blanks', hb', rfl⟩ := skipBlanks_sound hskip'
            split at h
            · next hquote =>
              obtain rfl := Except.ok.inj h
              exact hcomma ▸ hquote ▸ .item_comma hb hb'
            · split at h <;> exact absurd h (by simp)
        · exact absurd h (by simp)

/-! ## Values -/

/-- What a reader of values has taken in: blanks, and a text that spells the value. -/
def ValueRead (room : Nat) (text rest : List Char) (tree : Tree) : Prop :=
  ∃ before body, Blank before ∧ text = before ++ body ++ rest ∧ Spells (.value tree) body ∧
    Fits room tree

/-- What the reader of a list has taken in after its opening bracket, or after an element: nothing
but blanks, or elements, and the closing bracket. -/
def ElementsRead (room : Nat) (first : Bool) (text rest : List Char) (trees : List Tree) : Prop :=
  (∀ tree ∈ trees, Fits room tree) ∧
    ((trees = [] ∧ ∃ blanks, Blank blanks ∧ text = blanks ++ ']' :: rest) ∨
      ∃ lead body, Lead first lead ∧ text = lead ++ body ++ ']' :: rest ∧
        Spells (.elements trees) body)

/-- The same for an object. -/
def MembersRead (room : Nat) (first : Bool) (text rest : List Char)
    (members : List (String × Tree)) : Prop :=
  (∀ m ∈ members, Fits room m.2) ∧
    ((members = [] ∧ ∃ blanks, Blank blanks ∧ text = blanks ++ '\x7d' :: rest) ∨
      ∃ lead body, Lead first lead ∧ text = lead ++ body ++ '\x7d' :: rest ∧
        Spells (.members members) body)

/-- An element, and what follows it up to the closing bracket. -/
theorem ElementsRead.cons {room : Nat} {first : Bool} {lead blanks item after rest : List Char}
    {tree : Tree} {trees : List Tree} (hlead : Lead first lead) (hb : Blank blanks)
    (hv : ValueRead room item after tree) (hs : ElementsRead room false after rest trees) :
    ElementsRead room first (lead ++ blanks ++ item) rest (tree :: trees) := by
  obtain ⟨before, body, hbefore, rfl, hspells, hfits⟩ := hv
  obtain ⟨hfitsRest, hrest⟩ := hs
  refine ⟨List.forall_mem_cons.2 ⟨hfits, hfitsRest⟩, .inr ?_⟩
  rcases hrest with ⟨rfl, behind, hbehind, rfl⟩ | ⟨comma, more, ⟨behind, hbehind, rfl⟩, rfl, hmore⟩
  · have helement := Spells.element (hb.append hbefore) hspells hbehind
    refine ⟨lead, _, hlead, ?_, .lastElement helement⟩
    simp
  · have helement := Spells.element (hb.append hbefore) hspells hbehind
    refine ⟨lead, _, hlead, ?_, .moreElements helement hmore⟩
    simp

/-- A member, and what follows it up to the closing brace. -/
theorem MembersRead.cons {room : Nat} {first : Bool}
    {lead blanks codes colon value after rest : List Char} {name : String} {tree : Tree}
    {members : List (String × Tree)} (hlead : Lead first lead) (hb : Blank blanks)
    (hk : SpellsChars name.toList codes) (hc : Blank colon) (hv : ValueRead room value after tree)
    (hs : MembersRead room false after rest members) :
    MembersRead room first (lead ++ blanks ++ '"' :: (codes ++ '"' :: (colon ++ ':' :: value))) rest
      ((name, tree) :: members) := by
  obtain ⟨before, body, hbefore, rfl, hspells, hfits⟩ := hv
  obtain ⟨hfitsRest, hrest⟩ := hs
  refine ⟨List.forall_mem_cons.2 ⟨hfits, hfitsRest⟩, .inr ?_⟩
  rcases hrest with ⟨rfl, behind, hbehind, rfl⟩ | ⟨comma, more, ⟨behind, hbehind, rfl⟩, rfl, hmore⟩
  · have hmember := Spells.member hb ⟨codes, hk, rfl⟩ hc (.element hbefore hspells hbehind)
    refine ⟨lead, _, hlead, ?_, .lastMember hmember⟩
    simp
  · have hmember := Spells.member hb ⟨codes, hk, rfl⟩ hc (.element hbefore hspells hbehind)
    refine ⟨lead, _, hlead, ?_, .moreMembers hmember hmore⟩
    simp

section Step

variable {fuel : Nat}
  (ihValue : ∀ room text tree rest, readValue .full fuel room text = .ok (tree, rest) →
    ValueRead room text rest tree)
  (ihElements : ∀ room first text trees rest,
    readElements .full fuel room first text = .ok (trees, rest) →
    ElementsRead room first text rest trees)
  (ihMembers : ∀ room first text members rest,
    readMembers .full fuel room first text = .ok (members, rest) →
    MembersRead room first text rest members)

include ihElements in
theorem readArray_sound {room : Nat} {text rest : List Char} {trees : List Tree}
    (hroom : mayOpen .full room = true)
    (h : readElements .full fuel (room - 1) true text = .ok (trees, rest)) :
    ∃ body, '[' :: text = body ++ rest ∧ Spells (.value (.array trees)) body ∧
      Fits room (.array trees) := by
  obtain ⟨room, rfl⟩ := Nat.exists_eq_succ_of_ne_zero (by simpa [mayOpen] using hroom)
  obtain ⟨hfits, hread⟩ := ihElements _ _ _ _ _ h
  rcases hread with ⟨rfl, blanks, hb, rfl⟩ | ⟨lead, body, rfl, rfl, hspells⟩
  · exact ⟨'[' :: blanks ++ [']'], by simp, .emptyArray hb, .array hfits⟩
  · exact ⟨'[' :: body ++ [']'], by simp, .array hspells, .array hfits⟩

include ihMembers in
theorem readObject_sound {room : Nat} {text rest : List Char} {members : List (String × Tree)}
    (hroom : mayOpen .full room = true)
    (h : readMembers .full fuel (room - 1) true text = .ok (members, rest)) :
    ∃ body, '\x7b' :: text = body ++ rest ∧ Spells (.value (.object members)) body ∧
      Fits room (.object members) := by
  obtain ⟨room, rfl⟩ := Nat.exists_eq_succ_of_ne_zero (by simpa [mayOpen] using hroom)
  obtain ⟨hfits, hread⟩ := ihMembers _ _ _ _ _ h
  rcases hread with ⟨rfl, blanks, hb, rfl⟩ | ⟨lead, body, rfl, rfl, hspells⟩
  · exact ⟨'\x7b' :: blanks ++ ['\x7d'], by simp, .emptyObject hb, .object hfits⟩
  · exact ⟨'\x7b' :: body ++ ['\x7d'], by simp, .object hspells, .object hfits⟩

include ihElements ihMembers in
theorem readValue_sound {room : Nat} {text rest : List Char} {tree : Tree}
    (h : readValue .full (fuel + 1) room text = .ok (tree, rest)) :
    ValueRead room text rest tree := by
  rw [readValue] at h
  split at h
  · exact absurd h (by simp)
  · next c more hskip =>
    obtain ⟨blanks, hb, htext⟩ := skipBlanks_sound hskip
    suffices hbody : ∃ body, c :: more = body ++ rest ∧ Spells (.value tree) body ∧ Fits room tree by
      obtain ⟨body, hmore, hspells, hfits⟩ := hbody
      exact ⟨blanks, body, hb, by rw [htext, hmore, List.append_assoc], hspells, hfits⟩
    -- the first character says what kind of value it is
    split at h
    · next hc =>
      obtain ⟨left, hword, h⟩ := bind_eq_ok.1 h
      obtain ⟨rfl, rfl⟩ := Prod.mk.inj (Except.ok.inj h)
      exact ⟨['n', 'u', 'l', 'l'], by rw [hc, readWord_sound hword]; rfl, .nullWord, .null⟩
    split at h
    · next hc =>
      obtain ⟨left, hword, h⟩ := bind_eq_ok.1 h
      obtain ⟨rfl, rfl⟩ := Prod.mk.inj (Except.ok.inj h)
      exact ⟨['t', 'r', 'u', 'e'], by rw [hc, readWord_sound hword]; rfl, .trueWord, .bool true⟩
    split at h
    · next hc =>
      obtain ⟨left, hword, h⟩ := bind_eq_ok.1 h
      obtain ⟨rfl, rfl⟩ := Prod.mk.inj (Except.ok.inj h)
      exact ⟨['f', 'a', 'l', 's', 'e'], by rw [hc, readWord_sound hword]; rfl, .falseWord,
        .bool false⟩
    split at h
    · obtain ⟨⟨n, left⟩, hnumber, h⟩ := bind_eq_ok.1 h
      obtain ⟨rfl, rfl⟩ := Prod.mk.inj (Except.ok.inj h)
      obtain ⟨body, hmore, hspells, hfinite⟩ := Literal.read_sound hnumber
      exact ⟨body, hmore, .number hspells, .number hfinite⟩
    split at h
    · next hc =>
      obtain ⟨⟨s, left⟩, hstring, h⟩ := bind_eq_ok.1 h
      obtain ⟨rfl, rfl⟩ := Prod.mk.inj (Except.ok.inj h)
      obtain ⟨codes, hcodes, rfl⟩ := readString_sound hstring
      exact ⟨'"' :: codes ++ ['"'], by simp [hc], .string ⟨codes, hcodes, rfl⟩, .string s⟩
    split at h
    · next hc =>
      split at h
      · next hroom =>
        obtain ⟨⟨trees, left⟩, helements, h⟩ := bind_eq_ok.1 h
        obtain ⟨rfl, rfl⟩ := Prod.mk.inj (Except.ok.inj h)
        exact hc ▸ readArray_sound ihElements hroom helements
      · exact absurd h (by simp)
    split at h
    · next hc =>
      split at h
      · next hroom =>
        obtain ⟨⟨members, left⟩, hmembers, h⟩ := bind_eq_ok.1 h
        obtain ⟨rfl, rfl⟩ := Prod.mk.inj (Except.ok.inj h)
        exact hc ▸ readObject_sound ihMembers hroom hmembers
      · exact absurd h (by simp)
    · exact absurd h (by simp)

include ihValue ihElements in
theorem readElements_sound {room : Nat} {first : Bool} {text rest : List Char} {trees : List Tree}
    (h : readElements .full (fuel + 1) room first text = .ok (trees, rest)) :
    ElementsRead room first text rest trees := by
  rw [readElements] at h
  obtain ⟨next, hnext, h⟩ := bind_eq_ok.1 h
  cases nextElement_sound hnext with
  | close hb =>
    obtain ⟨rfl, rfl⟩ := Prod.mk.inj (Except.ok.inj h)
    exact ⟨by simp, .inl ⟨rfl, _, hb, rfl⟩⟩
  | item hlead hb =>
    obtain ⟨⟨tree, after⟩, hvalue, h⟩ := bind_eq_ok.1 h
    obtain ⟨⟨trees, left⟩, helements, h⟩ := bind_eq_ok.1 h
    obtain ⟨rfl, rfl⟩ := Prod.mk.inj (Except.ok.inj h)
    exact .cons hlead hb (ihValue _ _ _ _ hvalue) (ihElements _ _ _ _ _ helements)

include ihValue ihMembers in
theorem readMembers_sound {room : Nat} {first : Bool} {text rest : List Char}
    {members : List (String × Tree)}
    (h : readMembers .full (fuel + 1) room first text = .ok (members, rest)) :
    MembersRead room first text rest members := by
  rw [readMembers] at h
  obtain ⟨next, hnext, h⟩ := bind_eq_ok.1 h
  cases nextMember_sound hnext with
  | close hb =>
    obtain ⟨rfl, rfl⟩ := Prod.mk.inj (Except.ok.inj h)
    exact ⟨by simp, .inl ⟨rfl, _, hb, rfl⟩⟩
  | item hlead hb =>
    obtain ⟨⟨name, colon⟩, hkey, h⟩ := bind_eq_ok.1 h
    obtain ⟨value, hcolon, h⟩ := bind_eq_ok.1 h
    obtain ⟨⟨tree, after⟩, hvalue, h⟩ := bind_eq_ok.1 h
    obtain ⟨⟨members, left⟩, hmembers, h⟩ := bind_eq_ok.1 h
    obtain ⟨rfl, rfl⟩ := Prod.mk.inj (Except.ok.inj h)
    obtain ⟨codes, hcodes, rfl⟩ := readString_sound hkey
    obtain ⟨between, hbetween, rfl⟩ := readColon_sound hcolon
    exact .cons hlead hb hcodes hbetween (ihValue _ _ _ _ hvalue) (ihMembers _ _ _ _ _ hmembers)

end Step

/-- Every reader takes in what the grammar spells. The induction is on the number of steps, for the
three readers at once, since each calls the others with one step less. -/
theorem readers_sound (fuel : Nat) :
    (∀ room text tree rest, readValue .full fuel room text = .ok (tree, rest) →
      ValueRead room text rest tree) ∧
    (∀ room first text trees rest, readElements .full fuel room first text = .ok (trees, rest) →
      ElementsRead room first text rest trees) ∧
    (∀ room first text members rest,
      readMembers .full fuel room first text = .ok (members, rest) →
      MembersRead room first text rest members) := by
  induction fuel with
  | zero =>
    refine ⟨?_, ?_, ?_⟩
    · intro room text tree rest h
      exact absurd h (by simp [readValue])
    · intro room first text trees rest h
      exact absurd h (by simp [readElements])
    · intro room first text members rest h
      exact absurd h (by simp [readMembers])
  | succ fuel ih =>
    obtain ⟨ihValue, ihElements, ihMembers⟩ := ih
    refine ⟨?_, ?_, ?_⟩
    · intro room text tree rest h
      exact readValue_sound ihElements ihMembers h
    · intro room first text trees rest h
      exact readElements_sound ihValue ihElements h
    · intro room first text members rest h
      exact readMembers_sound ihValue ihMembers h

/-! ## Documents -/

theorem readEnd_sound {text : List Char} (h : readEnd text = .ok ()) : Blank text := by
  rw [readEnd] at h
  split at h
  · next hskip =>
    obtain ⟨blanks, hb, htext⟩ := skipBlanks_sound hskip
    rwa [htext, List.append_nil]
  · exact absurd h (by simp)

/-- The documents are exactly the texts that are read to their end. -/
theorem document_iff {text : String} {tree : Tree} :
    Document text tree ↔
      ∃ after, readTree text.toList = .ok (tree, after) ∧ readEnd after = .ok () := by
  constructor
  · intro h
    obtain ⟨after, hblank, hread⟩ := h.readTree
    exact ⟨after, hread, readEnd_blank hblank⟩
  · rintro ⟨after, hread, hend⟩
    obtain ⟨before, body, hb, htext, hspells, hfits⟩ := (readers_sound _).1 _ _ _ _ hread
    refine ⟨?_, hfits⟩
    rw [htext]
    exact .element hb hspells (readEnd_sound hend)

end DriveClient.Json
