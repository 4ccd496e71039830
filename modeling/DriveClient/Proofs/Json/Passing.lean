import DriveClient.Proofs.Json.Soundness

/-!
# Passing over values

A value that nobody asks for is passed over: it is read without looking at its depth, the size of
its numbers or the pairing of its surrogates. So whatever can be read in full can also be passed
over, and this ends at the same place (`getsAsFar_readValue`). The values need not be the same,
since a pair of surrogates is passed over as two characters.
-/

namespace DriveClient.Json

/-! ## Readers that get equally far -/

section GetsAsFar

variable {α β γ δ : Type}

/-- Whether one reader gets as far as another: where the first gives a value, the second gives one
too, and leaves the same text. -/
def GetsAsFar (x : Except Stop (α × List Char)) (y : Except Stop (β × List Char)) : Prop :=
  ∀ a rest, x = .ok (a, rest) → ∃ b, y = .ok (b, rest)

namespace GetsAsFar

theorem error (stop : Stop) (y : Except Stop (β × List Char)) :
    GetsAsFar (.error stop : Except Stop (α × List Char)) y := by
  intro a rest h
  exact absurd h (by simp)

theorem ok (a : α) (b : β) (rest : List Char) : GetsAsFar (.ok (a, rest)) (.ok (b, rest)) := by
  intro a' rest' h
  obtain ⟨-, rfl⟩ := Prod.mk.inj (Except.ok.inj h)
  exact ⟨b, rfl⟩

/-- After two readers that got equally far, two others go on from the same text. -/
theorem bind {x : Except Stop (α × List Char)} {y : Except Stop (β × List Char)}
    {next : α × List Char → Except Stop (γ × List Char)}
    {next' : β × List Char → Except Stop (δ × List Char)} (h : GetsAsFar x y)
    (hnext : ∀ a b rest, GetsAsFar (next (a, rest)) (next' (b, rest))) :
    GetsAsFar (x >>= next) (y >>= next') := by
  intro c rest hread
  obtain ⟨⟨a, left⟩, hx, hread⟩ := bind_eq_ok.1 hread
  obtain ⟨b, rfl⟩ := h a left hx
  exact hnext a b left c rest hread

/-- The same step may stand in front of both. -/
theorem bind_same {x : Except Stop α} {next : α → Except Stop (γ × List Char)}
    {next' : α → Except Stop (δ × List Char)} (hnext : ∀ a, GetsAsFar (next a) (next' a)) :
    GetsAsFar (x >>= next) (x >>= next') := by
  cases x with
  | error stop => exact .error stop _
  | ok a => exact hnext a

/-- The same condition may choose between two readers on both sides. -/
theorem ite {p : Prop} [Decidable p] {x x' : Except Stop (α × List Char)}
    {y y' : Except Stop (β × List Char)} (hx : GetsAsFar x y) (hx' : GetsAsFar x' y') :
    GetsAsFar (if p then x else x') (if p then y else y') := by
  split
  · exact hx
  · exact hx'

end GetsAsFar

end GetsAsFar

/-! ## Strings -/

/-- An escape by number is passed over whatever the number is. -/
theorem readEscape_numbered_pass {digits : List Char} {n : Nat} (h : FourDigits digits n)
    (rest : List Char) : readEscape .pass ('u' :: digits ++ rest) = .ok (Char.ofNat n, 5) := by
  have hshort : shortEscape? 'u' = none := rfl
  simp [readEscape, hshort, readNumbered, readHex_digits h]

theorem readChars_numbered_pass {digits : List Char} {n : Nat} (h : FourDigits digits n)
    (rest : List Char) :
    readChars .pass 0 ('\\' :: 'u' :: digits ++ rest) =
      (readChars .pass 0 rest).map fun r => (Char.ofNat n :: r.1, r.2) := by
  refine readChars_escape .pass ('u' :: digits) ?_
  rw [readEscape_numbered_pass h, List.length_cons, h.length_eq]

/-- A spelled character is passed over as one character or as two. -/
theorem readChars_spelled_pass {c : Char} {code : List Char} (h : SpellsChar c code) :
    ∃ cs, ∀ rest, readChars .pass 0 (code ++ rest) =
      (readChars .pass 0 rest).map fun r => (cs ++ r.1, r.2) := by
  cases h with
  | plain hq hb hc => exact ⟨[c], readChars_plain .pass hq hb hc⟩
  | @short letter _ h =>
    exact ⟨[c], fun rest => readChars_escape .pass [letter] (readEscape_short .pass h rest)⟩
  | numbered h => exact ⟨[Char.ofNat c.toNat], readChars_numbered_pass h⟩
  | @pair _ high low m n hm hn _ _ _ =>
    -- each half of the pair is passed over as an escape of its own
    refine ⟨[Char.ofNat (0xD800 + m), Char.ofNat (0xDC00 + n)], fun rest => ?_⟩
    rw [List.append_assoc, readChars_numbered_pass hm, readChars_numbered_pass hn]
    cases readChars .pass 0 rest <;> rfl

theorem readChars_allSpelled_pass {cs codes : List Char} (h : SpellsChars cs codes)
    (rest : List Char) : ∃ cs', readChars .pass 0 (codes ++ '"' :: rest) = .ok (cs', rest) := by
  induction h with
  | nil => exact ⟨[], by simp [readChars]⟩
  | cons h hs ih =>
    obtain ⟨more, hmore⟩ := ih
    obtain ⟨first, hfirst⟩ := readChars_spelled_pass h
    refine ⟨first ++ more, ?_⟩
    rw [List.append_assoc, hfirst, hmore]
    rfl

theorem getsAsFar_readString (text : List Char) :
    GetsAsFar (readString .full text) (readString .pass text) := by
  intro s rest h
  obtain ⟨codes, hcodes, rfl⟩ := readString_sound h
  obtain ⟨cs, hcs⟩ := readChars_allSpelled_pass hcodes rest
  exact ⟨String.ofList cs, by simp [readString, hcs]⟩

/-! ## Numbers -/

namespace Literal

theorem getsAsFar_readDigits (text : List Char) :
    GetsAsFar (readDigits .full text) (readDigits .pass text) := by
  cases text with
  | nil => exact .error _ _
  | cons c rest =>
    rw [readDigits, readDigits]
    exact .ite (.ok _ _ _) (.error _ _)

theorem getsAsFar_readWhole (text : List Char) :
    GetsAsFar (readWhole .full text) (readWhole .pass text) := by
  by_cases hzero : text.head? = some '0'
  · obtain ⟨rest, rfl⟩ := List.head?_eq_some_iff.1 hzero
    cases rest with
    | nil => exact .ok _ _ _
    | cons c more => exact .ite (.error _ _) (.ok _ _ _)
  · have hdigits (care : Care) : readWhole care text = readDigits care text := by
      rw [readWhole]
      rintro rest rfl
      exact hzero rfl
    rw [hdigits, hdigits]
    exact getsAsFar_readDigits text

theorem getsAsFar_readFraction (text : List Char) :
    GetsAsFar (readFraction .full text) (readFraction .pass text) := by
  by_cases hpoint : text.head? = some '.'
  · obtain ⟨rest, rfl⟩ := List.head?_eq_some_iff.1 hpoint
    exact getsAsFar_readDigits rest
  · have hnone (care : Care) : readFraction care text = .ok ([], text) := by
      rw [readFraction]
      rintro rest rfl
      exact hpoint rfl
    rw [hnone, hnone]
    exact .ok _ _ _

theorem getsAsFar_readExponent (text : List Char) :
    GetsAsFar (readExponent .full text) (readExponent .pass text) := by
  cases text with
  | nil => exact .ok _ _ _
  | cons c rest =>
    rw [readExponent, readExponent]
    exact .ite (.bind (getsAsFar_readDigits _) fun digits digits' rest => .ok _ _ rest)
      (.ok _ _ _)

theorem getsAsFar_readAny (text : List Char) :
    GetsAsFar (readAny .full text) (readAny .pass text) := by
  unfold readAny
  exact .bind (getsAsFar_readWhole _) fun whole whole' rest =>
    .bind (getsAsFar_readFraction rest) fun fraction fraction' rest =>
      .bind (getsAsFar_readExponent rest) fun exponent exponent' rest => .ok _ _ rest

/-- A number is passed over whatever its size. -/
theorem getsAsFar_read (text : List Char) : GetsAsFar (read .full text) (read .pass text) := by
  unfold read
  refine .bind (getsAsFar_readAny text) fun n n' rest => ?_
  -- only the full reader minds a number that is too large
  cases hlarge : n.tooLarge? with
  | some unread =>
    simp only [hlarge]
    exact .error _ _
  | none =>
    simp only [hlarge]
    exact .ok _ _ rest

end Literal

/-! ## Values -/

section Step

variable {fuel : Nat}
  (ihValue : ∀ room room' text,
    GetsAsFar (readValue .full fuel room text) (readValue .pass fuel room' text))
  (ihElements : ∀ room room' first text,
    GetsAsFar (readElements .full fuel room first text) (readElements .pass fuel room' first text))
  (ihMembers : ∀ room room' first text,
    GetsAsFar (readMembers .full fuel room first text) (readMembers .pass fuel room' first text))

include ihElements ihMembers in
theorem getsAsFar_readValue_succ (room room' : Nat) (text : List Char) :
    GetsAsFar (readValue .full (fuel + 1) room text) (readValue .pass (fuel + 1) room' text) := by
  have hopen : mayOpen .pass room' = true := rfl
  rw [readValue, readValue, hopen]
  cases skipBlanks text with
  | nil => exact .error _ _
  | cons c rest =>
    -- both readers try the kinds of values in the same order, by the first character
    refine .ite (.bind_same fun rest => .ok _ _ rest) ?_
    refine .ite (.bind_same fun rest => .ok _ _ rest) ?_
    refine .ite (.bind_same fun rest => .ok _ _ rest) ?_
    refine .ite (.bind (Literal.getsAsFar_read _) fun n n' rest => .ok _ _ rest) ?_
    refine .ite (.bind (getsAsFar_readString rest) fun s s' rest => .ok _ _ rest) ?_
    refine .ite ?_ (.ite ?_ (.error _ _))
    · rw [if_pos rfl]
      split
      · exact .bind (ihElements _ _ true rest) fun trees trees' rest => .ok _ _ rest
      · exact .error _ _
    · rw [if_pos rfl]
      split
      · exact .bind (ihMembers _ _ true rest) fun members members' rest => .ok _ _ rest
      · exact .error _ _

include ihValue ihElements in
theorem getsAsFar_readElements_succ (room room' : Nat) (first : Bool) (text : List Char) :
    GetsAsFar (readElements .full (fuel + 1) room first text)
      (readElements .pass (fuel + 1) room' first text) := by
  rw [readElements, readElements]
  refine .bind_same fun next => ?_
  cases next with
  | close rest => exact .ok _ _ rest
  | item item =>
    exact .bind (ihValue room room' item) fun tree tree' after =>
      .bind (ihElements room room' false after) fun trees trees' rest => .ok _ _ rest

include ihValue ihMembers in
theorem getsAsFar_readMembers_succ (room room' : Nat) (first : Bool) (text : List Char) :
    GetsAsFar (readMembers .full (fuel + 1) room first text)
      (readMembers .pass (fuel + 1) room' first text) := by
  rw [readMembers, readMembers]
  refine .bind_same fun next => ?_
  cases next with
  | close rest => exact .ok _ _ rest
  | item item =>
    exact .bind (getsAsFar_readString item) fun name name' colon =>
      .bind_same fun value =>
        .bind (ihValue room room' value) fun tree tree' after =>
          .bind (ihMembers room room' false after) fun members members' rest => .ok _ _ rest

end Step

/-- What can be read in full can be passed over, however little room is left. The induction is on
the number of steps, for the three readers at once. -/
theorem getsAsFar_readers (fuel : Nat) :
    (∀ room room' text,
      GetsAsFar (readValue .full fuel room text) (readValue .pass fuel room' text)) ∧
    (∀ room room' first text,
      GetsAsFar (readElements .full fuel room first text)
        (readElements .pass fuel room' first text)) ∧
    ∀ room room' first text,
      GetsAsFar (readMembers .full fuel room first text)
        (readMembers .pass fuel room' first text) := by
  induction fuel with
  | zero =>
    exact ⟨fun _ _ _ => .error _ _, fun _ _ _ _ => .error _ _, fun _ _ _ _ => .error _ _⟩
  | succ fuel ih =>
    obtain ⟨ihValue, ihElements, ihMembers⟩ := ih
    exact ⟨getsAsFar_readValue_succ ihElements ihMembers,
      getsAsFar_readElements_succ ihValue ihElements,
      getsAsFar_readMembers_succ ihValue ihMembers⟩

theorem getsAsFar_readValue (fuel room room' : Nat) (text : List Char) :
    GetsAsFar (readValue .full fuel room text) (readValue .pass fuel room' text) :=
  (getsAsFar_readers fuel).1 room room' text

end DriveClient.Json
