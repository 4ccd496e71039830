import DriveClient.Proofs.Json.Scanning

/-!
# Reading what the grammar spells

A text that spells a tree within the limits is read as that tree (`Document.readTree`), and
nothing but blanks is left (`readEnd_blank`).

The induction is on the derivation. For each phrase `Reads` says what its reader does at a text that
spells it, with whatever follows; the lemmas before it say what a reader does once the next
character is known.
-/

namespace DriveClient.Json

/-! ## Blanks -/

theorem skipBlanks_append {blanks : List Char} (h : Blank blanks) (rest : List Char) :
    skipBlanks (blanks ++ rest) = skipBlanks rest := List.dropWhile_append_of_pos h

theorem skipBlanks_cons {c : Char} (h : isBlank c = false) (rest : List Char) :
    skipBlanks (c :: rest) = c :: rest := by
  rw [skipBlanks, List.dropWhile_cons_of_neg (by simp [h])]

/-- After blanks a text begins at the first character that is none. -/
theorem skipBlanks_append_cons {blanks : List Char} (hb : Blank blanks) {c : Char}
    (hc : isBlank c = false) (rest : List Char) :
    skipBlanks (blanks ++ c :: rest) = c :: rest := by
  rw [skipBlanks_append hb, skipBlanks_cons hc]

theorem skipBlanks_skipBlanks (text : List Char) :
    skipBlanks (skipBlanks text) = skipBlanks text := by
  induction text with
  | nil => rfl
  | cons c rest ih =>
    cases hc : isBlank c with
    | true =>
      have hskip : skipBlanks (c :: rest) = skipBlanks rest := List.dropWhile_cons_of_pos hc
      rw [hskip, ih]
    | false => rw [skipBlanks_cons hc, skipBlanks_cons hc]

theorem readEnd_blank {blanks : List Char} (h : Blank blanks) : readEnd blanks = .ok () := by
  have hskip : skipBlanks blanks = [] := by
    simpa [skipBlanks] using skipBlanks_append h []
  rw [readEnd, hskip]

theorem Ends.append {blanks rest : List Char} (hb : Blank blanks) (hr : Ends rest) :
    Ends (blanks ++ rest) := by
  intro c hc
  cases blanks with
  | nil => exact hr c hc
  | cons b more =>
    obtain rfl : b = c := Option.some.inj hc
    exact .inl (hb b List.mem_cons_self)

theorem Ends.cons {c : Char} (h : c = ',' ∨ c = ']' ∨ c = '\x7d') (rest : List Char) :
    Ends (c :: rest) := by
  intro d hd
  obtain rfl : c = d := Option.some.inj hd
  exact .inr h

/-! ## The first character -/

theorem isBlank_of_isDigit {c : Char} (h : c.isDigit) : isBlank c = false := by
  cases hb : isBlank c with
  | false => rfl
  | true =>
    have hends : Ends [c] := fun d hd => .inl (Option.some.inj hd ▸ hb)
    exact absurd h (by simp [hends.noDigit c rfl])

/-- A value begins with a character that is no blank and no closing bracket. -/
theorem Spells.value_cons {tree : Tree} {text : List Char} (h : Spells (.value tree) text) :
    ∃ c more, text = c :: more ∧ isBlank c = false ∧ c ≠ ']' := by
  cases h with
  | nullWord => exact ⟨_, _, rfl, by decide, by decide⟩
  | trueWord => exact ⟨_, _, rfl, by decide, by decide⟩
  | falseWord => exact ⟨_, _, rfl, by decide, by decide⟩
  | number h =>
    obtain ⟨c, more, rfl, hc⟩ := h.exists_cons
    refine ⟨c, more, rfl, ?_, ?_⟩
    · rcases hc with rfl | hc
      · decide
      · exact isBlank_of_isDigit hc
    · rintro rfl
      exact absurd hc (by decide)
  | string h =>
    obtain ⟨codes, -, rfl⟩ := h
    exact ⟨_, _, rfl, by decide, by decide⟩
  | emptyArray _ => exact ⟨_, _, rfl, by decide, by decide⟩
  | array _ => exact ⟨_, _, rfl, by decide, by decide⟩
  | emptyObject _ => exact ⟨_, _, rfl, by decide, by decide⟩
  | object _ => exact ⟨_, _, rfl, by decide, by decide⟩

theorem Spells.length_pos {tree : Tree} {text : List Char} (h : Spells (.value tree) text) :
    0 < text.length := by
  obtain ⟨c, more, rfl, -⟩ := h.value_cons
  exact Nat.succ_pos _

/-- After its blanks an element begins as its value does. -/
theorem Spells.element_cons {tree : Tree} {text : List Char} (h : Spells (.element tree) text)
    (rest : List Char) :
    ∃ c more, skipBlanks (text ++ rest) = c :: more ∧ c ≠ ']' := by
  cases h with
  | @element _ before value after hb h _ =>
    obtain ⟨c, more, rfl, hc, hne⟩ := h.value_cons
    refine ⟨c, more ++ after ++ rest, ?_, hne⟩
    rw [List.append_assoc, List.append_assoc, List.cons_append, skipBlanks_append_cons hb hc]
    simp

theorem Spells.element_length_pos {tree : Tree} {text : List Char}
    (h : Spells (.element tree) text) : 0 < text.length := by
  cases h with
  | element _ h _ =>
    have hpos := h.length_pos
    simp only [List.length_append]
    omega

theorem Spells.elements_cons {trees : List Tree} {text : List Char}
    (h : Spells (.elements trees) text) (rest : List Char) :
    ∃ c more, skipBlanks (text ++ rest) = c :: more ∧ c ≠ ']' := by
  cases h with
  | lastElement h => exact h.element_cons rest
  | @moreElements _ _ text texts h hs =>
    rw [List.append_assoc]
    exact h.element_cons _

theorem Spells.member_cons {name : String} {tree : Tree} {text : List Char}
    (h : Spells (.member name tree) text) (rest : List Char) :
    ∃ more, skipBlanks (text ++ rest) = '"' :: more := by
  cases h with
  | @member _ _ before key after value hb hk _ _ =>
    obtain ⟨codes, -, rfl⟩ := hk
    refine ⟨codes ++ ['"'] ++ after ++ ':' :: value ++ rest, ?_⟩
    simp only [List.append_assoc, List.cons_append]
    rw [skipBlanks_append_cons hb (by decide)]

theorem Spells.member_length_pos {name : String} {tree : Tree} {text : List Char}
    (h : Spells (.member name tree) text) : 0 < text.length := by
  cases h with
  | member _ _ _ _ =>
    simp only [List.length_append, List.length_cons]
    omega

theorem Spells.members_cons {members : List (String × Tree)} {text : List Char}
    (h : Spells (.members members) text) (rest : List Char) :
    ∃ more, skipBlanks (text ++ rest) = '"' :: more := by
  cases h with
  | lastMember h => exact h.member_cons rest
  | @moreMembers _ _ _ text texts h hs =>
    rw [List.append_assoc]
    exact h.member_cons _

/-! ## One step of a reader -/

theorem nextElement_close (first : Bool) {text rest : List Char}
    (h : skipBlanks text = ']' :: rest) : nextElement first text = .ok (.close rest) := by
  simp [nextElement, h]

theorem nextElement_first {text more : List Char} {c : Char} (h : skipBlanks text = c :: more)
    (hc : c ≠ ']') : nextElement true text = .ok (.item (skipBlanks text)) := by
  simp [nextElement, h, hc]

theorem nextElement_comma {text rest more : List Char} {c : Char}
    (h : skipBlanks text = ',' :: rest) (hr : skipBlanks rest = c :: more) (hc : c ≠ ']') :
    nextElement false text = .ok (.item (skipBlanks rest)) := by
  simp [nextElement, h, hr, hc]

theorem nextMember_close (first : Bool) {text rest : List Char}
    (h : skipBlanks text = '\x7d' :: rest) : nextMember first text = .ok (.close rest) := by
  simp [nextMember, h]

theorem nextMember_first {text rest : List Char} (h : skipBlanks text = '"' :: rest) :
    nextMember true text = .ok (.item rest) := by
  simp [nextMember, h]

theorem nextMember_comma {text rest more : List Char} (h : skipBlanks text = ',' :: rest)
    (hr : skipBlanks rest = '"' :: more) : nextMember false text = .ok (.item more) := by
  simp [nextMember, h, hr]

theorem readColon_blank {blanks : List Char} (h : Blank blanks) (rest : List Char) :
    readColon (blanks ++ ':' :: rest) = .ok rest := by
  rw [readColon, skipBlanks_append_cons h (by decide)]
  rfl

variable (care : Care) (fuel room : Nat)

/-- Blanks before a value are passed over. -/
theorem readValue_skipBlanks (text : List Char) :
    readValue care (fuel + 1) room (skipBlanks text) = readValue care (fuel + 1) room text := by
  rw [readValue, readValue, skipBlanks_skipBlanks]

theorem readValue_number {n : Literal} {text rest : List Char} (h : SpellsNumber n text)
    (hr : Ends rest) (hn : n.toDouble.isFinite) :
    readValue .full (fuel + 1) room (text ++ rest) = .ok (.number n, rest) := by
  have hread := Literal.read_spelled h hr hn
  obtain ⟨c, more, rfl, hc⟩ := h.exists_cons
  have hblank : isBlank c = false := by
    rcases hc with rfl | hc
    · decide
    · exact isBlank_of_isDigit hc
  have hword : c ≠ 'n' ∧ c ≠ 't' ∧ c ≠ 'f' := by
    refine ⟨?_, ?_, ?_⟩
    all_goals
      rintro rfl
      exact absurd hc (by decide)
  rw [List.cons_append] at hread ⊢
  rw [readValue, skipBlanks_cons hblank]
  simp [hword, hc, hread]

theorem readValue_string {s : String} {codes : List Char} (h : SpellsChars s.toList codes)
    (rest : List Char) :
    readValue .full (fuel + 1) room ('"' :: (codes ++ '"' :: rest)) = .ok (.string s, rest) := by
  rw [readValue, skipBlanks_cons (by decide)]
  simp [readString_spelled h]

theorem readValue_array {trees : List Tree} {text rest : List Char}
    (h : readElements care fuel room true text = .ok (trees, rest)) :
    readValue care (fuel + 1) (room + 1) ('[' :: text) = .ok (.array trees, rest) := by
  rw [readValue, skipBlanks_cons (by decide)]
  simp [mayOpen, h]

theorem readValue_object {members : List (String × Tree)} {text rest : List Char}
    (h : readMembers care fuel room true text = .ok (members, rest)) :
    readValue care (fuel + 1) (room + 1) ('\x7b' :: text) = .ok (.object members, rest) := by
  rw [readValue, skipBlanks_cons (by decide)]
  simp [mayOpen, h]

theorem readElements_close (first : Bool) {text rest : List Char}
    (h : nextElement first text = .ok (.close rest)) :
    readElements care (fuel + 1) room first text = .ok ([], rest) := by
  simp [readElements, h]

theorem readElements_item (first : Bool) {text item after rest : List Char} {tree : Tree}
    {trees : List Tree} (h : nextElement first text = .ok (.item item))
    (hv : readValue care fuel room item = .ok (tree, after))
    (hs : readElements care fuel room false after = .ok (trees, rest)) :
    readElements care (fuel + 1) room first text = .ok (tree :: trees, rest) := by
  simp [readElements, h, hv, hs]

theorem readMembers_close (first : Bool) {text rest : List Char}
    (h : nextMember first text = .ok (.close rest)) :
    readMembers care (fuel + 1) room first text = .ok ([], rest) := by
  simp [readMembers, h]

theorem readMembers_item (first : Bool) {text item colon value after rest : List Char}
    {name : String} {tree : Tree} {members : List (String × Tree)}
    (h : nextMember first text = .ok (.item item))
    (hk : readString care item = .ok (name, colon)) (hc : readColon colon = .ok value)
    (hv : readValue care fuel room value = .ok (tree, after))
    (hs : readMembers care fuel room false after = .ok (members, rest)) :
    readMembers care (fuel + 1) room first text = .ok ((name, tree) :: members, rest) := by
  simp [readMembers, h, hk, hc, hv, hs]

/-! ## Whole phrases -/

/-- What a reader does at a text that spells a phrase, whatever follows: it takes in the text, up to
blanks behind the value, when the phrase is within the limits and there are steps enough. What
stands between brackets is read with the bracket that closes them, from where the next item has
been found. -/
def Reads : Phrase → List Char → Prop
  | .value tree, text => ∀ fuel room rest, Fits room tree → 2 * text.length ≤ fuel → Ends rest →
      readValue .full fuel room (text ++ rest) = .ok (tree, rest)
  | .element tree, text => ∀ fuel room rest, Fits room tree → 2 * text.length ≤ fuel → Ends rest →
      ∃ after, Blank after ∧ readValue .full fuel room (text ++ rest) = .ok (tree, after ++ rest)
  | .elements trees, text => ∀ fuel room first start rest, (∀ tree ∈ trees, Fits room tree) →
      2 * text.length + 1 ≤ fuel →
      nextElement first start = .ok (.item (skipBlanks (text ++ ']' :: rest))) →
      readElements .full fuel room first start = .ok (trees, rest)
  | .member name tree, text => ∀ fuel room rest more, Fits room tree → 2 * text.length ≤ fuel →
      Ends rest → skipBlanks (text ++ rest) = '"' :: more →
      ∃ colon value after, readString .full more = .ok (name, colon) ∧
        readColon colon = .ok value ∧ Blank after ∧
        readValue .full fuel room value = .ok (tree, after ++ rest)
  | .members members, text => ∀ fuel room first start rest more,
      (∀ m ∈ members, Fits room m.2) → 2 * text.length + 1 ≤ fuel →
      skipBlanks (text ++ '\x7d' :: rest) = '"' :: more →
      nextMember first start = .ok (.item more) →
      readMembers .full fuel room first start = .ok (members, rest)

theorem reads_number {n : Literal} {text : List Char} (h : SpellsNumber n text) :
    Reads (.value (.number n)) text := by
  intro fuel room rest hfits hfuel hrest
  have hpos : 0 < text.length := (Spells.number h).length_pos
  obtain ⟨fuel, rfl⟩ := Nat.exists_eq_add_of_le' (by omega : 1 ≤ fuel)
  cases hfits with
  | number hn => exact readValue_number fuel room h hrest hn

theorem reads_string {s : String} {text : List Char} (h : SpellsText s text) :
    Reads (.value (.string s)) text := by
  intro fuel room rest _ hfuel _
  obtain ⟨codes, hcodes, rfl⟩ := h
  simp only [List.length_append, List.length_cons] at hfuel
  obtain ⟨fuel, rfl⟩ := Nat.exists_eq_add_of_le' (by omega : 1 ≤ fuel)
  have hread := readValue_string fuel room hcodes rest
  simpa using hread

theorem reads_emptyArray {blanks : List Char} (hb : Blank blanks) :
    Reads (.value (.array [])) ('[' :: blanks ++ [']']) := by
  intro fuel room rest hfits hfuel _
  simp only [List.length_append, List.length_cons] at hfuel
  obtain ⟨fuel, rfl⟩ := Nat.exists_eq_add_of_le' (by omega : 2 ≤ fuel)
  cases hfits with
  | @array room _ _ =>
    have hskip : skipBlanks (blanks ++ ']' :: rest) = ']' :: rest :=
      skipBlanks_append_cons hb (by decide) rest
    have hclose := readElements_close .full fuel room true (nextElement_close true hskip)
    have hread := readValue_array .full (fuel + 1) room hclose
    simpa using hread

theorem reads_array {trees : List Tree} {text : List Char} (h : Spells (.elements trees) text)
    (ih : Reads (.elements trees) text) : Reads (.value (.array trees)) ('[' :: text ++ [']']) := by
  intro fuel room rest hfits hfuel _
  simp only [List.length_append, List.length_cons] at hfuel
  obtain ⟨fuel, rfl⟩ := Nat.exists_eq_add_of_le' (by omega : 1 ≤ fuel)
  cases hfits with
  | @array room _ hfits =>
    obtain ⟨c, more, hskip, hc⟩ := h.elements_cons (']' :: rest)
    have helements := ih fuel room true (text ++ ']' :: rest) rest hfits (by omega)
      (nextElement_first hskip hc)
    have hread := readValue_array .full fuel room helements
    simpa using hread

theorem reads_emptyObject {blanks : List Char} (hb : Blank blanks) :
    Reads (.value (.object [])) ('\x7b' :: blanks ++ ['\x7d']) := by
  intro fuel room rest hfits hfuel _
  simp only [List.length_append, List.length_cons] at hfuel
  obtain ⟨fuel, rfl⟩ := Nat.exists_eq_add_of_le' (by omega : 2 ≤ fuel)
  cases hfits with
  | @object room _ _ =>
    have hskip : skipBlanks (blanks ++ '\x7d' :: rest) = '\x7d' :: rest :=
      skipBlanks_append_cons hb (by decide) rest
    have hclose := readMembers_close .full fuel room true (nextMember_close true hskip)
    have hread := readValue_object .full (fuel + 1) room hclose
    simpa using hread

theorem reads_object {members : List (String × Tree)} {text : List Char}
    (h : Spells (.members members) text) (ih : Reads (.members members) text) :
    Reads (.value (.object members)) ('\x7b' :: text ++ ['\x7d']) := by
  intro fuel room rest hfits hfuel _
  simp only [List.length_append, List.length_cons] at hfuel
  obtain ⟨fuel, rfl⟩ := Nat.exists_eq_add_of_le' (by omega : 1 ≤ fuel)
  cases hfits with
  | @object room _ hfits =>
    obtain ⟨more, hskip⟩ := h.members_cons ('\x7d' :: rest)
    have hmembers := ih fuel room true (text ++ '\x7d' :: rest) rest more hfits (by omega) hskip
      (nextMember_first hskip)
    have hread := readValue_object .full fuel room hmembers
    simpa using hread

theorem reads_element {tree : Tree} {before text after : List Char} (hb : Blank before)
    (h : Spells (.value tree) text) (ha : Blank after) (ih : Reads (.value tree) text) :
    Reads (.element tree) (before ++ text ++ after) := by
  intro fuel room rest hfits hfuel hrest
  have hpos : 0 < text.length := h.length_pos
  simp only [List.length_append] at hfuel
  obtain ⟨fuel, rfl⟩ := Nat.exists_eq_add_of_le' (by omega : 1 ≤ fuel)
  have hread := ih (fuel + 1) room (after ++ rest) hfits (by omega) (hrest.append ha)
  refine ⟨after, ha, ?_⟩
  -- the blanks before the value make no difference to its reader
  rw [List.append_assoc, List.append_assoc, ← readValue_skipBlanks, skipBlanks_append hb,
    readValue_skipBlanks, hread]

theorem reads_lastElement {tree : Tree} {text : List Char} (h : Spells (.element tree) text)
    (ih : Reads (.element tree) text) : Reads (.elements [tree]) text := by
  intro fuel room first start rest hfits hfuel hnext
  have hpos : 0 < text.length := h.element_length_pos
  obtain ⟨fuel, rfl⟩ := Nat.exists_eq_add_of_le' (by omega : 2 ≤ fuel)
  -- the closing bracket ends the value, and its reader leaves the blanks before the bracket
  obtain ⟨after, ha, hread⟩ := ih (fuel + 1) room (']' :: rest)
    (hfits tree List.mem_cons_self) (by omega) (.cons (.inr (.inl rfl)) rest)
  have hskip : skipBlanks (after ++ ']' :: rest) = ']' :: rest :=
    skipBlanks_append_cons ha (by decide) rest
  rw [← readValue_skipBlanks] at hread
  exact readElements_item .full (fuel + 1) room first hnext hread
    (readElements_close .full fuel room false (nextElement_close false hskip))

theorem reads_moreElements {tree : Tree} {trees : List Tree} {text texts : List Char}
    (hs : Spells (.elements trees) texts) (ih : Reads (.element tree) text)
    (ihs : Reads (.elements trees) texts) :
    Reads (.elements (tree :: trees)) (text ++ ',' :: texts) := by
  intro fuel room first start rest hfits hfuel hnext
  simp only [List.length_append, List.length_cons] at hfuel
  obtain ⟨fuel, rfl⟩ := Nat.exists_eq_add_of_le' (by omega : 2 ≤ fuel)
  rw [List.append_assoc, List.cons_append] at hnext
  obtain ⟨after, ha, hread⟩ := ih (fuel + 1) room (',' :: (texts ++ ']' :: rest))
    (hfits tree List.mem_cons_self) (by omega) (.cons (.inl rfl) _)
  have hskip : skipBlanks (after ++ ',' :: (texts ++ ']' :: rest)) =
      ',' :: (texts ++ ']' :: rest) :=
    skipBlanks_append_cons ha (by decide) _
  obtain ⟨c, more, hmore, hc⟩ := hs.elements_cons (']' :: rest)
  have hrest := ihs (fuel + 1) room false _ rest
    (fun t ht => hfits t (List.mem_cons_of_mem tree ht)) (by omega)
    (nextElement_comma hskip hmore hc)
  rw [← readValue_skipBlanks] at hread
  exact readElements_item .full (fuel + 1) room first hnext hread hrest

theorem reads_member {name : String} {tree : Tree} {before key after text : List Char}
    (hb : Blank before) (hk : SpellsText name key) (ha : Blank after)
    (ih : Reads (.element tree) text) :
    Reads (.member name tree) (before ++ key ++ after ++ ':' :: text) := by
  intro fuel room rest more hfits hfuel hrest hmore
  obtain ⟨codes, hcodes, rfl⟩ := hk
  simp only [List.length_append, List.length_cons] at hfuel
  obtain ⟨behind, hbehind, hread⟩ := ih fuel room rest hfits (by omega) hrest
  -- the blanks before the name have been skipped to find its quote
  obtain rfl : more = codes ++ '"' :: (after ++ ':' :: (text ++ rest)) := by
    simp only [List.append_assoc, List.cons_append, List.nil_append] at hmore
    rw [skipBlanks_append_cons hb (by decide)] at hmore
    exact (List.tail_eq_of_cons_eq hmore).symm
  exact ⟨_, _, behind, readString_spelled hcodes _, readColon_blank ha _, hbehind, hread⟩

theorem reads_lastMember {name : String} {tree : Tree} {text : List Char}
    (h : Spells (.member name tree) text) (ih : Reads (.member name tree) text) :
    Reads (.members [(name, tree)]) text := by
  intro fuel room first start rest more hfits hfuel hmore hnext
  have hpos : 0 < text.length := h.member_length_pos
  obtain ⟨fuel, rfl⟩ := Nat.exists_eq_add_of_le' (by omega : 2 ≤ fuel)
  obtain ⟨colon, value, after, hk, hc, ha, hread⟩ := ih (fuel + 1) room ('\x7d' :: rest) more
    (hfits (name, tree) List.mem_cons_self) (by omega) (.cons (.inr (.inr rfl)) rest) hmore
  have hskip : skipBlanks (after ++ '\x7d' :: rest) = '\x7d' :: rest :=
    skipBlanks_append_cons ha (by decide) rest
  exact readMembers_item .full (fuel + 1) room first hnext hk hc hread
    (readMembers_close .full fuel room false (nextMember_close false hskip))

theorem reads_moreMembers {name : String} {tree : Tree} {members : List (String × Tree)}
    {text texts : List Char} (hs : Spells (.members members) texts)
    (ih : Reads (.member name tree) text) (ihs : Reads (.members members) texts) :
    Reads (.members ((name, tree) :: members)) (text ++ ',' :: texts) := by
  intro fuel room first start rest more hfits hfuel hmore hnext
  simp only [List.length_append, List.length_cons] at hfuel
  obtain ⟨fuel, rfl⟩ := Nat.exists_eq_add_of_le' (by omega : 2 ≤ fuel)
  rw [List.append_assoc, List.cons_append] at hmore
  obtain ⟨colon, value, after, hk, hc, ha, hread⟩ := ih (fuel + 1) room
    (',' :: (texts ++ '\x7d' :: rest)) more (hfits (name, tree) List.mem_cons_self) (by omega)
    (.cons (.inl rfl) _) hmore
  have hskip : skipBlanks (after ++ ',' :: (texts ++ '\x7d' :: rest)) =
      ',' :: (texts ++ '\x7d' :: rest) :=
    skipBlanks_append_cons ha (by decide) _
  obtain ⟨inner, hinner⟩ := hs.members_cons ('\x7d' :: rest)
  have hrest := ihs (fuel + 1) room false _ rest inner
    (fun m hm => hfits m (List.mem_cons_of_mem (name, tree) hm)) (by omega) hinner
    (nextMember_comma hskip hinner)
  exact readMembers_item .full (fuel + 1) room first hnext hk hc hread hrest

/-- A reader takes in every text that spells its phrase. -/
theorem Spells.reads {phrase : Phrase} {text : List Char} (h : Spells phrase text) :
    Reads phrase text := by
  induction h with
  | nullWord =>
    intro fuel room rest _ hfuel _
    obtain ⟨fuel, rfl⟩ := Nat.exists_eq_add_of_le' (Nat.le_trans (by decide) hfuel : 1 ≤ fuel)
    rfl
  | trueWord =>
    intro fuel room rest _ hfuel _
    obtain ⟨fuel, rfl⟩ := Nat.exists_eq_add_of_le' (Nat.le_trans (by decide) hfuel : 1 ≤ fuel)
    rfl
  | falseWord =>
    intro fuel room rest _ hfuel _
    obtain ⟨fuel, rfl⟩ := Nat.exists_eq_add_of_le' (Nat.le_trans (by decide) hfuel : 1 ≤ fuel)
    rfl
  | number h => exact reads_number h
  | string h => exact reads_string h
  | emptyArray hb => exact reads_emptyArray hb
  | array h ih => exact reads_array h ih
  | emptyObject hb => exact reads_emptyObject hb
  | object h ih => exact reads_object h ih
  | element hb h ha ih => exact reads_element hb h ha ih
  | lastElement h ih => exact reads_lastElement h ih
  | moreElements _ hs ih ihs => exact reads_moreElements hs ih ihs
  | member hb hk ha _ ih => exact reads_member hb hk ha ih
  | lastMember h ih => exact reads_lastMember h ih
  | moreMembers _ hs ih ihs => exact reads_moreMembers hs ih ihs

/-- A document is read as its tree, and only blanks are left. -/
theorem Document.readTree {text : String} {tree : Tree} (h : Document text tree) :
    ∃ after, Blank after ∧ Json.readTree text.toList = .ok (tree, after) := by
  have hfuel : 2 * text.toList.length ≤ stepsFor text.toList := Nat.le_add_right _ 2
  have hends : Ends [] := fun c hc => by cases hc
  simpa [Json.readTree] using h.spells.reads _ maxDepth [] h.fits hfuel hends

/-- A text is a document of one tree only. -/
theorem Document.tree_unique {text : String} {a b : Tree} (ha : Document text a)
    (hb : Document text b) : a = b := by
  obtain ⟨_, -, hreadA⟩ := ha.readTree
  obtain ⟨_, -, hreadB⟩ := hb.readTree
  have heq := Except.ok.inj (hreadA.symm.trans hreadB)
  exact congrArg Prod.fst heq

end DriveClient.Json
