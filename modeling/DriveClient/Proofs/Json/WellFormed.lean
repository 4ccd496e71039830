import DriveClient.Proofs.Json.Writing

/-!
# Well-formed texts

Which texts are well-formed, told without their trees: words, numbers, strings, and lists and
objects with commas between their items. The rules leave open what goes as a string. If an escape
may give any number (`Quoted`), a surrogate may stand alone, and then the string spells no text. If
surrogates come in pairs only (`Paired`), the well-formed texts are the documents
(`exists_document_iff`).
-/

namespace DriveClient.Json

/-! ## Strings -/

/-- One code of a string: a character as it stands, an escape by a letter, or an escape by any
number. -/
inductive IsCharCode : List Char → Prop where
  | plain {c : Char} (hq : c ≠ '"') (hb : c ≠ '\\') (hc : ¬c.toNat < 0x20) : IsCharCode [c]
  | short {letter c : Char} (h : shortEscape? letter = some c) : IsCharCode ['\\', letter]
  | numbered {digits : List Char} {n : Nat} (h : FourDigits digits n) :
      IsCharCode ('\\' :: 'u' :: digits)

/-- Codes in quotes. -/
def Quoted (text : List Char) : Prop :=
  ∃ codes : List (List Char), (∀ code ∈ codes, IsCharCode code) ∧
    text = '"' :: codes.flatten ++ ['"']

/-- A string in quotes that spells some text, so that all its surrogates are paired. -/
def Paired (text : List Char) : Prop := ∃ s, SpellsText s text

theorem paired_quote (s : String) : Paired (quote s).toList := ⟨s, spellsText_quote s⟩

/-- The codes that spell a character are one, or the two of a pair. -/
theorem SpellsChar.codes {c : Char} {text : List Char} (h : SpellsChar c text) :
    ∃ codes : List (List Char), (∀ code ∈ codes, IsCharCode code) ∧ text = codes.flatten := by
  cases h with
  | plain hq hb hc => exact ⟨[_], by simpa using .plain hq hb hc, by simp⟩
  | short h => exact ⟨[_], by simpa using .short h, by simp⟩
  | numbered h => exact ⟨[_], by simpa using .numbered h, by simp⟩
  | @pair _ high low _ _ hm hn _ _ _ =>
    refine ⟨['\\' :: 'u' :: high, '\\' :: 'u' :: low], ?_, by simp⟩
    simpa using ⟨IsCharCode.numbered hm, IsCharCode.numbered hn⟩

theorem SpellsChars.codes {cs text : List Char} (h : SpellsChars cs text) :
    ∃ codes : List (List Char), (∀ code ∈ codes, IsCharCode code) ∧ text = codes.flatten := by
  induction h with
  | nil => exact ⟨[], by simp, rfl⟩
  | cons h _ ih =>
    obtain ⟨first, hfirst, rfl⟩ := h.codes
    obtain ⟨more, hmore, rfl⟩ := ih
    refine ⟨first ++ more, fun code hcode => ?_, by simp⟩
    rcases List.mem_append.1 hcode with hcode | hcode
    · exact hfirst code hcode
    · exact hmore code hcode

/-- Pairing is an additional demand on a string. -/
theorem Paired.quoted {text : List Char} (h : Paired text) : Quoted text := by
  obtain ⟨s, codes, hcodes, rfl⟩ := h
  obtain ⟨codes, hall, rfl⟩ := hcodes.codes
  exact ⟨codes, hall, rfl⟩

/-! ## Values -/

/-- A part of a text between blanks. -/
structure Padded where
  before : List Char
  body : List Char
  after : List Char
  blank_before : Blank before
  blank_after : Blank after

namespace Padded

/-- The part with its blanks. -/
def text (p : Padded) : List Char := p.before ++ p.body ++ p.after

/-- A part without blanks. -/
def bare (body : List Char) : Padded := ⟨[], body, [], .nil, .nil⟩

/-- The text of a member of an object, which is a name and a value. -/
def member (m : Padded × Padded) : List Char := m.1.text ++ ':' :: m.2.text

/-- A member without blanks, with a name as it is written. -/
def bareMember (name : String) (value : List Char) : Padded × Padded :=
  (bare (quote name).toList, bare value)

end Padded

/-- Items with commas between them. -/
def commas (items : List (List Char)) : List Char := [','].intercalate items

/-- The texts of values, with brackets nested at most `room` deep and no number past the largest
double. -/
inductive WellFormed (IsString : List Char → Prop) : (room : Nat) → List Char → Prop where
  | nullWord {room : Nat} : WellFormed IsString room ['n', 'u', 'l', 'l']
  | trueWord {room : Nat} : WellFormed IsString room ['t', 'r', 'u', 'e']
  | falseWord {room : Nat} : WellFormed IsString room ['f', 'a', 'l', 's', 'e']
  | number {room : Nat} {n : Literal} {text : List Char} (h : SpellsNumber n text)
      (hn : n.toDouble.isFinite) : WellFormed IsString room text
  | string {room : Nat} {text : List Char} (h : IsString text) : WellFormed IsString room text
  | emptyArray {room : Nat} {blanks : List Char} (hb : Blank blanks) :
      WellFormed IsString (room + 1) ('[' :: blanks ++ [']'])
  | array {room : Nat} {first : Padded} {more : List Padded}
      (h : ∀ p ∈ first :: more, WellFormed IsString room p.body) :
      WellFormed IsString (room + 1) ('[' :: commas ((first :: more).map Padded.text) ++ [']'])
  | emptyObject {room : Nat} {blanks : List Char} (hb : Blank blanks) :
      WellFormed IsString (room + 1) ('\x7b' :: blanks ++ ['\x7d'])
  | object {room : Nat} {first : Padded × Padded} {more : List (Padded × Padded)}
      (hk : ∀ m ∈ first :: more, IsString m.1.body)
      (h : ∀ m ∈ first :: more, WellFormed IsString room m.2.body) :
      WellFormed IsString (room + 1)
        ('\x7b' :: commas ((first :: more).map Padded.member) ++ ['\x7d'])

/-- A text that is one value between blanks, within the limits. -/
def WellFormedText (IsString : List Char → Prop) (text : String) : Prop :=
  ∃ p : Padded, text.toList = p.text ∧ WellFormed IsString maxDepth p.body

theorem WellFormed.mono {IsString IsString' : List Char → Prop}
    (hstring : ∀ text, IsString text → IsString' text) {room : Nat} {text : List Char}
    (h : WellFormed IsString room text) : WellFormed IsString' room text := by
  induction h with
  | nullWord => exact .nullWord
  | trueWord => exact .trueWord
  | falseWord => exact .falseWord
  | number h hn => exact .number h hn
  | string h => exact .string (hstring _ h)
  | emptyArray hb => exact .emptyArray hb
  | array _ ih => exact .array ih
  | emptyObject hb => exact .emptyObject hb
  | object hk _ ih => exact .object (fun m hm => hstring _ (hk m hm)) ih

/-- Pairing is an additional demand on a text, too. -/
theorem WellFormedText.quoted {text : String} (h : WellFormedText Paired text) :
    WellFormedText Quoted text := by
  obtain ⟨p, htext, h⟩ := h
  exact ⟨p, htext, h.mono fun _ hstring => hstring.quoted⟩

/-! ## Well-formed texts have trees -/

section Trees

variable {room : Nat}

theorem Padded.spells (p : Padded) {tree : Tree} (h : Spells (.value tree) p.body) :
    Spells (.element tree) p.text := .element p.blank_before h p.blank_after

theorem exists_elements {first : Padded} {more : List Padded}
    (h : ∀ p ∈ first :: more, ∃ tree, Spells (.value tree) p.body ∧ Fits room tree) :
    ∃ trees, Spells (.elements trees) (commas ((first :: more).map Padded.text)) ∧
      ∀ tree ∈ trees, Fits room tree := by
  -- the grammar, too, puts one item in front of others
  induction more generalizing first with
  | nil =>
    obtain ⟨tree, hspells, hfits⟩ := h first List.mem_cons_self
    refine ⟨[tree], ?_, by simpa using hfits⟩
    simpa [commas] using Spells.lastElement (first.spells hspells)
  | cons next more ih =>
    obtain ⟨tree, hspells, hfits⟩ := h first List.mem_cons_self
    obtain ⟨trees, hmore, hall⟩ := ih fun p hp => h p (List.mem_cons_of_mem first hp)
    refine ⟨tree :: trees, ?_, List.forall_mem_cons.2 ⟨hfits, hall⟩⟩
    simpa [commas] using Spells.moreElements (first.spells hspells) hmore

theorem exists_member {m : Padded × Padded} (hk : Paired m.1.body)
    (h : ∃ tree, Spells (.value tree) m.2.body ∧ Fits room tree) :
    ∃ name tree, Spells (.member name tree) (Padded.member m) ∧ Fits room tree := by
  obtain ⟨name, hname⟩ := hk
  obtain ⟨tree, hspells, hfits⟩ := h
  exact ⟨name, tree, .member m.1.blank_before hname m.1.blank_after (m.2.spells hspells), hfits⟩

theorem exists_members {first : Padded × Padded} {more : List (Padded × Padded)}
    (hk : ∀ m ∈ first :: more, Paired m.1.body)
    (h : ∀ m ∈ first :: more, ∃ tree, Spells (.value tree) m.2.body ∧ Fits room tree) :
    ∃ members, Spells (.members members) (commas ((first :: more).map Padded.member)) ∧
      ∀ m ∈ members, Fits room m.2 := by
  induction more generalizing first with
  | nil =>
    obtain ⟨name, tree, hspells, hfits⟩ :=
      exists_member (hk first List.mem_cons_self) (h first List.mem_cons_self)
    refine ⟨[(name, tree)], ?_, by simpa using hfits⟩
    simpa [commas] using Spells.lastMember hspells
  | cons next more ih =>
    obtain ⟨name, tree, hspells, hfits⟩ :=
      exists_member (hk first List.mem_cons_self) (h first List.mem_cons_self)
    obtain ⟨members, hmore, hall⟩ := ih (fun m hm => hk m (List.mem_cons_of_mem first hm))
      fun m hm => h m (List.mem_cons_of_mem first hm)
    refine ⟨(name, tree) :: members, ?_, List.forall_mem_cons.2 ⟨hfits, hall⟩⟩
    simpa [commas] using Spells.moreMembers hspells hmore

theorem WellFormed.exists_tree {text : List Char} (h : WellFormed Paired room text) :
    ∃ tree, Spells (.value tree) text ∧ Fits room tree := by
  induction h with
  | nullWord => exact ⟨_, .nullWord, .null⟩
  | trueWord => exact ⟨_, .trueWord, .bool true⟩
  | falseWord => exact ⟨_, .falseWord, .bool false⟩
  | number h hn => exact ⟨_, .number h, .number hn⟩
  | string h =>
    obtain ⟨s, hs⟩ := h
    exact ⟨_, .string hs, .string s⟩
  | emptyArray hb => exact ⟨_, .emptyArray hb, .array (by simp)⟩
  | array _ ih =>
    obtain ⟨trees, hspells, hfits⟩ := exists_elements ih
    exact ⟨_, .array hspells, .array hfits⟩
  | emptyObject hb => exact ⟨_, .emptyObject hb, .object (by simp)⟩
  | object hk _ ih =>
    obtain ⟨members, hspells, hfits⟩ := exists_members hk ih
    exact ⟨_, .object hspells, .object hfits⟩

end Trees

/-! ## Texts with trees are well-formed -/

/-- What the text of a phrase is made of: parts between blanks, and they are well-formed as far as
the trees in the phrase are within the limits. -/
def MadeOf : Phrase → List Char → Prop
  | .value tree, text => ∀ room, Fits room tree → WellFormed Paired room text
  | .element tree, text => ∃ p : Padded, text = p.text ∧
      ∀ room, Fits room tree → WellFormed Paired room p.body
  | .elements trees, text => ∃ first more, text = commas ((first :: more).map Padded.text) ∧
      ∀ room, (∀ tree ∈ trees, Fits room tree) →
        ∀ p ∈ first :: more, WellFormed Paired room p.body
  | .member _ tree, text => ∃ m, text = Padded.member m ∧ Paired m.1.body ∧
      ∀ room, Fits room tree → WellFormed Paired room m.2.body
  | .members members, text => ∃ first more, text = commas ((first :: more).map Padded.member) ∧
      (∀ m ∈ first :: more, Paired m.1.body) ∧
        ∀ room, (∀ m ∈ members, Fits room m.2) →
          ∀ m ∈ first :: more, WellFormed Paired room m.2.body

theorem madeOf_array {trees : List Tree} {text : List Char} (h : MadeOf (.elements trees) text) :
    MadeOf (.value (.array trees)) ('[' :: text ++ [']']) := by
  obtain ⟨first, more, rfl, h⟩ := h
  intro room hfits
  cases hfits with
  | array hfits => exact .array (h _ hfits)

theorem madeOf_object {members : List (String × Tree)} {text : List Char}
    (h : MadeOf (.members members) text) :
    MadeOf (.value (.object members)) ('\x7b' :: text ++ ['\x7d']) := by
  obtain ⟨first, more, rfl, hk, h⟩ := h
  intro room hfits
  cases hfits with
  | object hfits => exact .object hk (h _ hfits)

theorem madeOf_moreElements {tree : Tree} {trees : List Tree} {text texts : List Char}
    (h : MadeOf (.element tree) text) (hs : MadeOf (.elements trees) texts) :
    MadeOf (.elements (tree :: trees)) (text ++ ',' :: texts) := by
  obtain ⟨p, rfl, h⟩ := h
  obtain ⟨first, more, rfl, hs⟩ := hs
  refine ⟨p, first :: more, by simp [commas], fun room hfits => ?_⟩
  obtain ⟨hfit, hfits⟩ := List.forall_mem_cons.1 hfits
  exact List.forall_mem_cons.2 ⟨h room hfit, hs room hfits⟩

theorem madeOf_moreMembers {name : String} {tree : Tree} {members : List (String × Tree)}
    {text texts : List Char} (h : MadeOf (.member name tree) text)
    (hs : MadeOf (.members members) texts) :
    MadeOf (.members ((name, tree) :: members)) (text ++ ',' :: texts) := by
  obtain ⟨m, rfl, hkey, h⟩ := h
  obtain ⟨first, more, rfl, hkeys, hs⟩ := hs
  refine ⟨m, first :: more, by simp [commas], List.forall_mem_cons.2 ⟨hkey, hkeys⟩,
    fun room hfits => ?_⟩
  obtain ⟨hfit, hfits⟩ := List.forall_mem_cons.1 hfits
  exact List.forall_mem_cons.2 ⟨h room hfit, hs room hfits⟩

theorem Spells.madeOf {phrase : Phrase} {text : List Char} (h : Spells phrase text) :
    MadeOf phrase text := by
  induction h with
  | nullWord => exact fun room _ => .nullWord
  | trueWord => exact fun room _ => .trueWord
  | falseWord => exact fun room _ => .falseWord
  | number h =>
    intro room hfits
    cases hfits with
    | number hn => exact .number h hn
  | string h => exact fun room _ => .string ⟨_, h⟩
  | emptyArray hb =>
    intro room hfits
    cases hfits with
    | array _ => exact .emptyArray hb
  | array _ ih => exact madeOf_array ih
  | emptyObject hb =>
    intro room hfits
    cases hfits with
    | object _ => exact .emptyObject hb
  | object _ ih => exact madeOf_object ih
  | @element _ before body after hb _ ha ih => exact ⟨⟨before, body, after, hb, ha⟩, rfl, ih⟩
  | lastElement _ ih =>
    obtain ⟨p, rfl, h⟩ := ih
    exact ⟨p, [], by simp [commas], fun room hfits => by simpa using h room (by simpa using hfits)⟩
  | moreElements _ _ ih ihs => exact madeOf_moreElements ih ihs
  | @member name _ before key after _ hb hk ha _ ih =>
    obtain ⟨p, rfl, h⟩ := ih
    exact ⟨(⟨before, key, after, hb, ha⟩, p), rfl, ⟨name, hk⟩, h⟩
  | lastMember _ ih =>
    obtain ⟨m, rfl, hkey, h⟩ := ih
    exact ⟨m, [], by simp [commas], by simpa using hkey,
      fun room hfits => by simpa using h room (by simpa using hfits)⟩
  | moreMembers _ _ ih ihs => exact madeOf_moreMembers ih ihs

/-- With paired surrogates the well-formed texts are those with a tree. -/
theorem exists_document_iff {text : String} :
    (∃ tree, Document text tree) ↔ WellFormedText Paired text := by
  constructor
  · rintro ⟨tree, hspells, hfits⟩
    obtain ⟨p, htext, h⟩ := hspells.madeOf
    exact ⟨p, htext, h maxDepth hfits⟩
  · rintro ⟨p, htext, h⟩
    obtain ⟨tree, hspells, hfits⟩ := h.exists_tree
    exact ⟨tree, htext ▸ p.spells hspells, hfits⟩

end DriveClient.Json
