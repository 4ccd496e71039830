import DriveClient.Json.Tree
import DriveClient.Proofs.Text.Only

/-!
# The grammar of documents

Which texts spell which trees, told without a reader: strings, numbers, and values with blanks
around them. The rules are those of the notation itself, so a tree may be nested to any depth and
a number may have any size; what the reader can take in is said apart (`Fits`), and a `Document`
is a text that does both.

A surrogate that stands alone spells no character, so a string with one in it spells no tree.
-/

namespace DriveClient.Json

/-! ## Strings -/

/-- Four hexadecimal digits for a number. -/
structure FourDigits (digits : List Char) (n : Nat) : Prop where
  length_eq : digits.length = 4
  read_eq : Hex.read? 0 digits = some n

/-- The ways to spell a character: as it stands, by a letter, by its number, or by the two numbers
of a surrogate pair. -/
inductive SpellsChar : Char → List Char → Prop where
  | plain {c : Char} (hq : c ≠ '"') (hb : c ≠ '\\') (hc : ¬c.toNat < 0x20) : SpellsChar c [c]
  | short {letter c : Char} (h : shortEscape? letter = some c) : SpellsChar c ['\\', letter]
  | numbered {c : Char} {digits : List Char} (h : FourDigits digits c.toNat) :
      SpellsChar c ('\\' :: 'u' :: digits)
  | pair {c : Char} {high low : List Char} {m n : Nat} (hm : FourDigits high (0xD800 + m))
      (hn : FourDigits low (0xDC00 + n)) (hml : m < 1024) (hnl : n < 1024)
      (hc : c.toNat = 0x10000 + 1024 * m + n) :
      SpellsChar c ('\\' :: 'u' :: high ++ '\\' :: 'u' :: low)

/-- The spellings of characters in a row. -/
inductive SpellsChars : List Char → List Char → Prop where
  | nil : SpellsChars [] []
  | cons {c : Char} {code : List Char} {cs codes : List Char} (h : SpellsChar c code)
      (hs : SpellsChars cs codes) : SpellsChars (c :: cs) (code ++ codes)

/-- The spellings of a string, in quotes. -/
def SpellsText (s : String) (text : List Char) : Prop :=
  ∃ codes, SpellsChars s.toList codes ∧ text = '"' :: codes ++ ['"']

/-! ## Numbers -/

/-- One digit or more. -/
def IsDigits (cs : List Char) : Prop := cs ≠ [] ∧ ∀ c ∈ cs, c.isDigit

/-- The digits before the point, with no zero in front of others. -/
def IsWhole (cs : List Char) : Prop := IsDigits cs ∧ (cs.head? = some '0' → cs = ['0'])

/-- The spelling of the digits after the point. Without any there is no point. -/
inductive SpellsFraction : List Char → List Char → Prop where
  | absent : SpellsFraction [] []
  | present {digits : List Char} (h : IsDigits digits) : SpellsFraction digits ('.' :: digits)

/-- The spelling of an exponent, with a sign when it is negative and with or without one when it
is not. -/
inductive SpellsExponent : Option (Bool × List Char) → List Char → Prop where
  | absent : SpellsExponent none []
  | unsigned {e : Char} {digits : List Char} (he : e = 'e' ∨ e = 'E') (h : IsDigits digits) :
      SpellsExponent (some (false, digits)) (e :: digits)
  | plus {e : Char} {digits : List Char} (he : e = 'e' ∨ e = 'E') (h : IsDigits digits) :
      SpellsExponent (some (false, digits)) (e :: '+' :: digits)
  | minus {e : Char} {digits : List Char} (he : e = 'e' ∨ e = 'E') (h : IsDigits digits) :
      SpellsExponent (some (true, digits)) (e :: '-' :: digits)

/-- The sign of a number as it is written. -/
def signText (negative : Bool) : List Char := if negative then ['-'] else []

/-- The spelling of a number. -/
inductive SpellsNumber : Literal → List Char → Prop where
  | intro {n : Literal} {fraction exponent : List Char} (hw : IsWhole n.whole)
      (hf : SpellsFraction n.fraction fraction) (he : SpellsExponent n.exponent exponent) :
      SpellsNumber n (signText n.negative ++ n.whole ++ fraction ++ exponent)

/-! ## Values -/

/-- Nothing but blanks. -/
abbrev Blank (cs : List Char) : Prop := Text.Only isBlank cs

/-- What a piece of a document can be: a value, a value between blanks, what stands between the
brackets of a list that is not empty, a member, and what stands between the braces of an object
that is not empty. -/
inductive Phrase where
  | value (tree : Tree)
  | element (tree : Tree)
  | elements (trees : List Tree)
  | member (name : String) (tree : Tree)
  | members (members : List (String × Tree))

/-- The spellings of each phrase. -/
inductive Spells : Phrase → List Char → Prop where
  | nullWord : Spells (.value .null) ['n', 'u', 'l', 'l']
  | trueWord : Spells (.value (.bool true)) ['t', 'r', 'u', 'e']
  | falseWord : Spells (.value (.bool false)) ['f', 'a', 'l', 's', 'e']
  | number {n : Literal} {text : List Char} (h : SpellsNumber n text) :
      Spells (.value (.number n)) text
  | string {s : String} {text : List Char} (h : SpellsText s text) :
      Spells (.value (.string s)) text
  | emptyArray {blanks : List Char} (hb : Blank blanks) :
      Spells (.value (.array [])) ('[' :: blanks ++ [']'])
  | array {trees : List Tree} {text : List Char} (h : Spells (.elements trees) text) :
      Spells (.value (.array trees)) ('[' :: text ++ [']'])
  | emptyObject {blanks : List Char} (hb : Blank blanks) :
      Spells (.value (.object [])) ('\x7b' :: blanks ++ ['\x7d'])
  | object {members : List (String × Tree)} {text : List Char} (h : Spells (.members members) text) :
      Spells (.value (.object members)) ('\x7b' :: text ++ ['\x7d'])
  | element {tree : Tree} {before text after : List Char} (hb : Blank before)
      (h : Spells (.value tree) text) (ha : Blank after) :
      Spells (.element tree) (before ++ text ++ after)
  | lastElement {tree : Tree} {text : List Char} (h : Spells (.element tree) text) :
      Spells (.elements [tree]) text
  | moreElements {tree : Tree} {trees : List Tree} {text texts : List Char}
      (h : Spells (.element tree) text) (hs : Spells (.elements trees) texts) :
      Spells (.elements (tree :: trees)) (text ++ ',' :: texts)
  | member {name : String} {tree : Tree} {before key after text : List Char} (hb : Blank before)
      (hk : SpellsText name key) (ha : Blank after) (h : Spells (.element tree) text) :
      Spells (.member name tree) (before ++ key ++ after ++ ':' :: text)
  | lastMember {name : String} {tree : Tree} {text : List Char}
      (h : Spells (.member name tree) text) : Spells (.members [(name, tree)]) text
  | moreMembers {name : String} {tree : Tree} {members : List (String × Tree)}
      {text texts : List Char} (h : Spells (.member name tree) text)
      (hs : Spells (.members members) texts) :
      Spells (.members ((name, tree) :: members)) (text ++ ',' :: texts)

/-! ## Limits -/

/-- Whether a tree has brackets nested at most `room` deep and no number past the largest
double. -/
inductive Fits : (room : Nat) → Tree → Prop where
  | null {room : Nat} : Fits room .null
  | bool {room : Nat} (value : Bool) : Fits room (.bool value)
  | number {room : Nat} {n : Literal} (h : n.toDouble.isFinite) : Fits room (.number n)
  | string {room : Nat} (s : String) : Fits room (.string s)
  | array {room : Nat} {trees : List Tree} (h : ∀ tree ∈ trees, Fits room tree) :
      Fits (room + 1) (.array trees)
  | object {room : Nat} {members : List (String × Tree)} (h : ∀ m ∈ members, Fits room m.2) :
      Fits (room + 1) (.object members)

/-- A text that spells a tree within the limits. -/
structure Document (text : String) (tree : Tree) : Prop where
  spells : Spells (.element tree) text.toList
  fits : Fits maxDepth tree

end DriveClient.Json
