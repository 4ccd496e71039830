import DriveClient.Json.Fault
import DriveClient.Text.Hex

/-!
# Strings in a document

Reading and writing what stands between quotes. Written text escapes quotes, backslashes and
control characters and nothing else; read text may escape any character, one beyond sixteen bits
by the two surrogates that spell it. One character after the other is read, each as it stands
(`readChars_plain`) or by its escape (`readChars_escape`).
-/

namespace DriveClient.Json

/-! ## Reading -/

/-- The character that a backslash and a letter stand for. -/
def shortEscape? : Char → Option Char
  | '"' => some '"'
  | '\\' => some '\\'
  | '/' => some '/'
  | 'b' => some '\x08'
  | 'f' => some '\x0c'
  | 'n' => some '\n'
  | 'r' => some '\r'
  | 't' => some '\t'
  | _ => none

/-- Reads four hexadecimal digits. Four bytes are taken before they are looked at. -/
def readHex (text : List Char) : Except Stop Nat :=
  if bytes text < 4 then .error (.atEnd .endInString)
  else match Hex.read? 0 (text.take 4) with
    | some n => .ok n
    | none => .error ⟨.badEscape, bytes text - 4⟩

/-- Whether a number is the first half of a surrogate pair. -/
def isHighSurrogate (n : Nat) : Bool := 0xD800 ≤ n && n < 0xDC00

/-- Whether a number is the second half of a surrogate pair. -/
def isLowSurrogate (n : Nat) : Bool := 0xDC00 ≤ n && n < 0xE000

/-- The character that a surrogate pair spells. -/
def pairChar (high low : Nat) : Char :=
  Char.ofNat (0x10000 + 1024 * (high - 0xD800) + (low - 0xDC00))

/-- Requires a character where the second half of a pair is due. -/
def expectInPair (c : Char) : List Char → Except Stop (List Char)
  | [] => .error (.atEnd .endInString)
  | d :: rest => if d = c then .ok rest else .error (.upon .cutSurrogatePair (d :: rest))

/-- Reads the escape of a character by its number, after the letter: the character, and how many
characters of the text it took. -/
def readNumbered (care : Care) (text : List Char) : Except Stop (Char × Nat) := do
  let n ← readHex text
  match care with
  | .pass => return (Char.ofNat n, 4)
  | .full =>
    if isLowSurrogate n then .error (.before .loneSurrogate (text.drop 4))
    else if isHighSurrogate n then do
      let rest ← expectInPair '\\' (text.drop 4)
      let rest ← expectInPair 'u' rest
      let low ← readHex rest
      if isLowSurrogate low then return (pairChar n low, 10)
      else .error (.before .loneSurrogate (rest.drop 4))
    else return (Char.ofNat n, 4)

/-- Reads an escape after the backslash: the character, and how many characters of the text it
took. -/
def readEscape (care : Care) : List Char → Except Stop (Char × Nat)
  | [] => .error (.atEnd .endInString)
  | c :: rest =>
    match shortEscape? c with
    | some d => .ok (d, 1)
    | none =>
      if c = 'u' then do
        let (d, taken) ← readNumbered care rest
        return (d, taken + 1)
      else .error (.upon .badEscape (c :: rest))

/-- Reads a string after its opening quote. The first argument counts characters that an escape
has taken already. -/
def readChars (care : Care) : (taken : Nat) → List Char → Except Stop (List Char × List Char)
  | _, [] => .error (.atEnd .endInString)
  | taken + 1, _ :: rest => readChars care taken rest
  | 0, c :: rest =>
    if c = '"' then .ok ([], rest)
    else if c = '\\' then do
      let (d, taken) ← readEscape care rest
      let (text, rest) ← readChars care taken rest
      return (d :: text, rest)
    else if c.toNat < 0x20 then .error (.before .controlCharacter rest)
    else do
      let (text, rest) ← readChars care 0 rest
      return (c :: text, rest)

/-- Reads a string after its opening quote. -/
def readString (care : Care) (text : List Char) : Except Stop (String × List Char) := do
  let (cs, rest) ← readChars care 0 text
  return (String.ofList cs, rest)

/-! ## Writing -/

/-- The written form of a character. -/
def escapeChar (c : Char) : List Char :=
  if c = '"' then ['\\', '"']
  else if c = '\\' then ['\\', '\\']
  else if c = '\x08' then ['\\', 'b']
  else if c = '\x0c' then ['\\', 'f']
  else if c = '\n' then ['\\', 'n']
  else if c = '\r' then ['\\', 'r']
  else if c = '\t' then ['\\', 't']
  else if c.toNat < 0x20 then
    ['\\', 'u', '0', '0', Hex.lower (c.toNat / 16), Hex.lower (c.toNat % 16)]
  else [c]

/-- The written form of a text, in quotes. -/
def quote (text : String) : String :=
  String.ofList ('"' :: text.toList.flatMap escapeChar ++ ['"'])

/-- The written form of an object, from the written forms of its values. -/
def writeObject (members : List (String × String)) : String :=
  "\x7b" ++ ",".intercalate (members.map fun (key, value) => quote key ++ ":" ++ value) ++ "\x7d"

/-! ## Reading one character -/

theorem readChars_skip (care : Care) (taken rest : List Char) :
    readChars care taken.length (taken ++ rest) = readChars care 0 rest := by
  induction taken with
  | nil => rfl
  | cons c more ih => simpa [readChars] using ih

/-- A character that needs no escape is read as it stands. -/
theorem readChars_plain (care : Care) {c : Char} (hq : c ≠ '"') (hb : c ≠ '\\')
    (hc : ¬c.toNat < 0x20) (rest : List Char) :
    readChars care 0 (c :: rest) = (readChars care 0 rest).map fun r => (c :: r.1, r.2) := by
  rw [readChars, if_neg hq, if_neg hb, if_neg hc]
  cases readChars care 0 rest <;> rfl

theorem readChars_escape (care : Care) {c : Char} (code : List Char) {rest : List Char}
    (h : readEscape care (code ++ rest) = .ok (c, code.length)) :
    readChars care 0 ('\\' :: (code ++ rest)) =
      (readChars care 0 rest).map fun r => (c :: r.1, r.2) := by
  rw [readChars, if_neg (by decide), if_pos rfl, h]
  simp only [bind, Except.bind, readChars_skip]
  cases readChars care 0 rest <;> rfl

theorem readEscape_short (care : Care) {letter c : Char} (h : shortEscape? letter = some c)
    (rest : List Char) : readEscape care ([letter] ++ rest) = .ok (c, 1) := by
  simp [readEscape, h]

end DriveClient.Json
