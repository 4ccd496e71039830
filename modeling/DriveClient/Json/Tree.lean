import DriveClient.Json.Literal
import DriveClient.Json.Text

/-!
# Documents

A document as a tree, with the members of an object in their order and with repetitions. Reading
notes the first fault of the text. Brackets may be nested 127 deep.
-/

namespace DriveClient.Json

/-- A value of a document. -/
inductive Tree where
  | null
  | bool (value : Bool)
  | number (literal : Literal)
  | string (text : String)
  | array (elements : List Tree)
  | object (members : List (String × Tree))

/-! ## Parts -/

/-- Whether a character may stand between the parts of a document. -/
def isBlank (c : Char) : Bool := c = ' ' || c = '\t' || c = '\n' || c = '\r'

/-- The text after its blanks. -/
def skipBlanks (text : List Char) : List Char := text.dropWhile isBlank

/-- Reads the letters that are left of a word. -/
def readWord : (letters : List Char) → List Char → Except Stop (List Char)
  | [], text => .ok text
  | _ :: _, [] => .error (.atEnd .endInValue)
  | letter :: letters, c :: rest =>
    if c = letter then readWord letters rest else .error (.upon .noWord (c :: rest))

/-- Reads the colon after a key. -/
def readColon (text : List Char) : Except Stop (List Char) :=
  match skipBlanks text with
  | [] => .error (.atEnd .endInObject)
  | c :: rest => if c = ':' then .ok rest else .error (.upon .noColon (c :: rest))

/-- What comes next in a list or an object: the end, and the text after it, or an item, and the
text from where it begins. -/
inductive Next where
  | close (rest : List Char)
  | item (rest : List Char)

/-- Finds the next element of a list. Commas stand between elements only. -/
def nextElement (first : Bool) (text : List Char) : Except Stop Next :=
  match skipBlanks text with
  | [] => .error (.atEnd .endInList)
  | c :: rest =>
    if c = ']' then .ok (.close rest)
    else if first then .ok (.item (c :: rest))
    else if c = ',' then
      match skipBlanks rest with
      | [] => .error (.atEnd .endInValue)
      | d :: more =>
        if d = ']' then .error (.upon .commaAtEnd (d :: more)) else .ok (.item (d :: more))
    else .error (.upon .noCommaOrBracket (c :: rest))

/-- Finds the next member of an object; its text is taken from after the opening quote of the
key. -/
def nextMember (first : Bool) (text : List Char) : Except Stop Next :=
  match skipBlanks text with
  | [] => .error (.atEnd .endInObject)
  | c :: rest =>
    if c = '\x7d' then .ok (.close rest)
    else if first then
      if c = '"' then .ok (.item rest) else .error (.upon .keyNotString (c :: rest))
    else if c = ',' then
      match skipBlanks rest with
      | [] => .error (.atEnd .endInValue)
      | d :: more =>
        if d = '"' then .ok (.item more)
        else if d = '\x7d' then .error (.upon .commaAtEnd (d :: more))
        else .error (.upon .keyNotString (d :: more))
    else .error (.upon .noCommaOrBrace (c :: rest))

/-! ## Reading -/

/-- How deep brackets may be nested. -/
def maxDepth : Nat := 127

/-- Whether another bracket may open, given how many more are allowed inside the ones now open. -/
def mayOpen (care : Care) (room : Nat) : Bool := care = .pass || room ≠ 0

mutual

/-- Reads a value. `room` is how many more brackets may open inside each other, and `fuel` bounds
the number of steps. -/
def readValue (care : Care) : (fuel room : Nat) → List Char → Except Stop (Tree × List Char)
  | 0, _, text => .error (.upon .tooDeep text)
  | fuel + 1, room, text =>
    match skipBlanks text with
    | [] => .error (.atEnd .endInValue)
    | c :: rest =>
      if c = 'n' then do return (.null, ← readWord ['u', 'l', 'l'] rest)
      else if c = 't' then do return (.bool true, ← readWord ['r', 'u', 'e'] rest)
      else if c = 'f' then do return (.bool false, ← readWord ['a', 'l', 's', 'e'] rest)
      else if c = '-' ∨ c.isDigit then do
        let (n, rest) ← Literal.read care (c :: rest)
        return (.number n, rest)
      else if c = '"' then do
        let (s, rest) ← readString care rest
        return (.string s, rest)
      else if c = '[' then
        if mayOpen care room then do
          let (elements, rest) ← readElements care fuel (room - 1) true rest
          return (.array elements, rest)
        else .error (.upon .tooDeep (c :: rest))
      else if c = '\x7b' then
        if mayOpen care room then do
          let (members, rest) ← readMembers care fuel (room - 1) true rest
          return (.object members, rest)
        else .error (.upon .tooDeep (c :: rest))
      else .error (.upon .noValue (c :: rest))

/-- Reads the elements of a list and its closing bracket. -/
def readElements (care : Care) :
    (fuel room : Nat) → (first : Bool) → List Char → Except Stop (List Tree × List Char)
  | 0, _, _, text => .error (.upon .tooDeep text)
  | fuel + 1, room, first, text => do
    match ← nextElement first text with
    | .close rest => return ([], rest)
    | .item rest =>
      let (element, rest) ← readValue care fuel room rest
      let (elements, rest) ← readElements care fuel room false rest
      return (element :: elements, rest)

/-- Reads the members of an object and its closing brace. -/
def readMembers (care : Care) :
    (fuel room : Nat) → (first : Bool) → List Char → Except Stop (List (String × Tree) × List Char)
  | 0, _, _, text => .error (.upon .tooDeep text)
  | fuel + 1, room, first, text => do
    match ← nextMember first text with
    | .close rest => return ([], rest)
    | .item rest =>
      let (key, rest) ← readString care rest
      let rest ← readColon rest
      let (value, rest) ← readValue care fuel room rest
      let (members, rest) ← readMembers care fuel room false rest
      return ((key, value) :: members, rest)

end

/-- Steps that suffice for a text: every step but the one from a list to its element takes a
character. -/
def stepsFor (text : List Char) : Nat := 2 * text.length + 2

/-- Reads the value at the start of a text. -/
def readTree (text : List Char) : Except Stop (Tree × List Char) :=
  readValue .full (stepsFor text) maxDepth text

/-- Requires that only blanks are left. -/
def readEnd (text : List Char) : Except Stop Unit :=
  match skipBlanks text with
  | [] => .ok ()
  | rest => .error (.upon .textAfterEnd rest)

end DriveClient.Json
