/-!
# Faults in a document

What can be wrong with the text of a JSON document, the words for it, and where it was noticed.
Readers pass on the rest of the text, so they note a place as the number of bytes not yet read; it
becomes a line and a column, counted in bytes, once the whole text is at hand.
-/

namespace DriveClient.Json

/-- What is wrong. -/
inductive Cause where
  | endInValue
  | endInList
  | endInObject
  | endInString
  | noValue
  | noWord
  | noColon
  | noCommaOrBracket
  | noCommaOrBrace
  | commaAtEnd
  | textAfterEnd
  | keyNotString
  | badNumber
  | numberTooLarge
  | badEscape
  | loneSurrogate
  | cutSurrogatePair
  | controlCharacter
  | tooDeep
deriving DecidableEq

/-- Two kinds of faulty text: one that ends too early, and one that is wrong as far as it goes. -/
inductive Kind where
  | incomplete
  | malformed
deriving DecidableEq

/-- Whether a cause is the end of the text. -/
def Cause.kind : Cause → Kind
  | .endInValue | .endInList | .endInObject | .endInString => .incomplete
  | _ => .malformed

/-- A cause in words. -/
def Cause.message : Cause → String
  | .endInValue => "EOF while parsing a value"
  | .endInList => "EOF while parsing a list"
  | .endInObject => "EOF while parsing an object"
  | .endInString => "EOF while parsing a string"
  | .noValue => "expected value"
  | .noWord => "expected ident"
  | .noColon => "expected \x60:\x60"
  | .noCommaOrBracket => "expected \x60,\x60 or \x60]\x60"
  | .noCommaOrBrace => "expected \x60,\x60 or \x60\x7d\x60"
  | .commaAtEnd => "trailing comma"
  | .textAfterEnd => "trailing characters"
  | .keyNotString => "key must be a string"
  | .badNumber => "invalid number"
  | .numberTooLarge => "number out of range"
  | .badEscape => "invalid escape"
  | .loneSurrogate => "lone leading surrogate in hex escape"
  | .cutSurrogatePair => "unexpected end of hex escape"
  | .controlCharacter => "control character (\\u0000-\\u001F) found while parsing a string"
  | .tooDeep => "recursion limit exceeded"

/-! ## Places -/

/-- Length of a text in bytes. -/
def bytes (text : List Char) : Nat := text.foldr (fun c n => c.utf8Size + n) 0

/-- A fault as a reader notes it: the cause, and how many bytes were then not yet read. -/
structure Stop where
  cause : Cause
  unread : Nat
deriving DecidableEq

/-- The text ended. -/
def Stop.atEnd (cause : Cause) : Stop := ⟨cause, 0⟩

/-- The first byte of what is left is the fault. -/
def Stop.upon (cause : Cause) (left : List Char) : Stop := ⟨cause, bytes left - 1⟩

/-- What was read last is the fault. -/
def Stop.before (cause : Cause) (left : List Char) : Stop := ⟨cause, bytes left⟩

/-- Line and column after some bytes of a text. A newline begins a line at column zero, and of a
character that is read in part only that part counts. -/
def placeAfter : (read line column : Nat) → List Char → Nat × Nat
  | 0, line, column, _ => (line, column)
  | _, line, column, [] => (line, column)
  | read + 1, line, column, c :: rest =>
    if c = '\n' then placeAfter read (line + 1) 0 rest
    else placeAfter (read + 1 - c.utf8Size) line (column + min (read + 1) c.utf8Size) rest

/-- A fault with its place in the text. -/
structure Fault where
  cause : Cause
  line : Nat
  column : Nat
deriving DecidableEq

/-- Finds the place of a fault. -/
def Stop.locate (stop : Stop) (text : List Char) : Fault :=
  let place := placeAfter (bytes text - stop.unread) 1 0 text
  ⟨stop.cause, place.1, place.2⟩

/-- A fault in words, with its place. -/
def Fault.message (fault : Fault) : String :=
  s!"{fault.cause.message} at line {fault.line} column {fault.column}"

/-- How closely a reader looks. A value that is asked for is checked in full; one that nobody asks
for is only passed over, whatever its depth, the size of its numbers or the pairing of its
surrogates. -/
inductive Care where
  | full
  | pass
deriving DecidableEq

end DriveClient.Json
