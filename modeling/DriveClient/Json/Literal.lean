import DriveClient.Decimal.Basic
import DriveClient.Json.Fault

/-!
# Numbers in a document

A number is kept as it is written, so that a whole number can be told from one with a fraction, an
exponent or a sign. It stands for the nearest double, and it is refused when that is infinite.
-/

namespace DriveClient.Json

/-- A number as it is written: a sign, digits before the point, digits after it, and an exponent
with a sign of its own. Without a point there are no digits after it. -/
structure Literal where
  negative : Bool
  whole : List Char
  fraction : List Char
  exponent : Option (Bool × List Char)
deriving DecidableEq

namespace Literal

/-! ## Values -/

/-- The power of ten that the exponent part gives. -/
def power (n : Literal) : Int :=
  match n.exponent with
  | none => 0
  | some (negative, digits) =>
    if negative then -(Decimal.natOfDigits digits : Int) else Decimal.natOfDigits digits

/-- The number without its sign. -/
def magnitude (n : Literal) : Decimal :=
  ⟨Decimal.natOfDigits (n.whole ++ n.fraction), n.power - n.fraction.length⟩

/-- The double nearest to the number. This rounds correctly, whatever the number of digits. A reader
that is not asked to round-trip doubles documents its best effort only, and may then give a neighbour
of this double. -/
def toDouble (n : Literal) : Double := n.magnitude.toDouble n.negative

/-- The number as a word of 64 bits: no sign, no fraction, no exponent, and small enough. -/
def toUInt64? (n : Literal) : Option UInt64 :=
  if n.negative = false ∧ n.fraction = [] ∧ n.exponent = none ∧
      Decimal.natOfDigits n.whole < UInt64.size then
    some (UInt64.ofNat (Decimal.natOfDigits n.whole))
  else none

/-! ## Reading -/

/-- The fault of a text that ends inside a number. A reader that only passes over the number takes
the end for a wrong character. -/
def endFault : Care → Cause
  | .full => .endInValue
  | .pass => .badNumber

/-- Reads digits, of which there must be one. -/
def readDigits (care : Care) : List Char → Except Stop (List Char × List Char)
  | [] => .error (.atEnd (endFault care))
  | c :: rest =>
    if c.isDigit then
      .ok ((c :: rest).takeWhile Char.isDigit, (c :: rest).dropWhile Char.isDigit)
    else .error (.upon .badNumber (c :: rest))

/-- Reads the digits before the point. No digit follows a zero at the start. -/
def readWhole (care : Care) : List Char → Except Stop (List Char × List Char)
  | '0' :: rest =>
    match rest with
    | c :: _ => if c.isDigit then .error (.upon .badNumber rest) else .ok (['0'], rest)
    | [] => .ok (['0'], [])
  | text => readDigits care text

/-- Reads a fraction, if there is one. -/
def readFraction (care : Care) : List Char → Except Stop (List Char × List Char)
  | '.' :: rest => readDigits care rest
  | text => .ok ([], text)

/-- Reads an exponent, if there is one. -/
def readExponent (care : Care) : List Char → Except Stop (Option (Bool × List Char) × List Char)
  | [] => .ok (none, [])
  | c :: rest =>
    if c = 'e' ∨ c = 'E' then do
      let (negative, digits) := Decimal.takeSign rest
      let (digits, rest) ← readDigits care digits
      return (some (negative, digits), rest)
    else .ok (none, c :: rest)

/-- Reads a number without looking at its size. -/
def readAny (care : Care) (text : List Char) : Except Stop (Literal × List Char) := do
  let (negative, text) := match text with
    | '-' :: rest => (true, rest)
    | rest => (false, rest)
  let (whole, text) ← readWhole care text
  let (fraction, text) ← readFraction care text
  let (exponent, text) ← readExponent care text
  return (⟨negative, whole, fraction, exponent⟩, text)

/-- The largest exponent that is read to its end. -/
def exponentLimit : Nat := 2147483647

/-- How many digits stand after the one with which an exponent passes the limit. -/
def digitsPastLimit (seen : Nat) : List Char → Option Nat
  | [] => none
  | c :: rest =>
    if exponentLimit < 10 * seen + Decimal.digitValue c then some rest.length
    else digitsPastLimit (10 * seen + Decimal.digitValue c) rest

/-- Where a number proves too large, as the count of its characters that need not be read: at the
digit with which a positive exponent passes the limit, else at its end. -/
def tooLarge? (n : Literal) : Option Nat :=
  if n.toDouble.isFinite then none
  else match n.exponent with
    | some (false, digits) => some ((digitsPastLimit 0 digits).getD 0)
    | _ => some 0

/-- Reads a number. One that is asked for must not be too large. -/
def read (care : Care) (text : List Char) : Except Stop (Literal × List Char) := do
  let (n, rest) ← readAny care text
  match care, n.tooLarge? with
  | .full, some unread => .error ⟨.numberTooLarge, bytes rest + unread⟩
  | _, _ => return (n, rest)

end Literal

end DriveClient.Json
