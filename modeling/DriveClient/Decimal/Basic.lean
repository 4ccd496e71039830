import DriveClient.Double.Basic

/-!
# Decimals

A non-negative decimal is a digit string read as a natural number and a power of ten. This module
turns one into the nearest double and reads the plain and the exponent spelling of a number.
-/

namespace DriveClient

/-- The number `digits * 10 ^ exponent`. -/
structure Decimal where
  digits : Nat
  exponent : Int
deriving DecidableEq

namespace Decimal

/-- The double nearest to a decimal with the given sign.

A number of at least `10 ^ 400` is past every double and one below `10 ^ -400` rounds to zero;
both are settled before any power of ten is formed. -/
def toDouble (negative : Bool) (d : Decimal) : Double :=
  if d.digits = 0 then .ofQuanta negative 0 1
  else if d.exponent > 400 then .infinite negative
  else if d.exponent + d.digits.log2 + 1 < -400 then .ofQuanta negative 0 1
  else match d.exponent with
    | .ofNat k => .ofQuanta negative (d.digits * Nat.pow 10 k * quantaPerOne) 1
    | .negSucc k => .ofQuanta negative (d.digits * quantaPerOne) (Nat.pow 10 (k + 1))

/-! ## Reading -/

/-- Value of a decimal digit. -/
def digitValue (c : Char) : Nat := c.toNat - '0'.toNat

/-- The natural number that a list of decimal digits spells, the most significant first. -/
def natOfDigits (cs : List Char) : Nat := cs.foldl (fun n c => 10 * n + digitValue c) 0

/-- A sign, if there is one, and what follows it. -/
def takeSign : List Char → Bool × List Char
  | '-' :: rest => (true, rest)
  | '+' :: rest => (false, rest)
  | rest => (false, rest)

/-- The value of an exponent part: nothing at all, or a letter `e`, a sign and digits. -/
def readExponent? : List Char → Option Int
  | [] => some 0
  | c :: rest =>
    if c = 'e' ∨ c = 'E' then
      let (negative, digits) := takeSign rest
      if digits ≠ [] ∧ digits.all Char.isDigit then
        some (if negative then -(natOfDigits digits : Int) else natOfDigits digits)
      else none
    else none

/-- Reads digits with an optional fraction and an optional exponent. -/
def read? (cs : List Char) : Option Decimal :=
  let whole := cs.takeWhile Char.isDigit
  let (fraction, rest) :=
    match cs.dropWhile Char.isDigit with
    | '.' :: more => (more.takeWhile Char.isDigit, more.dropWhile Char.isDigit)
    | rest => ([], rest)
  if whole ++ fraction = [] then none
  else
    (readExponent? rest).map fun exponent =>
      ⟨natOfDigits (whole ++ fraction), exponent - fraction.length⟩

end Decimal

/-- Reads a double from its text: a decimal with an optional sign, an infinity or not-a-number. -/
def Double.read? (text : String) : Option Double :=
  let (negative, rest) := Decimal.takeSign text.toList
  if String.ofList rest = "inf" then some (.infinite negative)
  else if String.ofList rest = "NaN" then some .nan
  else (Decimal.read? rest).map (Decimal.toDouble negative)

end DriveClient
