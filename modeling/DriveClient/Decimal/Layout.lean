import DriveClient.Decimal.Shortest

/-!
# Writing a double

The digits of the shortest decimal, laid out in one of two ways. The plain layout has no exponent
and no fraction on whole numbers. The document layout always shows a fraction or an exponent, and
turns to an exponent when the point would stand more than 16 places to the right of the first
digit or five places or more to the left of it.
-/

namespace DriveClient

namespace Decimal

/-- The digits of `n` without the zeros at the end. -/
def significant (n : Nat) : List Char :=
  ((Nat.toDigits 10 n).reverse.dropWhile (· = '0')).reverse

/-- How many of the digits stand before the point; negative when zeros follow it. -/
def pointAfter (d : Decimal) : Int := width d.digits + d.exponent

/-- Digits with a point, and no point when the number is whole. -/
def positional (digits : List Char) (point : Int) : List Char :=
  if point ≤ 0 then '0' :: '.' :: List.replicate (-point).toNat '0' ++ digits
  else if point.toNat < digits.length then
    digits.take point.toNat ++ '.' :: digits.drop point.toNat
  else digits ++ List.replicate (point.toNat - digits.length) '0'

/-- One digit before the point and a signed exponent. -/
def scientific (digits : List Char) (point : Int) : List Char :=
  let mantissa := match digits with
    | first :: second :: more => first :: '.' :: second :: more
    | short => short
  let sign := if point - 1 < 0 then '-' else '+'
  mantissa ++ 'e' :: sign :: Nat.toDigits 10 (point - 1).natAbs

/-- The plain text of a magnitude. -/
def plain (quanta : Nat) : List Char :=
  if quanta = 0 then ['0']
  else
    let d := shortest .up quanta
    positional (significant d.digits) d.pointAfter

/-- The document text of a magnitude. -/
def documented (quanta : Nat) : List Char :=
  if quanta = 0 then ['0', '.', '0']
  else
    let d := shortest .toEven quanta
    let digits := significant d.digits
    if -5 < d.pointAfter ∧ d.pointAfter ≤ 16 then
      positional digits d.pointAfter ++
        (if d.pointAfter < digits.length then [] else ['.', '0'])
    else scientific digits d.pointAfter

end Decimal

namespace Double

/-- Puts the sign of a negative number, zero included, before its text. -/
def signed (negative : Bool) (text : List Char) : String :=
  String.ofList (if negative then '-' :: text else text)

/-- The text shown to people: plain layout, and words for what is not finite. -/
def toText : Double → String
  | .finite negative quanta _ => signed negative (Decimal.plain quanta)
  | .infinite negative => signed negative "inf".toList
  | .nan => "NaN"

/-- The text written into a document, which has no word for what is not finite. -/
def toDocumentText? : Double → Option String
  | .finite negative quanta _ => some (signed negative (Decimal.documented quanta))
  | _ => none

instance : ToString Double := ⟨toText⟩

end Double

end DriveClient
