import DriveClient.Decimal.Layout
import DriveClient.Double.Arith

/-!
# Quantities

Rounding of a number for display, and the choice of a unit for a count of bytes. Units are binary:
each is 1024 times the one before.
-/

namespace DriveClient

namespace Quantity

/-- The value rounded to some decimal places, a half going away from zero. A result of zero is
always positive, so that no sign is shown on it. Counts of places from `2^31` on are read as
signed words, that is as places before the point. -/
def roundTo (value : Double) (places : UInt32) : Double :=
  let factor := (Double.ofNat 10).pow places.toInt32.toInt
  let rounded := (value * factor).round / factor
  if rounded.numEq .zero then .zero else rounded

/-- The text of a quantity: two decimal places at most. -/
def toText (value : Double) : String := (roundTo value 2).toText

end Quantity

/-- Units for counts of bytes. -/
inductive ByteUnit where
  | byte
  | kilobyte
  | megabyte
  | gigabyte
deriving DecidableEq

namespace ByteUnit

/-- Bytes in one of the unit. -/
def size : ByteUnit → Nat
  | .byte => 1
  | .kilobyte => 1024
  | .megabyte => 1048576
  | .gigabyte => 1073741824

/-- The symbol of the unit. -/
def symbol : ByteUnit → String
  | .byte => "B"
  | .kilobyte => "KB"
  | .megabyte => "MB"
  | .gigabyte => "GB"

/-- The units that have a symbol with a prefix, the smallest first. -/
def multiples : List ByteUnit := [.kilobyte, .megabyte, .gigabyte]

/-- The largest unit that is not larger than a count of bytes. -/
def fitting (bytes : Nat) : ByteUnit :=
  if gigabyte.size ≤ bytes then .gigabyte
  else if megabyte.size ≤ bytes then .megabyte
  else if kilobyte.size ≤ bytes then .kilobyte
  else .byte

/-- A count of bytes in a unit. -/
def scale (unit : ByteUnit) (bytes : Nat) : Double := Double.ofNat bytes / Double.ofNat unit.size

end ByteUnit

end DriveClient
