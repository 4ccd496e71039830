import DriveClient.Json.Text
import DriveClient.Percentage
import DriveClient.Quantity

/-!
# Storage usage

How much of the storage is used, as two quantities in one unit. It is only displayed, so nothing
says that the used part is no larger than the total.
-/

namespace DriveClient

/-- Used and total storage in a unit. -/
structure Usage where
  used : Double
  total : Double
  unit : String
deriving DecidableEq

namespace Usage

/-- The usage that is shown until the service reports one. -/
def initial : Usage := ⟨Decimal.toDouble false ⟨739, -2⟩, .ofNat 15, "GB"⟩

/-- The usage for two counts of bytes, both in the unit that fits the total. -/
def ofBytes (used total : Nat) : Usage :=
  let unit := ByteUnit.fitting total
  ⟨unit.scale used, unit.scale total, unit.symbol⟩

/-- The used part of the total, which is not finite when the total is zero. -/
def ratio (usage : Usage) : Double := usage.used / usage.total

/-- The usage in words. -/
def details (usage : Usage) : String :=
  s!"{Quantity.toText usage.used}{usage.unit} of {Quantity.toText usage.total}{usage.unit}"

/-- The bar of a usage. -/
def bar (usage : Usage) : Logged Bar := Bar.ofValue usage.ratio

/-- Whether two usages have equal numbers and the same unit. -/
def sameAs (a b : Usage) : Bool := a.used.numEq b.used && a.total.numEq b.total && a.unit = b.unit

/-- The written form of a number, with a word for what is not finite. -/
def writeNumber (v : Double) : String := v.toDocumentText?.getD "null"

/-- The written form of a usage. -/
def toJson (usage : Usage) : String :=
  Json.writeObject
    [("used", writeNumber usage.used), ("total", writeNumber usage.total),
     ("unit", Json.quote usage.unit)]

end Usage

end DriveClient
