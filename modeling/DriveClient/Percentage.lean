import DriveClient.Decimal.Layout
import DriveClient.Double.Arith
import DriveClient.Log

/-!
# Percentages

A bar is fed a ratio from zero to one or a percentage above one and up to a hundred. Either
becomes a whole percentage; anything else is refused, and the bar then shows zero and says why.
-/

namespace DriveClient

/-- A whole percentage from 0 to 100. -/
structure Percentage where
  value : Nat
  le_hundred : value ≤ 100
deriving DecidableEq

namespace Percentage

/-- An empty bar. -/
def empty : Percentage := ⟨0, by decide⟩

/-- A full bar. -/
def full : Percentage := ⟨100, by decide⟩

/-- What is missing to a hundred. -/
def complement (p : Percentage) : Percentage := ⟨100 - p.value, Nat.sub_le _ _⟩

/-- The text with a percent sign. -/
def toText (p : Percentage) : String := s!"{p.value}%"

/-- The style that makes an element this wide. -/
def width (p : Percentage) : String := s!"width: {p.value}%"

instance : Ord Percentage := ⟨fun p q => compare p.value q.value⟩

instance : Max Percentage := ⟨fun p q => if p.value < q.value then q else p⟩

/-! ## Normalization -/

/-- Why a value is no percentage. Each reason carries the value as it was given. -/
inductive Refusal where
  | outOfRange (value : Double)
  | notFinite (value : Double)
deriving DecidableEq

/-- The value that was refused. -/
def Refusal.value : Refusal → Double
  | .outOfRange v => v
  | .notFinite v => v

/-- The refusal in words. -/
def Refusal.message : Refusal → String
  | .outOfRange v => s!"Invalid percentage value: {v}"
  | .notFinite v => s!"Invalid percentage value: {v} is not a finite number"

/-- The value on the scale of a hundred: a ratio is scaled up, a percentage is taken as it is, and
exactly one is a ratio. -/
def onHundred? (v : Double) : Option Double :=
  if Double.zero.le v && v.le (.ofNat 1) then some (v * .ofNat 100)
  else if (Double.ofNat 1).lt v && v.le (.ofNat 100) then some v
  else none

/-- The whole percentage nearest to a number on the scale of a hundred, a half going up. The
minimum keeps the bound in the type; no number on the scale is cut by it. -/
def nearest (v : Double) : Percentage := ⟨min v.roundToNat 100, Nat.min_le_right _ _⟩

/-- The percentage that a value stands for. -/
def ofValue (v : Double) : Except Refusal Percentage :=
  if v.isFinite then
    match onHundred? v with
    | some scaled => .ok (nearest scaled)
    | none => .error (.outOfRange v)
  else .error (.notFinite v)

/-- The percentage that a value stands for, or zero with an error in the log. -/
def ofValueOrEmpty (v : Double) : Logged Percentage :=
  match ofValue v with
  | .ok p => pure p
  | .error refusal => do
    Logged.tell .error refusal.message
    return empty

end Percentage

/-! ## Bars -/

/-- The two parts of a bar. -/
structure Bar where
  filled : Percentage
  remainder : Option Percentage
deriving DecidableEq

namespace Bar

/-- A bar filled to a percentage; a full one has no second part. -/
def ofPercentage (p : Percentage) : Bar :=
  ⟨p, if p = .full then none else some p.complement⟩

/-- The bar for a ratio or percentage. -/
def ofValue (v : Double) : Logged Bar := do
  return ofPercentage (← Percentage.ofValueOrEmpty v)

end Bar

end DriveClient
