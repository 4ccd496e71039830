import DriveClient.Decimal.Basic

/-!
# The shortest decimal of a double

Among the decimals that read back as a given double, the ones with the fewest digits, and of those
the nearest. A double is a whole number of quanta and a quantum is `5^1074 / 10^1074`, so its
exact decimal is a natural number with the last digit at `10^-1074`. A decimal with `n` digits
near it is found among the two neighbours of that number on the grid of its first `n` digits.
-/

namespace DriveClient.Decimal

/-- Which of two equally near decimals is taken: the larger, or the one with an even last digit. -/
inductive Tie where
  | up
  | toEven
deriving DecidableEq

/-- The exact decimal of a count of quanta. -/
def exact (quanta : Nat) : Decimal := ⟨quanta * Nat.pow 5 1074, -1074⟩

/-- How many decimal digits a natural number has. -/
def width (n : Nat) : Nat := (Nat.toDigits 10 n).length

/-- Whether a decimal is read as this count of quanta. -/
def ReadsAs (d : Decimal) (quanta : Nat) : Bool :=
  match d.toDouble false with
  | .finite _ found _ => found = quanta
  | _ => false

/-- The one of two neighbours on a grid that reads back as `quanta`, if one does: of both the
nearer, and of equally near ones the one that `tie` prefers. The exact decimal is `rest` above the
lower neighbour, and the neighbours are `grid` apart. -/
def neighbour? (tie : Tie) (quanta rest grid : Nat) (lower upper : Decimal) : Option Decimal :=
  match lower.ReadsAs quanta, upper.ReadsAs quanta with
  | true, true =>
    if 2 * rest < grid then some lower
    else if grid < 2 * rest then some upper
    else match tie with
      | .up => some upper
      | .toEven => if lower.digits % 2 = 0 then some lower else some upper
  | true, false => some lower
  | false, true => some upper
  | false, false => none

/-- The decimal with at most `count` leading digits that reads back as `quanta`, if one of the two
neighbours does. -/
def withDigits? (tie : Tie) (quanta count : Nat) : Option Decimal :=
  let whole := (exact quanta).digits
  let dropped := width whole - count
  let grid := Nat.pow 10 dropped
  let exponent : Int := dropped - 1074
  neighbour? tie quanta (whole % grid) grid ⟨whole / grid, exponent⟩ ⟨whole / grid + 1, exponent⟩

/-- The shortest decimal that reads back as `quanta`. Seventeen digits always suffice; the exact
decimal stands behind them so that the function needs no proof of that. -/
def shortest (tie : Tie) (quanta : Nat) : Decimal :=
  ((List.range 17).findSome? fun n => withDigits? tie quanta (n + 1)).getD (exact quanta)

end DriveClient.Decimal
