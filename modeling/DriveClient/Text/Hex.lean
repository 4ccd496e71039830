/-!
# Hexadecimal digits

One digit each way, and the numbers that several digits spell. Digits are read in either case.
-/

namespace DriveClient.Hex

/-- The upper-case digit for a value below sixteen. -/
def upper (n : Nat) : Char := if n < 10 then Char.ofNat (48 + n) else Char.ofNat (55 + n)

/-- The lower-case digit for a value below sixteen. -/
def lower (n : Nat) : Char := if n < 10 then Char.ofNat (48 + n) else Char.ofNat (87 + n)

/-- The value of a digit of either case. -/
def value? (c : Char) : Option Nat :=
  if '0' ≤ c ∧ c ≤ '9' then some (c.toNat - 48)
  else if 'A' ≤ c ∧ c ≤ 'F' then some (c.toNat - 55)
  else if 'a' ≤ c ∧ c ≤ 'f' then some (c.toNat - 87)
  else none

/-- Every value below sixteen is read back from its digit. -/
theorem value?_upper {n : Nat} (h : n < 16) : value? (upper n) = some n := by
  revert n
  decide

theorem value?_lower {n : Nat} (h : n < 16) : value? (lower n) = some n := by
  revert n
  decide

/-- The number that digits spell, the most significant first, after a number already read. -/
def read? (high : Nat) : List Char → Option Nat
  | [] => some high
  | c :: rest => (value? c).bind fun v => read? (16 * high + v) rest

end DriveClient.Hex
