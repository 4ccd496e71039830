import DriveClient.Double.Basic

/-!
# Arithmetic on doubles

Each operation is the exact result in quanta, rounded once to the nearest double with ties to
even. Signs multiply, also on zeros and infinities, and an operation without a meaningful result
gives not-a-number. Rounding to a whole number takes a half away from zero.
-/

namespace DriveClient.Double

/-- Product. -/
def mul : Double → Double → Double
  | .finite s a _, .finite t b _ => ofQuanta (s ^^ t) (a * b) quantaPerOne
  | .finite s a _, .infinite t => if a = 0 then .nan else .infinite (s ^^ t)
  | .infinite s, .finite t b _ => if b = 0 then .nan else .infinite (s ^^ t)
  | .infinite s, .infinite t => .infinite (s ^^ t)
  | .nan, _ | _, .nan => .nan

/-- Quotient. A number over zero is an infinity, zero over zero is not a number. -/
def div : Double → Double → Double
  | .finite s a _, .finite t b _ =>
    if b = 0 then (if a = 0 then .nan else .infinite (s ^^ t))
    else ofQuanta (s ^^ t) (a * quantaPerOne) b
  | .finite s _ _, .infinite t => ofQuanta (s ^^ t) 0 1
  | .infinite s, .finite t _ _ => .infinite (s ^^ t)
  | .infinite _, .infinite _ => .nan
  | .nan, _ | _, .nan => .nan

instance : Mul Double := ⟨mul⟩

instance : Div Double := ⟨div⟩

/-- The whole number nearest to `quanta` quanta, a half going up. -/
def wholeQuanta (quanta : Nat) : Nat := (2 * quanta + quantaPerOne) / (2 * quantaPerOne)

/-- The nearest whole number with the same sign, a half going away from zero. -/
def round : Double → Double
  | .finite negative quanta _ => ofQuanta negative (wholeQuanta quanta * quantaPerOne) 1
  | x => x

/-- The natural number nearest to a double, a half going up; zero for what is negative or not
finite. -/
def roundToNat : Double → Nat
  | .finite false quanta _ => wholeQuanta quanta
  | _ => 0

/-- One step of repeated squaring for each bit of the exponent, from the lowest; every product is
rounded. The accumulator takes up the current square where the bit is set, and the last argument
counts the bits above the lowest one, so the square after the last bit is never formed. -/
def powBits (acc base : Double) (n : Nat) : (above : Nat) → Double
  | 0 => if n % 2 = 1 then acc * base else acc
  | above + 1 =>
    powBits (if n % 2 = 1 then acc * base else acc) (base * base) (n / 2) above

/-- The power of a double to a natural exponent, by repeated squaring. -/
def powNat (base : Double) (n : Nat) : Double := powBits (ofNat 1) base n n.log2

/-- The power of a double to a whole exponent; a negative one inverts the positive power. -/
def pow (base : Double) : Int → Double
  | .ofNat n => powNat base n
  | .negSucc n => ofNat 1 / powNat base (n + 1)

end DriveClient.Double
