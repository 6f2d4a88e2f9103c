/-! Integers of 64 bits. Every operation is exact or has no result. -/

namespace Script

/-- The value of a run of decimal digits. -/
def digitsValue (ds : List Char) : Nat :=
  ds.foldl (fun n d => 10 * n + (d.toNat - '0'.toNat)) 0

/-- The number that one or more ASCII digits denote. -/
def readDigits (ds : List Char) : Option Nat :=
  if ds ≠ [] ∧ ds.all Char.isDigit then some (digitsValue ds) else none

namespace Integer

/-- The integers that fit in 64 bits, from `-2 ^ 63` up to `2 ^ 63`, which does not. -/
def Fits (n : Int) : Prop :=
  -9223372036854775808 ≤ n ∧ n < 9223372036854775808

instance (n : Int) : Decidable (Fits n) :=
  inferInstanceAs (Decidable (_ ∧ _))

/-- The 64-bit integer equal to `n`, if there is one. -/
def exact (n : Int) : Option Int64 :=
  if Fits n then some (Int64.ofInt n) else none

/-- Reads one or more digits, with or without a sign before them, that stay within 64 bits. -/
def read (cs : List Char) : Option Int64 :=
  match cs with
  | '-' :: ds => (readDigits ds).bind fun n => exact (-(n : Int))
  | '+' :: ds => (readDigits ds).bind fun n => exact n
  | ds => (readDigits ds).bind fun n => exact n

def text (n : Int64) : String :=
  (if n.toInt < 0 then "-" else "") ++ Nat.repr n.toInt.natAbs

/-- The double nearest to an integer, a tie going to the even one. -/
def toDouble (n : Int64) : Float :=
  Float.ofInt n.toInt

def add (l r : Int64) : Option Int64 := exact (l.toInt + r.toInt)

def sub (l r : Int64) : Option Int64 := exact (l.toInt - r.toInt)

def mul (l r : Int64) : Option Int64 := exact (l.toInt * r.toInt)

def neg (n : Int64) : Option Int64 := exact (-n.toInt)

/-- The quotient rounded towards minus infinity: the one rounded towards zero, or one less where that
one leaves a remainder and the signs differ. -/
def floorDiv (l r : Int64) : Option Int64 :=
  (exact (l.toInt.tdiv r.toInt)).bind fun q =>
    if l.toInt.tmod r.toInt ≠ 0 ∧ decide (l.toInt < 0) ≠ decide (r.toInt < 0) then sub q 1
    else some q

/-- The remainder of the quotient rounded towards zero. It counts as too large with that quotient,
which happens to the least integer divided by minus one. -/
def rem (l r : Int64) : Option Int64 :=
  (exact (l.toInt.tdiv r.toInt)).bind fun _ => exact (l.toInt.tmod r.toInt)

/-- Exact powers, for exponents below `2 ^ 32`. The powers of -1, 0 and 1 repeat with period two,
and any other base leaves the 64-bit range before its 64th power. -/
def pow (l r : Int64) : Option Int64 :=
  let e := r.toInt.toNat
  if r.toInt < 0 ∨ 4294967296 ≤ e then none
  else if l.toInt.natAbs ≤ 1 then exact (l.toInt.pow (if e < 2 then e else 2 + e % 2))
  else if e < 64 then exact (l.toInt.pow e)
  else none

end Integer

end Script
