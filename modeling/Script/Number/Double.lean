/-! Doubles by their bits, and their exact remainder. -/

namespace Script.Double

/-- The mantissas of most doubles lie from `2 ^ 52` up to the double of that. -/
def leading : Nat := 4503599627370496

/-- The number `mantissa · 2 ^ exponent` with a sign, which zero has too. -/
structure Binary where
  negative : Bool
  mantissa : Nat
  exponent : Int
deriving DecidableEq

/-- What the bits of a double stand for. -/
inductive Form
  | nan
  | infinite (negative : Bool)
  | finite (b : Binary)
deriving DecidableEq

def form (x : Float) : Form :=
  let bits : Nat := x.toBits.toNat
  let negative := bits / 9223372036854775808 == 1
  let exponent : Nat := bits / leading % 2048
  let fraction : Nat := bits % leading
  if exponent = 2047 then
    if fraction = 0 then .infinite negative else .nan
  else if exponent = 0 then .finite ⟨negative, fraction, -1074⟩
  else .finite ⟨negative, leading + fraction, (exponent : Int) - 1075⟩

/-- The absolute value, if it is a whole number. -/
def Binary.whole? (b : Binary) : Option Nat :=
  if 0 ≤ b.exponent then some (b.mantissa * Nat.pow 2 b.exponent.toNat)
  else
    let unit := Nat.pow 2 (-b.exponent).toNat
    if b.mantissa % unit = 0 then some (b.mantissa / unit) else none

def infinity : Float := Float.ofBits 0x7FF0000000000000

def notANumber : Float := Float.ofBits 0x7FF8000000000000

/-- The remainder of `x` by `y` for the quotient rounded towards zero. It is exact, and has the
sign of `x`. -/
def rem (x y : Float) : Float :=
  match form x, form y with
  | .finite a, .finite b =>
    if b.mantissa = 0 then notANumber
    else
      let e := min a.exponent b.exponent
      let m := a.mantissa * Nat.pow 2 (a.exponent - e).toNat
      let n := b.mantissa * Nat.pow 2 (b.exponent - e).toNat
      let r := (Float.ofNat (m % n)).scaleB e
      if a.negative then -r else r
  | .finite _, .infinite _ => x
  | _, _ => notANumber

end Script.Double
