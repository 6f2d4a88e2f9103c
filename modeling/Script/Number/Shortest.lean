import Script.Number.Double

/-! The text of a double: the decimal with the fewest digits that reads back as it. -/

namespace Script.Double

/-- The number `digits · 10 ^ scale`. -/
structure Decimal where
  digits : Nat
  scale : Int
deriving DecidableEq

def digitCount (n : Nat) : Nat :=
  (Nat.toDigits 10 n).length

/-- A positive value and the ends of the interval of numbers that round to it, as multiples of
`1 / unit`. The ends belong to it when the mantissa is even. -/
structure Neighbourhood where
  low : Nat
  value : Nat
  high : Nat
  unit : Nat
  closed : Bool

/-- Below a power of two the doubles lie twice as close as above it. -/
def neighbourhood (mantissa : Nat) (exponent : Int) : Neighbourhood :=
  let scale := Nat.pow 2 (exponent - 2).toNat
  let gap := if mantissa = leading ∧ -1074 < exponent then 1 else 2
  { low := (4 * mantissa - gap) * scale
    value := 4 * mantissa * scale
    high := (4 * mantissa + 2) * scale
    unit := Nat.pow 2 (2 - exponent).toNat
    closed := mantissa % 2 == 0 }

namespace Neighbourhood

/-- Whether the decimal rounds to the value. -/
def holds (i : Neighbourhood) (d : Decimal) : Bool :=
  let x := d.digits * Nat.pow 10 d.scale.toNat * i.unit
  let grid := Nat.pow 10 (-d.scale).toNat
  if i.closed then i.low * grid ≤ x && x ≤ i.high * grid
  else i.low * grid < x && x < i.high * grid

/-- The exponent of the least power of ten above the value. -/
def magnitude (i : Neighbourhood) : Int :=
  if i.unit ≤ i.value then digitCount (i.value / i.unit)
  else 1 - (digitCount ((i.unit - 1) / i.value) : Int)

/-- Of the value's two neighbours with `n` digits, the nearer one that rounds to it. A tie goes
up. -/
def withDigits (i : Neighbourhood) (n : Nat) : Option Decimal :=
  let scale := i.magnitude - n
  let top := i.value * Nat.pow 10 (-scale).toNat
  let bottom := i.unit * Nat.pow 10 scale.toNat
  let a := top / bottom
  let down : Decimal := ⟨a, scale⟩
  let up : Decimal := if a + 1 = Nat.pow 10 n then ⟨1, scale + n⟩ else ⟨a + 1, scale⟩
  if (2 * a + 1) * bottom ≤ 2 * top then
    if i.holds up then some up else if i.holds down then some down else none
  else
    if i.holds down then some down else if i.holds up then some up else none

end Neighbourhood

/-- The decimal with the fewest digits that rounds to the double, and the nearest such one.
Seventeen digits are always enough. -/
def shortest (mantissa : Nat) (exponent : Int) : Decimal :=
  let i := neighbourhood mantissa exponent
  ((List.range 17).findSome? fun n => i.withDigits (n + 1)).getD ⟨0, 0⟩

/-- Digits with a point before the last `places` of them. -/
def pointed (ds : List Char) (places : Nat) : List Char :=
  if places < ds.length then
    ds.take (ds.length - places) ++ '.' :: ds.drop (ds.length - places)
  else '0' :: '.' :: List.replicate (places - ds.length) '0' ++ ds

/-- A decimal without exponent. -/
def Decimal.text (d : Decimal) : List Char :=
  let ds := Nat.toDigits 10 d.digits
  if 0 ≤ d.scale then ds ++ List.replicate d.scale.toNat '0'
  else pointed ds (-d.scale).toNat

/-- Whole numbers are written exactly with one zero after the point, others with the fewest digits
that read back, and never with an exponent. -/
def text (x : Float) : String :=
  match form x with
  | .nan => "NaN"
  | .infinite negative => if negative then "-inf" else "inf"
  | .finite b =>
    (if b.negative then "-" else "") ++
      match b.whole? with
      | some n => Nat.repr n ++ ".0"
      | none => String.ofList (shortest b.mantissa b.exponent).text

end Script.Double
