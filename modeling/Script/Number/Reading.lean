import Script.Number.Integer
import Script.Number.Shortest

/-! Reading doubles. -/

namespace Script.Double

/-- The double nearest to `m · 10 ^ e`. Numbers above `10 ^ 309` and below `10 ^ -330` are decided
by their size alone. -/
def scientific (m : Nat) (e : Int) : Float :=
  let size := digitCount m + e
  if m = 0 ∨ size < -330 then 0
  else if 310 < size then infinity
  else Float.ofScientific m (e < 0) e.natAbs

/-- The exponent that ends a number: nothing, or a mark, a sign and digits. -/
def readExponent : List Char → Option Int
  | [] => some 0
  | mark :: cs =>
    if mark = 'e' ∨ mark = 'E' then
      match cs with
      | '-' :: ds => (readDigits ds).map fun n => -(n : Int)
      | '+' :: ds => (readDigits ds).map fun n => (n : Int)
      | ds => (readDigits ds).map fun n => (n : Int)
    else none

/-- Digits with at most one point among or beside them, then an exponent. -/
def readDecimal (cs : List Char) : Option Float :=
  let whole := cs.takeWhile Char.isDigit
  let (places, rest) :=
    match cs.dropWhile Char.isDigit with
    | '.' :: more => (more.takeWhile Char.isDigit, more.dropWhile Char.isDigit)
    | rest => ([], rest)
  if whole ++ places = [] then none
  else (readExponent rest).map fun e => scientific (digitsValue (whole ++ places)) (e - places.length)

/-- A number, or one of the words for infinity and for no number, in any case. -/
def readUnsigned (cs : List Char) : Option Float :=
  let word := String.ofList (cs.map Char.toLower)
  if word = "inf" ∨ word = "infinity" then some infinity
  else if word = "nan" then some notANumber
  else readDecimal cs

def read (cs : List Char) : Option Float :=
  match cs with
  | '-' :: rest => (readUnsigned rest).map fun x => -x
  | '+' :: rest => readUnsigned rest
  | _ => readUnsigned cs

end Script.Double
