/-! The lines of a text. -/

namespace Script.Text

/-- A carriage return that ends a line belongs to its line break. -/
def dropReturn (line : List Char) : List Char :=
  if line.getLast? = some '\r' then line.dropLast else line

/-- The lines of a text. Each ends at a line feed or at a carriage return and a line feed; an
empty rest after the last line feed is no line. -/
def lines (cs : List Char) : List (List Char) :=
  let pieces := cs.splitOn '\n'
  pieces.dropLast.map dropReturn ++ pieces.getLast?.toList.filter (· ≠ [])

end Script.Text
