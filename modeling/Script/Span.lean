/-! Where things stand in a source text. -/

namespace Script

/-- A stretch of source text: the offsets of its first character and of the one after its last,
and the line and column of its first character, both counted from one. -/
structure Span where
  start : Nat
  stop : Nat
  line : Nat
  column : Nat
deriving DecidableEq, Inhabited

namespace Span

/-- From the first character of `s` through the last of `t`. -/
def through (s t : Span) : Span :=
  { s with stop := max t.stop s.start }

end Span

/-- A place in a text: how many characters precede it, and its line and column. -/
structure Mark where
  offset : Nat
  line : Nat
  column : Nat
deriving DecidableEq

namespace Mark

def first : Mark := ⟨0, 1, 1⟩

/-- The place just past `c`. -/
def past (m : Mark) (c : Char) : Mark :=
  if c = '\n' then ⟨m.offset + 1, m.line + 1, 1⟩ else ⟨m.offset + 1, m.line, m.column + 1⟩

/-- The place after a run of characters. -/
def after (m : Mark) (cs : List Char) : Mark :=
  cs.foldl past m

def spanTo (m n : Mark) : Span :=
  ⟨m.offset, n.offset, m.line, m.column⟩

end Mark

end Script
