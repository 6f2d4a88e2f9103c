import Script.Span

/-! Faults in the characters of a text. -/

namespace Script

/-- Why a text cannot be cut into tokens. -/
inductive LexFault
  | character (c : Char)
  | openQuote
  | operator (c : Char)
deriving DecidableEq

def LexFault.message (place : Span) : LexFault → String
  | character c => s!"Unexpected character: '{c}'" ++ position
  | openQuote => "Unterminated string" ++ position
  | operator c => s!"Invalid operator: {c}" ++ position
where
  position : String := " at line " ++ Nat.repr place.line ++ ", column " ++ Nat.repr place.column

end Script
