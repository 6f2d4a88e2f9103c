import Script.Fault
import Script.Token

/-! Reading a row of tokens from the front. -/

namespace Script

/-- A row of tokens being read: the last one taken, those left, and the one that ends the row. -/
structure Stream where
  last : Token
  rest : List Token
  stop : Token

namespace Stream

/-- Comments are no part of the row, and it ends at its first end token. A row without an end gets
one at its last token. -/
def ofTokens (tokens : List Token) : Stream :=
  let ts := tokens.filter (·.kind ≠ .comment)
  let stop := (ts.find? (·.kind = .eof)).getD
    ⟨.eof, "", (ts.getLast?.map Token.span).getD default⟩
  ⟨stop, ts.takeWhile (·.kind ≠ .eof), stop⟩

/-- The token that comes next. -/
def next (s : Stream) : Token :=
  s.rest.head?.getD s.stop

/-- Takes the next token. The end is never taken. -/
def advance (s : Stream) : Stream :=
  match s.rest with
  | [] => s
  | t :: ts => { s with last := t, rest := ts }

end Stream

abbrev Parser := EStateM Error Stream

namespace Parser

def fail (f : ParseFault) (span : Span) : Parser α :=
  throw ⟨.grammar f, span⟩

def peek : Parser Token :=
  return (← get).next

def atEnd : Parser Bool :=
  return (← get).rest.isEmpty

/-- The token taken last. -/
def last : Parser Token :=
  return (← get).last

/-- Takes the next token and answers with the last one taken. -/
def advance : Parser Token := do
  modify Stream.advance
  last

/-- The span from `start` to the last token taken. -/
def since (start : Span) : Parser Span :=
  return start.through (← last).span

def sees (kind : Token.Kind) (text : String) : Parser Bool := do
  let t ← peek
  return t.kind = kind ∧ t.text = text

def seesKeyword (words : List String) : Parser Bool := do
  let t ← peek
  return t.kind = .keyword ∧ words.contains t.text

/-- Takes the next token if it is this one. -/
def eat (kind : Token.Kind) (text : String) : Parser Bool := do
  let found ← sees kind text
  if found then
    modify Stream.advance
  return found

/-- The fault of a next token that is not the one wanted. -/
def refuse (what : Wanted) : Parser α := do
  let t ← peek
  let found := if (← atEnd) then none else some t.text
  fail (.wanted what found) t.span

def expect (kind : Token.Kind) (text : String) (what : Wanted) : Parser Unit := do
  if !(← eat kind text) then
    refuse what

/-- Takes a token of the kind and answers with its text. -/
def expectKind (kind : Token.Kind) (what : Wanted) : Parser String := do
  if (← peek).kind = kind then
    return (← advance).text
  else
    refuse what

def name (what : Wanted) : Parser String :=
  expectKind .name what

def delimiter (text : String) (what : Wanted) : Parser Unit :=
  expect .delimiter text what

def keyword (text : String) (what : Wanted) : Parser Unit :=
  expect .keyword text what

/-- Items with commas between them, of which some were `seen` before, the latest first. Each item
may look at those. The bound is the number of tokens left or more. -/
def listed (item : List α → Parser α) : Nat → List α → Parser (List α)
  | 0, seen => return [← item seen]
  | n + 1, seen => do
    let x ← item seen
    if (← eat .delimiter ",") then
      return x :: (← listed item n (x :: seen))
    else
      return [x]

/-- Items with commas between them, none if the closing bracket comes at once. -/
def listedUntil (close : String) (bound : Nat) (item : List α → Parser α) : Parser (List α) := do
  if (← sees .delimiter close) then
    return []
  else
    listed item bound []

/-- Runs `operand` after the operator just taken. If no expression begins there, the operator is
blamed. -/
def operandAfter (symbol : String) (operand : Parser α) : Parser α := do
  let place := (← last).span
  EStateM.adaptExcept (blame place) operand
where
  blame (place : Span) (e : Error) : Error :=
    match e.fault with
    | .grammar f => if f.lacksExpression then ⟨.grammar (.noOperand symbol), place⟩ else e
    | _ => e

end Parser

end Script
