import Script.Token.Scan

/-! A lexer that keeps its state. It can scan its text again, whatever an earlier scan has left. -/

namespace Script

/-- A lexer: its text, the tokens found so far, where the latest lexeme starts and where the text goes
on. A scan that fails leaves all of them as they are then. -/
structure Lexer where
  source : List Char
  tokens : List Token
  start : Mark
  current : Mark
deriving DecidableEq

namespace Lexer

def new (source : String) : Lexer :=
  ⟨source.toList, [], .first, .first⟩

/-- The characters to come. -/
def left (x : Lexer) : List Char :=
  x.source.drop x.current.offset

end Lexer

abbrev Lexing := EStateM Error Lexer

namespace Lexing

/-- The stretch from the start of the lexeme to here. -/
def span : Lexing Span :=
  return (← get).start.spanTo (← get).current

def move (taken : List Char) : Lexing Unit :=
  modify fun x => { x with current := x.current.after taken }

def add (kind : Token.Kind) (text : List Char) : Lexing Unit := do
  let place ← span
  modify fun x => { x with tokens := x.tokens ++ [⟨kind, String.ofList text, place⟩] }

/-- Takes the lexeme at the head of the text to come, which is `c :: cs`. -/
def takeLexeme (c : Char) (cs : List Char) : Lexing Unit := do
  modify fun x => { x with start := x.current }
  match Token.lexeme c cs with
  | .error f =>
    move (Token.reach f c cs)
    throw ⟨.lexical f, ← span⟩
  | .ok l =>
    move l.taken
    match l.token with
    | some (kind, text) => add kind text
    | none => return

/-- Takes all lexemes to come. The bound is the number of characters left or more. -/
def takeAll : Nat → Lexing Unit
  | 0 => return
  | n + 1 => do
    match (← get).left with
    | [] => return
    | c :: cs =>
      takeLexeme c cs
      takeAll n

/-- The tokens of the text, from its beginning. The lexer hands them out and keeps none. -/
def scan : Lexing (List Token) := do
  modify fun x => { x with tokens := [], current := .first }
  takeAll (← get).source.length
  let x ← get
  set { x with tokens := [] }
  return x.tokens ++ [Token.final x.current]

end Lexing

end Script
