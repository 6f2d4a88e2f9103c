import Script.Fault
import Script.Text.Blank
import Script.Text.Letter
import Script.Text.Numeral
import Script.Token

/-! Cutting a text into tokens. Each step takes the longest lexeme at the head of the text, and the
blanks between lexemes are left out. -/

namespace Script.Token

/-- What the head of a text reads as: the characters taken, and the kind and text of the token
that they form. Blanks form none. -/
structure Lexeme where
  taken : List Char
  token : Option (Kind × List Char)

/-- A character that can go on a name. -/
def isWord (c : Char) : Bool :=
  Text.isLetter c || Text.isNumeral c || c == '_'

/-- The rest of a number after its first digit: digits with at most one point among them. -/
def numberTail (cs : List Char) : List Char :=
  cs.takeWhile Char.isDigit ++
    match cs.dropWhile Char.isDigit with
    | '.' :: more => '.' :: more.takeWhile Char.isDigit
    | _ => []

/-- A token whose text is all that it takes. -/
def plain (kind : Kind) (cs : List Char) : Lexeme :=
  ⟨cs, some (kind, cs)⟩

/-- A quoted text ends at the next quote of the same kind, on whatever line that stands. -/
def quoted (quote : Char) (cs : List Char) : Except LexFault Lexeme :=
  let body := cs.takeWhile (· ≠ quote)
  if body.length < cs.length then .ok ⟨quote :: body ++ [quote], some (.text, body)⟩
  else .error .openQuote

/-- The longest operator that starts with `c`. -/
def operator (c : Char) (cs : List Char) : Except LexFault Lexeme :=
  let two := c :: cs.take 1
  if two.length = 2 ∧ operators.contains (String.ofList two) then .ok (plain .operator two)
  else if operators.contains (String.ofList [c]) then .ok (plain .operator [c])
  else .error (.operator c)

/-- Reads the head of the text `c :: cs`. -/
def lexeme (c : Char) (cs : List Char) : Except LexFault Lexeme :=
  if Text.isBlank c then .ok ⟨[c], none⟩
  else if c = '>' ∧ cs.head? = some '>' then
    .ok (plain .comment (c :: cs.takeWhile (· ≠ '\n')))
  else if c = '"' ∨ c = '\'' then quoted c cs
  else if c.isDigit then .ok (plain .number (c :: numberTail cs))
  else if Text.isLetter c ∨ c = '_' then
    let word := c :: cs.takeWhile isWord
    .ok (plain (if keywords.contains (String.ofList word) then .keyword else .name) word)
  else if operatorChars.contains c then operator c cs
  else if delimiters.contains c then .ok (plain .delimiter [c])
  else .error (.character c)

/-- How far a fault reaches: an open quote to the end, any other over one character. -/
def reach (f : LexFault) (c : Char) (cs : List Char) : List Char :=
  match f with
  | .openQuote => c :: cs
  | _ => [c]

/-- The tokens of `cs`, which starts at `m`. The bound is the number of characters left or more:
each lexeme takes one at least. -/
def scanFrom : Nat → Mark → List Char → Except Error (List Token)
  | _, m, [] => .ok [final m]
  | 0, m, _ => .ok [final m]
  | n + 1, m, c :: cs =>
    match lexeme c cs with
    | .error f => .error ⟨.lexical f, m.spanTo (m.after (reach f c cs))⟩
    | .ok l =>
      let next := m.after l.taken
      match scanFrom n next (cs.drop (l.taken.length - 1)), l.token with
      | .ok ts, some (kind, text) => .ok (⟨kind, String.ofList text, m.spanTo next⟩ :: ts)
      | result, _ => result

/-- The tokens of a source text, the end of the text last. -/
def scan (source : String) : Except Error (List Token) :=
  scanFrom source.length Mark.first source.toList

end Script.Token
