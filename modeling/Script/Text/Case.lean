import Script.Text.CaseData

/-! Upper and lower case. A character may map to several, and one, the capital sigma, depends on
its neighbours. -/

namespace Script.Text

/-- The code point that the runs map `n` to, if one of them holds it. -/
def shifted (runs : List Run) (n : Nat) : Option Nat :=
  (runs.find? fun r => r.first ≤ n && n ≤ r.last && (n - r.first) % r.step == 0).map
    fun r => ((n : Int) + r.shift).toNat

/-- A character's full case mapping: a sequence, else a single character, else itself. -/
def mapCase (runs : List Run) (sequences : List (Nat × List Nat)) (c : Char) : List Char :=
  match sequences.lookup c.toNat with
  | some ns => ns.map Char.ofNat
  | none => [(shifted runs c.toNat).elim c Char.ofNat]

/-- The lower case of one character, whatever stands around it. -/
def lower (c : Char) : List Char :=
  if c.toNat < 128 then [c.toLower] else mapCase lowerRuns lowerSequences c

/-- The upper case of one character. -/
def upper (c : Char) : List Char :=
  if c.toNat < 128 then [c.toUpper] else mapCase upperRuns upperSequences c

/-- A character with the Unicode property Cased. -/
def isCased (c : Char) : Bool :=
  if c.toNat < 128 then c.isAlpha else covers casedRanges c.toNat

/-- A character with the Unicode property Case_Ignorable. -/
def isCaseIgnorable (c : Char) : Bool :=
  if c.toNat < 128 then ['\'', '.', ':', '^', '\x60'].contains c
  else covers caseIgnorableRanges c.toNat

/-- Whether the first character that case does not ignore is cased. -/
def startsCased (cs : List Char) : Bool :=
  ((cs.dropWhile isCaseIgnorable).head?).any isCased

/-- Lower case of a text, read with the characters `before` it in reverse: a capital sigma that
ends a word becomes the final sigma. -/
def lowerAfter (before : List Char) : List Char → List Char
  | [] => []
  | c :: cs =>
    (if c = 'Σ' then
      [if startsCased before && !startsCased cs then 'ς' else 'σ']
     else lower c) ++ lowerAfter (c :: before) cs

def lowercase (s : String) : String :=
  String.ofList (lowerAfter [] s.toList)

def uppercase (s : String) : String :=
  String.ofList (s.toList.flatMap upper)

/-- Two texts are the same word when their characters agree one by one in lower case. -/
def fold (s : String) : List Char :=
  s.toList.flatMap lower

end Script.Text
