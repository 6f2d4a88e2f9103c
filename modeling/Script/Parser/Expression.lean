import Script.Number.Reading
import Script.Object
import Script.Parser.Stream

/-! Expressions. From the loosest operators to the tightest: `||`, `&&`, `in`, equality, order, sums,
products, powers, the minus sign, then members, calls and indices. -/

namespace Script.Parser

/-- The operator of the level that comes next. Membership alone is spelt as a word. -/
def operatorOf (ops : List BinOp) : Parser (Option BinOp) := do
  let t ← peek
  return ops.find? fun op =>
    t.kind = (if op = .mem then .keyword else .operator) ∧ t.text = op.symbol

def joined (op : BinOp) (left right : Expr) : Expr :=
  .binary op left right (left.span.through right.span)

/-- Goes on with `left` as long as an operator of the level comes. -/
def joinLeft (ops : List BinOp) (operand : Parser Expr) : Nat → Expr → Parser Expr
  | 0, left => return left
  | n + 1, left => do
    match ← operatorOf ops with
    | none => return left
    | some op =>
      modify Stream.advance
      let right ← operandAfter op.symbol operand
      joinLeft ops operand n (joined op left right)

/-- A level of operators that group to the left. -/
def level (bound : Nat) (ops : List BinOp) (operand : Parser Expr) : Parser Expr := do
  joinLeft ops operand bound (← operand)

/-- Goes on with `left` as long as the connective comes. -/
def joinLogic (op : Logic) (operand : Parser Expr) : Nat → Expr → Parser Expr
  | 0, left => return left
  | n + 1, left => do
    if (← eat .operator op.symbol) then
      let right ← operand
      joinLogic op operand n (.logic op left right (left.span.through right.span))
    else
      return left

def logicLevel (bound : Nat) (op : Logic) (operand : Parser Expr) : Parser Expr := do
  joinLogic op operand bound (← operand)

/-- Powers, which group to the right. -/
def power (base : Parser Expr) : Nat → Parser Expr
  | 0 => base
  | n + 1 => do
    let left ← base
    if (← eat .operator BinOp.pow.symbol) then
      return joined .pow left (← operandAfter BinOp.pow.symbol (power base n))
    else
      return left

/-- Any number of minus signs before an operand. -/
def negation (operand : Parser Expr) : Nat → Parser Expr
  | 0 => operand
  | n + 1 => do
    if (← eat .operator "-") then
      let start := (← last).span
      let e ← operandAfter "-" (negation operand n)
      return .negate e (start.through e.span)
    else
      operand

/-- The arguments of a call and its closing parenthesis. -/
def arguments (bound : Nat) (expression : Parser Expr) : Parser (List Expr) := do
  let args ← listedUntil ")" bound fun _ => do
    if (← atEnd) then
      fail .openArguments (← peek).span
    else
      expression
  delimiter ")" .argumentsClose
  return args

/-- Goes on with members, method calls and indices. -/
def postfixes (bound : Nat) (expression : Parser Expr) : Nat → Expr → Parser Expr
  | 0, e => return e
  | n + 1, e => do
    if (← eat .delimiter ".") then
      let member ← name .propertyName
      if (← eat .delimiter "(") then
        let args ← arguments bound expression
        postfixes bound expression n (.method e member args (← since e.span))
      else
        postfixes bound expression n (.property e member (← since e.span))
    else if (← eat .delimiter "[") then
      let key ← expression
      delimiter "]" .indexClose
      postfixes bound expression n (.index e key (← since e.span))
    else
      return e

/-- Names with points between them. -/
def pathRest : Nat → Parser (List String)
  | 0 => return []
  | n + 1 => do
    if (← eat .delimiter ".") then
      let part ← name .pathName
      return part :: (← pathRest n)
    else
      return []

def classPath (bound : Nat) (what : Wanted) : Parser ClassPath := do
  let first ← name what
  return ⟨first, ← pathRest bound⟩

/-- A number is an integer if it fits in 64 bits, and else a double. -/
def numberLiteral (text : String) : Option Literal :=
  ((Integer.read text.toList).map Literal.int).or ((Double.read text.toList).map Literal.double)

/-- One entry of an object, after those `seen`. -/
def entry (expression : Parser Expr) (seen : List (String × Expr)) : Parser (String × Expr) := do
  let t ← advance
  if t.kind ≠ .name ∧ t.kind ≠ .text then
    fail (.key t.text) t.span
  else if seen.any fun old => sameKey old.1 t.text then
    fail (.duplicateKey t.text) t.span
  else
    delimiter ":" .keyColon
    return (t.text, ← expression)

/-- An expression that starts with `t`, which has been taken. -/
def primaryFrom (bound : Nat) (expression : Parser Expr) (t : Token) : Parser Expr :=
  match t.kind, t.text with
  | .number, text =>
    match numberLiteral text with
    | some v => return .literal v t.span
    | none => fail (.number text) t.span
  | .text, text => return .literal (.string text) t.span
  | .keyword, "True" => return .literal (.bool true) t.span
  | .keyword, "False" => return .literal (.bool false) t.span
  | .keyword, "null" => return .literal .null t.span
  | .keyword, "new" => do
    let cls ← classPath bound .createdName
    delimiter "(" .createOpen
    let args ← arguments bound expression
    return .create cls args (← since t.span)
  | .name, text => do
    if (← eat .delimiter "(") then
      let args ← arguments bound expression
      return .call text args (← since t.span)
    else
      return .name text t.span
  | .delimiter, "(" => do
    if (← sees .delimiter ")") then
      fail .emptyGroup (t.span.through (← peek).span)
    else
      let e ← expression
      delimiter ")" .groupClose
      return .group e (← since t.span)
  | .delimiter, "[" => do
    let items ← listedUntil "]" bound fun _ => expression
    delimiter "]" .itemsClose
    return .list items (← since t.span)
  | .delimiter, "\x7b" => do
    let entries ← listedUntil "\x7d" bound (entry expression)
    delimiter "\x7d" .entriesClose
    return .object entries (← since t.span)
  | _, text => fail (.noExpression (some text)) t.span

def primary (bound : Nat) (expression : Parser Expr) : Parser Expr := do
  if (← atEnd) then
    fail (.noExpression none) (← peek).span
  else
    primaryFrom bound expression (← advance)

/-- A primary expression and what follows it without an operator. -/
def chain (bound : Nat) (expression : Parser Expr) : Parser Expr := do
  postfixes bound expression bound (← primary bound expression)

/-- All levels of operators, the loosest outermost, over the expressions in brackets. -/
def levels (bound : Nat) (expression : Parser Expr) : Parser Expr :=
  logicLevel bound .or <|
  logicLevel bound .and <|
  level bound [.mem] <|
  level bound [.eq, .ne] <|
  level bound [.gt, .lt, .ge, .le] <|
  level bound [.add, .sub] <|
  level bound [.mul, .div, .rem, .floorDiv] <|
  power (negation (chain bound expression) bound) bound

/-- An expression of at most `bound` tokens. The nested ones are shorter by a bracket. -/
def expression : Nat → Parser Expr
  | 0 => do fail (.noExpression none) (← peek).span
  | n + 1 => levels (n + 1) (expression n)

end Script.Parser
