import Script.Parser.Expression
import Script.Token.Scan

/-! Statements, blocks and whole programs. -/

namespace Script.Parser

/-- Statements up to the first of the closing keywords, which is left. The bound is the number of
tokens left or more. -/
def block (statement : Parser Stmt) (opener : String) (closers : List String) :
    Nat → Parser Block
  | 0 => do fail (.openBlock opener closers) (← peek).span
  | n + 1 => do
    if (← seesKeyword closers) then
      return []
    else if (← atEnd) then
      fail (.openBlock opener closers) (← peek).span
    else
      let s ← statement
      return s :: (← block statement opener closers n)

/-- A block and its closing keyword. -/
def closedBlock (bound : Nat) (statement : Parser Stmt) (opener closer : String) :
    Parser Block := do
  let body ← block statement opener [closer] bound
  modify Stream.advance
  return body

def condition (bound : Nat) (word : String) : Parser Expr := do
  delimiter "(" (.conditionOpen word)
  let e ← expression bound
  delimiter ")" (.conditionClose word)
  return e

/-- A condition and the block that it guards, up to the next keyword of the `if`. -/
def guarded (bound : Nat) (statement : Parser Stmt) (word : String) : Parser (Expr × Block) := do
  let e ← condition bound word
  return (e, ← block statement word ["elif", "else", "endif"] bound)

/-- The branches after the first and the final `else`. -/
def otherBranches (bound : Nat) (statement : Parser Stmt) :
    Nat → Parser (List (Expr × Block) × Option Block)
  | 0 => return ([], none)
  | n + 1 => do
    let closer ← advance
    if closer.text = "elif" then
      let b ← guarded bound statement "elif"
      let (bs, otherwise) ← otherBranches bound statement n
      return (b :: bs, otherwise)
    else if closer.text = "else" then
      return ([], some (← closedBlock bound statement "else" "endif"))
    else
      return ([], none)

def branchStatement (bound : Nat) (statement : Parser Stmt) (start : Span) : Parser Stmt := do
  let first ← guarded bound statement "if"
  let (others, otherwise) ← otherBranches bound statement bound
  return .branch (first :: others) otherwise (← since start)

/-- Names of parameters, each one once. -/
def parameters (bound : Nat) : Parser (List String) := do
  delimiter "(" .parametersOpen
  let params ← listedUntil ")" bound fun seen => do
    let p ← name .parameter
    if seen.contains p then
      fail (.duplicateParameter p) (← last).span
    else
      return p
  delimiter ")" .parametersClose
  return params

def functionDecl (bound : Nat) (statement : Parser Stmt) (start : Span) : Parser Decl := do
  let f ← name .functionName
  let params ← parameters bound
  let body ← closedBlock bound statement "f" "endf"
  return ⟨f, params, body, ← since start⟩

def initDecl (bound : Nat) (statement : Parser Stmt) (start : Span) : Parser Decl := do
  let params ← parameters bound
  let body ← closedBlock bound statement "init" "endinit"
  return ⟨constructorName, params, body, ← since start⟩

/-- A `return` gives nothing if its block, or the input, ends there. -/
def giveStatement (bound : Nat) (start : Span) : Parser Stmt := do
  let bare := (← atEnd) || (← seesKeyword
    ["endf", "endinit", "endif", "elif", "else", "endwhile", "endfor", "endclass"])
  if bare then
    return .give none (← since start)
  else
    let e ← expression bound
    return .give (some e) (← since start)

/-- The body of a loop. The `do` before it may be left out. -/
def loopBody (bound : Nat) (statement : Parser Stmt) (opener closer : String) :
    Parser Block := do
  let _ ← eat .keyword "do"
  closedBlock bound statement opener closer

def loopStatement (bound : Nat) (statement : Parser Stmt) (start : Span) : Parser Stmt := do
  let e ← condition bound "while"
  let body ← loopBody bound statement "while" "endwhile"
  return .loop e body (← since start)

def header (bound : Nat) : Parser Header := do
  if (← eat .delimiter "(") then
    let key ← name .forKey
    delimiter "," .forComma
    let value ← name .forPairValue
    delimiter ")" .forPairClose
    keyword "in" .forIn
    return .pairs key value (← expression bound)
  else
    let x ← name .forName
    if (← eat .keyword "in") then
      return .each x (← expression bound)
    else if (← eat .operator "=") then
      let start ← expression bound
      keyword "to" .forTo
      return .range x start (← expression bound)
    else if (← eat .delimiter ",") then
      let value ← name .forValue
      keyword "in" .forIn
      return .pairs x value (← expression bound)
    else
      fail .loopHeader (← peek).span

def iterateStatement (bound : Nat) (statement : Parser Stmt) (start : Span) : Parser Stmt := do
  delimiter "(" .forOpen
  let h ← header bound
  delimiter ")" .forClose
  let body ← loopBody bound statement "for" "endfor"
  return .iterate h body (← since start)

/-- The member of a class that a statement declares. -/
def memberOf : Stmt → Option Member
  | .assign (.name x) value span => some (.property x value span)
  | .function decl _ => some (.method decl)
  | .init decl _ => some (.constructor decl)
  | _ => none

/-- The members up to the end of the class. `built` says whether a constructor stands before. -/
def members (statement : Parser Stmt) (cls : String) : Nat → Bool → Parser (List Member)
  | 0, _ => do fail (.openClass cls) (← peek).span
  | n + 1, built => do
    if (← eat .keyword "endclass") then
      return []
    else if (← atEnd) then
      fail (.openClass cls) (← peek).span
    else
      let start ← peek
      match memberOf (← statement) with
      | none => fail (.member start.text) start.span
      | some (.constructor decl) =>
        if built then
          fail (.secondConstructor cls) start.span
        else
          return .constructor decl :: (← members statement cls n true)
      | some m => return m :: (← members statement cls n built)

def classStatement (bound : Nat) (statement : Parser Stmt) (start : Span) : Parser Stmt := do
  let cls ← name .className
  let parent ← if (← eat .keyword "extends") then some <$> classPath bound .parentName
    else pure none
  let ms ← members statement cls bound false
  return .cls cls parent ms (← since start)

def names (bound : Nat) (opening closing : String) : Parser (List String) := do
  delimiter opening (.namesOpen opening)
  let ns ← listedUntil closing bound fun _ => name .listedName
  delimiter closing (.namesClose closing)
  return ns

def selection (bound : Nat) : Parser Selection := do
  if (← eat .operator "*") then
    return .all
  else
    return .names (← names bound "\x7b" "\x7d")

def importStatement (bound : Nat) (start : Span) : Parser Stmt := do
  let file ← expectKind .text .importFile
  keyword "use" .importUse
  let items ← selection bound
  return .imports file items (← since start)

def loadStatement (start : Span) : Parser Stmt := do
  let file ← expectKind .text .loadFile
  keyword "as" .loadAs
  let x ← name .aliasName
  return .load file x (← since start)

/-- The target that an expression on the left of an assignment stands for. -/
def targetOf : Expr → Option Target
  | .name x _ => some (.name x)
  | .index object key _ => some (.index object key)
  | .property object x _ => some (.property object x)
  | _ => none

def isCall : Expr → Bool
  | .call .. | .method .. => true
  | _ => false

/-- A statement that starts with a name: an assignment or a call. -/
def nameStatement (bound : Nat) : Parser Stmt := do
  let start ← peek
  let e ← chain bound (expression bound)
  if (← eat .operator "=") then
    match targetOf e with
    | none => fail .target e.span
    | some target =>
      let value ← expression bound
      return .assign target value (← since start.span)
  else if isCall e then
    return .expression e (← since start.span)
  else
    let t ← peek
    fail (.afterName start.text t.text) t.span

/-- A statement that starts with the keyword `t`, which has been taken. -/
def keywordStatement (bound : Nat) (statement : Parser Stmt) (t : Token) : Parser Stmt :=
  match t.text with
  | "break" => return .leave t.span
  | "print" => do
    delimiter "(" .printOpen
    let e ← expression bound
    delimiter ")" .printClose
    return .print e (← since t.span)
  | "if" => branchStatement bound statement t.span
  | "f" => do
    let decl ← functionDecl bound statement t.span
    return .function decl (← since t.span)
  | "init" => do
    let decl ← initDecl bound statement t.span
    return .init decl (← since t.span)
  | "return" => giveStatement bound t.span
  | "while" => loopStatement bound statement t.span
  | "for" => iterateStatement bound statement t.span
  | "class" => classStatement bound statement t.span
  | "share" => do
    let ns ← names bound "(" ")"
    return .share ns (← since t.span)
  | "from" => importStatement bound t.span
  | "super" => do
    delimiter "(" .superOpen
    let args ← arguments bound (expression bound)
    return .super args (← since t.span)
  | "load" => loadStatement t.span
  | text => fail (.stray text) t.span

/-- A statement of at most `bound` tokens. The nested ones are shorter by a keyword. -/
def statement : Nat → Parser Stmt
  | 0 => do fail .endOfInput (← peek).span
  | n + 1 => do
    let t ← peek
    match t.kind with
    | .keyword =>
      modify Stream.advance
      keywordStatement (n + 1) (statement n) t
    | .name => nameStatement (n + 1)
    | .eof => fail .endOfInput t.span
    | _ => fail (.stray t.text) t.span

/-- Statements up to the end of the input. -/
def statements (bound : Nat) : Nat → Parser Block
  | 0 => return []
  | n + 1 => do
    if (← atEnd) then
      return []
    else
      let s ← statement bound
      return s :: (← statements bound n)

/-- The statements that a row of tokens spells. -/
def program (tokens : List Token) : Except Error Block :=
  let s := Stream.ofTokens tokens
  match (statements s.rest.length s.rest.length).run s with
  | .ok b _ => .ok b
  | .error e _ => .error e

end Script.Parser

namespace Script

/-- The statements of a source text. -/
def parse (source : String) : Except Error Block := do
  Parser.program (← Token.scan source)

end Script
