/-! Faults in the order of tokens, with hints. -/

namespace Script

/-- What a statement or an expression has to go on with. -/
inductive Wanted
  | printOpen
  | printClose
  | conditionOpen (word : String)
  | conditionClose (word : String)
  | parametersOpen
  | parameter
  | parametersClose
  | functionName
  | forOpen
  | forName
  | forKey
  | forComma
  | forPairValue
  | forPairClose
  | forValue
  | forIn
  | forTo
  | forClose
  | className
  | parentName
  | createdName
  | pathName
  | createOpen
  | superOpen
  | namesOpen (bracket : String)
  | listedName
  | namesClose (bracket : String)
  | importFile
  | importUse
  | loadFile
  | loadAs
  | aliasName
  | propertyName
  | indexClose
  | argumentsClose
  | groupClose
  | itemsClose
  | keyColon
  | entriesClose
deriving DecidableEq

namespace Wanted

def text : Wanted → String
  | printOpen => "'(' after 'print'"
  | printClose => "')' after print argument"
  | conditionOpen word => s!"'(' after '{word}'"
  | conditionClose word => s!"')' after {word} condition"
  | parametersOpen => "'(' before parameter list"
  | parameter => "parameter name"
  | parametersClose => "')' after parameters"
  | functionName => "function name after 'f'"
  | forOpen => "'(' after 'for'"
  | forName => "loop variable name after 'for ('"
  | forKey => "key variable name"
  | forComma => "',' between key and value variables"
  | forPairValue => "value variable name"
  | forPairClose => "')' after loop variables"
  | forValue => "value variable name after ','"
  | forIn => "'in' after loop variables"
  | forTo => "'to' in range loop"
  | forClose => "')' after loop header"
  | className => "class name after 'class'"
  | parentName => "base class name after 'extends'"
  | createdName => "class name after 'new'"
  | pathName => "name after '.' in class path"
  | createOpen => "'(' after class name"
  | superOpen => "'(' after 'super'"
  | namesOpen bracket => s!"'{bracket}'"
  | listedName => "a name"
  | namesClose bracket => s!"'{bracket}' after names"
  | importFile => "a file name string after 'from'"
  | importUse => "'use' after module file name"
  | loadFile => "a file name string after 'load'"
  | loadAs => "'as' after module file name"
  | aliasName => "alias name after 'as'"
  | propertyName => "property name after '.'"
  | indexClose => "']' after index"
  | argumentsClose => "')' after arguments"
  | groupClose => "')' after expression"
  | itemsClose => "']' after list elements"
  | keyColon => "':' after object key"
  | entriesClose => "'\x7d' after object entries"

def loopHelp : String :=
  "Loops are written as: for (x in items), for (i = 1 to 10) or for (k, v in object)"

def callHelp : String :=
  "Calls must be closed with ')' after the arguments. Example: add(1, 2)"

def help : Wanted → Option String
  | conditionOpen word | conditionClose word =>
    some s!"Conditions are written in parentheses: {word} (condition)"
  | forOpen => some loopHelp
  | argumentsClose => some callHelp
  | groupClose =>
    some "Every opening parenthesis '(' must have a matching closing parenthesis ')'."
  | itemsClose =>
    some "List literals must be closed with ']' after the opening '['. Example: [1, 2, 3]"
  | keyColon =>
    some "Object entries require a colon between key and value. Example: \x7bname: \"Rex\"\x7d"
  | entriesClose =>
    some ("Object literals must be closed with '\x7d' after the opening '\x7b'. " ++
      "Example: \x7bname: \"Rex\"\x7d")
  | _ => none

end Wanted

/-- Why a row of tokens is no program. A missing `found` is the end of the input. -/
inductive ParseFault
  | stray (text : String)
  | endOfInput
  | wanted (what : Wanted) (found : Option String)
  | openBlock (opener : String) (closers : List String)
  | openClass (name : String)
  | openArguments
  | duplicateParameter (name : String)
  | loopHeader
  | secondConstructor (cls : String)
  | member (text : String)
  | target
  | afterName (name text : String)
  | noExpression (found : Option String)
  | noOperand (symbol : String)
  | number (text : String)
  | emptyGroup
  | key (text : String)
  | duplicateKey (text : String)
deriving DecidableEq

namespace ParseFault

def quoted (s : String) : String := s!"'{s}'"

def described (found : Option String) : String :=
  found.elim "end of input" quoted

def message : ParseFault → String
  | stray text => s!"Unexpected token: '{text}'"
  | endOfInput => "Unexpected end of input"
  | wanted what found => "Expected " ++ what.text ++ ", found " ++ described found
  | openBlock opener closers =>
    "Expected " ++ " or ".intercalate (closers.map quoted) ++ s!" to close '{opener}' block"
  | openClass name => s!"Expected 'endclass' to close class '{name}'"
  | openArguments => "Unexpected end of input in argument list"
  | duplicateParameter name => s!"Duplicate parameter '{name}'"
  | loopHeader => "Invalid for statement syntax"
  | secondConstructor cls => s!"Class '{cls}' already has a constructor"
  | member text => s!"Unexpected '{text}' in class body"
  | target => "Invalid assignment target"
  | afterName name text => s!"Unexpected token after identifier '{name}': '{text}'"
  | noExpression found => "Expected expression, found " ++ described found
  | noOperand symbol => s!"Expected expression after '{symbol}'"
  | number text => s!"Invalid number '{text}'"
  | emptyGroup => "Empty parentheses are not allowed"
  | key text => s!"Expected identifier or string for object key, found '{text}'"
  | duplicateKey text => s!"Duplicate key '{text}' in object literal"

/-- The hint for a token that starts no expression. -/
def strayHelp (text : String) : String :=
  if text = ")" then "Found ')' without matching '('. Check for unbalanced parentheses."
  else if text = "\x7d" then "Found '\x7d' without matching '\x7b'. Check for unbalanced braces."
  else if text = "]" then "Found ']' without matching '['. Check for unbalanced brackets."
  else "Expected a literal value, variable, or parenthesized expression here."

def help : ParseFault → Option String
  | wanted what _ => what.help
  | openBlock opener _ =>
    some s!"Every '{opener}' block must be closed before the end of the file."
  | openClass _ => some "Every 'class' block must be closed with 'endclass'."
  | openArguments => some Wanted.callHelp
  | loopHeader => some Wanted.loopHelp
  | member _ =>
    some ("A class body may only contain property assignments, 'f' methods " ++
      "and one 'init' constructor.")
  | target =>
    some "Only variables, list elements and object properties can be assigned to."
  | noExpression none =>
    some "Check for unmatched parentheses, brackets, or incomplete statements."
  | noExpression (some text) => some (strayHelp text)
  | noOperand symbol => some s!"The '{symbol}' operator requires expressions on both sides."
  | emptyGroup =>
    some "Parentheses must contain an expression. Use 'null' for a null value."
  | key _ =>
    some ("Object entries are written as key: value. " ++
      "Example: \x7bname: \"Rex\", \"age\": 3\x7d")
  | _ => none

/-- An expression was due and none began. -/
def lacksExpression : ParseFault → Bool
  | noExpression _ | noOperand _ => true
  | _ => false

end ParseFault

end Script
