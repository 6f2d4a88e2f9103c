import Script.Span

/-! Tokens, and the words and signs that a text can hold. -/

namespace Script

inductive Token.Kind
  | keyword
  | name
  | number
  | text
  | operator
  | delimiter
  | comment
  | eof
deriving DecidableEq

/-- A token. The text of a quoted token is what stands between its quotes. -/
structure Token where
  kind : Token.Kind
  text : String
  span : Span
deriving DecidableEq

namespace Token

def keywords : List String := [
  "print", "if", "elif", "else", "endif", "f", "endf", "return", "for", "to", "do", "endfor",
  "while", "endwhile", "in", "break", "class", "endclass", "init", "endinit", "extends",
  "super", "from", "use", "share", "load", "as", "new", "null", "True", "False"]

def operators : List String := [
  "==", "!=", ">=", "<=", "&&", "||", "**", "//", "+", "-", "*", "/", "=", ">", "<", "%"]

/-- The characters that an operator can start with. -/
def operatorChars : List Char :=
  ['+', '-', '*', '/', '=', '!', '>', '<', '&', '|', '%']

def delimiters : List Char :=
  ['(', ')', '[', ']', '{', '}', ',', ':', '.']

/-- The token that ends a text at `m`. -/
def final (m : Mark) : Token :=
  ⟨.eof, "", m.spanTo m⟩

end Token

end Script
