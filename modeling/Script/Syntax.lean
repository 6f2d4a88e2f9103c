import Script.Span

/-! The syntax of scripts. Every node of a tree carries the stretch of text that it was read from. -/

namespace Script

inductive BinOp
  | add
  | sub
  | mul
  | div
  | floorDiv
  | rem
  | pow
  | eq
  | ne
  | lt
  | le
  | gt
  | ge
  | mem
deriving DecidableEq

namespace BinOp

def symbol : BinOp → String
  | add => "+"
  | sub => "-"
  | mul => "*"
  | div => "/"
  | floorDiv => "//"
  | rem => "%"
  | pow => "**"
  | eq => "=="
  | ne => "!="
  | lt => "<"
  | le => "<="
  | gt => ">"
  | ge => ">="
  | mem => "in"

def all : List BinOp :=
  [add, sub, mul, div, floorDiv, rem, pow, eq, ne, lt, le, gt, ge, mem]

/-- The operator written as `s`. -/
def ofSymbol? (s : String) : Option BinOp :=
  all.find? fun op => op.symbol == s

end BinOp

/-- The two operators that may leave their right operand unevaluated. -/
inductive Logic
  | and
  | or
deriving DecidableEq

def Logic.symbol : Logic → String
  | and => "&&"
  | or => "||"

inductive Literal
  | null
  | bool (b : Bool)
  | int (n : Int64)
  | double (x : Float)
  | string (s : String)
deriving DecidableEq

/-- A class named directly, or through the objects that hold it: `geometry.shapes.Circle`. -/
structure ClassPath where
  first : String
  rest : List String
deriving DecidableEq

namespace ClassPath

def parts (p : ClassPath) : List String := p.first :: p.rest

def text (p : ClassPath) : String := ".".intercalate p.parts

end ClassPath

inductive Expr
  | literal (value : Literal) (span : Span)
  | name (name : String) (span : Span)
  | binary (op : BinOp) (left right : Expr) (span : Span)
  | negate (operand : Expr) (span : Span)
  | logic (op : Logic) (left right : Expr) (span : Span)
  | call (name : String) (args : List Expr) (span : Span)
  | method (object : Expr) (name : String) (args : List Expr) (span : Span)
  | property (object : Expr) (name : String) (span : Span)
  | index (object key : Expr) (span : Span)
  | group (inner : Expr) (span : Span)
  | list (items : List Expr) (span : Span)
  | object (entries : List (String × Expr)) (span : Span)
  | create (cls : ClassPath) (args : List Expr) (span : Span)

def Expr.span : Expr → Span
  | literal _ s | name _ s | binary _ _ _ s | negate _ s | logic _ _ _ s | call _ _ s
  | method _ _ _ s | property _ _ s | index _ _ s | group _ s | list _ s | object _ s
  | create _ _ s => s

/-- What stands on the left of an assignment. -/
inductive Target
  | name (name : String)
  | index (object key : Expr)
  | property (object : Expr) (name : String)

/-- The header of a `for` loop. -/
inductive Header
  | range (name : String) (start stop : Expr)
  | each (name : String) (source : Expr)
  | pairs (key value : String) (source : Expr)

/-- What an import binds. -/
inductive Selection
  | all
  | names (names : List String)
deriving DecidableEq

mutual

inductive Stmt
  | expression (e : Expr) (span : Span)
  | print (e : Expr) (span : Span)
  | assign (target : Target) (value : Expr) (span : Span)
  | branch (branches : List (Expr × List Stmt)) (otherwise : Option (List Stmt)) (span : Span)
  | loop (condition : Expr) (body : List Stmt) (span : Span)
  | iterate (header : Header) (body : List Stmt) (span : Span)
  | leave (span : Span)
  | give (value : Option Expr) (span : Span)
  | function (decl : Decl) (span : Span)
  | init (decl : Decl) (span : Span)
  | cls (name : String) (parent : Option ClassPath) (members : List Member) (span : Span)
  | super (args : List Expr) (span : Span)
  | share (names : List String) (span : Span)
  | imports (file : String) (items : Selection) (span : Span)
  | load (file : String) (name : String) (span : Span)

/-- A function, a method or a constructor as declared. -/
structure Decl where
  name : String
  params : List String
  body : List Stmt
  span : Span

inductive Member
  | property (name : String) (value : Expr) (span : Span)
  | method (decl : Decl)
  | constructor (decl : Decl)

end

abbrev Block := List Stmt

def Stmt.span : Stmt → Span
  | expression _ s | print _ s | assign _ _ s | branch _ _ s | loop _ _ s | iterate _ _ s
  | leave s | give _ s | function _ s | init _ s | cls _ _ _ s | super _ s | share _ s
  | imports _ _ s | load _ _ s => s

/-- The name that every constructor is declared under. -/
def constructorName : String := "__init__"

end Script
