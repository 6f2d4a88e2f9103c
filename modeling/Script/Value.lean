import Script.Kind
import Script.Number.Integer
import Script.Syntax

/-! Values. Lists, objects, classes and functions are shared, so a value only refers to them. -/

namespace Script

/-! References to what values share. Two values that hold one reference are one list, object,
class or function. -/

structure ListRef where
  index : Nat
deriving DecidableEq

structure ObjectRef where
  index : Nat
deriving DecidableEq

structure ClassRef where
  index : Nat
deriving DecidableEq

structure FunctionRef where
  index : Nat
deriving DecidableEq

structure TableRef where
  index : Nat
deriving DecidableEq

inductive Value
  | null
  | bool (b : Bool)
  | int (n : Int64)
  | double (x : Float)
  | string (s : String)
  | list (r : ListRef)
  | object (r : ObjectRef)
  | cls (r : ClassRef)
  | function (r : FunctionRef)
deriving DecidableEq

def Literal.value : Literal → Value
  | null => .null
  | bool b => .bool b
  | int n => .int n
  | double x => .double x
  | string s => .string s

namespace Value

def kind : Value → Kind
  | null => .null
  | bool _ => .bool
  | int _ => .int
  | double _ => .double
  | string _ => .string
  | list _ => .list
  | object _ => .object
  | cls _ => .cls
  | function _ => .function

/-- The number that an integer or a double stands for in mixed arithmetic. -/
def number? : Value → Option Float
  | int n => some (Integer.toDouble n)
  | double x => some x
  | _ => none

/-- Equality as scripts see it: by value for scalars, by identity for what is shared, and between
an integer and a double by the nearest double. -/
def same : Value → Value → Bool
  | null, null => true
  | bool l, bool r => l == r
  | int l, int r => l == r
  | double l, double r => l == r
  | int l, double r => Integer.toDouble l == r
  | double l, int r => l == Integer.toDouble r
  | string l, string r => l == r
  | list l, list r => l = r
  | object l, object r => l = r
  | cls l, cls r => l = r
  | function l, function r => l = r
  | _, _ => false

end Value

end Script
