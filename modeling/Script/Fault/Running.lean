import Script.Kind
import Script.Syntax

/-! Faults in a run. -/

namespace Script

/-- Why a statement cannot be carried out. -/
inductive RunFault
  | unboundName (name : String)
  | unboundFunction (name : String)
  | arity (function : String) (expected given : Nat)
  | strayLeave
  | strayGive
  | strayLeaveIn (function : String)
  | strayInit
  | write (reason : String)
  | listBounds
  | stringBounds
  | listIndex (kind : Kind)
  | index (kind : Kind)
  | key (kind : Kind)
  | notIndexed (kind : Kind)
  | fixedString
  | indexTarget (kind : Kind)
  | propertyTarget (name : String) (kind : Kind)
  | rangeBound (kind : Kind)
  | notIterable (kind : Kind)
  | missingKey (key : String)
  | noProperty (name : String) (kind : Kind)
  | noMethod (name : String) (kind : Kind)
  | noClassMethod (name cls : String)
  | overflow (op : BinOp)
  | divisionByZero
  | operands (op : BinOp) (left right : Kind)
  | concatenation
  | negation (kind : Kind)
  | keyMembership (kind : Kind)
  | textMembership (kind : Kind)
  | membership (kind : Kind)
  | unboundClass (name : String)
  | unboundMember (name : String)
  | classPath (path : String)
  | notClass (path : String)
  | constructorArity (cls : String) (expected given : Nat)
  | noConstructor (cls : String) (given : Nat)
  | noInstance
  | noParent
  | noParentConstructor
  | builtinArity (name : String) (expected given : Nat)
  | builtinKey (name : String) (kind : Kind)
  | noInt (text : String)
  | noDouble (text : String)
deriving DecidableEq

namespace RunFault

/-- A count of arguments. -/
def arguments (n : Nat) : String :=
  Nat.repr n ++ if n = 1 then " argument" else " arguments"

def message : RunFault → String
  | unboundName name => s!"Undefined variable '{name}'"
  | unboundFunction name => s!"Function '{name}' is not defined"
  | arity function expected given =>
    s!"Function '{function}' expects " ++ arguments expected ++ ", got " ++ Nat.repr given
  | strayLeave => "'break' can only be used inside a loop"
  | strayGive => "'return' can only be used inside a function"
  | strayLeaveIn function => s!"'break' outside of a loop in '{function}'"
  | strayInit => "'init' can only appear inside a class body"
  | write reason => s!"Failed to write output: {reason}"
  | listBounds => "List index out of range. Stay within valid bounds!"
  | stringBounds => "String index out of range. Stay within valid bounds!"
  | listIndex kind => s!"List index must be an integer, got '{kind.name}'"
  | index kind => s!"Index must be an integer, got '{kind.name}'"
  | key kind => s!"Object keys must be strings, got '{kind.name}'"
  | notIndexed kind => s!"Can't index into a value of type '{kind.name}'"
  | fixedString => "Strings can't be modified by index"
  | indexTarget kind => s!"Can't assign by index to a value of type '{kind.name}'"
  | propertyTarget name kind =>
    s!"Can't set property '{name}' on a value of type '{kind.name}'"
  | rangeBound kind => s!"Range bounds must be integers, got '{kind.name}'"
  | notIterable kind => s!"Can't iterate over a value of type '{kind.name}'"
  | missingKey k => s!"Object does not contain key '{k}'"
  | noProperty name kind =>
    s!"The property '{name}' doesn't exist on values of type '{kind.name}'"
  | noMethod name kind =>
    s!"The method '{name}' doesn't exist on objects of type '{kind.name}'. " ++
      "Check your method name and object type!"
  | noClassMethod name cls => s!"Method '{name}' not found in class '{cls}'"
  | overflow op => s!"Integer overflow in '{op.symbol}'"
  | divisionByZero => "Uh-oh! You tried to divide by zero. That's not possible."
  | operands op left right =>
    s!"Can't use '{op.symbol}' for operands of type '{left.name}' & '{right.name}'"
  | concatenation => "Can't concatenate strings with other types of data."
  | negation kind => s!"Can't use '-' on a value of type '{kind.name}'"
  | keyMembership kind => s!"Object key lookup requires a string, got '{kind.name}'"
  | textMembership kind => s!"String containment check requires a string, got '{kind.name}'"
  | membership kind => s!"'in' operator not supported for type '{kind.name}'"
  | unboundClass name => s!"Class '{name}' not found"
  | unboundMember name => s!"Nested class '{name}' not found"
  | classPath path => s!"Invalid class path: '{path}'"
  | notClass path => s!"'{path}' is not a valid class"
  | constructorArity cls expected given =>
    s!"Constructor of '{cls}' expects " ++ Nat.repr expected ++ " arguments, got " ++
      Nat.repr given
  | noConstructor cls given =>
    s!"Class '{cls}' has no constructor but was given " ++ arguments given
  | noInstance => "Current object ('cur') not found"
  | noParent => "Super class not found"
  | noParentConstructor => s!"Method '{constructorName}' not found in parent class"
  | builtinArity name expected given =>
    s!"{name}() takes exactly " ++ arguments expected ++ ", got " ++ Nat.repr given
  | builtinKey name kind => s!"{name}() expects a string key, got '{kind.name}'"
  | noInt text => s!"Can't convert '{text}' to an int"
  | noDouble text => s!"Can't convert '{text}' to a double"

def help : RunFault → Option String
  | strayInit => some "Declare constructors inside 'class Name ... endclass'."
  | notIndexed _ => some "Only lists, strings and objects support '[...]' access."
  | keyMembership _ => some "Use 'in' with objects like: \"key\" in \x7bkey: 1\x7d."
  | textMembership _ => some "Use 'in' with strings like: \"sub\" in \"substring\"."
  | membership _ => some "The 'in' operator works with lists, objects, and strings."
  | noParent =>
    some ("'super(...)' can only be called from the constructor of a class " ++
      "that extends another class.")
  | _ => none

end RunFault

end Script
