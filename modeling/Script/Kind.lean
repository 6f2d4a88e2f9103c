/-! Kinds of values. -/

namespace Script

/-- The kinds of values. -/
inductive Kind
  | null
  | bool
  | int
  | double
  | string
  | list
  | object
  | cls
  | function
deriving DecidableEq

/-- The name that scripts see. -/
def Kind.name : Kind → String
  | null => "null"
  | bool => "boolean"
  | int => "int"
  | double => "double"
  | string => "string"
  | list => "list"
  | object => "object"
  | cls => "class"
  | function => "function"

end Script
