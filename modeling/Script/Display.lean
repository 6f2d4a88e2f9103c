import Script.Heap
import Script.Number.Shortest

/-! The text of values. -/

namespace Script.Heap

/-- The text of a part of a list or an object, where strings are quoted. -/
def nested (text : Value → Option String) : Value → Option String
  | .string s => some ("\"" ++ s ++ "\"")
  | v => text v

/-- The text of a value, nested no deeper than `bound`. -/
def textUpTo (h : Heap) : Nat → Value → Option String
  | _, .null => some "null"
  | _, .bool b => some (if b then "True" else "False")
  | _, .int n => some (Integer.text n)
  | _, .double x => some (Double.text x)
  | _, .string s => some s
  | _, .cls r => some ("<class " ++ (h.cls r).name ++ ">")
  | _, .function r => some ("<function " ++ (h.function r).decl.name ++ ">")
  | 0, _ => none
  | n + 1, .list r => do
    let items ← (h.list r).toList.mapM (nested (h.textUpTo n))
    return "[" ++ ", ".intercalate items ++ "]"
  | n + 1, .object r => do
    let entries ← (h.object r).entries.mapM fun e => do
      return "\"" ++ e.1 ++ "\": " ++ (← nested (h.textUpTo n) e.2)
    return "\x7b" ++ ", ".intercalate entries ++ "\x7d"

/-- The text of a value. A list or an object that contains itself has none: no other nests deeper
than there are lists and objects. -/
def text? (h : Heap) (v : Value) : Option String :=
  h.textUpTo (h.lists.size + h.objects.size) v

end Script.Heap
