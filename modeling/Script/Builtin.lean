import Script.Display
import Script.Machine
import Script.Number.Reading
import Script.Text.Blank
import Script.Text.Case

/-! The methods of values that need no class. -/

namespace Script

/-- The methods that values have without a class. -/
inductive Builtin
  | getType
  | asString
  | stringLength
  | stringReversed
  | uppercase
  | lowercase
  | asInt
  | asDouble
  | listLength
  | add
  | reverse
  | listReversed
  | clear
  | count
  | containsKey
  | get
  | set
  | keys
deriving DecidableEq

namespace Builtin

def name : Builtin → String
  | getType => "getType"
  | asString => "asString"
  | stringLength | listLength => "length"
  | stringReversed | listReversed => "reversed"
  | uppercase => "uppercase"
  | lowercase => "lowercase"
  | asInt => "asInt"
  | asDouble => "asDouble"
  | add => "add"
  | reverse => "reverse"
  | clear => "clear"
  | count => "count"
  | containsKey => "containsKey"
  | get => "get"
  | set => "set"
  | keys => "keys"

/-- The methods of a kind of values. -/
def ofKind : Kind → List Builtin
  | .string =>
    [getType, asString, stringLength, stringReversed, uppercase, lowercase, asInt, asDouble]
  | .list => [getType, asString, listLength, add, reverse, listReversed, clear]
  | .object => [getType, asString, count, containsKey, get, set, keys]
  | _ => [getType, asString]

def find? (kind : Kind) (name : String) : Option Builtin :=
  (ofKind kind).find? fun b => b.name == name

/-- How many arguments a method takes. -/
def arity : Builtin → Nat
  | add | containsKey | get => 1
  | set => 2
  | _ => 0

/-- The string that an argument has to be. -/
def keyArg (b : Builtin) (v : Value) (span : Span) : Eval String :=
  match v with
  | .string s => return s
  | _ => Eval.fail (.builtinKey b.name v.kind) span

/-- Carries out a method on its receiver with as many arguments as it takes. -/
def run (b : Builtin) (receiver : Value) (args : List Value) (span : Span) : Eval Value := do
  match b, receiver, args with
  | getType, v, _ => return .string v.kind.name
  | asString, v, _ =>
    match (← Eval.heap).text? v with
    | some s => return .string s
    | none => throw .exhausted
  | stringLength, .string s, _ => return .int (Int64.ofNat s.length)
  | stringReversed, .string s, _ => return .string (String.ofList s.toList.reverse)
  | uppercase, .string s, _ => return .string (Text.uppercase s)
  | lowercase, .string s, _ => return .string (Text.lowercase s)
  | asInt, .string s, _ =>
    return .int (← Eval.orFail (Integer.read (Text.trim s).toList) (.noInt s) span)
  | asDouble, .string s, _ =>
    return .double (← Eval.orFail (Double.read (Text.trim s).toList) (.noDouble s) span)
  | listLength, .list r, _ => return .int (Int64.ofNat ((← Eval.heap).list r).size)
  | add, .list r, v :: _ =>
    Eval.changeHeap fun h => h.updateList r fun items => items.push v
    return .null
  | reverse, .list r, _ =>
    Eval.changeHeap fun h => h.updateList r Array.reverse
    return .null
  | listReversed, .list r, _ => Eval.newList ((← Eval.heap).list r).reverse
  | clear, .list r, _ =>
    Eval.changeHeap fun h => h.updateList r fun _ => #[]
    return .null
  | count, .object r, _ => return .int (Int64.ofNat ((← Eval.heap).object r).size)
  | containsKey, .object r, k :: _ =>
    let key ← keyArg b k span
    return .bool (((← Eval.heap).object r).contains key)
  | get, .object r, k :: _ =>
    let key ← keyArg b k span
    Eval.orFail (((← Eval.heap).object r).get? key) (.missingKey key) span
  | set, .object r, k :: v :: _ =>
    let key ← keyArg b k span
    Eval.changeHeap fun h => h.setKey r key v
    return .null
  | keys, .object r, _ =>
    Eval.newList (((← Eval.heap).object r).keys.map Value.string).toArray
  | _, _, _ => return .null

/-- Calls the method of the name, if values of the receiver's kind have one. -/
def call? (receiver : Value) (name : String) (args : List Value) (span : Span) :
    Option (Eval Value) :=
  (find? receiver.kind name).map fun b =>
    if args.length = b.arity then b.run receiver args span
    else Eval.fail (.builtinArity b.name b.arity args.length) span

end Builtin

end Script
