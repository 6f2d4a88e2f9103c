import Script.Machine
import Script.Number.Double
import Script.Text.Part
import Script.Value

/-! Operators, indices and what loops visit. -/

namespace Script

namespace BinOp

/-- Arithmetic on two integers. All of it stays among the integers but division, and powers that
do not fit. -/
def onIntegers (op : BinOp) (l r : Int64) : Except RunFault Value :=
  match op with
  | add => within (Integer.add l r)
  | sub => within (Integer.sub l r)
  | mul => within (Integer.mul l r)
  | div =>
    if r = 0 then .error .divisionByZero
    else .ok (.double (Integer.toDouble l / Integer.toDouble r))
  | floorDiv => if r = 0 then .error .divisionByZero else within (Integer.floorDiv l r)
  | rem => if r = 0 then .error .divisionByZero else within (Integer.rem l r)
  | pow =>
    match Integer.pow l r with
    | some n => .ok (.int n)
    | none => .ok (.double ((Integer.toDouble l).pow (Integer.toDouble r)))
  | _ => .error (.operands op .int .int)
where
  within (n : Option Int64) : Except RunFault Value :=
    match n with
    | some n => .ok (.int n)
    | none => .error (.overflow op)

/-- Arithmetic on two doubles. No kind of zero divides. -/
def onDoubles (op : BinOp) (l r : Float) : Except RunFault Value :=
  match op with
  | add => .ok (.double (l + r))
  | sub => .ok (.double (l - r))
  | mul => .ok (.double (l * r))
  | div => if r == 0 then .error .divisionByZero else .ok (.double (l / r))
  | floorDiv => if r == 0 then .error .divisionByZero else .ok (.double (l / r).floor)
  | rem => if r == 0 then .error .divisionByZero else .ok (.double (Double.rem l r))
  | pow => .ok (.double (l.pow r))
  | _ => .error (.operands op .double .double)

/-- Arithmetic: exact on integers, and on doubles as soon as one operand is a double. -/
def arithmetic (op : BinOp) (l r : Value) : Except RunFault Value :=
  match l, r with
  | .int m, .int n => op.onIntegers m n
  | _, _ =>
    match l.number?, r.number? with
    | some x, some y => op.onDoubles x y
    | _, _ => .error (.operands op l.kind r.kind)

/-- Order of numbers, integers included, as doubles. -/
def ordered (op : BinOp) (test : Float → Float → Bool) (l r : Value) : Except RunFault Value :=
  match l.number?, r.number? with
  | some x, some y => .ok (.bool (test x y))
  | _, _ => .error (.operands op l.kind r.kind)

end BinOp

namespace Heap

/-- Whether a value is an item of a list, a key of an object or a part of a string. -/
def member (h : Heap) (l r : Value) : Except RunFault Value :=
  match r with
  | .list xs => .ok (.bool ((h.list xs).any fun item => item.same l))
  | .object o =>
    match l with
    | .string key => .ok (.bool ((h.object o).contains key))
    | _ => .error (.keyMembership l.kind)
  | .string s =>
    match l with
    | .string part => .ok (.bool (Text.occurs part.toList s.toList))
    | _ => .error (.textMembership l.kind)
  | _ => .error (.membership r.kind)

/-- The place of an index within a row of `size`. Negative ones are outside. -/
def position (i : Int64) (size : Nat) : Option Nat :=
  if 0 ≤ i.toInt ∧ i.toInt < size then some i.toInt.toNat else none

/-- Reading by index or key. -/
def indexed (h : Heap) (container key : Value) : Except RunFault Value :=
  match container, key with
  | .list xs, .int i =>
    let items := h.list xs
    match (position i items.size).bind (items[·]?) with
    | some v => .ok v
    | none => .error .listBounds
  | .string s, .int i =>
    match (position i s.length).bind (s.toList[·]?) with
    | some c => .ok (.string (String.singleton c))
    | none => .error .stringBounds
  | .list _, _ | .string _, _ => .error (.index key.kind)
  | .object o, .string k =>
    match (h.object o).get? k with
    | some v => .ok v
    | none => .error (.missingKey k)
  | .object _, _ => .error (.key key.kind)
  | _, _ => .error (.notIndexed container.kind)

/-- Writing by index or key, as a change of the heap. -/
def setIndexed (h : Heap) (container key value : Value) : Except RunFault (Heap → Heap) :=
  match container, key with
  | .list xs, .int i =>
    match position i (h.list xs).size with
    | some n => .ok fun h => h.updateList xs fun items => items.setIfInBounds n value
    | none => .error .listBounds
  | .list _, _ => .error (.listIndex key.kind)
  | .object o, .string k => .ok fun h => h.setKey o k value
  | .object _, _ => .error (.key key.kind)
  | .string _, _ => .error .fixedString
  | _, _ => .error (.indexTarget container.kind)

/-- What a loop over one variable visits. Objects yield their keys. -/
def items (h : Heap) (source : Value) : Except RunFault (List Value) :=
  match source with
  | .list xs => .ok (h.list xs).toList
  | .string s => .ok (s.toList.map fun c => .string (String.singleton c))
  | .object o => .ok ((h.object o).keys.map .string)
  | _ => .error (.notIterable source.kind)

/-- What a loop over two variables visits: keys with their values, or places with their items. -/
def pairs (h : Heap) (source : Value) : Except RunFault (List (Value × Value)) :=
  match source with
  | .object o => .ok ((h.object o).entries.map fun e => (.string e.1, e.2))
  | _ => do
    let vs ← h.items source
    return vs.zipIdx.map fun e => (.int (Int64.ofNat e.2), e.1)

end Heap

/-- Applies an operator to the values of its operands. -/
def BinOp.apply (op : BinOp) (h : Heap) (l r : Value) : Except RunFault Value :=
  match op with
  | eq => .ok (.bool (l.same r))
  | ne => .ok (.bool !(l.same r))
  | mem => h.member l r
  | lt => op.ordered (fun x y => x < y) l r
  | le => op.ordered (fun x y => x ≤ y) l r
  | gt => op.ordered (fun x y => y < x) l r
  | ge => op.ordered (fun x y => y ≤ x) l r
  | add =>
    match l, r with
    | .string s, .string t => .ok (.string (s ++ t))
    | .string _, _ | _, .string _ => .error .concatenation
    | _, _ => op.arithmetic l r
  | _ => op.arithmetic l r

namespace Value

def negate (v : Value) : Except RunFault Value :=
  match v with
  | int n =>
    match Integer.neg n with
    | some m => .ok (.int m)
    | none => .error (.overflow .sub)
  | double x => .ok (.double (-x))
  | _ => .error (.negation v.kind)

/-- Writing to a property, as a change of the heap. -/
def setProperty (object : Value) (name : String) (value : Value) :
    Except RunFault (Heap → Heap) :=
  match object with
  | .object o => .ok fun h => h.setKey o name value
  | _ => .error (.propertyTarget name object.kind)

end Value

end Script
