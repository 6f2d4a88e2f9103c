import Script.Builtin
import Script.Eval.Class
import Script.Eval.Operator

/-! The values of expressions. -/

namespace Script

namespace Frame

/-- What a name stands for: a variable, or else a function of the script. -/
def lookup (frame : Frame) (name : String) (span : Span) : Eval Value := do
  let h ← Eval.heap
  Eval.orFail ((frame.get? name).or ((frame.function? h name).map .function)) (.unboundName name)
    span

/-- What a call by name calls: a function of the script, or else one held by a variable. -/
def called (frame : Frame) (name : String) (span : Span) : Eval FunctionRef := do
  let h ← Eval.heap
  let held := match frame.get? name with
    | some (.function r) => some r
    | _ => none
  Eval.orFail ((frame.function? h name).or held) (.unboundFunction name) span

end Frame

/-- What a method call on a value calls. -/
inductive Callee
  | method (r : FunctionRef)
  | function (r : FunctionRef)
  | cls (r : ClassRef)
  | builtin

namespace Value

/-- A property: the entry of an object, or a method without arguments of another value. -/
def property (v : Value) (name : String) (span : Span) : Eval Value := do
  match v with
  | .object r => Eval.orFail (((← Eval.heap).object r).get? name) (.missingKey name) span
  | _ => (Builtin.call? v name [] span).getD (Eval.fail (.noProperty name v.kind) span)

/-- An instance has the methods of its class and of the ancestors of that, and no others. Another
object may hold a function or a class under the name. -/
def callee (v : Value) (name : String) (span : Span) : Eval Callee := do
  let h ← Eval.heap
  match h.classOf? v, v with
  | some c, _ =>
    let r ← Eval.orFail (h.method? c name) (.noClassMethod name (h.cls c).name) span
    return .method r
  | none, .object o =>
    match (h.object o).get? name with
    | some (.function r) => return .function r
    | some (.cls r) => return .cls r
    | _ => return .builtin
  | none, _ => return .builtin

end Value

namespace Host

/-- Calls what a method call on `v` calls. -/
def callOn (h : Host) (caller : Frame) (v : Value) (name : String) (callee : Callee)
    (args : List Value) (span : Span) : Eval Value :=
  match callee with
  | .method r => h.callMethod caller r v args span
  | .function r => h.call caller r args span
  | .cls r => h.create caller r args span
  | .builtin => (Builtin.call? v name args span).getD (Eval.fail (.noMethod name v.kind) span)

mutual

/-- The value of an expression. It sees the frame and cannot change it. -/
def evaluate (h : Host) (frame : Frame) : Expr → Eval Value
  | .literal v _ => return v.value
  | .name x span => frame.lookup x span
  | .binary op left right span => do
    let l ← evaluate h frame left
    let r ← evaluate h frame right
    Eval.lift (op.apply (← Eval.heap) l r) span
  | .negate e span => do
    let v ← evaluate h frame e
    Eval.lift v.negate span
  | .logic op left right _ => do
    let l ← Eval.truth (evaluate h frame left)
    if l == decide (op = .or) then
      return .bool l
    else
      return .bool (← Eval.truth (evaluate h frame right))
  | .call name args span => do
    let r ← frame.called name span
    let vs ← evaluateAll h frame args
    h.call frame r vs span
  | .method object name args span => do
    let v ← evaluate h frame object
    let callee ← v.callee name span
    let vs ← evaluateAll h frame args
    h.callOn frame v name callee vs span
  | .property object name span => do
    let v ← evaluate h frame object
    v.property name span
  | .index object key span => do
    let v ← evaluate h frame object
    let k ← evaluate h frame key
    Eval.lift ((← Eval.heap).indexed v k) span
  | .group e _ => evaluate h frame e
  | .list items _ => do
    let vs ← evaluateAll h frame items
    Eval.newList vs.toArray
  | .object entries _ => do
    let o ← evaluateEntries h frame entries .empty
    Eval.newObject o
  | .create path args span => do
    let c ← Eval.lift ((← Eval.heap).resolveClass frame path) span
    let vs ← evaluateAll h frame args
    h.create frame c vs span

/-- The values of expressions, from left to right. -/
def evaluateAll (h : Host) (frame : Frame) : List Expr → Eval (List Value)
  | [] => return []
  | e :: es => do
    let v ← evaluate h frame e
    let vs ← evaluateAll h frame es
    return v :: vs

/-- Sets the entries of an object literal from left to right. -/
def evaluateEntries (h : Host) (frame : Frame) :
    List (String × Expr) → Object Value → Eval (Object Value)
  | [], o => return o
  | (key, e) :: rest, o => do
    let v ← evaluate h frame e
    evaluateEntries h frame rest (o.set key v)

end

end Host

end Script
