import Script.Class
import Script.Eval.Host

/-! Finding classes, making instances and calling their methods. -/

namespace Script

namespace Heap

/-- Follows the rest of a class path from a value. -/
def follow (h : Heap) (path : ClassPath) : List String → Value → Except RunFault Value
  | [], v => .ok v
  | part :: rest, .object r =>
    match (h.object r).get? part with
    | some v => h.follow path rest v
    | none => .error (.unboundMember part)
  | _ :: _, _ => .error (.classPath path.text)

/-- The class that a path leads to in a frame. -/
def resolveClass (h : Heap) (frame : Frame) (path : ClassPath) : Except RunFault ClassRef :=
  match frame.get? path.first with
  | none => .error (.unboundClass path.first)
  | some v => do
    match ← h.follow path path.rest v with
    | .cls c => .ok c
    | _ => .error (.notClass path.text)

/-- An instance before its constructor runs: its class and the parent of that, then the properties
and then the methods, where the class wins over its ancestors and a near ancestor over a far
one. -/
def blankInstance (h : Heap) (r : ClassRef) : Object Value :=
  let c := h.cls r
  let ancestors := (h.chain r).tail
  let o := (Object.empty.set classKey (.cls r)).set parentKey (c.parent.elim .null .cls)
  let o := ancestors.foldl (fun o a => o.fill a.properties.entries) o
  let o := o.setAll c.properties.entries
  let o := ancestors.foldl (fun o a => o.fill a.methodEntries) o
  o.setAll c.methodEntries

end Heap

namespace Host

/-- Runs the constructor that a class declares on an instance. A `super` in it means the parent of
that class. -/
def construct (h : Host) (caller : Frame) (c : Class) (r : FunctionRef) (self : Value)
    (args : List Value) (span : Span) : Eval Unit := do
  let f := (← Eval.heap).function r
  if f.decl.params.length ≠ args.length then
    Eval.fail (.constructorArity c.name f.decl.params.length args.length) span
  let frame := { caller.callee with parent := c.parent }
  let _ ← h.body f ((frame.assign selfName self).assignAll f.decl.params args)

/-- Makes an instance of a class. -/
def create (h : Host) (caller : Frame) (r : ClassRef) (args : List Value) (span : Span) :
    Eval Value := do
  let heap ← Eval.heap
  let c := heap.cls r
  let self ← Eval.newObject (heap.blankInstance r)
  match c.constructor with
  | some f => h.construct caller c f self args span
  | none =>
    if args ≠ [] then
      Eval.fail (.noConstructor c.name args.length) span
  return self

/-- Calls a method on an instance. -/
def callMethod (h : Host) (caller : Frame) (r : FunctionRef) (self : Value) (args : List Value)
    (span : Span) : Eval Value := do
  let f := (← Eval.heap).function r
  checkArity f args span
  h.body f ((caller.callee.assign selfName self).assignAll f.decl.params args)

end Host

/-- The instance of the running constructor, the parent of its class and the constructor that the
parent declares. -/
def Frame.parentConstructor (frame : Frame) (span : Span) : Eval (Value × Class × FunctionRef) := do
  match frame.get? selfName with
  | some (.object self) =>
    let p ← Eval.orFail frame.parent .noParent span
    let c := (← Eval.heap).cls p
    let f ← Eval.orFail c.constructor .noParentConstructor span
    return (.object self, c, f)
  | _ => Eval.fail .noInstance span

end Script
