import Script.Display
import Script.Machine

/-! Calls of functions. How a body is run is left to the host, so that expressions and statements can
be evaluated by recursion on their syntax alone. -/

namespace Script

/-- What the statements of a script are run with: its context, how often a loop may go round, and
how the body of a function or of a module is run. -/
structure Host where
  context : Context
  steps : Nat
  nested : Context → Block → Exec Flow

namespace Host

/-- Runs the body of a function in its frame. -/
def body (h : Host) (f : Function) (frame : Frame) : Eval Value := do
  match ← Exec.inside frame (h.nested h.context f.decl.body) with
  | .done => return .null
  | .gave v => return v
  | .left => Eval.fail (.strayLeaveIn f.decl.name) f.decl.span

/-- As many values as there are parameters. -/
def checkArity (f : Function) (args : List Value) (span : Span) : Eval Unit := do
  if f.decl.params.length ≠ args.length then
    Eval.fail (.arity f.decl.name f.decl.params.length args.length) span

/-- Calls a function. Its frame starts with the caller's variables, over which lie those of the
module that it was exported from, if any, and then its parameters. -/
def call (h : Host) (caller : Frame) (r : FunctionRef) (args : List Value) (span : Span) :
    Eval Value := do
  let f := (← Eval.heap).function r
  checkArity f args span
  let frame := f.scope.elim caller.callee caller.callee.enter
  h.body f (frame.assignAll f.decl.params args)

/-- Prints the text of a value on a line of its own. -/
def print (h : Host) (v : Value) (span : Span) : Eval Unit := do
  match h.context.sink, (← Eval.heap).text? v with
  | .broken reason, _ => Eval.fail (.write reason) span
  | .working, none => throw .exhausted
  | .working, some text => modify fun m => { m with output := m.output ++ text ++ "\n" }

end Host

end Script
