import Script.Eval.Host
import Script.Parser.Statement

/-! Running modules, and what passes between them and the scripts that run them. -/

namespace Script

def Stmt.isImport : Stmt → Bool
  | imports .. => true
  | _ => false

/-- Runs statements one by one. None of them may leave a loop or give a value. -/
def topLevel (run : Block → Exec Flow) : Block → Exec Unit
  | [] => return ()
  | s :: rest => do
    match ← run [s] with
    | .done => topLevel run rest
    | .left => throw (.fault ⟨.running .strayLeave, s.span⟩)
    | .gave _ => throw (.fault ⟨.running .strayGive, s.span⟩)

/-- Runs a program: its imports come before all else. -/
def runProgram (run : Block → Exec Flow) (b : Block) : Exec Unit :=
  topLevel run (b.filter Stmt.isImport ++ b.filter (!·.isImport))

/-- Parses and runs a source text. -/
def runSource (run : Block → Exec Flow) (text : String) : Exec Unit :=
  match parse text with
  | .ok b => runProgram run b
  | .error e => throw (.fault e)

/-- A module that has run through: its frame, and the variables that it shares. -/
structure Module where
  frame : Frame
  shared : Bindings Unit

namespace Module

/-- Runs a source text as a module, in a frame of its own. It has its own shared variables. A
fault in it is a fault of the statement at `span`. -/
def run (access : Access) (file : String) (span : Span) (x : Exec Unit) : Eval Module := fun m =>
  let shared := m.shared
  let (frame, heap) := Frame.new m.heap
  match x ⟨frame, ⟨heap, m.output, .empty⟩⟩ with
  | .ok _ s => .ok ⟨s.frame, s.machine.shared⟩ { s.machine with shared := shared }
  | .error (.fault e) s =>
    .error (.fault ⟨.module access file e.fault e.span, span⟩) { s.machine with shared := shared }
  | .error .exhausted s => .error .exhausted { s.machine with shared := shared }

/-- Runs the module in a file, unless that file is being run already. -/
def ofFile (h : Host) (access : Access) (file : String) (span : Span) : Eval Module :=
  let written := h.context.locate file
  match h.context.files.resolve written with
  | none => Eval.raise (.noFile access file written) span
  | some path =>
    if h.context.chain.contains path then Eval.raise (.cycle file) span
    else
      match h.context.files.read path with
      | .error reason => Eval.raise (.unreadable access file reason) span
      | .ok text => run access file span (runSource (h.nested (h.context.module path)) text)

/-- The functions that the module shares, by name. -/
def functions (m : Module) (h : Heap) : List (String × FunctionRef) :=
  (h.table m.frame.table).entries.filter fun e => (h.function e.2).shared

/-- The function of the name, if the module shares it. -/
def function? (m : Module) (h : Heap) (name : String) : Option FunctionRef :=
  (m.frame.function? h name).filter fun f => (h.function f).shared

/-- A copy of a function that carries the module's frame. -/
def exported (m : Module) (r : FunctionRef) : Eval FunctionRef :=
  Eval.onHeap fun h => h.newFunction { h.function r with scope := some m.frame }

/-- Defines exported copies of functions in a table. -/
def define (m : Module) (t : TableRef) : List (String × FunctionRef) → Eval Unit
  | [] => return ()
  | (name, r) :: rest => do
    let copy ← m.exported r
    Eval.changeHeap fun h => h.define t name copy
    m.define t rest

/-- Binds the listed names one after another, functions in the table and values in the frame. -/
def bind (m : Module) (file : String) (span : Span) : List String → Exec Unit
  | [] => return ()
  | name :: rest => do
    match m.function? (← get).machine.heap name, m.frame.get? name with
    | some r, _ => Exec.eval fun frame => m.define frame.table [(name, r)]
    | none, some v => Exec.assign name v
    | none, none => throw (.fault ⟨.notShared name file, span⟩)
    m.bind file span rest

/-- Copies of functions under their names in an object. -/
def collect (m : Module) : List (String × FunctionRef) → Object Value → Eval (Object Value)
  | [], o => return o
  | (name, r) :: rest, o => do
    let copy ← m.exported r
    m.collect rest (o.set name (.function copy))

/-- The shared variables that the module still binds, in order of their names. -/
def sharedVars (m : Module) : List (String × Value) :=
  m.shared.entries.filterMap fun e => (m.frame.get? e.1).map fun v => (e.1, v)

end Module

namespace Host

/-- Runs a module and binds what is selected of it. All its variables can be, but only those
functions that it shares. -/
def importFile (h : Host) (file : String) (items : Selection) (span : Span) : Exec Unit := do
  let m ← Exec.eval fun _ => Module.ofFile h .importing file span
  match items with
  | .all =>
    modify fun s =>
      { s with frame := { s.frame with vars := s.frame.vars.overlay m.frame.vars } }
    Exec.eval fun frame => do m.define frame.table (m.functions (← Eval.heap))
  | .names names => m.bind file span names

/-- Runs a module and binds an object that holds what it shares. -/
def loadFile (h : Host) (file name : String) (span : Span) : Exec Unit := do
  let v ← Exec.eval fun _ => do
    let m ← Module.ofFile h .loading file span
    let o := Object.empty.setAll m.sharedVars
    let o ← m.collect (m.functions (← Eval.heap)) o
    Eval.newObject o
  Exec.assign name v

end Host

/-- Shares functions and variables of the running script. -/
def Frame.share (frame : Frame) (span : Span) : List String → Eval Unit
  | [] => return ()
  | name :: rest => do
    match frame.function? (← Eval.heap) name with
    | some r => Eval.changeHeap fun h => h.markShared r
    | none =>
      if frame.vars.contains name then
        modify fun m => { m with shared := m.shared.insert name () }
      else
        Eval.raise (.cannotShare name) span
    frame.share span rest

end Script
