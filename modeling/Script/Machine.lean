import Script.Fault
import Script.Files
import Script.Frame

/-! What a run reads, changes and ends with. Evaluation reads a frame and changes the machine; only
execution changes the frame. -/

namespace Script

/-- What a run leaves behind besides its variables: the heap, what it printed, and the variables
that its script shares. -/
structure Machine where
  heap : Heap
  output : String
  shared : Bindings Unit

/-- The state of a running block. -/
structure State where
  frame : Frame
  machine : Machine

namespace State

/-- An empty frame over an empty heap. -/
def start : State :=
  let (frame, heap) := Frame.new .empty
  ⟨frame, ⟨heap, "", .empty⟩⟩

end State

/-- Where printed text goes. -/
inductive Sink
  | working
  | broken (reason : String)

/-- What a script is run with: the files it can reach, its own path if it has one, the paths of
the scripts that are being run, and the sink. -/
structure Context where
  files : Files
  script : Option Path
  chain : List Path
  sink : Sink

namespace Context

/-- For a script that is no file. -/
def inMemory (files : Files) (sink : Sink) : Context :=
  ⟨files, none, [], sink⟩

/-- For a script at a path, which counts as being run. -/
def atPath (files : Files) (sink : Sink) (p : Path) : Context :=
  ⟨files, some p, [p], sink⟩

/-- For a module that this script runs. -/
def module (c : Context) (p : Path) : Context :=
  { c with script := some p, chain := c.chain ++ [p] }

/-- Where a file named in this script is looked for: beside it, unless the path is absolute. -/
def locate (c : Context) (file : String) : String :=
  match c.script with
  | some p =>
    if isAbsolute file then file
    else if p.length ≤ 1 then "/" ++ file
    else Path.text p.dropLast ++ "/" ++ file
  | none => file

end Context

/-- Why a run stops: a fault, or its bound. -/
inductive Halt
  | fault (e : Error)
  | exhausted

/-- How a statement ends: it runs through, leaves its loop, or gives a value. -/
inductive Flow
  | done
  | left
  | gave (v : Value)

/-- Evaluation of an expression, which may change the machine, also when it fails. -/
abbrev Eval := EStateM Halt Machine

/-- Execution of a statement, which may change its frame too. -/
abbrev Exec := EStateM Halt State

namespace Eval

def raise (f : Fault) (span : Span) : Eval α :=
  throw (.fault ⟨f, span⟩)

def fail (f : RunFault) (span : Span) : Eval α :=
  raise (.running f) span

def heap : Eval Heap :=
  return (← get).heap

/-- Carries out an operation on the heap that answers with something. -/
def onHeap (f : Heap → α × Heap) : Eval α := fun m =>
  let (a, h) := f m.heap
  .ok a { m with heap := h }

def changeHeap (f : Heap → Heap) : Eval Unit :=
  modify fun m => { m with heap := f m.heap }

def newList (items : Array Value) : Eval Value :=
  return .list (← onHeap (·.newList items))

def newObject (o : Object Value) : Eval Value :=
  return .object (← onHeap (·.newObject o))

/-- A value, or a fault in its place. -/
def orFail (v : Option α) (f : RunFault) (span : Span) : Eval α :=
  match v with
  | some v => return v
  | none => fail f span

/-- Whether a value, once there, counts as true. -/
def truth (x : Eval Value) : Eval Bool := do
  let v ← x
  return (← heap).truthy v

/-- The outcome of an operation, whose fault is placed at `span`. -/
def lift (x : Except RunFault α) (span : Span) : Eval α :=
  match x with
  | .ok a => return a
  | .error f => fail f span

end Eval

namespace Exec

/-- Evaluates in the running frame. -/
def eval (f : Frame → Eval α) : Exec α := fun ⟨frame, m⟩ =>
  match f frame m with
  | .ok a m => .ok a ⟨frame, m⟩
  | .error e m => .error e ⟨frame, m⟩

def assign (name : String) (value : Value) : Exec Unit :=
  modify fun s => { s with frame := s.frame.assign name value }

/-- Runs a block in a frame of its own, of which only the flow and the effects stay. -/
def inside (frame : Frame) (x : Exec α) : Eval α := fun m =>
  match x ⟨frame, m⟩ with
  | .ok a s => .ok a s.machine
  | .error e s => .error e s.machine

end Exec

end Script
