import Script.Fault.Lexical
import Script.Fault.Grammar
import Script.Fault.Running
import Script.Files

/-! Why a run ends early, and the texts that say so. -/

namespace Script

/-- The two statements that run another file. -/
inductive Access
  | importing
  | loading
deriving DecidableEq

def Access.text : Access → String
  | importing => "Error importing from"
  | loading => "Error loading file"

/-- Why a run ends early. A module that fails is the cause, with its place there, of the failure
of the statement that runs it. -/
inductive Fault
  | lexical (f : LexFault)
  | grammar (f : ParseFault)
  | running (f : RunFault)
  | noFile (access : Access) (file path : String)
  | cycle (file : String)
  | unreadable (access : Access) (file : String) (reason : Unreadable)
  | module (access : Access) (file : String) (cause : Fault) (place : Span)
  | notShared (name file : String)
  | cannotShare (name : String)
deriving DecidableEq

/-- The stages that a fault is reported under. -/
inductive Stage
  | lexing
  | parsing
  | running
  | loading
deriving DecidableEq

namespace Fault

def stage : Fault → Stage
  | lexical _ => .lexing
  | grammar _ => .parsing
  | running .noParentConstructor => .loading
  | running _ => .running
  | _ => .loading

/-- The text of a fault at `place`. -/
def message (place : Span) : Fault → String
  | lexical f => f.message place
  | grammar f => f.message
  | running f => f.message
  | noFile access file path => access.text ++ s!" '{file}': File '{path}' not found"
  | cycle file => s!"Cyclic import of '{file}'"
  | unreadable access file reason => access.text ++ s!" '{file}': {reason.message}"
  | module access file cause inner =>
    access.text ++ s!" '{file}': {file}:" ++ Nat.repr inner.line ++ ":" ++
      Nat.repr inner.column ++ ": " ++ message inner cause
  | notShared name file => s!"Item '{name}' not found or not shared in module '{file}'"
  | cannotShare name => s!"Cannot share '{name}': item not found"

def help : Fault → Option String
  | grammar f => f.help
  | running f => f.help
  | _ => none

end Fault

/-- A fault and where it was met. -/
structure Error where
  fault : Fault
  span : Span
deriving DecidableEq

namespace Error

def stage (e : Error) : Stage := e.fault.stage

def message (e : Error) : String := e.fault.message e.span

def help (e : Error) : Option String := e.fault.help

end Error

end Script
