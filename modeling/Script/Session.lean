import Script.Eval.Statement
import Script.Report

/-! Running sources one after another, and scripts as a whole. -/

namespace Script

/-- What a whole program writes, and whether it succeeds. -/
structure Transcript where
  ok : Bool
  stdout : String
  stderr : String
deriving DecidableEq

namespace Session

/-- More calls in each other, and more rounds of a loop, than any run makes. -/
def unlimited : Nat := 4611686018427387904

/-- Runs a source text in a context on from a state. -/
def step (c : Context) (text : String) : Exec Unit :=
  runSource (run unlimited c) text

/-- The state with nothing printed yet. -/
def quiet (s : State) : State :=
  { s with machine := { s.machine with output := "" } }

/-- What is reported of a halt. -/
def report (halt : Halt) (text file : String) (pretty : Bool) : String :=
  match halt with
  | .fault e => (if pretty then e.renderPretty text file else e.render text file) ++ "\n"
  | .exhausted => "[Error]\nThe script does not end.\n"

/-- Runs a whole script from a fresh state. -/
def runScript (c : Context) (text file : String) (pretty : Bool) : Transcript :=
  match step c text State.start with
  | .ok _ s => ⟨true, s.machine.output, ""⟩
  | .error halt s => ⟨false, s.machine.output, report halt text file pretty⟩

/-- The path of a script, if it is there and is no directory. -/
def scriptAt? (files : Files) (path : String) : Option Path :=
  (files.resolve path).filter fun p => files.node? p ≠ some .directory

/-- Runs the script in a file. -/
def runFile (files : Files) (path : String) (pretty : Bool) : Transcript :=
  match scriptAt? files path with
  | none => ⟨false, "", s!"[Error]\nScript file '{path}' not found.\n"⟩
  | some p =>
    match files.read p with
    | .error reason =>
      ⟨false, "", s!"[Error]\nCould not read script file '{path}': {reason.message}\n"⟩
    | .ok text => runScript (.atPath files .working p) text path pretty

end Session

end Script
