import Script.Session
import Script.Text.Blank

/-! Interactive sessions, line by line. -/

namespace Script

/-- An interactive session: what it has bound so far, and the lines of an unfinished entry. -/
structure Repl where
  state : State
  pending : String

namespace Repl

def start : Repl := ⟨State.start, ""⟩

def banner : String :=
  "EasyScript v0.1.0\nType 'exit' or press Ctrl+D to quit\n\n"

/-- An unfinished entry is asked for with another prompt. -/
def prompt (r : Repl) : String :=
  if r.pending = "" then "> " else ". "

/-- What a line makes of the session. Without a session left, it is over. -/
structure Answer where
  next : Option Repl
  stdout : String
  stderr : String

/-- An entry that stops short at its end may go on. -/
def isIncomplete (e : Error) (entry : String) : Bool :=
  e.stage = .parsing ∧ entry.length ≤ e.span.start

/-- Runs the statements of an entry. The value of a lone call is shown, unless it is null. -/
def runEntry (c : Context) (b : Block) : Exec Unit :=
  match b with
  | [.expression e _] => Exec.eval fun frame => do
    let h := Host.of Session.unlimited c
    match ← h.evaluate frame e with
    | .null => return ()
    | v => h.print v e.span
  | _ => runProgram (run Session.unlimited c) b

/-- Runs an entry, or waits for the rest of it. -/
def enter (c : Context) (s : State) (entry : String) : Answer :=
  match parse entry with
  | .error e =>
    if isIncomplete e entry then ⟨some ⟨s, entry⟩, "", ""⟩
    else ⟨some ⟨s, ""⟩, "", Session.report (.fault e) entry "<repl>" false⟩
  | .ok b =>
    match runEntry c b (Session.quiet s) with
    | .ok _ s => ⟨some ⟨s, ""⟩, s.machine.output, ""⟩
    | .error halt s =>
      ⟨some ⟨s, ""⟩, s.machine.output, Session.report halt entry "<repl>" false⟩

/-- Takes one line, its line feed included. Between entries blank lines are skipped, and a word
ends the session. -/
def read (c : Context) (r : Repl) (line : String) : Answer :=
  let word := Text.trim line
  if r.pending = "" ∧ word = "" then ⟨some r, "", ""⟩
  else if r.pending = "" ∧ (word = "exit" ∨ word = "quit") then ⟨none, "Goodbye!\n", ""⟩
  else enter c r.state (r.pending ++ line)

/-- Runs a session over lines, of which those without a text cannot be read. -/
def talk (c : Context) : List (Option String) → Repl → String × String
  | [], r => (r.prompt ++ "\n", "")
  | none :: _, r => (r.prompt, "Error reading input: " ++ Unreadable.notText.message ++ "\n")
  | some line :: rest, r =>
    let a := read c r line
    let (out, err) := a.next.elim ("", "") (talk c rest)
    (r.prompt ++ a.stdout ++ out, a.stderr ++ err)

/-- The lines of an input, each with its line feed. -/
def inputLines (bytes : List UInt8) : List (List UInt8) :=
  let pieces := bytes.splitOn 10
  pieces.dropLast.map (· ++ [10]) ++ pieces.getLast?.toList.filter (· ≠ [])

def decode (bytes : List UInt8) : Option String :=
  String.fromUTF8? ⟨bytes.toArray⟩

/-- Runs a session over a whole input. -/
def runAll (files : Files) (input : List UInt8) : Transcript :=
  let (out, err) := talk (.inMemory files .working) ((inputLines input).map decode) start
  ⟨true, banner ++ out, err⟩

end Repl

end Script
