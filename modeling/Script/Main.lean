import Script.CommandLine
import Script.References

/-!
The program. Before a script runs, the files that it may come to run are read: those it names, and
those that they name in turn, each looked for beside every script found so far.
-/

namespace Script.Disk

/-- What stands at a path. -/
def node? (path : String) : IO (Option Node) := do
  try
    let bytes ← IO.FS.readBinFile path
    return some ((String.fromUTF8? bytes).elim .bytes .text)
  catch
    | .inappropriateType .. => return some .directory
    | _ => return none

/-- Adds what stands at a written path, and all directories on the way there. -/
def fetch (files : Files) (written : String) : IO Files := do
  let mut files := files
  let mut path : Path := if isAbsolute written then [] else files.home
  for part in pathParts written do
    if files.node? path = some .directory then
      path := files.place (path.text ++ "/" ++ part)
      if (files.node? path).isNone then
        if let some node ← node? path.text then
          files := files.write path.text node
  return files

/-- The scripts among the files, with the files that they name. -/
def scripts (files : Files) : List (Path × List String) :=
  files.nodes.filterMap fun (path, node) =>
    match node with
    | .text source =>
      match parse source with
      | .ok b => some (path, blockReferences b)
      | .error _ => none
    | _ => none

/-- Fetches until nothing new is named. -/
partial def close (files : Files) (named : List String) : IO Files := do
  let found := scripts files
  let names := (named ++ found.flatMap (·.2)).eraseDups
  let contexts := Context.inMemory files .working ::
    found.map fun s => Context.atPath files .working s.1
  let mut next := files
  for c in contexts do
    for name in names do
      next ← fetch next (c.locate name)
  if next.nodes.length = files.nodes.length then
    return next
  else
    close next named

def home : IO Files := do
  return ⟨(pathParts (← IO.currentDir).toString).filter (· ≠ ""), []⟩

end Script.Disk

namespace Script.Terminal

/-- Reads lines and answers them, each with the files as they are then. -/
partial def talk (r : Repl) (named : List String) : IO Unit := do
  let stdin ← IO.getStdin
  let stdout ← IO.getStdout
  stdout.putStr r.prompt
  stdout.flush
  let line ← try some <$> stdin.getLine catch _ => pure none
  match line with
  | none => IO.eprintln ("Error reading input: " ++ Unreadable.notText.message)
  | some "" => stdout.putStr "\n"
  | some line =>
    let named := named ++ ((parse (r.pending ++ line)).toOption.elim [] blockReferences)
    let files ← Disk.close (← Disk.home) named
    let answer := r.read (.inMemory files .working) line
    stdout.putStr answer.stdout
    stdout.flush
    IO.eprint answer.stderr
    if let some next := answer.next then
      talk next named

def run (args : List String) : IO UInt32 := do
  match CommandLine.command args with
  | .repl =>
    (← IO.getStdout).putStr Repl.banner
    talk .start []
    return 0
  | command =>
    let files ← match command with
      | .run script _ => do Disk.close (← Disk.fetch (← Disk.home) script) []
      | _ => Disk.home
    let o := CommandLine.outcome args [] files
    (← IO.getStdout).putStr o.stdout
    IO.eprint o.stderr
    return o.exit

end Script.Terminal

def main (args : List String) : IO UInt32 :=
  Script.Terminal.run args
