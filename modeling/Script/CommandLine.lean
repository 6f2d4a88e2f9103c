import Script.Repl

/-! The program as a function of its arguments. -/

namespace Script.CommandLine

/-- What the arguments of the program ask for. -/
inductive Command
  | run (script : String) (pretty : Bool)
  | repl
  | version
  | help (text : String)
  | misuse
deriving DecidableEq

def mainHelp : String :=
  "Interpreter for the EasyScript language\n\n" ++
  "Usage: easyscript <COMMAND>\n\n" ++
  "Commands:\n" ++
  "  run   Run a script file\n" ++
  "  repl  Start an interactive session\n" ++
  "  help  Print this message or the help of the given subcommand(s)\n\n" ++
  "Options:\n" ++
  "  -h, --help     Print help\n" ++
  "  -V, --version  Print version\n"

def runHelp : String :=
  "Run a script file\n\n" ++
  "Usage: easyscript run [OPTIONS] <SCRIPT>\n\n" ++
  "Arguments:\n" ++
  "  <SCRIPT>  The script file to execute\n\n" ++
  "Options:\n" ++
  "      --pretty  Render errors with labeled source snippets\n" ++
  "  -h, --help    Print help\n"

def replHelp : String :=
  "Start an interactive session\n\n" ++
  "Usage: easyscript repl\n\n" ++
  "Options:\n" ++
  "  -h, --help  Print help\n"

def helpHelp : String :=
  "Print this message or the help of the given subcommand(s)\n\n" ++
  "Usage: easyscript help [COMMAND]\n\n" ++
  "Arguments:\n" ++
  "  [COMMAND]...  Print help for the subcommand(s)\n"

/-- An argument that starts with a dash and is more than that is an option. -/
def isOption (arg : String) : Bool :=
  arg.toList.head? = some '-' ∧ 1 < arg.length

/-- Short options may stand together; the first one decides. -/
def asksHelp (arg : String) : Bool :=
  arg = "--help" ∨ arg.toList.take 2 = ['-', 'h']

def asksVersion (arg : String) : Bool :=
  arg = "--version" ∨ arg.toList.take 2 = ['-', 'V']

/-- The script and the switch of `run`. Nothing may be given twice. -/
def runCommand (script : Option String) (pretty : Bool) : List String → Command
  | [] => script.elim .misuse (.run · pretty)
  | "--" :: rest =>
    match script, rest with
    | some s, [] => .run s pretty
    | none, [s] => .run s pretty
    | _, _ => .misuse
  | arg :: rest =>
    if asksHelp arg then .help runHelp
    else if arg = "--pretty" then
      if pretty then .misuse else runCommand script true rest
    else if isOption arg then .misuse
    else if script.isSome then .misuse
    else runCommand (some arg) pretty rest

def replCommand : List String → Command
  | [] => .repl
  | ["--"] => .repl
  | arg :: _ => if asksHelp arg then .help replHelp else .misuse

def helpCommand : List String → Command
  | [] => .help mainHelp
  | ["run"] => .help runHelp
  | ["repl"] => .help replHelp
  | ["help"] => .help helpHelp
  | _ => .misuse

def command : List String → Command
  | "run" :: rest => runCommand none false rest
  | "repl" :: rest => replCommand rest
  | "help" :: rest => helpCommand rest
  | arg :: _ =>
    if asksHelp arg then .help mainHelp
    else if asksVersion arg then .version
    else .misuse
  | [] => .misuse

/-- What a run of the program ends with. -/
structure Outcome where
  exit : UInt32
  stdout : String
  stderr : String

/-- The program as a function of its arguments, its input and the files. -/
def outcome (args : List String) (input : List UInt8) (files : Files) : Outcome :=
  match command args with
  | .run script pretty =>
    let t := Session.runFile files script pretty
    ⟨if t.ok then 0 else 1, t.stdout, t.stderr⟩
  | .repl =>
    let t := Repl.runAll files input
    ⟨0, t.stdout, t.stderr⟩
  | .version => ⟨0, "easyscript 0.1.0\n", ""⟩
  | .help text => ⟨0, text, ""⟩
  | .misuse => ⟨2, "", mainHelp⟩

end Script.CommandLine
