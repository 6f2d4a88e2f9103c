import Script.Fault
import Script.Text.Line

/-! Reports of errors. -/

namespace Script

namespace Report

/-- The source line that a place is on, empty if there is none. -/
def line (source : String) (place : Span) : List Char :=
  ((Text.lines source.toList)[place.line - 1]?).getD []

/-- Blanks up to the column of a place. Tabs stay, so that what follows stands below it. -/
def padding (source : String) (place : Span) : List Char :=
  ((line source place).take (place.column - 1)).map fun c => if c = '\t' then '\t' else ' '

/-- A message with its place, and the line with a caret below. -/
def render (source file : String) (place : Span) (message : String) : String :=
  "[Error]\nFile: " ++ file ++ ", Position: " ++ Nat.repr place.line ++ ":" ++
    Nat.repr place.column ++ "\n\n" ++ String.ofList (line source place) ++ "\n" ++
    String.ofList (padding source place) ++ "^\n\n-> " ++ message

end Report

namespace Error

def render (e : Error) (source file : String) : String :=
  Report.render source file e.span e.message

def title (e : Error) : String :=
  match e.stage with
  | .lexing => "Lexical Error"
  | .parsing => "Parse Error"
  | .running => "Runtime Error"
  | .loading => "Module Error"

/-- The report with the stage of the error, the whole stretch marked, and help if there is any. -/
def renderPretty (e : Error) (source file : String) : String :=
  let number := Nat.repr e.span.line
  let margin := String.ofList (List.replicate number.length ' ')
  let marks := String.ofList (List.replicate (max 1 (e.span.stop - e.span.start)) '^')
  "Error: " ++ e.title ++ ": " ++ e.message ++ "\n" ++
    margin ++ "--> " ++ file ++ ":" ++ number ++ ":" ++ Nat.repr e.span.column ++ "\n" ++
    margin ++ " |\n" ++
    number ++ " | " ++ String.ofList (Report.line source e.span) ++ "\n" ++
    margin ++ " | " ++ String.ofList (Report.padding source e.span) ++ marks ++
    (e.help.elim "" fun text => "\n" ++ margin ++ " = help: " ++ text)

end Error

end Script
