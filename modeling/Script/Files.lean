/-! A tree of files as a value, and how paths lead through it. -/

namespace Script

/-- What stands at a path: a text, bytes that are no text, or a directory. -/
inductive Node
  | text (content : String)
  | bytes
  | directory
deriving DecidableEq

/-- An absolute path by its parts, none of which is empty or made of points only. -/
abbrev Path := List String

def Path.text (p : Path) : String :=
  "/" ++ "/".intercalate p

/-- The parts of a path as written. -/
def pathParts (path : String) : List String :=
  (path.toList.splitOn '/').map String.ofList

def isAbsolute (path : String) : Bool :=
  path.toList.head? = some '/'

/-- Why a file cannot be read as text. -/
inductive Unreadable
  | directory
  | notText
  | missing
deriving DecidableEq

def Unreadable.message : Unreadable → String
  | directory => "Is a directory (os error 21)"
  | notText => "stream did not contain valid UTF-8"
  | missing => "No such file or directory (os error 2)"

/-- Files, and the directory that relative paths start from. -/
structure Files where
  home : Path
  nodes : List (Path × Node)

namespace Files

/-- What stands at a path. Whatever leads to a file or to the home directory is a directory. -/
def node? (fs : Files) (p : Path) : Option Node :=
  (fs.nodes.lookup p).or
    (if p.isPrefixOf fs.home || fs.nodes.any fun e => p.isPrefixOf e.1 then some .directory
     else none)

/-- Goes on from a directory by one part of a path. -/
def step (fs : Files) (here : Path) (part : String) : Option Path :=
  if fs.node? here ≠ some .directory then none
  else if part = "" ∨ part = "." then some here
  else if part = ".." then some here.dropLast
  else if (fs.node? (here ++ [part])).isSome then some (here ++ [part])
  else none

/-- The path that a written path leads to, if all of it exists. -/
def resolve (fs : Files) (path : String) : Option Path :=
  if path = "" then none
  else (pathParts path).foldlM fs.step (if isAbsolute path then [] else fs.home)

def read (fs : Files) (p : Path) : Except Unreadable String :=
  match fs.node? p with
  | some (.text content) => .ok content
  | some .bytes => .error .notText
  | some .directory => .error .directory
  | none => .error .missing

/-- The path that a written path spells, whether it exists or not. -/
def place (fs : Files) (path : String) : Path :=
  (pathParts path).foldl
    (fun here part =>
      if part = "" ∨ part = "." then here
      else if part = ".." then here.dropLast
      else here ++ [part])
    (if isAbsolute path then [] else fs.home)

def write (fs : Files) (path : String) (node : Node) : Files :=
  let p := fs.place path
  { fs with nodes := (p, node) :: fs.nodes.filter (·.1 ≠ p) }

end Files

end Script
