import Script.Syntax

/-! The files that a script names. -/

namespace Script

mutual

/-- The files that a statement names, in whatever block or body. -/
def Stmt.references : Stmt → List String
  | .imports file _ _ | .load file _ _ => [file]
  | .branch branches otherwise _ =>
    branchReferences branches ++
      match otherwise with
      | some b => blockReferences b
      | none => []
  | .loop _ body _ | .iterate _ body _ => blockReferences body
  | .function decl _ | .init decl _ => decl.references
  | .cls _ _ members _ => memberReferences members
  | _ => []

def Decl.references : Decl → List String
  | ⟨_, _, body, _⟩ => blockReferences body

def Member.references : Member → List String
  | .property .. => []
  | .method decl | .constructor decl => decl.references

def blockReferences : List Stmt → List String
  | [] => []
  | s :: rest => s.references ++ blockReferences rest

def branchReferences : List (Expr × List Stmt) → List String
  | [] => []
  | (_, b) :: rest => blockReferences b ++ branchReferences rest

def memberReferences : List Member → List String
  | [] => []
  | m :: rest => m.references ++ memberReferences rest

end

end Script
