import Script.Proofs.Cycles
import Script.References

/-! The statements that a tree is made of, those in the bodies of its declarations included. -/

namespace Script

/-- The declaration that a member of a class is. -/
def Member.decl? : Member → Option Decl
  | .property .. => none
  | .method d | .constructor d => some d

/-- The declarations that a statement makes. -/
def Stmt.decls : Stmt → List Decl
  | .function d _ | .init d _ => [d]
  | .cls _ _ members _ => members.filterMap Member.decl?
  | _ => []

mutual

/-- The statement and those in it, in whatever block or body. -/
def Stmt.parts : Stmt → List Stmt
  | .branch branches otherwise s =>
    .branch branches otherwise s :: (branchParts branches ++ otherwiseParts otherwise)
  | .loop e body s => .loop e body s :: blockParts body
  | .iterate header body s => .iterate header body s :: blockParts body
  | .function decl s => .function decl s :: decl.parts
  | .init decl s => .init decl s :: decl.parts
  | .cls name parent members s => .cls name parent members s :: memberParts members
  | x => [x]

def Decl.parts : Decl → List Stmt
  | ⟨_, _, body, _⟩ => blockParts body

def Member.parts : Member → List Stmt
  | .property .. => []
  | .method decl | .constructor decl => decl.parts

def blockParts : List Stmt → List Stmt
  | [] => []
  | x :: rest => x.parts ++ blockParts rest

def branchParts : List (Expr × List Stmt) → List Stmt
  | [] => []
  | (_, b) :: rest => blockParts b ++ branchParts rest

def otherwiseParts : Option (List Stmt) → List Stmt
  | none => []
  | some b => blockParts b

def memberParts : List Member → List Stmt
  | [] => []
  | m :: rest => m.parts ++ memberParts rest

end

theorem Stmt.mem_parts (x : Stmt) : x ∈ x.parts := by
  cases x <;> simp [Stmt.parts]

theorem blockParts_of_mem {b : List Stmt} {x y : Stmt} (member : x ∈ b) (part : y ∈ x.parts) :
    y ∈ blockParts b := by
  induction b with
  | nil => cases member
  | cons z b ih =>
    rw [blockParts, List.mem_append]
    rcases List.mem_cons.1 member with rfl | later
    · exact .inl part
    · exact .inr (ih later)

theorem memberParts_of_mem {ms : List Member} {m : Member} {y : Stmt} (member : m ∈ ms)
    (part : y ∈ m.parts) : y ∈ memberParts ms := by
  induction ms with
  | nil => cases member
  | cons n ms ih =>
    rw [memberParts, List.mem_append]
    rcases List.mem_cons.1 member with rfl | later
    · exact .inl part
    · exact .inr (ih later)

/-- What stands in the body of a declaration stands in the statement that makes it. -/
theorem Stmt.parts_of_decl (x : Stmt) {d : Decl} {y : Stmt} (member : d ∈ x.decls)
    (part : y ∈ blockParts d.body) : y ∈ x.parts := by
  have part : y ∈ d.parts := by
    cases d
    exact part
  cases x with
  | function e s =>
    cases List.mem_singleton.1 member
    exact List.mem_cons_of_mem _ part
  | init e s =>
    cases List.mem_singleton.1 member
    exact List.mem_cons_of_mem _ part
  | cls name parent ms s =>
    obtain ⟨m, among, is⟩ := List.mem_filterMap.1 member
    apply List.mem_cons_of_mem
    apply memberParts_of_mem among
    cases m with
    | property name e s => cases is
    | method e =>
      cases is
      exact part
    | constructor e =>
      cases is
      exact part
  | _ => cases member

mutual

/-- The file that a part runs is one that the statement names. -/
theorem Stmt.references_of_part {y : Stmt} {file : String} (x : Stmt) (part : y ∈ x.parts)
    (runs : y.file? = some file) : file ∈ x.references := by
  cases x with
  | branch bs o s =>
    simp only [Stmt.parts, List.mem_cons, List.mem_append] at part
    rcases part with rfl | part
    · cases runs
    · cases o with
      | none =>
        simp only [otherwiseParts, List.not_mem_nil, or_false] at part
        simp only [Stmt.references, List.append_nil]
        exact branchReferences_of_part bs part runs
      | some b =>
        simp only [otherwiseParts] at part
        simp only [Stmt.references, List.mem_append]
        exact part.imp (branchReferences_of_part bs · runs) (blockReferences_of_part b · runs)
  | loop e b s =>
    rcases List.mem_cons.1 part with rfl | part
    · cases runs
    · exact blockReferences_of_part b part runs
  | iterate header b s =>
    rcases List.mem_cons.1 part with rfl | part
    · cases runs
    · exact blockReferences_of_part b part runs
  | function d s =>
    rcases List.mem_cons.1 part with rfl | part
    · cases runs
    · exact Decl.references_of_part d part runs
  | init d s =>
    rcases List.mem_cons.1 part with rfl | part
    · cases runs
    · exact Decl.references_of_part d part runs
  | cls name parent ms s =>
    rcases List.mem_cons.1 part with rfl | part
    · cases runs
    · exact memberReferences_of_part ms part runs
  | imports written items s =>
    cases List.mem_singleton.1 part
    cases runs
    exact List.mem_cons_self
  | load written name s =>
    cases List.mem_singleton.1 part
    cases runs
    exact List.mem_cons_self
  | _ =>
    cases List.mem_singleton.1 part
    cases runs

theorem Decl.references_of_part {y : Stmt} {file : String} (d : Decl) (part : y ∈ d.parts)
    (runs : y.file? = some file) : file ∈ d.references := by
  obtain ⟨name, params, body, span⟩ := d
  exact blockReferences_of_part body part runs

theorem memberReferences_of_part {y : Stmt} {file : String} (ms : List Member)
    (part : y ∈ memberParts ms) (runs : y.file? = some file) : file ∈ memberReferences ms := by
  match ms with
  | [] => cases part
  | m :: rest =>
    rw [memberReferences, List.mem_append]
    rcases List.mem_append.1 part with part | part
    · cases m with
      | property name e s => cases part
      | method d => exact .inl (Decl.references_of_part d part runs)
      | constructor d => exact .inl (Decl.references_of_part d part runs)
    · exact .inr (memberReferences_of_part rest part runs)

theorem blockReferences_of_part {y : Stmt} {file : String} (b : List Stmt)
    (part : y ∈ blockParts b) (runs : y.file? = some file) : file ∈ blockReferences b := by
  match b with
  | [] => cases part
  | x :: rest =>
    rw [blockReferences, List.mem_append]
    exact (List.mem_append.1 part).imp (Stmt.references_of_part x · runs)
      (blockReferences_of_part rest · runs)

theorem branchReferences_of_part {y : Stmt} {file : String} (bs : List (Expr × List Stmt))
    (part : y ∈ branchParts bs) (runs : y.file? = some file) : file ∈ branchReferences bs := by
  match bs with
  | [] => cases part
  | (e, b) :: rest =>
    rw [branchReferences, List.mem_append]
    exact (List.mem_append.1 part).imp (blockReferences_of_part b · runs)
      (branchReferences_of_part rest · runs)

end

mutual

/-- What stands in a part stands in the whole. -/
theorem Stmt.parts_of_part {y z : Stmt} (x : Stmt) (part : y ∈ x.parts) (inner : z ∈ y.parts) :
    z ∈ x.parts := by
  cases x with
  | branch bs o s =>
    rcases List.mem_cons.1 part with rfl | part
    · exact inner
    refine List.mem_cons_of_mem _ (List.mem_append.2 ?_)
    rcases List.mem_append.1 part with part | part
    · exact .inl (branchParts_of_part bs part inner)
    · cases o with
      | none => cases part
      | some b => exact .inr (blockParts_of_part b part inner)
  | loop e b s =>
    rcases List.mem_cons.1 part with rfl | part
    · exact inner
    · exact List.mem_cons_of_mem _ (blockParts_of_part b part inner)
  | iterate header b s =>
    rcases List.mem_cons.1 part with rfl | part
    · exact inner
    · exact List.mem_cons_of_mem _ (blockParts_of_part b part inner)
  | function d s =>
    rcases List.mem_cons.1 part with rfl | part
    · exact inner
    · exact List.mem_cons_of_mem _ (Decl.parts_of_part d part inner)
  | init d s =>
    rcases List.mem_cons.1 part with rfl | part
    · exact inner
    · exact List.mem_cons_of_mem _ (Decl.parts_of_part d part inner)
  | cls name parent ms s =>
    rcases List.mem_cons.1 part with rfl | part
    · exact inner
    · exact List.mem_cons_of_mem _ (memberParts_of_part ms part inner)
  | _ =>
    cases List.mem_singleton.1 part
    exact inner

theorem Decl.parts_of_part {y z : Stmt} (d : Decl) (part : y ∈ d.parts) (inner : z ∈ y.parts) :
    z ∈ d.parts := by
  obtain ⟨name, params, body, span⟩ := d
  exact blockParts_of_part body part inner

theorem memberParts_of_part {y z : Stmt} (ms : List Member) (part : y ∈ memberParts ms)
    (inner : z ∈ y.parts) : z ∈ memberParts ms := by
  match ms with
  | [] => cases part
  | m :: rest =>
    refine List.mem_append.2 ?_
    rcases List.mem_append.1 part with part | part
    · cases m with
      | property name e s => cases part
      | method d => exact .inl (Decl.parts_of_part d part inner)
      | constructor d => exact .inl (Decl.parts_of_part d part inner)
    · exact .inr (memberParts_of_part rest part inner)

theorem blockParts_of_part {y z : Stmt} (b : List Stmt) (part : y ∈ blockParts b)
    (inner : z ∈ y.parts) : z ∈ blockParts b := by
  match b with
  | [] => cases part
  | x :: rest =>
    exact List.mem_append.2 ((List.mem_append.1 part).imp (Stmt.parts_of_part x · inner)
      (blockParts_of_part rest · inner))

theorem branchParts_of_part {y z : Stmt} (bs : List (Expr × List Stmt)) (part : y ∈ branchParts bs)
    (inner : z ∈ y.parts) : z ∈ branchParts bs := by
  match bs with
  | [] => cases part
  | (e, b) :: rest =>
    exact List.mem_append.2 ((List.mem_append.1 part).imp (blockParts_of_part b · inner)
      (branchParts_of_part rest · inner))

end

end Script
