import Script.References

/-! The places of a tree: those of all its nodes, and among them those of its declarations, which a
run may come back to after it has left the tree. -/

namespace Script

mutual

def Expr.spans : Expr → List Span
  | .literal _ s | .name _ s => [s]
  | .binary _ l r s | .logic _ l r s | .index l r s => s :: (l.spans ++ r.spans)
  | .negate e s | .property e _ s | .group e s => s :: e.spans
  | .call _ args s | .create _ args s | .list args s => s :: spansOfAll args
  | .method e _ args s => s :: (e.spans ++ spansOfAll args)
  | .object entries s => s :: spansOfEntries entries

def spansOfAll : List Expr → List Span
  | [] => []
  | e :: es => e.spans ++ spansOfAll es

def spansOfEntries : List (String × Expr) → List Span
  | [] => []
  | (_, e) :: es => e.spans ++ spansOfEntries es

end

def Target.spans : Target → List Span
  | .name _ => []
  | .index object key => object.spans ++ key.spans
  | .property object _ => object.spans

def Header.spans : Header → List Span
  | .range _ start stop => start.spans ++ stop.spans
  | .each _ source | .pairs _ _ source => source.spans

mutual

def Stmt.spans : Stmt → List Span
  | .expression e s | .print e s => s :: e.spans
  | .assign target e s => s :: (target.spans ++ e.spans)
  | .branch branches otherwise s => s :: (branchSpans branches ++ otherwiseSpans otherwise)
  | .loop e body s => s :: (e.spans ++ blockSpans body)
  | .iterate header body s => s :: (header.spans ++ blockSpans body)
  | .leave s | .give none s | .share _ s | .imports _ _ s | .load _ _ s => [s]
  | .give (some e) s => s :: e.spans
  | .function decl s | .init decl s => s :: decl.spans
  | .cls _ _ members s => s :: memberSpans members
  | .super args s => s :: spansOfAll args

def Decl.spans : Decl → List Span
  | ⟨_, _, body, s⟩ => s :: blockSpans body

def Member.spans : Member → List Span
  | .property _ e s => s :: e.spans
  | .method decl | .constructor decl => decl.spans

def blockSpans : List Stmt → List Span
  | [] => []
  | s :: rest => s.spans ++ blockSpans rest

def branchSpans : List (Expr × List Stmt) → List Span
  | [] => []
  | (e, b) :: rest => e.spans ++ (blockSpans b ++ branchSpans rest)

def otherwiseSpans : Option (List Stmt) → List Span
  | none => []
  | some b => blockSpans b

def memberSpans : List Member → List Span
  | [] => []
  | m :: rest => m.spans ++ memberSpans rest

end

/-- The places of the declaration that a member is. -/
def Member.declared : Member → List Span
  | .property .. => []
  | .method decl | .constructor decl => decl.spans

mutual

/-- The places of the declarations in a statement. -/
def Stmt.declared : Stmt → List Span
  | .branch branches otherwise _ => branchDeclared branches ++ otherwiseDeclared otherwise
  | .loop _ body _ | .iterate _ body _ => blockDeclared body
  | .function decl _ | .init decl _ => decl.spans
  | .cls _ _ members _ => members.flatMap Member.declared
  | _ => []

def blockDeclared : List Stmt → List Span
  | [] => []
  | s :: rest => s.declared ++ blockDeclared rest

def branchDeclared : List (Expr × List Stmt) → List Span
  | [] => []
  | (_, b) :: rest => blockDeclared b ++ branchDeclared rest

def otherwiseDeclared : Option (List Stmt) → List Span
  | none => []
  | some b => blockDeclared b

end

theorem Expr.span_mem (e : Expr) : e.span ∈ e.spans := by
  cases e <;> exact List.mem_cons_self

theorem Stmt.span_mem (x : Stmt) : x.span ∈ x.spans := by
  cases x with
  | give value s => cases value <;> simp [Stmt.spans, Stmt.span]
  | _ => simp [Stmt.spans, Stmt.span]

section Lists

variable {R : Span → Prop}

theorem forall_spansOfAll {es : List Expr} :
    (∀ p ∈ spansOfAll es, R p) ↔ ∀ e ∈ es, ∀ p ∈ e.spans, R p := by
  induction es with
  | nil => simp [spansOfAll]
  | cons e es ih => simp only [spansOfAll, List.forall_mem_append, List.forall_mem_cons, ih]

theorem forall_spansOfEntries {es : List (String × Expr)} :
    (∀ p ∈ spansOfEntries es, R p) ↔ ∀ e ∈ es, ∀ p ∈ e.2.spans, R p := by
  induction es with
  | nil => simp [spansOfEntries]
  | cons e es ih => simp only [spansOfEntries, List.forall_mem_append, List.forall_mem_cons, ih]

theorem forall_blockSpans {b : List Stmt} :
    (∀ p ∈ blockSpans b, R p) ↔ ∀ x ∈ b, ∀ p ∈ x.spans, R p := by
  induction b with
  | nil => simp [blockSpans]
  | cons x b ih => simp only [blockSpans, List.forall_mem_append, List.forall_mem_cons, ih]

theorem forall_memberSpans {ms : List Member} :
    (∀ p ∈ memberSpans ms, R p) ↔ ∀ m ∈ ms, ∀ p ∈ m.spans, R p := by
  induction ms with
  | nil => simp [memberSpans]
  | cons m ms ih => simp only [memberSpans, List.forall_mem_append, List.forall_mem_cons, ih]

end Lists

theorem Member.declared_sub {m : Member} {p : Span} (member : p ∈ m.declared) : p ∈ m.spans := by
  cases m with
  | property x e s => cases member
  | method d => exact member
  | constructor d => exact member

mutual

/-- The declarations are among the nodes. -/
theorem Stmt.declared_sub {p : Span} (x : Stmt) (member : p ∈ x.declared) : p ∈ x.spans := by
  cases x <;> simp only [Stmt.declared, Stmt.spans, List.mem_cons, List.mem_append,
    List.not_mem_nil] at member ⊢
  case branch bs o s =>
    exact .inr (member.imp (branchDeclared_sub bs) (otherwiseDeclared_sub o))
  case loop e b s => exact .inr (.inr (blockDeclared_sub b member))
  case iterate header b s => exact .inr (.inr (blockDeclared_sub b member))
  case function d s => exact .inr member
  case init d s => exact .inr member
  case cls x parent ms s =>
    obtain ⟨m, listed, declared⟩ := List.mem_flatMap.1 member
    have inside : ∀ q ∈ memberSpans ms, q ∈ memberSpans ms := fun q within => within
    exact .inr (forall_memberSpans.1 inside m listed p (Member.declared_sub declared))

theorem blockDeclared_sub {p : Span} (b : List Stmt) (member : p ∈ blockDeclared b) :
    p ∈ blockSpans b := by
  cases b with
  | nil => cases member
  | cons x b =>
    exact List.mem_append.2
      ((List.mem_append.1 member).imp (Stmt.declared_sub x) (blockDeclared_sub b))

theorem branchDeclared_sub {p : Span} (bs : List (Expr × List Stmt))
    (member : p ∈ branchDeclared bs) : p ∈ branchSpans bs := by
  match bs with
  | [] => cases member
  | (e, b) :: rest =>
    have inside := (List.mem_append.1 member).imp (blockDeclared_sub b) (branchDeclared_sub rest)
    exact List.mem_append_right _ (List.mem_append.2 inside)

theorem otherwiseDeclared_sub {p : Span} (o : Option (List Stmt))
    (member : p ∈ otherwiseDeclared o) : p ∈ otherwiseSpans o := by
  match o with
  | none => cases member
  | some b => exact blockDeclared_sub b member

end

end Script
