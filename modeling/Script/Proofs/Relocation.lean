import Script.Parser.Statement

/-! Trees with all their spans changed by one function. Two trees that agree once every span is
forgotten are the same program. -/

namespace Script

mutual

def Expr.relocate (f : Span → Span) : Expr → Expr
  | .literal v s => .literal v (f s)
  | .name x s => .name x (f s)
  | .binary op l r s => .binary op (l.relocate f) (r.relocate f) (f s)
  | .negate e s => .negate (e.relocate f) (f s)
  | .logic op l r s => .logic op (l.relocate f) (r.relocate f) (f s)
  | .call x args s => .call x (relocateAll f args) (f s)
  | .method e x args s => .method (e.relocate f) x (relocateAll f args) (f s)
  | .property e x s => .property (e.relocate f) x (f s)
  | .index e k s => .index (e.relocate f) (k.relocate f) (f s)
  | .group e s => .group (e.relocate f) (f s)
  | .list items s => .list (relocateAll f items) (f s)
  | .object entries s => .object (relocateEntries f entries) (f s)
  | .create cls args s => .create cls (relocateAll f args) (f s)

def relocateAll (f : Span → Span) : List Expr → List Expr
  | [] => []
  | e :: es => e.relocate f :: relocateAll f es

def relocateEntries (f : Span → Span) : List (String × Expr) → List (String × Expr)
  | [] => []
  | (k, e) :: rest => (k, e.relocate f) :: relocateEntries f rest

end

def Target.relocate (f : Span → Span) : Target → Target
  | .name x => .name x
  | .index e k => .index (e.relocate f) (k.relocate f)
  | .property e x => .property (e.relocate f) x

def Header.relocate (f : Span → Span) : Header → Header
  | .range x a b => .range x (a.relocate f) (b.relocate f)
  | .each x e => .each x (e.relocate f)
  | .pairs k v e => .pairs k v (e.relocate f)

mutual

def Stmt.relocate (f : Span → Span) : Stmt → Stmt
  | .expression e s => .expression (e.relocate f) (f s)
  | .print e s => .print (e.relocate f) (f s)
  | .assign t e s => .assign (t.relocate f) (e.relocate f) (f s)
  | .branch bs otherwise s =>
    .branch (relocateBranches f bs) (relocateOtherwise f otherwise) (f s)
  | .loop e b s => .loop (e.relocate f) (relocateBlock f b) (f s)
  | .iterate h b s => .iterate (h.relocate f) (relocateBlock f b) (f s)
  | .leave s => .leave (f s)
  | .give none s => .give none (f s)
  | .give (some e) s => .give (some (e.relocate f)) (f s)
  | .function d s => .function (d.relocate f) (f s)
  | .init d s => .init (d.relocate f) (f s)
  | .cls x parent ms s => .cls x parent (relocateMembers f ms) (f s)
  | .super args s => .super (relocateAll f args) (f s)
  | .share names s => .share names (f s)
  | .imports file items s => .imports file items (f s)
  | .load file x s => .load file x (f s)

def Decl.relocate (f : Span → Span) : Decl → Decl
  | ⟨x, params, body, s⟩ => ⟨x, params, relocateBlock f body, f s⟩

def Member.relocate (f : Span → Span) : Member → Member
  | .property x e s => .property x (e.relocate f) (f s)
  | .method d => .method (d.relocate f)
  | .constructor d => .constructor (d.relocate f)

def relocateBlock (f : Span → Span) : List Stmt → List Stmt
  | [] => []
  | s :: rest => s.relocate f :: relocateBlock f rest

def relocateBranches (f : Span → Span) : List (Expr × List Stmt) → List (Expr × List Stmt)
  | [] => []
  | (e, b) :: rest => (e.relocate f, relocateBlock f b) :: relocateBranches f rest

def relocateOtherwise (f : Span → Span) : Option (List Stmt) → Option (List Stmt)
  | none => none
  | some b => some (relocateBlock f b)

def relocateMembers (f : Span → Span) : List Member → List Member
  | [] => []
  | m :: rest => m.relocate f :: relocateMembers f rest

end

@[simp] theorem relocateAll_eq_map (f : Span → Span) (es : List Expr) :
    relocateAll f es = es.map (Expr.relocate f) := by
  induction es with
  | nil => rfl
  | cons e es ih => simp [relocateAll, ih]

@[simp] theorem relocateEntries_eq_map (f : Span → Span) (entries : List (String × Expr)) :
    relocateEntries f entries = entries.map fun e => (e.1, e.2.relocate f) := by
  induction entries with
  | nil => rfl
  | cons e entries ih => simp [relocateEntries, ih]

@[simp] theorem relocateBlock_eq_map (f : Span → Span) (b : Block) :
    relocateBlock f b = b.map (Stmt.relocate f) := by
  induction b with
  | nil => rfl
  | cons s b ih => simp [relocateBlock, ih]

@[simp] theorem relocateBranches_eq_map (f : Span → Span) (bs : List (Expr × Block)) :
    relocateBranches f bs = bs.map fun b => (b.1.relocate f, b.2.map (Stmt.relocate f)) := by
  induction bs with
  | nil => rfl
  | cons b bs ih => simp [relocateBranches, ih]

@[simp] theorem relocateOtherwise_eq_map (f : Span → Span) (otherwise : Option Block) :
    relocateOtherwise f otherwise = otherwise.map (List.map (Stmt.relocate f)) := by
  cases otherwise <;> simp [relocateOtherwise]

@[simp] theorem relocateMembers_eq_map (f : Span → Span) (ms : List Member) :
    relocateMembers f ms = ms.map (Member.relocate f) := by
  induction ms with
  | nil => rfl
  | cons m ms ih => simp [relocateMembers, ih]

@[simp] theorem Expr.span_relocate (f : Span → Span) (e : Expr) :
    (e.relocate f).span = f e.span := by
  cases e <;> rfl

@[simp] theorem Stmt.span_relocate (f : Span → Span) (s : Stmt) :
    (s.relocate f).span = f s.span := by
  cases s with
  | give value s => cases value <;> rfl
  | _ => rfl

@[simp] theorem Decl.name_relocate (f : Span → Span) (d : Decl) : (d.relocate f).name = d.name := by
  cases d
  rfl

@[simp] theorem Decl.params_relocate (f : Span → Span) (d : Decl) :
    (d.relocate f).params = d.params := by
  cases d
  rfl

@[simp] theorem Decl.body_relocate (f : Span → Span) (d : Decl) :
    (d.relocate f).body = d.body.map (Stmt.relocate f) := by
  cases d
  exact relocateBlock_eq_map f _

@[simp] theorem Decl.span_relocate (f : Span → Span) (d : Decl) :
    (d.relocate f).span = f d.span := by
  cases d
  rfl

mutual

theorem Expr.relocate_id : (e : Expr) → e.relocate id = e
  | .literal v s => rfl
  | .name x s => rfl
  | .binary op l r s => by simp only [Expr.relocate, Expr.relocate_id l, Expr.relocate_id r, id]
  | .negate e s => by simp only [Expr.relocate, Expr.relocate_id e, id]
  | .logic op l r s => by simp only [Expr.relocate, Expr.relocate_id l, Expr.relocate_id r, id]
  | .call x args s => by simp only [Expr.relocate, relocateAll_id args, id]
  | .method e x args s => by simp only [Expr.relocate, Expr.relocate_id e, relocateAll_id args, id]
  | .property e x s => by simp only [Expr.relocate, Expr.relocate_id e, id]
  | .index e k s => by simp only [Expr.relocate, Expr.relocate_id e, Expr.relocate_id k, id]
  | .group e s => by simp only [Expr.relocate, Expr.relocate_id e, id]
  | .list items s => by simp only [Expr.relocate, relocateAll_id items, id]
  | .object entries s => by simp only [Expr.relocate, relocateEntries_id entries, id]
  | .create cls args s => by simp only [Expr.relocate, relocateAll_id args, id]

theorem relocateAll_id : (es : List Expr) → relocateAll id es = es
  | [] => rfl
  | e :: es => by simp only [relocateAll, Expr.relocate_id e, relocateAll_id es]

theorem relocateEntries_id : (entries : List (String × Expr)) → relocateEntries id entries = entries
  | [] => rfl
  | (k, e) :: rest => by simp only [relocateEntries, Expr.relocate_id e, relocateEntries_id rest]

end

theorem Target.relocate_id (t : Target) : t.relocate id = t := by
  cases t <;> simp only [Target.relocate, Expr.relocate_id]

theorem Header.relocate_id (h : Header) : h.relocate id = h := by
  cases h <;> simp only [Header.relocate, Expr.relocate_id]

mutual

theorem Stmt.relocate_id : (s : Stmt) → s.relocate id = s
  | .expression e s => by simp only [Stmt.relocate, Expr.relocate_id e, id]
  | .print e s => by simp only [Stmt.relocate, Expr.relocate_id e, id]
  | .assign t e s => by simp only [Stmt.relocate, Target.relocate_id t, Expr.relocate_id e, id]
  | .branch bs otherwise s => by
    simp only [Stmt.relocate, relocateBranches_id bs, relocateOtherwise_id otherwise, id]
  | .loop e b s => by simp only [Stmt.relocate, Expr.relocate_id e, relocateBlock_id b, id]
  | .iterate h b s => by simp only [Stmt.relocate, Header.relocate_id h, relocateBlock_id b, id]
  | .leave s => rfl
  | .give none s => rfl
  | .give (some e) s => by simp only [Stmt.relocate, Expr.relocate_id e, id]
  | .function d s => by simp only [Stmt.relocate, Decl.relocate_id d, id]
  | .init d s => by simp only [Stmt.relocate, Decl.relocate_id d, id]
  | .cls x parent ms s => by simp only [Stmt.relocate, relocateMembers_id ms, id]
  | .super args s => by simp only [Stmt.relocate, relocateAll_id args, id]
  | .share names s => rfl
  | .imports file items s => rfl
  | .load file x s => rfl

theorem Decl.relocate_id : (d : Decl) → d.relocate id = d
  | ⟨x, params, body, s⟩ => by simp only [Decl.relocate, relocateBlock_id body, id]

theorem Member.relocate_id : (m : Member) → m.relocate id = m
  | .property x e s => by simp only [Member.relocate, Expr.relocate_id e, id]
  | .method d => by simp only [Member.relocate, Decl.relocate_id d]
  | .constructor d => by simp only [Member.relocate, Decl.relocate_id d]

theorem relocateBlock_id : (b : List Stmt) → relocateBlock id b = b
  | [] => rfl
  | s :: rest => by simp only [relocateBlock, Stmt.relocate_id s, relocateBlock_id rest]

theorem relocateBranches_id :
    (bs : List (Expr × List Stmt)) → relocateBranches id bs = bs
  | [] => rfl
  | (e, b) :: rest => by
    simp only [relocateBranches, Expr.relocate_id e, relocateBlock_id b, relocateBranches_id rest]

theorem relocateOtherwise_id : (otherwise : Option (List Stmt)) →
    relocateOtherwise id otherwise = otherwise
  | none => rfl
  | some b => by simp only [relocateOtherwise, relocateBlock_id b]

theorem relocateMembers_id : (ms : List Member) → relocateMembers id ms = ms
  | [] => rfl
  | m :: rest => by simp only [relocateMembers, Member.relocate_id m, relocateMembers_id rest]

end

/-! What the root of a tree says of the tree that it was relocated from: the same form, with an
equation for each part. -/

/-- The root of `z` is that of `e` relocated, and so are its parts. -/
inductive Expr.Relocates (f : Span → Span) : Expr → Expr → Prop
  | literal {v s t} (places : t = f s) : Relocates f (.literal v s) (.literal v t)
  | name {x s t} (places : t = f s) : Relocates f (.name x s) (.name x t)
  | binary {op l r l' r' s t} (left : l' = l.relocate f) (right : r' = r.relocate f)
    (places : t = f s) : Relocates f (.binary op l r s) (.binary op l' r' t)
  | negate {e e' s t} (inner : e' = e.relocate f) (places : t = f s) :
    Relocates f (.negate e s) (.negate e' t)
  | logic {op l r l' r' s t} (left : l' = l.relocate f) (right : r' = r.relocate f)
    (places : t = f s) : Relocates f (.logic op l r s) (.logic op l' r' t)
  | call {x args args' s t} (arguments : args' = relocateAll f args) (places : t = f s) :
    Relocates f (.call x args s) (.call x args' t)
  | method {e e' x args args' s t} (inner : e' = e.relocate f)
    (arguments : args' = relocateAll f args) (places : t = f s) :
    Relocates f (.method e x args s) (.method e' x args' t)
  | property {e e' x s t} (inner : e' = e.relocate f) (places : t = f s) :
    Relocates f (.property e x s) (.property e' x t)
  | index {e e' k k' s t} (inner : e' = e.relocate f) (key : k' = k.relocate f)
    (places : t = f s) : Relocates f (.index e k s) (.index e' k' t)
  | group {e e' s t} (inner : e' = e.relocate f) (places : t = f s) :
    Relocates f (.group e s) (.group e' t)
  | list {es es' s t} (items : es' = relocateAll f es) (places : t = f s) :
    Relocates f (.list es s) (.list es' t)
  | object {es es' s t} (entries : es' = relocateEntries f es) (places : t = f s) :
    Relocates f (.object es s) (.object es' t)
  | create {cls args args' s t} (arguments : args' = relocateAll f args) (places : t = f s) :
    Relocates f (.create cls args s) (.create cls args' t)

theorem Expr.relocates {f : Span → Span} {e z : Expr} (same : z = e.relocate f) :
    Relocates f e z := by
  subst same
  cases e <;> constructor <;> rfl

/-- The root of `z` is that of `x` relocated, and so are its parts. -/
inductive Stmt.Relocates (f : Span → Span) : Stmt → Stmt → Prop
  | expression {e e' s t} (inner : e' = e.relocate f) (places : t = f s) :
    Relocates f (.expression e s) (.expression e' t)
  | print {e e' s t} (inner : e' = e.relocate f) (places : t = f s) :
    Relocates f (.print e s) (.print e' t)
  | assign {x x' e e' s t} (targets : x' = x.relocate f) (inner : e' = e.relocate f)
    (places : t = f s) : Relocates f (.assign x e s) (.assign x' e' t)
  | branch {bs bs' o o' s t} (branches : bs' = relocateBranches f bs)
    (otherwise : o' = relocateOtherwise f o) (places : t = f s) :
    Relocates f (.branch bs o s) (.branch bs' o' t)
  | loop {e e' b b' s t} (test : e' = e.relocate f) (body : b' = relocateBlock f b)
    (places : t = f s) : Relocates f (.loop e b s) (.loop e' b' t)
  | iterate {h h' b b' s t} (headers : h' = h.relocate f) (body : b' = relocateBlock f b)
    (places : t = f s) : Relocates f (.iterate h b s) (.iterate h' b' t)
  | leave {s t} (places : t = f s) : Relocates f (.leave s) (.leave t)
  | giveNothing {s t} (places : t = f s) : Relocates f (.give none s) (.give none t)
  | give {e e' s t} (inner : e' = e.relocate f) (places : t = f s) :
    Relocates f (.give (some e) s) (.give (some e') t)
  | function {d d' s t} (decls : d' = d.relocate f) (places : t = f s) :
    Relocates f (.function d s) (.function d' t)
  | init {d d' s t} (decls : d' = d.relocate f) (places : t = f s) :
    Relocates f (.init d s) (.init d' t)
  | cls {x parent ms ms' s t} (members : ms' = relocateMembers f ms) (places : t = f s) :
    Relocates f (.cls x parent ms s) (.cls x parent ms' t)
  | super {args args' s t} (arguments : args' = relocateAll f args) (places : t = f s) :
    Relocates f (.super args s) (.super args' t)
  | share {names s t} (places : t = f s) : Relocates f (.share names s) (.share names t)
  | imports {file items s t} (places : t = f s) :
    Relocates f (.imports file items s) (.imports file items t)
  | load {file x s t} (places : t = f s) : Relocates f (.load file x s) (.load file x t)

theorem Stmt.relocates {f : Span → Span} {x z : Stmt} (same : z = x.relocate f) :
    Relocates f x z := by
  subst same
  cases x with
  | give value s => cases value <;> constructor <;> rfl
  | _ => constructor <;> rfl

/-! What a parser asks of a tree does not depend on places. -/

theorem memberOf_relocate (f : Span → Span) (s : Stmt) :
    Parser.memberOf (s.relocate f) = (Parser.memberOf s).map (Member.relocate f) := by
  cases s with
  | assign target e s => cases target <;> rfl
  | give value s => cases value <;> rfl
  | _ => rfl

theorem targetOf_relocate (f : Span → Span) (e : Expr) :
    Parser.targetOf (e.relocate f) = (Parser.targetOf e).map (Target.relocate f) := by
  cases e <;> rfl

@[simp] theorem isCall_relocate (f : Span → Span) (e : Expr) :
    Parser.isCall (e.relocate f) = Parser.isCall e := by
  cases e <;> rfl

/-- All spans forgotten. -/
def nowhere (_ : Span) : Span := default

def Expr.bare : Expr → Expr := Expr.relocate nowhere

def Target.bare : Target → Target := Target.relocate nowhere

def Header.bare : Header → Header := Header.relocate nowhere

def Stmt.bare : Stmt → Stmt := Stmt.relocate nowhere

def Decl.bare : Decl → Decl := Decl.relocate nowhere

def Member.bare : Member → Member := Member.relocate nowhere

/-- The statements of a program without their places. -/
def bareBlock : Block → Block := List.map Stmt.bare

end Script
