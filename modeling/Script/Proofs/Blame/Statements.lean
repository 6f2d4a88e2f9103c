import Script.Proofs.Blame.Expressions
import Script.Proofs.Walk.Statements

/-! What the errors of the statement parsers blame. -/

namespace Script.Parser

open Row

variable {r : Row} {k n : Nat}

section Statements

variable {statement : Parser Stmt} {bound : Nat} (each : r.Keeps k statement) (enough : k ≤ bound)

theorem answer_keeps {α : Type} (start : Span) (p : Span → α) :
    r.Keeps k (since start >>= fun s => pure (p s)) :=
  (Keeps.since start).bind fun s => Keeps.done (p s)

include each in
theorem block_keeps (opener : String) (closers : List String) (n : Nat) :
    r.Keeps k (block statement opener closers n) := by
  have opened : r.Keeps k
      (peek >>= fun t => (fail (.openBlock opener closers) t.span : Parser Block)) :=
    Keeps.peek.bind fun t => Keeps.fail _ rfl
  induction n with
  | zero => exact opened
  | succ n ih =>
    refine Keeps.seesKeyword.bind fun closed => Keeps.ite (fun _ => Keeps.done []) fun _ => ?_
    refine Keeps.atEnd.bind fun ended => Keeps.ite (fun _ => opened) fun _ => ?_
    exact each.bind fun s => ih.bind fun b => Keeps.done (s :: b)

include each in
theorem closedBlock_keeps (bound : Nat) (opener closer : String) :
    r.Keeps k (closedBlock bound statement opener closer) :=
  (block_keeps each opener [closer] bound).bind fun body =>
    Keeps.step.bind fun _ => Keeps.done body

include enough in
theorem condition_keeps (word : String) : r.Keeps k (condition bound word) :=
  (Keeps.delimiter _ _).bind fun _ => ((expression_keeps bound).mono enough).bind fun e =>
    (Keeps.delimiter _ _).bind fun _ => Keeps.done e

include each enough in
theorem guarded_keeps (word : String) : r.Keeps k (guarded bound statement word) :=
  (condition_keeps enough word).bind fun e =>
    (block_keeps each word _ bound).bind fun b => Keeps.done (e, b)

include each enough in
theorem otherBranches_keeps (n : Nat) : r.Keeps k (otherBranches bound statement n) := by
  induction n with
  | zero => exact Keeps.done _
  | succ n ih =>
    refine Keeps.advance.bind fun closer => Keeps.ite (fun _ => ?_) fun _ => Keeps.ite (fun _ => ?_)
      fun _ => Keeps.done _
    · exact (guarded_keeps each enough _).bind fun b => ih.bind fun bs => Keeps.done _
    · exact (closedBlock_keeps each bound _ _).bind fun b => Keeps.done _

include each enough in
theorem branchStatement_keeps (start : Span) :
    r.Keeps k (branchStatement bound statement start) :=
  (guarded_keeps each enough _).bind fun _ =>
    (otherBranches_keeps each enough bound).bind fun _ => answer_keeps start _

theorem parameters_keeps (bound : Nat) : r.Keeps k (parameters bound) := by
  refine (Keeps.delimiter _ _).bind fun _ => ?_
  refine (Keeps.listedUntil (fun seen => ?_) _ _).bind fun params => ?_
  · refine (Keeps.name _).bind fun p => Keeps.ite (fun _ => ?_) fun _ => Keeps.done p
    exact Keeps.last.bind fun t => Keeps.fail _ rfl
  · exact (Keeps.delimiter _ _).bind fun _ => Keeps.done params

include each in
theorem functionDecl_keeps (bound : Nat) (start : Span) :
    r.Keeps k (functionDecl bound statement start) :=
  (Keeps.name _).bind fun _ => (parameters_keeps bound).bind fun _ =>
    (closedBlock_keeps each bound _ _).bind fun _ => answer_keeps start _

include each in
theorem initDecl_keeps (bound : Nat) (start : Span) : r.Keeps k (initDecl bound statement start) :=
  (parameters_keeps bound).bind fun _ =>
    (closedBlock_keeps each bound _ _).bind fun _ => answer_keeps start _

include enough in
theorem giveStatement_keeps (start : Span) : r.Keeps k (giveStatement bound start) := by
  refine Keeps.atEnd.bind fun ended => ?_
  have rest (bare : Bool) : r.Keeps k
      (if bare = true then since start >>= fun s => pure (Stmt.give none s)
      else expression bound >>= fun e => since start >>= fun s => pure (Stmt.give (some e) s)) :=
    Keeps.ite (fun _ => answer_keeps start _) fun _ =>
      ((expression_keeps bound).mono enough).bind fun e => answer_keeps start _
  cases ended with
  | true => exact rest true
  | false => exact Keeps.seesKeyword.bind fun closed => rest closed

include each in
theorem loopBody_keeps (bound : Nat) (opener closer : String) :
    r.Keeps k (loopBody bound statement opener closer) :=
  Keeps.eat.bind fun _ => closedBlock_keeps each bound opener closer

include each enough in
theorem loopStatement_keeps (start : Span) : r.Keeps k (loopStatement bound statement start) :=
  (condition_keeps enough _).bind fun _ =>
    (loopBody_keeps each bound _ _).bind fun _ => answer_keeps start _

include enough in
theorem header_keeps : r.Keeps k (header bound) := by
  have whole := (expression_keeps (r := r) bound).mono enough
  have value (p : Expr → Header) : r.Keeps k (do return p (← expression bound)) :=
    whole.bind fun e => Keeps.done (p e)
  refine Keeps.eat.bind fun bracket => Keeps.ite (fun _ => ?_) fun _ => ?_
  · refine (Keeps.name _).bind fun key => (Keeps.delimiter _ _).bind fun _ => ?_
    refine (Keeps.name _).bind fun v => (Keeps.delimiter _ _).bind fun _ => ?_
    exact (Keeps.keyword _ _).bind fun _ => value _
  · refine (Keeps.name _).bind fun x => ?_
    refine Keeps.eat.bind fun each => Keeps.ite (fun _ => value _) fun _ => ?_
    refine Keeps.eat.bind fun range => Keeps.ite (fun _ => ?_) fun _ => ?_
    · exact whole.bind fun start => (Keeps.keyword _ _).bind fun _ => value _
    · refine Keeps.eat.bind fun pairs => Keeps.ite (fun _ => ?_) fun _ => ?_
      · exact (Keeps.name _).bind fun v => (Keeps.keyword _ _).bind fun _ => value _
      · exact Keeps.peek.bind fun t => Keeps.fail _ rfl

include each enough in
theorem iterateStatement_keeps (start : Span) :
    r.Keeps k (iterateStatement bound statement start) :=
  (Keeps.delimiter _ _).bind fun _ => (header_keeps enough).bind fun _ =>
    (Keeps.delimiter _ _).bind fun _ => (loopBody_keeps each bound _ _).bind fun _ =>
      answer_keeps start _

include each in
theorem members_keeps (cls : String) (n : Nat) (built : Bool) :
    r.Keeps k (members statement cls n built) := by
  have opened : r.Keeps k
      (peek >>= fun t => (fail (.openClass cls) t.span : Parser (List Member))) :=
    Keeps.peek.bind fun t => Keeps.fail _ rfl
  induction n generalizing built with
  | zero => exact opened
  | succ n ih =>
    have others (built : Bool) (member : Member) :
        r.Keeps k (do return member :: (← members statement cls n built)) :=
      (ih built).bind fun ms => Keeps.done _
    refine Keeps.eat.bind fun closed => Keeps.ite (fun _ => Keeps.done []) fun _ => ?_
    refine Keeps.atEnd.bind fun ended => Keeps.ite (fun _ => opened) fun _ => ?_
    refine Keeps.peek.bind fun start => each.bind fun s => ?_
    cases memberOf s with
    | none => exact Keeps.fail _ rfl
    | some member =>
      cases member with
      | constructor decl => exact Keeps.ite (fun _ => Keeps.fail _ rfl) fun _ => others true _
      | property x value span => exact others built _
      | method decl => exact others built _

include each in
theorem classStatement_keeps (bound : Nat) (start : Span) :
    r.Keeps k (classStatement bound statement start) := by
  refine (Keeps.name _).bind fun cls => ?_
  have rest (parent : Option ClassPath) : r.Keeps k (do
      let ms ← members statement cls bound false
      return Stmt.cls cls parent ms (← since start)) :=
    (members_keeps each cls bound false).bind fun ms => answer_keeps start _
  have parents : r.Keeps k (some <$> classPath bound .parentName) :=
    (classPath_keeps bound _).bind fun p => Keeps.done (some p)
  exact Keeps.eat.bind fun extended => Keeps.ite (fun _ => parents.bind rest) fun _ => rest none

theorem names_keeps (bound : Nat) (opening closing : String) :
    r.Keeps k (names bound opening closing) :=
  (Keeps.delimiter _ _).bind fun _ => (Keeps.listedUntil (fun _ => Keeps.name _) _ _).bind fun ns =>
    (Keeps.delimiter _ _).bind fun _ => Keeps.done ns

theorem selection_keeps (bound : Nat) : r.Keeps k (selection bound) :=
  Keeps.eat.bind fun _ => Keeps.ite (fun _ => Keeps.done _) fun _ =>
    (names_keeps bound _ _).bind fun _ => Keeps.done _

theorem importStatement_keeps (bound : Nat) (start : Span) :
    r.Keeps k (importStatement bound start) :=
  Keeps.expectKind.bind fun _ => (Keeps.keyword _ _).bind fun _ =>
    (selection_keeps bound).bind fun _ => answer_keeps start _

theorem loadStatement_keeps (start : Span) : r.Keeps k (loadStatement start) :=
  Keeps.expectKind.bind fun _ => (Keeps.keyword _ _).bind fun _ =>
    (Keeps.name _).bind fun _ => answer_keeps start _

include each enough in
theorem keywordStatement_keeps (t : Token) : r.Keeps k (keywordStatement bound statement t) := by
  have whole := (expression_keeps (r := r) bound).mono enough
  unfold keywordStatement
  split
  · exact Keeps.done _
  · refine (Keeps.delimiter _ _).bind fun _ => whole.bind fun e => ?_
    exact (Keeps.delimiter _ _).bind fun _ => answer_keeps _ _
  · exact branchStatement_keeps each enough _
  · exact (functionDecl_keeps each bound _).bind fun d => answer_keeps _ _
  · exact (initDecl_keeps each bound _).bind fun d => answer_keeps _ _
  · exact giveStatement_keeps enough _
  · exact loopStatement_keeps each enough _
  · exact iterateStatement_keeps each enough _
  · exact classStatement_keeps each bound _
  · exact (names_keeps bound _ _).bind fun ns => answer_keeps _ _
  · exact importStatement_keeps bound _
  · refine (Keeps.delimiter _ _).bind fun _ => ?_
    exact (arguments_keeps whole bound).bind fun args => answer_keeps _ _
  · exact loadStatement_keeps _
  · exact Keeps.fail _ rfl

end Statements

/-- A statement that starts with a name does not start with a minus sign. -/
theorem nameStatement_blames (n : Nat) :
    r.Blames 0 (fun i => r.Short n i ∧ ∃ t, r.tokens[i]? = some t ∧ t.kind = .name)
      (nameStatement n) fun _ => r.Left n := by
  have whole := expression_keeps (r := r) n
  refine Blames.peek.bind fun start => ?_
  refine (chain_blames whole n (fun i here => ?_) fun i here t token minus => ?_).bind fun e => ?_
  · exact Nat.le_succ_of_le here.1.1
  · obtain ⟨u, token', kind⟩ := here.1.2
    cases token.symm.trans token'
    cases kind.symm.trans minus.1
  · refine Keeps.eat.bind fun assigned => Keeps.ite (fun _ => ?_) fun _ => ?_
    · cases targetOf e with
      | none => exact Keeps.fail _ rfl
      | some target => exact whole.bind fun value => answer_keeps _ _
    · refine Keeps.ite (fun _ => answer_keeps _ _) fun _ => ?_
      exact Keeps.peek.bind fun t => Keeps.fail _ rfl

theorem statement_blames (n : Nat) :
    r.Blames 0 (r.Short n) (statement n) fun _ => r.Left n := by
  induction n with
  | zero => exact Blames.peek.bind fun t => Blames.fail rfl
  | succ n ih =>
    have each : r.Keeps n (statement n) := ih.weaken (fun _ => And.right) fun _ _ => id
    refine Blames.peek.bind fun t => ?_
    cases kind : t.kind with
    | keyword =>
      have taken : r.Blames 0 (fun i => r.Short (n + 1) i ∧ i < r.first) (modify Stream.advance)
          fun _ => r.Left n := by
        refine Blames.step fun i less short => ⟨Nat.succ_pos i, ?_⟩
        have : r.first ≤ i + (n + 1) := short
        omega
      have run := (taken.bind fun _ => keywordStatement_keeps each (Nat.le_succ n) t).weaken
        (fun _ => id) fun _ i left => left.mono (Nat.le_succ n)
      exact fun i inside here => run i inside ⟨here.1, lt_first inside here.2 (kind ▸ nofun)⟩
    | name =>
      exact (nameStatement_blames (n + 1)).weaken (fun i here => ⟨here.1, t, here.2, kind⟩)
        fun _ _ => id
    | _ => exact Blames.fail rfl

theorem statements_blames (bound n : Nat) :
    r.Blames 0 (r.Short bound) (statements bound n) fun _ _ => True := by
  induction n with
  | zero => exact Blames.done fun _ _ => trivial
  | succ n ih =>
    refine Blames.atEnd.bind fun ended => Blames.ite (fun _ => Blames.done fun _ _ => trivial)
      fun more => ?_
    refine Blames.bind ((statement_blames bound).weaken (fun _ => And.left) fun _ _ => id)
      fun s => ?_
    refine (ih.weaken (fun _ => And.right) fun _ _ => id).bind fun b => ?_
    exact Blames.done fun _ _ => trivial

end Script.Parser
