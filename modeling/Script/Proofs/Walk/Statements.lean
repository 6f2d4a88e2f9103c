import Script.Proofs.Walk.Expressions

/-! Walks of the statement parsers, and of whole programs. -/

namespace Script

namespace Row

/-- At most `k` tokens are left. -/
def Short (r : Row) (k i : Nat) : Prop :=
  r.first ≤ i + k

end Row

namespace Parser

open Row

variable {r : Row} {k n m : Nat}

/-- Parsers of statements, with as many tokens as `k` left. They take one at least. -/
def Steady (r : Row) (k : Nat) (p q : Parser Stmt) : Prop :=
  ∀ j ≤ k, r.Settles (r.Short j) p q (r.Left (j - 1))

section Statements

variable {statement statement' : Parser Stmt}

theorem Steady.mono {j : Nat} (each : Steady r k statement statement') (le : j ≤ k) :
    Steady r j statement statement' :=
  fun i below => each i (Nat.le_trans below le)

theorem Steady.inside (each : Steady r k statement statement') {P : Nat → Prop}
    (left : ∀ i, P i → r.Left k i) : r.Settles P statement statement' (r.Left (k - 1)) :=
  (each k (Nat.le_refl k)).weaken (fun i here => (left i here).2) fun _ => id

theorem block_defers (statement : Parser Stmt) (opener : String) (closers : List String) (n : Nat) :
    r.Defers (block statement opener closers n)
      (peek >>= fun t => fail (.openBlock opener closers) t.span) := by
  intro res goes
  cases n with
  | zero => exact goes
  | succ n =>
    have missed : r.Goes (seesKeyword closers) r.first (.ok false) r.first := by
      have looked := Goes.look r.token_first fun t =>
        decide (t.kind = .keyword ∧ closers.contains t.text)
      rwa [decide_eq_false fun found => by cases r.ends.symm.trans found.1] at looked
    exact missed.bind ((Goes.ended r).bind goes)

theorem block_settles (each : Steady r k statement statement') (enough : Enough k n m)
    (opener : String) (closers : List String) :
    r.Settles (r.Left k) (block statement opener closers n) (block statement' opener closers m)
      (r.Going k) := by
  induction k generalizing n m with
  | zero =>
    exact Settles.skip (fun _ => And.right) (block_defers _ _ _ n) (block_defers _ _ _ m)
      (Settles.peek fun t => Settles.fail)
  | succ k ih =>
    obtain ⟨n, m, rfl, rfl, fewer⟩ := enough.succ
    refine Settles.seesKeyword (Settles.done fun i here => here) (Settles.unlessEnded ?_)
    refine (each.inside fun i => And.left).bind fun s => ?_
    refine (ih (each.mono (Nat.le_succ k)) fewer).bind fun b => Settles.done fun i going => ?_
    exact ⟨going.1.mono (Nat.le_succ k), going.2⟩

theorem closedBlock_settles (each : Steady r k statement statement') (enough : Enough k n m)
    (opener closer : String) :
    r.Settles (r.Left k) (closedBlock n statement opener closer)
      (closedBlock m statement' opener closer) (r.Left k) := by
  refine (block_settles each enough opener [closer]).bind fun body => ?_
  exact Settles.step (Settles.done fun _ => id) Settles.taken

theorem condition_settles (enough : Enough (k + 1) n m) (word : String) :
    r.Settles (r.Left k) (condition n word) (condition m word) (r.Left k) :=
  (Settles.delimiter _ _).bind fun _ => (expression_settles enough).bind fun _ =>
    (Settles.delimiter _ _).bind fun _ => Settles.done fun _ => id

theorem guarded_settles (each : Steady r k statement statement') (enough : Enough (k + 1) n m)
    (word : String) :
    r.Settles (r.Left k) (guarded n statement word) (guarded m statement' word) (r.Going k) :=
  (condition_settles enough word).bind fun _ =>
    (block_settles each (enough.mono (Nat.le_succ k)) word _).bind fun _ =>
      Settles.done fun _ => id

theorem otherBranches_settles (each : Steady r k statement statement') {bound bound' : Nat}
    (enough : Enough (k + 1) bound bound') (enough' : Enough k n m) :
    r.Settles (r.Going k) (otherBranches bound statement n) (otherBranches bound' statement' m)
      (r.Left k) := by
  induction k generalizing n m with
  | zero => exact fun i _ going => absurd going.2 (Nat.not_lt.2 going.1.2)
  | succ k ih =>
    obtain ⟨n, m, rfl, rfl, fewer⟩ := enough'.succ
    have later := each.mono (Nat.le_succ k)
    have enough := enough.mono (Nat.le_succ (k + 1))
    refine Settles.advance (R := r.Left k) (fun closer => ?_) fun i left => left.step
    refine Settles.weaken (P := r.Left k) (Q := r.Left k) ?_ (fun _ => id)
      fun i left => left.mono (Nat.le_succ k)
    refine Settles.ite (fun _ => ?_) fun _ => Settles.ite (fun _ => ?_) fun _ =>
      Settles.done fun _ => id
    · refine (guarded_settles later enough _).bind fun b => ?_
      exact (ih later enough fewer).bind fun bs => Settles.done fun _ => id
    · refine (closedBlock_settles later (enough.mono (Nat.le_succ k)) _ _).bind fun b => ?_
      exact Settles.done fun _ => id

/-- The span of what was read comes last. -/
theorem answer_settles {α : Type} (start : Span) (p : Span → α) :
    r.Settles (r.Left k) (since start >>= fun s => pure (p s)) (since start >>= fun s => pure (p s))
      (r.Left k) :=
  Settles.since (fun _ => And.left) fun _ => Settles.done fun _ => id

theorem branchStatement_settles (each : Steady r k statement statement')
    (enough : Enough (k + 1) n m) (start : Span) :
    r.Settles (r.Left k) (branchStatement n statement start) (branchStatement m statement' start)
      (r.Left k) := by
  have enough' := enough.mono (Nat.le_succ k)
  refine (guarded_settles each enough _).bind fun first => ?_
  exact (otherBranches_settles each enough enough').bind fun bs => answer_settles _ _

theorem parameters_settles (enough : Enough k n m) :
    r.Settles (r.Left k) (parameters n) (parameters m) (r.Left k) := by
  refine (Settles.delimiter _ _).bind fun _ => ?_
  refine (Settles.listedUntil (fun seen => ?_) enough).bind fun params => ?_
  · refine (Settles.name _).bind fun p => Settles.ite (fun _ => ?_) fun _ => Settles.done fun _ => id
    exact Settles.last (fun _ => And.left) fun t => Settles.fail
  · exact (Settles.delimiter _ _).bind fun _ => Settles.done fun _ => id

theorem functionDecl_settles (each : Steady r k statement statement') (enough : Enough k n m)
    (start : Span) :
    r.Settles (r.Left k) (functionDecl n statement start) (functionDecl m statement' start)
      (r.Left k) :=
  (Settles.name _).bind fun _ => (parameters_settles enough).bind fun _ =>
    (closedBlock_settles each enough _ _).bind fun _ => answer_settles _ _

theorem initDecl_settles (each : Steady r k statement statement') (enough : Enough k n m)
    (start : Span) :
    r.Settles (r.Left k) (initDecl n statement start) (initDecl m statement' start) (r.Left k) :=
  (parameters_settles enough).bind fun _ =>
    (closedBlock_settles each enough _ _).bind fun _ => answer_settles _ _

theorem giveStatement_settles (enough : Enough (k + 1) n m) (start : Span) :
    r.Settles (r.Left k) (giveStatement n start) (giveStatement m start) (r.Left k) := by
  have bare := answer_settles (r := r) (k := k) start (Stmt.give none)
  have full : r.Settles (r.Left k)
      (expression n >>= fun e => since start >>= fun s => pure (Stmt.give (some e) s))
      (expression m >>= fun e => since start >>= fun s => pure (Stmt.give (some e) s)) (r.Left k) :=
    (expression_settles enough).bind fun e => answer_settles _ _
  refine Settles.atEnd ?_ ?_
  · refine Settles.seesKeyword ?_ ?_
    · exact bare.weaken (fun i here => here.1.1) fun _ => id
    · exact bare.weaken (fun i here => here.1) fun _ => id
  · refine Settles.seesKeyword ?_ ?_
    · exact bare.weaken (fun i here => here.1.1) fun _ => id
    · exact full.weaken (fun i here => here.1) fun _ => id

theorem loopBody_settles (each : Steady r k statement statement') (enough : Enough k n m)
    (opener closer : String) :
    r.Settles (r.Left k) (loopBody n statement opener closer)
      (loopBody m statement' opener closer) (r.Left k) :=
  Settles.option (by decide) fun _ => closedBlock_settles each enough _ _

theorem loopStatement_settles (each : Steady r k statement statement')
    (enough : Enough (k + 1) n m) (start : Span) :
    r.Settles (r.Left k) (loopStatement n statement start) (loopStatement m statement' start)
      (r.Left k) := by
  refine (condition_settles enough _).bind fun e => ?_
  exact (loopBody_settles each (enough.mono (Nat.le_succ k)) _ _).bind fun body => answer_settles _ _

theorem header_settles (enough : Enough (k + 1) n m) :
    r.Settles (r.Left k) (header n) (header m) (r.Left k) := by
  have value {p : Expr → Header} : r.Settles (r.Left k)
      (do return p (← expression n)) (do return p (← expression m)) (r.Left k) :=
    (expression_settles enough).bind fun e => Settles.done fun _ => id
  refine Settles.option (by decide) fun bracket => Settles.ite (fun _ => ?_) fun _ => ?_
  · refine (Settles.name _).bind fun key => (Settles.delimiter _ _).bind fun _ => ?_
    refine (Settles.name _).bind fun v => (Settles.delimiter _ _).bind fun _ => ?_
    exact (Settles.keyword _ _).bind fun _ => value
  · refine (Settles.name _).bind fun x => ?_
    refine Settles.option (by decide) fun each => Settles.ite (fun _ => value) fun _ => ?_
    refine Settles.option (by decide) fun range => Settles.ite (fun _ => ?_) fun _ => ?_
    · refine (expression_settles enough).bind fun start => ?_
      exact (Settles.keyword _ _).bind fun _ => value
    · refine Settles.option (by decide) fun pairs => Settles.ite (fun _ => ?_) fun _ => ?_
      · exact (Settles.name _).bind fun v => (Settles.keyword _ _).bind fun _ => value
      · exact Settles.peek fun t => Settles.fail

theorem iterateStatement_settles (each : Steady r k statement statement')
    (enough : Enough (k + 1) n m) (start : Span) :
    r.Settles (r.Left k) (iterateStatement n statement start)
      (iterateStatement m statement' start) (r.Left k) := by
  refine (Settles.delimiter _ _).bind fun _ => (header_settles enough).bind fun h => ?_
  refine (Settles.delimiter _ _).bind fun _ => ?_
  exact (loopBody_settles each (enough.mono (Nat.le_succ k)) _ _).bind fun body => answer_settles _ _

theorem members_defers (statement : Parser Stmt) (cls : String) (n : Nat) (built : Bool) :
    r.Defers (members statement cls n built) (peek >>= fun t => fail (.openClass cls) t.span) := by
  cases n with
  | zero => exact .refl _
  | succ n =>
    exact .trans (.eat (by decide)) fun res goes => (Goes.ended r).bind goes

theorem members_settles (each : Steady r k statement statement') (enough : Enough k n m)
    (cls : String) (built : Bool) :
    r.Settles (r.Left k) (members statement cls n built) (members statement' cls m built)
      (r.Left k) := by
  induction k generalizing n m built with
  | zero =>
    exact Settles.skip (fun _ => And.right) (members_defers _ cls n built)
      (members_defers _ cls m built) (Settles.peek fun t => Settles.fail)
  | succ k ih =>
    obtain ⟨n, m, rfl, rfl, fewer⟩ := enough.succ
    have others (built : Bool) (member : Member) : r.Settles (r.Left k)
        (do return member :: (← members statement cls n built))
        (do return member :: (← members statement' cls m built)) (r.Left (k + 1)) :=
      (ih (each.mono (Nat.le_succ k)) fewer built).bind fun ms =>
        Settles.done fun i left => left.mono (Nat.le_succ k)
    refine Settles.eat (R := r.Left (k + 1)) (by decide) (Settles.done fun _ => id) ?_
      fun i left _ => Settles.taken i left
    refine Settles.unlessEnded (Settles.peek fun start => ?_)
    refine (each.inside fun i here => here.1.1).bind fun s => ?_
    cases memberOf s with
    | none => exact Settles.fail
    | some member =>
      cases member with
      | constructor decl => exact Settles.ite (fun _ => Settles.fail) fun _ => others true _
      | property x value span => exact others built _
      | method decl => exact others built _

theorem classStatement_settles (each : Steady r k statement statement') (enough : Enough k n m)
    (start : Span) :
    r.Settles (r.Left k) (classStatement n statement start) (classStatement m statement' start)
      (r.Left k) := by
  refine (Settles.name _).bind fun cls => ?_
  have rest (parent : Option ClassPath) : r.Settles (r.Left k)
      (do
        let ms ← members statement cls n false
        return Stmt.cls cls parent ms (← since start))
      (do
        let ms ← members statement' cls m false
        return Stmt.cls cls parent ms (← since start)) (r.Left k) :=
    (members_settles each enough cls false).bind fun ms => answer_settles _ _
  have parents : r.Settles (r.Left k) (some <$> classPath n .parentName)
      (some <$> classPath m .parentName) (r.Left k) :=
    (classPath_settles enough _).bind fun p => Settles.done fun _ => id
  refine Settles.option (by decide) fun extended => Settles.ite (fun _ => ?_) fun _ => rest none
  exact parents.bind rest

theorem names_settles (enough : Enough k n m) (opening closing : String) :
    r.Settles (r.Left k) (names n opening closing) (names m opening closing) (r.Left k) :=
  (Settles.delimiter _ _).bind fun _ =>
    (Settles.listedUntil (fun _ => Settles.name _) enough).bind fun _ =>
      (Settles.delimiter _ _).bind fun _ => Settles.done fun _ => id

theorem selection_settles (enough : Enough k n m) :
    r.Settles (r.Left k) (selection n) (selection m) (r.Left k) :=
  Settles.option (by decide) fun all => Settles.ite (fun _ => Settles.done fun _ => id) fun _ =>
    (names_settles enough _ _).bind fun ns => Settles.done fun _ => id

theorem importStatement_settles (enough : Enough k n m) (start : Span) :
    r.Settles (r.Left k) (importStatement n start) (importStatement m start) (r.Left k) :=
  (Settles.expectKind (by decide)).bind fun file => (Settles.keyword _ _).bind fun _ =>
    (selection_settles enough).bind fun items => answer_settles _ _

theorem loadStatement_settles (start : Span) :
    r.Settles (r.Left k) (loadStatement start) (loadStatement start) (r.Left k) :=
  (Settles.expectKind (by decide)).bind fun file => (Settles.keyword _ _).bind fun _ =>
    (Settles.name _).bind fun x => answer_settles _ _

theorem nameStatement_settles (enough : Enough (k + 1) n m) :
    r.Settles (fun i => r.Short (k + 1) i ∧ i < r.first) (nameStatement n) (nameStatement m)
      (r.Left k) := by
  have nested (j : Nat) (less : j < k + 1) :
      r.Settles (r.Left j) (expression n) (expression m) (r.Left j) :=
    expression_settles (enough.mono less)
  refine Settles.peek fun start => ?_
  refine (chain_settles nested enough fun i here => here.1.1).bind fun e => ?_
  refine Settles.option (by decide) fun assigned => Settles.ite (fun _ => ?_) fun _ => ?_
  · cases targetOf e with
    | none => exact Settles.fail
    | some target =>
      exact (nested k (Nat.lt_succ_self k)).bind fun value => answer_settles _ _
  · exact Settles.ite (fun _ => answer_settles _ _) fun _ => Settles.peek fun t => Settles.fail

theorem keywordStatement_settles (each : Steady r k statement statement')
    (enough : Enough (k + 1) n m) (t : Token) :
    r.Settles (r.Left k) (keywordStatement n statement t) (keywordStatement m statement' t)
      (r.Left k) := by
  have fewer := enough.mono (Nat.le_succ k)
  unfold keywordStatement
  split
  · exact Settles.done fun _ => id
  · refine (Settles.delimiter _ _).bind fun _ => (expression_settles enough).bind fun e => ?_
    exact (Settles.delimiter _ _).bind fun _ => answer_settles _ _
  · exact branchStatement_settles each enough _
  · exact (functionDecl_settles each fewer _).bind fun d => answer_settles _ _
  · exact (initDecl_settles each fewer _).bind fun d => answer_settles _ _
  · exact giveStatement_settles enough _
  · exact loopStatement_settles each enough _
  · exact iterateStatement_settles each enough _
  · exact classStatement_settles each fewer _
  · exact (names_settles fewer _ _).bind fun ns => answer_settles _ _
  · exact importStatement_settles fewer _
  · refine (Settles.delimiter _ _).bind fun _ => ?_
    exact (arguments_settles (expression_settles enough) fewer).bind fun args => answer_settles _ _
  · exact loadStatement_settles _
  · exact Settles.fail

end Statements

theorem statement_ended (n : Nat) :
    r.Goes (statement n) r.first (.error ⟨.grammar .endOfInput, r.stop.span⟩) r.first := by
  have seen : r.Goes peek r.first (.ok r.stop) r.first := ⟨_, .peek r.token_first⟩
  cases n with
  | zero => exact seen.bind ⟨_, .fail _ _⟩
  | succ n =>
    refine seen.bind ?_
    rw [r.ends]
    exact ⟨_, .fail _ _⟩

theorem statement_steady (each : Steady r k (statement n) (statement m)) (enough : Enough k n m) :
    r.Settles (fun i => r.Short (k + 1) i ∧ i < r.first) (statement (n + 1)) (statement (m + 1))
      (r.Left k) := by
  have more : Enough (k + 1) (n + 1) (m + 1) :=
    ⟨Nat.succ_le_succ enough.one, Nat.succ_le_succ enough.other⟩
  refine Settles.peek fun t => ?_
  cases kind : t.kind with
  | keyword =>
    refine Settles.weaken (Q := r.Left k) ?_ (fun _ => And.left) fun _ => id
    refine Settles.step (keywordStatement_settles each more t) fun i short => ?_
    exact ⟨Nat.succ_pos i, by have : r.first ≤ i + (k + 1) := short; omega⟩
  | name => exact (nameStatement_settles more).weaken (fun _ => And.left) fun _ => id
  | _ => exact Settles.fail

theorem statement_settles (enough : Enough k n m) : Steady r k (statement n) (statement m) := by
  have ended {j n m : Nat} : r.Settles (fun i => r.Short j i ∧ i = r.first) (statement n)
      (statement m) (r.Left (j - 1)) := by
    rintro i inside ⟨-, rfl⟩
    exact ⟨_, _, statement_ended n, statement_ended m, nofun⟩
  intro j below
  refine Settles.split ended ?_
  induction n generalizing k m j with
  | zero =>
    obtain rfl : j = 0 := Nat.le_zero.1 (Nat.le_trans below enough.one)
    exact fun i _ here => absurd here.2 (Nat.not_lt.2 here.1)
  | succ n ih =>
    cases j with
    | zero => exact fun i _ here => absurd here.2 (Nat.not_lt.2 here.1)
    | succ j =>
      obtain ⟨n', m, same, rfl, fewer⟩ := (enough.mono below).succ
      obtain rfl := Nat.succ.inj same
      exact statement_steady (fun i less => Settles.split ended (ih fewer i less)) fewer

theorem statements_defers (bound n : Nat) : r.Defers (statements bound n) (pure []) := by
  intro res goes
  cases n with
  | zero => exact goes
  | succ n =>
    exact (Goes.ended r).bind goes

theorem statements_settles {bound bound' : Nat} (bounds : Enough k bound bound')
    (enough : Enough k n m) :
    r.Settles (r.Short k) (statements bound n) (statements bound' m) fun _ => True := by
  induction k generalizing n m with
  | zero =>
    exact Settles.skip (fun _ => id) (statements_defers bound n) (statements_defers bound' m)
      (Settles.done fun _ _ => trivial)
  | succ k ih =>
    obtain ⟨n, m, rfl, rfl, fewer⟩ := enough.succ
    refine Settles.atEnd (Settles.done fun _ _ => trivial) ?_
    have one := (statement_settles (r := r) bounds) (k + 1) (Nat.le_refl _)
    refine (one.weaken (fun _ => And.left) fun i left => left.2).bind fun s => ?_
    exact (ih (bounds.mono (Nat.le_succ k)) fewer).bind fun b => Settles.done fun _ _ => trivial

end Parser

end Script
