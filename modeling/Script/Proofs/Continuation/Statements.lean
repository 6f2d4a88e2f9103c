import Script.Proofs.Continuation.Expressions
import Script.Proofs.StatementSoundness

/-! The statement parsers on a row of tokens and on one that goes on after it. -/

namespace Script

/-! A class has to know what its members are. The first two tokens of a statement tell, so a
statement cut short is still a member of the same sort. -/

/-- Whether a statement declares a constructor or another member of a class. -/
def Stmt.sort (s : Stmt) : Option Bool :=
  (Parser.memberOf s).map Member.isConstructor

/-- The sort of the statement that starts a row. -/
def sortOf : List Token → Option Bool
  | [] => none
  | t :: ts =>
    if t.kind = .name then
      if ts.head?.any fun u => u.Is .operator "=" then some false else none
    else if t.text = "f" then some false
    else if t.text = "init" then some true
    else none

theorem sortOf_keyword {t : Token} {x : String} (h : t.Is .keyword x) (ts : List Token) :
    sortOf (t :: ts) =
      if x = "f" then some false else if x = "init" then some true else none := by
  simp [sortOf, h.1, h.2]

theorem sortOf_name {t u : Token} (named : t.kind = .name) (other : ¬ u.Is .operator "=")
    (ts : List Token) : sortOf (t :: u :: ts) = none := by
  simp [sortOf, named, other]

/-- What is led by a name and goes on has a delimiter after the name. -/
theorem Expr.second_token : (e : Expr) → e.ledByName → ∀ {d : String} {ws : List Word}
    {ts : List Token}, Spells (e.words ++ .delimiter d :: ws) ts →
      ∃ t u us, ts = t :: u :: us ∧ t.kind = .name ∧ u.kind = .delimiter
  | .name x _, _, d, ws, ts, spelt => by
    obtain ⟨t, us, rfl, ht, spelt⟩ := spells_token_cons.1 spelt
    obtain ⟨u, us, rfl, hu, -⟩ := spells_token_cons.1 spelt
    exact ⟨t, u, us, rfl, ht.1, hu.1⟩
  | .call x args _, _, d, ws, ts, spelt => by
    simp only [Expr.words, List.cons_append, List.append_assoc] at spelt
    obtain ⟨t, us, rfl, ht, spelt⟩ := spells_token_cons.1 spelt
    obtain ⟨u, us, rfl, hu, -⟩ := spells_token_cons.1 spelt
    exact ⟨t, u, us, rfl, ht.1, hu.1⟩
  | .method e _ _ _, led, d, ws, ts, spelt => by
    simp only [Expr.words, List.cons_append, List.append_assoc] at spelt
    exact e.second_token led spelt
  | .property e _ _, led, d, ws, ts, spelt => by
    simp only [Expr.words, List.cons_append, List.append_assoc] at spelt
    exact e.second_token led spelt
  | .index e _ _, led, d, ws, ts, spelt => by
    simp only [Expr.words, List.cons_append, List.append_assoc] at spelt
    exact e.second_token led spelt

theorem Stmt.sort_spelt {s : Stmt} {ts : List Token} (good : s.WellFormed)
    (spelt : Spells s.words ts) (more : List Token) : s.sort = sortOf (ts ++ more) := by
  have behind {t u : Token} {us : List Token} (named : t.kind = .name)
      (delimits : u.kind = .delimiter) : sortOf ((t :: u :: us) ++ more) = none :=
    sortOf_name named (fun h => by cases delimits.symm.trans h.1) _
  cases s with
  | expression e s =>
    cases e with
    | call x args s =>
      obtain ⟨t, us, rfl, ht, spelt⟩ := spells_token_cons.1 spelt
      obtain ⟨u, us, rfl, hu, -⟩ := spells_token_cons.1 spelt
      exact (behind ht.1 hu.1).symm
    | method e x args s =>
      simp only [Stmt.words, Expr.words, List.cons_append, List.append_assoc] at spelt
      obtain ⟨t, u, us, rfl, named, delimits⟩ := e.second_token good.2.2 spelt
      exact (behind named delimits).symm
    | _ => exact absurd good.2.1 (by simp [Parser.isCall])
  | assign target e s =>
    cases target with
    | name x =>
      obtain ⟨t, us, rfl, ht, spelt⟩ := spells_token_cons.1 spelt
      obtain ⟨u, us, rfl, hu, -⟩ := spells_token_cons.1 spelt
      simp [sortOf, ht.1, hu, Stmt.sort, Parser.memberOf, Member.isConstructor]
    | index e k =>
      simp only [Stmt.words, Target.words, List.cons_append, List.append_assoc] at spelt
      obtain ⟨t, u, us, rfl, named, delimits⟩ := e.second_token good.1.2.2.1 spelt
      exact (behind named delimits).symm
    | property e x =>
      simp only [Stmt.words, Target.words, List.cons_append, List.append_assoc] at spelt
      obtain ⟨t, u, us, rfl, named, delimits⟩ := e.second_token good.1.2.2 spelt
      exact (behind named delimits).symm
  | branch bs otherwise s =>
    cases bs with
    | nil => exact absurd rfl good.1
    | cons b bs =>
      obtain ⟨t, us, rfl, ht, -⟩ := spells_token_cons.1 spelt
      exact (sortOf_keyword ht _).symm
  | _ =>
    obtain ⟨t, us, rfl, ht, -⟩ := spells_token_cons.1 spelt
    exact (sortOf_keyword ht _).symm

namespace Parser

open Continuation

variable {x : Continuation} {taken : Prop} {k n m : Nat}

/-- A token is left to take, and at most `k`. -/
def Going (k : Nat) (s : Stream) : Prop :=
  s.Left k ∧ s.rest ≠ []

/-- Parsers of statements. They take a token at least, and answer with statements of one sort. -/
structure StatementForks (x : Continuation) (k : Nat) (p q : Parser Stmt) : Prop where
  forks : ∀ j ≤ k, x.Forks (Stream.Left j) p q (Stream.Left (j - 1))
  sorts : ∀ s a t b u, x.Follows s → s.Left k → p s = .ok a t → q (x.extend s) = .ok b u →
    a.sort = b.sort

section Statements

variable {statement statement' : Parser Stmt}

theorem StatementForks.mono {j : Nat} (each : StatementForks x k statement statement')
    (le : j ≤ k) : StatementForks x j statement statement' where
  forks i below := each.forks i (Nat.le_trans below le)
  sorts s a t b u follows left := each.sorts s a t b u follows (left.mono le)

theorem seesKeyword_forks {α : Type} {P Q : Stream → Prop} {f g : Bool → Parser α}
    (words : List String)
    (next : ∀ found, x.ForksIf taken (fun s => P s ∧ s.rest ≠ []) (f found) (g found) Q) :
    x.ForksIf taken (fun s => P s ∧ s.rest ≠ []) (seesKeyword words >>= f)
      (seesKeyword words >>= g) Q :=
  ForksIf.lookAhead _ (fun s some => by rw [next_extend some]) fun found =>
    (next found).weaken (fun _ => And.left) fun _ => id

/-- A block that is not closed at the end of the row is not closed in it. -/
theorem block_ended (statement : Parser Stmt) (opener : String) (closers : List String) (n : Nat)
    {s : Stream} (ended : s.next.kind = .eof) (empty : s.rest = []) :
    block statement opener closers n s =
      .error ⟨.grammar (.openBlock opener closers), s.next.span⟩ s := by
  cases n with
  | zero => rfl
  | succ n =>
    have missed : seesKeyword closers s = .ok false s :=
      congrArg (EStateM.Result.ok · s) (by simp [ended])
    rw [block, bind_of_ok missed, if_neg (by decide), bind_of_ok (atEnd_yes empty)]
    rfl

theorem block_ends {opener : String} {closers : List String} {Q : Stream → Prop} {s : Stream}
    (follows : x.Follows s) (empty : s.rest = []) {r : EStateM.Result Error Stream Block} :
    x.Agree taken Q s (block statement opener closers n s) r := by
  rw [block_ended statement opener closers n (follows.next empty ▸ x.ends) empty]
  exact .stops (follows.stopsShort empty rfl)

theorem block_forks (each : StatementForks x k statement statement') (enough : x.Enough k n m)
    (opener : String) (closers : List String) :
    x.ForksIf taken (Stream.Left k) (block statement opener closers n)
      (block statement' opener closers m) (Going k) := by
  induction k generalizing n m taken with
  | zero =>
    refine ForksIf.split (fun s follows left empty => block_ends follows empty) ?_
    exact fun s _ here => absurd (Stream.Left.empty here.1) here.2
  | succ k ih =>
    obtain ⟨n, m, rfl, rfl, fewer⟩ := enough.succ
    refine ForksIf.split (fun s follows left empty => block_ends follows empty) ?_
    refine seesKeyword_forks closers fun closed => ForksIf.ite
      (fun _ => ForksIf.done fun s here => here) fun _ => ?_
    refine (ForksIf.unlessEnded (fun _ => rfl) (P := Stream.Left (k + 1)) ?_).weaken (fun s => And.left)
      fun _ => id
    refine ((each.forks (k + 1) (Nat.le_refl _)).after.weaken (fun s => And.left) fun _ => id).bind
      fun s => ?_
    refine (ih (each.mono (Nat.le_succ k)) fewer).bind fun b => ForksIf.done fun s going => ?_
    exact ⟨going.1.mono (Nat.le_succ k), going.2⟩

theorem closedBlock_forks (each : StatementForks x k statement statement') (enough : x.Enough k n m)
    (opener closer : String) :
    x.ForksIf taken (Stream.Left k) (closedBlock n statement opener closer)
      (closedBlock m statement' opener closer) (Stream.Left k) := by
  refine (block_forks each enough opener [closer]).bind fun body => ?_
  refine ForksIf.step (R := Stream.Left k) (ForksIf.done fun _ => id) fun s left some => ?_
  exact (left.advance some).mono (Nat.sub_le k 1)

theorem condition_forks (enough : x.Enough (k + 1) n m) (word : String) :
    x.ForksIf taken (Stream.Left k) (condition n word) (condition m word) (Stream.Left k) := by
  refine (ForksIf.delimiter _ _).bind fun _ => (expression_forks enough).bind fun e => ?_
  exact (ForksIf.delimiter _ _).bind fun _ => ForksIf.done fun _ => id

theorem guarded_forks (each : StatementForks x k statement statement')
    (enough : x.Enough (k + 1) n m) (word : String) :
    x.ForksIf taken (Stream.Left k) (guarded n statement word) (guarded m statement' word)
      (Going k) := by
  refine (condition_forks enough word).bind fun e => ?_
  exact (block_forks each (enough.mono (Nat.le_succ k)) word _).bind fun b => ForksIf.done fun _ => id

theorem otherBranches_forks (each : StatementForks x k statement statement')
    {bound bound' : Nat} (enough : x.Enough (k + 1) bound bound') (enough' : x.Enough k n m) :
    x.ForksIf taken (Going k) (otherBranches bound statement n) (otherBranches bound' statement' m)
      (Stream.Left k) := by
  induction k generalizing n m taken with
  | zero => exact fun s _ going => absurd going.1.empty going.2
  | succ k ih =>
    obtain ⟨n, m, rfl, rfl, fewer⟩ := enough'.succ
    have later := each.mono (Nat.le_succ k)
    have enough := enough.mono (Nat.le_succ (k + 1))
    have left {s : Stream} (here : s.Left k) : s.Left (k + 1) := here.mono (Nat.le_succ k)
    refine ForksIf.advance (R := Stream.Left k) (fun closer => ?_)
      fun s short some => short.advance some
    refine ForksIf.weaken (P := Stream.Left k) (Q := Stream.Left k) ?_ (fun s => And.left) fun s => left
    refine ForksIf.ite (fun _ => ?_) fun _ =>
      ForksIf.ite (fun _ => ?_) fun _ => ForksIf.done fun _ => id
    · refine (guarded_forks later enough _).bind fun b => ?_
      exact (ih later enough fewer).bind fun bs => ForksIf.done fun _ => id
    · refine (closedBlock_forks later (enough.mono (Nat.le_succ k)) _ _).bind fun b => ?_
      exact ForksIf.done fun _ => id

theorem branchStatement_forks (each : StatementForks x k statement statement')
    (enough : x.Enough (k + 1) n m) (start : Span) :
    x.ForksIf taken (Stream.Left k) (branchStatement n statement start)
      (branchStatement m statement' start) (Stream.Left k) := by
  have enough' := enough.mono (Nat.le_succ k)
  refine (guarded_forks each enough _).bind fun first => ?_
  refine (otherBranches_forks each enough enough').bind fun bs => ?_
  exact ForksIf.since fun s => ForksIf.done fun _ => id

theorem parameters_forks (enough : x.Enough k n m) :
    x.ForksIf taken (Stream.Left k) (parameters n) (parameters m) (Stream.Left k) := by
  refine (ForksIf.delimiter _ _).bind fun _ => ?_
  refine (ForksIf.listedUntil_left (fun seen => ?_) (Nat.le_refl k) enough).bind fun params => ?_
  · refine ForksIf.name fun p => ForksIf.ite (fun _ => ?_) fun _ => ForksIf.done fun _ => id
    exact ForksIf.last fun t => ForksIf.fail
  · exact (ForksIf.delimiter _ _).bind fun _ => ForksIf.done fun _ => id

theorem functionDecl_forks (each : StatementForks x k statement statement')
    (enough : x.Enough k n m) (start : Span) :
    x.ForksIf taken (Stream.Left k) (functionDecl n statement start)
      (functionDecl m statement' start) (Stream.Left k) := by
  refine ForksIf.name fun f => (parameters_forks enough).bind fun params => ?_
  refine (closedBlock_forks each enough _ _).bind fun body => ?_
  exact ForksIf.since fun s => ForksIf.done fun _ => id

theorem initDecl_forks (each : StatementForks x k statement statement')
    (enough : x.Enough k n m) (start : Span) :
    x.ForksIf taken (Stream.Left k) (initDecl n statement start) (initDecl m statement' start)
      (Stream.Left k) := by
  refine (parameters_forks enough).bind fun params => ?_
  refine (closedBlock_forks each enough _ _).bind fun body => ?_
  exact ForksIf.since fun s => ForksIf.done fun _ => id

/-- At the end a `return` is bare. -/
theorem giveStatement_ended {start : Span} {s : Stream} (empty : s.rest = []) :
    giveStatement n start s = .ok (.give none (start.through s.last.span)) s := by
  unfold giveStatement
  rw [bind_of_ok (atEnd_yes empty)]
  rfl

/-- Nothing that opens a statement comes after a `return` at the end of a row. -/
theorem giveStatement_forks (enough : x.Enough (k + 1) n m) (start : Span) :
    x.ForksIf taken (fun s => s.Left k ∧ s.last.Is .keyword "return") (giveStatement n start)
      (giveStatement m start) (Stream.Left k) := by
  refine ForksIf.split (fun s follows here empty => ?_) ?_
  · rw [giveStatement_ended empty]
    by_cases opening : x.opening
    · have none : x.more = [] := Classical.byContradiction fun more =>
        follows.final opening more (by simpa [empty] using here.2)
      have empty' : (x.extend s).rest = [] := by simp [extend, empty, none]
      rw [giveStatement_ended empty']
      exact .along follows (Nat.le_refl _) here.1
    · exact .ends opening follows empty here.1
  · refine ForksIf.weaken (P := Going k) ?_ (fun s here => ⟨here.1.1, here.2⟩) fun _ => id
    refine ForksIf.lookAhead _ (fun s some => ?_) fun ended => ?_
    · obtain ⟨t, ts, rest⟩ := List.exists_cons_of_ne_nil some
      simp [extend, rest]
    · refine (seesKeyword_forks (P := Stream.Left k) _ fun closed => ForksIf.ite (fun _ => ?_)
        fun _ => ?_).weaken (fun s => And.left) fun _ => id
      · exact ForksIf.since fun s => ForksIf.done fun _ => And.left
      · refine ForksIf.weaken (P := Stream.Left k) ?_ (fun s => And.left) fun _ => id
        exact (expression_forks enough).after.bind fun e =>
          ForksIf.since fun s => ForksIf.done fun _ => id

theorem loopBody_forks (each : StatementForks x k statement statement')
    (enough : x.Enough k n m) (opener closer : String) :
    x.ForksIf taken (Stream.Left k) (loopBody n statement opener closer)
      (loopBody m statement' opener closer) (Stream.Left k) := by
  refine ForksIf.eat (R := Stream.Left k) (by decide) ?_ ?_
    fun s short some _ => (short.advance some).mono (Nat.sub_le k 1)
  · exact closedBlock_forks each enough _ _
  · exact closedBlock_forks each enough _ _

theorem loopStatement_forks (each : StatementForks x k statement statement')
    (enough : x.Enough (k + 1) n m) (start : Span) :
    x.ForksIf taken (Stream.Left k) (loopStatement n statement start)
      (loopStatement m statement' start) (Stream.Left k) := by
  refine (condition_forks enough _).bind fun e => ?_
  refine (loopBody_forks each (enough.mono (Nat.le_succ k)) _ _).bind fun body => ?_
  exact ForksIf.since fun s => ForksIf.done fun _ => id

theorem header_forks (enough : x.Enough (k + 1) n m) :
    x.ForksIf taken (Stream.Left k) (header n) (header m) (Stream.Left k) := by
  have taken (s : Stream) (short : s.Left k) (some : s.rest ≠ []) : s.advance.Left k :=
    (short.advance some).mono (Nat.sub_le k 1)
  have value {p : Expr → Header} : x.Forks (Stream.Left k)
      (do return p (← expression n)) (do return p (← expression m)) (Stream.Left k) :=
    (expression_forks enough).bind fun e => ForksIf.done fun _ => id
  refine ForksIf.eat (R := Stream.Left k) (by decide) ?_ ?_ fun s short some _ => taken s short some
  · refine ForksIf.name fun key => (ForksIf.delimiter _ _).bind fun _ => ForksIf.name fun v => ?_
    refine (ForksIf.delimiter _ _).bind fun _ => (ForksIf.expect (by decide)).bind fun _ => value
  · refine ForksIf.name fun key => ForksIf.eat (R := Stream.Left k) (by decide) value.after ?_
      fun s short some _ => taken s short some
    refine ForksIf.eat (R := Stream.Left k) (by decide) ?_ ?_ fun s short some _ => taken s short some
    · refine (expression_forks enough).after.bind fun start => ?_
      exact (ForksIf.expect (by decide)).bind fun _ => value
    · refine ForksIf.eat (R := Stream.Left k) (by decide) ?_ (ForksIf.fail_next fun _ => rfl)
        fun s short some _ => taken s short some
      exact ForksIf.name fun v => (ForksIf.expect (by decide)).bind fun _ => value

theorem iterateStatement_forks (each : StatementForks x k statement statement')
    (enough : x.Enough (k + 1) n m) (start : Span) :
    x.ForksIf taken (Stream.Left k) (iterateStatement n statement start)
      (iterateStatement m statement' start) (Stream.Left k) := by
  refine (ForksIf.delimiter _ _).bind fun _ => (header_forks enough).bind fun h => ?_
  refine (ForksIf.delimiter _ _).bind fun _ => ?_
  refine (loopBody_forks each (enough.mono (Nat.le_succ k)) _ _).bind fun body => ?_
  exact ForksIf.since fun s => ForksIf.done fun _ => id

/-- A class that is not closed at the end of the row is not closed in it. -/
theorem members_ends {cls : String} {built : Bool} {Q : Stream → Prop} {s : Stream}
    (follows : x.Follows s) (empty : s.rest = []) {r : EStateM.Result Error Stream (List Member)} :
    x.Agree taken Q s (members statement cls n built s) r := by
  have run : members statement cls n built s =
      .error ⟨.grammar (.openClass cls), s.next.span⟩ s := by
    cases n with
    | zero => rfl
    | succ n =>
      have missed : eat .keyword "endclass" s = .ok false s :=
        eat_no (follows.next_not empty (by decide))
      rw [members, bind_of_ok missed, if_neg (by decide), bind_of_ok (atEnd_yes empty)]
      rfl
  rw [run]
  exact .stops (follows.stopsShort empty rfl)

/-- What is left of a class after a statement in it. -/
def membersAfter (statement : Parser Stmt) (cls : String) (n : Nat) (built : Bool) (start : Token)
    (s : Stmt) : Parser (List Member) :=
  match memberOf s with
  | none => fail (.member start.text) start.span
  | some (.constructor decl) =>
    if built then
      fail (.secondConstructor cls) start.span
    else
      return .constructor decl :: (← members statement cls n true)
  | some m => return m :: (← members statement cls n built)

/-- A statement that is no member, or a second constructor. -/
def Misplaced (built : Bool) (s : Stmt) : Prop :=
  s.sort = none ∨ (s.sort = some true ∧ built = true)

theorem membersAfter_fails (statement : Parser Stmt) (cls : String) (n : Nat) {built : Bool}
    (start : Token) {a : Stmt} (misplaced : Misplaced built a) (t : Stream) :
    ∃ e, membersAfter statement cls n built start a t = .error e t := by
  unfold membersAfter
  unfold Misplaced Stmt.sort at misplaced
  cases member : memberOf a with
  | none => exact ⟨_, rfl⟩
  | some m =>
    rw [member] at misplaced
    cases m with
    | constructor d =>
      have built : built = true := by simpa [Member.isConstructor] using misplaced
      rw [built]
      exact ⟨_, rfl⟩
    | property y e s => simp [Member.isConstructor] at misplaced
    | method d => simp [Member.isConstructor] at misplaced

theorem membersAfter_goes (cls : String) {built : Bool} (start : Token) {a : Stmt}
    (placed : ¬ Misplaced built a) :
    ∃ m built', ∀ statement n, membersAfter statement cls n built start a =
      do return m :: (← members statement cls n built') := by
  unfold Misplaced Stmt.sort at placed
  unfold membersAfter
  cases member : memberOf a with
  | none => simp [member] at placed
  | some m =>
    rw [member] at placed
    cases m with
    | constructor d =>
      have built : built = false := by simpa [Member.isConstructor] using placed
      rw [built]
      exact ⟨.constructor d, true, fun _ _ => rfl⟩
    | property y e s => exact ⟨.property y e s, built, fun _ _ => rfl⟩
    | method d => exact ⟨.method d, built, fun _ _ => rfl⟩

/-- A member whose statement is cut short is misplaced or not as the longer one is. -/
theorem member_forks (each : StatementForks x (k + 1) statement statement') {cls : String}
    (next : ∀ built, x.Forks (Stream.Left k) (members statement cls n built)
      (members statement' cls m built) (Stream.Left k)) (built : Bool) (start : Token) :
    x.ForksIf taken (Going (k + 1)) (statement >>= membersAfter statement cls n built start)
      (statement' >>= membersAfter statement' cls m built start) (Stream.Left (k + 1)) := by
  rintro s follows ⟨left, some⟩
  have h := each.forks (k + 1) (Nat.le_refl _) s follows left
  have rest (a : Stmt) (placed : ¬ Misplaced built a) :
      x.Forks (Stream.Left k) (membersAfter statement cls n built start a)
        (membersAfter statement' cls m built start a) (Stream.Left (k + 1)) := by
    obtain ⟨member, built', after⟩ := membersAfter_goes cls start placed
    rw [after, after]
    exact (next built').bind fun ms => ForksIf.done fun t short => short.mono (Nat.le_succ k)
  cases run : statement s with
  | error e t =>
    rw [run] at h
    rw [bind_of_error run]
    cases run' : statement' (x.extend s) with
    | ok b u =>
      rw [run'] at h
      cases h with
      | stops short => exact .stops short
    | error e' u =>
      rw [bind_of_error run']
      exact .fails (.inr some)
  | ok a t =>
    rw [run] at h
    rw [bind_of_ok run]
    by_cases misplaced : Misplaced built a
    · obtain ⟨e, failed⟩ := membersAfter_fails statement cls n start misplaced t
      rw [failed]
      cases run' : statement' (x.extend s) with
      | ok b u =>
        have misplaced' : Misplaced built b := by
          unfold Misplaced at misplaced ⊢
          rwa [← each.sorts s a t b u follows left run run']
        obtain ⟨e', failed'⟩ := membersAfter_fails statement' cls m start misplaced' u
        rw [bind_of_ok run', failed']
        exact .fails (.inr some)
      | error e' u =>
        rw [bind_of_error run']
        exact .fails (.inr some)
    · cases run' : statement' (x.extend s) with
      | ok b u =>
        rw [run'] at h
        rw [bind_of_ok run']
        cases h with
        | along follows' shorter good =>
          exact (rest a misplaced t follows' good).trans shorter False.elim
        | ends closed follows' empty good =>
          exact (rest a misplaced t follows' good).closes closed empty
      | error e' u =>
        rw [run'] at h
        cases h with
        | ends closed follows' empty good =>
          exact (rest a misplaced t follows' good).closes closed empty

theorem members_forks (each : StatementForks x k statement statement')
    (enough : x.Enough k n m) (cls : String) (built : Bool) :
    x.Forks (Stream.Left k) (members statement cls n built) (members statement' cls m built)
      (Stream.Left k) := by
  induction k generalizing n m built with
  | zero =>
    refine ForksIf.split (fun s follows left empty => members_ends follows empty) ?_
    exact fun s _ here => absurd (Stream.Left.empty here.1) here.2
  | succ k ih =>
    obtain ⟨n, m, rfl, rfl, fewer⟩ := enough.succ
    refine ForksIf.eat (R := Stream.Left k) (by decide)
      (ForksIf.done fun s short => short.mono (Nat.le_succ k)) ?_
      fun s short some _ => short.advance some
    refine ForksIf.unlessEnded (fun _ => rfl) ?_
    refine ForksIf.lookAhead Stream.next (fun _ => next_extend) fun start => ?_
    refine (member_forks each (fun built => ih (each.mono (Nat.le_succ k)) fewer built) built
      start).weaken (fun s => And.left) fun _ => id

theorem classStatement_forks (each : StatementForks x k statement statement')
    (enough : x.Enough k n m) (start : Span) :
    x.ForksIf taken (Stream.Left k) (classStatement n statement start)
      (classStatement m statement' start) (Stream.Left k) := by
  refine ForksIf.name fun cls => ?_
  have rest (parent : Option ClassPath) : x.Forks (Stream.Left k)
      (do
        let ms ← members statement cls n false
        return Stmt.cls cls parent ms (← since start))
      (do
        let ms ← members statement' cls m false
        return Stmt.cls cls parent ms (← since start)) (Stream.Left k) :=
    (members_forks each enough cls false).bind fun ms => ForksIf.since fun s =>
      ForksIf.done fun _ => id
  refine ForksIf.eat (R := Stream.Left k) (by decide) ?_ (rest none)
    fun s short some _ => (short.advance some).mono (Nat.sub_le k 1)
  have parents : x.ForksAfter (Stream.Left k) (some <$> classPath n .parentName)
      (some <$> classPath m .parentName) (Stream.Left k) :=
    (classPath_forks enough _).bind fun p => ForksIf.done fun _ => id
  exact parents.bind rest

theorem names_forks (enough : x.Enough k n m) (opening closing : String) :
    x.ForksIf taken (Stream.Left k) (names n opening closing) (names m opening closing)
      (Stream.Left k) := by
  have item : x.Forks (Stream.Left k) (name .listedName) (name .listedName) (Stream.Left k) := by
    rw [← bind_pure (name .listedName)]
    exact ForksIf.name fun a => ForksIf.done fun _ => id
  refine (ForksIf.delimiter _ _).bind fun _ => ?_
  refine (ForksIf.listedUntil_left (fun _ => item) (Nat.le_refl k) enough).bind fun ns => ?_
  exact (ForksIf.delimiter _ _).bind fun _ => ForksIf.done fun _ => id

theorem selection_forks (enough : x.Enough k n m) :
    x.ForksIf taken (Stream.Left k) (selection n) (selection m) (Stream.Left k) :=
  ForksIf.eat (R := Stream.Left k) (by decide) (ForksIf.done fun _ => id)
    ((names_forks enough _ _).bind fun ns => ForksIf.done fun _ => id)
    fun s short some _ => (short.advance some).mono (Nat.sub_le k 1)

theorem importStatement_forks (enough : x.Enough k n m) (start : Span) :
    x.ForksIf taken (Stream.Left k) (importStatement n start) (importStatement m start)
      (Stream.Left k) := by
  refine ForksIf.expectKind (by decide) fun file => (ForksIf.expect (by decide)).bind fun _ => ?_
  exact (selection_forks enough).bind fun items => ForksIf.since fun s => ForksIf.done fun _ => id

theorem loadStatement_forks (start : Span) :
    x.ForksIf taken (Stream.Left k) (loadStatement start) (loadStatement start)
      (Stream.Left k) := by
  refine ForksIf.expectKind (by decide) fun file => (ForksIf.expect (by decide)).bind fun _ => ?_
  exact ForksIf.name fun y => ForksIf.since fun s => ForksIf.done fun _ => id

theorem nameStatement_forks (enough : x.Enough (k + 1) n m) :
    x.Forks (Going (k + 1)) (nameStatement n) (nameStatement m) (Stream.Left k) := by
  refine ForksIf.lookAhead Stream.next (fun _ => next_extend) fun start => ?_
  refine ForksIf.weaken (P := Stream.Left (k + 1)) ?_ (fun s here => here.1.1) fun _ => id
  have nested (j : Nat) (less : j < k + 1) :
      x.Forks (Stream.Left j) (expression n) (expression m) (Stream.Left j) :=
    expression_forks (enough.mono less)
  refine (chain_forks nested enough).bind fun e => ?_
  refine ForksIf.eat (R := Stream.Left k) (by decide) ?_ (ForksIf.ite nofun fun _ => ?_)
    fun s short some _ => (short.advance some).mono (Nat.sub_le k 1)
  · cases targetOf e with
    | none => exact ForksIf.fail
    | some target =>
      exact (nested k (Nat.lt_succ_self k)).after.bind fun value => ForksIf.since fun s =>
        ForksIf.done fun _ => id
  · refine ForksIf.ite (fun _ => ?_) fun _ => (ForksIf.fail_next fun _ => rfl)
    exact ForksIf.since fun s => ForksIf.done fun _ => id

theorem keywordStatement_forks (each : StatementForks x k statement statement')
    (enough : x.Enough (k + 1) n m) {t : Token} (keyword : t.kind = .keyword) :
    x.ForksAfter (fun s => s.Left k ∧ s.last = t) (keywordStatement n statement t)
      (keywordStatement m statement' t) (Stream.Left k) := by
  have left : ∀ s : Stream, s.Left k ∧ s.last = t → s.Left k := fun s => And.left
  have fewer := enough.mono (Nat.le_succ k)
  obtain ⟨kind, text, span⟩ := t
  unfold keywordStatement
  dsimp only
  split
  · exact ForksIf.done left
  · refine ForksIf.weaken (P := Stream.Left k) ?_ left fun _ => id
    refine (ForksIf.delimiter _ _).bind fun _ => (expression_forks enough).bind fun e => ?_
    exact (ForksIf.delimiter _ _).bind fun _ => ForksIf.since fun s => ForksIf.done fun _ => id
  · exact (branchStatement_forks each enough span).weaken left fun _ => id
  · refine ForksIf.weaken (P := Stream.Left k) ?_ left fun _ => id
    exact (functionDecl_forks each fewer span).bind fun d => ForksIf.since fun s =>
      ForksIf.done fun _ => id
  · refine ForksIf.weaken (P := Stream.Left k) ?_ left fun _ => id
    exact (initDecl_forks each fewer span).bind fun d => ForksIf.since fun s =>
      ForksIf.done fun _ => id
  · refine (giveStatement_forks enough span).weaken (fun s here => ⟨here.1, ?_⟩) fun _ => id
    rw [here.2]
    exact ⟨keyword, rfl⟩
  · exact (loopStatement_forks each enough span).weaken left fun _ => id
  · exact (iterateStatement_forks each enough span).weaken left fun _ => id
  · exact (classStatement_forks each fewer span).weaken left fun _ => id
  · refine ForksIf.weaken (P := Stream.Left k) ?_ left fun _ => id
    exact (names_forks fewer _ _).bind fun ns => ForksIf.since fun s => ForksIf.done fun _ => id
  · exact (importStatement_forks fewer span).weaken left fun _ => id
  · refine ForksIf.weaken (P := Stream.Left k) ?_ left fun _ => id
    refine (ForksIf.delimiter _ _).bind fun _ => ?_
    refine (arguments_forks (expression_forks enough) fewer).bind fun args => ?_
    exact ForksIf.since fun s => ForksIf.done fun _ => id
  · exact (loadStatement_forks span).weaken left fun _ => id
  · exact ForksIf.fail

end Statements

/-- The statements that a row and a longer one start with are of one sort. -/
theorem statement_sorts (enough : x.Enough k n m) {s t u : Stream} {a b : Stmt}
    (follows : x.Follows s) (left : s.Left k) (run : statement n s = .ok a t)
    (run' : statement m (x.extend s) = .ok b u) : a.sort = b.sort := by
  have short : s.rest.length ≤ n := Nat.le_trans left enough.short
  have long : (x.extend s).rest.length ≤ m := by
    refine Nat.le_trans ?_ enough.long
    rw [extend, List.length_append]
    exact Nat.add_le_add_right left _
  obtain ⟨good, -, ts, rest, spelt⟩ := (statement_reads n).reads.took
    (follows.stop ▸ x.ends) short (Took.refl s) run
  obtain ⟨good', -, us, rest', spelt'⟩ := (statement_reads m).reads.took x.ends' long
    (Took.refl _) run'
  have rows : ts ++ (t.rest ++ x.more) = us ++ u.rest := by
    rw [← rest', ← List.append_assoc, ← rest]
    rfl
  rw [Stmt.sort_spelt good spelt (t.rest ++ x.more), rows, Stmt.sort_spelt good' spelt' u.rest]

theorem statement_going (each : StatementForks x k (statement n) (statement m))
    (enough : x.Enough (k + 1) (n + 1) (m + 1)) :
    x.Forks (Going (k + 1)) (statement (n + 1)) (statement (m + 1)) (Stream.Left k) := by
  refine ForksIf.lookAhead Stream.next (fun _ => next_extend) ?_
  rintro ⟨kind, text, span⟩
  cases kind with
  | keyword =>
    refine ForksIf.weaken
      (P := fun s => (s.Left (k + 1) ∧ s.next = ⟨.keyword, text, span⟩) ∧ s.rest ≠ [])
      ?_ (fun s here => ⟨⟨here.1.1, here.2⟩, here.1.2⟩) fun _ => id
    refine ForksIf.step (keywordStatement_forks each enough rfl) fun s here some => ?_
    exact ⟨here.1.advance some, (last_advance some).trans here.2⟩
  | name => exact (nameStatement_forks enough).weaken (fun s => And.left) fun _ => id
  | _ => exact fun s _ here => .fails (.inr here.1.2)

theorem statement_ends {Q : Stream → Prop} {s : Stream} (follows : x.Follows s)
    (empty : s.rest = []) {r : EStateM.Result Error Stream Stmt} :
    x.Agree taken Q s (statement n s) r := by
  have ended : s.next.kind = .eof := follows.next empty ▸ x.ends
  have run : statement n s = .error ⟨.grammar .endOfInput, s.next.span⟩ s := by
    cases n with
    | zero => rfl
    | succ n =>
      have look : peek s = .ok s.next s := rfl
      rw [statement, bind_of_ok look, ended]
      rfl
  rw [run]
  exact .stops (follows.stopsShort empty rfl)

theorem statement_forks (enough : x.Enough k n m) :
    StatementForks x k (statement n) (statement m) := by
  refine ⟨fun j below => ?_, fun s a t b u follows left => statement_sorts enough follows left⟩
  refine ForksIf.split (fun s follows left empty => statement_ends follows empty) ?_
  induction n generalizing k m j with
  | zero =>
    obtain rfl : j = 0 := Nat.le_zero.1 (Nat.le_trans below enough.short)
    exact fun s _ here => absurd (Stream.Left.empty here.1) here.2
  | succ n ih =>
    cases j with
    | zero => exact fun s _ here => absurd (Stream.Left.empty here.1) here.2
    | succ j =>
      obtain ⟨n', m, same, rfl, fewer⟩ := (enough.mono below).succ
      obtain rfl := Nat.succ.inj same
      have each : StatementForks x j (statement n) (statement m) := by
        refine ⟨fun i below => ?_, fun s a t b u follows left => statement_sorts fewer follows left⟩
        exact ForksIf.split (fun s follows left empty => statement_ends follows empty)
          (ih fewer i below)
      exact statement_going each (enough.mono below)

theorem statements_ended {bound : Nat} {s : Stream} (empty : s.rest = []) :
    statements bound n s = .ok [] s := by
  cases n with
  | zero => rfl
  | succ n =>
    rw [statements, bind_of_ok (atEnd_yes empty)]
    rfl

/-- The statements of a row that goes on in any way. -/
theorem statements_forks {bound bound' : Nat} (closed : ¬ x.opening) (enough : x.Enough k n m)
    (bounds : x.Enough k bound bound') :
    x.Forks (Stream.Left k) (statements bound n) (statements bound' m) (Stream.Left k) := by
  have ended {j n : Nat} {s : Stream} (left : s.Left j) (follows : x.Follows s)
      (empty : s.rest = []) {r : EStateM.Result Error Stream Block} :
      x.Agree False (Stream.Left j) s (statements bound n s) r := by
    rw [statements_ended empty]
    exact .ends closed follows empty left
  refine ForksIf.split (fun s follows left empty => ended left follows empty) ?_
  induction k generalizing n m with
  | zero => exact fun s _ here => absurd (Stream.Left.empty here.1) here.2
  | succ k ih =>
    obtain ⟨n, m, rfl, rfl, fewer⟩ := enough.succ
    have later : x.Forks (Stream.Left k) (statements bound n) (statements bound' m) (Stream.Left k) :=
      ForksIf.split (fun s follows left empty => ended left follows empty)
        (ih fewer (bounds.mono (Nat.le_succ k)))
    have each := (statement_forks bounds).forks (k + 1) (Nat.le_refl _)
    refine ForksIf.lookAhead (fun s => s.rest.isEmpty) (fun s some => ?_) fun found => ?_
    · obtain ⟨t, ts, rest⟩ := List.exists_cons_of_ne_nil some
      simp [extend, rest]
    · refine ForksIf.ite (fun _ => ForksIf.done fun s here => here.1.1) fun _ => ?_
      refine (each.weaken (fun s here => here.1.1) fun _ => id).bind fun s => ?_
      exact later.bind fun b => ForksIf.done fun s left => left.mono (Nat.le_succ k)

end Parser

end Script
