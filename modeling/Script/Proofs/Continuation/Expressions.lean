import Script.Proofs.Continuation.Forks

/-! The expression parsers on a row of tokens and on one that goes on after it. -/

namespace Script.Parser

open Continuation

variable {x : Continuation} {taken : Prop} {k n m : Nat}

section Operators

variable {operand operand' : Parser Expr}

/-- Operands with one token fewer. -/
theorem operands_within (operands : x.Forks (Stream.Left (k + 1)) operand operand'
    (Stream.Left (k + 1))) : x.Forks (Stream.Left k) operand operand' (Stream.Left k) :=
  operands.within fun _ left => ⟨left.mono (Nat.le_succ k), left⟩

theorem joinLeft_skips (ops : List BinOp) (operand : Parser Expr) (n : Nat) (left : Expr) :
    ForksIf.Skips (joinLeft ops operand n left) (pure left) := by
  intro s fresh
  cases n with
  | zero => rfl
  | succ n =>
    have none : operatorOf ops s = .ok none s :=
      ForksIf.operatorOf_none fun op => (ForksIf.operator_quiet op).not_is fresh
    rw [joinLeft, bind_of_ok none]

theorem joinLeft_forks (operands : x.Forks (Stream.Left k) operand operand' (Stream.Left k))
    (enough : x.Enough k n m) (ops : List BinOp) (left : Expr) :
    x.Forks (Stream.Left k) (joinLeft ops operand n left) (joinLeft ops operand' m left)
      (Stream.Left k) := by
  induction k generalizing n m left with
  | zero => exact ForksIf.idle (joinLeft_skips ops operand n left) (joinLeft_skips ops operand' m left)
  | succ k ih =>
    obtain ⟨n, m, rfl, rfl, fewer⟩ := enough.succ
    refine ForksIf.operatorOf (fun op => ?_) (ForksIf.done fun _ => id)
    refine ForksIf.step (R := Stream.Left k) ?_ fun s short some => short.advance some
    refine (ForksIf.operandAfter (operands_within operands).after).bind fun right => ?_
    exact (ih (operands_within operands) fewer _).weaken (fun _ => id)
      fun s short => short.mono (Nat.le_succ k)

theorem level_forks (operands : x.Forks (Stream.Left k) operand operand' (Stream.Left k))
    (enough : x.Enough k n m) (ops : List BinOp) :
    x.Forks (Stream.Left k) (level n ops operand) (level m ops operand') (Stream.Left k) :=
  operands.bind fun left => joinLeft_forks operands enough ops left

theorem joinLogic_skips (op : Logic) (operand : Parser Expr) (n : Nat) (left : Expr) :
    ForksIf.Skips (joinLogic op operand n left) (pure left) := by
  cases n with
  | zero => exact ForksIf.skips_refl _
  | succ n => exact ForksIf.skips_eat (Token.quiet_operator _)

theorem joinLogic_forks (operands : x.Forks (Stream.Left k) operand operand' (Stream.Left k))
    (enough : x.Enough k n m) (op : Logic) (left : Expr) :
    x.Forks (Stream.Left k) (joinLogic op operand n left) (joinLogic op operand' m left)
      (Stream.Left k) := by
  induction k generalizing n m left with
  | zero => exact ForksIf.idle (joinLogic_skips op operand n left) (joinLogic_skips op operand' m left)
  | succ k ih =>
    obtain ⟨n, m, rfl, rfl, fewer⟩ := enough.succ
    refine ForksIf.eat (R := Stream.Left k) (Token.quiet_operator _) ?_ (ForksIf.done fun _ => id)
      fun s short some _ => short.advance some
    refine (operands_within operands).after.bind fun right => ?_
    exact (ih (operands_within operands) fewer _).weaken (fun _ => id)
      fun s short => short.mono (Nat.le_succ k)

theorem logicLevel_forks (operands : x.Forks (Stream.Left k) operand operand' (Stream.Left k))
    (enough : x.Enough k n m) (op : Logic) :
    x.Forks (Stream.Left k) (logicLevel n op operand) (logicLevel m op operand') (Stream.Left k) :=
  operands.bind fun left => joinLogic_forks operands enough op left

theorem power_first (operand : Parser Expr) (n : Nat) :
    ∃ f, power operand n = operand >>= f ∧ ∀ e, ForksIf.Skips (f e) (pure e) := by
  cases n with
  | zero => exact ⟨pure, (bind_pure operand).symm, fun e => ForksIf.skips_refl _⟩
  | succ n => exact ⟨_, rfl, fun e => ForksIf.skips_eat (Token.quiet_operator _)⟩

theorem power_forks (operands : x.Forks (Stream.Left k) operand operand' (Stream.Left k))
    (enough : x.Enough k n m) :
    x.Forks (Stream.Left k) (power operand n) (power operand' m) (Stream.Left k) := by
  induction k generalizing n m with
  | zero =>
    obtain ⟨f, run, skips⟩ := power_first operand n
    obtain ⟨f', run', skips'⟩ := power_first operand' m
    rw [run, run']
    exact operands.bind fun e => ForksIf.idle (skips e) (skips' e)
  | succ k ih =>
    obtain ⟨n, m, rfl, rfl, fewer⟩ := enough.succ
    refine operands.bind fun left => ?_
    refine ForksIf.eat (R := Stream.Left k) (Token.quiet_operator _) ?_ (ForksIf.done fun _ => id)
      fun s short some _ => short.advance some
    refine (ForksIf.operandAfter (ih (operands_within operands) fewer).after).bind fun right =>
      ForksIf.done fun s short => ?_
    exact short.mono (Nat.le_succ k)

theorem negation_skips (operand : Parser Expr) (n : Nat) :
    ForksIf.Skips (negation operand n) operand := by
  cases n with
  | zero => exact ForksIf.skips_refl _
  | succ n => exact ForksIf.skips_eat (Token.quiet_operator _)

theorem negation_forks (operands : x.Forks (Stream.Left k) operand operand' (Stream.Left k))
    (enough : x.Enough k n m) :
    x.Forks (Stream.Left k) (negation operand n) (negation operand' m) (Stream.Left k) := by
  induction k generalizing n m with
  | zero => exact ForksIf.skip (negation_skips operand n) (negation_skips operand' m) operands
  | succ k ih =>
    obtain ⟨n, m, rfl, rfl, fewer⟩ := enough.succ
    refine ForksIf.eat (R := Stream.Left k) (Token.quiet_operator _) ?_ operands
      fun s short some _ => short.advance some
    refine ForksIf.last fun t => ?_
    refine (ForksIf.operandAfter (ih (operands_within operands) fewer).after).bind fun e =>
      ForksIf.done fun s short => ?_
    exact short.mono (Nat.le_succ k)

end Operators

section Nested

variable {expression expression' : Parser Expr}

theorem arguments_forks
    (nested : x.Forks (Stream.Left k) expression expression' (Stream.Left k))
    (enough : x.Enough k n m) :
    x.ForksIf taken (Stream.Left k) (arguments n expression) (arguments m expression')
      (Stream.Left k) := by
  refine (ForksIf.listedUntil_left (fun _ => ?_) (Nat.le_refl k) enough).bind fun args => ?_
  · exact ForksIf.unlessEnded (fun _ => rfl) (nested.weaken (fun _ => And.left) fun _ => id)
  · exact (ForksIf.delimiter _ _).bind fun _ => ForksIf.done fun _ => id

theorem postfixes_skips (n : Nat) (bound : Nat) (expression : Parser Expr) (e : Expr) :
    ForksIf.Skips (postfixes bound expression n e) (pure e) := by
  intro s fresh
  cases n with
  | zero => rfl
  | succ n =>
    rw [postfixes, ForksIf.skips_eat (Token.quiet_delimiter _) s fresh,
      if_neg (by decide), ForksIf.skips_eat (Token.quiet_delimiter _) s fresh, if_neg (by decide)]

theorem postfixes_forks
    (nested : ∀ j < k, x.Forks (Stream.Left j) expression expression' (Stream.Left j))
    {bound bound' : Nat} (enough : x.Enough k bound bound') (enough' : x.Enough k n m) (e : Expr) :
    x.Forks (Stream.Left k) (postfixes bound expression n e) (postfixes bound' expression' m e)
      (Stream.Left k) := by
  induction k generalizing n m e with
  | zero => exact ForksIf.idle (postfixes_skips n _ _ e) (postfixes_skips m _ _ e)
  | succ k ih =>
    obtain ⟨n, m, rfl, rfl, fewer⟩ := enough'.succ
    have inside := nested k (Nat.lt_succ_self k)
    have enough := enough.mono (Nat.le_succ k)
    have go (e : Expr) : x.Forks (Stream.Left k) (postfixes bound expression n e)
        (postfixes bound' expression' m e) (Stream.Left (k + 1)) :=
      (ih (fun j less => nested j (Nat.lt_succ_of_lt less)) enough fewer e).weaken (fun _ => id)
        fun s short => short.mono (Nat.le_succ k)
    refine ForksIf.eat (R := Stream.Left k) (by decide) ?_ ?_
      fun s short some _ => short.advance some
    · refine ForksIf.name fun member => ?_
      refine ForksIf.eat (R := Stream.Left k) (by decide) ?_ (ForksIf.since fun s => go _)
        fun s short some _ => (short.advance some).mono (Nat.sub_le k 1)
      refine (arguments_forks inside enough).bind fun args => ForksIf.since fun s => go _
    · refine ForksIf.eat (R := Stream.Left k) (by decide) ?_ (ForksIf.done fun _ => id)
        fun s short some _ => short.advance some
      refine inside.after.bind fun key => (ForksIf.delimiter _ _).bind fun _ => ?_
      exact ForksIf.since fun s => go _

theorem pathRest_skips (n : Nat) : ForksIf.Skips (pathRest n) (pure []) := by
  cases n with
  | zero => exact ForksIf.skips_refl _
  | succ n => exact ForksIf.skips_eat (by decide)

theorem pathRest_forks (enough : x.Enough k n m) :
    x.ForksIf taken (Stream.Left k) (pathRest n) (pathRest m) (Stream.Left k) := by
  induction k generalizing n m taken with
  | zero => exact ForksIf.idle (pathRest_skips n) (pathRest_skips m)
  | succ k ih =>
    obtain ⟨n, m, rfl, rfl, fewer⟩ := enough.succ
    refine ForksIf.eat (R := Stream.Left k) (by decide) ?_ (ForksIf.done fun _ => id)
      fun s short some _ => short.advance some
    refine ForksIf.name fun part => (ih fewer).bind fun rest => ForksIf.done fun s short => ?_
    exact short.mono (Nat.le_succ k)

theorem classPath_forks (enough : x.Enough k n m) (what : Wanted) :
    x.ForksIf taken (Stream.Left k) (classPath n what) (classPath m what) (Stream.Left k) :=
  ForksIf.name fun _ => (pathRest_forks enough).bind fun _ => ForksIf.done fun _ => id

/-- At the end an entry finds the bracket or the comma before it instead of a key. -/
theorem entry_forks (nested : x.Forks (Stream.Left k) expression expression' (Stream.Left k))
    (seen : List (String × Expr)) :
    x.Forks (Stream.After (·.kind = .delimiter) k) (entry expression seen) (entry expression' seen)
      (Stream.Left k) := by
  refine ForksIf.split (fun s follows after empty => ?_) ?_
  · have stays : s.advance = s := by simp [Stream.advance, empty]
    have took : advance s = .ok s.last s := by
      change EStateM.Result.ok s.advance.last s.advance = _
      rw [stays]
    have wrong : s.last.kind ≠ .name ∧ s.last.kind ≠ .text := by simp [after.2]
    unfold entry
    rw [bind_of_ok took, if_pos wrong]
    exact .stops ⟨_, rfl, follows.last⟩
  · refine (ForksIf.advance (P := Stream.Left k) (R := Stream.Left k) (fun t => ?_) ?_).weaken
      (fun s here => ⟨here.1.1, here.2⟩) fun _ => id
    · refine ForksIf.ite (fun _ => ForksIf.fail) fun _ =>
        ForksIf.ite (fun _ => ForksIf.fail) fun _ => ?_
      refine ((ForksIf.delimiter _ _).weaken (fun _ => And.left) fun _ => id).bind fun _ => ?_
      exact nested.bind fun e => ForksIf.done fun _ => id
    · exact fun s short some => (short.advance some).mono (Nat.sub_le k 1)

theorem primaryFrom_forks (nested : x.Forks (Stream.Left k) expression expression' (Stream.Left k))
    (enough : x.Enough k n m) (t : Token) :
    x.ForksAfter (fun s => s.Left k ∧ s.last = t) (primaryFrom n expression t)
      (primaryFrom m expression' t) (Stream.Left k) := by
  have left : ∀ s : Stream, s.Left k ∧ s.last = t → s.Left k := fun s => And.left
  have give {e : Expr} : x.ForksAfter (fun s => s.Left k ∧ s.last = t) (pure e) (pure e)
      (Stream.Left k) :=
    ForksIf.done left
  obtain ⟨kind, text, span⟩ := t
  unfold primaryFrom
  dsimp only
  split
  · cases numberLiteral text with
    | none => exact ForksIf.fail
    | some v => exact give
  · exact give
  · exact give
  · exact give
  · exact give
  · refine ForksIf.weaken (P := Stream.Left k) ?_ left fun _ => id
    refine (classPath_forks enough _).bind fun cls => (ForksIf.delimiter _ _).bind fun _ => ?_
    refine (arguments_forks nested enough).bind fun args => ForksIf.since fun s => ?_
    exact ForksIf.done fun _ => id
  · refine ForksIf.weaken (P := Stream.Left k) ?_ left fun _ => id
    refine ForksIf.eat (R := Stream.Left k) (by decide) ?_ (ForksIf.done fun _ => id)
      fun s short some _ => (short.advance some).mono (Nat.sub_le k 1)
    refine (arguments_forks nested enough).bind fun args => ForksIf.since fun s => ?_
    exact ForksIf.done fun _ => id
  · refine ForksIf.weaken (P := Stream.Left k) ?_ left fun _ => id
    refine ForksIf.sees (by decide) ?_ ?_
    · exact fun s _ here => .fails (.inr here.2)
    · refine nested.bind fun e => (ForksIf.delimiter _ _).bind fun _ => ForksIf.since fun s => ?_
      exact ForksIf.done fun _ => id
  · refine ForksIf.weaken (P := Stream.Left k) ?_ left fun _ => id
    refine (ForksIf.listedUntil_left (fun _ => nested) (Nat.le_refl k) enough).bind fun items => ?_
    exact (ForksIf.delimiter _ _).bind fun _ => ForksIf.since fun s => ForksIf.done fun _ => id
  · have opened : ∀ s : Stream, s.Left k ∧ s.last = ⟨.delimiter, "\x7b", span⟩ →
        s.After (·.kind = .delimiter) k := fun s here => ⟨here.1, by rw [here.2]⟩
    refine ForksIf.weaken ?_ opened fun _ => id
    refine (ForksIf.listedUntil (fun _ => id) (entry_forks nested) (Nat.le_refl k) enough).bind
      fun entries => ?_
    exact (ForksIf.delimiter _ _).bind fun _ => ForksIf.since fun s => ForksIf.done fun _ => id
  · exact ForksIf.fail

theorem primary_forks
    (nested : ∀ j < k, x.Forks (Stream.Left j) expression expression' (Stream.Left j))
    (enough : x.Enough k n m) :
    x.Forks (Stream.Left k) (primary n expression) (primary m expression') (Stream.Left (k - 1)) := by
  refine ForksIf.unlessEnded (fun _ => rfl) ?_
  cases k with
  | zero => exact fun s _ here => absurd (Stream.Left.empty here.1) here.2
  | succ k =>
    refine ForksIf.advance (R := Stream.Left k) (fun t => ?_) fun s short some => short.advance some
    exact primaryFrom_forks (nested k (Nat.lt_succ_self k)) (enough.mono (Nat.le_succ k)) t

theorem chain_forks
    (nested : ∀ j < k, x.Forks (Stream.Left j) expression expression' (Stream.Left j))
    (enough : x.Enough k n m) :
    x.Forks (Stream.Left k) (chain n expression) (chain m expression') (Stream.Left (k - 1)) := by
  have enough' := enough.mono (Nat.sub_le k 1)
  refine (primary_forks nested enough).bind fun e => postfixes_forks ?_ enough' enough' e
  exact fun j less => nested j (Nat.lt_of_lt_of_le less (Nat.sub_le k 1))

theorem levels_forks
    (nested : ∀ j < k, x.Forks (Stream.Left j) expression expression' (Stream.Left j))
    (enough : x.Enough k n m) :
    x.Forks (Stream.Left k) (levels n expression) (levels m expression') (Stream.Left k) := by
  have atom := (chain_forks nested enough).weaken (fun _ => id)
    fun s left => left.mono (Nat.sub_le k 1)
  have powers := power_forks (negation_forks atom enough) enough
  have products := level_forks powers enough [.mul, .div, .rem, .floorDiv]
  have sums := level_forks products enough [.add, .sub]
  have orders := level_forks sums enough [.gt, .lt, .ge, .le]
  have equalities := level_forks orders enough [.eq, .ne]
  have memberships := level_forks equalities enough [.mem]
  exact logicLevel_forks (logicLevel_forks memberships enough .and) enough .or

end Nested

theorem expression_forks (enough : x.Enough (k + 1) n m) :
    x.Forks (Stream.Left k) (expression n) (expression m) (Stream.Left k) := by
  induction n generalizing k m with
  | zero => exact absurd enough.short (Nat.not_succ_le_zero k)
  | succ n ih =>
    obtain ⟨n', m, same, rfl, fewer⟩ := enough.succ
    refine levels_forks (fun j less => ?_) (enough.mono (Nat.le_succ k))
    exact ih ((Nat.succ.inj same ▸ fewer).mono less)

end Script.Parser
