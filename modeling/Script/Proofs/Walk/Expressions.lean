import Script.Proofs.Walk.Steps

/-! Walks of the expression parsers: with any two bounds that are enough for the tokens left, a parser
goes the same way. -/

namespace Script.Parser

open Row

variable {r : Row} {k n m : Nat}

section Operators

variable {operand operand' : Parser Expr}

/-- Operands with one token fewer. -/
theorem operands_fewer (operands : r.Settles (r.Left (k + 1)) operand operand' (r.Left (k + 1))) :
    r.Settles (r.Left k) operand operand' (r.Left k) :=
  operands.within fun _ left => ⟨left.mono (Nat.le_succ k), left⟩

theorem operatorOf_ended (ops : List BinOp) : r.Goes (operatorOf ops) r.first (.ok none) r.first := by
  have none : ops.find? (fun op => decide
      (r.stop.kind = (if op = .mem then .keyword else .operator) ∧ r.stop.text = op.symbol)) =
      none := by
    refine List.find?_eq_none.2 fun op _ => ?_
    rw [decide_eq_true_eq, r.ends]
    rintro ⟨same, -⟩
    split at same <;> cases same
  have looked := Goes.look r.token_first fun t => ops.find? fun op =>
    decide (t.kind = (if op = .mem then .keyword else .operator) ∧ t.text = op.symbol)
  rwa [none] at looked

theorem joinLeft_defers (ops : List BinOp) (operand : Parser Expr) (n : Nat) (left : Expr) :
    r.Defers (joinLeft ops operand n left) (pure left) := by
  intro res goes
  cases n with
  | zero => exact goes
  | succ n => exact (operatorOf_ended ops).bind goes

theorem joinLeft_settles (operands : r.Settles (r.Left k) operand operand' (r.Left k))
    (enough : Enough k n m) (ops : List BinOp) (left : Expr) :
    r.Settles (r.Left k) (joinLeft ops operand n left) (joinLeft ops operand' m left)
      (r.Left k) := by
  induction k generalizing n m left with
  | zero => exact Settles.idle (joinLeft_defers ops _ n left) (joinLeft_defers ops _ m left)
  | succ k ih =>
    obtain ⟨n, m, rfl, rfl, fewer⟩ := enough.succ
    refine Settles.operatorOf (fun op => ?_) (Settles.done fun _ => id)
    refine Settles.step (R := r.Left k) ?_ fun i left => left.step
    refine (Settles.operandAfter (fun _ => And.left) (operands_fewer operands)).bind fun right => ?_
    exact (ih (operands_fewer operands) fewer _).weaken (fun _ => id)
      fun i left => left.mono (Nat.le_succ k)

theorem level_settles (operands : r.Settles (r.Left k) operand operand' (r.Left k))
    (enough : Enough k n m) (ops : List BinOp) :
    r.Settles (r.Left k) (level n ops operand) (level m ops operand') (r.Left k) :=
  operands.bind fun left => joinLeft_settles operands enough ops left

theorem joinLogic_defers (op : Logic) (operand : Parser Expr) (n : Nat) (left : Expr) :
    r.Defers (joinLogic op operand n left) (pure left) := by
  cases n with
  | zero => exact .refl _
  | succ n => exact .eat (by decide)

theorem joinLogic_settles (operands : r.Settles (r.Left k) operand operand' (r.Left k))
    (enough : Enough k n m) (op : Logic) (left : Expr) :
    r.Settles (r.Left k) (joinLogic op operand n left) (joinLogic op operand' m left)
      (r.Left k) := by
  induction k generalizing n m left with
  | zero => exact Settles.idle (joinLogic_defers op _ n left) (joinLogic_defers op _ m left)
  | succ k ih =>
    obtain ⟨n, m, rfl, rfl, fewer⟩ := enough.succ
    refine Settles.eat (R := r.Left k) (by decide) ?_ (Settles.done fun _ => id)
      fun i left _ => left.step
    refine (operands_fewer operands).bind fun right => ?_
    exact (ih (operands_fewer operands) fewer _).weaken (fun _ => id)
      fun i left => left.mono (Nat.le_succ k)

theorem logicLevel_settles (operands : r.Settles (r.Left k) operand operand' (r.Left k))
    (enough : Enough k n m) (op : Logic) :
    r.Settles (r.Left k) (logicLevel n op operand) (logicLevel m op operand') (r.Left k) :=
  operands.bind fun left => joinLogic_settles operands enough op left

theorem power_starts (operand : Parser Expr) (n : Nat) :
    ∃ f, power operand n = operand >>= f ∧ ∀ e, r.Defers (f e) (pure e) := by
  cases n with
  | zero => exact ⟨pure, (bind_pure operand).symm, fun e => .refl _⟩
  | succ n => exact ⟨_, rfl, fun e => .eat (by decide)⟩

theorem power_settles (operands : r.Settles (r.Left k) operand operand' (r.Left k))
    (enough : Enough k n m) :
    r.Settles (r.Left k) (power operand n) (power operand' m) (r.Left k) := by
  induction k generalizing n m with
  | zero =>
    obtain ⟨f, run, defers⟩ := power_starts (r := r) operand n
    obtain ⟨f', run', defers'⟩ := power_starts (r := r) operand' m
    rw [run, run']
    exact operands.bind fun e => Settles.idle (defers e) (defers' e)
  | succ k ih =>
    obtain ⟨n, m, rfl, rfl, fewer⟩ := enough.succ
    refine operands.bind fun left => ?_
    refine Settles.eat (R := r.Left k) (by decide) ?_ (Settles.done fun _ => id)
      fun i left _ => left.step
    have later := ih (operands_fewer operands) fewer
    refine (Settles.operandAfter (fun _ => And.left) later).bind fun right => ?_
    exact Settles.done fun i left => left.mono (Nat.le_succ k)

theorem negation_defers (operand : Parser Expr) (n : Nat) :
    r.Defers (negation operand n) operand := by
  cases n with
  | zero => exact .refl _
  | succ n => exact .eat (by decide)

theorem negation_settles (operands : r.Settles (r.Left k) operand operand' (r.Left k))
    (enough : Enough k n m) :
    r.Settles (r.Left k) (negation operand n) (negation operand' m) (r.Left k) := by
  induction k generalizing n m with
  | zero =>
    exact Settles.skip (fun _ => And.right) (negation_defers _ n) (negation_defers _ m) operands
  | succ k ih =>
    obtain ⟨n, m, rfl, rfl, fewer⟩ := enough.succ
    refine Settles.eat (R := r.Left k) (by decide) ?_ operands fun i left _ => left.step
    refine Settles.last (fun _ => And.left) fun t => ?_
    have later := ih (operands_fewer operands) fewer
    refine (Settles.operandAfter (fun _ => And.left) later).bind fun e => ?_
    exact Settles.done fun i left => left.mono (Nat.le_succ k)

end Operators

section Nested

variable {expression expression' : Parser Expr}

theorem arguments_settles (nested : r.Settles (r.Left k) expression expression' (r.Left k))
    (enough : Enough k n m) :
    r.Settles (r.Left k) (arguments n expression) (arguments m expression') (r.Left k) := by
  refine (Settles.listedUntil (fun _ => ?_) enough).bind fun args => ?_
  · exact Settles.unlessEnded (nested.weaken (fun _ => And.left) fun _ => id)
  · exact (Settles.delimiter _ _).bind fun _ => Settles.done fun _ => id

theorem postfixes_defers (n bound : Nat) (expression : Parser Expr) (e : Expr) :
    r.Defers (postfixes bound expression n e) (pure e) := by
  cases n with
  | zero => exact .refl _
  | succ n => exact .trans (.eat (by decide)) (.eat (by decide))

theorem postfixes_settles
    (nested : ∀ j < k, r.Settles (r.Left j) expression expression' (r.Left j))
    {bound bound' : Nat} (enough : Enough k bound bound') (enough' : Enough k n m) (e : Expr) :
    r.Settles (r.Left k) (postfixes bound expression n e) (postfixes bound' expression' m e)
      (r.Left k) := by
  induction k generalizing n m e with
  | zero => exact Settles.idle (postfixes_defers n _ _ e) (postfixes_defers m _ _ e)
  | succ k ih =>
    obtain ⟨n, m, rfl, rfl, fewer⟩ := enough'.succ
    have inside := nested k (Nat.lt_succ_self k)
    have enough := enough.mono (Nat.le_succ k)
    have go (p : Span → Expr) (start : Span) : r.Settles (r.Left k)
        (since start >>= fun s => postfixes bound expression n (p s))
        (since start >>= fun s => postfixes bound' expression' m (p s)) (r.Left (k + 1)) :=
      Settles.since (fun _ => And.left) fun s =>
        (ih (fun j less => nested j (Nat.lt_succ_of_lt less)) enough fewer (p s)).weaken (fun _ => id)
          fun i left => left.mono (Nat.le_succ k)
    refine Settles.eat (R := r.Left k) (by decide) ?_ ?_ fun i left _ => left.step
    · refine (Settles.name _).bind fun member => ?_
      refine Settles.option (by decide) fun called => Settles.ite (fun _ => ?_) fun _ => go _ _
      exact (arguments_settles inside enough).bind fun args => go _ _
    · refine Settles.eat (R := r.Left k) (by decide) ?_ (Settles.done fun _ => id)
        fun i left _ => left.step
      exact inside.bind fun key => (Settles.delimiter _ _).bind fun _ => go _ _

theorem pathRest_defers (n : Nat) : r.Defers (pathRest n) (pure []) := by
  cases n with
  | zero => exact .refl _
  | succ n => exact .eat (by decide)

theorem pathRest_settles (enough : Enough k n m) :
    r.Settles (r.Left k) (pathRest n) (pathRest m) (r.Left k) := by
  induction k generalizing n m with
  | zero => exact Settles.idle (pathRest_defers n) (pathRest_defers m)
  | succ k ih =>
    obtain ⟨n, m, rfl, rfl, fewer⟩ := enough.succ
    refine Settles.eat (R := r.Left k) (by decide) ?_ (Settles.done fun _ => id)
      fun i left _ => left.step
    refine (Settles.name _).bind fun part => (ih fewer).bind fun rest => ?_
    exact Settles.done fun i left => left.mono (Nat.le_succ k)

theorem classPath_settles (enough : Enough k n m) (what : Wanted) :
    r.Settles (r.Left k) (classPath n what) (classPath m what) (r.Left k) :=
  (Settles.name _).bind fun _ => (pathRest_settles enough).bind fun _ => Settles.done fun _ => id

/-- At the end an entry finds the token before it instead of a key. -/
theorem entry_settles (nested : r.Settles (r.Left k) expression expression' (r.Left k))
    (seen : List (String × Expr)) :
    r.Settles (r.Left k) (entry expression seen) (entry expression' seen) (r.Left k) := by
  refine Settles.key fun t => ?_
  refine Settles.ite (fun _ => Settles.fail) fun _ => Settles.ite (fun _ => Settles.fail) fun _ => ?_
  exact (Settles.delimiter _ _).bind fun _ => nested.bind fun e => Settles.done fun _ => id

theorem primaryFrom_settles (nested : r.Settles (r.Left k) expression expression' (r.Left k))
    (enough : Enough k n m) (t : Token) :
    r.Settles (r.Left k) (primaryFrom n expression t) (primaryFrom m expression' t) (r.Left k) := by
  have give {e : Expr} : r.Settles (r.Left k) (pure e) (pure e) (r.Left k) := Settles.done fun _ => id
  have answer (p : Span → Expr) : r.Settles (r.Left k) (since t.span >>= fun s => pure (p s))
      (since t.span >>= fun s => pure (p s)) (r.Left k) :=
    Settles.since (fun _ => And.left) fun s => give
  obtain ⟨kind, text, span⟩ := t
  unfold primaryFrom
  dsimp only
  split
  · cases numberLiteral text with
    | none => exact Settles.fail
    | some v => exact give
  · exact give
  · exact give
  · exact give
  · exact give
  · refine (classPath_settles enough _).bind fun cls => (Settles.delimiter _ _).bind fun _ => ?_
    exact (arguments_settles nested enough).bind fun args => answer _
  · refine Settles.option (by decide) fun called => Settles.ite (fun _ => ?_) fun _ => give
    exact (arguments_settles nested enough).bind fun args => answer _
  · refine Settles.sees (Settles.peek fun t => Settles.fail) ?_
    exact nested.bind fun e => (Settles.delimiter _ _).bind fun _ => answer _
  · refine (Settles.listedUntil (fun _ => nested) enough).bind fun items => ?_
    exact (Settles.delimiter _ _).bind fun _ => answer _
  · refine (Settles.listedUntil (entry_settles nested) enough).bind fun entries => ?_
    exact (Settles.delimiter _ _).bind fun _ => answer _
  · exact Settles.fail

/-- An expression takes a token at least. -/
theorem primary_settles
    (nested : ∀ j < k, r.Settles (r.Left j) expression expression' (r.Left j))
    (enough : Enough k n m) {P : Nat → Prop} (short : ∀ i, P i → r.first ≤ i + k) :
    r.Settles P (primary n expression) (primary m expression') (r.Left (k - 1)) := by
  refine Settles.unlessEnded ?_
  cases k with
  | zero => exact fun i _ here => absurd here.2 (Nat.not_lt.2 (short i here.1))
  | succ k =>
    refine Settles.advance (R := r.Left k) (fun t => ?_) fun i here => ?_
    · exact primaryFrom_settles (nested k (Nat.lt_succ_self k)) (enough.mono (Nat.le_succ k)) t
    · exact ⟨Nat.succ_pos i, by have := short i here; omega⟩

theorem chain_settles
    (nested : ∀ j < k, r.Settles (r.Left j) expression expression' (r.Left j))
    (enough : Enough k n m) {P : Nat → Prop} (short : ∀ i, P i → r.first ≤ i + k) :
    r.Settles P (chain n expression) (chain m expression') (r.Left (k - 1)) := by
  have enough' := enough.mono (Nat.sub_le k 1)
  refine (primary_settles nested enough short).bind fun e => postfixes_settles ?_ enough' enough' e
  exact fun j less => nested j (Nat.lt_of_lt_of_le less (Nat.sub_le k 1))

theorem levels_settles
    (nested : ∀ j < k, r.Settles (r.Left j) expression expression' (r.Left j))
    (enough : Enough k n m) :
    r.Settles (r.Left k) (levels n expression) (levels m expression') (r.Left k) := by
  have atom := (chain_settles nested enough (P := r.Left k) fun _ => And.right).weaken (fun _ => id)
    fun i left => left.mono (Nat.sub_le k 1)
  have powers := power_settles (negation_settles atom enough) enough
  have products := level_settles powers enough [.mul, .div, .rem, .floorDiv]
  have sums := level_settles products enough [.add, .sub]
  have orders := level_settles sums enough [.gt, .lt, .ge, .le]
  have equalities := level_settles orders enough [.eq, .ne]
  have memberships := level_settles equalities enough [.mem]
  exact logicLevel_settles (logicLevel_settles memberships enough .and) enough .or

end Nested

theorem expression_settles (enough : Enough (k + 1) n m) :
    r.Settles (r.Left k) (expression n) (expression m) (r.Left k) := by
  induction n generalizing k m with
  | zero => exact absurd enough.one (Nat.not_succ_le_zero k)
  | succ n ih =>
    obtain ⟨n', m, same, rfl, fewer⟩ := enough.succ
    refine levels_settles (fun j less => ?_) (enough.mono (Nat.le_succ k))
    exact ih ((Nat.succ.inj same ▸ fewer).mono less)

end Script.Parser
