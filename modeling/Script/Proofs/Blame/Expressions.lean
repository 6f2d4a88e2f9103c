import Script.Proofs.Blame.Rules

/-! What the errors of the expression parsers blame. -/

namespace Script.Parser

open Row

variable {r : Row} {k n : Nat}

/-! Where no expression begins. -/

theorem primaryFrom_stray (bound : Nat) (expression : Parser Expr) {t : Token}
    (stray : ¬ t.Begins) :
    primaryFrom bound expression t = fail (.noExpression (some t.text)) t.span := by
  obtain ⟨kind, text, span⟩ := t
  unfold primaryFrom
  dsimp only
  split <;> simp_all [Token.Begins, Token.Is]

theorem advance_goes {i : Nat} {t : Token} (here : r.tokens[i]? = some t) (proper : t.kind ≠ .eof) :
    r.Goes advance i (.ok t) (i + 1) :=
  .bind ⟨_, .takes here proper⟩ ⟨_, .last (Nat.succ_pos i) here⟩

theorem primary_offends (bound : Nat) (expression : Parser Expr) {i : Nat} (inside : i ≤ r.first)
    (offends : r.Offends i) : ∃ found span, primary bound expression (r.stream i) =
      .error ⟨.grammar (.noExpression found), span⟩ (r.stream i).advance := by
  obtain ⟨t, here⟩ := r.exists_token inside
  have asked := (Walk.atEnd here).runs inside
  by_cases ended : t.kind = .eof
  · obtain rfl := (ended_iff inside here).1 ended
    refine ⟨none, t.span, ?_⟩
    rw [decide_eq_true ended] at asked
    rw [stream_stays]
    exact (bind_of_ok asked).trans (bind_of_ok ((Walk.peek here).runs inside))
  · refine ⟨some t.text, t.span, ?_⟩
    rw [decide_eq_false ended] at asked
    obtain ⟨_, taken⟩ := advance_goes here ended
    refine (bind_of_ok asked).trans ((bind_of_ok (taken.runs inside)).trans ?_)
    rw [primaryFrom_stray bound expression (offends t here),
      stream_advance (lt_first inside here ended)]
    rfl

theorem primary_needs (bound : Nat) (expression : Parser Expr) :
    Needs (primary bound expression) := by
  intro r i inside offends
  obtain ⟨found, span, run⟩ := primary_offends bound expression inside offends
  exact ⟨_, ⟨_, rfl, rfl⟩, run⟩

theorem chain_needs (bound : Nat) (expression : Parser Expr) : Needs (chain bound expression) :=
  (primary_needs bound expression).bind _

section Operators

variable {operand : Parser Expr}

theorem negation_needs (needs : Needs operand) (n : Nat) : Needs (negation operand n) := by
  cases n with
  | zero => exact needs
  | succ n => exact needs.eat

theorem power_needs (needs : Needs operand) (n : Nat) : Needs (power operand n) := by
  cases n with
  | zero => exact needs
  | succ n => exact needs.bind _

theorem level_needs (needs : Needs operand) (bound : Nat) (ops : List BinOp) :
    Needs (level bound ops operand) :=
  needs.bind _

end Operators

theorem Operand.needs {op : String} {operand : Parser Expr} (reads : Operand op operand) :
    Needs operand := by
  have signed (n : Nat) : Needs (signed n) := negation_needs (chain_needs _ _) _
  have powers (n : Nat) : Needs (powers n) := power_needs (signed n) _
  have products (n : Nat) : Needs (products n) := level_needs (powers n) _ _
  have sums (n : Nat) : Needs (sums n) := level_needs (products n) _ _
  have orders (n : Nat) : Needs (orders n) := level_needs (sums n) _ _
  cases reads with
  | negation n k => exact negation_needs (chain_needs _ _) k
  | pow n k => exact power_needs (signed n) k
  | mul n => exact powers n
  | add n => exact products n
  | lt n => exact sums n
  | eq n => exact orders n
  | mem n => exact level_needs (orders n) _ _

/-! What is blamed. -/

theorem operandAfter_blames {op : String} {operand : Parser Expr} (reads : Operand op operand)
    (operands : r.Keeps k operand) :
    r.Blames 1 (r.Behind op k) (operandAfter op operand) fun _ => r.Left k :=
  Blames.operandAfter reads reads.needs operands

section Operators

variable {operand : Parser Expr}

theorem joinLeft_keeps {ops : List BinOp} (reads : ∀ op ∈ ops, Operand op.symbol operand)
    (operands : r.Keeps k operand) (n : Nat) (left : Expr) :
    r.Keeps k (joinLeft ops operand n left) := by
  have found : r.Blames 0 (r.Left k) (operatorOf ops) fun found i => r.Left k i ∧
      ∀ op, found = some op → op ∈ ops ∧ ∃ t, r.tokens[i]? = some t ∧ t.Operates op.symbol := by
    refine Blames.peek.bind fun t => Blames.done fun i here => ⟨here.1, fun op same => ?_⟩
    refine ⟨List.mem_of_find?_eq_some same, ?_⟩
    have spelt : t.kind = (if op = .mem then .keyword else .operator) ∧ t.text = op.symbol := by
      simpa using List.find?_some same
    refine ⟨t, here.2, ?_, spelt.2⟩
    by_cases word : op = .mem
    · subst word
      exact .inr spelt
    · exact .inl (spelt.1.trans (if_neg word))
  induction n generalizing left with
  | zero => exact Keeps.done left
  | succ n ih =>
    refine found.bind fun op => ?_
    cases op with
    | none => exact (Keeps.done left).left (fun _ => And.left) fun _ => id
    | some op =>
      intro i inside here
      obtain ⟨listed, operator⟩ := here.2 op rfl
      have taken : r.Blames 1 (r.Behind op.symbol k) (operandAfter op.symbol operand >>= _) _ :=
        (operandAfter_blames (reads op listed) operands).bind fun right => ih (joined op left right)
      exact taken.stepOperator i inside ⟨here.1, operator⟩

theorem level_keeps {ops : List BinOp} (reads : ∀ op ∈ ops, Operand op.symbol operand)
    (operands : r.Keeps k operand) (bound : Nat) : r.Keeps k (level bound ops operand) :=
  operands.bind fun left => joinLeft_keeps reads operands bound left

theorem joinLogic_keeps (operands : r.Keeps k operand) (op : Logic) (n : Nat) (left : Expr) :
    r.Keeps k (joinLogic op operand n left) := by
  induction n generalizing left with
  | zero => exact Keeps.done left
  | succ n ih =>
    refine Keeps.eat.bind fun found => Keeps.ite (fun _ => ?_) fun _ => Keeps.done left
    exact operands.bind fun right => ih _

theorem logicLevel_keeps (operands : r.Keeps k operand) (bound : Nat) (op : Logic) :
    r.Keeps k (logicLevel bound op operand) :=
  operands.bind fun left => joinLogic_keeps operands op bound left

theorem power_keeps (reads : ∀ n, Operand BinOp.pow.symbol (power operand n))
    (operands : r.Keeps k operand) (n : Nat) : r.Keeps k (power operand n) := by
  induction n with
  | zero => exact operands
  | succ n ih =>
    refine operands.bind fun left => Blames.eatOperator ?_ ?_
    · refine Blames.weaken (P := r.Behind BinOp.pow.symbol k) ?_
        (fun i here => ⟨here.1.mono (Nat.sub_le k 1), here.2⟩) fun _ _ => id
      exact (operandAfter_blames (reads n) ih).bind fun right => Keeps.done _
    · exact (Keeps.done left).left (fun _ => And.left) fun _ => id

/-- An operand is read only where no minus sign comes. -/
theorem negation_keeps (reads : ∀ n, Operand "-" (negation operand n)) {b : Nat}
    (operands : r.Blames 0
      (fun i => r.Left b i ∧ ∀ t, r.tokens[i]? = some t → ¬ t.Is .operator "-") operand
      fun _ => r.Left b) (within : k ≤ b) (enough : k ≤ n) : r.Keeps k (negation operand n) := by
  have operands {k : Nat} (within : k ≤ b) : r.Blames 0
      (fun i => r.Left k i ∧ ∀ t, r.tokens[i]? = some t → ¬ t.Is .operator "-") operand
      fun _ => r.Left k :=
    operands.within fun i here => ⟨⟨here.1.mono within, here.2⟩, here.1⟩
  induction n generalizing k with
  | zero =>
    obtain rfl := Nat.le_zero.1 enough
    refine fun i inside left => operands within i inside ⟨left, fun t here minus => ?_⟩
    obtain rfl : i = r.first := Nat.le_antisymm inside left.2
    exact r.first_offends t here (.inr (.inr (.inr (.inr (.inl minus)))))
  | succ n ih =>
    refine Blames.eatOperator ?_ (operands within)
    refine Blames.lastOperator fun start => ?_
    have later := ih (k := k - 1) (by omega) (by omega)
    refine (operandAfter_blames (reads n) later).bind fun e => ?_
    exact (Keeps.done _).left (fun i left => left.mono (Nat.sub_le k 1)) fun _ => id

end Operators

section Nested

variable {expression : Parser Expr}

theorem arguments_keeps (nested : r.Keeps k expression) (bound : Nat) :
    r.Keeps k (arguments bound expression) := by
  refine (Keeps.listedUntil (fun _ => ?_) _ _).bind fun args => ?_
  · refine Keeps.atEnd.bind fun ended => Keeps.ite (fun _ => ?_) fun _ => nested
    exact Keeps.peek.bind fun t => Keeps.fail _ rfl
  · exact (Keeps.delimiter _ _).bind fun _ => Keeps.done args

theorem postfixes_keeps (nested : r.Keeps k expression) (bound n : Nat) (e : Expr) :
    r.Keeps k (postfixes bound expression n e) := by
  induction n generalizing e with
  | zero => exact Keeps.done e
  | succ n ih =>
    have go (p : Span → Expr) (start : Span) :
        r.Keeps k (since start >>= fun s => postfixes bound expression n (p s)) :=
      (Keeps.since start).bind fun s => ih (p s)
    refine Keeps.eat.bind fun point => Keeps.ite (fun _ => ?_) fun _ => ?_
    · refine (Keeps.name _).bind fun member => Keeps.eat.bind fun called => ?_
      refine Keeps.ite (fun _ => ?_) fun _ => go _ _
      exact (arguments_keeps nested bound).bind fun args => go _ _
    · refine Keeps.eat.bind fun index => Keeps.ite (fun _ => ?_) fun _ => Keeps.done e
      exact nested.bind fun key => (Keeps.delimiter _ _).bind fun _ => go _ _

theorem pathRest_keeps (n : Nat) : r.Keeps k (pathRest n) := by
  induction n with
  | zero => exact Keeps.done []
  | succ n ih =>
    refine Keeps.eat.bind fun point => Keeps.ite (fun _ => ?_) fun _ => Keeps.done []
    exact (Keeps.name _).bind fun part => ih.bind fun rest => Keeps.done _

theorem classPath_keeps (bound : Nat) (what : Wanted) : r.Keeps k (classPath bound what) :=
  (Keeps.name what).bind fun _ => (pathRest_keeps bound).bind fun _ => Keeps.done _

theorem entry_keeps (nested : r.Keeps k expression) (seen : List (String × Expr)) :
    r.Keeps k (entry expression seen) := by
  refine Keeps.advance.bind fun t => Keeps.ite (fun _ => Keeps.fail _ rfl) fun _ => ?_
  refine Keeps.ite (fun _ => Keeps.fail _ rfl) fun _ => ?_
  exact (Keeps.delimiter _ _).bind fun _ => nested.bind fun e => Keeps.done _

/-- A token that begins an expression, other than a minus sign, leads to one. -/
theorem primaryFrom_keeps (nested : r.Keeps k expression) (bound : Nat) {t : Token}
    (begins : t.Begins) (plain : ¬ t.Is .operator "-") :
    r.Keeps k (primaryFrom bound expression t) := by
  have answer (p : Span → Expr) : r.Keeps k (since t.span >>= fun s => pure (p s)) :=
    (Keeps.since t.span).bind fun s => Keeps.done _
  obtain ⟨kind, text, span⟩ := t
  unfold primaryFrom
  dsimp only
  split
  · cases numberLiteral text with
    | none => exact Keeps.fail _ rfl
    | some v => exact Keeps.done _
  · exact Keeps.done _
  · exact Keeps.done _
  · exact Keeps.done _
  · exact Keeps.done _
  · refine (classPath_keeps bound _).bind fun cls => (Keeps.delimiter _ _).bind fun _ => ?_
    exact (arguments_keeps nested bound).bind fun args => answer _
  · refine Keeps.eat.bind fun called => Keeps.ite (fun _ => ?_) fun _ => Keeps.done _
    exact (arguments_keeps nested bound).bind fun args => answer _
  · refine Keeps.sees.bind fun empty => Keeps.ite (fun _ => ?_) fun _ => ?_
    · exact Keeps.peek.bind fun t => Keeps.fail _ rfl
    · exact nested.bind fun e => (Keeps.delimiter _ _).bind fun _ => answer _
  · refine (Keeps.listedUntil (fun _ => nested) _ _).bind fun items => ?_
    exact (Keeps.delimiter _ _).bind fun _ => answer _
  · refine (Keeps.listedUntil (entry_keeps nested) _ _).bind fun entries => ?_
    exact (Keeps.delimiter _ _).bind fun _ => answer _
  · rcases begins with rfl | rfl | rfl | ⟨rfl, word⟩ | minus | ⟨rfl, bracket⟩
    · simp_all
    · simp_all
    · simp_all
    · simp_all
    · exact absurd minus plain
    · simp_all

section Primary

variable {P : Nat → Prop} (nested : r.Keeps k expression) (bound : Nat)
  (short : ∀ i, P i → r.first ≤ i + (k + 1))
  (plain : ∀ i, P i → ∀ t, r.tokens[i]? = some t → ¬ t.Is .operator "-")

include nested short plain

theorem primary_blames : r.Blames 0 P (primary bound expression) fun _ => r.Left k := by
  intro i inside here
  obtain ⟨t, token⟩ := r.exists_token inside
  by_cases begins : t.Begins
  · have less := lt_first inside token begins.proper
    have asked : r.Goes atEnd i (.ok false) i :=
      ⟨_, decide_eq_false begins.proper ▸ Walk.atEnd token⟩
    refine .onward asked inside (.onward (advance_goes token begins.proper) inside ?_)
    refine primaryFrom_keeps nested bound begins (plain i here t token) (i + 1) less ?_
    have := short i here
    exact ⟨Nat.succ_pos i, by omega⟩
  · have offends : r.Offends i := fun u here => Option.some.inj (token.symm.trans here) ▸ begins
    obtain ⟨found, span, run⟩ := primary_offends bound expression inside offends
    exact .inr ⟨_, _, run, fun _ => ⟨i, Nat.le_refl i, inside, offends, rfl, .nothing found span⟩⟩

theorem chain_blames : r.Blames 0 P (chain bound expression) fun _ => r.Left k :=
  (primary_blames nested bound short plain).bind fun e => postfixes_keeps nested bound bound e

end Primary

end Nested

/-! The levels of operators, the tightest first. -/

theorem signed_keeps (nested : r.Keeps n (expression n)) : r.Keeps (n + 1) (signed n) := by
  have atoms := (chain_blames nested (n + 1) (P := fun i => r.Left (n + 1) i ∧
      ∀ t, r.tokens[i]? = some t → ¬ t.Is .operator "-") (fun _ here => here.1.2)
    fun _ => And.right).within fun _ here => ⟨here, here.1⟩
  exact negation_keeps (Operand.negation n) atoms (Nat.le_refl _) (Nat.le_refl _)

theorem equalities_keeps (nested : r.Keeps n (expression n)) : r.Keeps (n + 1) (equalities n) := by
  have powers := power_keeps (Operand.pow n) (signed_keeps nested) (n + 1)
  have products := level_keeps (Operand.mul n) powers (n + 1)
  have sums := level_keeps (Operand.add n) products (n + 1)
  have orders := level_keeps (Operand.lt n) sums (n + 1)
  exact level_keeps (Operand.eq n) orders (n + 1)

theorem expression_keeps (n : Nat) : r.Keeps n (expression n) := by
  induction n with
  | zero =>
    -- no bound is left only where no token is, and there an expression is missing
    rintro i inside left
    obtain rfl : i = r.first := Nat.le_antisymm inside left.2
    have run : expression 0 (r.stream r.first) =
        .error ⟨.grammar (.noExpression none), r.stop.span⟩ (r.stream r.first) :=
      bind_of_ok ((Walk.peek r.token_first).runs inside)
    exact .inr ⟨_, _, run, fun _ => ⟨r.first, Nat.le_refl _, inside, r.first_offends,
      stream_stays.symm, .nothing none r.stop.span⟩⟩
  | succ n ih =>
    have memberships := level_keeps (Operand.mem n) (equalities_keeps ih) (n + 1)
    rw [expression_succ]
    exact logicLevel_keeps (logicLevel_keeps memberships (n + 1) .and) (n + 1) .or

end Script.Parser
