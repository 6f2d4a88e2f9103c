import Script.Proofs.Layout.Moving

/-! Every parser moves with its row, so a row read without its places gives the tree without its
places. -/

namespace Script.Parser

variable {f : Span → Span}

theorem operatorOf_moves (ops : List BinOp) : Moves f id (operatorOf ops) (operatorOf ops) := by
  apply Moves.look
  intro s
  simp only [Stream.next_relocate]
  rfl

theorem relocate_joined (keeps : Keeps f) (op : BinOp) (left right : Expr) :
    joined op (left.relocate f) (right.relocate f) = (joined op left right).relocate f := by
  simp [joined, Expr.relocate, keeps _ _]

theorem joinLeft_moves (keeps : Keeps f) {operand operand' : Parser Expr}
    (operands : Moves f (Expr.relocate f) operand operand') (ops : List BinOp) (n : Nat)
    (left : Expr) :
    Moves f (Expr.relocate f) (joinLeft ops operand n (left.relocate f))
      (joinLeft ops operand' n left) := by
  induction n generalizing left with
  | zero => exact Moves.pure rfl
  | succ n ih =>
    apply (operatorOf_moves ops).bind
    intro found
    cases found with
    | none => exact Moves.pure rfl
    | some op =>
      refine step_moves.bind fun _ => (operandAfter_moves op.symbol operands).bind fun right => ?_
      rw [relocate_joined keeps]
      exact ih _

theorem level_moves (keeps : Keeps f) {operand operand' : Parser Expr} (bound : Nat)
    (ops : List BinOp) (operands : Moves f (Expr.relocate f) operand operand') :
    Moves f (Expr.relocate f) (level bound ops operand) (level bound ops operand') :=
  operands.bind fun left => joinLeft_moves keeps operands ops bound left

theorem joinLogic_moves (keeps : Keeps f) {operand operand' : Parser Expr}
    (operands : Moves f (Expr.relocate f) operand operand') (op : Logic) (n : Nat) (left : Expr) :
    Moves f (Expr.relocate f) (joinLogic op operand n (left.relocate f))
      (joinLogic op operand' n left) := by
  induction n generalizing left with
  | zero => exact Moves.pure rfl
  | succ n ih =>
    apply (eat_moves _ _).bind
    intro found
    cases found with
    | false => exact Moves.pure rfl
    | true =>
      apply operands.bind
      intro right
      have moved := ih (.logic op left right (left.span.through right.span))
      simp only [Expr.relocate, keeps _ _] at moved
      simpa using moved

theorem logicLevel_moves (keeps : Keeps f) {operand operand' : Parser Expr} (bound : Nat)
    (op : Logic) (operands : Moves f (Expr.relocate f) operand operand') :
    Moves f (Expr.relocate f) (logicLevel bound op operand) (logicLevel bound op operand') :=
  operands.bind fun left => joinLogic_moves keeps operands op bound left

theorem power_moves (keeps : Keeps f) {base base' : Parser Expr}
    (bases : Moves f (Expr.relocate f) base base') (n : Nat) :
    Moves f (Expr.relocate f) (power base n) (power base' n) := by
  induction n with
  | zero => exact bases
  | succ n ih =>
    refine bases.bind fun left => (eat_moves _ _).bind fun found => ?_
    cases found with
    | false => exact Moves.pure rfl
    | true =>
      apply (operandAfter_moves _ ih).bind
      intro right
      exact Moves.pure (relocate_joined keeps .pow left right)

theorem negation_moves (keeps : Keeps f) {operand operand' : Parser Expr}
    (operands : Moves f (Expr.relocate f) operand operand') (n : Nat) :
    Moves f (Expr.relocate f) (negation operand n) (negation operand' n) := by
  induction n with
  | zero => exact operands
  | succ n ih =>
    apply (eat_moves _ _).bind
    intro found
    cases found with
    | false => exact operands
    | true =>
      refine last_moves.bind fun t => (operandAfter_moves _ ih).bind fun e => Moves.pure ?_
      simp [Expr.relocate, keeps _ _, Token.relocate]

theorem arguments_moves {expression expression' : Parser Expr} (bound : Nat)
    (nested : Moves f (Expr.relocate f) expression expression') :
    Moves f (List.map (Expr.relocate f)) (arguments bound expression)
      (arguments bound expression') := by
  have each (seen : List Expr) : Moves f (Expr.relocate f)
      (do if (← atEnd) then fail .openArguments (← peek).span else expression)
      (do if (← atEnd) then fail .openArguments (← peek).span else expression') := by
    refine atEnd_moves.bind fun ended => Moves.ite ?_ nested
    exact peek_moves.bind fun t => Moves.fail _ rfl
  apply (listedUntil_moves ")" bound each).bind
  intro args
  exact (delimiter_moves _ _).bind fun _ => Moves.pure rfl

theorem postfixes_moves (keeps : Keeps f) {expression expression' : Parser Expr} (bound : Nat)
    (nested : Moves f (Expr.relocate f) expression expression') (n : Nat) (e : Expr) :
    Moves f (Expr.relocate f) (postfixes bound expression n (e.relocate f))
      (postfixes bound expression' n e) := by
  induction n generalizing e with
  | zero => exact Moves.pure rfl
  | succ n ih =>
    apply (eat_moves _ _).bind
    intro point
    cases point with
    | true =>
      refine (name_moves _).bind fun x => (eat_moves _ _).bind fun opened => ?_
      cases opened with
      | true =>
        apply (arguments_moves bound nested).bind
        intro args
        rw [Expr.span_relocate]
        apply (since_moves keeps _).bind
        intro span
        have moved := ih (.method e x args span)
        simpa [Expr.relocate] using moved
      | false =>
        rw [if_neg (by decide), if_neg (by decide), Expr.span_relocate]
        exact (since_moves keeps _).bind fun span => ih (.property e x span)
    | false =>
      apply (eat_moves _ _).bind
      intro opened
      cases opened with
      | true =>
        refine nested.bind fun key => (delimiter_moves _ _).bind fun _ => ?_
        rw [Expr.span_relocate]
        exact (since_moves keeps _).bind fun span => ih (.index e key span)
      | false => exact Moves.pure rfl

theorem pathRest_moves (n : Nat) : Moves f id (pathRest n) (pathRest n) := by
  induction n with
  | zero => exact Moves.pure rfl
  | succ n ih =>
    apply (eat_moves _ _).bind
    intro point
    cases point with
    | true => exact (name_moves _).bind fun x => ih.bind fun xs => Moves.pure rfl
    | false => exact Moves.pure rfl

theorem classPath_moves (bound : Nat) (what : Wanted) :
    Moves f id (classPath bound what) (classPath bound what) :=
  (name_moves what).bind fun _ => (pathRest_moves bound).bind fun _ => Moves.pure rfl

/-- An entry of an object with its value moved. -/
def relocateEntry (f : Span → Span) (e : String × Expr) : String × Expr :=
  (e.1, e.2.relocate f)

theorem entry_moves {expression expression' : Parser Expr}
    (nested : Moves f (Expr.relocate f) expression expression') (seen : List (String × Expr)) :
    Moves f (relocateEntry f) (entry expression (seen.map (relocateEntry f)))
      (entry expression' seen) := by
  refine advance_moves.bind fun t => Moves.ite (Moves.fail _ rfl) ?_
  have keys : ((seen.map (relocateEntry f)).any fun old => sameKey old.1 t.text) =
      seen.any fun old => sameKey old.1 t.text := by
    rw [List.any_map]
    rfl
  change Moves f _ (if ((seen.map (relocateEntry f)).any fun old => sameKey old.1 t.text) = true
    then _ else _) _
  rw [keys]
  refine Moves.ite (Moves.fail _ rfl) ?_
  exact (delimiter_moves _ _).bind fun _ => nested.bind fun e => Moves.pure rfl

theorem primaryFrom_moves (keeps : Keeps f) {expression expression' : Parser Expr} (bound : Nat)
    (nested : Moves f (Expr.relocate f) expression expression') (t : Token) :
    Moves f (Expr.relocate f) (primaryFrom bound expression (t.relocate f))
      (primaryFrom bound expression' t) := by
  obtain ⟨kind, text, span⟩ := t
  simp only [primaryFrom, Token.relocate]
  split
  · cases numberLiteral _ with
    | none => exact Moves.fail _ rfl
    | some v => exact Moves.pure rfl
  · exact Moves.pure rfl
  · exact Moves.pure rfl
  · exact Moves.pure rfl
  · exact Moves.pure rfl
  · refine (classPath_moves _ _).bind fun cls => (delimiter_moves _ _).bind fun _ => ?_
    apply (arguments_moves bound nested).bind
    intro args
    refine (since_moves keeps _).bind fun span => Moves.pure ?_
    simp [Expr.relocate]
  · apply (eat_moves _ _).bind
    intro opened
    cases opened with
    | true =>
      apply (arguments_moves bound nested).bind
      intro args
      refine (since_moves keeps _).bind fun span => Moves.pure ?_
      simp [Expr.relocate]
    | false => exact Moves.pure rfl
  · apply (sees_moves _ _).bind
    intro closed
    cases closed with
    | true => exact peek_moves.bind fun t => Moves.fail _ (keeps _ _).symm
    | false =>
      refine nested.bind fun e => (delimiter_moves _ _).bind fun _ => ?_
      exact (since_moves keeps _).bind fun span => Moves.pure rfl
  · refine (listedUntil_moves "]" bound fun _ => nested).bind fun items => ?_
    refine (delimiter_moves _ _).bind fun _ => (since_moves keeps _).bind fun span => Moves.pure ?_
    simp [Expr.relocate]
  · apply (listedUntil_moves "\x7d" bound (entry_moves nested)).bind
    intro entries
    refine (delimiter_moves _ _).bind fun _ => (since_moves keeps _).bind fun span => Moves.pure ?_
    simp [Expr.relocate, relocateEntry]
  · exact Moves.fail _ rfl

theorem primary_moves (keeps : Keeps f) {expression expression' : Parser Expr} (bound : Nat)
    (nested : Moves f (Expr.relocate f) expression expression') :
    Moves f (Expr.relocate f) (primary bound expression) (primary bound expression') := by
  refine atEnd_moves.bind fun ended => Moves.ite ?_ ?_
  · exact peek_moves.bind fun t => Moves.fail _ rfl
  · exact advance_moves.bind fun t => primaryFrom_moves keeps bound nested t

theorem chain_moves (keeps : Keeps f) {expression expression' : Parser Expr} (bound : Nat)
    (nested : Moves f (Expr.relocate f) expression expression') :
    Moves f (Expr.relocate f) (chain bound expression) (chain bound expression') :=
  (primary_moves keeps bound nested).bind fun e => postfixes_moves keeps bound nested bound e

theorem levels_moves (keeps : Keeps f) {expression expression' : Parser Expr} (bound : Nat)
    (nested : Moves f (Expr.relocate f) expression expression') :
    Moves f (Expr.relocate f) (levels bound expression) (levels bound expression') := by
  apply logicLevel_moves keeps
  apply logicLevel_moves keeps
  apply level_moves keeps
  apply level_moves keeps
  apply level_moves keeps
  apply level_moves keeps
  apply level_moves keeps
  apply power_moves keeps
  apply negation_moves keeps
  exact chain_moves keeps bound nested

theorem expression_moves (keeps : Keeps f) (n : Nat) :
    Moves f (Expr.relocate f) (expression n) (expression n) := by
  induction n with
  | zero => exact peek_moves.bind fun t => Moves.fail _ rfl
  | succ n ih => exact levels_moves keeps (n + 1) ih

/-! Statements. -/

section Statements

variable {statement statement' : Parser Stmt}

theorem block_moves (each : Moves f (Stmt.relocate f) statement statement') (opener : String)
    (closers : List String) (n : Nat) :
    Moves f (List.map (Stmt.relocate f)) (block statement opener closers n)
      (block statement' opener closers n) := by
  induction n with
  | zero => exact peek_moves.bind fun t => Moves.fail _ rfl
  | succ n ih =>
    refine (seesKeyword_moves _).bind fun closed => Moves.ite (Moves.pure rfl) ?_
    refine atEnd_moves.bind fun ended => Moves.ite ?_ ?_
    · exact peek_moves.bind fun t => Moves.fail _ rfl
    · exact each.bind fun s => ih.bind fun b => Moves.pure rfl

theorem closedBlock_moves (each : Moves f (Stmt.relocate f) statement statement') (bound : Nat)
    (opener closer : String) :
    Moves f (List.map (Stmt.relocate f)) (closedBlock bound statement opener closer)
      (closedBlock bound statement' opener closer) :=
  (block_moves each opener [closer] bound).bind fun _ => step_moves.bind fun _ => Moves.pure rfl

theorem condition_moves (keeps : Keeps f) (bound : Nat) (word : String) :
    Moves f (Expr.relocate f) (condition bound word) (condition bound word) := by
  refine (delimiter_moves _ _).bind fun _ => (expression_moves keeps bound).bind fun e => ?_
  exact (delimiter_moves _ _).bind fun _ => Moves.pure rfl

/-- A branch with its condition and its block moved. -/
def relocateBranch (f : Span → Span) (b : Expr × Block) : Expr × Block :=
  (b.1.relocate f, b.2.map (Stmt.relocate f))

theorem guarded_moves (keeps : Keeps f) (each : Moves f (Stmt.relocate f) statement statement')
    (bound : Nat) (word : String) :
    Moves f (relocateBranch f) (guarded bound statement word) (guarded bound statement' word) := by
  apply (condition_moves keeps bound word).bind
  intro e
  exact (block_moves each word _ bound).bind fun b => Moves.pure rfl

theorem otherBranches_moves (keeps : Keeps f)
    (each : Moves f (Stmt.relocate f) statement statement') (bound n : Nat) :
    Moves f (Prod.map (List.map (relocateBranch f)) (Option.map (List.map (Stmt.relocate f))))
      (otherBranches bound statement n) (otherBranches bound statement' n) := by
  induction n with
  | zero => exact Moves.pure rfl
  | succ n ih =>
    refine advance_moves.bind fun t => Moves.ite ?_ (Moves.ite ?_ (Moves.pure rfl))
    · refine (guarded_moves keeps each bound _).bind fun b => ih.bind fun r => Moves.pure rfl
    · exact (closedBlock_moves each bound _ _).bind fun b => Moves.pure rfl

theorem branchStatement_moves (keeps : Keeps f)
    (each : Moves f (Stmt.relocate f) statement statement') (bound : Nat) (start : Span) :
    Moves f (Stmt.relocate f) (branchStatement bound statement (f start))
      (branchStatement bound statement' start) := by
  apply (guarded_moves keeps each bound _).bind
  intro b
  apply (otherBranches_moves keeps each bound bound).bind
  intro r
  refine (since_moves keeps start).bind fun span => Moves.pure ?_
  simp [Stmt.relocate, relocateBranch]

theorem parameters_moves (bound : Nat) : Moves f id (parameters bound) (parameters bound) := by
  have each (seen : List String) : Moves f id
      (do
        let p ← name .parameter
        if (seen.map id).contains p then fail (.duplicateParameter p) (← last).span else return p)
      (do
        let p ← name .parameter
        if seen.contains p then fail (.duplicateParameter p) (← last).span else return p) := by
    rw [List.map_id]
    refine (name_moves _).bind fun p => Moves.ite ?_ (Moves.pure rfl)
    exact last_moves.bind fun t => Moves.fail _ rfl
  apply (delimiter_moves _ _).bind
  intro _
  apply (listedUntil_moves ")" bound each).bind
  intro params
  exact (delimiter_moves _ _).bind fun _ => Moves.pure (List.map_id params)

theorem functionDecl_moves (keeps : Keeps f)
    (each : Moves f (Stmt.relocate f) statement statement') (bound : Nat) (start : Span) :
    Moves f (Decl.relocate f) (functionDecl bound statement (f start))
      (functionDecl bound statement' start) := by
  refine (name_moves _).bind fun x => (parameters_moves bound).bind fun params => ?_
  apply (closedBlock_moves each bound _ _).bind
  intro body
  refine (since_moves keeps start).bind fun span => Moves.pure ?_
  simp [Decl.relocate]

theorem initDecl_moves (keeps : Keeps f)
    (each : Moves f (Stmt.relocate f) statement statement') (bound : Nat) (start : Span) :
    Moves f (Decl.relocate f) (initDecl bound statement (f start))
      (initDecl bound statement' start) := by
  apply (parameters_moves bound).bind
  intro params
  apply (closedBlock_moves each bound _ _).bind
  intro body
  refine (since_moves keeps start).bind fun span => Moves.pure ?_
  simp [Decl.relocate]

theorem giveStatement_moves (keeps : Keeps f) (bound : Nat) (start : Span) :
    Moves f (Stmt.relocate f) (giveStatement bound (f start)) (giveStatement bound start) := by
  refine atEnd_moves.bind fun ended => (seesKeyword_moves _).bind fun closed => ?_
  refine Moves.ite ?_ ?_
  · exact (since_moves keeps start).bind fun span => Moves.pure rfl
  · apply (expression_moves keeps bound).bind
    intro e
    exact (since_moves keeps start).bind fun span => Moves.pure rfl

theorem loopBody_moves (each : Moves f (Stmt.relocate f) statement statement') (bound : Nat)
    (opener closer : String) :
    Moves f (List.map (Stmt.relocate f)) (loopBody bound statement opener closer)
      (loopBody bound statement' opener closer) :=
  (eat_moves _ _).bind fun _ => closedBlock_moves each bound opener closer

theorem loopStatement_moves (keeps : Keeps f)
    (each : Moves f (Stmt.relocate f) statement statement') (bound : Nat) (start : Span) :
    Moves f (Stmt.relocate f) (loopStatement bound statement (f start))
      (loopStatement bound statement' start) := by
  refine (condition_moves keeps bound _).bind fun e => (loopBody_moves each bound _ _).bind fun b => ?_
  refine (since_moves keeps start).bind fun span => Moves.pure ?_
  simp [Stmt.relocate]

theorem header_moves (keeps : Keeps f) (bound : Nat) :
    Moves f (Header.relocate f) (header bound) (header bound) := by
  refine (eat_moves _ _).bind fun opened => Moves.ite ?_ ?_
  · refine (name_moves _).bind fun k => (delimiter_moves _ _).bind fun _ => ?_
    refine (name_moves _).bind fun v => (delimiter_moves _ _).bind fun _ => ?_
    refine (keyword_moves _ _).bind fun _ => (expression_moves keeps bound).bind fun e => ?_
    exact Moves.pure rfl
  · refine (name_moves _).bind fun x => (eat_moves _ _).bind fun within => Moves.ite ?_ ?_
    · exact (expression_moves keeps bound).bind fun e => Moves.pure rfl
    · refine (eat_moves _ _).bind fun equals => Moves.ite ?_ ?_
      · refine (expression_moves keeps bound).bind fun a => (keyword_moves _ _).bind fun _ => ?_
        exact (expression_moves keeps bound).bind fun b => Moves.pure rfl
      · refine (eat_moves _ _).bind fun comma => Moves.ite ?_ ?_
        · refine (name_moves _).bind fun v => (keyword_moves _ _).bind fun _ => ?_
          exact (expression_moves keeps bound).bind fun e => Moves.pure rfl
        · exact peek_moves.bind fun t => Moves.fail _ rfl

theorem iterateStatement_moves (keeps : Keeps f)
    (each : Moves f (Stmt.relocate f) statement statement') (bound : Nat) (start : Span) :
    Moves f (Stmt.relocate f) (iterateStatement bound statement (f start))
      (iterateStatement bound statement' start) := by
  refine (delimiter_moves _ _).bind fun _ => (header_moves keeps bound).bind fun h => ?_
  refine (delimiter_moves _ _).bind fun _ => (loopBody_moves each bound _ _).bind fun b => ?_
  refine (since_moves keeps start).bind fun span => Moves.pure ?_
  simp [Stmt.relocate]

theorem members_moves (each : Moves f (Stmt.relocate f) statement statement') (cls : String)
    (n : Nat) (built : Bool) :
    Moves f (List.map (Member.relocate f)) (members statement cls n built)
      (members statement' cls n built) := by
  induction n generalizing built with
  | zero => exact peek_moves.bind fun t => Moves.fail _ rfl
  | succ n ih =>
    refine (eat_moves _ _).bind fun ended => Moves.ite (Moves.pure rfl) ?_
    refine atEnd_moves.bind fun ended => Moves.ite ?_ ?_
    · exact peek_moves.bind fun t => Moves.fail _ rfl
    · refine peek_moves.bind fun t => each.bind fun s => ?_
      rw [memberOf_relocate]
      cases memberOf s with
      | none => exact Moves.fail _ rfl
      | some m =>
        cases m with
        | constructor d =>
          exact Moves.ite (Moves.fail _ rfl) ((ih true).bind fun ms => Moves.pure rfl)
        | property x e s => exact (ih built).bind fun ms => Moves.pure rfl
        | method d => exact (ih built).bind fun ms => Moves.pure rfl

theorem classStatement_moves (keeps : Keeps f)
    (each : Moves f (Stmt.relocate f) statement statement') (bound : Nat) (start : Span) :
    Moves f (Stmt.relocate f) (classStatement bound statement (f start))
      (classStatement bound statement' start) := by
  refine (name_moves _).bind fun x => (eat_moves _ _).bind fun derived => ?_
  have rest (parent : Option ClassPath) : Moves f (Stmt.relocate f)
      (do
        let ms ← members statement x bound false
        return .cls x parent ms (← since (f start)))
      (do
        let ms ← members statement' x bound false
        return .cls x parent ms (← since start)) := by
    apply (members_moves each x bound false).bind
    intro ms
    refine (since_moves keeps start).bind fun span => Moves.pure ?_
    simp [Stmt.relocate]
  have parents : Moves f id (some <$> classPath bound .parentName)
      (some <$> classPath bound .parentName) :=
    (classPath_moves bound _).bind fun p => Moves.pure rfl
  cases derived with
  | true => exact parents.bind rest
  | false => exact rest none

theorem names_moves (bound : Nat) (opening closing : String) :
    Moves f id (names bound opening closing) (names bound opening closing) := by
  have each (seen : List String) : Moves f id (name .listedName) (name .listedName) := name_moves _
  apply (delimiter_moves _ _).bind
  intro _
  apply (listedUntil_moves closing bound each).bind
  intro xs
  exact (delimiter_moves _ _).bind fun _ => Moves.pure (List.map_id xs)

theorem selection_moves (bound : Nat) : Moves f id (selection bound) (selection bound) := by
  refine (eat_moves _ _).bind fun all => Moves.ite (Moves.pure rfl) ?_
  exact (names_moves bound _ _).bind fun xs => Moves.pure rfl

theorem importStatement_moves (keeps : Keeps f) (bound : Nat) (start : Span) :
    Moves f (Stmt.relocate f) (importStatement bound (f start)) (importStatement bound start) := by
  refine (expectKind_moves _ _).bind fun file => (keyword_moves _ _).bind fun _ => ?_
  apply (selection_moves bound).bind
  intro items
  exact (since_moves keeps start).bind fun span => Moves.pure rfl

theorem loadStatement_moves (keeps : Keeps f) (start : Span) :
    Moves f (Stmt.relocate f) (loadStatement (f start)) (loadStatement start) := by
  refine (expectKind_moves _ _).bind fun file => (keyword_moves _ _).bind fun _ => ?_
  apply (name_moves _).bind
  intro x
  exact (since_moves keeps start).bind fun span => Moves.pure rfl

theorem nameStatement_moves (keeps : Keeps f) (bound : Nat) :
    Moves f (Stmt.relocate f) (nameStatement bound) (nameStatement bound) := by
  apply peek_moves.bind
  intro start
  apply (chain_moves keeps bound (expression_moves keeps bound)).bind
  intro e
  apply (eat_moves _ _).bind
  intro equals
  rw [targetOf_relocate, isCall_relocate]
  refine Moves.ite ?_ (Moves.ite ?_ ?_)
  · cases targetOf e with
    | none => exact Moves.fail _ (Expr.span_relocate f e)
    | some target =>
      apply (expression_moves keeps bound).bind
      intro value
      exact (since_moves keeps _).bind fun span => Moves.pure rfl
  · exact (since_moves keeps _).bind fun span => Moves.pure rfl
  · exact peek_moves.bind fun t => Moves.fail _ rfl

theorem keywordStatement_moves (keeps : Keeps f)
    (each : Moves f (Stmt.relocate f) statement statement') (bound : Nat) (t : Token) :
    Moves f (Stmt.relocate f) (keywordStatement bound statement (t.relocate f))
      (keywordStatement bound statement' t) := by
  obtain ⟨kind, text, span⟩ := t
  simp only [keywordStatement, Token.relocate]
  split
  · exact Moves.pure rfl
  · refine (delimiter_moves _ _).bind fun _ => (expression_moves keeps bound).bind fun e => ?_
    apply (delimiter_moves _ _).bind
    intro _
    exact (since_moves keeps span).bind fun s => Moves.pure rfl
  · exact branchStatement_moves keeps each bound span
  · apply (functionDecl_moves keeps each bound span).bind
    intro d
    exact (since_moves keeps span).bind fun s => Moves.pure rfl
  · apply (initDecl_moves keeps each bound span).bind
    intro d
    exact (since_moves keeps span).bind fun s => Moves.pure rfl
  · exact giveStatement_moves keeps bound span
  · exact loopStatement_moves keeps each bound span
  · exact iterateStatement_moves keeps each bound span
  · exact classStatement_moves keeps each bound span
  · apply (names_moves bound _ _).bind
    intro xs
    exact (since_moves keeps span).bind fun s => Moves.pure rfl
  · exact importStatement_moves keeps bound span
  · apply (delimiter_moves _ _).bind
    intro _
    apply (arguments_moves bound (expression_moves keeps bound)).bind
    intro args
    refine (since_moves keeps span).bind fun s => Moves.pure ?_
    simp [Stmt.relocate]
  · exact loadStatement_moves keeps span
  · exact Moves.fail _ rfl

end Statements

theorem statement_moves (keeps : Keeps f) (n : Nat) :
    Moves f (Stmt.relocate f) (statement n) (statement n) := by
  induction n with
  | zero => exact peek_moves.bind fun t => Moves.fail _ rfl
  | succ n ih =>
    apply peek_moves.bind
    rintro ⟨kind, text, span⟩
    cases kind with
    | keyword => exact step_moves.bind fun _ => keywordStatement_moves keeps ih (n + 1) _
    | name => exact nameStatement_moves keeps (n + 1)
    | _ => exact Moves.fail _ rfl

theorem statements_moves (keeps : Keeps f) (bound n : Nat) :
    Moves f (List.map (Stmt.relocate f)) (statements bound n) (statements bound n) := by
  induction n with
  | zero => exact Moves.pure rfl
  | succ n ih =>
    refine atEnd_moves.bind fun ended => Moves.ite (Moves.pure rfl) ?_
    exact (statement_moves keeps bound).bind fun s => ih.bind fun b => Moves.pure rfl

end Script.Parser

namespace Script

/-- The kinds and texts of the tokens of a row, its comments left out. -/
def Token.contents (tokens : List Token) : List (Token.Kind × String) :=
  (tokens.filter (·.kind ≠ .comment)).map fun t => (t.kind, t.text)

theorem Stream.ofTokens_contents {ts us : List Token} (same : Token.contents ts = Token.contents us) :
    (Stream.ofTokens ts).relocate nowhere = (Stream.ofTokens us).relocate nowhere := by
  have bare : (ts.filter (·.kind ≠ .comment)).map (Token.relocate nowhere) =
      (us.filter (·.kind ≠ .comment)).map (Token.relocate nowhere) := by
    have h := congrArg (List.map fun c => (⟨c.1, c.2, default⟩ : Token)) same
    simp only [Token.contents, List.map_map] at h
    exact h
  have stop (ts : List Token) (place : Span) :
      ((ts.find? (·.kind = .eof)).getD ⟨.eof, "", place⟩).relocate nowhere =
      ((ts.map (Token.relocate nowhere)).find? (·.kind = .eof)).getD ⟨.eof, "", default⟩ := by
    rw [List.find?_map]
    change _ = ((ts.find? (·.kind = .eof)).map (Token.relocate nowhere)).getD _
    cases ts.find? (·.kind = .eof) with
    | none => rfl
    | some t => rfl
  have rest (ts : List Token) :
      (ts.takeWhile (·.kind ≠ .eof)).map (Token.relocate nowhere) =
        (ts.map (Token.relocate nowhere)).takeWhile (·.kind ≠ .eof) := by
    rw [List.takeWhile_map]
    rfl
  simp only [Stream.ofTokens, Stream.relocate, stop, rest, bare]

/-- Rows with the same contents parse to trees that agree but for their places, or fail with the
same fault. -/
theorem program_contents {ts us : List Token} (same : Token.contents ts = Token.contents us) :
    (∃ p q, Parser.program ts = .ok p ∧ Parser.program us = .ok q ∧ bareBlock p = bareBlock q) ∨
    ∃ e e' g, Parser.program ts = .error e ∧ Parser.program us = .error e' ∧
      e.fault = .grammar g ∧ e'.fault = .grammar g := by
  have streams := Stream.ofTokens_contents same
  have bound : (Stream.ofTokens ts).rest.length = (Stream.ofTokens us).rest.length := by
    simpa [Stream.relocate] using congrArg (fun s : Stream => s.rest.length) streams
  have moves := Parser.statements_moves nowhere_keeps (Stream.ofTokens us).rest.length
    (Stream.ofTokens us).rest.length
  have left := moves.run (Stream.ofTokens ts)
  have right := moves.run (Stream.ofTokens us)
  rw [streams, right] at left
  simp only [Parser.program, bound, EStateM.run]
  cases first : Parser.statements (Stream.ofTokens us).rest.length
      (Stream.ofTokens us).rest.length (Stream.ofTokens ts) with
  | ok p s =>
    cases second : Parser.statements (Stream.ofTokens us).rest.length
        (Stream.ofTokens us).rest.length (Stream.ofTokens us) with
    | ok q s' =>
      rw [first, second] at left
      simp only [Parser.moved, EStateM.Result.ok.injEq] at left
      exact .inl ⟨p, q, rfl, rfl, left.1.symm⟩
    | error e s' =>
      rw [first, second] at left
      cases left
  | error e s =>
    cases second : Parser.statements (Stream.ofTokens us).rest.length
        (Stream.ofTokens us).rest.length (Stream.ofTokens us) with
    | ok q s' =>
      rw [first, second] at left
      cases left
    | error e' s' =>
      obtain ⟨g, fault⟩ := moves.fault _ _ _ first
      rw [first, second] at left
      simp only [Parser.moved, EStateM.Result.error.injEq] at left
      have faults : (e'.relocate nowhere).fault = (e.relocate nowhere).fault :=
        congrArg Error.fault left.1
      exact .inr ⟨e, e', g, rfl, rfl, fault, faults.trans fault⟩

end Script
