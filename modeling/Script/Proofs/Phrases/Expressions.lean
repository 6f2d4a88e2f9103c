import Script.Proofs.ExpressionSoundness
import Script.Proofs.Phrases.Lays

/-! The expression parsers answer with trees that are laid over the tokens taken. -/

namespace Script

/-- The expression is laid over the tokens. -/
def Expr.Over (e : Expr) (ts : List Token) : Prop :=
  (Phrase.expression e).Over ts

namespace Expr.Over

variable {e l r : Expr} {us vs ts : List Token}

theorem laid (lies : e.Over ts) : Laid [.expression e] ts :=
  .of_over lies

theorem begins (lies : e.Over ts) : e.span.Begins ts := lies.1.1

/-- Two expressions with a token between them. -/
theorem through (left : l.Over us) (right : r.Over vs) {t : Token}
    (order : InOrder (us ++ [t] ++ vs)) :
    (l.span.through r.span).Delimits (us ++ [t] ++ vs) :=
  ((left.1.1.append [t]).append vs).through order (right.1.2.after (us ++ [t]))

end Expr.Over

namespace Parser

variable {n : Nat} {us : List Token} {operand expression : Parser Expr}

theorem joined_over {op : BinOp} {l r : Expr} {vs : List Token} {t : Token} (left : l.Over us)
    (is : t.Is op.spelling op.symbol) (right : r.Over vs) (order : InOrder (us ++ [t] ++ vs)) :
    (joined op l r).Over (us ++ [t] ++ vs) :=
  ⟨left.through right order, (left.laid.append (.token is)).append right.laid⟩

theorem joinLeft_lays (operands : Lays n [] operand Expr.Over) (ops : List BinOp) (m : Nat)
    {left : Expr} (lies : left.Over us) : Lays n us (joinLeft ops operand m left) Expr.Over := by
  induction m generalizing us left with
  | zero => exact .pure fun _ => lies
  | succ m ih =>
    intro s₀ s e s' ends short order moved run
    obtain ⟨found, s₁, look, run⟩ := bind_ok.1 run
    obtain ⟨rfl, operator⟩ := operatorOf_ok look
    cases found with
    | none => exact Lays.pure (fun _ => lies) s₀ s₁ e s' ends short order moved run
    | some op =>
      obtain ⟨-, here⟩ := operator op rfl
      obtain ⟨_, s₂, took, run⟩ := bind_ok.1 run
      cases took
      have proper : op.spelling ≠ .eof := by
        unfold BinOp.spelling
        split <;> decide
      have next : Lays n (us ++ [s₁.next]) (operandAfter op.symbol operand >>= fun right =>
          joinLeft ops operand m (joined op left right)) Expr.Over := by
        apply (Lays.operandAfter operands).first
        intro right ts order' right'
        exact ih (joined_over lies here right' order')
      exact Lays.step ends short order moved (.token ends here.1 proper) next run

theorem level_lays (bound : Nat) (ops : List BinOp) (operands : Lays n [] operand Expr.Over) :
    Lays n [] (level bound ops operand) Expr.Over :=
  operands.bind fun _ _ _ lies => joinLeft_lays operands ops bound lies

theorem joinLogic_lays (operands : Lays n [] operand Expr.Over) (op : Logic) (m : Nat)
    {left : Expr} (lies : left.Over us) : Lays n us (joinLogic op operand m left) Expr.Over := by
  induction m generalizing us left with
  | zero => exact .pure fun _ => lies
  | succ m ih =>
    refine .eat (by decide) (fun t is => ?_) (.pure fun _ => lies)
    refine operands.first fun right ts order lies' => ih ?_
    exact ⟨lies.through lies' order, (lies.laid.append (.token is)).append lies'.laid⟩

theorem logicLevel_lays (bound : Nat) (op : Logic) (operands : Lays n [] operand Expr.Over) :
    Lays n [] (logicLevel bound op operand) Expr.Over :=
  operands.bind fun _ _ _ lies => joinLogic_lays operands op bound lies

theorem power_lays (bases : Lays n [] operand Expr.Over) (m : Nat) :
    Lays n [] (power operand m) Expr.Over := by
  induction m with
  | zero => exact bases
  | succ m ih =>
    refine bases.bind fun left us _ lies => .eat (by decide) (fun t is => ?_) (.pure fun _ => lies)
    refine (Lays.operandAfter ih).first fun right ts order lies' => .pure fun _ => ?_
    exact joined_over lies is lies' order

theorem negation_lays (operands : Lays n [] operand Expr.Over) (m : Nat) :
    Lays n [] (negation operand m) Expr.Over := by
  induction m with
  | zero => exact operands
  | succ m ih =>
    refine .eat (by decide) (fun t is => .last rfl ?_) operands
    refine (Lays.operandAfter ih).first fun e ts order lies => .pure fun _ => ?_
    refine ⟨?_, (Laid.token is).append lies.laid⟩
    exact (Span.Begins.of_head rfl).through order (lies.1.2.after [t])

theorem arguments_lays {bound : Nat} (expressions : Lays n [] expression Expr.Over) :
    Composes n (arguments bound expression) (fragmentsOfAll ")") := by
  have each (seen : List Expr) : Composes n (do
      if (← atEnd) then fail .openArguments (← peek).span else expression)
      fun e => [.expression e] := by
    refine .atEnd fun _ => .ite (fun _ => .peek fun _ => .fail _ _) fun _ => ?_
    exact expressions.consequence fun e ts _ lies => lies.laid
  refine (listedUntil_lays each ")" bound).bind fun args ts _ laid => .delimiter fun t is => ?_
  exact .pure fun _ => laid.append (.token is)

/-- Members, calls and indices after an expression. -/
theorem postfixes_lays {bound : Nat} (expressions : Lays n [] expression Expr.Over) (m : Nat)
    {e : Expr} (lies : e.Over us) : Lays n us (postfixes bound expression m e) Expr.Over := by
  induction m generalizing us e with
  | zero => exact .pure fun _ => lies
  | succ m ih =>
    refine .eat (by decide) (fun dot isDot => .name fun x isName => .eat (by decide)
      (fun t is => ?_) ?_) (.eat (by decide) (fun t is => ?_) (.pure fun _ => lies))
    · refine (arguments_lays expressions).first fun args ts _ laid => ?_
      refine .since ((((lies.begins.append _).append _).append _).append _) fun span delimits => ?_
      refine ih ⟨delimits, ?_⟩
      simpa [Phrase.fragments, Expr.fragments] using (((lies.laid.append (.token isDot)).append
        (.token isName)).append (.token is)).append laid
    · refine .since ((lies.begins.append _).append _) fun span delimits => ih ⟨delimits, ?_⟩
      exact (lies.laid.append (.token isDot)).append (.token isName)
    · refine expressions.first fun key ts _ lies' => .delimiter fun t' is' => ?_
      refine .since (((lies.begins.append _).append _).append _) fun span delimits => ?_
      refine ih ⟨delimits, ?_⟩
      exact ((lies.laid.append (.token is)).append lies'.laid).append (.token is')

theorem pathRest_lays (m : Nat) :
    Composes n (pathRest m) fun xs =>
      (xs.flatMap fun x => [Word.delimiter ".", .name x]).map .word := by
  induction m with
  | zero => exact .pure fun _ => .nil
  | succ m ih =>
    refine .eat (by decide) (fun dot isDot => .name fun x isName => ?_) (.pure fun _ => .nil)
    refine ih.first fun xs ts _ laid => .pure fun _ => ?_
    simpa using ((Laid.token isDot).append (.token isName)).append laid

theorem classPath_lays (bound : Nat) (what : Wanted) :
    Composes n (classPath bound what) fun path => path.words.map .word := by
  refine .name fun x isName => (pathRest_lays bound).first fun xs ts _ laid => .pure fun _ => ?_
  exact (Laid.token isName).append laid

theorem entry_lays (expressions : Lays n [] expression Expr.Over) (seen : List (String × Expr)) :
    Composes n (entry expression seen) fragmentsOfEntry := by
  rintro s₀ ⟨l, rest, stop⟩ e s' ends short order moved run
  obtain ⟨t, s₁, took, run⟩ := bind_ok.1 run
  cases took
  split at run
  · cases run
  · rename_i kind
    split at run
    · cases run
    · cases rest with
      | nil =>
        obtain ⟨_, s₂, colon, -⟩ := bind_ok.1 run
        exact absurd colon (delimiter_at_end ends rfl)
      | cons t ts =>
        have kind : t.kind = .name ∨ t.kind = .text := by
          simp only [Stream.advance] at kind
          grind
        have key : Laid [.word (.key t.text)] [t] :=
          .of_spelt ⟨t, rfl, kind.imp (⟨·, rfl⟩) (⟨·, rfl⟩)⟩
        have next : Lays n ([] ++ [t]) (delimiter ":" .keyColon >>= fun _ => expression >>=
            fun e => pure (t.text, e)) fun e ts => Laid (fragmentsOfEntry e) ts := by
          refine .delimiter fun colon is => expressions.first fun e ts _ lies => .pure fun _ => ?_
          exact (key.append (.token is)).append lies.laid
        have took : Stream.Moves ⟨l, t :: ts, stop⟩ [t] ⟨t, ts, stop⟩ := ⟨rfl, rfl, rfl⟩
        have done := Lays.step ends short order moved took next run
        exact done

/-- After the first token `t` of an expression, which has been taken. -/
theorem primaryFrom_lays {bound : Nat} (expressions : Lays n [] expression Expr.Over)
    (t : Token) : Lays n [t] (primaryFrom bound expression t) Expr.Over := by
  unfold primaryFrom
  split
  · rename_i kind
    cases value : numberLiteral t.text with
    | none => exact .fail _ _
    | some v =>
      have word : v.word.Spelt [t] := by
        rw [(numberLiteral_word value).1]
        exact ⟨t, rfl, kind, value⟩
      exact .pure fun _ => ⟨.single t, .of_spelt word⟩
  · rename_i kind
    exact .pure fun _ => ⟨.single t, .token ⟨kind, rfl⟩⟩
  · rename_i kind text
    exact .pure fun _ => ⟨.single t, .token ⟨kind, text⟩⟩
  · rename_i kind text
    exact .pure fun _ => ⟨.single t, .token ⟨kind, text⟩⟩
  · rename_i kind text
    exact .pure fun _ => ⟨.single t, .token ⟨kind, text⟩⟩
  · rename_i kind text
    refine (classPath_lays bound _).first fun cls ts _ path => .delimiter fun t' is => ?_
    refine (arguments_lays expressions).first fun args ts' _ laid => ?_
    refine .placed (.of_head rfl) fun span delimits => ⟨delimits, ?_⟩
    have new : t.Is .keyword "new" := ⟨kind, text⟩
    simpa [Phrase.fragments, Expr.fragments] using
      (((Laid.token new).append path).append (.token is)).append laid
  · rename_i kind
    have called : t.Is .name t.text := ⟨kind, rfl⟩
    refine .eat (by decide) (fun t' is => ?_) (.pure fun _ => ⟨.single t, .token called⟩)
    refine (arguments_lays expressions).first fun args ts _ laid => ?_
    refine .placed (.of_head rfl) fun span delimits => ⟨delimits, ?_⟩
    exact ((Laid.token called).append (.token is)).append laid
  · rename_i kind text
    refine .sees fun _ => .ite (fun _ => .peek fun _ => .fail _ _) fun _ => ?_
    refine expressions.first fun e ts _ lies => .delimiter fun t' is => ?_
    refine .placed (.of_head rfl) fun span delimits => ⟨delimits, ?_⟩
    exact ((Laid.token ⟨kind, text⟩).append lies.laid).append (.token is)
  · rename_i kind text
    have each (seen : List Expr) : Composes n expression fun e => [.expression e] :=
      expressions.consequence fun e ts _ lies => lies.laid
    refine (listedUntil_lays each "]" bound).first fun items ts _ laid => .delimiter fun t' is => ?_
    refine .placed (.of_head rfl) fun span delimits => ⟨delimits, ?_⟩
    have opened : t.Is .delimiter "[" := ⟨kind, text⟩
    simpa [Phrase.fragments, Expr.fragments, fragmentsOfAll] using
      ((Laid.token opened).append laid).append (.token is)
  · rename_i kind text
    refine (listedUntil_lays (entry_lays expressions) "\x7d" bound).first fun entries ts _ laid =>
      .delimiter fun t' is => ?_
    refine .placed (.of_head rfl) fun span delimits => ⟨delimits, ?_⟩
    exact ((Laid.token ⟨kind, text⟩).append laid).append (.token is)
  · exact .fail _ _

theorem primary_lays {bound : Nat} (expressions : Lays n [] expression Expr.Over) :
    Lays n [] (primary bound expression) Expr.Over := by
  rintro s₀ ⟨l, rest, stop⟩ e s' ends short order moved run
  obtain ⟨b, s₁, look, run⟩ := bind_ok.1 run
  cases look
  cases rest with
  | nil => cases run
  | cons t ts =>
    obtain ⟨u, s₂, took, run⟩ := bind_ok.1 run
    cases took
    have took : Stream.Moves ⟨l, t :: ts, stop⟩ [t] ⟨t, ts, stop⟩ := ⟨rfl, rfl, rfl⟩
    exact Lays.step ends short order moved took (primaryFrom_lays expressions t) run

theorem chain_lays {bound : Nat} (expressions : Lays n [] expression Expr.Over) :
    Lays n [] (chain bound expression) Expr.Over :=
  (primary_lays expressions).bind fun _ _ _ lies => postfixes_lays expressions bound lies

theorem levels_lays {bound : Nat} (expressions : Lays n [] expression Expr.Over) :
    Lays n [] (levels bound expression) Expr.Over := by
  refine logicLevel_lays bound .or (logicLevel_lays bound .and ?_)
  refine level_lays bound _ (level_lays bound _ (level_lays bound _ (level_lays bound _ ?_)))
  exact level_lays bound _ (power_lays (negation_lays (chain_lays expressions) bound) bound)

theorem expression_lays (m : Nat) : Lays n [] (Parser.expression m) Expr.Over := by
  induction m with
  | zero => exact .peek fun _ => .fail _ _
  | succ m ih => exact levels_lays ih

end Parser

end Script
