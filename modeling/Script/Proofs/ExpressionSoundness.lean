import Script.Proofs.Reads

/-! What the expression parsers take is a spelling of the tree that they answer with, and each level
answers with trees of its own rank or a tighter one. -/

namespace Script.Parser

variable {n : Nat}

theorem operatorOf_ok {ops : List BinOp} {s s' : Stream} {found : Option BinOp}
    (run : operatorOf ops s = .ok found s') :
    s' = s ∧ ∀ op, found = some op →
      op ∈ ops ∧ s.next.Is op.spelling op.symbol := by
  obtain ⟨t, s₁, look, run⟩ := bind_ok.1 run
  cases look
  cases run
  refine ⟨rfl, fun op found => ?_⟩
  have here := List.find?_some found
  simp only [decide_eq_true_eq] at here
  exact ⟨List.mem_of_find?_eq_some found, here⟩

theorem joined_fits {op : BinOp} {k : Nat} (rank : op.rank = k) (flat : op ≠ .pow)
    {left right : Expr} (fits : Fits k left) (fitting : Fits (k + 1) right) :
    Fits k (joined op left right) := by
  have hl : op.leftRank = k := by rw [BinOp.leftRank, if_neg flat, rank]
  have hr : op.rightRank = k + 1 := by rw [BinOp.rightRank, if_neg flat, rank]
  exact ⟨⟨fits.1, fitting.1, hl ▸ fits.2, hr ▸ fitting.2⟩, Nat.le_of_eq rank.symm⟩

theorem joinLeft_reads {ops : List BinOp} {operand : Parser Expr} {k : Nat}
    (flat : ∀ op ∈ ops, op.rank = k ∧ op ≠ .pow)
    (operands : Reads n [] operand Expr.words (Fits (k + 1))) (m : Nat) (left : Expr)
    (fits : Fits k left) : Reads n left.words (joinLeft ops operand m left) Expr.words (Fits k) := by
  induction m generalizing left with
  | zero => exact Reads.pure fits rfl
  | succ m ih =>
    intro s e s' ends short run
    obtain ⟨found, s₁, look, run⟩ := bind_ok.1 run
    obtain ⟨rfl, operator⟩ := operatorOf_ok look
    cases found with
    | none => exact Reads.pure fits rfl s₁ e s' ends short run
    | some op =>
      obtain ⟨member, here⟩ := operator op rfl
      obtain ⟨_, s₂, took, run⟩ := bind_ok.1 run
      cases took
      have proper : op.spelling ≠ .eof := by
        unfold BinOp.spelling
        split <;> decide
      obtain ⟨ts, rest, taken⟩ := next_mem ends here.1 proper
      rw [taken] at run
      have short' : ts.length ≤ n := by
        rw [rest, List.length_cons] at short
        omega
      obtain ⟨rank, flat⟩ := flat op member
      have next : Reads n (left.words ++ [op.word])
          (operandAfter op.symbol operand >>= fun right =>
            joinLeft ops operand m (joined op left right)) Expr.words (Fits k) := by
        apply (operandAfter_reads operands.after_words).bind
        intro right fitting
        have words : left.words ++ [op.word] ++ right.words = (joined op left right).words := by
          simp [joined, Expr.words]
        rw [words]
        exact ih _ (joined_fits rank flat fits fitting)
      exact next.take ends rest short' (spells_singleton.2 here.spelt) run

theorem level_reads {ops : List BinOp} {operand : Parser Expr} {k : Nat} (bound : Nat)
    (flat : ∀ op ∈ ops, op.rank = k ∧ op ≠ .pow)
    (operands : Reads n [] operand Expr.words (Fits (k + 1))) :
    Reads n [] (level bound ops operand) Expr.words (Fits k) :=
  operands.bind fun left fits =>
    joinLeft_reads flat operands bound left ⟨fits.1, Nat.le_of_succ_le fits.2⟩

theorem joinLogic_reads {op : Logic} {operand : Parser Expr}
    (operands : Reads n [] operand Expr.words (Fits (op.rank + 1))) (m : Nat) (left : Expr)
    (fits : Fits op.rank left) :
    Reads n left.words (joinLogic op operand m left) Expr.words (Fits op.rank) := by
  induction m generalizing left with
  | zero => exact Reads.pure fits rfl
  | succ m ih =>
    refine Reads.eat (by decide) ?_ (Reads.pure fits rfl)
    apply operands.after_words.bind
    intro right fitting
    have fits' : Fits op.rank (.logic op left right (left.span.through right.span)) :=
      ⟨⟨fits.1, fitting.1, fits.2, fitting.2⟩, Nat.le_refl _⟩
    have words : left.words ++ [.operator op.symbol] ++ right.words =
        (Expr.logic op left right (left.span.through right.span)).words := by
      simp [Expr.words]
    rw [words]
    exact ih _ fits'

theorem logicLevel_reads (op : Logic) {operand : Parser Expr} (bound : Nat)
    (operands : Reads n [] operand Expr.words (Fits (op.rank + 1))) :
    Reads n [] (logicLevel bound op operand) Expr.words (Fits op.rank) :=
  operands.bind fun left fits =>
    joinLogic_reads operands bound left ⟨fits.1, Nat.le_of_succ_le fits.2⟩

theorem power_reads {base : Parser Expr} (bases : Reads n [] base Expr.words (Fits 8)) (m : Nat) :
    Reads n [] (power base m) Expr.words (Fits 7) := by
  induction m with
  | zero => exact bases.consequence fun e fits => ⟨⟨fits.1, Nat.le_of_succ_le fits.2⟩, rfl⟩
  | succ m ih =>
    refine bases.bind fun left fits => Reads.eat (by decide) ?_ ?_
    · refine (operandAfter_reads ih.after_words).bind fun right fitting => Reads.pure ?_ ?_
      · exact ⟨⟨fits.1, fitting.1, fits.2, fitting.2⟩, Nat.le_refl _⟩
      · simp [joined, Expr.words, BinOp.word, BinOp.spelling]
    · exact Reads.pure ⟨fits.1, Nat.le_of_succ_le fits.2⟩ rfl

theorem negation_reads {operand : Parser Expr} (operands : Reads n [] operand Expr.words (Fits 9))
    (m : Nat) : Reads n [] (negation operand m) Expr.words (Fits 8) := by
  have tighter : Reads n [] operand Expr.words (Fits 8) :=
    operands.consequence fun e fits => ⟨⟨fits.1, Nat.le_of_succ_le fits.2⟩, rfl⟩
  induction m with
  | zero => exact tighter
  | succ m ih =>
    refine Reads.eat (by decide) ?_ tighter
    apply last_reads.bind
    intro _ _
    refine (operandAfter_reads ih.after_words).bind fun e fits => Reads.pure ?_ ?_
    · exact ⟨fits, Nat.le_refl _⟩
    · simp [Expr.words]

theorem arguments_reads {bound : Nat} {expression : Parser Expr}
    (expressions : Reads n [] expression Expr.words Expr.WellFormed) :
    Reads n [] (arguments bound expression)
      (fun args => commas (args.map Expr.words) ++ [.delimiter ")"])
      fun args => ∀ e ∈ args, e.WellFormed := by
  have items (seen : List Expr) : Reads n [] (do
      if (← atEnd) then fail .openArguments (← peek).span else expression)
      Expr.words Expr.WellFormed := by
    refine atEnd_reads.bind fun _ _ => Reads.ite (fun _ => ?_) fun _ => expressions
    exact peek_reads.bind fun _ _ => Reads.fail _ _
  apply (listedUntil_reads items bound).bind
  intro args each
  refine (delimiter_reads _ _).bind fun _ _ => Reads.pure ?_ rfl
  exact each_forall each

/-- Members, calls and indices after a tree that fits. -/
theorem postfixes_reads {bound : Nat} {expression : Parser Expr}
    (expressions : Reads n [] expression Expr.words Expr.WellFormed) (m : Nat) (e : Expr)
    (fits : Fits 9 e) :
    Reads n e.words (postfixes bound expression m e) Expr.words (Fits 9) := by
  induction m generalizing e with
  | zero => exact Reads.pure fits rfl
  | succ m ih =>
    refine Reads.eat (by decide) ?_ (Reads.eat (by decide) ?_ (Reads.pure fits rfl))
    · refine (name_reads _).bind fun x _ => Reads.eat (by decide) ?_ ?_
      · apply (arguments_reads expressions).after_words.bind
        intro args good
        apply (since_reads _).bind
        intro span _
        have words : e.words ++ [.delimiter "."] ++ [.name x] ++ [.delimiter "("] ++
            (commas (args.map Expr.words) ++ [.delimiter ")"]) =
              (Expr.method e x args span).words := by
          simp [Expr.words]
        rw [words]
        exact ih _ ⟨⟨fits.1, fits.2, (allWellFormed_iff args).2 good⟩, Nat.le_refl _⟩
      · apply (since_reads _).bind
        intro span _
        have words : e.words ++ [.delimiter "."] ++ [.name x] =
            (Expr.property e x span).words := by
          simp [Expr.words]
        rw [words]
        exact ih _ ⟨fits, Nat.le_refl _⟩
    · apply expressions.after_words.bind
      intro key good
      refine (delimiter_reads _ _).bind fun _ _ => (since_reads _).bind fun span _ => ?_
      have words : e.words ++ [.delimiter "["] ++ key.words ++ [.delimiter "]"] =
          (Expr.index e key span).words := by
        simp [Expr.words]
      rw [words]
      exact ih _ ⟨⟨fits.1, fits.2, good⟩, Nat.le_refl _⟩

theorem pathRest_reads (m : Nat) :
    Reads n [] (pathRest m) (fun xs => xs.flatMap fun x => [.delimiter ".", .name x])
      fun _ => True := by
  induction m with
  | zero => exact Reads.pure trivial rfl
  | succ m ih =>
    refine Reads.eat (by decide) ?_ (Reads.pure trivial rfl)
    refine (name_reads _).bind fun x _ => ih.after_words.bind fun xs _ => ?_
    exact Reads.pure trivial (by simp)

theorem classPath_reads (bound : Nat) (what : Wanted) :
    Reads n [] (classPath bound what) ClassPath.words fun _ => True := by
  refine (name_reads _).bind fun x _ => (pathRest_reads bound).after_words.bind fun xs _ => ?_
  exact Reads.pure trivial rfl

theorem delimiter_at_end {s s' : Stream} {text : String} {what : Wanted} {u : Unit}
    (ends : s.stop.kind = .eof) (empty : s.rest = []) :
    delimiter text what s ≠ .ok u s' := by
  intro run
  have reads : Reads s.rest.length [] (delimiter text what) (fun _ => [.delimiter text])
      fun _ => True := delimiter_reads text what
  obtain ⟨-, -, ts, taken, spelt⟩ := reads s u s' ends (Nat.le_refl _) run
  obtain ⟨rfl, -⟩ := List.append_eq_nil_iff.1 (taken.symm.trans empty)
  obtain ⟨t, impossible, -⟩ := spells_singleton.1 (spelt [] rfl)
  cases impossible

theorem entry_reads {expression : Parser Expr}
    (expressions : Reads n [] expression Expr.words Expr.WellFormed)
    (seen : List (String × Expr)) :
    Reads n [] (entry expression seen) wordsOfEntry
      fun e => (∀ old ∈ seen, ¬ sameKey old.1 e.1) ∧ e.2.WellFormed := by
  rintro ⟨l, rest, stop⟩ e s' ends short run
  obtain ⟨t, s₁, took, run⟩ := bind_ok.1 run
  cases took
  split at run
  · cases run
  · rename_i kind
    split at run
    · cases run
    · rename_i fresh
      cases rest with
      | nil =>
        obtain ⟨_, s₂, colon, -⟩ := bind_ok.1 run
        exact absurd colon (delimiter_at_end ends rfl)
      | cons t ts =>
        have fresh : ∀ old ∈ seen, ¬ sameKey old.1 t.text := by
          simpa [Stream.advance] using fresh
        have kind : t.kind = .name ∨ t.kind = .text := by
          simp only [Stream.advance] at kind
          grind
        have spelt : Spells [.key t.text] [t] := by
          rcases kind with kind | kind
          · exact spells_singleton.2 ⟨t, rfl, .inl ⟨kind, rfl⟩⟩
          · exact spells_singleton.2 ⟨t, rfl, .inr ⟨kind, rfl⟩⟩
        have next : Reads n ([] ++ [.key t.text])
            (delimiter ":" .keyColon >>= fun _ => expression >>= fun e => pure (t.text, e))
            wordsOfEntry fun e => (∀ old ∈ seen, ¬ sameKey old.1 e.1) ∧ e.2.WellFormed := by
          refine (delimiter_reads _ _).bind fun _ _ => expressions.after_words.bind fun e good => ?_
          exact Reads.pure ⟨fresh, good⟩ (by simp [wordsOfEntry])
        have short : ts.length ≤ n := Nat.le_of_succ_le short
        exact next.take ends rfl short spelt run

theorem entries_distinct {seen entries : List (String × Expr)}
    (each : Each (fun seen e => (∀ old ∈ seen, ¬ sameKey old.1 e.1) ∧ e.2.WellFormed)
      seen entries) :
    (∀ old ∈ seen, ∀ e ∈ entries, ¬ sameKey old.1 e.1) ∧
      (entries.Pairwise fun a b => ¬ sameKey a.1 b.1) ∧ ∀ e ∈ entries, e.2.WellFormed := by
  induction entries generalizing seen with
  | nil => simp
  | cons e entries ih =>
    obtain ⟨⟨fresh, good⟩, rest⟩ := each
    obtain ⟨apart, pairwise, all⟩ := ih rest
    rw [List.forall_mem_cons] at apart
    refine ⟨fun old ho => ?_, List.pairwise_cons.2 ⟨apart.1, pairwise⟩, ?_⟩
    · rw [List.forall_mem_cons]
      exact ⟨fresh old ho, apart.2 old ho⟩
    · rw [List.forall_mem_cons]
      exact ⟨good, all⟩

/-- The word that a token by itself spells. -/
def wordOf (t : Token) : Word :=
  match t.kind, numberLiteral t.text with
  | .number, some v => .number v
  | kind, _ => .token kind t.text

theorem wordOf_spelt (t : Token) : (wordOf t).Spelt [t] := by
  unfold wordOf
  split
  · rename_i v kind value
    exact ⟨t, rfl, kind, value⟩
  · exact ⟨t, rfl, rfl, rfl⟩

theorem wordOf_token {t : Token} (other : t.kind ≠ .number) :
    wordOf t = .token t.kind t.text := by
  unfold wordOf
  split
  · contradiction
  · rfl

theorem numberLiteral_word {text : String} {v : Literal} (value : numberLiteral text = some v) :
    v.word = .number v ∧ v.Denoted := by
  have denoted := value
  simp only [numberLiteral, Option.or_eq_some_iff, Option.map_eq_some_iff] at value
  rcases value with ⟨n, -, rfl⟩ | ⟨-, x, -, rfl⟩
  · exact ⟨rfl, text, denoted⟩
  · exact ⟨rfl, text, denoted⟩

/-- After the first token `t` of an expression, which has been taken. -/
theorem primaryFrom_reads {bound : Nat} {expression : Parser Expr}
    (expressions : Reads n [] expression Expr.words Expr.WellFormed) (t : Token) :
    Reads n [wordOf t] (primaryFrom bound expression t) Expr.words (Fits 9) := by
  have word {k : Token.Kind} {x : String} (hk : t.kind = k) (hx : t.text = x)
      (other : k ≠ .number) : wordOf t = .token k x := by
    rw [wordOf_token (hk ▸ other), hk, hx]
  unfold primaryFrom
  split
  · rename_i kind
    cases value : numberLiteral t.text with
    | none => exact Reads.fail _ _
    | some v =>
      obtain ⟨written, denoted⟩ := numberLiteral_word value
      exact Reads.pure ⟨denoted, Nat.le_succ 9⟩ (by simp [wordOf, kind, value, Expr.words, written])
  · rename_i kind
    exact Reads.pure ⟨trivial, Nat.le_succ 9⟩ (by simp [word kind rfl, Expr.words, Literal.word])
  · rename_i kind text
    exact Reads.pure ⟨trivial, Nat.le_succ 9⟩ (by simp [word kind text, Expr.words, Literal.word])
  · rename_i kind text
    exact Reads.pure ⟨trivial, Nat.le_succ 9⟩ (by simp [word kind text, Expr.words, Literal.word])
  · rename_i kind text
    exact Reads.pure ⟨trivial, Nat.le_succ 9⟩ (by simp [word kind text, Expr.words, Literal.word])
  · rename_i kind text
    apply (classPath_reads _ _).after_words.bind
    intro cls _
    apply (delimiter_reads _ _).bind
    intro _ _
    apply (arguments_reads expressions).after_words.bind
    intro args good
    apply (since_reads _).bind
    intro span _
    refine Reads.pure ⟨(allWellFormed_iff args).2 good, Nat.le_succ 9⟩ ?_
    simp [word kind text, Expr.words]
  · rename_i kind
    refine Reads.eat (by decide) ?_ ?_
    · apply (arguments_reads expressions).after_words.bind
      intro args good
      apply (since_reads _).bind
      intro span _
      refine Reads.pure ⟨(allWellFormed_iff args).2 good, Nat.le_succ 9⟩ ?_
      simp [word kind rfl, Expr.words]
    · exact Reads.pure ⟨trivial, Nat.le_succ 9⟩ (by simp [word kind rfl, Expr.words])
  · rename_i kind text
    refine (sees_reads _ _).bind fun _ _ => Reads.ite (fun _ => ?_) fun _ => ?_
    · exact peek_reads.bind fun _ _ => Reads.fail _ _
    · apply expressions.after_words.bind
      intro e good
      refine (delimiter_reads _ _).bind fun _ _ => (since_reads _).bind fun span _ => ?_
      exact Reads.pure ⟨good, Nat.le_succ 9⟩ (by simp [word kind text, Expr.words])
  · rename_i kind text
    have items (seen : List Expr) : Reads n [] expression Expr.words Expr.WellFormed := expressions
    apply (listedUntil_reads items bound).after_words.bind
    intro args each
    refine (delimiter_reads _ _).bind fun _ _ => (since_reads _).bind fun span _ => ?_
    refine Reads.pure ⟨(allWellFormed_iff args).2 (each_forall each), Nat.le_succ 9⟩ ?_
    simp [word kind text, Expr.words]
  · rename_i kind text
    refine (listedUntil_reads (entry_reads expressions) bound).after_words.bind
      fun entries each => ?_
    refine (delimiter_reads _ _).bind fun _ _ => (since_reads _).bind fun span _ => ?_
    obtain ⟨-, distinct, good⟩ := entries_distinct each
    refine Reads.pure ⟨⟨distinct, (entriesWellFormed_iff entries).2 good⟩, Nat.le_succ 9⟩ ?_
    simp [word kind text, Expr.words]
  · exact Reads.fail _ _

theorem primary_reads {bound : Nat} {expression : Parser Expr}
    (expressions : Reads n [] expression Expr.words Expr.WellFormed) :
    Reads n [] (primary bound expression) Expr.words (Fits 9) := by
  rintro ⟨l, rest, stop⟩ e s' ends short run
  obtain ⟨b, s₁, look, run⟩ := bind_ok.1 run
  cases look
  cases rest with
  | nil => cases run
  | cons t ts =>
    obtain ⟨u, s₂, took, run⟩ := bind_ok.1 run
    cases took
    have next : Reads n ([] ++ [wordOf t]) (primaryFrom bound expression t) Expr.words (Fits 9) :=
      primaryFrom_reads expressions t
    exact next.take ends rfl (Nat.le_of_succ_le short) (spells_singleton.2 (wordOf_spelt t)) run

theorem chain_reads {bound : Nat} {expression : Parser Expr}
    (expressions : Reads n [] expression Expr.words Expr.WellFormed) :
    Reads n [] (chain bound expression) Expr.words (Fits 9) :=
  (primary_reads expressions).bind fun e fits => postfixes_reads expressions bound e fits

theorem levels_reads {bound : Nat} {expression : Parser Expr}
    (expressions : Reads n [] expression Expr.words Expr.WellFormed) :
    Reads n [] (levels bound expression) Expr.words (Fits 0) := by
  refine logicLevel_reads .or bound (logicLevel_reads .and bound ?_)
  refine level_reads bound (by decide) (level_reads bound (by decide) ?_)
  refine level_reads bound (by decide) (level_reads bound (by decide) ?_)
  refine level_reads bound (by decide) (power_reads (negation_reads ?_ bound) bound)
  exact chain_reads expressions

theorem expression_reads (m : Nat) :
    Reads n [] (expression m) Expr.words Expr.WellFormed := by
  induction m with
  | zero => exact peek_reads.bind fun _ _ => Reads.fail _ _
  | succ m ih => exact (levels_reads ih).consequence fun e fits => ⟨fits.1, rfl⟩

end Script.Parser
