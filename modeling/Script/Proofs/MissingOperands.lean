import Mathlib
import Script.Proofs.Blame.Statements
import Script.Proofs.Walk.Programs

/-! Which operator the message about a missing operand names. -/

namespace Script

/-! The text of the message. No other fault of the grammar has it. -/

/-- The text has a character at `i`, and it is not `c`. -/
def differs (i : Nat) (c : Char) (text : String) : Bool :=
  text.toList[i]?.any (· ≠ c)

section Texts

variable {i : Nat} {c : Char} {a b text : String}

theorem differs_append (h : differs i c a = true) (b : String) : differs i c (a ++ b) = true := by
  unfold differs at h ⊢
  rw [String.toList_append]
  cases here : a.toList[i]? with
  | none => simp [here] at h
  | some d =>
    rw [here] at h
    rw [List.getElem?_append_left (List.getElem?_eq_some_iff.1 here).1, here]
    exact h

theorem differs_behind (h : differs i c b = true) (a : String) :
    differs (a.toList.length + i) c (a ++ b) = true := by
  unfold differs at h ⊢
  rwa [String.toList_append, List.getElem?_append_right (Nat.le_add_right _ i),
    Nat.add_sub_cancel_left]

theorem differs_intercalate (h : differs i c a = true) (sep : String) (texts : List String) :
    differs i c (sep.intercalate (a :: texts)) = true := by
  have first : ∃ b, (sep.intercalate (a :: texts)).toList = (a ++ b).toList := by
    rw [String.toList_intercalate]
    cases texts with
    | nil => exact ⟨"", by simp⟩
    | cons b texts => exact ⟨sep ++ sep.intercalate (b :: texts), by
        simp [String.toList_intercalate, List.intercalate_cons_cons]⟩
  obtain ⟨b, same⟩ := first
  rw [String.toList_inj.1 same]
  exact differs_append h b

theorem ne_of_differs (h : differs i c a = true) (here : b.toList[i]? = some c) : a ≠ b := by
  rintro rfl
  simp [differs, here] at h

end Texts

theorem Wanted.differs_text (what : Wanted) : differs 0 'e' what.text = true := by
  cases what <;> dsimp only [Wanted.text] <;> (repeat with_reducible apply differs_append) <;> decide

namespace ParseFault

/-- Of the messages that start like the one for a missing operand, those that go on with a word in
quotes, and those that go on with another word, differ from it there. -/
theorem noOperand_of_message {f : ParseFault} {op : String}
    (told : f.message = s!"Expected expression after '{op}'") : f = .noOperand op := by
  have apart {i : Nat} {c : Char} (h : differs i c f.message = true)
      (reads : "Expected expression after '".toList[i]? = some c) : f = .noOperand op := by
    refine absurd told (ne_of_differs h ?_)
    have long := (List.getElem?_eq_some_iff.1 reads).1
    change ("Expected expression after '" ++ op ++ "'").toList[i]? = some c
    rw [String.append_assoc, String.toList_append, List.getElem?_append_left long, reads]
  have expected {rest : String} (h : differs 0 'e' rest = true) :
      differs 9 'e' ("Expected " ++ rest) = true := differs_behind h "Expected "
  cases f with
  | noOperand symbol =>
    have same : "Expected expression after '" ++ symbol ++ "'" =
      "Expected expression after '" ++ op ++ "'" := told
    rw [String.append_left_inj, String.append_right_inj] at same
    rw [same]
  | wanted what found =>
    refine apart (i := 9) (c := 'e') ?_ (by decide)
    exact differs_append (differs_append (expected what.differs_text) _) _
  | openBlock opener closers =>
    refine apart (i := 9) (c := 'e') ?_ (by decide)
    dsimp only [message]
    rw [String.append_assoc]
    apply expected
    cases closers with
    | nil => exact differs_append (differs_append (by decide) _) _
    | cons closer closers =>
      refine differs_append (differs_intercalate ?_ _ _) _
      exact differs_append (differs_append (by decide) _) _
  | noExpression found =>
    exact apart (i := 19) (c := ' ') (differs_append (by decide) _) (by decide)
  | openClass _ | key _ =>
    refine apart (i := 9) (c := 'e') ?_ (by decide)
    dsimp only [message]
    repeat with_reducible apply differs_append
    decide
  | _ =>
    refine apart (i := 1) (c := 'x') ?_ (by decide)
    dsimp only [message]
    repeat with_reducible apply differs_append
    decide

end ParseFault

/-! Rows that end early. -/

/-- A row of tokens that are no comments, and none of them an end, is read as it stands. -/
theorem Token.row_of_sublist {ts tokens : List Token} (part : ts.Sublist (Token.row tokens)) :
    Token.row ts = ts := by
  have kept : ∀ t ∈ ts, t.kind ≠ .comment ∧ t.kind ≠ .eof := by
    intro t member
    have member := part.mem member
    have proper : t.kind ≠ .eof := by simpa using List.mem_takeWhile_imp member
    have inside := (List.takeWhile_sublist _).mem member
    exact ⟨by simpa using (List.mem_filter.1 inside).2, proper⟩
  rw [Token.row, List.filter_eq_self.2 fun t member => by simpa using (kept t member).1]
  exact List.takeWhile_eq_self_iff.2 fun t member => by simpa using (kept t member).2

theorem Row.of_token {tokens : List Token} {k : Nat} (less : k < (Token.row tokens).length) :
    (Row.of tokens).tokens[k]? = (Token.row tokens)[k]? :=
  Row.token_before _ less

/-- Rows that are the same up to a token and go on in any way. -/
theorem Row.of_shares {tokens others : List Token} {c : Nat} (inside : c < (Token.row tokens).length)
    (same : (Token.row others).take (c + 1) = (Token.row tokens).take (c + 1)) :
    (Row.of tokens).Shares (Row.of others) c := by
  have length := congrArg List.length same
  rw [List.length_take_of_le inside, List.length_take] at length
  have inside' : c < (Token.row others).length := by omega
  refine ⟨inside', fun k below => ?_⟩
  have less : k < c + 1 := Nat.lt_succ_of_le below
  rw [Row.of_token (Nat.lt_of_le_of_lt below inside'),
    Row.of_token (Nat.lt_of_le_of_lt below inside), ← List.getElem?_take_of_lt less, same,
    List.getElem?_take_of_lt less]

theorem Row.of_offends_iff {tokens : List Token} {o : Nat} (inside : o ≤ (Token.row tokens).length) :
    (Row.of tokens).Offends o ↔ ∀ t, (Token.row tokens)[o]? = some t → ¬ t.Begins := by
  rcases Nat.lt_or_eq_of_le inside with less | rfl
  · rw [Row.Offends, Row.of_token less]
  · have ended : (Row.of tokens).Offends (Token.row tokens).length := (Row.of tokens).first_offends
    refine iff_of_true ended fun t here => ?_
    rw [List.getElem?_eq_none (Nat.le_refl _)] at here
    cases here

/-- Where the parser stops that has seen the token at place `o`, and taken it if there is one. -/
theorem Row.stream_advance_min {r : Row} {o j : Nat} (inside : o ≤ r.first) (inside' : j ≤ r.first)
    (same : r.stream j = (r.stream o).advance) : j = min (o + 1) r.first := by
  rcases Nat.lt_or_eq_of_le inside with less | rfl
  · rw [Row.stream_advance less] at same
    rw [Walk.stream_inj inside' less same, Nat.min_eq_left less]
  · rw [Row.stream_stays] at same
    rw [Walk.stream_inj inside' inside same, Nat.min_eq_right (Nat.le_succ _)]

/-- In the row of tokens the error `e` is about the operator `op` at place `i`, and no expression
begins at place `o` behind it. That is the very next token only if none begins there. The operand of
the operator lacks an expression. Every row that is the same up to the operator, and at most `n` long,
has the same error if the operand lacks an expression in it, however deep: the operator stands in the
operand of no other one. It has the same error if it ends right there. -/
structure Blamed (n : Nat) (tokens : List Token) (op : String) (e : Error) (i o : Nat) : Prop where
  operator : ∃ t, (Token.row tokens)[i]? = some t ∧ t.Operates op ∧ t.span = e.span
  behind : i < o
  inside : o ≤ (Token.row tokens).length
  offends : ∀ t, (Token.row tokens)[o]? = some t → ¬ t.Begins
  nearest : (∀ t, (Token.row tokens)[i + 1]? = some t → ¬ t.Begins) ↔ o = i + 1
  outermost : ∃ operand, Parser.Operand op operand ∧ (Row.of tokens).Misses operand (i + 1) ∧
    ∀ others, (Token.row others).length ≤ n →
      (Token.row others).take (i + 1) = (Token.row tokens).take (i + 1) →
      (Row.of others).Misses operand (i + 1) → Parser.program others = .error e
  cut : Parser.program ((Token.row tokens).take (i + 1)) = .error e

namespace Parser

open Row

/-- A run with any bounds that are enough. -/
theorem program_of_run {tokens : List Token} {n : Nat} {e : Error} {s : Stream}
    (enough : (Token.row tokens).length ≤ n)
    (run : statements n n ((Row.of tokens).stream 0) = .error e s) : program tokens = .error e := by
  obtain ⟨looks, j, walk⟩ := program_walk tokens enough enough
  have runs := run.symm.trans (walk.runs (Nat.zero_le _))
  cases answered : program tokens with
  | ok b =>
    rw [answered] at runs
    cases runs
  | error e' =>
    rw [answered] at runs
    cases runs
    rfl

/-- Behind an operator that ends a row its operand is missing. -/
theorem misses_take {op : String} {operand : Parser Expr} (reads : Operand op operand)
    {tokens : List Token} {c : Nat} (inside : c < (Token.row tokens).length) :
    (Row.of ((Token.row tokens).take (c + 1))).Misses operand (c + 1) := by
  let r := Row.of ((Token.row tokens).take (c + 1))
  have ends : r.first = c + 1 := by
    change (Token.row ((Token.row tokens).take (c + 1))).length = c + 1
    rw [Token.row_of_sublist (List.take_sublist _ _), List.length_take_of_le inside]
  obtain ⟨e, lacks, run⟩ :=
    reads.needs r (c + 1) (Nat.le_of_eq ends.symm) (ends ▸ r.first_offends)
  exact ⟨e, _, run, lacks⟩

theorem blamed_of_blame {n : Nat} {tokens : List Token} {e : Error} {op : String} {o : Nat}
    (long : (Token.row tokens).length ≤ n) (inside : o ≤ (Token.row tokens).length)
    (offends : (Row.of tokens).Offends o) (grammar : e.fault = .grammar (.noOperand op))
    (blame : (Row.of tokens).Blame 0 (statements n n) 0 o e) : ∃ i, Blamed n tokens op e i o := by
  cases blame with
  | nothing found span => cases grammar
  | @operator c op' t operand behind start before here operates nearest reads misses outermost =>
    cases grammar
    have less : c < (Token.row tokens).length := Nat.lt_of_lt_of_le before inside
    rw [Row.of_token less] at here
    have next : (Row.of tokens).Offends (c + 1) ↔ o = c + 1 :=
      ⟨nearest, fun same => by rwa [← same]⟩
    have outermost (others : List Token) (long : (Token.row others).length ≤ n)
        (same : (Token.row others).take (c + 1) = (Token.row tokens).take (c + 1))
        (misses : (Row.of others).Misses operand (c + 1)) :
        program others = .error ⟨.grammar (.noOperand op), t.span⟩ := by
      obtain ⟨s, run⟩ := outermost _ (Row.of_shares less same) misses
      exact program_of_run long run
    have row : Token.row ((Token.row tokens).take (c + 1)) = (Token.row tokens).take (c + 1) :=
      Token.row_of_sublist (List.take_sublist _ _)
    refine ⟨c, ⟨⟨t, here, operates, rfl⟩, before, inside, (Row.of_offends_iff inside).1 offends,
      (Row.of_offends_iff less).symm.trans next, ⟨operand, reads, misses, outermost⟩, ?_⟩⟩
    refine outermost _ ?_ ?_ (misses_take reads less)
    · rw [row]
      exact Nat.le_trans (List.length_take_le' _ _) long
    · rw [row, List.take_take, Nat.min_self]

/-- A parse that fails with the message about a missing operand stops at a token where no expression
begins. It blames the outermost of the operators whose operand is open there, be it the one right
before that token or not. -/
theorem program_blames {n : Nat} {tokens : List Token} {e : Error} {op : String}
    (failed : program tokens = .error e)
    (told : e.message = s!"Expected expression after '{op}'")
    (long : (Token.row tokens).length ≤ n) :
    ∃ i o looks, Blamed n tokens op e i o ∧
      Walk (Row.of tokens) (statements n n) 0 looks (.error e)
        (min (o + 1) (Token.row tokens).length) := by
  obtain ⟨looks, j, walk⟩ := program_walk tokens long long
  rw [failed] at walk
  obtain ⟨f, grammar⟩ := walk.fault e rfl
  obtain rfl : f = .noOperand op := by
    refine ParseFault.noOperand_of_message ?_
    rwa [Error.message, grammar] at told
  have run := walk.runs (Nat.zero_le _)
  have stops := (walk.stays_inside (Nat.zero_le _)).2.1
  have short : (Row.of tokens).Short n 0 := Nat.le_trans long (Nat.le_add_left n 0)
  obtain ⟨b, k, ⟨_, walk'⟩, -⟩ | ⟨e', s, run', explain⟩ :=
    statements_blames (r := Row.of tokens) n n 0 (Nat.zero_le _) short
  · cases (walk.unique walk' (Nat.zero_le _)).1
  obtain ⟨rfl, rfl⟩ : e' = e ∧ s = (Row.of tokens).stream j := by
    simpa [outcome] using run'.symm.trans run
  obtain ⟨o, -, inside, offends, stopped, blame⟩ := explain ⟨_, grammar, rfl⟩
  obtain rfl := Row.stream_advance_min inside stops stopped
  obtain ⟨i, blamed⟩ := blamed_of_blame long inside offends grammar blame
  exact ⟨i, o, looks, blamed, walk⟩

/-- The tokens of a sum that ends in an operator of a product. -/
def openSum : List Token :=
  [⟨.name, "x", ⟨0, 1, 1, 1⟩⟩, ⟨.operator, "=", ⟨2, 3, 1, 3⟩⟩, ⟨.name, "a", ⟨4, 5, 1, 5⟩⟩,
    ⟨.operator, "+", ⟨6, 7, 1, 7⟩⟩, ⟨.name, "b", ⟨8, 9, 1, 9⟩⟩, ⟨.operator, "*", ⟨10, 11, 1, 11⟩⟩,
    ⟨.eof, "", ⟨11, 11, 1, 12⟩⟩]

def openSumError : Error :=
  ⟨.grammar (.noOperand "+"), ⟨6, 7, 1, 7⟩⟩

theorem openSum_fails : program openSum = .error openSumError := by cbv

theorem openSum_blames : program openSum = .error openSumError ∧
    openSumError.message = "Expected expression after '+'" ∧
    (Token.row openSum).length ≤ 10 ∧
    ∃ i o looks, Blamed 10 openSum "+" openSumError i o ∧
      Walk (Row.of openSum) (statements 10 10) 0 looks (.error openSumError)
        (min (o + 1) (Token.row openSum).length) := by
  have told : openSumError.message = "Expected expression after '+'" := rfl
  have long : (Token.row openSum).length ≤ 10 := by decide
  exact ⟨openSum_fails, told, long, program_blames openSum_fails told long⟩

/-- The sum is blamed, and a name comes next to its operator. The operator that the end of the input
comes next to is the other one. -/
theorem openSum_misses : Token.scan "x = a + b *" = .ok openSum ∧
    program openSum = .error openSumError ∧
    openSumError.message = "Expected expression after '+'" ∧
    ¬ ∃ i t, (Token.row openSum)[i]? = some t ∧ t.Operates "+" ∧ t.span = openSumError.span ∧
      ∀ u, (Token.row openSum)[i + 1]? = some u → ¬ u.Begins := by
  refine ⟨by cbv, openSum_fails, rfl, ?_⟩
  rintro ⟨i, t, here, operates, -, next⟩
  have place : i = 3 := by
    have spelt := operates.2
    rcases i with - | - | - | - | - | - | i <;> cases here <;>
      first | rfl | exact absurd spelt (by decide)
  subst place
  exact next ⟨.name, "b", ⟨8, 9, 1, 9⟩⟩ rfl (.inr (.inr (.inl rfl)))

end Parser

end Script
