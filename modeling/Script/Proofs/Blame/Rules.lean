import Script.Proofs.Walk.Steps

/-! Errors for a missing expression. Such an error names a token where no expression begins, or the
outermost of the operators whose operand is open there: an operator is blamed for whatever its operand
lacks, however deep, unless it stands in the operand of another one. -/

namespace Script

/-- An expression was due and none began. -/
def Error.Lacks (e : Error) : Prop :=
  ∃ f, e.fault = .grammar f ∧ f.lacksExpression = true

/-- An operator spelt `op`. The word `in` is one. -/
def Token.Operates (t : Token) (op : String) : Prop :=
  (t.kind = .operator ∨ t.Is .keyword "in") ∧ t.text = op

theorem Token.Is.operates {t : Token} {op : String} (h : t.Is .operator op) : t.Operates op :=
  ⟨.inl h.1, h.2⟩

theorem Token.Begins.proper {t : Token} (begins : t.Begins) : t.kind ≠ .eof := by
  intro ended
  simp [Token.Begins, Token.Is, ended] at begins

namespace Walk

variable {r r' : Row} {α : Type} {p : Parser α} {i j : Nat} {looks : List Nat} {res : Except Error α}

/-- A walk goes the same way in every row with the tokens that it looks at. -/
theorem elsewhere (walk : Walk r p i looks res j)
    (same : ∀ k ∈ looks, r'.tokens[k]? = r.tokens[k]?) : Walk r' p i looks res j := by
  induction walk with
  | done a => exact .done a
  | fail f span => exact .fail f span
  | peek here => exact .peek ((same _ (List.mem_singleton_self _)).trans here)
  | atEnd here => exact .atEnd ((same _ (List.mem_singleton_self _)).trans here)
  | last took here => exact .last took ((same _ (List.mem_singleton_self _)).trans here)
  | takes here more => exact .takes ((same _ (List.mem_singleton_self _)).trans here) more
  | stays here ended => exact .stays ((same _ (List.mem_singleton_self _)).trans here) ended
  | bind _ _ first next =>
    obtain ⟨seen, seen'⟩ := List.forall_mem_append.1 same
    exact .bind (first seen) (next seen')
  | stop _ ih => exact .stop (ih same)
  | blame symbol place _ ih => exact .blame symbol place (ih same)

/-- A walk looks no further than the token next to its end. -/
theorem looks_le (walk : Walk r p i looks res j) (inside : i ≤ r.first) : ∀ k ∈ looks, k ≤ j := by
  induction walk with
  | done | fail => exact nofun
  | peek | atEnd | stays => simp
  | last | takes => simp
  | bind first next ih ih' =>
    obtain ⟨-, inside', -⟩ := first.stays_inside inside
    have forward := (next.stays_inside inside').1
    exact List.forall_mem_append.2
      ⟨fun k seen => Nat.le_trans (ih inside k seen) forward, ih' inside'⟩
  | stop _ ih => exact ih inside
  | blame _ _ _ ih => exact ih inside

end Walk

open Parser

/-! The parsers of operands. Nested expressions have the bound `n`. -/

namespace Parser

def signed (n : Nat) : Parser Expr := negation (chain (n + 1) (expression n)) (n + 1)

def powers (n : Nat) : Parser Expr := power (signed n) (n + 1)

def products (n : Nat) : Parser Expr := level (n + 1) [.mul, .div, .rem, .floorDiv] (powers n)

def sums (n : Nat) : Parser Expr := level (n + 1) [.add, .sub] (products n)

def orders (n : Nat) : Parser Expr := level (n + 1) [.gt, .lt, .ge, .le] (sums n)

def equalities (n : Nat) : Parser Expr := level (n + 1) [.eq, .ne] (orders n)

theorem expression_succ (n : Nat) : expression (n + 1) =
    logicLevel (n + 1) .or (logicLevel (n + 1) .and (level (n + 1) [.mem] (equalities n))) :=
  rfl

/-- What reads the operand behind an operator of that spelling: the level that binds tighter. -/
inductive Operand : String → Parser Expr → Prop
  | negation (n k : Nat) : Operand "-" (negation (chain (n + 1) (expression n)) k)
  | pow (n k : Nat) : Operand BinOp.pow.symbol (power (signed n) k)
  | mul (n : Nat) : ∀ op ∈ [BinOp.mul, .div, .rem, .floorDiv], Operand op.symbol (powers n)
  | add (n : Nat) : ∀ op ∈ [BinOp.add, .sub], Operand op.symbol (products n)
  | lt (n : Nat) : ∀ op ∈ [BinOp.gt, .lt, .ge, .le], Operand op.symbol (sums n)
  | eq (n : Nat) : ∀ op ∈ [BinOp.eq, .ne], Operand op.symbol (orders n)
  | mem (n : Nat) : ∀ op ∈ [BinOp.mem], Operand op.symbol (equalities n)

end Parser

namespace Row

variable {r r' : Row} {α β : Type} {p : Parser α} {f : α → Parser β} {P P' : Nat → Prop}
  {Q Q' : α → Nat → Prop} {R : β → Nat → Prop} {S : Nat → Prop} {back near i j k n o : Nat}
  {e : Error} {kind : Token.Kind} {text symbol : String}

/-- No expression begins at place `o`. -/
def Offends (r : Row) (o : Nat) : Prop :=
  ∀ t, r.tokens[o]? = some t → ¬ t.Begins

theorem first_offends (r : Row) : r.Offends r.first := by
  intro t here begins
  exact begins.proper ((ended_iff (Nat.le_refl _) here).2 rfl)

/-- What `p` reads from place `i` on lacks an expression. -/
def Misses (r : Row) (p : Parser α) (i : Nat) : Prop :=
  ∃ e s, p (r.stream i) = .error e s ∧ e.Lacks

/-- `r'` has the tokens of `r` up to the one at place `c`. -/
structure Shares (r r' : Row) (c : Nat) : Prop where
  inside : c < r'.first
  same : ∀ k ≤ c, r'.tokens[k]? = r.tokens[k]?

/-- What the error for a missing expression at place `o` tells, if `p` meets it from place `i` on. The
operator that it blames stands at `i` or later, or as many as `back` tokens before: `back` is 1 for
what comes right behind an operator. Its operand is the one that lacks the expression, and wherever it
lacks one this operator is blamed. -/
inductive Blame (r : Row) (back : Nat) (p : Parser α) (i o : Nat) : Error → Prop
  | nothing (found : Option String) (span : Span) :
      Blame r back p i o ⟨.grammar (.noExpression found), span⟩
  | operator {c : Nat} {op : String} {t : Token} {operand : Parser Expr} (behind : i ≤ c + back)
      (start : i ≤ c + 1) (before : c < o) (here : r.tokens[c]? = some t) (operates : t.Operates op)
      (nearest : r.Offends (c + 1) → o = c + 1) (reads : Operand op operand)
      (misses : r.Misses operand (c + 1))
      (outermost : ∀ r', r.Shares r' c → r'.Misses operand (c + 1) →
        ∃ s, p (r'.stream i) = .error ⟨.grammar (.noOperand op), t.span⟩ s) :
      Blame r back p i o ⟨.grammar (.noOperand op), t.span⟩

theorem Blame.stop (blame : r.Blame back p i o e) (f : α → Parser β) :
    r.Blame back (p >>= f) i o e := by
  cases blame with
  | nothing found span => exact .nothing found span
  | operator behind start before here operates nearest reads misses outermost =>
    refine .operator behind start before here operates nearest reads misses fun r' shares other => ?_
    obtain ⟨s, run⟩ := outermost r' shares other
    exact ⟨s, bind_of_error run⟩

/-- What is met later has the walk up to there before it. That walk must not look at what stands
behind the operator. -/
theorem Blame.later {a : α} {looks : List Nat} (walk : Walk r p i looks (.ok a) j)
    (inside : i ≤ r.first) (seen : ∀ k ∈ looks, k + near ≤ j) (start : i + near ≤ j + back)
    (blame : r.Blame near (f a) j o e) : r.Blame back (p >>= f) i o e := by
  cases blame with
  | nothing found span => exact .nothing found span
  | @operator c op t operand behind start' before here operates nearest reads misses outermost =>
    have forward := (walk.stays_inside inside).1
    refine .operator (by omega) (by omega) before here operates nearest reads misses
      fun r' shares other => ?_
    have walk' : Walk r' p i looks (.ok a) j := walk.elsewhere fun k looked => by
      have := seen k looked
      exact shares.same k (by omega)
    have inside' : i ≤ r'.first := by
      have := shares.inside
      omega
    obtain ⟨s, run⟩ := outermost r' shares other
    exact ⟨s, (bind_of_ok (walk'.runs inside')).trans run⟩

/-- From place `i` the parser answers at a place with `Q`, or it fails. If an expression is missing
then none begins at the token that it stops at, and `Blame` is what the error tells. -/
def BlamesAt (r : Row) (back : Nat) (p : Parser α) (i : Nat) (Q : α → Nat → Prop) : Prop :=
  (∃ a j, r.Goes p i (.ok a) j ∧ Q a j) ∨
    ∃ e s, p (r.stream i) = .error e s ∧ (e.Lacks →
      ∃ o, i ≤ o ∧ o ≤ r.first ∧ r.Offends o ∧ s = (r.stream o).advance ∧ r.Blame back p i o e)

theorem BlamesAt.later {a : α} {looks : List Nat} (walk : Walk r p i looks (.ok a) j)
    (inside : i ≤ r.first) (seen : ∀ k ∈ looks, k + near ≤ j) (start : i + near ≤ j + back)
    (next : r.BlamesAt near (f a) j R) : r.BlamesAt back (p >>= f) i R := by
  obtain ⟨b, k, goes, good⟩ | ⟨e, s, run, explain⟩ := next
  · exact .inl ⟨b, k, Goes.bind ⟨looks, walk⟩ goes, good⟩
  · refine .inr ⟨e, s, (bind_of_ok (walk.runs inside)).trans run, fun lacks => ?_⟩
    obtain ⟨o, behind, inside', offends, stopped, blame⟩ := explain lacks
    have forward := (walk.stays_inside inside).1
    exact ⟨o, Nat.le_trans forward behind, inside', offends, stopped,
      blame.later walk inside seen start⟩

theorem BlamesAt.onward {a : α} (first : r.Goes p i (.ok a) j) (inside : i ≤ r.first)
    (next : r.BlamesAt 0 (f a) j R) : r.BlamesAt back (p >>= f) i R := by
  obtain ⟨looks, walk⟩ := first
  have forward := (walk.stays_inside inside).1
  exact .later walk inside (walk.looks_le inside)
    (Nat.le_trans forward (Nat.le_add_right j back)) next

def Blames (r : Row) (back : Nat) (P : Nat → Prop) (p : Parser α) (Q : α → Nat → Prop) : Prop :=
  ∀ i ≤ r.first, P i → r.BlamesAt back p i Q

namespace Blames

theorem of_goes (goes : ∀ i ≤ r.first, P i → ∃ a j, r.Goes p i (.ok a) j ∧ Q a j) :
    r.Blames back P p Q :=
  fun i inside here => .inl (goes i inside here)

theorem done {a : α} (same : ∀ i, P i → Q a i) : r.Blames back P (pure a) Q :=
  of_goes fun i _ here => ⟨a, i, .done a, same i here⟩

/-- Failing for another reason. -/
theorem fail {f : ParseFault} {span : Span} (calm : f.lacksExpression = false) :
    r.Blames back P (Parser.fail f span) Q := by
  refine fun i _ _ => .inr ⟨_, _, rfl, ?_⟩
  rintro ⟨g, same, lacks⟩
  cases same
  rw [calm] at lacks
  cases lacks

theorem bind (first : r.Blames back P p Q) (next : ∀ a, r.Blames 0 (Q a) (f a) R) :
    r.Blames back P (p >>= f) R := by
  intro i inside here
  obtain ⟨a, j, ⟨looks, walk⟩, good⟩ | ⟨e, s, run, explain⟩ := first i inside here
  · have inside' := (walk.stays_inside inside).2.1
    exact .onward ⟨looks, walk⟩ inside (next a j inside' good)
  · refine .inr ⟨e, s, bind_of_error run, fun lacks => ?_⟩
    obtain ⟨o, behind, inside', offends, stopped, blame⟩ := explain lacks
    exact ⟨o, behind, inside', offends, stopped, blame.stop f⟩

theorem weaken (h : r.Blames back P p Q) (before : ∀ i, P' i → P i)
    (after : ∀ a i, Q a i → Q' a i) : r.Blames back P' p Q' := by
  intro i inside here
  obtain ⟨a, j, goes, good⟩ | failed := h i inside (before i here)
  · exact .inl ⟨a, j, goes, after a j good⟩
  · exact .inr failed

/-- Nothing is put back. -/
theorem within (h : r.Blames back P p Q) (before : ∀ i, P' i → P i ∧ r.Left k i) :
    r.Blames back P' p fun _ => r.Left k := by
  intro i inside here
  obtain ⟨here', took, short⟩ := before i here
  obtain ⟨a, j, ⟨looks, walk⟩, -⟩ | failed := h i inside here'
  · have forward := (walk.stays_inside inside).1
    exact .inl ⟨a, j, ⟨looks, walk⟩, by omega, by omega⟩
  · exact .inr failed

theorem ite {c : Prop} [Decidable c] {q : Parser α} (yes : c → r.Blames back P p Q)
    (no : ¬ c → r.Blames back P q Q) : r.Blames back P (if c then p else q) Q := by
  by_cases holds : c
  · rw [if_pos holds]
    exact yes holds
  · rw [if_neg holds]
    exact no holds

theorem peek : r.Blames back P Parser.peek fun t i => P i ∧ r.tokens[i]? = some t :=
  of_goes fun i inside here =>
    have ⟨t, token⟩ := r.exists_token inside
    ⟨t, i, ⟨_, .peek token⟩, here, token⟩

theorem atEnd : r.Blames back P Parser.atEnd fun ended i => P i ∧ (ended = false → i < r.first) := by
  refine of_goes fun i inside here => ?_
  obtain ⟨t, token⟩ := r.exists_token inside
  refine ⟨_, i, ⟨_, .atEnd token⟩, here, fun more => ?_⟩
  exact lt_first inside token (of_decide_eq_false more)

/-- Taking the next token where there is one. -/
theorem step (goes : ∀ i, i < r.first → P i → S (i + 1)) :
    r.Blames back (fun i => P i ∧ i < r.first) (modify Stream.advance) fun _ => S :=
  of_goes fun i inside here =>
    have ⟨_, token⟩ := r.exists_token inside
    ⟨(), i + 1, ⟨_, .takes token (proper_of_lt here.2 token)⟩, goes i here.2 here.1⟩

end Blames

/-! Parsers that leave no more tokens than they find. -/

/-- Where a token is taken and at most `k` are left, `p` goes on, or fails as in `Blames`. -/
def Keeps (r : Row) (k : Nat) (p : Parser α) : Prop :=
  r.Blames 0 (r.Left k) p fun _ => r.Left k

namespace Keeps

theorem done (a : α) : r.Keeps k (pure a : Parser α) := Blames.done fun _ => id

theorem fail {f : ParseFault} (span : Span) (calm : f.lacksExpression = false) :
    r.Keeps k (Parser.fail f span : Parser α) :=
  Blames.fail calm

theorem bind (first : r.Keeps k p) (next : ∀ a, r.Keeps k (f a)) : r.Keeps k (p >>= f) :=
  Blames.bind first next

theorem ite {c : Prop} [Decidable c] {q : Parser α} (yes : c → r.Keeps k p)
    (no : ¬ c → r.Keeps k q) : r.Keeps k (if c then p else q) :=
  Blames.ite yes no

theorem mono (h : r.Keeps k p) (le : j ≤ k) : r.Keeps j p :=
  h.within fun _ left => ⟨left.mono le, left⟩

theorem left (h : r.Keeps k p) (before : ∀ i, P i → r.Left k i)
    (after : ∀ i, r.Left k i → S i) : r.Blames 0 P p fun _ => S :=
  h.weaken before fun _ => after

theorem peek : r.Keeps k Parser.peek := Blames.peek.weaken (fun _ => id) fun _ _ => And.left

theorem atEnd : r.Keeps k Parser.atEnd := Blames.atEnd.weaken (fun _ => id) fun _ _ => And.left

theorem last : r.Keeps k Parser.last :=
  Blames.of_goes fun i inside here =>
    have ⟨t, token⟩ := r.exists_token (Nat.le_trans (Nat.sub_le i 1) inside)
    ⟨t, i, ⟨_, .last here.1 token⟩, here⟩

theorem since (start : Span) : r.Keeps k (Parser.since start) := last.bind fun _ => done _

theorem sees : r.Keeps k (Parser.sees kind text) := peek.bind fun _ => done _

theorem seesKeyword {words : List String} : r.Keeps k (Parser.seesKeyword words) :=
  peek.bind fun _ => done _

/-- Taking the next token if there is one. -/
theorem step : r.Keeps k (modify Stream.advance) := by
  refine Blames.of_goes fun i inside left => ?_
  obtain ⟨t, token⟩ := r.exists_token inside
  by_cases ended : t.kind = .eof
  · exact ⟨(), i, ⟨_, .stays token ended⟩, left⟩
  · exact ⟨(), i + 1, ⟨_, .takes token ended⟩, Settles.taken i left⟩

theorem advance : r.Keeps k Parser.advance := step.bind fun _ => last

theorem eat : r.Keeps k (Parser.eat kind text) :=
  sees.bind fun _ => ite (fun _ => step.bind fun _ => done _) fun _ => done _

theorem refuse {what : Wanted} : r.Keeps k (Parser.refuse what : Parser α) :=
  peek.bind fun _ => atEnd.bind fun _ => fail _ rfl

theorem expect {what : Wanted} : r.Keeps k (Parser.expect kind text what) :=
  eat.bind fun _ => ite (fun _ => refuse) fun _ => done _

theorem delimiter (text : String) (what : Wanted) : r.Keeps k (Parser.delimiter text what) := expect

theorem keyword (text : String) (what : Wanted) : r.Keeps k (Parser.keyword text what) := expect

theorem expectKind {what : Wanted} : r.Keeps k (Parser.expectKind kind what) :=
  peek.bind fun _ => ite (fun _ => advance.bind fun _ => done _) fun _ => refuse

theorem name (what : Wanted) : r.Keeps k (Parser.name what) := expectKind

theorem listed {item : List α → Parser α} (each : ∀ seen, r.Keeps k (item seen)) (n : Nat)
    (seen : List α) : r.Keeps k (Parser.listed item n seen) := by
  induction n generalizing seen with
  | zero => exact (each seen).bind fun _ => done _
  | succ n ih =>
    refine (each seen).bind fun x => eat.bind fun _ => ite (fun _ => ?_) fun _ => done _
    exact (ih (x :: seen)).bind fun _ => done _

theorem listedUntil {item : List α → Parser α} (each : ∀ seen, r.Keeps k (item seen))
    (close : String) (n : Nat) : r.Keeps k (Parser.listedUntil close n item) :=
  sees.bind fun _ => ite (fun _ => done _) fun _ => listed each n []

end Keeps

/-! Operators and their operands. -/

/-- Right behind an operator spelt `symbol`, with at most `k` tokens left. -/
def Behind (r : Row) (symbol : String) (k i : Nat) : Prop :=
  r.Left k i ∧ ∃ c t, i = c + 1 ∧ r.tokens[c]? = some t ∧ t.Operates symbol

/-- Where no expression begins, `p` finds one missing at once. -/
def Needs (p : Parser α) : Prop :=
  ∀ (r : Row) (i : Nat), i ≤ r.first → r.Offends i →
    ∃ e : Error, e.Lacks ∧ p (r.stream i) = .error e (r.stream i).advance

namespace Needs

theorem bind (first : Needs p) (f : α → Parser β) : Needs (p >>= f) := by
  intro r i inside offends
  obtain ⟨e, lacks, run⟩ := first r i inside offends
  exact ⟨e, lacks, bind_of_error run⟩

/-- Looking for a minus sign, with which an expression could begin. -/
theorem eat {f : Bool → Parser α} (next : Needs (f false)) :
    Needs (Parser.eat .operator "-" >>= f) := by
  intro r i inside offends
  obtain ⟨t, token⟩ := r.exists_token inside
  have missing : ¬ t.Is .operator "-" := fun found =>
    offends t token (.inr (.inr (.inr (.inr (.inl found)))))
  obtain ⟨looks, walk⟩ := Goes.eat_no token missing
  obtain ⟨e, lacks, run⟩ := next r i inside offends
  exact ⟨e, lacks, (bind_of_ok (walk.runs inside)).trans run⟩

end Needs

theorem blame_of_lacks (place : Span) (lacks : e.Lacks) :
    operandAfter.blame symbol place e = ⟨.grammar (.noOperand symbol), place⟩ := by
  obtain ⟨f, grammar, lacking⟩ := lacks
  unfold operandAfter.blame
  rw [grammar]
  exact if_pos lacking

theorem lacks_of_blame {place : Span} (lacks : (operandAfter.blame symbol place e).Lacks) :
    e.Lacks := by
  unfold operandAfter.blame at lacks
  split at lacks
  · rename_i f grammar
    split at lacks
    · exact ⟨f, grammar, ‹_›⟩
    · exact lacks
  · exact lacks

/-- The operand of the operator just taken fails where `operand` fails, and its error blames that
operator. -/
theorem operandAfter_error {t : Token} {operand : Parser α} {s : Stream}
    (here : r.tokens[i]? = some t) (run : operand (r.stream (i + 1)) = .error e s) :
    operandAfter symbol operand (r.stream (i + 1)) =
      .error (operandAfter.blame symbol t.span e) s := by
  have last : Parser.last (r.stream (i + 1)) = .ok t (r.stream (i + 1)) :=
    congrArg (EStateM.Result.ok · _) (stream_last (Nat.succ_pos i) here)
  unfold operandAfter
  rw [bind_of_ok last]
  unfold EStateM.adaptExcept
  rw [run]

theorem Blames.operandAfter {operand : Parser Expr} (reads : Operand symbol operand)
    (needs : Needs operand) (h : r.Keeps k operand) :
    r.Blames 1 (r.Behind symbol k) (operandAfter symbol operand) fun _ => r.Left k := by
  rintro _ inside ⟨left, c, t, rfl, here, operates⟩
  obtain ⟨a, j, ⟨looks, walk⟩, good⟩ | ⟨e, s, run, explain⟩ := h (c + 1) inside left
  · exact .inl ⟨a, j, Goes.bind ⟨_, .last left.1 here⟩ ⟨_, walk.blame symbol t.span⟩, good⟩
  · refine .inr ⟨_, s, operandAfter_error here run, fun lacks => ?_⟩
    have lacks := lacks_of_blame lacks
    rw [blame_of_lacks t.span lacks]
    have outermost : ∀ r', r.Shares r' c → r'.Misses operand (c + 1) →
        ∃ s, Parser.operandAfter symbol operand (r'.stream (c + 1)) =
          .error ⟨.grammar (.noOperand symbol), t.span⟩ s := by
      rintro r' shares ⟨e', s, run', lacks'⟩
      refine ⟨s, ?_⟩
      rw [operandAfter_error ((shares.same c (Nat.le_refl c)).trans here) run',
        blame_of_lacks t.span lacks']
    have blamed (o : Nat) (before : c < o) (nearest : r.Offends (c + 1) → o = c + 1) :
        r.Blame 1 (Parser.operandAfter symbol operand) (c + 1) o
          ⟨.grammar (.noOperand symbol), t.span⟩ :=
      .operator (Nat.le_refl _) (Nat.le_refl _) before here operates nearest reads
        ⟨e, s, run, lacks⟩ outermost
    by_cases next : r.Offends (c + 1)
    · obtain ⟨e', -, run'⟩ := needs r (c + 1) inside next
      obtain ⟨-, rfl⟩ : e = e' ∧ s = _ := by simpa using run.symm.trans run'
      have blame := blamed (c + 1) (Nat.lt_succ_self c) fun _ => rfl
      exact ⟨c + 1, Nat.le_refl _, inside, next, rfl, blame⟩
    · obtain ⟨o, behind, inside', offends, stopped, -⟩ := explain lacks
      exact ⟨o, behind, inside', offends, stopped, blamed o behind fun other => absurd other next⟩

/-- The operator is taken, and what follows may blame it. -/
theorem Blames.stepOperator {f : Unit → Parser α}
    (next : r.Blames 1 (r.Behind symbol k) (f ()) Q) :
    r.Blames 0 (fun i => r.Left k i ∧ ∃ t, r.tokens[i]? = some t ∧ t.Operates symbol)
      (modify Stream.advance >>= f) Q := by
  rintro i inside ⟨left, t, token, operates⟩
  have proper : t.kind ≠ .eof := by
    rcases operates.1 with kind | word
    · exact kind ▸ nofun
    · exact word.1 ▸ nofun
  refine .later (.takes token proper) inside (by simp) (Nat.le_refl _) ?_
  exact next (i + 1) (lt_first inside token proper)
    ⟨Settles.taken i left, i, t, rfl, token, operates⟩

/-- The operator is taken if it comes. It takes one of the tokens left. -/
theorem Blames.eatOperator {f : Bool → Parser α}
    (yes : r.Blames 1 (r.Behind symbol (k - 1)) (f true) Q)
    (no : r.Blames 0 (fun i => r.Left k i ∧ ∀ t, r.tokens[i]? = some t → ¬ t.Is .operator symbol)
      (f false) Q) : r.Blames 0 (r.Left k) (Parser.eat .operator symbol >>= f) Q := by
  intro i inside left
  obtain ⟨t, token⟩ := r.exists_token inside
  by_cases found : t.Is .operator symbol
  · have proper : t.kind ≠ .eof := found.1 ▸ nofun
    have less := lt_first inside token proper
    have seen : Walk r (Parser.sees .operator symbol) i ([i] ++ []) (.ok true) i :=
      decide_eq_true found ▸ .bind (.peek token) (.done _)
    have eaten : Walk r (Parser.eat .operator symbol) i (([i] ++ []) ++ ([i] ++ [])) (.ok true)
        (i + 1) :=
      .bind seen (.bind (.takes token proper) (.done true))
    refine .later eaten inside (by simp) (Nat.le_refl _) ?_
    refine yes (i + 1) less ⟨⟨Nat.succ_pos i, ?_⟩, i, t, rfl, token, found.operates⟩
    have := left.2
    omega
  · refine .onward (Goes.eat_no token found) inside (no i inside ⟨left, ?_⟩)
    rintro u token' found'
    cases token.symm.trans token'
    exact found found'

/-- The place of the operator is noted. -/
theorem Blames.lastOperator {f : Token → Parser α}
    (next : ∀ t, r.Blames 1 (r.Behind symbol k) (f t) Q) :
    r.Blames 1 (r.Behind symbol k) (Parser.last >>= f) Q := by
  rintro _ inside ⟨left, c, t, rfl, here, operates⟩
  refine .later (.last left.1 here) inside (by simp) (Nat.le_refl _) ?_
  exact next t (c + 1) inside ⟨left, c, t, rfl, here, operates⟩

end Row

end Script
