import Script.Proofs.Reads

/-! The parsers as walks along the tokens that they hold. A walk takes its tokens out of the whole row
by their places, and there is no rule for a place outside it. -/

namespace Script

/-- The tokens that a parser holds: those before the first end token, that token, and any that stand
behind it. -/
structure Row where
  before : List Token
  stop : Token
  beyond : List Token
  proper : ∀ t ∈ before, t.kind ≠ .eof
  ends : stop.kind = .eof

namespace Row

def tokens (r : Row) : List Token :=
  r.before ++ r.stop :: r.beyond

/-- The place of the first end token. -/
def first (r : Row) : Nat :=
  r.before.length

/-- The row with the first `i` tokens taken. -/
def stream (r : Row) (i : Nat) : Stream :=
  ⟨if i = 0 then r.stop else (r.tokens[i - 1]?).getD r.stop, r.before.drop i, r.stop⟩

variable (r : Row) {i j k : Nat} {t : Token}

theorem first_lt : r.first < r.tokens.length := by
  simp only [first, tokens, List.length_append, List.length_cons]
  omega

theorem token_first : r.tokens[r.first]? = some r.stop := by
  simp [tokens, first]

theorem token_before (here : i < r.first) : r.tokens[i]? = r.before[i]? :=
  List.getElem?_append_left here

theorem exists_token (inside : i ≤ r.first) : ∃ t, r.tokens[i]? = some t :=
  ⟨_, List.getElem?_eq_getElem (Nat.lt_of_le_of_lt inside r.first_lt)⟩

variable {r}

/-- Up to the first end token, its place alone has a token of that kind. -/
theorem ended_iff (inside : i ≤ r.first) (here : r.tokens[i]? = some t) :
    t.kind = .eof ↔ i = r.first := by
  constructor
  · intro ended
    refine Nat.le_antisymm inside (Nat.le_of_not_lt fun less => ?_)
    rw [r.token_before less] at here
    exact r.proper t (List.mem_of_getElem? here) ended
  · rintro rfl
    obtain rfl : r.stop = t := Option.some.inj (r.token_first.symm.trans here)
    exact r.ends

theorem lt_first (inside : i ≤ r.first) (here : r.tokens[i]? = some t) (proper : t.kind ≠ .eof) :
    i < r.first :=
  Nat.lt_of_le_of_ne inside fun same => proper ((ended_iff inside here).2 same)

theorem proper_of_lt (less : i < r.first) (here : r.tokens[i]? = some t) : t.kind ≠ .eof :=
  fun ended => Nat.ne_of_lt less ((ended_iff (Nat.le_of_lt less) here).1 ended)

theorem stream_rest (i : Nat) : (r.stream i).rest = r.before.drop i := rfl

theorem stream_isEmpty (inside : i ≤ r.first) (here : r.tokens[i]? = some t) :
    (r.stream i).rest.isEmpty = decide (t.kind = .eof) := by
  rw [Bool.eq_iff_iff, decide_eq_true_eq, ended_iff inside here, stream_rest, List.isEmpty_iff,
    List.drop_eq_nil_iff]
  exact ⟨Nat.le_antisymm inside, fun same => same ▸ Nat.le_refl _⟩

theorem stream_next (inside : i ≤ r.first) (here : r.tokens[i]? = some t) :
    (r.stream i).next = t := by
  rw [Stream.next, stream_rest, List.head?_drop]
  rcases Nat.lt_or_eq_of_le inside with less | rfl
  · rw [← r.token_before less, here]
    rfl
  · rw [r.token_first] at here
    rw [first, List.getElem?_eq_none (Nat.le_refl _)]
    exact Option.some.inj here

theorem stream_last (took : 0 < i) (here : r.tokens[i - 1]? = some t) :
    (r.stream i).last = t := by
  simp only [stream, if_neg (Nat.ne_of_gt took), here, Option.getD_some]

theorem stream_advance (less : i < r.first) : (r.stream i).advance = r.stream (i + 1) := by
  have rest : r.before.drop i = r.before[i] :: r.before.drop (i + 1) := List.drop_eq_getElem_cons less
  have last : r.tokens[i]? = some r.before[i] := by
    rw [r.token_before less, List.getElem?_eq_getElem less]
  simp only [stream, Stream.advance, rest, Nat.add_sub_cancel, last, Option.getD_some]
  rfl

theorem stream_stays : (r.stream r.first).advance = r.stream r.first := by
  have rest : (r.stream r.first).rest = [] := List.drop_length
  rw [Stream.advance, rest]

end Row

/-- What a run answers where it ends at `s`. -/
def outcome {α : Type} : Except Error α → Stream → EStateM.Result Error Stream α
  | .ok a, s => .ok a s
  | .error e, s => .error e s

open Parser

/-- `p` starts at place `i` and ends at place `j` with an answer or an error, and takes the tokens at
`looks` out of the row on its way. The token at the current place is the next one; at an end token
the place stays. -/
inductive Walk (r : Row) :
    {α : Type} → Parser α → Nat → List Nat → Except Error α → Nat → Prop
  | done {α : Type} {i : Nat} (a : α) : Walk r (pure a) i [] (.ok a) i
  | fail {α : Type} {i : Nat} (f : ParseFault) (span : Span) :
      Walk r (Parser.fail f span : Parser α) i [] (.error ⟨.grammar f, span⟩) i
  | peek {i : Nat} {t : Token} (here : r.tokens[i]? = some t) :
      Walk r Parser.peek i [i] (.ok t) i
  | atEnd {i : Nat} {t : Token} (here : r.tokens[i]? = some t) :
      Walk r Parser.atEnd i [i] (.ok (decide (t.kind = .eof))) i
  | last {i : Nat} {t : Token} (took : 0 < i) (here : r.tokens[i - 1]? = some t) :
      Walk r Parser.last i [i - 1] (.ok t) i
  | takes {i : Nat} {t : Token} (here : r.tokens[i]? = some t) (more : t.kind ≠ .eof) :
      Walk r (modify Stream.advance) i [i] (.ok ()) (i + 1)
  | stays {i : Nat} {t : Token} (here : r.tokens[i]? = some t) (ended : t.kind = .eof) :
      Walk r (modify Stream.advance) i [i] (.ok ()) i
  | bind {α β : Type} {p : Parser α} {f : α → Parser β} {i j k : Nat} {looks looks' : List Nat}
      {a : α} {res : Except Error β} :
      Walk r p i looks (.ok a) j → Walk r (f a) j looks' res k →
        Walk r (p >>= f) i (looks ++ looks') res k
  | stop {α β : Type} {p : Parser α} {f : α → Parser β} {i j : Nat} {looks : List Nat} {e : Error} :
      Walk r p i looks (.error e) j → Walk r (p >>= f) i looks (.error e) j
  | blame {α : Type} {p : Parser α} {i j : Nat} {looks : List Nat} {res : Except Error α}
      (symbol : String) (place : Span) :
      Walk r p i looks res j →
        Walk r (EStateM.adaptExcept (operandAfter.blame symbol place) p) i looks
          (res.mapError (operandAfter.blame symbol place)) j

namespace Walk

variable {r : Row} {α β : Type} {p : Parser α} {i j : Nat} {looks : List Nat}
  {res : Except Error α}

/-- A walk goes forward, and neither it nor what it looks at gets behind the first end token. -/
theorem stays_inside (walk : Walk r p i looks res j) (inside : i ≤ r.first) :
    i ≤ j ∧ j ≤ r.first ∧ ∀ k ∈ looks, k ≤ r.first := by
  induction walk with
  | done | fail => exact ⟨Nat.le_refl _, inside, by simp⟩
  | peek | atEnd | stays => exact ⟨Nat.le_refl _, inside, by simpa using inside⟩
  | last => exact ⟨Nat.le_refl _, inside, by simp only [List.mem_singleton]; omega⟩
  | @takes i t here more =>
    exact ⟨Nat.le_succ _, Row.lt_first inside here more, by simpa using inside⟩
  | bind _ _ first next =>
    obtain ⟨le, inside, seen⟩ := first inside
    obtain ⟨le', inside', seen'⟩ := next inside
    exact ⟨Nat.le_trans le le', inside', List.forall_mem_append.2 ⟨seen, seen'⟩⟩
  | stop _ ih => exact ih inside
  | blame _ _ _ ih => exact ih inside

/-- A walk is a run of the parser. -/
theorem runs (walk : Walk r p i looks res j) (inside : i ≤ r.first) :
    p (r.stream i) = outcome res (r.stream j) := by
  induction walk with
  | done | fail => rfl
  | peek here => exact congrArg (EStateM.Result.ok · _) (Row.stream_next inside here)
  | atEnd here => exact congrArg (EStateM.Result.ok · _) (Row.stream_isEmpty inside here)
  | last took here => exact congrArg (EStateM.Result.ok · _) (Row.stream_last took here)
  | takes here more =>
    exact congrArg (EStateM.Result.ok ()) (Row.stream_advance (Row.lt_first inside here more))
  | stays here ended =>
    obtain rfl := (Row.ended_iff inside here).1 ended
    exact congrArg (EStateM.Result.ok ()) Row.stream_stays
  | bind walk _ first next =>
    rw [bind_of_ok (first inside)]
    exact next (walk.stays_inside inside).2.1
  | @stop α β p f i j looks e _ ih =>
    change EStateM.bind p f (r.stream i) = _
    simp only [EStateM.bind, ih inside, outcome]
  | @blame α p i j looks res symbol place _ ih =>
    unfold EStateM.adaptExcept
    rw [ih inside]
    cases res with
    | ok a => rfl
    | error e => rfl

/-- Every error of a parser is one of the grammar. -/
theorem fault (walk : Walk r p i looks res j) :
    ∀ e, res = .error e → ∃ f, e.fault = .grammar f := by
  induction walk with
  | done | peek | atEnd | last | takes | stays => exact nofun
  | fail f span =>
    rintro e ⟨⟩
    exact ⟨f, rfl⟩
  | bind _ _ _ next => exact next
  | stop _ ih =>
    rintro _ ⟨⟩
    exact ih _ rfl
  | @blame α p i j looks res symbol place _ ih =>
    cases res with
    | ok a => exact nofun
    | error e =>
      obtain ⟨f, grammar⟩ := ih e rfl
      rintro _ ⟨⟩
      unfold operandAfter.blame
      rw [grammar]
      dsimp only
      split
      · exact ⟨_, rfl⟩
      · exact ⟨f, grammar⟩

end Walk

namespace Row

variable {r : Row} {α β : Type} {p q : Parser α} {P P' Q Q' R : Nat → Prop} {i j k n m : Nat}
  {res : Except Error α} {kind : Token.Kind} {text : String}

/-- There is a walk. -/
def Goes (r : Row) (p : Parser α) (i : Nat) (res : Except Error α) (j : Nat) : Prop :=
  ∃ looks, Walk r p i looks res j

namespace Goes

theorem done (a : α) : r.Goes (pure a) i (.ok a) i := ⟨_, .done a⟩

theorem bind {f : α → Parser β} {a : α} {res : Except Error β} (first : r.Goes p i (.ok a) j)
    (next : r.Goes (f a) j res k) : r.Goes (p >>= f) i res k := by
  obtain ⟨_, walk⟩ := first
  obtain ⟨_, walk'⟩ := next
  exact ⟨_, .bind walk walk'⟩

/-- Two parsers that start with the same answer and go on alike. -/
theorem onward {f g : α → Parser β} {a : α} (first : r.Goes p i (.ok a) j)
    (first' : r.Goes q i (.ok a) j)
    (next : ∃ res k, r.Goes (f a) j res k ∧ r.Goes (g a) j res k ∧ ∀ b, res = .ok b → Q k) :
    ∃ res k, r.Goes (p >>= f) i res k ∧ r.Goes (q >>= g) i res k ∧ ∀ b, res = .ok b → Q k := by
  obtain ⟨res, k, goes, goes', good⟩ := next
  exact ⟨res, k, first.bind goes, first'.bind goes', good⟩

theorem stop {f : α → Parser β} {e : Error} (first : r.Goes p i (.error e) j) :
    r.Goes (p >>= f) i (.error e) j := by
  obtain ⟨_, walk⟩ := first
  exact ⟨_, .stop walk⟩

theorem ended (r : Row) : r.Goes Parser.atEnd r.first (.ok true) r.first :=
  ⟨_, decide_eq_true r.ends ▸ Walk.atEnd r.token_first⟩

/-- Looking at the next token and no further. -/
theorem look {t : Token} (here : r.tokens[i]? = some t) (view : Token → α) :
    r.Goes (Parser.peek >>= fun t => pure (view t)) i (.ok (view t)) i :=
  .bind ⟨_, .peek here⟩ (.done _)

theorem sees {t : Token} (here : r.tokens[i]? = some t) :
    r.Goes (Parser.sees kind text) i (.ok (decide (t.Is kind text))) i :=
  look here _

theorem eat_yes {t : Token} (here : r.tokens[i]? = some t) (found : t.Is kind text)
    (proper : kind ≠ .eof) : r.Goes (Parser.eat kind text) i (.ok true) (i + 1) := by
  have seen : r.Goes (Parser.sees kind text) i (.ok true) i :=
    decide_eq_true found ▸ sees here
  have taken : r.Goes (modify Stream.advance) i (.ok ()) (i + 1) :=
    ⟨_, .takes here (found.1 ▸ proper)⟩
  exact seen.bind (taken.bind (.done true))

theorem eat_no {t : Token} (here : r.tokens[i]? = some t) (missing : ¬ t.Is kind text) :
    r.Goes (Parser.eat kind text) i (.ok false) i := by
  have seen : r.Goes (Parser.sees kind text) i (.ok false) i :=
    decide_eq_false missing ▸ sees here
  exact seen.bind (.done false)

theorem since (took : 0 < i) (inside : i ≤ r.first) (start : Span) :
    ∃ span, r.Goes (Parser.since start) i (.ok span) i := by
  obtain ⟨t, here⟩ := r.exists_token (Nat.le_trans (Nat.sub_le i 1) inside)
  exact ⟨start.through t.span, .bind ⟨_, .last took here⟩ (.done _)⟩

theorem refuse {t : Token} (here : r.tokens[i]? = some t) (what : Wanted) :
    r.Goes (Parser.refuse what : Parser α) i (.error ⟨.grammar (.wanted what
      (if t.kind = .eof then none else some t.text)), t.span⟩) i := by
  refine .bind ⟨_, .peek here⟩ (.bind ⟨_, .atEnd here⟩ ?_)
  simp only [decide_eq_true_eq]
  exact ⟨_, .fail _ _⟩

end Goes

/-- From a place with `P`, both parsers walk to the same place with the same answer or error. A place
where they answer has `Q`. -/
def Settles (r : Row) (P : Nat → Prop) (p q : Parser α) (Q : Nat → Prop) : Prop :=
  ∀ i ≤ r.first, P i → ∃ res j, r.Goes p i res j ∧ r.Goes q i res j ∧ ∀ a, res = .ok a → Q j

/-- At the end of the row `p` does what `q` does. -/
def Defers (r : Row) (p q : Parser α) : Prop :=
  ∀ res, r.Goes q r.first res r.first → r.Goes p r.first res r.first

/-- A token is taken, and at most `k` are left. -/
def Left (r : Row) (k i : Nat) : Prop :=
  0 < i ∧ r.first ≤ i + k

/-- A token is taken, and some are left, at most `k`. -/
def Going (r : Row) (k i : Nat) : Prop :=
  r.Left k i ∧ i < r.first

theorem Left.mono (left : r.Left j i) (le : j ≤ k) : r.Left k i :=
  ⟨left.1, Nat.le_trans left.2 (Nat.add_le_add_left le i)⟩

theorem Left.step (left : r.Left (k + 1) i) : r.Left k (i + 1) :=
  ⟨Nat.succ_pos i, by have := left.2; omega⟩

/-- Two bounds that are enough for `k` tokens. -/
structure Enough (k n m : Nat) : Prop where
  one : k ≤ n
  other : k ≤ m

theorem Enough.mono (enough : Enough k n m) (le : j ≤ k) : Enough j n m :=
  ⟨Nat.le_trans le enough.one, Nat.le_trans le enough.other⟩

/-- What takes a token takes one from each bound. -/
theorem Enough.succ (enough : Enough (k + 1) n m) :
    ∃ n' m', n = n' + 1 ∧ m = m' + 1 ∧ Enough k n' m' := by
  have := enough.one
  have := enough.other
  exact ⟨n - 1, m - 1, by omega, by omega, by omega, by omega⟩

namespace Settles

theorem done {a : α} (same : ∀ i, P i → Q i) : r.Settles P (pure a) (pure a) Q :=
  fun i _ here => ⟨.ok a, i, .done a, .done a, fun _ _ => same i here⟩

theorem fail {f : ParseFault} {span : Span} :
    r.Settles P (Parser.fail f span : Parser α) (Parser.fail f span) Q :=
  fun i _ _ => ⟨_, i, ⟨_, .fail f span⟩, ⟨_, .fail f span⟩, nofun⟩

theorem bind {f g : α → Parser β} (first : r.Settles P p q R)
    (next : ∀ a, r.Settles R (f a) (g a) Q) : r.Settles P (p >>= f) (q >>= g) Q := by
  intro i inside here
  obtain ⟨res, j, goes, goes', good⟩ := first i inside here
  cases res with
  | error e => exact ⟨.error e, j, goes.stop, goes'.stop, nofun⟩
  | ok a =>
    obtain ⟨_, walk⟩ := goes
    have inside' := (walk.stays_inside inside).2.1
    exact Goes.onward ⟨_, walk⟩ goes' (next a j inside' (good a rfl))

theorem weaken (h : r.Settles P p q Q) (before : ∀ i, P' i → P i) (after : ∀ i, Q i → Q' i) :
    r.Settles P' p q Q' := by
  intro i inside here
  obtain ⟨res, j, goes, goes', good⟩ := h i inside (before i here)
  exact ⟨res, j, goes, goes', fun a answer => after j (good a answer)⟩

/-- Nothing is put back. -/
theorem within (h : r.Settles P p q Q) (before : ∀ i, P' i → P i ∧ r.Left k i) :
    r.Settles P' p q (r.Left k) := by
  intro i inside here
  obtain ⟨here', took, short⟩ := before i here
  obtain ⟨res, j, goes, goes', -⟩ := h i inside here'
  obtain ⟨_, walk⟩ := goes
  have forward := (walk.stays_inside inside).1
  exact ⟨res, j, ⟨_, walk⟩, goes', fun _ _ => ⟨by omega, by omega⟩⟩

/-- The end of the row apart from the places before it. -/
theorem split (ended : r.Settles (fun i => P i ∧ i = r.first) p q Q)
    (going : r.Settles (fun i => P i ∧ i < r.first) p q Q) : r.Settles P p q Q := by
  intro i inside here
  rcases Nat.lt_or_eq_of_le inside with less | last
  · exact going i inside ⟨here, less⟩
  · exact ended i inside ⟨here, last⟩

theorem ite {c : Prop} [Decidable c] {p' q' : Parser α} (yes : c → r.Settles P p q Q)
    (no : ¬ c → r.Settles P p' q' Q) :
    r.Settles P (if c then p else p') (if c then q else q') Q := by
  by_cases holds : c
  · simpa only [if_pos holds] using yes holds
  · simpa only [if_neg holds] using no holds

/-- Looking at the next token. -/
theorem peek {f g : Token → Parser α}
    (next : ∀ t, r.Settles (fun i => P i ∧ r.tokens[i]? = some t) (f t) (g t) Q) :
    r.Settles P (Parser.peek >>= f) (Parser.peek >>= g) Q := by
  intro i inside here
  obtain ⟨t, token⟩ := r.exists_token inside
  exact Goes.onward ⟨_, .peek token⟩ ⟨_, .peek token⟩ (next t i inside ⟨here, token⟩)

/-- A question about the next token. -/
theorem ask {view : Token → β} {f g : β → Parser α}
    (next : ∀ t, r.Settles (fun i => P i ∧ r.tokens[i]? = some t) (f (view t)) (g (view t)) Q) :
    r.Settles P ((Parser.peek >>= fun t => pure (view t)) >>= f)
      ((Parser.peek >>= fun t => pure (view t)) >>= g) Q := by
  intro i inside here
  obtain ⟨t, token⟩ := r.exists_token inside
  exact Goes.onward (.look token view) (.look token view) (next t i inside ⟨here, token⟩)

theorem atEnd {f g : Bool → Parser α}
    (ended : r.Settles (fun i => P i ∧ i = r.first) (f true) (g true) Q)
    (going : r.Settles (fun i => P i ∧ i < r.first) (f false) (g false) Q) :
    r.Settles P (Parser.atEnd >>= f) (Parser.atEnd >>= g) Q := by
  refine split ?_ ?_
  · rintro i inside ⟨here, rfl⟩
    exact (Goes.ended r).onward (.ended r) (ended r.first inside ⟨here, rfl⟩)
  · rintro i inside ⟨here, less⟩
    obtain ⟨t, token⟩ := r.exists_token inside
    have look : r.Goes Parser.atEnd i (.ok false) i :=
      ⟨_, decide_eq_false (proper_of_lt less token) ▸ Walk.atEnd token⟩
    exact look.onward look (going i inside ⟨here, less⟩)

/-- Going on only where there are tokens left. -/
theorem unlessEnded {f : Token → ParseFault} (going : r.Settles (fun i => P i ∧ i < r.first) p q Q) :
    r.Settles P
      (Parser.atEnd >>= fun ended => if ended then Parser.peek >>= fun t => Parser.fail (f t) t.span
        else p)
      (Parser.atEnd >>= fun ended => if ended then Parser.peek >>= fun t => Parser.fail (f t) t.span
        else q) Q :=
  atEnd (peek fun _ => fail) going

theorem last {f g : Token → Parser α} (took : ∀ i, P i → 0 < i)
    (next : ∀ t, r.Settles P (f t) (g t) Q) :
    r.Settles P (Parser.last >>= f) (Parser.last >>= g) Q := by
  intro i inside here
  obtain ⟨t, token⟩ := r.exists_token (Nat.le_trans (Nat.sub_le i 1) inside)
  have look : r.Goes Parser.last i (.ok t) i := ⟨_, .last (took i here) token⟩
  exact look.onward look (next t i inside here)

theorem since {start : Span} {f g : Span → Parser α} (took : ∀ i, P i → 0 < i)
    (next : ∀ span, r.Settles P (f span) (g span) Q) :
    r.Settles P (Parser.since start >>= f) (Parser.since start >>= g) Q := by
  intro i inside here
  obtain ⟨span, look⟩ := Goes.since (took i here) inside start
  exact look.onward look (next span i inside here)

theorem refuse {what : Wanted} :
    r.Settles P (Parser.refuse what : Parser α) (Parser.refuse what) Q := by
  intro i inside _
  obtain ⟨t, token⟩ := r.exists_token inside
  exact ⟨_, i, .refuse token what, .refuse token what, nofun⟩

/-! Steps. -/

/-- Taking a token leaves no more than before. -/
theorem taken (i : Nat) (left : r.Left k i) : r.Left k (i + 1) :=
  ⟨Nat.succ_pos i, by have := left.2; omega⟩

/-- Taking the next token where there is one. -/
theorem step {f g : Unit → Parser α} (next : r.Settles R (f ()) (g ()) Q)
    (goes : ∀ i, P i → R (i + 1)) :
    r.Settles (fun i => P i ∧ i < r.first) (modify Stream.advance >>= f)
      (modify Stream.advance >>= g) Q := by
  rintro i inside ⟨here, less⟩
  obtain ⟨t, token⟩ := r.exists_token inside
  have taken : r.Goes (modify Stream.advance) i (.ok ()) (i + 1) :=
    ⟨_, .takes token (proper_of_lt less token)⟩
  exact taken.onward taken (next (i + 1) less (goes i here))

theorem advance {f g : Token → Parser α} (next : ∀ t, r.Settles R (f t) (g t) Q)
    (goes : ∀ i, P i → R (i + 1)) :
    r.Settles (fun i => P i ∧ i < r.first) (Parser.advance >>= f) (Parser.advance >>= g) Q := by
  unfold Parser.advance
  simp only [bind_assoc]
  refine step (R := fun i => R i ∧ 0 < i) (last (fun _ => And.right) fun t => ?_)
    fun i here => ⟨goes i here, Nat.succ_pos i⟩
  exact (next t).weaken (fun _ => And.left) fun _ => id

/-- Taking the next token, or seeing the last one again where there is no next one. -/
theorem key {f g : Token → Parser α} (next : ∀ t, r.Settles (r.Left k) (f t) (g t) Q) :
    r.Settles (r.Left k) (Parser.advance >>= f) (Parser.advance >>= g) Q := by
  refine split ?_ (advance next taken)
  unfold Parser.advance
  simp only [bind_assoc]
  rintro i inside ⟨left, rfl⟩
  have stays : r.Goes (modify Stream.advance) r.first (.ok ()) r.first := ⟨_, .stays r.token_first r.ends⟩
  exact stays.onward stays (last (P := r.Left k) (fun _ => And.left) next r.first inside left)

theorem seesKeyword {words : List String} {f g : Bool → Parser α}
    (yes : r.Settles (fun i => P i ∧ i < r.first) (f true) (g true) Q)
    (no : r.Settles P (f false) (g false) Q) :
    r.Settles P (Parser.seesKeyword words >>= f) (Parser.seesKeyword words >>= g) Q := by
  refine ask fun t => ?_
  by_cases found : t.kind = .keyword ∧ words.contains t.text
  · rw [decide_eq_true found]
    have proper : t.kind ≠ .eof := found.1 ▸ nofun
    intro i inside here
    exact yes i inside ⟨here.1, lt_first inside here.2 proper⟩
  · rw [decide_eq_false found]
    exact no.weaken (fun _ => And.left) fun _ => id

theorem sees {f g : Bool → Parser α} (yes : r.Settles P (f true) (g true) Q)
    (no : r.Settles P (f false) (g false) Q) :
    r.Settles P (Parser.sees kind text >>= f) (Parser.sees kind text >>= g) Q := by
  refine ask fun t => ?_
  cases decide (t.kind = kind ∧ t.text = text) with
  | true => exact yes.weaken (fun _ => And.left) fun _ => id
  | false => exact no.weaken (fun _ => And.left) fun _ => id

theorem eat {f g : Bool → Parser α} (proper : kind ≠ .eof) (yes : r.Settles R (f true) (g true) Q)
    (no : r.Settles P (f false) (g false) Q) (goes : ∀ i, P i → i < r.first → R (i + 1)) :
    r.Settles P (Parser.eat kind text >>= f) (Parser.eat kind text >>= g) Q := by
  intro i inside here
  obtain ⟨t, token⟩ := r.exists_token inside
  by_cases found : t.Is kind text
  · have less := lt_first inside token (found.1 ▸ proper)
    have taken := Goes.eat_yes token found proper
    exact taken.onward taken (yes (i + 1) less (goes i here less))
  · have missed := Goes.eat_no token found
    exact missed.onward missed (no i inside here)

/-- A token that may be left out. -/
theorem option {f g : Bool → Parser α} (proper : kind ≠ .eof)
    (next : ∀ found, r.Settles (r.Left k) (f found) (g found) Q) :
    r.Settles (r.Left k) (Parser.eat kind text >>= f) (Parser.eat kind text >>= g) Q :=
  eat proper (next true) (next false) fun i left _ => taken i left

theorem expect {what : Wanted} (proper : kind ≠ .eof) :
    r.Settles (r.Left k) (Parser.expect kind text what) (Parser.expect kind text what) (r.Left k) :=
  eat proper (done fun _ => id) refuse fun i left _ => taken i left

theorem delimiter (text : String) (what : Wanted) :
    r.Settles (r.Left k) (Parser.delimiter text what) (Parser.delimiter text what) (r.Left k) :=
  expect (by decide)

theorem keyword (text : String) (what : Wanted) :
    r.Settles (r.Left k) (Parser.keyword text what) (Parser.keyword text what) (r.Left k) :=
  expect (by decide)

theorem expectKind {what : Wanted} (proper : kind ≠ .eof) :
    r.Settles (r.Left k) (Parser.expectKind kind what) (Parser.expectKind kind what)
      (r.Left k) := by
  refine peek fun t => ?_
  by_cases found : t.kind = kind
  · rw [if_pos found]
    intro i inside here
    have less := lt_first inside here.2 (found ▸ proper)
    exact advance (fun u => done fun _ => id) taken i inside ⟨here.1, less⟩
  · rw [if_neg found]
    exact refuse

theorem name (what : Wanted) :
    r.Settles (r.Left k) (Parser.name what) (Parser.name what) (r.Left k) :=
  expectKind (by decide)

theorem operatorOf {ops : List BinOp} {f g : Option BinOp → Parser α}
    (yes : ∀ op, r.Settles (fun i => P i ∧ i < r.first) (f (some op)) (g (some op)) Q)
    (no : r.Settles P (f none) (g none) Q) :
    r.Settles P (Parser.operatorOf ops >>= f) (Parser.operatorOf ops >>= g) Q := by
  refine ask fun t => ?_
  generalize answer : ops.find? _ = found
  cases found with
  | none => exact no.weaken (fun _ => And.left) fun _ => id
  | some op =>
    have spelt : t.kind = (if op = .mem then .keyword else .operator) ∧ t.text = op.symbol := by
      simpa using List.find?_some answer
    have proper : t.kind ≠ .eof := by
      rw [spelt.1]
      split <;> decide
    intro i inside here
    exact yes op i inside ⟨here.1, lt_first inside here.2 proper⟩

theorem operandAfter {symbol : String} (took : ∀ i, P i → 0 < i) (h : r.Settles P p q Q) :
    r.Settles P (Parser.operandAfter symbol p) (Parser.operandAfter symbol q) Q := by
  refine last took fun t i inside here => ?_
  obtain ⟨res, j, ⟨_, walk⟩, ⟨_, walk'⟩, good⟩ := h i inside here
  refine ⟨_, j, ⟨_, walk.blame symbol t.span⟩, ⟨_, walk'.blame symbol t.span⟩, fun a answer => ?_⟩
  cases res with
  | ok b => exact good b rfl
  | error e => cases answer

end Settles

/-! What loops do where no token is left. -/

namespace Defers

theorem refl (p : Parser α) : r.Defers p p := fun _ => id

theorem eat {f : Bool → Parser α} (proper : kind ≠ .eof) :
    r.Defers (Parser.eat kind text >>= f) (f false) := by
  intro res goes
  have missing : ¬ r.stop.Is kind text := fun found => proper (found.1.symm.trans r.ends)
  exact (Goes.eat_no r.token_first missing).bind goes

theorem trans {p' : Parser α} (first : r.Defers p q) (next : r.Defers q p') : r.Defers p p' :=
  fun res goes => first res (next res goes)

end Defers

namespace Settles

theorem skip {p' q' : Parser α} (ended : ∀ i, P i → r.first ≤ i) (one : r.Defers p p')
    (other : r.Defers q q') (h : r.Settles P p' q' Q) : r.Settles P p q Q := by
  intro i inside here
  obtain rfl : i = r.first := Nat.le_antisymm inside (ended i here)
  obtain ⟨res, j, ⟨_, walk⟩, ⟨_, walk'⟩, good⟩ := h r.first inside here
  obtain ⟨forward, inside', -⟩ := walk.stays_inside inside
  obtain rfl : j = r.first := Nat.le_antisymm inside' forward
  exact ⟨res, r.first, one res ⟨_, walk⟩, other res ⟨_, walk'⟩, good⟩

/-- A loop that finds nothing to go on with. -/
theorem idle {a : α} (one : r.Defers p (pure a)) (other : r.Defers q (pure a)) :
    r.Settles (r.Left 0) p q (r.Left 0) :=
  skip (fun _ => And.right) one other (done fun _ => id)

section Lists

variable {item item' : List α → Parser α} {b : Nat}

theorem listed_first (item : List α → Parser α) (n : Nat) (seen : List α) :
    ∃ f, Parser.listed item n seen = item seen >>= f ∧ ∀ a, r.Defers (f a) (pure [a]) := by
  cases n with
  | zero => exact ⟨_, rfl, fun a => .refl _⟩
  | succ n => exact ⟨_, rfl, fun a => .eat (by decide)⟩

theorem listed (each : ∀ seen, r.Settles (r.Left b) (item seen) (item' seen) (r.Left b))
    (within : k ≤ b) (enough : Enough k n m) (seen : List α) :
    r.Settles (r.Left k) (Parser.listed item n seen) (Parser.listed item' m seen) (r.Left k) := by
  have one {k : Nat} (within : k ≤ b) (seen : List α) :
      r.Settles (r.Left k) (item seen) (item' seen) (r.Left k) :=
    (each seen).within fun i left => ⟨left.mono within, left⟩
  induction k generalizing n m seen with
  | zero =>
    obtain ⟨f, run, defers⟩ := listed_first (r := r) item n seen
    obtain ⟨f', run', defers'⟩ := listed_first (r := r) item' m seen
    rw [run, run']
    exact (one within seen).bind fun a => idle (defers a) (defers' a)
  | succ k ih =>
    obtain ⟨n, m, rfl, rfl, fewer⟩ := enough.succ
    refine (one within seen).bind fun a => ?_
    refine eat (R := r.Left k) (by decide) ?_ (done fun _ => id) fun i left _ => left.step
    refine (ih (Nat.le_of_succ_le within) fewer (a :: seen)).bind fun as => done fun i left => ?_
    exact left.mono (Nat.le_succ k)

theorem listedUntil {close : String}
    (each : ∀ seen, r.Settles (r.Left k) (item seen) (item' seen) (r.Left k))
    (enough : Enough k n m) :
    r.Settles (r.Left k) (Parser.listedUntil close n item) (Parser.listedUntil close m item')
      (r.Left k) :=
  sees (done fun _ => id) (listed each (Nat.le_refl k) enough [])

end Lists

end Settles

end Row

end Script
