import Script.Proofs.Continuation.Scanning
import Script.Proofs.Places.Sources

/-! How far a scan gets. A scan takes one lexeme after another until it is at the end of the text or at
a place where no lexeme begins, and what stands there changes nothing that was taken before it. -/

namespace Script

namespace Text

variable {text : List Char} {c : Char} {cs : List Char} {i : Nat}

theorem not_mem_takeWhile_ne (c : Char) (cs : List Char) : c ∉ cs.takeWhile (· ≠ c) := by
  intro member
  have passed := List.all_eq_true.1 List.all_takeWhile _ member
  simp at passed

theorem dropWhile_ne_cases (c : Char) (cs : List Char) :
    cs.dropWhile (· ≠ c) = [] ∨ ∃ more, cs.dropWhile (· ≠ c) = c :: more := by
  have stops := List.head?_dropWhile_not (· ≠ c) cs
  cases after : cs.dropWhile (· ≠ c) with
  | nil => exact .inl rfl
  | cons d ds =>
    rw [after] at stops
    obtain rfl : d = c := by simpa using stops
    exact .inr ⟨ds, rfl⟩

theorem getElem?_of_drop (here : text.drop i = c :: cs) : text[i]? = some c := by
  rw [← List.head?_drop, here]
  rfl

end Text

namespace Token

variable {c : Char} {cs rest text p q : List Char} {f : LexFault} {l : Lexeme} {i j k : Nat}
  {ts us : List Token}

/-- The operators of two characters whose first character is no operator by itself. -/
def halves : List (Char × Char) :=
  [('!', '='), ('&', '&'), ('|', '|')]

/-- No lexeme begins at the head of the text: there is a quote that is never closed, the first half of
an operator without the second, or a character of no kind. -/
inductive Impossible : LexFault → List Char → Prop
  | openQuote {quote : Char} {cs : List Char} (known : quote = '"' ∨ quote = '\'')
    (absent : quote ∉ cs) : Impossible .openQuote (quote :: cs)
  | operator {c other : Char} {cs : List Char} (half : (c, other) ∈ halves)
    (alone : cs.head? ≠ some other) : Impossible (.operator c) (c :: cs)
  | character {c : Char} {cs : List Char} (blank : ¬ Text.isBlank c) (quote : ¬ (c = '"' ∨ c = '\''))
    (digit : ¬ c.isDigit) (word : ¬ (Text.isLetter c ∨ c = '_')) (operator : c ∉ operatorChars)
    (delimiter : c ∉ delimiters) : Impossible (.character c) (c :: cs)

theorem Impossible.exists_cons (stuck : Impossible f text) : ∃ c cs, text = c :: cs := by
  cases stuck <;> exact ⟨_, _, rfl⟩

theorem quoted_error_iff {quote : Char} :
    quoted quote cs = .error f ↔ f = .openQuote ∧ quote ∉ cs := by
  have closed : (cs.takeWhile (· ≠ quote)).length < cs.length ↔ quote ∈ cs := by
    constructor
    · intro short
      by_contra absent
      have whole : cs.takeWhile (· ≠ quote) = cs := by
        apply List.takeWhile_eq_self_iff.2
        intro d member
        rw [decide_eq_true_eq]
        rintro rfl
        exact absent member
      rw [whole] at short
      exact Nat.lt_irrefl _ short
    · intro member
      have part := List.takeWhile_prefix (l := cs) (· ≠ quote)
      refine Nat.lt_of_le_of_ne part.length_le fun whole => ?_
      have absent := Text.not_mem_takeWhile_ne quote cs
      rw [part.eq_of_length whole] at absent
      exact absent member
  unfold quoted
  dsimp only
  split
  · rename_i short
    simp [closed.1 short]
  · rename_i long
    simp [mt closed.2 long, eq_comm]

theorem halves_only : ∀ h ∈ halves, ∀ op ∈ operators, op.toList.head? = some h.1 →
    op.toList = [h.1, h.2] := by
  decide

theorem halves_all : ∀ c ∈ operatorChars, operators.contains (String.ofList [c]) = true ∨
    ∃ h ∈ halves, h.1 = c ∧ operators.contains (String.ofList [c, h.2]) = true := by
  simp only [operatorChars, List.forall_mem_cons, List.not_mem_nil, false_implies, implies_true,
    and_true]
  decide

theorem operator_error_iff (known : c ∈ operatorChars) :
    operator c cs = .error f ↔ f = .operator c ∧ ∃ other, (c, other) ∈ halves ∧
      cs.head? ≠ some other := by
  constructor
  · intro failed
    unfold operator at failed
    dsimp only at failed
    split at failed
    · cases failed
    split at failed
    · cases failed
    rename_i two one
    cases failed
    obtain ⟨⟨c, other⟩, half, rfl, both⟩ := (halves_all c known).resolve_left one
    refine ⟨rfl, other, half, fun next => two ?_⟩
    obtain ⟨ds, rfl⟩ := List.head?_eq_some_iff.1 next
    exact ⟨rfl, both⟩
  · rintro ⟨rfl, other, half, alone⟩
    have only (x : List Char) (listed : operators.contains (String.ofList (c :: x)) = true) :
        x = [other] := by
      have whole := halves_only _ half _ (List.contains_iff_mem.1 listed) (by simp)
      rw [String.toList_ofList] at whole
      exact (List.cons.inj whole).2
    have two : ¬ ((c :: cs.take 1).length = 2 ∧
        operators.contains (String.ofList (c :: cs.take 1)) = true) := by
      rintro ⟨-, listed⟩
      have next := only _ listed
      apply alone
      cases cs with
      | nil => cases next
      | cons d ds => exact congrArg List.head? next
    have one : ¬ operators.contains (String.ofList [c]) = true := by
      intro listed
      cases only [] listed
    unfold operator
    dsimp only
    rw [if_neg two, if_neg one]

theorem halves_apart : ∀ h ∈ halves, ¬ Text.isBlank h.1 ∧ h.1 ≠ '>' ∧ ¬ (h.1 = '"' ∨ h.1 = '\'') ∧
    ¬ h.1.isDigit ∧ ¬ (Text.isLetter h.1 ∨ h.1 = '_') ∧ h.1 ∈ operatorChars := by
  decide

theorem lexeme_error_iff : lexeme c cs = .error f ↔ Impossible f (c :: cs) := by
  unfold lexeme
  constructor
  · intro failed
    split at failed
    · cases failed
    split at failed
    · cases failed
    split at failed
    · rename_i quote
      obtain ⟨rfl, absent⟩ := quoted_error_iff.1 failed
      exact .openQuote quote absent
    split at failed
    · cases failed
    split at failed
    · cases failed
    split at failed
    · rename_i known
      obtain ⟨rfl, other, half, alone⟩ :=
        (operator_error_iff (List.contains_iff_mem.1 known)).1 failed
      exact .operator half alone
    split at failed
    · cases failed
    rename_i blank comment quote digit word operator delimiter
    cases failed
    exact .character blank quote digit word (mt List.contains_iff_mem.2 operator)
      (mt List.contains_iff_mem.2 delimiter)
  · intro impossible
    cases impossible with
    | openQuote known absent =>
      have blank : ¬ Text.isBlank c := by rcases known with rfl | rfl <;> decide
      have comment : ¬ (c = '>' ∧ cs.head? = some '>') := by rcases known with rfl | rfl <;> simp
      rw [if_neg blank, if_neg comment, if_pos known]
      exact quoted_error_iff.2 ⟨rfl, absent⟩
    | operator half alone =>
      obtain ⟨blank, comment, quote, digit, word, known⟩ := halves_apart _ half
      rw [if_neg blank, if_neg (not_and_of_not_left _ comment), if_neg quote, if_neg digit,
        if_neg word, if_pos (List.contains_iff_mem.2 known)]
      exact (operator_error_iff known).2 ⟨rfl, _, half, alone⟩
    | character blank quote digit word operator delimiter =>
      have comment : ¬ (c = '>' ∧ cs.head? = some '>') := by
        rintro ⟨rfl, -⟩
        exact operator (by decide)
      rw [if_neg blank, if_neg comment, if_neg quote, if_neg digit, if_neg word,
        if_neg (mt List.contains_iff_mem.1 operator), if_neg (mt List.contains_iff_mem.1 delimiter)]

/-! A lexeme is not changed by what comes after it. -/

theorem takeWhile_truncated {p : Char → Bool}
    (short : ((cs ++ rest).takeWhile p).length ≤ cs.length) :
    (cs ++ rest).takeWhile p = cs.takeWhile p := by
  rw [List.takeWhile_append] at short ⊢
  split
  · rename_i whole
    rw [if_pos whole, List.length_append] at short
    have none : rest.takeWhile p = [] := List.eq_nil_of_length_eq_zero (by omega)
    rw [none, List.append_nil, (List.takeWhile_prefix p).eq_of_length whole]
  · rfl

theorem numberTail_truncated (short : (numberTail (cs ++ rest)).length ≤ cs.length) :
    numberTail (cs ++ rest) = numberTail cs := by
  have size := congrArg List.length (List.takeWhile_append_dropWhile (p := Char.isDigit) (l := cs))
  unfold numberTail at short ⊢
  rw [List.length_append] at short
  have digits := takeWhile_truncated (Nat.le_trans (Nat.le_add_right _ _) short)
  rw [List.length_append] at size
  rw [digits] at short ⊢
  rw [List.dropWhile_append] at short ⊢
  cases after : cs.dropWhile Char.isDigit with
  | nil =>
    -- all characters are digits, so that none is left for a point
    rw [after] at short size
    have none := List.eq_nil_of_length_eq_zero (show List.length _ = 0 from Nat.le_zero.1
      (Nat.le_of_add_le_add_left (Nat.le_trans short (Nat.le_of_eq size.symm))))
    exact congrArg _ none
  | cons d ds =>
    rw [after] at short size
    by_cases point : d = '.'
    · subst point
      simp only [List.isEmpty_cons, Bool.false_eq_true, if_false, List.cons_append,
        List.length_cons] at short size ⊢
      rw [takeWhile_truncated (by omega)]
    · simp only [List.isEmpty_cons, Bool.false_eq_true, if_false, List.cons_append]
      split
      · rename_i same
        exact absurd (List.cons.inj same).1 point
      · split
        · rename_i same
          exact absurd (List.cons.inj same).1 point
        · rfl

theorem lexeme_truncated (read : lexeme c (cs ++ rest) = .ok l)
    (fits : l.taken.length ≤ cs.length + 1) : lexeme c cs = .ok l := by
  have head (first : cs.head? = some '>') : (cs ++ rest).head? = some '>' := by
    rw [List.head?_append, first]
    rfl
  unfold lexeme at read ⊢
  split at read
  · rename_i blank
    rw [if_pos blank]
    exact read
  rename_i blank
  rw [if_neg blank]
  split at read
  · rename_i comment
    cases read
    have short := takeWhile_truncated (Nat.le_of_succ_le_succ fits)
    have first : cs.head? = some '>' := by
      cases cs with
      | nil =>
        obtain ⟨ds, rfl⟩ := List.head?_eq_some_iff.1 comment.2
        simp at short
      | cons d ds => exact comment.2
    rw [if_pos ⟨comment.1, first⟩, short]
  rename_i comment
  rw [if_neg fun both => comment ⟨both.1, head both.2⟩]
  split at read
  · rename_i quote
    rw [if_pos quote]
    unfold quoted at read ⊢
    dsimp only at read ⊢
    split at read
    · cases read
      simp only [List.length_append, List.length_cons, List.length_nil] at fits
      have short : (cs ++ rest).takeWhile (· ≠ c) = cs.takeWhile (· ≠ c) :=
        takeWhile_truncated (by omega)
      rw [short] at fits ⊢
      rw [if_pos (by omega)]
    · cases read
  rename_i quote
  rw [if_neg quote]
  split at read
  · rename_i digit
    cases read
    rw [if_pos digit, numberTail_truncated (Nat.le_of_succ_le_succ fits)]
  rename_i digit
  rw [if_neg digit]
  split at read
  · rename_i word
    cases read
    rw [if_pos word, takeWhile_truncated (Nat.le_of_succ_le_succ fits)]
  rename_i word
  rw [if_neg word]
  split at read
  · rename_i known
    rw [if_pos known]
    cases cs with
    | cons d ds => exact read
    | nil =>
      unfold operator at read ⊢
      dsimp only at read ⊢
      split at read
      · rename_i both
        cases read
        exact absurd fits (Nat.not_le_of_lt (Nat.lt_of_lt_of_eq (by decide) both.1.symm))
      · rw [if_neg (by simp)]
        exact read
  rename_i known
  rw [if_neg known]
  exact read

theorem lexeme_blank (blank : Text.isBlank c) (cs : List Char) : lexeme c cs = .ok ⟨[c], none⟩ :=
  if_pos blank

/-- Only blanks give no token. -/
theorem lexeme_eq_blank (read : lexeme c cs = .ok l) (none : l.token = none) :
    Text.isBlank c ∧ l = ⟨[c], .none⟩ := by
  have heads := lexeme_heads read
  obtain ⟨d, one, blank⟩ := heads.blank none
  obtain ⟨rest, cut⟩ := heads.taken
  rw [one] at cut
  cases (List.cons.inj cut).1
  rw [lexeme_blank blank] at read
  cases read
  exact ⟨blank, rfl⟩

theorem tokens_of_some {t : Kind × List Char} (token : l.token = some t) (span : Span) :
    l.tokens span = [⟨t.1, String.ofList t.2, span⟩] := by
  rw [Lexeme.tokens, token]
  rfl

/-! Scans step by step. -/

/-- A scan of the text takes these tokens from the offset `i` on, one lexeme after another, and comes
to `j`. -/
inductive Reads (text : List Char) : Nat → List Token → Nat → Prop
  | stay {i : Nat} : Reads text i [] i
  | step {i j : Nat} {c : Char} {cs : List Char} {l : Lexeme} {ts : List Token}
    (here : text.drop i = c :: cs) (read : lexeme c cs = .ok l)
    (next : Reads text (i + l.taken.length) ts j) :
    Reads text i (l.tokens ((Mark.of text i).spanTo (.of text (i + l.taken.length))) ++ ts) j

theorem preceded_nil (result : Except Error (List Token)) : preceded [] result = result := by
  cases result <;> rfl

/-- The error of a fault at an offset. An open quote reaches up to the end of the text, any other fault
over one character. -/
def faultAt (text : List Char) (j : Nat) (f : LexFault) : Error :=
  ⟨.lexical f, ⟨j, if f = .openQuote then text.length else j + 1, Text.lineAt text j,
    Text.columnAt text j⟩⟩

theorem spanTo_reach (here : text.drop j = c :: cs) (f : LexFault) :
    (Mark.of text j).spanTo ((Mark.of text j).after (reach f c cs)) = (faultAt text j f).span := by
  have size := congrArg List.length here
  rw [List.length_drop, List.length_cons] at size
  obtain ⟨rest, cut⟩ := f.reach_prefix c cs
  rw [Mark.after_of (here.trans cut.symm)]
  unfold Mark.spanTo Mark.of faultAt
  cases f with
  | openQuote =>
    simp only [reach, List.length_cons, if_true, Span.mk.injEq, and_true, true_and]
    omega
  | character d => rfl
  | operator d => rfl

theorem Impossible.inside (stuck : Impossible f (text.drop j)) : j ≤ text.length := by
  obtain ⟨c, cs, here⟩ := stuck.exists_cons
  have size := congrArg List.length here
  rw [List.length_drop, List.length_cons] at size
  omega

theorem scanFrom_stuck {n : Nat} (stuck : Impossible f (text.drop j))
    (enough : (text.drop j).length ≤ n) :
    scanFrom n (.of text j) (text.drop j) = .error (faultAt text j f) := by
  obtain ⟨c, cs, here⟩ := stuck.exists_cons
  rw [here] at stuck enough ⊢
  obtain ⟨n, rfl⟩ := Nat.exists_eq_succ_of_ne_zero (Nat.ne_zero_of_lt enough)
  rw [scanFrom, lexeme_error_iff.2 stuck]
  dsimp only
  rw [spanTo_reach here]
  rfl

/-- A scan goes on until nothing is left or no lexeme begins. -/
theorem exists_reads {i : Nat} (inside : i ≤ text.length) :
    ∃ ts j, Reads text i ts j ∧ (j = text.length ∨ ∃ f, Impossible f (text.drop j)) := by
  cases here : text.drop i with
  | nil => exact ⟨[], i, .stay, .inl (eq_length_of_drop here inside)⟩
  | cons c cs =>
    cases read : lexeme c cs with
    | error f => exact ⟨[], i, .stay, .inr ⟨f, here ▸ lexeme_error_iff.1 read⟩⟩
    | ok l =>
      obtain ⟨rest, follows, -⟩ := scanFrom_lexeme (n := 0) here read
      have proper := List.length_pos_iff.2 (lexeme_heads read).proper
      have within := follows.inside
      obtain ⟨ts, j, next, stops⟩ := exists_reads follows.inside
      exact ⟨_, j, .step here read next, stops⟩
termination_by text.length - i

namespace Reads

theorem le (reads : Reads text i ts j) : i ≤ j := by
  induction reads with
  | stay => exact Nat.le_refl _
  | step _ _ _ ih => exact Nat.le_trans (Nat.le_add_right _ _) ih

theorem proper (reads : Reads text i ts j) : ∀ t ∈ ts, t.kind ≠ .eof := by
  induction reads with
  | stay => exact List.forall_mem_nil _
  | step _ read _ ih => exact List.forall_mem_append.2 ⟨(lexeme_heads read).tokens_proper, ih⟩

theorem scanFrom (reads : Reads text i ts j) {n : Nat} (enough : (text.drop i).length ≤ n) :
    ∃ m, (text.drop j).length ≤ m ∧
      Token.scanFrom n (.of text i) (text.drop i) =
        preceded ts (Token.scanFrom m (.of text j) (text.drop j)) := by
  induction reads generalizing n with
  | stay => exact ⟨n, enough, (preceded_nil _).symm⟩
  | step here read next ih =>
    rw [here] at enough ⊢
    obtain ⟨n, rfl⟩ := Nat.exists_eq_succ_of_ne_zero (Nat.ne_zero_of_lt enough)
    obtain ⟨rest, follows, same⟩ := scanFrom_lexeme (n := n) here read
    have shorter := follows.shorter
    rw [← follows.left] at shorter same
    obtain ⟨m, fits, later⟩ := ih (n := n) (by omega)
    exact ⟨m, fits, by rw [same, Lexeme.before_eq, later, preceded_preceded]⟩

theorem scan_eq (reads : Reads text 0 ts j) : ∃ m, (text.drop j).length ≤ m ∧
    scan (String.ofList text) =
      preceded ts (Token.scanFrom m (.of text j) (text.drop j)) := by
  unfold scan
  rw [String.toList_ofList]
  exact reads.scanFrom (n := (String.ofList text).length) (by simp)

/-- A scan that comes to the end of the text has found all its tokens. -/
theorem scan_end (reads : Reads text 0 ts text.length) :
    scan (String.ofList text) = .ok (ts ++ [final (.of text text.length)]) := by
  obtain ⟨m, -, same⟩ := reads.scan_eq
  rw [same, List.drop_length, Token.scanFrom]
  rfl

theorem scan_stuck (reads : Reads text 0 ts j) (stuck : Impossible f (text.drop j)) :
    scan (String.ofList text) = .error (faultAt text j f) := by
  obtain ⟨m, enough, same⟩ := reads.scan_eq
  rw [same, scanFrom_stuck stuck enough]
  rfl

/-! The beginning of a text. -/

theorem of_append (le : i ≤ p.length) : Mark.of (p ++ q) i = Mark.of p i := by
  unfold Mark.of Text.lineAt Text.columnAt
  rw [List.take_append_of_le_length le]

theorem tokens_append {cs : List Char} (here : p.drop i = c :: cs) (heads : l.Heads (c :: cs)) :
    l.tokens ((Mark.of (p ++ q) i).spanTo (.of (p ++ q) (i + l.taken.length))) =
      l.tokens ((Mark.of p i).spanTo (.of p (i + l.taken.length))) := by
  have size := congrArg List.length here
  have long := heads.taken.length_le
  rw [List.length_drop] at size
  rw [List.length_cons] at size long
  rw [of_append (by omega), of_append (by omega)]

/-- A scan takes from the beginning of a text what it takes from the whole. -/
theorem truncated (reads : Reads (p ++ q) i ts j) (inside : j ≤ p.length) : Reads p i ts j := by
  induction reads with
  | stay => exact .stay
  | @step i j c cs l ts here read next ih =>
    have proper := List.length_pos_iff.2 (lexeme_heads read).proper
    have within := next.le
    rw [List.drop_append_of_le_length (by omega)] at here
    cases here' : p.drop i with
    | nil =>
      have := List.drop_eq_nil_iff.1 here'
      omega
    | cons d ds =>
      have size := congrArg List.length here'
      rw [List.length_drop, List.length_cons] at size
      rw [here'] at here
      obtain ⟨rfl, rfl⟩ := List.cons.inj here
      have read' := lexeme_truncated read (by omega)
      rw [tokens_append here' (lexeme_heads read')]
      exact .step here' read' (ih inside)

/-- If the tokens of the beginning come first in the whole, then a scan of the whole takes that
beginning as the scan of it alone. -/
theorem extended (whole : Reads p i ts p.length) {k : Nat} (reads : Reads (p ++ q) i us k)
    (begins : ts <+: us) : Reads (p ++ q) i ts p.length := by
  generalize finish : p.length = j at whole ⊢
  induction whole generalizing us k with
  | stay => exact .stay
  | @step i j c cs l ts here read next ih =>
    have heads := lexeme_heads read
    have size := congrArg List.length here
    rw [List.length_drop, List.length_cons] at size
    have here' : (p ++ q).drop i = c :: (cs ++ q) := by
      rw [List.drop_append_of_le_length (by omega), here]
      rfl
    rw [← tokens_append (q := q) here heads] at begins ⊢
    cases token : l.token with
    | none =>
      obtain ⟨blank, rfl⟩ := lexeme_eq_blank read token
      have read' := lexeme_blank blank (cs ++ q)
      refine .step here' read' ?_
      cases reads with
      | stay => exact ih .stay begins finish
      | step here'' read'' next' =>
        rw [here'] at here''
        obtain ⟨rfl, rfl⟩ := List.cons.inj here''
        rw [read'] at read''
        cases read''
        exact ih next' begins finish
    | some t =>
      cases reads with
      | stay =>
        rw [tokens_of_some token] at begins
        cases List.prefix_nil.1 begins
      | @step _ _ _ _ l' _ here'' read' next' =>
        rw [here'] at here''
        obtain ⟨rfl, rfl⟩ := List.cons.inj here''
        cases token' : l'.token with
        | none =>
          -- a blank would be one in the beginning, too
          obtain ⟨blank, -⟩ := lexeme_eq_blank read' token'
          rw [lexeme_blank blank] at read
          cases read
          cases token
        | some t' =>
          rw [tokens_of_some token, tokens_of_some token'] at begins
          obtain ⟨same, others⟩ := List.cons_prefix_cons.1 begins
          have sizes : i + l.taken.length = i + l'.taken.length := congrArg (·.span.stop) same
          rw [tokens_of_some token, same, ← tokens_of_some token']
          refine .step here' read' ?_
          rw [← sizes] at next' ⊢
          exact ih next' others finish

end Reads

end Token

end Script
