import Script.Proofs.Layout.Moving
import Script.Proofs.Printing
import Script.Proofs.Tiling

/-! A text that goes on after a line is cut into the tokens of its first part and then those of the
rest: only an open quote reaches over the end of a line. -/

namespace Script.Token

variable {c : Char} {cs rest : List Char}

/-- There is a line feed in `cs` or right after it. -/
def Parted (cs rest : List Char) : Prop :=
  '\n' ∈ cs ∨ rest.head? = some '\n'

theorem takeWhile_parted {p : Char → Bool} (stops : p '\n' = false) (parted : Parted cs rest) :
    (cs ++ rest).takeWhile p = cs.takeWhile p := by
  induction cs with
  | nil =>
    have first : rest.head? = some '\n' := parted.resolve_left (by simp)
    cases rest with
    | nil => cases first
    | cons d ds =>
      cases first
      simp [stops]
  | cons d ds ih =>
    by_cases goes : p d
    · have parted : Parted ds rest := by
        refine parted.imp_left fun member => (List.mem_cons.1 member).resolve_left ?_
        rintro rfl
        rw [stops] at goes
        cases goes
      simp [goes, ih parted]
    · simp [goes]

theorem dropWhile_parted {p : Char → Bool} (stops : p '\n' = false) (parted : Parted cs rest) :
    (cs ++ rest).dropWhile p = cs.dropWhile p ++ rest := by
  have whole := List.takeWhile_append_dropWhile (p := p) (l := cs ++ rest)
  have part := List.takeWhile_append_dropWhile (p := p) (l := cs)
  rw [takeWhile_parted stops parted] at whole
  refine List.append_cancel_left (whole.trans ?_)
  rw [← List.append_assoc, part]

theorem numberTail_parted (parted : Parted cs rest) : numberTail (cs ++ rest) = numberTail cs := by
  have stops : Char.isDigit '\n' = false := by decide
  unfold numberTail
  rw [takeWhile_parted stops parted, dropWhile_parted stops parted]
  cases after : cs.dropWhile Char.isDigit with
  | nil =>
    have feed : rest.head? = some '\n' := by
      refine parted.resolve_left fun member => ?_
      have digits := List.dropWhile_eq_nil_iff.1 after _ member
      rw [stops] at digits
      cases digits
    cases rest with
    | nil => cases feed
    | cons d ds =>
      cases feed
      rfl
  | cons d ds =>
    by_cases point : d = '.'
    · subst point
      have more : Parted ds rest := by
        refine parted.imp_left fun member => ?_
        rw [← List.takeWhile_append_dropWhile (p := Char.isDigit) (l := cs), after] at member
        rcases List.mem_append.1 member with digit | member
        · have passed := List.all_eq_true.1 List.all_takeWhile _ digit
          rw [stops] at passed
          cases passed
        · simpa using member
      simp only [List.cons_append, takeWhile_parted stops more]
    · rw [List.cons_append]
      split
      · rename_i same
        exact absurd (List.cons.inj same).1 point
      · split
        · rename_i same
          exact absurd (List.cons.inj same).1 point
        · rfl

theorem head_parted {d : Char} (other : d ≠ '\n') (parted : Parted cs rest) :
    (cs ++ rest).head? = some d ↔ cs.head? = some d := by
  cases cs with
  | nil =>
    have first : rest.head? = some '\n' := parted.resolve_left (by simp)
    simp [first, other.symm]
  | cons e es => simp

theorem operator_parted (parted : Parted cs rest) : operator c (cs ++ rest) = operator c cs := by
  cases cs with
  | cons d ds => rfl
  | nil =>
    have first : rest.head? = some '\n' := parted.resolve_left (by simp)
    cases rest with
    | nil => cases first
    | cons d ds =>
      cases first
      have clean : ∀ x ∈ operators, '\n' ∉ x.toList := by decide
      have two : ¬ ([c, '\n'].length = 2 ∧ operators.contains (String.ofList [c, '\n'])) :=
        fun both => clean _ (List.contains_iff_mem.1 both.2) (by simp)
      have one : ¬ ([c].length = 2 ∧ operators.contains (String.ofList [c])) :=
        fun both => absurd both.1 (by simp)
      unfold operator
      dsimp only [List.nil_append, List.take]
      rw [if_neg two, if_neg one]

theorem quoted_append {q : Char} (other : quoted q cs ≠ .error .openQuote) :
    quoted q (cs ++ rest) = quoted q cs := by
  have closed : (cs.takeWhile (· ≠ q)).length < cs.length := by
    by_contra long
    exact other (if_neg long)
  have body : (cs ++ rest).takeWhile (· ≠ q) = cs.takeWhile (· ≠ q) := by
    rw [List.takeWhile_append, if_neg (Nat.ne_of_lt closed)]
  have closed' : (cs.takeWhile (· ≠ q)).length < (cs ++ rest).length := by
    rw [List.length_append]
    omega
  simp only [quoted, body, if_pos closed, if_pos closed']

/-- What comes after a line changes no lexeme before it but an open quote. -/
theorem lexeme_parted (parted : Text.isBlank c ∨ Parted cs rest)
    (other : lexeme c cs ≠ .error .openQuote) : lexeme c (cs ++ rest) = lexeme c cs := by
  unfold lexeme at other ⊢
  by_cases blank : Text.isBlank c
  · rw [if_pos blank, if_pos blank]
  have parted := parted.resolve_left blank
  rw [if_neg blank] at other ⊢
  rw [if_neg blank]
  have more : ((cs ++ rest).head? = some '>') = (cs.head? = some '>') :=
    propext (head_parted (by decide) parted)
  have comment := takeWhile_parted (p := (· ≠ '\n')) (by decide) parted
  have word := takeWhile_parted (p := isWord) (by decide) parted
  simp only [more, comment, word, numberTail_parted parted, operator_parted parted]
  split
  · rfl
  · rename_i plain
    rw [if_neg plain] at other
    split
    · rename_i quote
      rw [if_pos quote] at other
      exact quoted_append other
    · rfl

/-! Whole texts. -/

/-- The text goes on with a new line. -/
def Broken (cs rest : List Char) : Prop :=
  cs = [] ∨ cs.getLast? = some '\n' ∨ rest.head? = some '\n'

theorem Broken.head (broken : Broken (c :: cs) rest) : Text.isBlank c ∨ Parted cs rest := by
  rcases broken with none | last | feed
  · cases none
  · cases cs with
    | nil =>
      cases last
      exact .inl (by decide)
    | cons d ds =>
      rw [List.getLast?_cons_cons] at last
      exact .inr (.inl (List.mem_of_getLast? last))
  · exact .inr (.inr feed)

theorem Broken.tail {taken cs : List Char} (broken : Broken (taken ++ cs) rest) :
    Broken cs rest := by
  rcases broken with none | last | feed
  · exact .inl (List.append_eq_nil_iff.1 none).2
  · cases cs with
    | nil => exact .inl rfl
    | cons d ds =>
      rw [List.getLast?_append_of_ne_nil _ (List.cons_ne_nil d ds)] at last
      exact .inr (.inl last)
  · exact .inr (.inr feed)

/-- One lexeme, and then the others. -/
theorem scanFrom_step {l : Lexeme} (read : lexeme c cs = .ok l) (cut : l.taken ++ rest = c :: cs)
    (n : Nat) (m : Mark) :
    scanFrom (n + 1) m (c :: cs) =
      l.before (m.spanTo (m.after l.taken)) (scanFrom n (m.after l.taken) rest) := by
  have proper := (lexeme_heads read).proper
  have tail : cs.drop (l.taken.length - 1) = rest := by
    cases taken : l.taken with
    | nil => exact absurd taken proper
    | cons d ds =>
      rw [taken] at cut
      obtain ⟨-, same⟩ := List.cons.inj cut
      simp [← same]
  rw [scanFrom, read]
  dsimp only
  rw [tail]
  rfl

/-- More steps than there are characters are never taken. -/
theorem scanFrom_enough {n k : Nat} {m : Mark} (enough : cs.length ≤ n) (enough' : cs.length ≤ k) :
    scanFrom n m cs = scanFrom k m cs := by
  induction n generalizing k cs m with
  | zero =>
    cases List.eq_nil_of_length_eq_zero (Nat.le_zero.1 enough)
    simp [scanFrom]
  | succ n ih =>
    cases cs with
    | nil => simp [scanFrom]
    | cons c cs =>
      obtain ⟨k, rfl⟩ := Nat.exists_eq_succ_of_ne_zero (Nat.ne_of_gt (Nat.lt_of_lt_of_le
        (Nat.succ_pos cs.length) enough'))
      cases read : lexeme c cs with
      | error f => rw [scanFrom, scanFrom, read]
      | ok l =>
        obtain ⟨⟨rest, cut⟩, proper, -, -⟩ := lexeme_heads read
        have positive := List.length_pos_iff.2 proper
        have size := congrArg List.length cut
        simp only [List.length_append, List.length_cons] at size enough enough'
        rw [scanFrom_step read cut, scanFrom_step read cut, ih (k := k) (by omega) (by omega)]

/-- The tokens `front`, and then those of the rest. -/
def preceded (front : List Token) (rest : Except Error (List Token)) : Except Error (List Token) :=
  rest.map (front ++ ·)

theorem preceded_preceded (ts us : List Token) (rest : Except Error (List Token)) :
    preceded ts (preceded us rest) = preceded (ts ++ us) rest := by
  cases rest <;> simp [preceded, Except.map]

/-- The token of a lexeme, if there is one. -/
def Lexeme.tokens (l : Lexeme) (span : Span) : List Token :=
  (l.token.map fun t => ⟨t.1, String.ofList t.2, span⟩).toList

theorem Lexeme.before_eq (l : Lexeme) (span : Span) (rest : Except Error (List Token)) :
    l.before span rest = preceded (l.tokens span) rest := by
  unfold Lexeme.before Lexeme.tokens preceded
  cases rest with
  | error e => rfl
  | ok ts => cases l.token <;> rfl

theorem Lexeme.Heads.tokens_proper {l : Lexeme} {span : Span} (heads : l.Heads cs) :
    ∀ t ∈ l.tokens span, t.kind ≠ .eof := by
  intro t member
  obtain ⟨⟨kind, x⟩, token, rfl⟩ : ∃ p, l.token = some p ∧ ⟨p.1, String.ofList p.2, span⟩ = t := by
    simpa [Lexeme.tokens] using member
  exact (heads.forms kind x token).1

/-- How a text that goes on with a new line is cut. It may stop within a quoted text, or be no text
at all however it goes on, or else its own tokens come first. -/
inductive Cuts (m : Mark) (cs rest : List Char) : Except Error (List Token) → Prop
  | openQuote {e : Error} (fault : e.fault = .lexical .openQuote) : Cuts m cs rest (.error e)
  | fails {e : Error} (failed : ∀ k, (cs ++ rest).length ≤ k →
      ∃ e', scanFrom k m (cs ++ rest) = .error e') : Cuts m cs rest (.error e)
  | first {front : List Token} (proper : ∀ t ∈ front, t.kind ≠ .eof)
      (others : ∀ k, (cs ++ rest).length ≤ k →
        scanFrom k m (cs ++ rest) = preceded front (scanFrom rest.length (m.after cs) rest)) :
      Cuts m cs rest (.ok (front ++ [final (m.after cs)]))

theorem cuts_nil (n : Nat) (m : Mark) (rest : List Char) : Cuts m [] rest (scanFrom n m []) := by
  have whole : scanFrom n m [] = .ok ([] ++ [final (m.after [])]) := by
    cases n <;> rfl
  rw [whole]
  refine .first (by simp) fun k long => ?_
  rw [List.nil_append] at long ⊢
  rw [scanFrom_enough long (Nat.le_refl _)]
  change scanFrom rest.length m rest = preceded [] (scanFrom rest.length m rest)
  cases scanFrom rest.length m rest <;> rfl

/-- Tokens that come first on both texts leave the cut where it is. -/
theorem Cuts.preceded {m' : Mark} {cs' : List Char} {front' : List Token}
    {result : Except Error (List Token)} (after : m.after cs = m'.after cs')
    (proper' : ∀ t ∈ front', t.kind ≠ .eof)
    (goes : ∀ k, (cs ++ rest).length ≤ k → ∃ j, (cs' ++ rest).length ≤ j ∧
      scanFrom k m (cs ++ rest) = Token.preceded front' (scanFrom j m' (cs' ++ rest)))
    (later : Cuts m' cs' rest result) : Cuts m cs rest (Token.preceded front' result) := by
  cases later with
  | openQuote fault => exact .openQuote fault
  | fails failed =>
    refine .fails fun k long => ?_
    obtain ⟨j, fits, run⟩ := goes k long
    obtain ⟨e', failed⟩ := failed j fits
    exact ⟨e', by rw [run, failed]; rfl⟩
  | @first front proper others =>
    have whole : Token.preceded front' (.ok (front ++ [final (m'.after cs')])) =
        .ok (front' ++ front ++ [final (m.after cs)]) := by
      rw [after, List.append_assoc]
      rfl
    rw [whole]
    refine .first (List.forall_mem_append.2 ⟨proper', proper⟩) fun k long => ?_
    obtain ⟨j, fits, run⟩ := goes k long
    rw [run, others j fits, preceded_preceded, after]

theorem scanFrom_cuts {n : Nat} (m : Mark) (broken : Broken cs rest) (enough : cs.length ≤ n) :
    Cuts m cs rest (scanFrom n m cs) := by
  induction n generalizing cs m with
  | zero =>
    cases List.eq_nil_of_length_eq_zero (Nat.le_zero.1 enough)
    exact cuts_nil 0 m rest
  | succ n ih =>
    cases cs with
    | nil => exact cuts_nil (n + 1) m rest
    | cons c cs =>
      have steps {k : Nat} (long : (c :: cs ++ rest).length ≤ k) : ∃ j, k = j + 1 :=
        Nat.exists_eq_succ_of_ne_zero (Nat.ne_of_gt (Nat.lt_of_lt_of_le (Nat.succ_pos _) long))
      cases read : lexeme c cs with
      | error f =>
        rw [scanFrom, read]
        by_cases quote : f = .openQuote
        · exact .openQuote (congrArg Fault.lexical quote)
        · refine .fails fun k long => ?_
          obtain ⟨k, rfl⟩ := steps long
          have read' : lexeme c (cs ++ rest) = .error f := by
            rw [lexeme_parted broken.head (by simp [read, quote]), read]
          rw [List.cons_append, scanFrom, read']
          exact ⟨_, rfl⟩
      | ok l =>
        have heads := lexeme_heads read
        obtain ⟨rest', cut⟩ := heads.taken
        have read' : lexeme c (cs ++ rest) = .ok l := by
          rw [lexeme_parted broken.head (by simp [read]), read]
        have cut' : l.taken ++ (rest' ++ rest) = c :: (cs ++ rest) := by
          rw [← List.append_assoc, cut]
          rfl
        have size := congrArg List.length cut
        have positive := List.length_pos_iff.2 heads.proper
        simp only [List.length_append, List.length_cons] at size enough
        rw [scanFrom_step read cut, Lexeme.before_eq]
        refine .preceded ?_ heads.tokens_proper (fun k long => ?_)
          (ih (m.after l.taken) (cut ▸ broken).tail (show rest'.length ≤ n by omega))
        · rw [← cut, Mark.after, List.foldl_append]
          rfl
        · obtain ⟨j, rfl⟩ := steps long
          refine ⟨j, ?_, ?_⟩
          · simp only [List.length_append, List.length_cons] at long ⊢
            omega
          · rw [List.cons_append, scanFrom_step read' cut', Lexeme.before_eq]

end Script.Token

namespace Script

/-- The place that is so many characters and lines further on. -/
def Span.shift (chars lines : Nat) (s : Span) : Span :=
  ⟨s.start + chars, s.stop + chars, s.line + lines, s.column⟩

theorem Span.shift_keeps (chars lines : Nat) : Keeps (Span.shift chars lines) := by
  intro s t
  simp only [shift, through, mk.injEq, and_true, true_and]
  exact (Nat.add_max_add_right t.stop s.start chars).symm

namespace Mark

def shift (chars lines : Nat) (m : Mark) : Mark :=
  ⟨m.offset + chars, m.line + lines, m.column⟩

variable {chars lines : Nat}

theorem past_shift (m : Mark) (c : Char) :
    (m.shift chars lines).past c = (m.past c).shift chars lines := by
  unfold past
  split <;> simp only [shift, Nat.add_right_comm]

theorem after_shift (cs : List Char) (m : Mark) :
    (m.shift chars lines).after cs = (m.after cs).shift chars lines := by
  induction cs generalizing m with
  | nil => rfl
  | cons c cs ih =>
    change ((m.shift chars lines).past c).after cs = _
    rw [past_shift, ih]
    rfl

/-- After a line comes the first column of the next one. -/
theorem after_line (cs : List Char) :
    first.after (cs ++ ['\n']) = first.shift (cs.length + 1) (cs.count '\n' + 1) := by
  have start : first = of (cs ++ ['\n']) 0 := rfl
  rw [start, after_of (show List.drop 0 _ = cs ++ ['\n'] ++ [] by simp)]
  have whole : (cs ++ ['\n']).take (cs.length + 1) = cs ++ ['\n'] :=
    List.take_of_length_le (by simp)
  simp [of, shift, Text.lineAt, Text.columnAt, whole]

end Mark

namespace Token

variable {chars lines : Nat}

/-- The tokens, or the error, that stand further on. -/
def shifted (chars lines : Nat) : Except Error (List Token) → Except Error (List Token)
  | .ok ts => .ok (ts.map (relocate (Span.shift chars lines)))
  | .error e => .error (e.relocate (Span.shift chars lines))

theorem scanFrom_shift (n : Nat) (m : Mark) (cs : List Char) :
    scanFrom n (m.shift chars lines) cs = shifted chars lines (scanFrom n m cs) := by
  induction n generalizing cs m with
  | zero => cases cs <;> rfl
  | succ n ih =>
    cases cs with
    | nil => rfl
    | cons c cs =>
      cases read : lexeme c cs with
      | error f =>
        rw [scanFrom, scanFrom, read]
        dsimp only
        rw [Mark.after_shift]
        rfl
      | ok l =>
        obtain ⟨rest, cut⟩ := (lexeme_heads read).taken
        rw [scanFrom_step read cut, scanFrom_step read cut, Mark.after_shift, ih]
        unfold Lexeme.before
        cases scanFrom n (m.after l.taken) rest with
        | error e => rfl
        | ok ts => cases l.token <;> rfl

end Token

end Script
