import Mathlib
import Script.Token.Scan

/-! Scanning undoes printing. Tokens that are printed one to a line, each in a way that its kind
allows, are the tokens that a scan of the lines finds. -/

namespace Script

namespace Text

/-! Classes of characters that do not meet. -/

theorem blank_of_ranges {c : Char} (blank : isBlank c = true) :
    ∃ b ∈ blankRanges, b.1 ≤ c.toNat ∧ c.toNat ≤ b.2 := by
  simpa [isBlank, covers] using blank

theorem isDigit_iff {c : Char} : c.isDigit = true ↔ 48 ≤ c.toNat ∧ c.toNat ≤ 57 := by
  simp [Char.isDigit, UInt32.le_iff_toNat_le]

theorem isAlpha_iff {c : Char} :
    c.isAlpha = true ↔ 65 ≤ c.toNat ∧ c.toNat ≤ 90 ∨ 97 ≤ c.toNat ∧ c.toNat ≤ 122 := by
  simp [Char.isAlpha, Char.isUpper, Char.isLower, UInt32.le_iff_toNat_le]

/-- A blank among the first 128 characters is a space or a control character. -/
theorem blank_ascii {c : Char} (blank : isBlank c = true) (ascii : c.toNat < 128) :
    c.toNat ≤ 32 := by
  simp only [isBlank, covers, blankRanges, List.any_cons, List.any_nil, Bool.or_false,
    Bool.or_eq_true, Bool.and_eq_true, decide_eq_true_eq] at blank
  omega

theorem digit_not_blank {c : Char} (digit : c.isDigit = true) : isBlank c = false := by
  rw [Bool.eq_false_iff]
  intro blank
  have range := isDigit_iff.1 digit
  have := blank_ascii blank (by omega)
  omega

theorem letterRanges_apart : (letterRanges.all fun l => blankRanges.all fun b =>
    Nat.blt l.2 b.1 || Nat.blt b.2 l.1) = true := by
  decide +kernel

theorem letter_not_blank {c : Char} (letter : isLetter c = true) : isBlank c = false := by
  rw [Bool.eq_false_iff]
  intro blank
  unfold isLetter at letter
  split at letter
  · rename_i ascii
    have low := blank_ascii blank ascii
    have range := isAlpha_iff.1 letter
    omega
  · obtain ⟨b, inBlanks, above, below⟩ := blank_of_ranges blank
    simp only [covers, List.any_eq_true, Bool.and_eq_true, decide_eq_true_eq] at letter
    obtain ⟨l, inLetters, above', below'⟩ := letter
    have apart := List.all_eq_true.1 (List.all_eq_true.1 letterRanges_apart l inLetters) b inBlanks
    simp only [Bool.or_eq_true, Nat.blt_eq] at apart
    omega

theorem letter_not_digit {c : Char} (letter : isLetter c = true) : c.isDigit = false := by
  rw [Bool.eq_false_iff]
  intro digit
  have range := isDigit_iff.1 digit
  unfold isLetter at letter
  rw [if_pos (by omega)] at letter
  have := isAlpha_iff.1 letter
  omega

end Text

namespace Token

/-- The characters that print a token of the kind and text. A quoted text may stand between quotes
of either kind that it does not contain. -/
inductive Printed : Kind → List Char → List Char → Prop
  | keyword {x : List Char} (known : String.ofList x ∈ keywords) : Printed .keyword x x
  | name {c : Char} {x : List Char} (first : Text.isLetter c ∨ c = '_') (rest : ∀ d ∈ x, isWord d)
    (other : String.ofList (c :: x) ∉ keywords) : Printed .name (c :: x) (c :: x)
  | whole {c : Char} {x : List Char} (digits : ∀ d ∈ c :: x, d.isDigit) :
    Printed .number (c :: x) (c :: x)
  | decimal {c : Char} {x y : List Char} (digits : ∀ d ∈ c :: x, d.isDigit)
    (more : ∀ d ∈ y, d.isDigit) : Printed .number (c :: x ++ '.' :: y) (c :: x ++ '.' :: y)
  | text {q : Char} {x : List Char} (quote : q = '"' ∨ q = '\'') (absent : q ∉ x) :
    Printed .text x (q :: x ++ [q])
  | operator {x : List Char} (known : String.ofList x ∈ operators) : Printed .operator x x
  | delimiter {c : Char} (known : c ∈ delimiters) : Printed .delimiter [c] [c]
  | comment {x : List Char} (line : '\n' ∉ x) : Printed .comment ('>' :: '>' :: x) ('>' :: '>' :: x)

/-- A test that all passes before a line feed, and the line feed fails, takes just that. -/
theorem takeWhile_line {p : Char → Bool} {x : List Char} (all : ∀ c ∈ x, p c = true)
    (feed : p '\n' = false) (rest : List Char) : (x ++ '\n' :: rest).takeWhile p = x := by
  rw [List.takeWhile_append_of_pos all, List.takeWhile_cons_of_neg (by simp [feed]),
    List.append_nil]

/-! Each kind of token at the head of a line. -/

theorem lexeme_word_taken {c : Char} {x cs : List Char} (first : Text.isLetter c ∨ c = '_')
    (taken : cs.takeWhile isWord = x) :
    lexeme c cs = .ok (plain
      (if keywords.contains (String.ofList (c :: x)) then .keyword else .name) (c :: x)) := by
  have blank : Text.isBlank c = false := by
    rcases first with letter | rfl
    · exact Text.letter_not_blank letter
    · decide
  have digit : c.isDigit = false := by
    rcases first with letter | rfl
    · exact Text.letter_not_digit letter
    · decide
  have comment : c ≠ '>' := by
    rintro rfl
    revert first
    decide
  have quote : ¬ (c = '"' ∨ c = '\'') := by
    rintro (rfl | rfl) <;> revert first <;> decide
  simp only [lexeme, blank, digit, comment, quote, first, taken, Bool.false_eq_true, false_and,
    if_false, if_true]

theorem lexeme_word {c : Char} {x : List Char} (first : Text.isLetter c ∨ c = '_')
    (word : ∀ d ∈ x, isWord d) (rest : List Char) :
    lexeme c (x ++ '\n' :: rest) = .ok (plain
      (if keywords.contains (String.ofList (c :: x)) then .keyword else .name) (c :: x)) :=
  lexeme_word_taken first (takeWhile_line word (by decide) rest)

theorem lexeme_digit {c : Char} (digit : c.isDigit = true) (cs : List Char) :
    lexeme c cs = .ok (plain .number (c :: numberTail cs)) := by
  have comment : c ≠ '>' := by
    rintro rfl
    cases digit
  have quote : ¬ (c = '"' ∨ c = '\'') := by
    rintro (rfl | rfl) <;> cases digit
  simp only [lexeme, Text.digit_not_blank digit, digit, comment, quote, Bool.false_eq_true,
    false_and, if_false, if_true]

/-- Digits that neither a digit nor a point follows. -/
theorem numberTail_taken {x rest : List Char} (digits : ∀ d ∈ x, d.isDigit)
    (stops : ∀ d ∈ rest.head?, d.isDigit = false ∧ d ≠ '.') : numberTail (x ++ rest) = x := by
  unfold numberTail
  rw [List.takeWhile_append_of_pos digits, List.dropWhile_append_of_pos digits]
  cases rest with
  | nil => simp
  | cons d ds =>
    obtain ⟨digit, point⟩ := stops d rfl
    have none : ¬ d.isDigit = true := by simp [digit]
    rw [List.takeWhile_cons_of_neg none, List.dropWhile_cons_of_neg none, List.append_nil]
    split
    · rename_i same
      exact absurd (List.cons.inj same).1 point
    · exact List.append_nil x

theorem numberTail_whole {x : List Char} (digits : ∀ d ∈ x, d.isDigit) (rest : List Char) :
    numberTail (x ++ '\n' :: rest) = x :=
  numberTail_taken digits (by simp)

theorem numberTail_decimal {x y : List Char} (digits : ∀ d ∈ x, d.isDigit)
    (more : ∀ d ∈ y, d.isDigit) (rest : List Char) :
    numberTail (x ++ '.' :: y ++ '\n' :: rest) = x ++ '.' :: y := by
  have point : ¬ '.'.isDigit = true := by decide
  unfold numberTail
  rw [List.append_assoc, List.cons_append, List.takeWhile_append_of_pos digits,
    List.dropWhile_append_of_pos digits, List.takeWhile_cons_of_neg point,
    List.dropWhile_cons_of_neg point, List.append_nil]
  exact congrArg (x ++ '.' :: ·) (takeWhile_line more (by decide) rest)

theorem lexeme_quote_closed {q : Char} {x : List Char} (quote : q = '"' ∨ q = '\'') (absent : q ∉ x)
    (rest : List Char) : lexeme q (x ++ q :: rest) = .ok ⟨q :: x ++ [q], some (.text, x)⟩ := by
  have body : (x ++ q :: rest).takeWhile (· ≠ q) = x := by
    have passes : ∀ c ∈ x, decide (c ≠ q) = true := by
      intro c member
      rw [decide_eq_true_eq]
      rintro rfl
      exact absent member
    rw [List.takeWhile_append_of_pos passes, List.takeWhile_cons_of_neg (by simp),
      List.append_nil]
  have short : x.length < (x ++ q :: rest).length := by simp
  have blank : Text.isBlank q = false := by
    rcases quote with rfl | rfl <;> decide
  have comment : q ≠ '>' := by
    rcases quote with rfl | rfl <;> decide
  simp only [lexeme, quoted, blank, comment, quote, body, short, Bool.false_eq_true, false_and,
    if_false, if_true]

theorem lexeme_quote {q : Char} {x : List Char} (quote : q = '"' ∨ q = '\'') (absent : q ∉ x)
    (rest : List Char) :
    lexeme q (x ++ [q] ++ '\n' :: rest) = .ok ⟨q :: x ++ [q], some (.text, x)⟩ := by
  rw [List.append_assoc, List.singleton_append]
  exact lexeme_quote_closed quote absent _

theorem lexeme_comment {x : List Char} (line : '\n' ∉ x) (rest : List Char) :
    lexeme '>' ('>' :: x ++ '\n' :: rest) = .ok (plain .comment ('>' :: '>' :: x)) := by
  have passes : ∀ c ∈ '>' :: x, decide (c ≠ '\n') = true := by
    intro c member
    rw [decide_eq_true_eq]
    rintro rfl
    rcases List.mem_cons.1 member with other | inside
    · cases other
    · exact line inside
  have taken := takeWhile_line passes (by decide) rest
  have blank : Text.isBlank '>' = false := by decide
  have start : ('>' :: x ++ '\n' :: rest).head? = some '>' := rfl
  simp only [lexeme, taken, blank, start, Bool.false_eq_true, and_self, if_false, if_true]

/-- An operator is not the beginning of a longer one, once a line feed follows. -/
theorem lexeme_operator {x : List Char} (known : String.ofList x ∈ operators) :
    ∃ c cs, x = c :: cs ∧ ∀ rest, lexeme c (cs ++ '\n' :: rest) = .ok (plain .operator x) := by
  obtain ⟨op, member, same⟩ : ∃ op ∈ operators, x = op.toList := ⟨_, known, by simp⟩
  subst same
  clear known
  revert op
  simp only [operators, List.forall_mem_cons, List.not_mem_nil, false_implies, implies_true,
    and_true]
  refine ⟨?_, ?_, ?_, ?_, ?_, ?_, ?_, ?_, ?_, ?_, ?_, ?_, ?_, ?_, ?_, ?_⟩ <;>
    exact ⟨_, _, rfl, fun _ => rfl⟩

theorem lexeme_delimiter {c : Char} (known : c ∈ delimiters) (rest : List Char) :
    lexeme c rest = .ok (plain .delimiter [c]) := by
  revert c
  simp only [delimiters, List.forall_mem_cons, List.not_mem_nil, false_implies, implies_true,
    and_true]
  exact ⟨rfl, rfl, rfl, rfl, rfl, rfl, rfl, rfl, rfl⟩

theorem keyword_word {x : List Char} (known : String.ofList x ∈ keywords) :
    ∃ c cs, x = c :: cs ∧ Text.isLetter c ∧ ∀ d ∈ cs, isWord d := by
  have shapes : keywords.all (fun k =>
      match k.toList with
      | c :: cs => Text.isLetter c && cs.all isWord
      | [] => false) = true := by
    decide +kernel
  have shape := List.all_eq_true.1 shapes _ known
  rw [String.toList_ofList] at shape
  cases x with
  | nil => cases shape
  | cons c cs =>
    simp only [Bool.and_eq_true, List.all_eq_true] at shape
    exact ⟨c, cs, rfl, shape.1, shape.2⟩

/-- On a line of its own, a printed token is read back. -/
theorem Printed.lexeme {kind : Kind} {x cs : List Char} (printed : Printed kind x cs) :
    ∃ c more, cs = c :: more ∧
      ∀ rest, lexeme c (more ++ '\n' :: rest) = .ok ⟨cs, some (kind, x)⟩ := by
  cases printed with
  | keyword known =>
    obtain ⟨c, more, rfl, first, word⟩ := keyword_word known
    refine ⟨c, more, rfl, fun rest => ?_⟩
    rw [lexeme_word (.inl first) word, if_pos (List.contains_iff_mem.2 known)]
    rfl
  | @name c more first word other =>
    refine ⟨c, more, rfl, fun rest => ?_⟩
    rw [lexeme_word first word, if_neg (fun known => other (List.contains_iff_mem.1 known))]
    rfl
  | @whole c more digits =>
    obtain ⟨first, others⟩ := List.forall_mem_cons.1 digits
    refine ⟨c, more, rfl, fun rest => ?_⟩
    rw [lexeme_digit first, numberTail_whole others]
    rfl
  | @decimal c more fraction digits after =>
    obtain ⟨first, others⟩ := List.forall_mem_cons.1 digits
    refine ⟨c, more ++ '.' :: fraction, rfl, fun rest => ?_⟩
    rw [lexeme_digit first, numberTail_decimal others after]
    rfl
  | @text q x quote absent =>
    exact ⟨q, x ++ [q], rfl, fun rest => lexeme_quote quote absent rest⟩
  | operator known => exact lexeme_operator known
  | @delimiter c known => exact ⟨c, [], rfl, fun _ => lexeme_delimiter known _⟩
  | @comment x line => exact ⟨'>', '>' :: x, rfl, fun rest => lexeme_comment line rest⟩

/-- A token that can be printed, and the characters that print it. -/
structure Printable where
  kind : Kind
  text : String
  chars : List Char
  printed : Printed kind text.toList chars

/-- Tokens one to a line. -/
def lines (ps : List Printable) : List Char :=
  ps.flatMap fun p => p.chars ++ ['\n']

section

variable {c : Char} {cs taken x : List Char} {kind : Kind}

theorem scanFrom_blank (read : lexeme c cs = .ok ⟨taken, none⟩) (n : Nat) (m : Mark) :
    scanFrom (n + 1) m (c :: cs) = scanFrom n (m.after taken) (cs.drop (taken.length - 1)) := by
  rw [scanFrom, read]
  dsimp only
  split
  · rename_i none
    cases none
  · rfl

theorem scanFrom_token (read : lexeme c cs = .ok ⟨taken, some (kind, x)⟩) {n : Nat} {m : Mark}
    {ts : List Token}
    (later : scanFrom n (m.after taken) (cs.drop (taken.length - 1)) = .ok ts) :
    scanFrom (n + 1) m (c :: cs) =
      .ok (⟨kind, String.ofList x, m.spanTo (m.after taken)⟩ :: ts) := by
  rw [scanFrom, read]
  dsimp only
  rw [later]

end

/-- A printed token and its line feed take two steps of a scan. -/
theorem scanFrom_line (p : Printable) {rest : List Char} {n : Nat} {m : Mark} {ts : List Token}
    (later : scanFrom n (m.after (p.chars ++ ['\n'])) rest = .ok ts) :
    scanFrom (n + 2) m (p.chars ++ '\n' :: rest) =
      .ok (⟨p.kind, p.text, m.spanTo (m.after p.chars)⟩ :: ts) := by
  obtain ⟨c, more, chars, read⟩ := p.printed.lexeme
  have feed : lexeme '\n' rest = .ok ⟨['\n'], none⟩ := rfl
  have line : scanFrom (n + 1) (m.after p.chars) ('\n' :: rest) = .ok ts := by
    rw [scanFrom_blank feed, ← later]
    unfold Mark.after
    rw [List.foldl_append]
    rfl
  have left : (more ++ '\n' :: rest).drop (p.chars.length - 1) = '\n' :: rest := by
    rw [chars, List.length_cons, Nat.add_sub_cancel, List.drop_left]
  have whole : p.chars ++ '\n' :: rest = c :: (more ++ '\n' :: rest) := by
    rw [chars, List.cons_append]
  rw [← left] at line
  rw [whole, scanFrom_token (read rest) line, String.ofList_toList]

theorem scanFrom_lines (ps : List Printable) {n : Nat} (enough : (lines ps).length ≤ n) (m : Mark) :
    ∃ ts, scanFrom n m (lines ps) = .ok ts ∧
      ts.map (fun t => (t.kind, t.text)) =
        ps.map (fun p => (p.kind, p.text)) ++ [(.eof, "")] := by
  induction ps generalizing n m with
  | nil => exact ⟨[final m], by cases n <;> rfl, rfl⟩
  | cons p ps ih =>
    obtain ⟨c, more, chars, -⟩ := p.printed.lexeme
    have whole : lines (p :: ps) = p.chars ++ '\n' :: lines ps := by simp [lines]
    rw [whole, chars, List.length_append, List.length_cons, List.length_cons] at enough
    -- a printed token is not empty, so that its line has the two steps to spare
    obtain ⟨k, rfl⟩ : ∃ k, n = k + 2 := ⟨n - 2, by omega⟩
    obtain ⟨ts, later, found⟩ := ih (n := k) (by omega) (m.after (p.chars ++ ['\n']))
    refine ⟨⟨p.kind, p.text, m.spanTo (m.after p.chars)⟩ :: ts, ?_, ?_⟩
    · rw [whole]
      exact scanFrom_line p later
    · simp [found]

/-- Tokens printed one to a line are scanned back, in order and with nothing between them. -/
theorem scan_lines (ps : List Printable) :
    ∃ ts, scan (String.ofList (lines ps)) = .ok ts ∧
      ts.map (fun t => (t.kind, t.text)) =
        ps.map (fun p => (p.kind, p.text)) ++ [(.eof, "")] := by
  unfold scan
  rw [String.toList_ofList]
  exact scanFrom_lines ps (by simp) Mark.first

/-- A sign that begins a longer one, which begins a comment, and a word that begins a keyword. -/
example :
    let ps : List Printable := [
      ⟨.operator, ">", ['>'], .operator (by decide +kernel)⟩,
      ⟨.comment, ">>", ['>', '>'], .comment (by decide)⟩,
      ⟨.name, "en", ['e', 'n'],
        .name (by decide) (List.forall_mem_singleton.2 (by decide)) (by decide +kernel)⟩]
    (scan (String.ofList (lines ps))).toOption.map (List.map Token.kind) =
      some [.operator, .comment, .name, .eof] := by
  decide +kernel

end Token

end Script
