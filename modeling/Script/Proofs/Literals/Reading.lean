import Script.Proofs.Continuation.Scanning
import Script.Proofs.Literals.Data
import Script.Proofs.ProgramCompleteness

/-! Texts of data as sources: a scan of the text finds the words of a literal. -/

namespace Script

namespace Data

mutual

/-- The literal that the text of a tree is read as. The minus sign of an integer is an operator. -/
def literal : Data → Expr
  | .null => .literal .null default
  | .bool b => .literal (.bool b) default
  | .int n =>
    if n.toInt < 0 then .negate (.literal (.int (Int64.ofInt (-n.toInt))) default) default
    else .literal (.int n) default
  | .string s => .literal (.string s) default
  | .list items => .list (literals items) default
  | .object entries => .object (entryLiterals entries) default

def literals : List Data → List Expr
  | [] => []
  | d :: ds => d.literal :: literals ds

def entryLiterals : List (String × Data) → List (String × Expr)
  | [] => []
  | (key, d) :: rest => (key, d.literal) :: entryLiterals rest

end

@[simp] theorem literals_eq_map (ds : List Data) : literals ds = ds.map literal := by
  induction ds with
  | nil => rfl
  | cons d ds ih => simp [literals, ih]

@[simp] theorem entryLiterals_eq_map (es : List (String × Data)) :
    entryLiterals es = es.map fun e => (e.1, e.2.literal) := by
  induction es with
  | nil => rfl
  | cons e es ih => simp [entryLiterals, ih]

end Data

/-! Integers. -/

theorem readDigits_toDigits (n : Nat) : readDigits (Nat.toDigits 10 n) = some n := by
  have digits : (Nat.toDigits 10 n).all Char.isDigit := List.all_eq_true.2 fun d member =>
    Nat.isDigit_of_mem_toDigits (by decide) (by decide) member
  rw [readDigits, if_pos ⟨Nat.toDigits_ne_nil, digits⟩]
  exact congrArg some Nat.ofDigitChars_ten_toDigits

theorem Integer.read_digits {ds : List Char} (digits : ∀ d ∈ ds, d.isDigit) :
    Integer.read ds = (readDigits ds).bind fun n => exact n := by
  unfold Integer.read
  split
  · exact absurd (digits '-' List.mem_cons_self) (by decide)
  · exact absurd (digits '+' List.mem_cons_self) (by decide)
  · rfl

/-- The digits of a number that fits are read as that number. -/
theorem Parser.numberLiteral_repr {n : Nat} (fits : n < 9223372036854775808) :
    Parser.numberLiteral (Nat.repr n) = some (.int (Int64.ofInt n)) := by
  have digits : ∀ d ∈ Nat.toDigits 10 n, d.isDigit := fun d member =>
    Nat.isDigit_of_mem_toDigits (by decide) (by decide) member
  have inside : Integer.Fits n := ⟨by omega, by omega⟩
  have read : Integer.read (Nat.repr n).toList = some (Int64.ofInt n) := by
    rw [Nat.repr_eq_ofList_toDigits, String.toList_ofList, Integer.read_digits digits,
      readDigits_toDigits]
    rw [Option.bind_some, Integer.exact, if_pos inside]
  unfold Parser.numberLiteral
  rw [read]
  rfl

theorem Int64.toInt_bounds (n : Int64) :
    -9223372036854775808 ≤ n.toInt ∧ n.toInt < 9223372036854775808 := by
  have := Int64.le_toInt n
  have := Int64.toInt_lt n
  omega

theorem Int64.toInt_ne_of_ne_minValue {n : Int64} (other : n ≠ Int64.minValue) :
    n.toInt ≠ -9223372036854775808 := by
  intro same
  refine other (Int64.toInt_inj.1 ?_)
  rw [same, Int64.toInt_minValue]
  norm_num

namespace Token

/-- Before any rest that is `allowed`, the characters are cut into tokens that spell the words. -/
def Writes (cs : List Char) (ws : List Word) (allowed : List Char → Prop) : Prop :=
  ∀ rest, allowed rest → ∀ m, ∃ front, Spells ws front ∧
    (∀ t ∈ front, t.kind ≠ .comment ∧ t.kind ≠ .eof) ∧
    ∀ n, (cs ++ rest).length ≤ n →
      scanFrom n m (cs ++ rest) = preceded front (scanFrom rest.length (m.after cs) rest)

/-- An item ends at a comma or a closing bracket. -/
def Closes (rest : List Char) : Prop :=
  ∀ c ∈ rest.head?, c = ',' ∨ c = ']' ∨ c = '\x7d'

namespace Writes

variable {cs cs' : List Char} {ws ws' : List Word} {allowed allowed' : List Char → Prop}

theorem nothing : Writes [] [] allowed := by
  intro rest _ m
  refine ⟨[], rfl, by simp, fun n enough => ?_⟩
  rw [List.nil_append] at enough ⊢
  rw [scanFrom_enough enough (Nat.le_refl _)]
  change _ = preceded [] (scanFrom rest.length m rest)
  cases scanFrom rest.length m rest <;> rfl

theorem append (first : Writes cs ws allowed) (second : Writes cs' ws' allowed')
    (meets : ∀ rest, allowed' rest → allowed (cs' ++ rest)) :
    Writes (cs ++ cs') (ws ++ ws') allowed' := by
  intro rest fits m
  obtain ⟨front, spelt, proper, scanned⟩ := first (cs' ++ rest) (meets rest fits) m
  obtain ⟨front', spelt', proper', scanned'⟩ := second rest fits (m.after cs)
  refine ⟨front ++ front', spelt.append spelt', List.forall_mem_append.2 ⟨proper, proper'⟩,
    fun n enough => ?_⟩
  have after : m.after (cs ++ cs') = (m.after cs).after cs' := List.foldl_append
  rw [List.append_assoc] at enough ⊢
  rw [scanned n enough, scanned' _ (Nat.le_refl _), preceded_preceded, after]

theorem weaken (h : Writes cs ws allowed) (implies : ∀ rest, allowed' rest → allowed rest) :
    Writes cs ws allowed' :=
  fun rest fits => h rest (implies rest fits)

/-- A lexeme. -/
theorem lexeme {c : Char} {t : Option (Kind × List Char)}
    (read : ∀ rest, allowed rest → Token.lexeme c (cs ++ rest) = .ok ⟨c :: cs, t⟩)
    (spelt : ∀ span, Spells ws (Lexeme.tokens ⟨c :: cs, t⟩ span))
    (proper : ∀ u ∈ t, u.1 ≠ .comment ∧ u.1 ≠ .eof) : Writes (c :: cs) ws allowed := by
  intro rest fits m
  refine ⟨_, spelt (m.spanTo (m.after (c :: cs))), ?_, fun n enough => ?_⟩
  · intro u member
    obtain ⟨⟨kind, x⟩, here, rfl⟩ : ∃ p ∈ t,
        (⟨p.1, String.ofList p.2, m.spanTo (m.after (c :: cs))⟩ : Token) = u := by
      simpa [Lexeme.tokens] using member
    exact proper _ here
  · obtain ⟨n, rfl⟩ : ∃ k, n = k + 1 := Nat.exists_eq_succ_of_ne_zero (by
      rintro rfl
      cases enough)
    have short : rest.length ≤ n := by
      simp only [List.cons_append, List.length_cons, List.length_append] at enough
      omega
    rw [List.cons_append, scanFrom_step (read rest fits) rfl, Lexeme.before_eq,
      scanFrom_enough short (Nat.le_refl _)]

/-- A lexeme that is one token. -/
theorem token {c : Char} {k : Kind} {x : List Char} {w : Word}
    (read : ∀ rest, allowed rest → Token.lexeme c (cs ++ rest) = .ok ⟨c :: cs, some (k, x)⟩)
    (spelt : ∀ span, w.Spelt [⟨k, String.ofList x, span⟩])
    (proper : k ≠ .comment ∧ k ≠ .eof) : Writes (c :: cs) [w] allowed :=
  lexeme read (fun span => ⟨[_], [], rfl, spelt span, rfl⟩) (by simpa using proper)

theorem space : Writes [' '] [] fun _ => True :=
  lexeme (t := none) (fun _ _ => rfl) (fun _ => rfl) (by simp)

theorem delimiter {c : Char} {x : String} (known : c ∈ delimiters) (same : String.ofList [c] = x) :
    Writes [c] [.delimiter x] fun _ => True :=
  token (fun rest _ => lexeme_delimiter known rest) (fun span => ⟨_, rfl, rfl, same⟩) (by decide)

theorem takeWhile_closes {p : Char → Bool} {x rest : List Char} (all : ∀ c ∈ x, p c = true)
    (stops : p ',' = false ∧ p ']' = false ∧ p '\x7d' = false) (closes : Closes rest) :
    (x ++ rest).takeWhile p = x := by
  rw [List.takeWhile_append_of_pos all]
  cases rest with
  | nil => exact List.append_nil x
  | cons d ds =>
    have stop : ¬ p d = true := by
      rcases closes d rfl with rfl | rfl | rfl <;> simp [stops]
    rw [List.takeWhile_cons_of_neg stop, List.append_nil]

theorem keyword {x : String} (known : x ∈ keywords) : Writes x.toList [.keyword x] Closes := by
  obtain ⟨c, cs, chars, first, word⟩ := keyword_word (x := x.toList) (by simpa using known)
  rw [chars]
  refine token (k := .keyword) (x := x.toList) (fun rest closes => ?_)
    (fun span => ⟨_, rfl, rfl, String.ofList_toList⟩) (by decide)
  have taken := takeWhile_closes word (by decide) closes
  have listed : keywords.contains (String.ofList (c :: cs)) = true := by
    rw [← chars, String.ofList_toList]
    exact List.contains_iff_mem.2 known
  rw [lexeme_word_taken (.inl first) taken, if_pos listed, chars]
  rfl

theorem quoted {x : String} {w : Word} (plain : '"' ∉ x.toList)
    (spelt : ∀ span, w.Spelt [⟨.text, x, span⟩]) :
    Writes ('"' :: x.toList ++ ['"']) [w] fun _ => True := by
  refine token (k := .text) (x := x.toList) (fun rest _ => ?_) (fun span => ?_) (by decide)
  · simpa using lexeme_quote_closed (.inl rfl) plain rest
  · rw [String.ofList_toList]
    exact spelt span

/-- Digits that are read as a number. -/
theorem number {n : Nat} {v : Literal} (read : Parser.numberLiteral (Nat.repr n) = some v) :
    Writes (Nat.repr n).toList [.number v] Closes := by
  have digits : ∀ d ∈ (Nat.repr n).toList, d.isDigit := fun d member => by
    rw [Nat.repr_eq_ofList_toDigits, String.toList_ofList] at member
    exact Nat.isDigit_of_mem_toDigits (by decide) (by decide) member
  cases chars : (Nat.repr n).toList with
  | nil => exact absurd (String.toList_eq_nil_iff.1 chars) Nat.repr_ne_empty
  | cons c cs =>
    rw [chars] at digits
    obtain ⟨first, others⟩ := List.forall_mem_cons.1 digits
    refine token (k := .number) (x := c :: cs) (fun rest closes => ?_) (fun span => ?_) (by decide)
    · have tail : numberTail (cs ++ rest) = cs := numberTail_taken others fun d member => by
        rcases closes d member with rfl | rfl | rfl <;> decide
      rw [lexeme_digit first, tail]
      rfl
    · rw [← chars, String.ofList_toList]
      exact ⟨_, rfl, rfl, read⟩

/-- A minus sign before a digit. -/
theorem minus : Writes ['-'] [.operator "-"] fun rest => ∃ d ∈ rest.head?, d.isDigit := by
  refine token (k := .operator) (x := ['-']) ?_ (fun span => ⟨_, rfl, rfl, rfl⟩) (by decide)
  rintro rest ⟨d, first, digit⟩
  obtain ⟨ds, rfl⟩ : ∃ ds, rest = d :: ds := List.head?_eq_some_iff.1 first
  have alone : ¬ operators.contains (String.ofList ['-', d]) = true := by
    intro known
    have short : ∀ op ∈ operators, op.toList.head? = some '-' → op.toList.length = 1 := by decide
    have length := short _ (List.contains_iff_mem.1 known) (by simp)
    simp at length
  change operator '-' (d :: ds) = _
  unfold operator
  simp only [List.take_succ_cons, List.take_zero, alone]
  rfl

/-- Items with a comma and a space between them. -/
theorem items {α : Type} {l : List α} {f : α → List Char} {g : α → List Word}
    (each : ∀ x ∈ l, Writes (f x) (g x) Closes) :
    Writes ([',', ' '].intercalate (l.map f)) (commas (l.map g)) Closes := by
  induction l with
  | nil => exact nothing
  | cons x xs ih =>
    obtain ⟨first, others⟩ := List.forall_mem_cons.1 each
    cases xs with
    | nil => simpa [commas] using first
    | cons y ys =>
      have comma : Writes [','] [.comma] fun _ => True := delimiter (by decide) (by decide)
      have between : Writes [',', ' '] [.comma] fun _ => True :=
        comma.append space fun _ _ => trivial
      have rest := between.append (ih others) fun _ _ => trivial
      have whole := first.append rest fun rest _ => by simp [Closes]
      rw [List.map_cons, List.map_cons, List.intercalate_cons_cons, List.append_assoc]
      exact whole

end Writes

end Token

namespace Data

open Token

theorem toList_text_int {n : Int64} :
    (Integer.text n).toList =
      (if n.toInt < 0 then ['-'] else []) ++ (Nat.repr n.toInt.natAbs).toList := by
  unfold Integer.text
  split <;> simp

theorem writes_int {n : Int64} (readable : (Data.int n).Readable) :
    Writes (Integer.text n).toList (Data.int n).literal.words Closes := by
  have bounds := Int64.toInt_bounds n
  have other := Int64.toInt_ne_of_ne_minValue readable.plain
  have read : Parser.numberLiteral (Nat.repr n.toInt.natAbs) =
      some (.int (Int64.ofInt n.toInt.natAbs)) :=
    Parser.numberLiteral_repr (by omega)
  rw [toList_text_int]
  by_cases negative : n.toInt < 0
  · have size : (n.toInt.natAbs : Int) = -n.toInt := by omega
    rw [size] at read
    simp only [literal, if_pos negative, Expr.words, Literal.word]
    refine Writes.minus.append (Writes.number read) fun rest _ => ?_
    rw [Nat.repr_eq_ofList_toDigits, String.toList_ofList]
    obtain ⟨d, ds, digits⟩ := List.exists_cons_of_ne_nil (Nat.toDigits_ne_nil (n := n.toInt.natAbs)
      (b := 10))
    refine ⟨d, by simp [digits], ?_⟩
    exact Nat.isDigit_of_mem_toDigits (by decide) (by decide) (digits ▸ List.mem_cons_self)
  · have size : (n.toInt.natAbs : Int) = n.toInt := by omega
    rw [size, Int64.ofInt_toInt] at read
    simp only [literal, if_neg negative, Expr.words, Literal.word]
    exact Writes.number read

/-- The text of a tree is cut into the words of its literal. -/
theorem writes {d : Data} (readable : d.Readable) :
    Writes d.text.toList d.literal.words Closes := by
  induction d with
  | null => exact Writes.keyword (by decide)
  | bool b => cases b <;> exact Writes.keyword (by decide)
  | int n => exact writes_int readable
  | string s =>
    have whole := Writes.quoted (w := .text s) readable.plain fun span => ⟨_, rfl, rfl, rfl⟩
    simpa [text, literal, Expr.words, Literal.word] using whole.weaken fun _ _ => trivial
  | list ds ih =>
    have items := Writes.items (l := ds) (f := fun d => d.text.toList)
      (g := fun d => d.literal.words) fun d member => ih d member (readable.items d member)
    have first : Writes ['['] [.delimiter "["] fun _ => True := .delimiter (by decide) (by decide)
    have last : Writes [']'] [.delimiter "]"] fun _ => True := .delimiter (by decide) (by decide)
    have whole := first.append (items.append last fun rest _ => by simp [Closes]) fun _ _ => trivial
    simpa [text, literal, Expr.words, String.toList_intercalate, Function.comp_def] using
      whole.weaken fun _ _ => trivial
  | object es ih =>
    have colon : Writes [':'] [.delimiter ":"] fun _ => True := .delimiter (by decide) (by decide)
    have entry (e : String × Data) (member : e ∈ es) :
        Writes (('"' :: e.1.toList ++ ['"']) ++ ([':'] ++ ([' '] ++ e.2.text.toList)))
          (.key e.1 :: .delimiter ":" :: e.2.literal.words) Closes := by
      obtain ⟨plain, part⟩ := readable.entries.2 e member
      have key := Writes.quoted (w := .key e.1) plain fun span => ⟨_, rfl, .inr ⟨rfl, rfl⟩⟩
      have value := Writes.space.append (ih e member part) fun _ _ => trivial
      exact key.append (colon.append value fun _ _ => trivial) fun _ _ => trivial
    have entries := Writes.items (l := es) entry
    have first : Writes ['\x7b'] [.delimiter "\x7b"] fun _ => True :=
      .delimiter (by decide) (by decide)
    have last : Writes ['\x7d'] [.delimiter "\x7d"] fun _ => True :=
      .delimiter (by decide) (by decide)
    have whole := first.append (entries.append last fun rest _ => by simp [Closes])
      fun _ _ => trivial
    simpa [text, literal, Expr.words, wordsOfEntry, String.toList_intercalate,
      Function.comp_def] using whole.weaken fun _ _ => trivial

end Data

end Script
