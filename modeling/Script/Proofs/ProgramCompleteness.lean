import Script.Proofs.StatementCompleteness

/-! Every well-formed program can be written, and every row of tokens that spells it is read as that
program again. -/

namespace Script

/-- A token that is neither a comment nor the end. -/
def Token.Proper (t : Token) : Prop :=
  t.kind ≠ .comment ∧ t.kind ≠ .eof

/-- A word that some proper tokens spell. -/
def Word.Writable : Word → Prop
  | .token kind _ => kind ≠ .comment ∧ kind ≠ .eof
  | .number v => ∃ text, Parser.numberLiteral text = some v
  | _ => True

theorem Word.Writable.spelt {w : Word} (h : w.Writable) :
    ∃ ts, w.Spelt ts ∧ ∀ t ∈ ts, t.Proper := by
  cases w with
  | token kind x => exact ⟨[⟨kind, x, default⟩], ⟨_, rfl, rfl, rfl⟩, List.forall_mem_singleton.2 h⟩
  | key x => exact ⟨[⟨.name, x, default⟩], ⟨_, rfl, .inl ⟨rfl, rfl⟩⟩, by simp [Token.Proper]⟩
  | number v =>
    obtain ⟨text, denotes⟩ := h
    exact ⟨[⟨.number, text, default⟩], ⟨_, rfl, rfl, denotes⟩, by simp [Token.Proper]⟩
  | pair x y =>
    refine ⟨[⟨.name, x, default⟩, ⟨.delimiter, ",", default⟩, ⟨.name, y, default⟩], ?_, ?_⟩
    · exact ⟨_, _, _, ⟨rfl, rfl⟩, ⟨rfl, rfl⟩, ⟨rfl, rfl⟩, .inl rfl⟩
    · simp [Token.Proper]
  | optionalDo => exact ⟨[], .inl rfl, by simp⟩

/-- Words that can all be written. -/
def AllWritable (ws : List Word) : Prop :=
  ∀ w ∈ ws, w.Writable

@[simp] theorem allWritable_nil : AllWritable [] := by simp [AllWritable]

@[simp] theorem allWritable_cons {w : Word} {ws : List Word} :
    AllWritable (w :: ws) ↔ w.Writable ∧ AllWritable ws := List.forall_mem_cons

@[simp] theorem allWritable_append {ws vs : List Word} :
    AllWritable (ws ++ vs) ↔ AllWritable ws ∧ AllWritable vs := List.forall_mem_append

@[simp] theorem writable_token {kind : Token.Kind} {x : String} :
    (Word.token kind x).Writable ↔ kind ≠ .comment ∧ kind ≠ .eof := Iff.rfl

@[simp] theorem writable_key {x : String} : (Word.key x).Writable := trivial

@[simp] theorem writable_pair {x y : String} : (Word.pair x y).Writable := trivial

@[simp] theorem writable_optionalDo : Word.optionalDo.Writable := trivial

theorem AllWritable.spells {ws : List Word} (h : AllWritable ws) :
    ∃ ts, Spells ws ts ∧ ∀ t ∈ ts, t.Proper := by
  induction ws with
  | nil => exact ⟨[], rfl, by simp⟩
  | cons w ws ih =>
    obtain ⟨first, others⟩ := allWritable_cons.1 h
    obtain ⟨us, spelt, proper⟩ := first.spelt
    obtain ⟨vs, spelt', proper'⟩ := ih others
    exact ⟨us ++ vs, ⟨us, vs, rfl, spelt, spelt'⟩, List.forall_mem_append.2 ⟨proper, proper'⟩⟩

theorem allWritable_commas {wss : List (List Word)} (h : ∀ ws ∈ wss, AllWritable ws) :
    AllWritable (commas wss) := by
  induction wss with
  | nil => simp
  | cons ws wss ih =>
    rw [List.forall_mem_cons] at h
    cases wss with
    | nil => exact h.1
    | cons vs wss => simpa using ⟨h.1, ih h.2⟩

theorem Literal.word_writable {v : Literal} (denoted : v.Denoted) : v.word.Writable := by
  unfold Literal.word
  split
  case h_5 | h_6 => exact denoted
  all_goals simp

@[simp] theorem BinOp.word_writable (op : BinOp) : op.word.Writable := by
  cases op <;> simp [BinOp.word, BinOp.spelling]

@[simp] theorem ClassPath.words_writable (p : ClassPath) : AllWritable p.words := by
  obtain ⟨first, rest⟩ := p
  induction rest with
  | nil => simp [ClassPath.words]
  | cons x rest ih => simpa [ClassPath.words] using ih

@[simp] theorem wordsOfNames_writable (opening closing : String) (xs : List String) :
    AllWritable (wordsOfNames opening closing xs) := by
  have inside : AllWritable (commas (xs.map fun x => [.name x])) := allWritable_commas (by simp)
  simp [wordsOfNames, inside]

mutual

theorem Expr.words_writable : (e : Expr) → e.WellFormed → AllWritable e.words
  | .literal v _, good => by simpa [Expr.words] using Literal.word_writable good
  | .name _ _, _ => by simp [Expr.words]
  | .binary _ l r _, good => by
    simp [Expr.words, l.words_writable good.1, r.words_writable good.2.1]
  | .negate e _, good => by simp [Expr.words, e.words_writable good.1]
  | .logic _ l r _, good => by
    simp [Expr.words, l.words_writable good.1, r.words_writable good.2.1]
  | .call _ args _, good => by
    have inside := allWritable_commas (wordsOfAll_writable args good)
    simp [-wordsOfAll_eq_map, Expr.words, inside]
  | .method e _ args _, good => by
    have inside := allWritable_commas (wordsOfAll_writable args good.2.2)
    simp [-wordsOfAll_eq_map, Expr.words, e.words_writable good.1, inside]
  | .property e _ _, good => by simp [Expr.words, e.words_writable good.1]
  | .index e k _, good => by
    simp [Expr.words, e.words_writable good.1, k.words_writable good.2.2]
  | .group e _, good => by
    have inside := e.words_writable good
    simp [Expr.words, inside]
  | .list items _, good => by
    have inside := allWritable_commas (wordsOfAll_writable items good)
    simp [-wordsOfAll_eq_map, Expr.words, inside]
  | .object entries _, good => by
    have inside := allWritable_commas (wordsOfEntries_writable entries good.2)
    simp [-wordsOfEntries_eq_map, Expr.words, inside]
  | .create _ args _, good => by
    have inside := allWritable_commas (wordsOfAll_writable args good)
    simp [-wordsOfAll_eq_map, Expr.words, inside]

theorem wordsOfAll_writable :
    (es : List Expr) → AllWellFormed es → ∀ ws ∈ wordsOfAll es, AllWritable ws
  | [], _ => by simp
  | e :: es, good => by
    rw [wordsOfAll, List.forall_mem_cons]
    exact ⟨e.words_writable good.1, wordsOfAll_writable es good.2⟩

theorem wordsOfEntries_writable : (entries : List (String × Expr)) →
    EntriesWellFormed entries → ∀ ws ∈ wordsOfEntries entries, AllWritable ws
  | [], _ => by simp
  | (_, e) :: entries, good => by
    rw [wordsOfEntries, List.forall_mem_cons]
    exact ⟨by simp [e.words_writable good.1], wordsOfEntries_writable entries good.2⟩

end

theorem Target.words_writable {t : Target} (good : t.WellFormed) : AllWritable t.words := by
  rw [← t.tree_words]
  exact t.tree.words_writable (Target.tree_fits good).1

theorem Header.words_writable {h : Header} (good : h.WellFormed) : AllWritable h.words := by
  cases h with
  | range x a b => simp [Header.words, a.words_writable good.1, b.words_writable good.2]
  | each x e =>
    have source := e.words_writable good
    simp [Header.words, source]
  | pairs k v e =>
    have source := e.words_writable good
    simp [Header.words, source]

theorem wordsOfCondition_writable {e : Expr} (good : e.WellFormed) :
    AllWritable (wordsOfCondition e) := by
  simp [wordsOfCondition, e.words_writable good]

mutual

theorem Stmt.words_writable : (s : Stmt) → s.WellFormed → AllWritable s.words
  | .expression e _, good => e.words_writable good.1
  | .print e _, good => by simp [Stmt.words, wordsOfCondition_writable good]
  | .assign t e _, good => by
    simp [Stmt.words, Target.words_writable good.1, e.words_writable good.2]
  | .branch bs otherwise _, good => by
    simp [Stmt.words, wordsOfBranches_writable "if" bs good.2.1,
      wordsOfOtherwise_writable otherwise good.2.2]
  | .loop e b _, good => by
    have inside := wordsOfBlock_writable b good.2
    simp [-wordsOfBlock_eq_flatMap, Stmt.words, wordsOfCondition_writable good.1, inside]
  | .iterate h b _, good => by
    have inside := wordsOfBlock_writable b good.2
    simp [-wordsOfBlock_eq_flatMap, Stmt.words, Header.words_writable good.1, inside]
  | .give none _, _ => by simp [Stmt.words, wordsOfValue]
  | .give (some e) _, good => by
    have value := e.words_writable good
    simp [Stmt.words, wordsOfValue, value]
  | .function d _, good => by
    have declared := d.words_writable good
    simp [Stmt.words, declared]
  | .init d _, good => by simp [Stmt.words, d.words_writable good.2]
  | .cls _ none ms _, good => by
    have inside := wordsOfMembers_writable ms good.2
    simp [-wordsOfMembers_eq_flatMap, Stmt.words, wordsOfParent, inside]
  | .cls _ (some p) ms _, good => by
    have inside := wordsOfMembers_writable ms good.2
    simp [-wordsOfMembers_eq_flatMap, Stmt.words, wordsOfParent, inside]
  | .super args _, good => by
    have inside := allWritable_commas (wordsOfAll_writable args good)
    simp [-wordsOfAll_eq_map, Stmt.words, inside]
  | .imports _ .all _, _ => by simp [Stmt.words, Selection.words]
  | .imports _ (.names _) _, _ => by simp [Stmt.words, Selection.words]
  | .leave _, _ | .share _ _, _ | .load _ _ _, _ => by simp [Stmt.words]

theorem Decl.words_writable : (d : Decl) → d.WellFormed → AllWritable d.words
  | ⟨_, _, body, _⟩, good => by
    have inside := wordsOfBlock_writable body good.2
    simp [-wordsOfBlock_eq_flatMap, Decl.words, inside]

theorem Member.words_writable : (m : Member) → m.WellFormed → AllWritable m.words
  | .property _ e _, good => by
    have value := e.words_writable good
    simp [Member.words, value]
  | .method d, good => by
    have declared := d.words_writable good
    simp [Member.words, declared]
  | .constructor d, good => by simp [Member.words, d.words_writable good.2]

theorem wordsOfBlock_writable : (b : Block) → BlockWellFormed b → AllWritable (wordsOfBlock b)
  | [], _ => by simp [wordsOfBlock]
  | s :: b, good => by
    rw [wordsOfBlock, allWritable_append]
    exact ⟨s.words_writable good.1, wordsOfBlock_writable b good.2.2⟩

theorem wordsOfBranches_writable (word : String) : (bs : List (Expr × Block)) →
    BranchesWellFormed bs → AllWritable (wordsOfBranches word bs)
  | [], _ => by simp [wordsOfBranches]
  | (e, b) :: bs, good => by
    have inside := wordsOfBlock_writable b good.2.1
    simp [-wordsOfBlock_eq_flatMap, wordsOfBranches, wordsOfCondition_writable good.1, inside,
      wordsOfBranches_writable "elif" bs good.2.2]

theorem wordsOfOtherwise_writable : (otherwise : Option Block) →
    OtherwiseWellFormed otherwise → AllWritable (wordsOfOtherwise otherwise)
  | none, _ => by simp [wordsOfOtherwise]
  | some b, good => by
    have inside := wordsOfBlock_writable b good
    simp [-wordsOfBlock_eq_flatMap, wordsOfOtherwise, inside]

theorem wordsOfMembers_writable : (ms : List Member) → MembersWellFormed ms →
    AllWritable (wordsOfMembers ms)
  | [], _ => by simp [wordsOfMembers]
  | m :: ms, good => by
    rw [wordsOfMembers, allWritable_append]
    exact ⟨m.words_writable good.1, wordsOfMembers_writable ms good.2⟩

end

theorem Token.row_of_proper {ts : List Token} {stop : Token} (proper : ∀ t ∈ ts, t.Proper)
    (ends : stop.kind = .eof) : Token.row (ts ++ [stop]) = ts := by
  have kept : (ts ++ [stop]).filter (·.kind ≠ .comment) = ts ++ [stop] := by
    rw [List.filter_eq_self]
    simp only [List.mem_append, List.mem_singleton]
    rintro t (ht | rfl)
    · simpa using (proper t ht).1
    · simp [ends]
  rw [Token.row, kept, List.takeWhile_append_of_pos (by simpa using fun t ht => (proper t ht).2)]
  simp [ends]

/-- Every well-formed program can be written, and however it is written, with comments and with
anything after the end, it is read as the same program, its places apart. -/
theorem program_complete (p : Block) (good : BlockWellFormed p) :
    (∃ ts, Spells (wordsOfBlock p) ts ∧
      ∀ stop : Token, stop.kind = .eof → Token.row (ts ++ [stop]) = ts) ∧
    ∀ tokens, Spells (wordsOfBlock p) (Token.row tokens) →
      ∃ q, Parser.program tokens = .ok q ∧ bareBlock q = bareBlock p := by
  constructor
  · obtain ⟨ts, spelt, proper⟩ := (wordsOfBlock_writable p good).spells
    exact ⟨ts, spelt, fun stop ends => Token.row_of_proper proper ends⟩
  · intro tokens spelt
    have ends := Stream.ofTokens_ends tokens
    obtain ⟨q, l, run, same⟩ := Parser.statements_accepts ends _ good spelt (Nat.le_refl _)
      (Nat.le_refl _) (Stream.ofTokens tokens).last
    rw [List.append_nil] at run
    refine ⟨q, ?_, same⟩
    have run : (Parser.statements (Stream.ofTokens tokens).rest.length
        (Stream.ofTokens tokens).rest.length).run (Stream.ofTokens tokens) = .ok q _ := run
    simp only [Parser.program, run]

/-- A function that gives the square of its negated parameter: the minus sign binds tighter. -/
def squareOfNegation : Block :=
  [.function ⟨"g", ["x"], [.give (some (.binary .pow (.negate (.name "x" default) default)
    (.literal (.int 2) default) default)) default], default⟩ default]

/-- Its tokens, after a comment and before the end. -/
def squareTokens : List Token :=
  [⟨.comment, "", default⟩, ⟨.keyword, "f", default⟩, ⟨.name, "g", default⟩,
    ⟨.delimiter, "(", default⟩, ⟨.name, "x", default⟩, ⟨.delimiter, ")", default⟩,
    ⟨.keyword, "return", default⟩, ⟨.operator, "-", default⟩, ⟨.name, "x", default⟩,
    ⟨.operator, "**", default⟩, ⟨.number, "2", default⟩, ⟨.keyword, "endf", default⟩,
    ⟨.eof, "", default⟩]

theorem squareOfNegation_wellFormed : BlockWellFormed squareOfNegation := by
  have two : Parser.numberLiteral "2" = some (.int 2) := rfl
  simp only [squareOfNegation, BlockWellFormed, Stmt.WellFormed, Decl.WellFormed, Expr.WellFormed,
    Literal.Denoted]
  exact ⟨⟨by simp, ⟨⟨trivial, by decide⟩, ⟨"2", two⟩, by decide, by decide⟩, by simp⟩, by simp⟩

theorem squareTokens_spell : Spells (wordsOfBlock squareOfNegation) (Token.row squareTokens) := by
  have two : Parser.numberLiteral "2" = some (.int 2) := rfl
  have row : Token.row squareTokens = squareTokens.tail.dropLast := rfl
  rw [row]
  iterate 9 refine ⟨[_], _, rfl, ⟨_, rfl, rfl, rfl⟩, ?_⟩
  exact ⟨[_], _, rfl, ⟨_, rfl, rfl, two⟩, [_], _, rfl, ⟨_, rfl, rfl, rfl⟩, rfl⟩

theorem squareTokens_read : BlockWellFormed squareOfNegation ∧
    Spells (wordsOfBlock squareOfNegation) (Token.row squareTokens) ∧
    ∃ q, Parser.program squareTokens = .ok q ∧ bareBlock q = bareBlock squareOfNegation :=
  ⟨squareOfNegation_wellFormed, squareTokens_spell,
    (program_complete _ squareOfNegation_wellFormed).2 _ squareTokens_spell⟩

end Script
