import Script.Proofs.Spelling

/-! Phrases, the nodes of a tree that carry a place, each taken apart into words of its own and the
phrases right below it. -/

namespace Script

/-- A statement, an expression, a declaration or a member of a class. -/
inductive Phrase
  | expression (e : Expr)
  | statement (x : Stmt)
  | function (d : Decl)
  | constructor (d : Decl)
  | member (m : Member)

def Member.span : Member → Span
  | .property _ _ s => s
  | .method d | .constructor d => d.span

namespace Phrase

def span : Phrase → Span
  | expression e => e.span
  | statement x => x.span
  | function d | constructor d => d.span
  | member m => m.span

def words : Phrase → List Word
  | expression e => e.words
  | statement x => x.words
  | function d => .keyword "f" :: .name d.name :: d.words ++ [.keyword "endf"]
  | constructor d => .keyword "init" :: d.words ++ [.keyword "endinit"]
  | member m => m.words

end Phrase

inductive Fragment
  | word (w : Word)
  | phrase (p : Phrase)

namespace Fragment

abbrev keyword (text : String) : Fragment := .word (.keyword text)

abbrev name (text : String) : Fragment := .word (.name text)

abbrev operator (text : String) : Fragment := .word (.operator text)

abbrev delimiter (text : String) : Fragment := .word (.delimiter text)

abbrev expression (e : Expr) : Fragment := .phrase (.expression e)

abbrev statement (x : Stmt) : Fragment := .phrase (.statement x)

def words : Fragment → List Word
  | word w => [w]
  | phrase p => p.words

def phrase? : Fragment → Option Phrase
  | word _ => none
  | phrase p => some p

/-- Rows of fragments with commas between them. -/
def commas : List (List Fragment) → List Fragment
  | [] => []
  | [ps] => ps
  | ps :: rest => ps ++ delimiter "," :: commas rest

end Fragment

/-! What phrases are made of. -/

/-- Expressions in parentheses or brackets of a kind, the opening one left out. -/
def fragmentsOfAll (closing : String) (es : List Expr) : List Fragment :=
  Fragment.commas (es.map fun e => [.expression e]) ++ [.delimiter closing]

def fragmentsOfEntry (e : String × Expr) : List Fragment :=
  [.word (.key e.1), .delimiter ":", .expression e.2]

def Expr.fragments : Expr → List Fragment
  | .literal v _ => [.word v.word]
  | .name x _ => [.name x]
  | .binary op l r _ => [.expression l, .word op.word, .expression r]
  | .negate e _ => [.operator "-", .expression e]
  | .logic op l r _ => [.expression l, .operator op.symbol, .expression r]
  | .call x args _ => .name x :: .delimiter "(" :: fragmentsOfAll ")" args
  | .method e x args _ =>
    .expression e :: .delimiter "." :: .name x :: .delimiter "(" :: fragmentsOfAll ")" args
  | .property e x _ => [.expression e, .delimiter ".", .name x]
  | .index e k _ => [.expression e, .delimiter "[", .expression k, .delimiter "]"]
  | .group e _ => [.delimiter "(", .expression e, .delimiter ")"]
  | .list items _ => .delimiter "[" :: fragmentsOfAll "]" items
  | .object entries _ =>
    .delimiter "\x7b" :: Fragment.commas (entries.map fragmentsOfEntry) ++ [.delimiter "\x7d"]
  | .create cls args _ =>
    .keyword "new" :: cls.words.map .word ++ .delimiter "(" :: fragmentsOfAll ")" args

def Target.fragments : Target → List Fragment
  | .name x => [.name x]
  | .index e k => [.expression e, .delimiter "[", .expression k, .delimiter "]"]
  | .property e x => [.expression e, .delimiter ".", .name x]

def Header.fragments : Header → List Fragment
  | .range x a b => [.name x, .operator "=", .expression a, .keyword "to", .expression b]
  | .each x e => [.name x, .keyword "in", .expression e]
  | .pairs k v e => [.word (.pair k v), .keyword "in", .expression e]

def fragmentsOfCondition (e : Expr) : List Fragment :=
  [.delimiter "(", .expression e, .delimiter ")"]

def fragmentsOfBlock (b : Block) : List Fragment :=
  b.map .statement

/-- Branches of which the first starts with `word` and the others with `elif`. -/
def fragmentsOfBranches (word : String) : List (Expr × Block) → List Fragment
  | [] => []
  | (e, b) :: rest =>
    .keyword word :: fragmentsOfCondition e ++ fragmentsOfBlock b ++ fragmentsOfBranches "elif" rest

def fragmentsOfOtherwise : Option Block → List Fragment
  | none => []
  | some b => .keyword "else" :: fragmentsOfBlock b

def Stmt.fragments : Stmt → List Fragment
  | .expression e _ => [.expression e]
  | .print e _ => .keyword "print" :: fragmentsOfCondition e
  | .assign t e _ => t.fragments ++ [.operator "=", .expression e]
  | .branch bs otherwise _ =>
    fragmentsOfBranches "if" bs ++ fragmentsOfOtherwise otherwise ++ [.keyword "endif"]
  | .loop e b _ =>
    .keyword "while" :: fragmentsOfCondition e ++ .word .optionalDo :: fragmentsOfBlock b ++
      [.keyword "endwhile"]
  | .iterate h b _ =>
    .keyword "for" :: .delimiter "(" :: h.fragments ++ .delimiter ")" :: .word .optionalDo ::
      fragmentsOfBlock b ++ [.keyword "endfor"]
  | .leave _ => [.keyword "break"]
  | .give none _ => [.keyword "return"]
  | .give (some e) _ => [.keyword "return", .expression e]
  | .function d _ => [.phrase (.function d)]
  | .init d _ => [.phrase (.constructor d)]
  | .cls x parent ms _ =>
    .keyword "class" :: .name x :: (wordsOfParent parent).map .word ++
      ms.map (fun m => .phrase (.member m)) ++ [.keyword "endclass"]
  | .super args _ => .keyword "super" :: .delimiter "(" :: fragmentsOfAll ")" args
  | .share names _ => (Word.keyword "share" :: wordsOfNames "(" ")" names).map .word
  | .imports file items _ =>
    (Word.keyword "from" :: .text file :: .keyword "use" :: items.words).map .word
  | .load file x _ =>
    [.keyword "load", .word (.text file), .keyword "as", .name x]

def Decl.fragments : Decl → List Fragment
  | ⟨_, params, body, _⟩ => (wordsOfNames "(" ")" params).map .word ++ fragmentsOfBlock body

def Member.fragments : Member → List Fragment
  | .property x e _ => [.name x, .operator "=", .expression e]
  | .method d => [.phrase (.function d)]
  | .constructor d => [.phrase (.constructor d)]

namespace Phrase

def fragments : Phrase → List Fragment
  | expression e => e.fragments
  | statement x => x.fragments
  | function d => .keyword "f" :: .name d.name :: d.fragments ++ [.keyword "endf"]
  | constructor d => .keyword "init" :: d.fragments ++ [.keyword "endinit"]
  | member m => m.fragments

/-- The phrases right below a phrase. -/
def parts (p : Phrase) : List Phrase :=
  p.fragments.filterMap Fragment.phrase?

end Phrase

/-! The fragments of a phrase are written as the phrase is. -/

def wordsOfFragments (ps : List Fragment) : List Word :=
  ps.flatMap Fragment.words

section Words

@[simp] theorem wordsOfFragments_nil : wordsOfFragments [] = [] := rfl

@[simp] theorem wordsOfFragments_cons (p : Fragment) (ps : List Fragment) :
    wordsOfFragments (p :: ps) = p.words ++ wordsOfFragments ps := rfl

@[simp] theorem wordsOfFragments_append (ps qs : List Fragment) :
    wordsOfFragments (ps ++ qs) = wordsOfFragments ps ++ wordsOfFragments qs := List.flatMap_append

@[simp] theorem Fragment.words_word (w : Word) : (Fragment.word w).words = [w] := rfl

@[simp] theorem Fragment.words_phrase (p : Phrase) : (Fragment.phrase p).words = p.words := rfl

@[simp] theorem wordsOfFragments_map_word (ws : List Word) :
    wordsOfFragments (ws.map .word) = ws := by
  induction ws with
  | nil => rfl
  | cons w ws ih => simp [ih]

@[simp] theorem wordsOfFragments_map_statement (b : Block) :
    wordsOfFragments (b.map .statement) = b.flatMap Stmt.words := by
  induction b with
  | nil => rfl
  | cons x b ih => simp [ih, Phrase.words]

@[simp] theorem wordsOfFragments_map_member (ms : List Member) :
    wordsOfFragments (ms.map fun m => .phrase (.member m)) = ms.flatMap Member.words := by
  induction ms with
  | nil => rfl
  | cons m ms ih => simp [ih, Phrase.words]

theorem wordsOfFragments_commas (rows : List (List Fragment)) :
    wordsOfFragments (Fragment.commas rows) = commas (rows.map wordsOfFragments) := by
  fun_induction Fragment.commas rows with
  | case1 => rfl
  | case2 ps => rfl
  | case3 ps rest more ih =>
    cases rest with
    | nil => exact absurd rfl more
    | cons qs rest => simp_all

@[simp] theorem wordsOfFragments_all (closing : String) (es : List Expr) :
    wordsOfFragments (fragmentsOfAll closing es) =
      commas (es.map Expr.words) ++ [.delimiter closing] := by
  simp [fragmentsOfAll, wordsOfFragments_commas, Function.comp_def, Phrase.words]

@[simp] theorem wordsOfFragments_entries (entries : List (String × Expr)) :
    wordsOfFragments (Fragment.commas (entries.map fragmentsOfEntry)) =
      commas (entries.map wordsOfEntry) := by
  have same : wordsOfFragments ∘ fragmentsOfEntry = wordsOfEntry := by
    funext e
    simp [fragmentsOfEntry, wordsOfEntry, Phrase.words]
  rw [wordsOfFragments_commas, List.map_map, same]

@[simp] theorem wordsOfFragments_branches (word : String) (bs : List (Expr × Block)) :
    wordsOfFragments (fragmentsOfBranches word bs) = wordsOfBranches word bs := by
  induction bs generalizing word with
  | nil => rfl
  | cons b bs ih =>
    simp [fragmentsOfBranches, wordsOfBranches, fragmentsOfCondition, wordsOfCondition,
      fragmentsOfBlock, Phrase.words, ih]

@[simp] theorem wordsOfFragments_otherwise (otherwise : Option Block) :
    wordsOfFragments (fragmentsOfOtherwise otherwise) = wordsOfOtherwise otherwise := by
  cases otherwise with
  | none => rfl
  | some b => simp [fragmentsOfOtherwise, wordsOfOtherwise, fragmentsOfBlock]

theorem Expr.words_fragments (e : Expr) : wordsOfFragments e.fragments = e.words := by
  cases e <;> simp [Expr.fragments, Expr.words, Phrase.words]

theorem Stmt.words_fragments (x : Stmt) : wordsOfFragments x.fragments = x.words := by
  cases x with
  | assign t e s =>
    cases t <;> simp [Stmt.fragments, Stmt.words, Target.fragments, Target.words, Phrase.words]
  | iterate h b s =>
    cases h <;> simp [Stmt.fragments, Stmt.words, Header.fragments, Header.words, fragmentsOfBlock,
      Phrase.words]
  | give e s => cases e <;> simp [Stmt.fragments, Stmt.words, wordsOfValue, Phrase.words]
  | _ =>
    simp [Stmt.fragments, Stmt.words, fragmentsOfCondition, wordsOfCondition, fragmentsOfBlock,
      Phrase.words]

theorem Phrase.words_fragments (p : Phrase) : wordsOfFragments p.fragments = p.words := by
  cases p with
  | expression e => exact e.words_fragments
  | statement x => exact x.words_fragments
  | function d =>
    cases d
    simp [Phrase.fragments, Phrase.words, Decl.fragments, Decl.words, fragmentsOfBlock]
  | constructor d =>
    cases d
    simp [Phrase.fragments, Phrase.words, Decl.fragments, Decl.words, fragmentsOfBlock]
  | member m => cases m <;> simp [Phrase.fragments, Phrase.words, Member.fragments, Member.words]

end Words

end Script
