import Script.Parser.Statement
import Script.Proofs.Relocation

/-! The grammar of programs: the words that a tree is written with, the tokens that spell words, and
the trees that can be written at all. -/

namespace Script

/-- A word of a written program. Most words are one token; a key may be a name or a quoted text, a
number may be spelt in any way that denotes it, the two names of a loop may stand in parentheses of
their own, and the `do` of a loop may be left out. -/
inductive Word
  | token (kind : Token.Kind) (text : String)
  | key (text : String)
  | number (value : Literal)
  | pair (key value : String)
  | optionalDo

namespace Word

abbrev keyword (text : String) : Word := .token .keyword text

abbrev name (text : String) : Word := .token .name text

abbrev text (text : String) : Word := .token .text text

abbrev operator (text : String) : Word := .token .operator text

abbrev delimiter (text : String) : Word := .token .delimiter text

abbrev comma : Word := delimiter ","

end Word

/-- A token of this kind and text, wherever it stands. -/
def Token.Is (t : Token) (kind : Token.Kind) (text : String) : Prop :=
  t.kind = kind ∧ t.text = text

instance (t : Token) (kind : Token.Kind) (text : String) : Decidable (t.Is kind text) :=
  inferInstanceAs (Decidable (_ ∧ _))

namespace Word

/-- The tokens that spell a word. -/
def Spelt : Word → List Token → Prop
  | .token kind x, ts => ∃ t, ts = [t] ∧ t.Is kind x
  | .key x, ts => ∃ t, ts = [t] ∧ (t.Is .name x ∨ t.Is .text x)
  | .number n, ts => ∃ t, ts = [t] ∧ t.kind = .number ∧ Parser.numberLiteral t.text = some n
  | .pair x y, ts =>
    ∃ k c v, k.Is .name x ∧ c.Is .delimiter "," ∧ v.Is .name y ∧
      (ts = [k, c, v] ∨
        ∃ l r, l.Is .delimiter "(" ∧ r.Is .delimiter ")" ∧ ts = [l, k, c, v, r])
  | .optionalDo, ts => ts = [] ∨ ∃ t, ts = [t] ∧ t.Is .keyword "do"

end Word

/-- The tokens that spell words, one after another. -/
def Spells : List Word → List Token → Prop
  | [], ts => ts = []
  | w :: ws, ts => ∃ us vs, ts = us ++ vs ∧ w.Spelt us ∧ Spells ws vs

/-- Lists of words with commas between them. -/
def commas : List (List Word) → List Word
  | [] => []
  | [ws] => ws
  | ws :: rest => ws ++ .comma :: commas rest

/-! What trees are written with. -/

def Literal.word : Literal → Word
  | null => .keyword "null"
  | bool true => .keyword "True"
  | bool false => .keyword "False"
  | string s => .text s
  | int n => .number (.int n)
  | double x => .number (.double x)

/-- Membership alone is spelt as a word. -/
def BinOp.spelling (op : BinOp) : Token.Kind :=
  if op = .mem then .keyword else .operator

def BinOp.word (op : BinOp) : Word :=
  .token op.spelling op.symbol

def ClassPath.words (p : ClassPath) : List Word :=
  .name p.first :: p.rest.flatMap fun x => [.delimiter ".", .name x]

mutual

def Expr.words : Expr → List Word
  | .literal v _ => [v.word]
  | .name x _ => [.name x]
  | .binary op l r _ => l.words ++ op.word :: r.words
  | .negate e _ => .operator "-" :: e.words
  | .logic op l r _ => l.words ++ .operator op.symbol :: r.words
  | .call x args _ => [.name x, .delimiter "("] ++ commas (wordsOfAll args) ++ [.delimiter ")"]
  | .method e x args _ =>
    e.words ++ [.delimiter ".", .name x, .delimiter "("] ++ commas (wordsOfAll args) ++
      [.delimiter ")"]
  | .property e x _ => e.words ++ [.delimiter ".", .name x]
  | .index e k _ => e.words ++ .delimiter "[" :: k.words ++ [.delimiter "]"]
  | .group e _ => .delimiter "(" :: e.words ++ [.delimiter ")"]
  | .list items _ => .delimiter "[" :: commas (wordsOfAll items) ++ [.delimiter "]"]
  | .object entries _ =>
    .delimiter "\x7b" :: commas (wordsOfEntries entries) ++ [.delimiter "\x7d"]
  | .create cls args _ =>
    .keyword "new" :: cls.words ++ .delimiter "(" :: commas (wordsOfAll args) ++
      [.delimiter ")"]

def wordsOfAll : List Expr → List (List Word)
  | [] => []
  | e :: es => e.words :: wordsOfAll es

def wordsOfEntries : List (String × Expr) → List (List Word)
  | [] => []
  | (k, e) :: rest => (.key k :: .delimiter ":" :: e.words) :: wordsOfEntries rest

end

def Target.words : Target → List Word
  | .name x => [.name x]
  | .index e k => e.words ++ .delimiter "[" :: k.words ++ [.delimiter "]"]
  | .property e x => e.words ++ [.delimiter ".", .name x]

def Header.words : Header → List Word
  | .range x a b => .name x :: .operator "=" :: a.words ++ .keyword "to" :: b.words
  | .each x e => .name x :: .keyword "in" :: e.words
  | .pairs k v e => .pair k v :: .keyword "in" :: e.words

/-- Names in brackets. -/
def wordsOfNames (opening closing : String) (names : List String) : List Word :=
  .delimiter opening :: commas (names.map fun x => [.name x]) ++ [.delimiter closing]

def Selection.words : Selection → List Word
  | .all => [.operator "*"]
  | .names xs => wordsOfNames "\x7b" "\x7d" xs

def wordsOfParent : Option ClassPath → List Word
  | none => []
  | some p => .keyword "extends" :: p.words

def wordsOfValue : Option Expr → List Word
  | none => []
  | some e => e.words

/-- A condition in its parentheses. -/
def wordsOfCondition (e : Expr) : List Word :=
  .delimiter "(" :: e.words ++ [.delimiter ")"]

mutual

def Stmt.words : Stmt → List Word
  | .expression e _ => e.words
  | .print e _ => .keyword "print" :: wordsOfCondition e
  | .assign t e _ => t.words ++ .operator "=" :: e.words
  | .branch bs otherwise _ =>
    wordsOfBranches "if" bs ++ wordsOfOtherwise otherwise ++ [.keyword "endif"]
  | .loop e b _ =>
    .keyword "while" :: wordsOfCondition e ++ .optionalDo :: wordsOfBlock b ++
      [.keyword "endwhile"]
  | .iterate h b _ =>
    .keyword "for" :: .delimiter "(" :: h.words ++ .delimiter ")" :: .optionalDo ::
      wordsOfBlock b ++ [.keyword "endfor"]
  | .leave _ => [.keyword "break"]
  | .give value _ => .keyword "return" :: wordsOfValue value
  | .function d _ => .keyword "f" :: .name d.name :: d.words ++ [.keyword "endf"]
  | .init d _ => .keyword "init" :: d.words ++ [.keyword "endinit"]
  | .cls x parent ms _ =>
    .keyword "class" :: .name x :: wordsOfParent parent ++ wordsOfMembers ms ++
      [.keyword "endclass"]
  | .super args _ =>
    .keyword "super" :: .delimiter "(" :: commas (wordsOfAll args) ++ [.delimiter ")"]
  | .share names _ => .keyword "share" :: wordsOfNames "(" ")" names
  | .imports file items _ =>
    .keyword "from" :: .text file :: .keyword "use" :: items.words
  | .load file x _ => [.keyword "load", .text file, .keyword "as", .name x]

/-- The parameters and the body of a declaration. -/
def Decl.words : Decl → List Word
  | ⟨_, params, body, _⟩ => wordsOfNames "(" ")" params ++ wordsOfBlock body

def Member.words : Member → List Word
  | .property x e _ => .name x :: .operator "=" :: e.words
  | .method d => .keyword "f" :: .name d.name :: d.words ++ [.keyword "endf"]
  | .constructor d => .keyword "init" :: d.words ++ [.keyword "endinit"]

def wordsOfBlock : List Stmt → List Word
  | [] => []
  | s :: rest => s.words ++ wordsOfBlock rest

/-- Branches of which the first starts with `word` and the others with `elif`. -/
def wordsOfBranches (word : String) : List (Expr × List Stmt) → List Word
  | [] => []
  | (e, b) :: rest =>
    .keyword word :: wordsOfCondition e ++ wordsOfBlock b ++ wordsOfBranches "elif" rest

def wordsOfOtherwise : Option (List Stmt) → List Word
  | none => []
  | some b => .keyword "else" :: wordsOfBlock b

def wordsOfMembers : List Member → List Word
  | [] => []
  | m :: rest => m.words ++ wordsOfMembers rest

end

/-! Precedence. A tree may stand wherever one of its rank or a looser one is due. -/

def Logic.rank : Logic → Nat
  | or => 0
  | and => 1

def BinOp.rank : BinOp → Nat
  | mem => 2
  | eq | ne => 3
  | gt | lt | ge | le => 4
  | add | sub => 5
  | mul | div | rem | floorDiv => 6
  | pow => 7

/-- The rank of a tree: its operator's, then minus signs, then members and indices, then the rest. -/
def Expr.rank : Expr → Nat
  | .logic op _ _ _ => op.rank
  | .binary op _ _ _ => op.rank
  | .negate _ _ => 8
  | .method _ _ _ _ | .property _ _ _ | .index _ _ _ => 9
  | _ => 10

/-- What may stand on the left. Powers alone do not group to the left. -/
def BinOp.leftRank (op : BinOp) : Nat :=
  if op = .pow then 8 else op.rank

/-- What may stand on the right. Powers group to the right. -/
def BinOp.rightRank (op : BinOp) : Nat :=
  if op = .pow then 7 else op.rank + 1

/-! Trees that can be written. -/

/-- Some token spells the literal. -/
def Literal.Denoted : Literal → Prop
  | .int n => ∃ text, Parser.numberLiteral text = some (.int n)
  | .double x => ∃ text, Parser.numberLiteral text = some (.double x)
  | _ => True

/-- The tree starts with a name, as a statement without a keyword has to. -/
def Expr.ledByName : Expr → Bool
  | .name _ _ | .call _ _ _ => true
  | .method e _ _ _ | .property e _ _ | .index e _ _ => e.ledByName
  | _ => false

mutual

def Expr.WellFormed : Expr → Prop
  | .literal v _ => v.Denoted
  | .name _ _ => True
  | .binary op l r _ =>
    l.WellFormed ∧ r.WellFormed ∧ op.leftRank ≤ l.rank ∧ op.rightRank ≤ r.rank
  | .negate e _ => e.WellFormed ∧ 8 ≤ e.rank
  | .logic op l r _ => l.WellFormed ∧ r.WellFormed ∧ op.rank ≤ l.rank ∧ op.rank < r.rank
  | .call _ args _ => AllWellFormed args
  | .method e _ args _ => e.WellFormed ∧ 9 ≤ e.rank ∧ AllWellFormed args
  | .property e _ _ => e.WellFormed ∧ 9 ≤ e.rank
  | .index e k _ => e.WellFormed ∧ 9 ≤ e.rank ∧ k.WellFormed
  | .group e _ => e.WellFormed
  | .list items _ => AllWellFormed items
  | .object entries _ =>
    (entries.Pairwise fun a b => ¬ sameKey a.1 b.1) ∧ EntriesWellFormed entries
  | .create _ args _ => AllWellFormed args

def AllWellFormed : List Expr → Prop
  | [] => True
  | e :: es => e.WellFormed ∧ AllWellFormed es

def EntriesWellFormed : List (String × Expr) → Prop
  | [] => True
  | (_, e) :: rest => e.WellFormed ∧ EntriesWellFormed rest

end

/-- A tree that may stand where rank `k` is due. -/
def Fits (k : Nat) (e : Expr) : Prop :=
  e.WellFormed ∧ k ≤ e.rank

def Target.WellFormed : Target → Prop
  | .name _ => True
  | .index e k => e.WellFormed ∧ 9 ≤ e.rank ∧ e.ledByName ∧ k.WellFormed
  | .property e _ => e.WellFormed ∧ 9 ≤ e.rank ∧ e.ledByName

def Header.WellFormed : Header → Prop
  | .range _ a b => a.WellFormed ∧ b.WellFormed
  | .each _ e => e.WellFormed
  | .pairs _ _ e => e.WellFormed

/-- A `return` without a value, after which its block has to end. -/
def Stmt.isBareGive : Stmt → Bool
  | .give none _ => true
  | _ => false

def Member.isConstructor : Member → Bool
  | .constructor _ => true
  | _ => false

mutual

def Stmt.WellFormed : Stmt → Prop
  | .expression e _ => e.WellFormed ∧ Parser.isCall e ∧ e.ledByName
  | .print e _ => e.WellFormed
  | .assign t e _ => t.WellFormed ∧ e.WellFormed
  | .branch bs otherwise _ =>
    bs ≠ [] ∧ BranchesWellFormed bs ∧ OtherwiseWellFormed otherwise
  | .loop e b _ => e.WellFormed ∧ BlockWellFormed b
  | .iterate h b _ => h.WellFormed ∧ BlockWellFormed b
  | .give (some e) _ => e.WellFormed
  | .function d _ => d.WellFormed
  | .init d _ => d.name = constructorName ∧ d.WellFormed
  | .cls _ _ ms _ => ms.countP Member.isConstructor ≤ 1 ∧ MembersWellFormed ms
  | .super args _ => AllWellFormed args
  | .leave _ | .give none _ | .share _ _ | .imports _ _ _ | .load _ _ _ => True

def Decl.WellFormed : Decl → Prop
  | ⟨_, params, body, _⟩ => params.Nodup ∧ BlockWellFormed body

def Member.WellFormed : Member → Prop
  | .property _ e _ => e.WellFormed
  | .method d => d.WellFormed
  | .constructor d => d.name = constructorName ∧ d.WellFormed

/-- All statements are well formed and none but the last is a `return` without a value. -/
def BlockWellFormed : List Stmt → Prop
  | [] => True
  | s :: rest => s.WellFormed ∧ (s.isBareGive → rest = []) ∧ BlockWellFormed rest

def BranchesWellFormed : List (Expr × List Stmt) → Prop
  | [] => True
  | (e, b) :: rest => e.WellFormed ∧ BlockWellFormed b ∧ BranchesWellFormed rest

def OtherwiseWellFormed : Option (List Stmt) → Prop
  | none => True
  | some b => BlockWellFormed b

def MembersWellFormed : List Member → Prop
  | [] => True
  | m :: rest => m.WellFormed ∧ MembersWellFormed rest

end

end Script
