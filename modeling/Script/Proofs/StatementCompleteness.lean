import Script.Proofs.ExpressionCompleteness
import Script.Proofs.StatementSoundness

/-! Each statement parser accepts every spelling of every well-formed statement, and so every row of
tokens that spells a well-formed program is accepted. No word separates statements: the first token
of the next one, or the keyword that ends the block, is what an expression stops at. -/

namespace Script

namespace Token

variable {t : Token} {k : Nat}

theorem Is.stops_of_assignment (h : t.Is .operator "=") : t.Stops k := by
  refine stops_of_not_delimiter (by simp [h.1]) (fun op _ hop => ?_) fun op _ hop => ?_
  · have other : op.symbol ≠ "=" := by cases op <;> decide
    exact other (hop.2.symm.trans h.2)
  · have other : op.symbol ≠ "=" := by cases op <;> decide
    exact other (hop.2.symm.trans h.2)

/-- A token that can stand after a statement. -/
structure Separates (t : Token) : Prop where
  operator : t.kind ≠ .operator
  delimiter : t.kind ≠ .delimiter
  membership : ¬ t.Is .keyword "in"

theorem Separates.stops (h : t.Separates) : t.Stops k :=
  stops_of_plain h.operator h.delimiter h.membership

theorem separates_of_keyword (kind : t.kind = .keyword) (other : t.text ≠ "in") : t.Separates where
  operator := by simp [kind]
  delimiter := by simp [kind]
  membership h := other h.2

theorem Is.stops_of_keyword {x : String} (h : t.Is .keyword x) (other : x ≠ "in") : t.Stops k :=
  (separates_of_keyword h.1 (h.2 ▸ other)).stops

theorem Opens.separates (h : t.Opens) : t.Separates := by
  rcases h with kind | ⟨kind, starter⟩
  · exact ⟨by simp [kind], by simp [kind], fun h => by cases kind.symm.trans h.1⟩
  · apply separates_of_keyword kind
    intro text
    rw [text] at starter
    revert starter
    decide

/-- One of the keywords. -/
def Among (t : Token) (words : List String) : Prop :=
  t.kind = .keyword ∧ t.text ∈ words

theorem Among.separates (h : t.Among Parser.blockEnds) : t.Separates := by
  apply separates_of_keyword h.1
  intro text
  have closes := h.2
  rw [text] at closes
  revert closes
  decide

theorem Opens.not_among (h : t.Opens) {words : List String} (apart : ∀ x ∈ words, x ∉ starters) :
    ¬ t.Among words := by
  rintro ⟨kind, member⟩
  rcases h with named | ⟨-, starter⟩
  · cases named.symm.trans kind
  · exact apart _ member starter

theorem Opens.not_keyword (h : t.Opens) {x : String} (apart : x ∉ starters) :
    ¬ t.Is .keyword x := fun here =>
  h.not_among (fun _ hy => List.mem_singleton.1 hy ▸ apart) ⟨here.1, List.mem_singleton.2 here.2⟩

end Token

namespace Parser

variable {n bound : Nat} {stop : Token}

/-- On every spelling of up to `n` tokens of a well-formed statement, `p` answers with that
statement, its places apart, if what comes next can stand there. -/
def StatementCovers (n : Nat) (p : Parser Stmt) : Prop :=
  ∀ (s : Stmt) ts rest stop, s.WellFormed → Spells s.words ts → ts.length ≤ n →
    (ahead rest stop).Separates →
    (s.isBareGive → rest = [] ∨ (ahead rest stop).Among blockEnds) →
      Accepts p stop ts rest fun s' => s'.bare = s.bare

theorem Leads.seesKeyword_among {α γ : Type} {q : γ → Parser α} {good : γ → Prop}
    {ts rest : List Token} {words : List String} {f : Bool → Parser α}
    (found : (ahead (ts ++ rest) stop).Among words) (next : Leads (f true) stop ts rest q good) :
    Leads (Parser.seesKeyword words >>= f) stop ts rest q good :=
  Leads.seesKeyword ⟨found.1, by simpa using found.2⟩ next

theorem Leads.seesKeyword_not_among {α γ : Type} {q : γ → Parser α} {good : γ → Prop}
    {ts rest : List Token} {words : List String} {f : Bool → Parser α}
    (missing : ¬ (ahead (ts ++ rest) stop).Among words)
    (next : Leads (f false) stop ts rest q good) :
    Leads (Parser.seesKeyword words >>= f) stop ts rest q good :=
  Leads.seesKeyword_not (fun found => missing ⟨found.1, by simpa using found.2⟩) next

/-- A block is empty or starts with a token that opens a statement. -/
theorem block_first {b : Block} {ts : List Token} (good : BlockWellFormed b)
    (spelt : Spells (wordsOfBlock b) ts) :
    (b = [] ∧ ts = []) ∨ ∃ t us, ts = t :: us ∧ t.Opens := by
  cases b with
  | nil => exact .inl ⟨rfl, spelt⟩
  | cons s b =>
    obtain ⟨us, vs, rfl, first, -⟩ := spells_append.1 spelt
    obtain ⟨t, us, rfl, opens⟩ := Stmt.first_token good.1 first
    exact .inr ⟨t, us ++ vs, rfl, opens⟩

/-- One statement of a block, before the others and what follows the block. -/
theorem StatementCovers.first {statement : Parser Stmt} (covers : StatementCovers n statement)
    {s : Stmt} {b : Block} {us vs rest : List Token} (good : BlockWellFormed (s :: b))
    (spelt : Spells s.words us) (spelt' : Spells (wordsOfBlock b) vs) (short : us.length ≤ n)
    (ends : (ahead rest stop).Separates)
    (closed : rest = [] ∨ (ahead rest stop).Among blockEnds) :
    Accepts statement stop us (vs ++ rest) fun s' => s'.bare = s.bare := by
  obtain ⟨goodFirst, last, goodRest⟩ := good
  rcases block_first goodRest spelt' with ⟨rfl, rfl⟩ | ⟨t, vs, rfl, opens⟩
  · exact covers s us ([] ++ rest) stop goodFirst spelt short ends fun _ => closed
  · apply covers s us (t :: vs ++ rest) stop goodFirst spelt short opens.separates
    intro bare
    rw [last bare] at spelt'
    cases spelt'

theorem block_accepts {statement : Parser Stmt} (covers : StatementCovers n statement)
    {opener : String} {closers : List String} (closing : ∀ x ∈ closers, x ∈ blockEnds) (m : Nat)
    {b : Block} {ts rest : List Token} (good : BlockWellFormed b)
    (spelt : Spells (wordsOfBlock b) ts) (short : ts.length ≤ n) (enough : ts.length < m)
    (closes : (ahead rest stop).Among closers) :
    Accepts (block statement opener closers m) stop ts rest
      fun b' => bareBlock b' = bareBlock b := by
  have closed : (ahead rest stop).Among blockEnds := ⟨closes.1, closing _ closes.2⟩
  induction m generalizing b ts with
  | zero => cases enough
  | succ m ih =>
    cases b with
    | nil =>
      obtain rfl : ts = [] := spelt
      exact Leads.seesKeyword_among closes (Leads.pure rfl)
    | cons s b =>
      obtain ⟨us, vs, rfl, first, others⟩ := spells_append.1 spelt
      simp only [List.length_append] at short enough
      have read := covers.first good first others (by omega) closed.separates (.inr closed)
      obtain ⟨t, us, rfl, opens⟩ := Stmt.first_token good.1 first
      simp only [List.length_cons] at short enough
      have apart : ∀ x ∈ closers, x ∉ starters := by
        have ends : ∀ x ∈ blockEnds, x ∉ starters := by decide
        exact fun x hx => ends x (closing x hx)
      refine Leads.seesKeyword_not_among (opens.not_among apart) (Leads.atEnd ?_)
      apply read.bind
      intro s' same
      have read' := ih good.2.2 others (by omega) (by omega)
      refine read'.finish fun b' same' => Leads.pure ?_
      simp only [bareBlock] at same' ⊢
      simp [same, same']

theorem closedBlock_accepts {statement : Parser Stmt} (covers : StatementCovers n statement)
    {opener closer : String} (closing : closer ∈ blockEnds) {b : Block} {ts rest : List Token}
    (good : BlockWellFormed b) (spelt : Spells (wordsOfBlock b ++ [.keyword closer]) ts)
    (short : ts.length ≤ n + 1) (enough : ts.length ≤ bound) :
    Accepts (closedBlock bound statement opener closer) stop ts rest
      fun b' => bareBlock b' = bareBlock b := by
  obtain ⟨us, vs, rfl, inside, closed⟩ := spells_append.1 spelt
  obtain ⟨t, rfl, here⟩ := spells_singleton.1 closed
  simp only [List.length_append, List.length_singleton] at short enough
  have among : (ahead ([t] ++ rest) stop).Among [closer] := ⟨here.1, by simp [here.2]⟩
  have read : Accepts (block statement opener [closer] bound) stop us ([t] ++ rest)
      fun b' => bareBlock b' = bareBlock b :=
    block_accepts covers (by simpa using closing) bound good inside (by omega) (by omega) among
  exact read.bind fun b' same => Leads.step (Leads.pure same)

theorem condition_accepts {word : String} {e : Expr} {ts rest : List Token}
    (good : e.WellFormed) (spelt : Spells (wordsOfCondition e) ts) (enough : ts.length ≤ bound) :
    Accepts (condition bound word) stop ts rest fun e' => e'.bare = e.bare := by
  obtain ⟨t, us, rfl, opening, after⟩ := spells_token_cons.1 spelt
  simp only [List.length_cons] at enough
  refine Leads.delimiter opening (Leads.closed after ?_ fun e' same => Leads.pure same)
  intro us rest less inside closes
  exact expression_covers bound e us rest stop ⟨good, Nat.zero_le _⟩ inside (by omega)
    (closes.stops_of_closing (by decide))

/-- A branch without its places. -/
def bareBranch (b : Expr × Block) : Expr × Block := (b.1.bare, bareBlock b.2)

theorem guarded_accepts {statement : Parser Stmt} (covers : StatementCovers n statement)
    {word : String} {b : Expr × Block} {ts rest : List Token} (good : b.1.WellFormed)
    (goods : BlockWellFormed b.2)
    (spelt : Spells (wordsOfCondition b.1 ++ wordsOfBlock b.2) ts) (short : ts.length ≤ n)
    (enough : n ≤ bound) (closes : (ahead rest stop).Among branchEnds) :
    Accepts (guarded bound statement word) stop ts rest
      fun b' => bareBranch b' = bareBranch b := by
  obtain ⟨us, vs, rfl, tested, inside⟩ := spells_append.1 spelt
  have some : 0 < us.length := by
    obtain ⟨t, us, rfl, -⟩ := spells_token_cons.1 tested
    simp
  simp only [List.length_append] at short
  have read : Accepts (condition bound word) stop us (vs ++ rest) fun e' => e'.bare = b.1.bare :=
    condition_accepts good tested (by omega)
  apply read.bind
  intro e' same
  have read' : Accepts (block statement word branchEnds bound) stop vs rest
      fun b' => bareBlock b' = bareBlock b.2 :=
    block_accepts covers (by decide) bound goods inside (by omega) (by omega) closes
  exact read'.finish fun b' same' => Leads.pure (by simp [bareBranch, same, same'])

/-- What follows a branch starts with one of its three keywords. -/
theorem rest_first {bs : List (Expr × Block)} {otherwise : Option Block} {ts : List Token}
    (spelt : Spells (wordsOfRest (bs, otherwise)) ts) :
    ∃ t us, ts = t :: us ∧ t.Among branchEnds := by
  cases bs with
  | cons b bs =>
    obtain ⟨t, us, rfl, here, -⟩ := spells_token_cons.1 spelt
    exact ⟨t, us, rfl, here.1, by simp [here.2, branchEnds]⟩
  | nil =>
    cases otherwise with
    | some b =>
      obtain ⟨t, us, rfl, here, -⟩ := spells_token_cons.1 spelt
      exact ⟨t, us, rfl, here.1, by simp [here.2, branchEnds]⟩
    | none =>
      obtain ⟨t, rfl, here⟩ := spells_singleton.1 spelt
      exact ⟨t, [], rfl, here.1, by simp [here.2, branchEnds]⟩

theorem otherBranches_accepts {statement : Parser Stmt} (covers : StatementCovers n statement)
    (enough : n ≤ bound) (m : Nat) {bs : List (Expr × Block)} {otherwise : Option Block}
    {ts rest : List Token} (good : BranchesWellFormed bs) (good' : OtherwiseWellFormed otherwise)
    (spelt : Spells (wordsOfRest (bs, otherwise)) ts) (short : ts.length ≤ n)
    (spare : ts.length ≤ m) :
    Accepts (otherBranches bound statement m) stop ts rest fun r =>
      r.1.map bareBranch = bs.map bareBranch ∧ r.2.map bareBlock = otherwise.map bareBlock := by
  induction m generalizing bs ts with
  | zero =>
    obtain ⟨t, us, rfl, -⟩ := rest_first spelt
    simp at spare
  | succ m ih =>
    cases bs with
    | cons b bs =>
      obtain ⟨t, us, rfl, here, after⟩ := spells_token_cons.1 spelt
      have after : Spells ((wordsOfCondition b.1 ++ wordsOfBlock b.2) ++
        wordsOfRest (bs, otherwise)) us := by simpa [wordsOfRest] using after
      obtain ⟨us, vs, rfl, first, others⟩ := spells_append.1 after
      simp only [List.length_cons, List.length_append] at short spare
      have read' := ih good.2.2 others (by omega) (by omega)
      obtain ⟨u, vs, rfl, among⟩ := rest_first others
      have read : Accepts (guarded bound statement "elif") stop us (u :: vs ++ rest)
          fun b' => bareBranch b' = bareBranch b :=
        guarded_accepts covers good.1 good.2.1 first (by omega) enough among
      refine Leads.advance ?_
      rw [if_pos here.2]
      refine read.bind fun b' same => read'.finish fun r same' => Leads.pure ?_
      simp [same, same']
    | nil =>
      cases otherwise with
      | some b =>
        obtain ⟨t, us, rfl, here, inside⟩ := spells_token_cons.1 spelt
        simp only [List.length_cons] at short
        have read : Accepts (closedBlock bound statement "else" "endif") stop us rest
            fun b' => bareBlock b' = bareBlock b :=
          closedBlock_accepts covers (by decide) good' inside (by omega) (by omega)
        refine Leads.advance ?_
        rw [if_neg (by simp [here.2]), if_pos here.2]
        exact read.finish fun b' same => Leads.pure ⟨rfl, by simp [same]⟩
      | none =>
        obtain ⟨t, rfl, here⟩ := spells_singleton.1 spelt
        refine Leads.advance ?_
        rw [if_neg (by simp [here.2]), if_neg (by simp [here.2])]
        exact Leads.pure ⟨rfl, rfl⟩

theorem branchStatement_accepts {statement : Parser Stmt} (covers : StatementCovers n statement)
    (enough : n ≤ bound) {start span : Span} {b : Expr × Block} {bs : List (Expr × Block)}
    {otherwise : Option Block} {ts rest : List Token}
    (good : (Stmt.branch (b :: bs) otherwise span).WellFormed)
    (spelt : Spells (wordsOfCondition b.1 ++ wordsOfBlock b.2 ++ wordsOfRest (bs, otherwise)) ts)
    (short : ts.length ≤ n) :
    Accepts (branchStatement bound statement start) stop ts rest
      fun s' => s'.bare = (Stmt.branch (b :: bs) otherwise span).bare := by
  obtain ⟨-, ⟨goodTest, goodBlock, goodOthers⟩, goodOtherwise⟩ := good
  obtain ⟨us, vs, rfl, first, others⟩ := spells_append.1 spelt
  simp only [List.length_append] at short
  have read' : Accepts (otherBranches bound statement bound) stop vs rest fun r =>
      r.1.map bareBranch = bs.map bareBranch ∧ r.2.map bareBlock = otherwise.map bareBlock :=
    otherBranches_accepts covers enough bound goodOthers goodOtherwise others (by omega) (by omega)
  obtain ⟨t, vs, rfl, among⟩ := rest_first others
  have read : Accepts (guarded bound statement "if") stop us (t :: vs ++ rest)
      fun b' => bareBranch b' = bareBranch b :=
    guarded_accepts covers goodTest goodBlock first (by omega) enough among
  refine read.bind fun b' same => read'.finish fun r same' => Leads.since fun s => Leads.pure ?_
  have bare (b : Expr × Block) (bs : List (Expr × Block)) (otherwise : Option Block) (s : Span) :
      (Stmt.branch (b :: bs) otherwise s).bare =
        .branch (bareBranch b :: bs.map bareBranch) (otherwise.map bareBlock) default := by
    simp only [Stmt.bare, Stmt.relocate, relocateBranches_eq_map, relocateOtherwise_eq_map]
    rfl
  rw [bare, bare, same, same'.1, same'.2]

/-! Names in brackets. -/

theorem each_of_nodup {seen xs : List String} (apart : ∀ x ∈ xs, x ∉ seen) (nodup : xs.Nodup) :
    Each (fun seen (x : String) => x ∉ seen) seen xs := by
  induction xs generalizing seen with
  | nil => trivial
  | cons x xs ih =>
    rw [List.forall_mem_cons] at apart
    obtain ⟨fresh, nodup⟩ := List.nodup_cons.1 nodup
    refine ⟨apart.1, ih (fun y hy known => ?_) nodup⟩
    rcases List.mem_cons.1 known with rfl | known
    · exact fresh hy
    · exact apart.2 y hy known

theorem name_not_closing {x close : String} {ts : List Token} (spelt : Spells [.name x] ts) :
    ∃ t us, ts = t :: us ∧ ¬ t.Is .delimiter close := by
  obtain ⟨t, rfl, here⟩ := spells_singleton.1 spelt
  exact ⟨t, [], rfl, fun h => by cases here.1.symm.trans h.1⟩

/-- Names between brackets, each one read by `item`. -/
theorem bracketed_accepts {opening closing : String} (bracket : closing ≠ ",") {what what' : Wanted}
    {item : List String → Parser String} {good : List String → String → Prop}
    (items : ItemsAccepted bound stop closing item (fun x => [.name x]) id good) {xs : List String}
    (all : Each good [] xs) {ts rest : List Token}
    (spelt : Spells (wordsOfNames opening closing xs) ts) (enough : ts.length ≤ bound) :
    Accepts (do
      delimiter opening what
      let ns ← listedUntil closing bound item
      delimiter closing what'
      return ns) stop ts rest (· = xs) := by
  obtain ⟨t, us, rfl, opens, after⟩ := spells_token_cons.1 spelt
  simp only [List.length_cons] at enough
  refine Leads.delimiter opens ?_
  apply Leads.closed after
  · intro us rest less inside closes
    exact listedUntil_accepts items bracket (fun x ts => name_not_closing) all inside (by omega)
      (Nat.le_refl _) closes
  · exact fun ys same => Leads.pure (by simpa using same)

theorem names_accepts {opening closing : String} (bracket : closing ≠ ",") {xs : List String}
    {ts rest : List Token} (spelt : Spells (wordsOfNames opening closing xs) ts)
    (enough : ts.length ≤ bound) :
    Accepts (names bound opening closing) stop ts rest (· = xs) := by
  have items : ItemsAccepted bound stop closing (fun _ => name .listedName) (fun x => [.name x]) id
      fun _ _ => True := by
    intro seen seen' x ts rest _ _ spelt _ _
    obtain ⟨t, rfl, here⟩ := spells_singleton.1 spelt
    exact (Leads.takes_kind here.1).consequence fun y same => same.trans here.2
  exact bracketed_accepts bracket items (each_of_forall fun _ _ => trivial) spelt enough

theorem parameters_accepts {params : List String} {ts rest : List Token}
    (nodup : params.Nodup) (spelt : Spells (wordsOfNames "(" ")" params) ts)
    (enough : ts.length ≤ bound) :
    Accepts (parameters bound) stop ts rest (· = params) := by
  have items : ItemsAccepted bound stop ")" (fun seen => do
      let p ← name .parameter
      if seen.contains p then fail (.duplicateParameter p) (← last).span else return p)
      (fun x => [.name x]) id fun seen x => x ∉ seen := by
    intro seen seen' x ts rest same fresh spelt _ _
    obtain rfl : seen' = seen := by simpa using same
    obtain ⟨t, rfl, here⟩ := spells_singleton.1 spelt
    refine Leads.name here.1 ?_
    rw [if_neg (by simpa [here.2] using fresh)]
    exact Leads.pure here.2
  exact bracketed_accepts (by decide) items (each_of_nodup (by simp) nodup) spelt enough

theorem selection_accepts {items : Selection} {ts rest : List Token}
    (spelt : Spells items.words ts) (enough : ts.length ≤ bound) :
    Accepts (selection bound) stop ts rest (· = items) := by
  cases items with
  | all =>
    obtain ⟨t, rfl, here⟩ := spells_singleton.1 spelt
    exact Leads.eat here (Leads.pure rfl)
  | names xs =>
    have read : Accepts (names bound "\x7b" "\x7d") stop ts rest (· = xs) :=
      names_accepts (by decide) spelt enough
    obtain ⟨t, us, rfl, opens, -⟩ := spells_token_cons.1 spelt
    refine Leads.eat_not (fun here => by cases opens.1.symm.trans here.1) ?_
    exact read.finish fun ys same => Leads.pure (by rw [same])

/-! Declarations. -/

/-- The parameters and the body of a declaration, up to its closing keyword. -/
theorem Leads.decl {α γ : Type} {q : γ → Parser α} {goal : γ → Prop} {statement : Parser Stmt}
    (covers : StatementCovers n statement) (enough : n < bound) {opener closer : String}
    (closing : closer ∈ blockEnds) {d : Decl} (good : d.WellFormed) {ts rest : List Token}
    (spelt : Spells (d.words ++ [.keyword closer]) ts) (short : ts.length ≤ n)
    {f : List String → Block → Parser α}
    (next : ∀ body, bareBlock body = bareBlock d.body → Leads (f d.params body) stop [] rest q goal) :
    Leads (do
      let params ← parameters bound
      let body ← closedBlock bound statement opener closer
      f params body) stop ts rest q goal := by
  obtain ⟨x, params, body, span⟩ := d
  have spelt : Spells (wordsOfNames "(" ")" params ++ (wordsOfBlock body ++ [.keyword closer]))
    ts := by simpa [Decl.words] using spelt
  obtain ⟨us, vs, rfl, names, inside⟩ := spells_append.1 spelt
  simp only [List.length_append] at short
  have read : Accepts (parameters bound) stop us (vs ++ rest) (· = params) :=
    parameters_accepts good.1 names (by omega)
  have read' : Accepts (closedBlock bound statement opener closer) stop vs rest
      fun b' => bareBlock b' = bareBlock body :=
    closedBlock_accepts covers closing good.2 inside (by omega) (by omega)
  exact read.bind fun ps same => read'.finish fun b same' => same ▸ next b same'

theorem bare_decl {d : Decl} {x : String} {body : Block} {span : Span} (name : d.name = x)
    (same : bareBlock body = bareBlock d.body) :
    (Decl.mk x d.params body span).bare = d.bare := by
  obtain ⟨_, params, _, s⟩ := d
  subst name
  simp only [bareBlock, Stmt.bare] at same
  simp [Decl.bare, Decl.relocate, same, nowhere]

theorem functionDecl_accepts {statement : Parser Stmt} (covers : StatementCovers n statement)
    (enough : n < bound) {start : Span} {d : Decl} (good : d.WellFormed) {ts rest : List Token}
    (spelt : Spells (.name d.name :: d.words ++ [.keyword "endf"]) ts) (short : ts.length ≤ n) :
    Accepts (functionDecl bound statement start) stop ts rest fun d' => d'.bare = d.bare := by
  obtain ⟨t, us, rfl, named, after⟩ := spells_token_cons.1 spelt
  refine Leads.name named.1 ?_
  refine Leads.decl covers enough (by decide) good after (Nat.le_of_succ_le short) ?_
  exact fun body same => Leads.since fun span => Leads.pure (bare_decl named.2.symm same)

theorem initDecl_accepts {statement : Parser Stmt} (covers : StatementCovers n statement)
    (enough : n < bound) {start : Span} {d : Decl} (reserved : d.name = constructorName)
    (good : d.WellFormed) {ts rest : List Token}
    (spelt : Spells (d.words ++ [.keyword "endinit"]) ts) (short : ts.length ≤ n) :
    Accepts (initDecl bound statement start) stop ts rest fun d' => d'.bare = d.bare := by
  refine Leads.decl covers enough (by decide) good spelt short ?_
  exact fun body same => Leads.since fun span => Leads.pure (bare_decl reserved same)

/-! Loops and `return`. -/

theorem giveStatement_accepts {start span : Span} {value : Option Expr} {ts rest : List Token}
    (good : (Stmt.give value span).WellFormed) (spelt : Spells (wordsOfValue value) ts)
    (enough : ts.length ≤ bound) (ends : (ahead rest stop).Separates)
    (closed : value = none → rest = [] ∨ (ahead rest stop).Among blockEnds) :
    Accepts (giveStatement bound start) stop ts rest
      fun s' => s'.bare = (Stmt.give value span).bare := by
  cases value with
  | none =>
    obtain rfl : ts = [] := spelt
    rcases closed rfl with rfl | among
    · exact Leads.atEnd (Leads.look fun l => Leads.since fun s => Leads.pure rfl)
    · refine Leads.atEnd (Leads.seesKeyword_among among ?_)
      rw [Bool.or_true]
      exact Leads.since fun s => Leads.pure rfl
  | some e =>
    have read := expression_covers bound e ts rest stop ⟨good, Nat.zero_le _⟩ spelt enough
      ends.stops
    obtain ⟨t, us, rfl, begins, -⟩ := Expr.first_token spelt
    have other : ¬ t.Among blockEnds := by
      rintro ⟨kind, text⟩
      rcases begins with h | h | h | h | h | h
      · cases h.symm.trans kind
      · cases h.symm.trans kind
      · cases h.symm.trans kind
      · have apart : ∀ x ∈ ["null", "True", "False", "new"], x ∉ blockEnds := by decide
        exact apart _ h.2 text
      · cases h.1.symm.trans kind
      · cases h.1.symm.trans kind
    refine Leads.atEnd (Leads.seesKeyword_not_among other ?_)
    refine read.finish fun e' same => Leads.since fun s => Leads.pure ?_
    simp only [Expr.bare] at same
    simp [Stmt.bare, Stmt.relocate, same, nowhere]

theorem loopBody_accepts {statement : Parser Stmt} (covers : StatementCovers n statement)
    (enough : n < bound) {opener closer : String} (closing : closer ∈ blockEnds) {b : Block}
    (good : BlockWellFormed b) {ts rest : List Token}
    (spelt : Spells (.optionalDo :: wordsOfBlock b ++ [.keyword closer]) ts)
    (short : ts.length ≤ n) :
    Accepts (loopBody bound statement opener closer) stop ts rest
      fun b' => bareBlock b' = bareBlock b := by
  obtain ⟨us, vs, rfl, optional, inside⟩ := spells_cons.1 spelt
  simp only [List.length_append] at short
  have read : Accepts (closedBlock bound statement opener closer) stop vs rest
      fun b' => bareBlock b' = bareBlock b :=
    closedBlock_accepts covers closing good inside (by omega) (by omega)
  rcases optional with rfl | ⟨t, rfl, here⟩
  · refine Leads.eat_not ?_ read
    obtain ⟨us, vs, rfl, inside, closed⟩ := spells_append.1 inside
    rcases block_first good inside with ⟨rfl, rfl⟩ | ⟨t, us, rfl, opens⟩
    · obtain ⟨t, rfl, here⟩ := spells_singleton.1 closed
      intro found
      have text : closer = "do" := here.2.symm.trans found.2
      rw [text] at closing
      revert closing
      decide
    · exact opens.not_keyword (by decide)
  · exact Leads.eat here read

theorem loopStatement_accepts {statement : Parser Stmt} (covers : StatementCovers n statement)
    (enough : n < bound) {start span : Span} {e : Expr} {b : Block}
    (good : (Stmt.loop e b span).WellFormed) {ts rest : List Token}
    (spelt : Spells (wordsOfCondition e ++ (.optionalDo :: wordsOfBlock b ++
      [.keyword "endwhile"])) ts) (short : ts.length ≤ n) :
    Accepts (loopStatement bound statement start) stop ts rest
      fun s' => s'.bare = (Stmt.loop e b span).bare := by
  obtain ⟨us, vs, rfl, tested, inside⟩ := spells_append.1 spelt
  simp only [List.length_append] at short
  have read : Accepts (condition bound "while") stop us (vs ++ rest) fun e' => e'.bare = e.bare :=
    condition_accepts good.1 tested (by omega)
  have read' : Accepts (loopBody bound statement "while" "endwhile") stop vs rest
      fun b' => bareBlock b' = bareBlock b :=
    loopBody_accepts covers enough (by decide) good.2 inside (by omega)
  refine read.bind fun e' same => read'.finish fun b' same' => Leads.since fun s => Leads.pure ?_
  simp only [Expr.bare, bareBlock, Stmt.bare] at same same'
  simp [Stmt.bare, Stmt.relocate, same, same', nowhere]

theorem header_accepts {h : Header} {ts rest : List Token} (good : h.WellFormed)
    (spelt : Spells h.words ts) (enough : ts.length ≤ bound)
    (closes : (ahead rest stop).Is .delimiter ")") :
    Accepts (header bound) stop ts rest fun h' => h'.bare = h.bare := by
  have read {e : Expr} {us : List Token} (good : e.WellFormed) (spelt : Spells e.words us)
      (short : us.length ≤ bound) :
      Accepts (expression bound) stop us rest fun e' => e'.bare = e.bare :=
    expression_covers bound e us rest stop ⟨good, Nat.zero_le _⟩ spelt short
      (closes.stops_of_closing (by decide))
  have apart {t : Token} {x y : String} {k k' : Token.Kind} (h : t.Is k x)
      (other : (k, x) ≠ (k', y)) : ¬ t.Is k' y := fun h' =>
    other (by rw [← h.1, ← h.2, h'.1, h'.2])
  cases h with
  | range x a b =>
    obtain ⟨t, us, rfl, named, after⟩ := spells_token_cons.1 spelt
    obtain ⟨u, us, rfl, equals, after⟩ := spells_token_cons.1 after
    obtain ⟨us, vs, rfl, first, after⟩ := spells_append.1 after
    obtain ⟨v, vs, rfl, upTo, second⟩ := spells_token_cons.1 after
    simp only [List.length_cons, List.length_append] at enough
    have read' := expression_covers bound a us (v :: vs ++ rest) stop ⟨good.1, Nat.zero_le _⟩ first
      (by omega) (upTo.stops_of_keyword (by decide))
    refine Leads.eat_not (apart named (by simp)) (Leads.name named.1 ?_)
    refine Leads.eat_not (apart equals (by simp)) (Leads.eat equals ?_)
    refine read'.bind fun a' same => Leads.keyword upTo ?_
    refine (read good.2 second (by omega)).finish fun b' same' => Leads.pure ?_
    simp only [Expr.bare] at same same'
    simp [Header.bare, Header.relocate, same, same', named.2]
  | each x e =>
    obtain ⟨t, us, rfl, named, after⟩ := spells_token_cons.1 spelt
    obtain ⟨u, us, rfl, within, source⟩ := spells_token_cons.1 after
    simp only [List.length_cons] at enough
    refine Leads.eat_not (apart named (by simp)) (Leads.name named.1 (Leads.eat within ?_))
    refine (read good source (by omega)).finish fun e' same => Leads.pure ?_
    simp only [Expr.bare] at same
    simp [Header.bare, Header.relocate, same, named.2]
  | pairs k v e =>
    obtain ⟨us, vs, rfl, ⟨key, comma, value, isKey, isComma, isValue, shape⟩, after⟩ :=
      spells_cons.1 spelt
    obtain ⟨u, vs, rfl, within, source⟩ := spells_token_cons.1 after
    simp only [List.length_cons, List.length_append] at enough
    rcases shape with rfl | ⟨left, right, isLeft, isRight, rfl⟩
    · refine Leads.eat_not (apart isKey (by simp)) (Leads.name isKey.1 ?_)
      refine Leads.eat_not (apart isComma (by simp)) (Leads.eat_not (apart isComma (by simp)) ?_)
      refine Leads.eat isComma (Leads.name isValue.1 (Leads.keyword within ?_))
      refine (read good source (by omega)).finish fun e' same => Leads.pure ?_
      simp only [Expr.bare] at same
      simp [Header.bare, Header.relocate, same, isKey.2, isValue.2]
    · refine Leads.eat isLeft (Leads.name isKey.1 (Leads.delimiter isComma ?_))
      refine Leads.name isValue.1 (Leads.delimiter isRight (Leads.keyword within ?_))
      refine (read good source (by omega)).finish fun e' same => Leads.pure ?_
      simp only [Expr.bare] at same
      simp [Header.bare, Header.relocate, same, isKey.2, isValue.2]

theorem iterateStatement_accepts {statement : Parser Stmt} (covers : StatementCovers n statement)
    (enough : n < bound) {start span : Span} {h : Header} {b : Block}
    (good : (Stmt.iterate h b span).WellFormed) {ts rest : List Token}
    (spelt : Spells (.delimiter "(" :: (h.words ++ .delimiter ")" :: (.optionalDo ::
      wordsOfBlock b ++ [.keyword "endfor"]))) ts) (short : ts.length ≤ n) :
    Accepts (iterateStatement bound statement start) stop ts rest
      fun s' => s'.bare = (Stmt.iterate h b span).bare := by
  obtain ⟨t, us, rfl, opening, after⟩ := spells_token_cons.1 spelt
  obtain ⟨us, vs, rfl, first, after⟩ := spells_append.1 after
  obtain ⟨u, vs, rfl, closing, inside⟩ := spells_token_cons.1 after
  simp only [List.length_cons, List.length_append] at short
  have read : Accepts (header bound) stop us (u :: vs ++ rest) fun h' => h'.bare = h.bare :=
    header_accepts good.1 first (by omega) closing
  have read' : Accepts (loopBody bound statement "for" "endfor") stop vs rest
      fun b' => bareBlock b' = bareBlock b :=
    loopBody_accepts covers enough (by decide) good.2 inside (by omega)
  refine Leads.delimiter opening (read.bind fun h' same => Leads.delimiter closing ?_)
  refine read'.finish fun b' same' => Leads.since fun s => Leads.pure ?_
  simp only [Header.bare, bareBlock, Stmt.bare] at same same'
  simp [Stmt.bare, Stmt.relocate, same, same', nowhere]

/-! Classes. -/

end Parser

/-- The statement that declares a member. -/
def Member.statement : Member → Stmt
  | .property x e s => .assign (.name x) e s
  | .method d => .function d d.span
  | .constructor d => .init d d.span

theorem Member.statement_words (m : Member) : m.statement.words = m.words := by
  cases m <;> rfl

theorem Member.statement_wellFormed {m : Member} (good : m.WellFormed) :
    m.statement.WellFormed := by
  cases m with
  | property x e s => exact ⟨trivial, good⟩
  | method d | constructor d => exact good

theorem Member.isConstructor_bare (m : Member) : m.bare.isConstructor = m.isConstructor := by
  cases m <;> rfl

namespace Parser

variable {n bound : Nat} {stop : Token}

theorem memberOf_bare {m : Member} {s : Stmt} (same : s.bare = m.statement.bare) :
    ∃ m', memberOf s = some m' ∧ m'.bare = m.bare := by
  have declared : memberOf m.statement = some m := by cases m <;> rfl
  have h := congrArg memberOf same
  simp only [Stmt.bare, memberOf_relocate, declared, Option.map_some,
    Option.map_eq_some_iff] at h
  exact h

/-- Members are empty or start with a token that opens a statement. -/
theorem members_first {ms : List Member} {ts : List Token} (good : MembersWellFormed ms)
    (spelt : Spells (wordsOfMembers ms ++ [.keyword "endclass"]) ts) :
    ∃ t us, ts = t :: us ∧ t.Separates ∧ ¬ t.Is .keyword "extends" := by
  cases ms with
  | nil =>
    obtain ⟨t, rfl, here⟩ := spells_singleton.1 spelt
    refine ⟨t, [], rfl, Token.separates_of_keyword here.1 (by simp [here.2]), fun other => ?_⟩
    exact absurd (here.2.symm.trans other.2) (by decide)
  | cons m ms =>
    have spelt : Spells (m.statement.words ++ (wordsOfMembers ms ++ [.keyword "endclass"])) ts := by
      simpa [wordsOfMembers, Member.statement_words] using spelt
    obtain ⟨us, vs, rfl, first, -⟩ := spells_append.1 spelt
    obtain ⟨t, us, rfl, opens⟩ := Stmt.first_token (Member.statement_wellFormed good.1) first
    refine ⟨t, us ++ vs, rfl, opens.separates, fun other => ?_⟩
    exact opens.not_keyword (by decide) other

theorem members_accepts {statement : Parser Stmt} (covers : StatementCovers n statement)
    {cls : String} (m : Nat) {ms : List Member} {built : Bool} {ts rest : List Token}
    (good : MembersWellFormed ms) (once : ms.countP Member.isConstructor ≤ constructorsLeft built)
    (spelt : Spells (wordsOfMembers ms ++ [.keyword "endclass"]) ts) (short : ts.length ≤ n)
    (enough : ts.length ≤ m) :
    Accepts (members statement cls m built) stop ts rest
      fun ms' => ms'.map Member.bare = ms.map Member.bare := by
  induction m generalizing ms built ts with
  | zero =>
    obtain ⟨t, us, rfl, -⟩ := members_first good spelt
    simp at enough
  | succ m ih =>
    cases ms with
    | nil =>
      obtain ⟨t, rfl, here⟩ := spells_singleton.1 spelt
      exact Leads.eat here (Leads.pure rfl)
    | cons mem ms =>
      have spelt : Spells (mem.statement.words ++
          (wordsOfMembers ms ++ [.keyword "endclass"])) ts := by
        simpa [wordsOfMembers, Member.statement_words] using spelt
      obtain ⟨us, vs, rfl, first, others⟩ := spells_append.1 spelt
      have goodFirst := Member.statement_wellFormed good.1
      obtain ⟨t, us, rfl, opens⟩ := Stmt.first_token goodFirst first
      simp only [List.length_append, List.length_cons] at short enough
      have valued : mem.statement.isBareGive = false := by cases mem <;> rfl
      have read : Accepts statement stop (t :: us) (vs ++ rest)
          fun s' => s'.bare = mem.statement.bare := by
        obtain ⟨u, vs, rfl, separates, -⟩ := members_first good.2 others
        refine covers _ (t :: us) (u :: vs ++ rest) stop goodFirst first ?_ separates ?_
        · simp only [List.length_cons]
          omega
        · simp [valued]
      have read' {built : Bool} (once : ms.countP Member.isConstructor ≤ constructorsLeft built) :=
        ih good.2 once others (by omega) (by omega)
      have started : ¬ t.Is .keyword "endclass" := opens.not_keyword (by decide)
      refine Leads.eat_not started (Leads.atEnd (Leads.peek (read.bind fun s' same => ?_)))
      obtain ⟨mem', declares, same⟩ := memberOf_bare same
      have kind : mem'.isConstructor = mem.isConstructor := by
        rw [← mem'.isConstructor_bare, same, mem.isConstructor_bare]
      rw [declares]
      simp only [List.countP_cons, ← kind] at once
      cases mem' with
      | constructor d =>
        have fresh : built = false := by
          cases built with
          | false => rfl
          | true => simp [constructorsLeft, Member.isConstructor] at once
        subst fresh
        have once : ms.countP Member.isConstructor ≤ constructorsLeft true := by
          simpa [constructorsLeft, Member.isConstructor] using once
        exact (read' once).finish fun ms' same' => Leads.pure (by simp [same, same'])
      | property x e s | method d =>
        have once : ms.countP Member.isConstructor ≤ constructorsLeft built := by
          simpa [Member.isConstructor] using once
        exact (read' once).finish fun ms' same' => Leads.pure (by simp [same, same'])

theorem classStatement_accepts {statement : Parser Stmt} (covers : StatementCovers n statement)
    (enough : n < bound) {start span : Span} {x : String} {parent : Option ClassPath}
    {ms : List Member} (good : (Stmt.cls x parent ms span).WellFormed) {ts rest : List Token}
    (spelt : Spells (.name x :: (wordsOfParent parent ++ (wordsOfMembers ms ++
      [.keyword "endclass"]))) ts) (short : ts.length ≤ n) :
    Accepts (classStatement bound statement start) stop ts rest
      fun s' => s'.bare = (Stmt.cls x parent ms span).bare := by
  obtain ⟨t, us, rfl, named, after⟩ := spells_token_cons.1 spelt
  obtain ⟨us, vs, rfl, derived, inside⟩ := spells_append.1 after
  simp only [List.length_cons, List.length_append] at short
  have read : Accepts (members statement t.text bound false) stop vs rest
      fun ms' => ms'.map Member.bare = ms.map Member.bare :=
    members_accepts covers bound good.2 good.1 inside (by omega) (by omega)
  have rest' : Accepts (do
      let ms ← members statement t.text bound false
      return Stmt.cls t.text parent ms (← since start)) stop vs rest
      fun s' => s'.bare = (Stmt.cls x parent ms span).bare := by
    refine read.finish fun ms' same => Leads.since fun s => Leads.pure ?_
    simp only [Member.bare] at same
    simp [Stmt.bare, Stmt.relocate, same, named.2, nowhere]
  obtain ⟨v, vs, rfl, separates, other⟩ := members_first good.2 inside
  refine Leads.name named.1 ?_
  cases parent with
  | none =>
    obtain rfl : us = [] := derived
    exact Leads.eat_not other rest'
  | some p =>
    obtain ⟨u, us, rfl, extends', path⟩ := spells_token_cons.1 derived
    simp only [List.length_cons] at short
    have named' : Accepts (classPath bound .parentName) stop us (v :: vs ++ rest) (· = p) :=
      classPath_accepts path (by omega) fun point => separates.delimiter point.1
    refine Leads.eat extends' ?_
    have parents : Accepts (some <$> classPath bound .parentName) stop us (v :: vs ++ rest)
        (· = some p) := named'.finish fun p' same => Leads.pure (by rw [same])
    exact parents.bind fun p' same => same ▸ rest'

theorem importStatement_accepts {start span : Span} {file : String} {items : Selection}
    {ts rest : List Token} (spelt : Spells (.text file :: .keyword "use" :: items.words) ts)
    (enough : ts.length ≤ bound) :
    Accepts (importStatement bound start) stop ts rest
      fun s' => s'.bare = (Stmt.imports file items span).bare := by
  obtain ⟨t, us, rfl, path, after⟩ := spells_token_cons.1 spelt
  obtain ⟨u, us, rfl, use, selected⟩ := spells_token_cons.1 after
  simp only [List.length_cons] at enough
  have read : Accepts (selection bound) stop us rest (· = items) :=
    selection_accepts selected (by omega)
  refine Leads.expectKind path.1 (Leads.keyword use ?_)
  refine read.finish fun items' same => Leads.since fun s => Leads.pure ?_
  simp [Stmt.bare, Stmt.relocate, same, path.2, nowhere]

theorem loadStatement_accepts {start span : Span} {file x : String} {ts rest : List Token}
    (spelt : Spells [.text file, .keyword "as", .name x] ts) :
    Accepts (loadStatement start) stop ts rest
      fun s' => s'.bare = (Stmt.load file x span).bare := by
  obtain ⟨t, us, rfl, path, after⟩ := spells_token_cons.1 spelt
  obtain ⟨u, us, rfl, as', after⟩ := spells_token_cons.1 after
  obtain ⟨v, rfl, named⟩ := spells_singleton.1 after
  refine Leads.expectKind path.1 (Leads.keyword as' (Leads.name named.1 ?_))
  refine Leads.since fun s => Leads.pure ?_
  simp [Stmt.bare, Stmt.relocate, path.2, named.2, nowhere]

/-! Assignments and calls. -/

end Parser

/-- The tree that stands for a target. -/
def Target.tree : Target → Expr
  | .name x => .name x default
  | .index e k => .index e k default
  | .property e x => .property e x default

theorem Target.tree_words (t : Target) : t.tree.words = t.words := by
  cases t <;> rfl

theorem Target.tree_fits {t : Target} (good : t.WellFormed) : Fits 9 t.tree := by
  cases t with
  | name x => exact ⟨trivial, Nat.le_succ 9⟩
  | index e k => exact ⟨⟨good.1, good.2.1, good.2.2.2⟩, Nat.le_refl 9⟩
  | property e x => exact ⟨⟨good.1, good.2.1⟩, Nat.le_refl 9⟩

namespace Parser

variable {n bound : Nat} {stop : Token}

theorem targetOf_bare {t : Target} {e : Expr} (same : e.bare = t.tree.bare) :
    ∃ t', targetOf e = some t' ∧ t'.bare = t.bare := by
  have stands : targetOf t.tree = some t := by cases t <;> rfl
  have h := congrArg targetOf same
  simp only [Expr.bare, targetOf_relocate, stands, Option.map_some, Option.map_eq_some_iff] at h
  exact h

theorem chain_accepts {e : Expr} {ts rest : List Token} (fits : Fits 9 e)
    (spelt : Spells e.words ts) (short : ts.length ≤ n + 1) (stops : (ahead rest stop).Stops 9) :
    Accepts (chain (n + 1) (expression (n + 1))) stop ts rest fun e' => e'.bare = e.bare :=
  chain_covers ((expression_covers (n + 1)).shorter (Nat.le_succ n)) e ts rest stop fits spelt
    short stops

theorem assignment_accepts {target : Target} {e : Expr} {span : Span} {ts rest : List Token}
    (good : target.WellFormed) (good' : e.WellFormed)
    (spelt : Spells (target.words ++ .operator "=" :: e.words) ts) (short : ts.length ≤ n + 1)
    (ends : (ahead rest stop).Separates) :
    Accepts (nameStatement (n + 1)) stop ts rest
      fun s' => s'.bare = (Stmt.assign target e span).bare := by
  obtain ⟨us, vs, rfl, left, after⟩ := spells_append.1 spelt
  obtain ⟨t, vs, rfl, equals, right⟩ := spells_token_cons.1 after
  simp only [List.length_append, List.length_cons] at short
  have read : Accepts (chain (n + 1) (expression (n + 1))) stop us (t :: vs ++ rest)
      fun e' => e'.bare = target.tree.bare :=
    chain_accepts (Target.tree_fits good) (target.tree_words ▸ left) (by omega)
      equals.stops_of_assignment
  have read' := expression_covers (n + 1) e vs rest stop ⟨good', Nat.zero_le _⟩ right (by omega)
    ends.stops
  refine Leads.peek (read.bind fun e' same => Leads.eat equals ?_)
  obtain ⟨target', stands, same⟩ := targetOf_bare same
  rw [stands]
  refine read'.finish fun value same' => Leads.since fun s => Leads.pure ?_
  simp only [Target.bare, Expr.bare] at same same'
  simp [Stmt.bare, Stmt.relocate, same, same', nowhere]

theorem call_accepts {e : Expr} {span : Span} {ts rest : List Token} (good : e.WellFormed)
    (call : isCall e) (spelt : Spells e.words ts) (short : ts.length ≤ n + 1)
    (ends : (ahead rest stop).Separates) :
    Accepts (nameStatement (n + 1)) stop ts rest
      fun s' => s'.bare = (Stmt.expression e span).bare := by
  have tight : 9 ≤ e.rank := by
    cases e <;> simp_all [isCall, Expr.rank]
  have read : Accepts (chain (n + 1) (expression (n + 1))) stop ts rest
      fun e' => e'.bare = e.bare := chain_accepts ⟨good, tight⟩ spelt short ends.stops
  refine Leads.peek (read.finish fun e' same => Leads.eat_not ?_ ?_)
  · exact fun equals => ends.operator equals.1
  · simp only [Expr.bare] at same
    have call' : isCall e' = true := by
      rw [← isCall_relocate nowhere e', same, isCall_relocate, call]
    rw [call']
    refine Leads.since fun s => Leads.pure ?_
    simp [Stmt.bare, Stmt.relocate, same, nowhere]

/-! Whole statements. -/

theorem Leads.keywordStatement {x : String} {ws : List Word} {ts rest : List Token}
    {good : Stmt → Prop} (spelt : Spells (.keyword x :: ws) ts)
    (read : ∀ span us, Spells ws us → us.length < ts.length →
      Accepts (keywordStatement (n + 1) (statement n) ⟨.keyword, x, span⟩) stop us rest good) :
    Accepts (statement (n + 1)) stop ts rest good := by
  obtain ⟨⟨_, _, span⟩, us, rfl, ⟨rfl, rfl⟩, after⟩ := spells_token_cons.1 spelt
  exact Leads.peek (Leads.step (read span us after (Nat.lt_succ_self us.length)))

theorem Leads.nameStatement {ts rest : List Token} {good : Stmt → Prop}
    (named : ∃ t us, ts = t :: us ∧ t.kind = .name)
    (read : Accepts (nameStatement (n + 1)) stop ts rest good) :
    Accepts (statement (n + 1)) stop ts rest good := by
  obtain ⟨⟨_, x, span⟩, us, rfl, rfl⟩ := named
  exact Leads.peek read

theorem statement_step (covers : StatementCovers n (statement n)) :
    StatementCovers (n + 1) (statement (n + 1)) := by
  intro s ts rest stop good spelt short ends closed
  have enough : n < n + 1 := Nat.lt_succ_self n
  cases s with
  | expression e s =>
    have tight : 9 ≤ e.rank := by
      cases e <;> simp_all [Stmt.WellFormed, isCall, Expr.rank]
    have read : Accepts (nameStatement (n + 1)) stop ts rest
        fun s' => s'.bare = (Stmt.expression e s).bare :=
      call_accepts good.1 good.2.1 spelt short ends
    obtain ⟨t, us, rfl, -, head⟩ := Expr.first_token spelt
    have named := (Expr.head_of_tight good.1 tight head).2.1 good.2.2
    exact Leads.nameStatement ⟨t, us, rfl, named⟩ read
  | assign target e s =>
    have read : Accepts (nameStatement (n + 1)) stop ts rest
        fun s' => s'.bare = (Stmt.assign target e s).bare :=
      assignment_accepts good.1 good.2 spelt short ends
    obtain ⟨us, vs, rfl, left, -⟩ := spells_append.1 spelt
    obtain ⟨t, us, rfl, named⟩ := Target.first_token good.1 left
    exact Leads.nameStatement ⟨t, us ++ vs, rfl, named⟩ read
  | print e s =>
    refine Leads.keywordStatement spelt fun span us after less => ?_
    obtain ⟨t, us, rfl, opening, after⟩ := spells_token_cons.1 after
    simp only [List.length_cons] at less
    refine Leads.delimiter opening ?_
    apply Leads.closed after
    · intro us rest shorter inside closes
      exact expression_covers (n + 1) e us rest stop ⟨good, Nat.zero_le _⟩ inside (by omega)
        (closes.stops_of_closing (by decide))
    · refine fun e' same => Leads.since fun s => Leads.pure ?_
      simp only [Expr.bare] at same
      simp [Stmt.bare, Stmt.relocate, same, nowhere]
  | branch bs otherwise s =>
    cases bs with
    | nil => exact absurd rfl good.1
    | cons b bs =>
      refine Leads.keywordStatement spelt fun span us after less => ?_
      have after : Spells (wordsOfCondition b.1 ++ wordsOfBlock b.2 ++
        wordsOfRest (bs, otherwise)) us := by simpa [wordsOfRest] using after
      exact branchStatement_accepts covers (Nat.le_succ n) good after (by omega)
  | loop e b s =>
    refine Leads.keywordStatement spelt fun span us after less => ?_
    have after : Spells (wordsOfCondition e ++ (.optionalDo :: wordsOfBlock b ++
      [.keyword "endwhile"])) us := by simpa using after
    exact loopStatement_accepts covers enough good after (by omega)
  | iterate h b s =>
    refine Leads.keywordStatement spelt fun span us after less => ?_
    have after : Spells (.delimiter "(" :: (h.words ++ .delimiter ")" :: (.optionalDo ::
      wordsOfBlock b ++ [.keyword "endfor"]))) us := by simpa using after
    exact iterateStatement_accepts covers enough good after (by omega)
  | leave s =>
    refine Leads.keywordStatement spelt fun span us after less => ?_
    obtain rfl : us = [] := after
    exact Leads.pure rfl
  | give value s =>
    refine Leads.keywordStatement spelt fun span us after less => ?_
    apply giveStatement_accepts good after (by omega) ends
    intro none
    subst none
    exact closed rfl
  | function d s =>
    refine Leads.keywordStatement spelt fun span us after less => ?_
    have read : Accepts (functionDecl (n + 1) (statement n) span) stop us rest
        fun d' => d'.bare = d.bare :=
      functionDecl_accepts covers enough good after (by omega)
    refine read.finish fun d' same => Leads.since fun s => Leads.pure ?_
    simp only [Decl.bare] at same
    simp [Stmt.bare, Stmt.relocate, same, nowhere]
  | init d s =>
    refine Leads.keywordStatement spelt fun span us after less => ?_
    have read : Accepts (initDecl (n + 1) (statement n) span) stop us rest
        fun d' => d'.bare = d.bare :=
      initDecl_accepts covers enough good.1 good.2 after (by omega)
    refine read.finish fun d' same => Leads.since fun s => Leads.pure ?_
    simp only [Decl.bare] at same
    simp [Stmt.bare, Stmt.relocate, same, nowhere]
  | cls x parent ms s =>
    refine Leads.keywordStatement spelt fun span us after less => ?_
    have after : Spells (.name x :: (wordsOfParent parent ++ (wordsOfMembers ms ++
      [.keyword "endclass"]))) us := by simpa using after
    exact classStatement_accepts covers enough good after (by omega)
  | super args s =>
    refine Leads.keywordStatement spelt fun span us after less => ?_
    obtain ⟨t, us, rfl, opening, inside⟩ := spells_token_cons.1 after
    simp only [List.length_cons] at less
    have read : Accepts (arguments (n + 1) (expression (n + 1))) stop us rest
        fun args' => args'.map Expr.bare = args.map Expr.bare :=
      arguments_accepts (expression_covers (n + 1)) (Nat.le_refl _) good inside (by omega)
    refine Leads.delimiter opening (read.finish fun args' same => Leads.since fun s => Leads.pure ?_)
    simp only [Expr.bare] at same
    simp [Stmt.bare, Stmt.relocate, same, nowhere]
  | share names s =>
    refine Leads.keywordStatement spelt fun span us after less => ?_
    have read : Accepts (Parser.names (n + 1) "(" ")") stop us rest (· = names) :=
      names_accepts (by decide) after (by omega)
    refine read.finish fun names' same => Leads.since fun s => Leads.pure ?_
    simp [Stmt.bare, Stmt.relocate, same, nowhere]
  | imports file items s =>
    refine Leads.keywordStatement spelt fun span us after less => ?_
    exact importStatement_accepts after (by omega)
  | load file x s =>
    exact Leads.keywordStatement spelt fun span us after _ => loadStatement_accepts after

theorem statement_covers (m : Nat) : StatementCovers m (statement m) := by
  induction m with
  | zero =>
    intro s ts rest stop good spelt short
    obtain ⟨t, us, rfl, -⟩ := Stmt.first_token good spelt
    simp at short
  | succ m ih => exact statement_step ih

/-- Statements up to the end of the row. -/
theorem statements_accepts (ends : stop.kind = .eof) (m : Nat) {b : Block} {ts : List Token}
    (good : BlockWellFormed b) (spelt : Spells (wordsOfBlock b) ts) (short : ts.length ≤ bound)
    (enough : ts.length ≤ m) :
    Accepts (statements bound m) stop ts [] fun b' => bareBlock b' = bareBlock b := by
  induction m generalizing b ts with
  | zero =>
    obtain rfl : ts = [] := List.eq_nil_of_length_eq_zero (Nat.le_zero.1 enough)
    rcases block_first good spelt with ⟨rfl, -⟩ | ⟨t, us, impossible, -⟩
    · exact Leads.pure rfl
    · cases impossible
  | succ m ih =>
    cases b with
    | nil =>
      obtain rfl : ts = [] := spelt
      exact Leads.atEnd (Leads.pure rfl)
    | cons s b =>
      obtain ⟨us, vs, rfl, first, others⟩ := spells_append.1 spelt
      simp only [List.length_append] at short enough
      have separates : (ahead [] stop).Separates := by
        have kind : (ahead [] stop).kind = .eof := ends
        exact ⟨by simp [kind], by simp [kind], fun h => by cases kind.symm.trans h.1⟩
      have read := (statement_covers bound).first good first others (by omega) separates (.inl rfl)
      obtain ⟨t, us, rfl, -⟩ := Stmt.first_token good.1 first
      simp only [List.length_cons] at short enough
      refine Leads.atEnd (read.bind fun s' same => ?_)
      refine (ih good.2.2 others (by omega) (by omega)).finish fun b' same' => Leads.pure ?_
      simp only [bareBlock] at same' ⊢
      simp [same, same']

end Parser

end Script
