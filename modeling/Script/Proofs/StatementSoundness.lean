import Script.Proofs.ExpressionSoundness

/-! What the statement parsers take is a spelling of the tree that they answer with, and so is all of
an accepted row of tokens. -/

namespace Script.Parser

variable {α : Type} {n : Nat}

/-- The tokens between two states of a stream spell the words. -/
def Took (s s' : Stream) (ws : List Word) : Prop :=
  s'.stop = s.stop ∧ ∃ ts, s.rest = ts ++ s'.rest ∧ Spells ws ts

theorem Took.trans {s s₁ s' : Stream} {ws vs : List Word} (first : Took s s₁ ws)
    (second : Took s₁ s' vs) : Took s s' (ws ++ vs) := by
  obtain ⟨stop, ts, rest, spelt⟩ := first
  obtain ⟨stop', ts', rest', spelt'⟩ := second
  exact ⟨stop'.trans stop, ts ++ ts', by simp [rest, rest'], spelt.append spelt'⟩

theorem Took.length_le {s s' : Stream} {ws : List Word} (took : Took s s' ws) :
    s'.rest.length ≤ s.rest.length := by
  obtain ⟨-, ts, rest, -⟩ := took
  simp [rest]

theorem Took.token {s : Stream} {kind : Token.Kind} (ends : s.stop.kind = .eof)
    (found : s.next.kind = kind) (proper : kind ≠ .eof) :
    Took s s.advance [.token kind s.next.text] ∧ s.advance.rest.length < s.rest.length := by
  obtain ⟨ts, rest, taken⟩ := next_mem ends found proper
  refine ⟨⟨by simp [taken], [s.next], by simp [rest, taken], ?_⟩, by simp [rest, taken]⟩
  exact spells_singleton.2 ⟨s.next, rfl, found, rfl⟩

theorem Reads.took {p : Parser α} {before : List Word} {after : α → List Word} {good : α → Prop}
    (h : Reads n before p after good) {s₀ s s' : Stream} {a : α} (ends : s.stop.kind = .eof)
    (short : s.rest.length ≤ n) (read : Took s₀ s before) (run : p s = .ok a s') :
    good a ∧ Took s₀ s' (after a) := by
  obtain ⟨stop₀, us, rest₀, spelt₀⟩ := read
  obtain ⟨ga, stop, ts, rest, spelt⟩ := h s a s' ends short run
  exact ⟨ga, stop.trans stop₀, us ++ ts, by simp [rest₀, rest], spelt us spelt₀⟩

theorem Took.refl (s : Stream) : Took s s [] := ⟨rfl, [], rfl, rfl⟩

/-- The keywords that end a block. -/
def blockEnds : List String :=
  ["endf", "endinit", "endif", "elif", "else", "endwhile", "endfor", "endclass"]

/-- One of the keywords comes next. -/
def Sees (words : List String) (s : Stream) : Prop :=
  s.next.kind = .keyword ∧ s.next.text ∈ words

/-- A parser of statements. After a `return` without a value it stands at the end of a block. -/
structure StatementReads (n : Nat) (p : Parser Stmt) : Prop where
  reads : Reads n [] p Stmt.words Stmt.WellFormed
  gives : ∀ s st s', s.stop.kind = .eof → s.rest.length ≤ n → p s = .ok st s' →
    st.isBareGive → s'.rest = [] ∨ Sees blockEnds s'

theorem StatementReads.refuses {p : Parser Stmt} (h : StatementReads n p) {s s' : Stream}
    {st : Stmt} (ends : s.stop.kind = .eof) (short : s.rest.length ≤ n)
    (closed : s.rest = [] ∨ Sees blockEnds s) : p s ≠ .ok st s' := by
  intro run
  obtain ⟨good, -, ts, rest, spelt⟩ := h.reads.took ends short (Took.refl s) run
  obtain ⟨t, us, rfl, opens⟩ := Stmt.first_token good spelt
  rcases closed with empty | ⟨kind, text⟩
  · simp [empty] at rest
  · have next : s.next = t := by simp [Stream.next, rest]
    rw [next] at kind text
    rcases opens with named | ⟨-, starter⟩
    · rw [kind] at named
      cases named
    · have apart : ∀ x ∈ blockEnds, x ∉ starters := by decide
      exact apart _ text starter

/-- A block is well formed, ends before one of its closing keywords, and is empty if it starts at
the end of a block. -/
theorem block_took {statement : Parser Stmt} (h : StatementReads n statement) {opener : String}
    {closers : List String} (m : Nat) {s s' : Stream} {b : Block} (ends : s.stop.kind = .eof)
    (short : s.rest.length ≤ n) (run : block statement opener closers m s = .ok b s') :
    (BlockWellFormed b ∧ (s.rest = [] ∨ Sees blockEnds s → b = [])) ∧ Sees closers s' ∧
      Took s s' (wordsOfBlock b) := by
  induction m generalizing s b with
  | zero => cases run
  | succ m ih =>
    obtain ⟨_, s₁, look, run⟩ := bind_ok.1 run
    cases look
    split at run
    · rename_i sees
      cases run
      have sees : Sees closers s' := by simpa [Sees] using sees
      exact ⟨⟨trivial, fun _ => rfl⟩, sees, Took.refl s'⟩
    · obtain ⟨_, s₁, look, run⟩ := bind_ok.1 run
      cases look
      split at run
      · cases run
      · obtain ⟨st, s₁, hst, run⟩ := bind_ok.1 run
        obtain ⟨b, s₂, hb, run⟩ := bind_ok.1 run
        cases run
        obtain ⟨good, took⟩ := h.reads.took ends short (Took.refl s) hst
        have ends' : s₁.stop.kind = .eof := took.1 ▸ ends
        have short' := Nat.le_trans took.length_le short
        obtain ⟨⟨goods, last⟩, sees, took'⟩ := ih ends' short' hb
        have alone (bare : st.isBareGive) := last (h.gives s st s₁ ends short hst bare)
        refine ⟨⟨⟨good, alone, goods⟩, fun closed => ?_⟩, sees, took.trans took'⟩
        exact absurd hst (h.refuses ends short closed)

theorem closedBlock_reads {statement : Parser Stmt} (h : StatementReads n statement)
    (bound : Nat) (opener closer : String) :
    Reads n [] (closedBlock bound statement opener closer)
      (fun b => wordsOfBlock b ++ [.keyword closer]) BlockWellFormed := by
  intro s b s' ends short run
  obtain ⟨b, s₁, hb, run⟩ := bind_ok.1 run
  obtain ⟨_, s₂, step, run⟩ := bind_ok.1 run
  cases step
  cases run
  obtain ⟨⟨good, -⟩, ⟨kind, text⟩, took⟩ := block_took h bound ends short hb
  obtain ⟨last, -⟩ := Took.token (took.1 ▸ ends) kind (by decide)
  rw [List.mem_singleton.1 text] at last
  obtain ⟨stop, ts, rest, spelt⟩ := took.trans last
  exact ⟨good, stop, ts, rest, fun us hus => (spells_nil.1 hus) ▸ spelt⟩

theorem condition_reads (bound : Nat) (word : String) :
    Reads n [] (condition bound word) wordsOfCondition Expr.WellFormed := by
  apply (delimiter_reads _ _).bind
  intro _ _
  apply (expression_reads bound).after_words.bind
  intro e good
  exact (delimiter_reads _ _).bind fun _ _ => Reads.pure good rfl

/-- The keywords that can follow a branch. -/
def branchEnds : List String := ["elif", "else", "endif"]

theorem guarded_took {statement : Parser Stmt} (h : StatementReads n statement) {bound : Nat}
    {word : String} {s s' : Stream} {b : Expr × Block} (ends : s.stop.kind = .eof)
    (short : s.rest.length ≤ n) (run : guarded bound statement word s = .ok b s') :
    (b.1.WellFormed ∧ BlockWellFormed b.2) ∧ Sees branchEnds s' ∧
      Took s s' (wordsOfCondition b.1 ++ wordsOfBlock b.2) := by
  obtain ⟨e, s₁, he, run⟩ := bind_ok.1 run
  obtain ⟨b, s₂, hb, run⟩ := bind_ok.1 run
  cases run
  obtain ⟨good, took⟩ := (condition_reads bound word).took ends short (Took.refl s) he
  obtain ⟨⟨goods, -⟩, sees, took'⟩ :=
    block_took h bound (took.1 ▸ ends) (Nat.le_trans took.length_le short) hb
  exact ⟨⟨good, goods⟩, sees, took.trans took'⟩

/-- The words of the branches after the first, up to the end of the statement. -/
def wordsOfRest (r : List (Expr × Block) × Option Block) : List Word :=
  wordsOfBranches "elif" r.1 ++ wordsOfOtherwise r.2 ++ [.keyword "endif"]

theorem otherBranches_took {statement : Parser Stmt} (h : StatementReads n statement)
    {bound : Nat} (m : Nat) {s s' : Stream} {r : List (Expr × Block) × Option Block}
    (ends : s.stop.kind = .eof) (short : s.rest.length ≤ n) (enough : s.rest.length ≤ m)
    (sees : Sees branchEnds s) (run : otherBranches bound statement m s = .ok r s') :
    (BranchesWellFormed r.1 ∧ OtherwiseWellFormed r.2) ∧ Took s s' (wordsOfRest r) := by
  induction m generalizing s r with
  | zero =>
    obtain ⟨ts, rest, -⟩ := next_mem ends sees.1 (by decide)
    simp [rest] at enough
  | succ m ih =>
    obtain ⟨ts, rest, taken⟩ := next_mem ends sees.1 (by decide)
    obtain ⟨took, less⟩ := Took.token ends sees.1 (by decide)
    obtain ⟨t, s₁, step, run⟩ := bind_ok.1 run
    cases step
    have last : s.advance.last = s.next := by rw [taken]
    have ends₁ : s.advance.stop.kind = .eof := took.1 ▸ ends
    have short₁ : s.advance.rest.length ≤ n := by omega
    rw [last] at run
    split at run
    · rename_i elif
      rw [elif] at took
      obtain ⟨b, s₂, hb, run⟩ := bind_ok.1 run
      obtain ⟨⟨bs, otherwise⟩, s₃, hr, run⟩ := bind_ok.1 run
      cases run
      obtain ⟨good, sees₂, took₂⟩ := guarded_took h ends₁ short₁ hb
      have le := took₂.length_le
      obtain ⟨goods, took₃⟩ := ih (took₂.1 ▸ ends₁) (by omega) (by omega) sees₂ hr
      refine ⟨⟨⟨good.1, good.2, goods.1⟩, goods.2⟩, ?_⟩
      have all := (took.trans took₂).trans took₃
      simpa [wordsOfRest, wordsOfBranches, wordsOfCondition] using all
    · rename_i notElif
      split at run
      · rename_i els
        rw [els] at took
        obtain ⟨b, s₂, hb, run⟩ := bind_ok.1 run
        cases run
        obtain ⟨good, took₂⟩ :=
          (closedBlock_reads h bound _ _).after_words.took ends₁ short₁ took hb
        exact ⟨⟨trivial, good⟩, by
          simpa [wordsOfRest, wordsOfBranches, wordsOfOtherwise] using took₂⟩
      · rename_i notElse
        cases run
        have endif : s.next.text = "endif" := by
          have := sees.2
          simp only [branchEnds, List.mem_cons, List.not_mem_nil, or_false] at this
          grind
        rw [endif] at took
        exact ⟨⟨trivial, trivial⟩, took⟩

theorem branchStatement_reads {statement : Parser Stmt} (h : StatementReads n statement)
    {bound : Nat} (enough : n ≤ bound) (start : Span) :
    Reads n [.keyword "if"] (branchStatement bound statement start) Stmt.words
      Stmt.WellFormed := by
  intro s st s' ends short run
  obtain ⟨b, s₁, hb, run⟩ := bind_ok.1 run
  obtain ⟨⟨bs, otherwise⟩, s₂, hr, run⟩ := bind_ok.1 run
  cases run
  obtain ⟨good, sees, took⟩ := guarded_took h ends short hb
  have short₁ := Nat.le_trans took.length_le short
  obtain ⟨goods, took'⟩ := otherBranches_took h bound (took.1 ▸ ends) short₁
    (Nat.le_trans short₁ enough) sees hr
  refine ⟨⟨by simp, ⟨good.1, good.2, goods.1⟩, goods.2⟩, ?_⟩
  obtain ⟨stop, ts, rest, spelt⟩ := took.trans took'
  refine ⟨stop, ts, rest, fun us hus => ?_⟩
  simpa [Stmt.words, wordsOfBranches, wordsOfRest, wordsOfCondition] using hus.append spelt

theorem each_nodup {seen xs : List String}
    (each : Each (fun seen (x : String) => x ∉ seen) seen xs) :
    (∀ x ∈ xs, x ∉ seen) ∧ xs.Nodup := by
  induction xs generalizing seen with
  | nil => simp
  | cons x xs ih =>
    obtain ⟨fresh, rest⟩ := each
    obtain ⟨apart, nodup⟩ := ih rest
    rw [List.forall_mem_cons]
    refine ⟨⟨fresh, fun y hy => ?_⟩, List.nodup_cons.2 ⟨fun hx => ?_, nodup⟩⟩
    · exact fun known => apart y hy (List.mem_cons_of_mem x known)
    · exact apart x hx List.mem_cons_self

theorem parameters_reads (bound : Nat) :
    Reads n [] (parameters bound) (wordsOfNames "(" ")") List.Nodup := by
  have items (seen : List String) : Reads n [] (do
      let p ← name .parameter
      if seen.contains p then fail (.duplicateParameter p) (← last).span else return p)
      (fun x => [.name x]) (fun x => x ∉ seen) := by
    refine (name_reads _).bind fun x _ => Reads.ite (fun _ => ?_) fun fresh => ?_
    · exact last_reads.bind fun _ _ => Reads.fail _ _
    · exact Reads.pure (by simpa using fresh) rfl
  apply (delimiter_reads _ _).bind
  intro _ _
  apply (listedUntil_reads items bound).after_words.bind
  intro params each
  refine (delimiter_reads _ _).bind fun _ _ => Reads.pure (each_nodup each).2 ?_
  simp [wordsOfNames]

theorem functionDecl_reads {statement : Parser Stmt} (h : StatementReads n statement)
    (bound : Nat) (start : Span) :
    Reads n [] (functionDecl bound statement start)
      (fun d => .name d.name :: d.words ++ [.keyword "endf"]) Decl.WellFormed := by
  apply (name_reads _).bind
  intro x _
  apply (parameters_reads bound).after_words.bind
  intro params distinct
  apply (closedBlock_reads h bound _ _).after_words.bind
  intro body good
  refine (since_reads _).bind fun span _ => Reads.pure ⟨distinct, good⟩ ?_
  simp [Decl.words]

theorem initDecl_reads {statement : Parser Stmt} (h : StatementReads n statement)
    (bound : Nat) (start : Span) :
    Reads n [] (initDecl bound statement start) (fun d => d.words ++ [.keyword "endinit"])
      fun d => d.name = constructorName ∧ d.WellFormed := by
  apply (parameters_reads bound).bind
  intro params distinct
  apply (closedBlock_reads h bound _ _).after_words.bind
  intro body good
  refine (since_reads _).bind fun span _ => Reads.pure ⟨rfl, distinct, good⟩ ?_
  simp [Decl.words]

theorem giveStatement_reads (bound : Nat) (start : Span) :
    Reads n [.keyword "return"] (giveStatement bound start) Stmt.words Stmt.WellFormed := by
  refine atEnd_reads.bind fun _ _ => (seesKeyword_reads _).bind fun _ _ => ?_
  refine Reads.ite (fun _ => ?_) fun _ => ?_
  · exact (since_reads _).bind fun span _ => Reads.pure trivial rfl
  · apply (expression_reads bound).after_words.bind
    intro e good
    exact (since_reads _).bind fun span _ => Reads.pure good rfl

theorem loopBody_reads {statement : Parser Stmt} (h : StatementReads n statement)
    (bound : Nat) (opener closer : String) :
    Reads n [] (loopBody bound statement opener closer)
      (fun b => .optionalDo :: wordsOfBlock b ++ [.keyword closer]) BlockWellFormed := by
  have body : Reads n [.optionalDo] (closedBlock bound statement opener closer)
      (fun b => .optionalDo :: wordsOfBlock b ++ [.keyword closer]) BlockWellFormed :=
    (closedBlock_reads h bound opener closer).after_words
  intro s b s' ends short run
  obtain ⟨_, s₁, ate, run⟩ := bind_ok.1 run
  by_cases doing : s.next.Is .keyword "do"
  · rw [eat_yes doing] at ate
    cases ate
    obtain ⟨ts, rest, taken⟩ := next_mem ends doing.1 (by decide)
    rw [taken] at run
    have short' : ts.length ≤ n := by
      rw [rest, List.length_cons] at short
      omega
    have spelt : Spells [.optionalDo] [s.next] :=
      spells_singleton.2 (.inr ⟨s.next, rfl, doing⟩)
    have body : Reads n ([] ++ [.optionalDo]) _ _ _ := body
    exact body.take ends rest short' spelt run
  · rw [eat_no doing] at ate
    cases ate
    obtain ⟨good, stop, ts, rest, spelt⟩ := body s b s' ends short run
    refine ⟨good, stop, ts, rest, fun us hus => ?_⟩
    rw [spells_nil.1 hus]
    exact spelt [] (spells_singleton.2 (.inl rfl))

theorem loopStatement_reads {statement : Parser Stmt} (h : StatementReads n statement)
    (bound : Nat) (start : Span) :
    Reads n [.keyword "while"] (loopStatement bound statement start) Stmt.words
      Stmt.WellFormed := by
  apply (condition_reads bound _).after_words.bind
  intro e good
  apply (loopBody_reads h bound _ _).after_words.bind
  intro b goods
  refine (since_reads _).bind fun span _ => Reads.pure ⟨good, goods⟩ ?_
  simp [Stmt.words]

theorem pair_spelt {k v : String} {us : List Token}
    (spelt : Spells [.name k, .comma, .name v] us) : Spells [.pair k v] us := by
  obtain ⟨tk, _, rfl, hk, spelt⟩ := spells_token_cons.1 spelt
  obtain ⟨tc, _, rfl, hc, spelt⟩ := spells_token_cons.1 spelt
  obtain ⟨tv, rfl, hv⟩ := spells_singleton.1 spelt
  exact spells_singleton.2 ⟨tk, tc, tv, hk, hc, hv, .inl rfl⟩

theorem pair_spelt_in_parentheses {k v : String} {us : List Token}
    (spelt : Spells [.delimiter "(", .name k, .comma, .name v, .delimiter ")"] us) :
    Spells [.pair k v] us := by
  obtain ⟨tl, _, rfl, hl, spelt⟩ := spells_token_cons.1 spelt
  obtain ⟨tk, _, rfl, hk, spelt⟩ := spells_token_cons.1 spelt
  obtain ⟨tc, _, rfl, hc, spelt⟩ := spells_token_cons.1 spelt
  obtain ⟨tv, _, rfl, hv, spelt⟩ := spells_token_cons.1 spelt
  obtain ⟨tr, rfl, hr⟩ := spells_singleton.1 spelt
  exact spells_singleton.2 ⟨tk, tc, tv, hk, hc, hv, .inr ⟨tl, tr, hl, hr, rfl⟩⟩

/-- The rest of a header after its two names. -/
theorem pairs_reads (bound : Nat) (k v : String) :
    Reads n [.pair k v] (keyword "in" .forIn >>= fun _ => expression bound >>= fun e =>
      pure (Header.pairs k v e)) Header.words Header.WellFormed := by
  apply (keyword_reads _ _).bind
  intro _ _
  exact (expression_reads bound).after_words.bind fun e good => Reads.pure good rfl

theorem header_reads (bound : Nat) :
    Reads n [] (header bound) Header.words Header.WellFormed := by
  refine Reads.eat (by decide) ?_ ?_
  · refine (name_reads _).bind fun k _ => (delimiter_reads _ _).bind fun _ _ => ?_
    refine (name_reads _).bind fun v _ => (delimiter_reads _ _).bind fun _ _ => ?_
    exact (pairs_reads bound k v).respell fun us => pair_spelt_in_parentheses
  · refine (name_reads _).bind fun x _ => Reads.eat (by decide) ?_ ?_
    · exact (expression_reads bound).after_words.bind fun e good => Reads.pure good rfl
    · refine Reads.eat (by decide) ?_ (Reads.eat (by decide) ?_ ?_)
      · apply (expression_reads bound).after_words.bind
        intro a good
        apply (keyword_reads _ _).bind
        intro _ _
        apply (expression_reads bound).after_words.bind
        intro b good'
        exact Reads.pure ⟨good, good'⟩ (by simp [Header.words])
      · apply (name_reads _).bind
        intro v _
        exact (pairs_reads bound x v).respell fun us => pair_spelt
      · exact peek_reads.bind fun _ _ => Reads.fail _ _

theorem iterateStatement_reads {statement : Parser Stmt} (h : StatementReads n statement)
    (bound : Nat) (start : Span) :
    Reads n [.keyword "for"] (iterateStatement bound statement start) Stmt.words
      Stmt.WellFormed := by
  apply (delimiter_reads _ _).bind
  intro _ _
  refine (header_reads bound).after_words.bind fun e good => (delimiter_reads _ _).bind fun _ _ => ?_
  apply (loopBody_reads h bound _ _).after_words.bind
  intro b goods
  refine (since_reads _).bind fun span _ => Reads.pure ⟨good, goods⟩ ?_
  simp [Stmt.words]

theorem memberOf_words {st : Stmt} {m : Member} (declares : memberOf st = some m) :
    m.words = st.words ∧ (st.WellFormed → m.WellFormed) := by
  unfold memberOf at declares
  split at declares
  · cases declares
    exact ⟨rfl, And.right⟩
  · cases declares
    exact ⟨rfl, id⟩
  · cases declares
    exact ⟨rfl, id⟩
  · cases declares

/-- How many constructors may follow. -/
def constructorsLeft (built : Bool) : Nat := if built then 0 else 1

theorem members_reads {statement : Parser Stmt}
    (h : Reads n [] statement Stmt.words Stmt.WellFormed) (cls : String) (m : Nat) (built : Bool) :
    Reads n [] (members statement cls m built)
      (fun ms => wordsOfMembers ms ++ [.keyword "endclass"])
      fun ms => ms.countP Member.isConstructor ≤ constructorsLeft built ∧
        MembersWellFormed ms := by
  induction m generalizing built with
  | zero => exact peek_reads.bind fun _ _ => Reads.fail _ _
  | succ m ih =>
    refine Reads.eat (by decide) (Reads.pure ⟨Nat.zero_le _, trivial⟩ rfl) ?_
    refine atEnd_reads.bind fun _ _ => Reads.ite (fun _ => ?_) fun _ => ?_
    · exact peek_reads.bind fun _ _ => Reads.fail _ _
    · refine peek_reads.bind fun start _ => h.bind fun st good => ?_
      cases declares : memberOf st with
      | none => exact Reads.fail _ _
      | some m =>
        obtain ⟨words, good'⟩ := memberOf_words declares
        rw [← words]
        cases m with
        | constructor d =>
          apply Reads.ite (fun _ => Reads.fail _ _)
          intro first
          refine (ih true).after_words.bind fun ms goods => Reads.pure ⟨?_, good' good, goods.2⟩ ?_
          · have := goods.1
            simp_all [constructorsLeft, List.countP_cons, Member.isConstructor]
          · simp [wordsOfMembers]
        | property x e s | method d =>
          refine (ih built).after_words.bind fun ms goods => Reads.pure ⟨?_, good' good, goods.2⟩ ?_
          · simpa [List.countP_cons, Member.isConstructor] using goods.1
          · simp [wordsOfMembers]

theorem classStatement_reads {statement : Parser Stmt} (h : StatementReads n statement)
    (bound : Nat) (start : Span) :
    Reads n [.keyword "class"] (classStatement bound statement start) Stmt.words
      Stmt.WellFormed := by
  have rest (x : String) (parent : Option ClassPath) :
      Reads n ([.keyword "class"] ++ [.name x] ++ wordsOfParent parent)
        (members statement x bound false >>= fun ms => since start >>= fun span =>
          pure (Stmt.cls x parent ms span)) Stmt.words Stmt.WellFormed := by
    apply (members_reads h.reads x bound false).after_words.bind
    intro ms goods
    exact (since_reads _).bind fun span _ => Reads.pure goods (by simp [Stmt.words])
  refine (name_reads _).bind fun x _ => Reads.eat (by decide) ?_ ?_
  · have parents : Reads n [] (some <$> classPath bound .parentName)
        (fun p => (wordsOfParent p).tail) fun p => p.isSome := by
      refine (classPath_reads bound _).bind fun p _ => Reads.pure rfl rfl
    apply parents.after_words.bind
    intro p some
    cases p with
    | none => cases some
    | some p =>
      have same := rest x (Option.some p)
      simpa [wordsOfParent] using same
  · exact rest x none

theorem names_reads (bound : Nat) (opening closing : String) :
    Reads n [] (names bound opening closing) (wordsOfNames opening closing) fun _ => True := by
  have items (seen : List String) :
      Reads n [] (name .listedName) (fun x => [.name x]) fun _ => True := name_reads _
  apply (delimiter_reads _ _).bind
  intro _ _
  apply (listedUntil_reads items bound).after_words.bind
  intro xs _
  exact (delimiter_reads _ _).bind fun _ _ => Reads.pure trivial rfl

theorem selection_reads (bound : Nat) :
    Reads n [] (selection bound) Selection.words fun _ => True := by
  refine Reads.eat (by decide) (Reads.pure trivial rfl) ?_
  exact (names_reads bound _ _).bind fun xs _ => Reads.pure trivial rfl

theorem importStatement_reads (bound : Nat) (start : Span) :
    Reads n [.keyword "from"] (importStatement bound start) Stmt.words Stmt.WellFormed := by
  refine (expectKind_reads _ (by decide)).bind fun file _ => (keyword_reads _ _).bind fun _ _ => ?_
  apply (selection_reads bound).after_words.bind
  intro items _
  exact (since_reads _).bind fun span _ => Reads.pure trivial rfl

theorem loadStatement_reads (start : Span) :
    Reads n [.keyword "load"] (loadStatement start) Stmt.words Stmt.WellFormed := by
  refine (expectKind_reads _ (by decide)).bind fun file _ => (keyword_reads _ _).bind fun _ _ => ?_
  apply (name_reads _).bind
  intro x _
  exact (since_reads _).bind fun span _ => Reads.pure trivial rfl

theorem targetOf_words {e : Expr} {target : Target} (stands : targetOf e = some target) :
    target.words = e.words ∧
      (Fits 9 e → e.ledByName = true → target.WellFormed) := by
  cases e with
  | name x s =>
    cases stands
    exact ⟨rfl, fun _ _ => trivial⟩
  | index e k s =>
    cases stands
    exact ⟨rfl, fun fits led => ⟨fits.1.1, fits.1.2.1, led, fits.1.2.2⟩⟩
  | property e x s =>
    cases stands
    exact ⟨rfl, fun fits led => ⟨fits.1.1, fits.1.2, led⟩⟩
  | _ => cases stands

/-- A statement that starts with a name. -/
theorem nameStatement_took {bound : Nat} {s s' : Stream} {st : Stmt} (ends : s.stop.kind = .eof)
    (named : s.next.kind = .name) (run : nameStatement bound s = .ok st s') :
    (st.WellFormed ∧ st.isBareGive = false) ∧ Took s s' st.words := by
  obtain ⟨start, s₁, look, run⟩ := bind_ok.1 run
  cases look
  obtain ⟨e, s₁, he, run⟩ := bind_ok.1 run
  obtain ⟨fits, took⟩ :=
    (chain_reads (expression_reads bound)).took ends (Nat.le_refl _) (Took.refl s) he
  have led : e.ledByName = true := by
    obtain ⟨-, ts, rest, spelt⟩ := took
    obtain ⟨t, us, rfl, -, head⟩ := Expr.first_token spelt
    have next : s.next = t := by simp [Stream.next, rest]
    exact (Expr.head_of_tight fits.1 fits.2 head).2.2 (next ▸ named)
  refine Reads.took (?_ : Reads s₁.rest.length e.words _ Stmt.words fun st =>
    st.WellFormed ∧ st.isBareGive = false) (took.1 ▸ ends) (Nat.le_refl _) took run
  refine Reads.eat (by decide) ?_ ?_
  · cases stands : targetOf e with
    | none => exact Reads.fail _ _
    | some target =>
      obtain ⟨words, good⟩ := targetOf_words stands
      apply (expression_reads bound).after_words.bind
      intro value good'
      apply (since_reads _).bind
      intro span _
      exact Reads.pure ⟨⟨good fits led, good'⟩, rfl⟩ (by simp [Stmt.words, words])
  · change Reads _ _ (if isCall e = true then _ else _) _ _
    refine Reads.ite (fun call => ?_) fun _ => ?_
    · exact (since_reads _).bind fun span _ => Reads.pure ⟨⟨fits.1, call, led⟩, rfl⟩ rfl
    · exact peek_reads.bind fun _ _ => Reads.fail _ _

theorem keywordStatement_reads {statement : Parser Stmt} (h : StatementReads n statement)
    {bound : Nat} (enough : n ≤ bound) (t : Token) :
    Reads n [.keyword t.text] (keywordStatement bound statement t) Stmt.words
      Stmt.WellFormed := by
  unfold keywordStatement
  split
  · rename_i text
    exact Reads.pure trivial (by simp [text, Stmt.words])
  · rename_i text
    apply (delimiter_reads _ _).bind
    intro _ _
    apply (expression_reads bound).after_words.bind
    intro e good
    refine (delimiter_reads _ _).bind fun _ _ => (since_reads _).bind fun span _ => ?_
    exact Reads.pure good (by simp [text, Stmt.words, wordsOfCondition])
  · rename_i text
    rw [text]
    exact branchStatement_reads h enough _
  · rename_i text
    apply (functionDecl_reads h bound _).after_words.bind
    intro d good
    exact (since_reads _).bind fun span _ => Reads.pure good (by simp [text, Stmt.words])
  · rename_i text
    apply (initDecl_reads h bound _).after_words.bind
    intro d good
    exact (since_reads _).bind fun span _ => Reads.pure good (by simp [text, Stmt.words])
  · rename_i text
    rw [text]
    exact giveStatement_reads bound _
  · rename_i text
    rw [text]
    exact loopStatement_reads h bound _
  · rename_i text
    rw [text]
    exact iterateStatement_reads h bound _
  · rename_i text
    rw [text]
    exact classStatement_reads h bound _
  · rename_i text
    apply (names_reads bound _ _).after_words.bind
    intro xs _
    exact (since_reads _).bind fun span _ => Reads.pure trivial (by simp [text, Stmt.words])
  · rename_i text
    rw [text]
    exact importStatement_reads bound _
  · rename_i text
    apply (delimiter_reads _ _).bind
    intro _ _
    apply (arguments_reads (expression_reads bound)).after_words.bind
    intro args good
    apply (since_reads _).bind
    intro span _
    exact Reads.pure ((allWellFormed_iff args).2 good) (by simp [text, Stmt.words])
  · rename_i text
    rw [text]
    exact loadStatement_reads _
  · exact Reads.fail _ _

theorem giveStatement_gives {bound : Nat} {start : Span} {s s' : Stream} {st : Stmt}
    (run : giveStatement bound start s = .ok st s') (bare : st.isBareGive = true) :
    s'.rest = [] ∨ Sees blockEnds s' := by
  obtain ⟨_, s₁, look, run⟩ := bind_ok.1 run
  cases look
  obtain ⟨_, s₁, look, run⟩ := bind_ok.1 run
  cases look
  change (if _ = true then _ else _ : Parser Stmt) s = _ at run
  split at run
  · rename_i closed
    cases run
    simpa [Sees, blockEnds] using closed
  · obtain ⟨e, s₁, he, run⟩ := bind_ok.1 run
    cases run
    cases bare

/-- Only `return` gives nothing, so a statement that does was led by it. -/
theorem keywordStatement_gives {statement : Parser Stmt} (h : StatementReads n statement)
    {bound : Nat} (enough : n ≤ bound) {t : Token} (kind : t.kind = .keyword) {s s' : Stream}
    {st : Stmt} (ends : s.stop.kind = .eof) (short : s.rest.length ≤ n)
    (run : keywordStatement bound statement t s = .ok st s') (bare : st.isBareGive = true) :
    s'.rest = [] ∨ Sees blockEnds s' := by
  obtain ⟨-, -, ts, -, spelt⟩ := keywordStatement_reads h enough t s st s' ends short run
  have words : st.words = [.keyword "return"] := by
    cases st with
    | give value span =>
      cases value with
      | none => rfl
      | some e => cases bare
    | _ => cases bare
  have spelt := spelt [t] (spells_singleton.2 ⟨t, rfl, kind, rfl⟩)
  rw [words] at spelt
  obtain ⟨u, hu, -, text⟩ := spells_singleton.1 spelt
  cases hu
  unfold keywordStatement at run
  rw [text] at run
  exact giveStatement_gives run bare

theorem statement_took {m : Nat} (ih : StatementReads m (statement m)) {s s' : Stream}
    {st : Stmt} (ends : s.stop.kind = .eof) (short : s.rest.length ≤ m + 1)
    (run : statement (m + 1) s = .ok st s') :
    (st.WellFormed ∧ (st.isBareGive → s'.rest = [] ∨ Sees blockEnds s')) ∧
      Took s s' st.words := by
  obtain ⟨t, s₁, look, run⟩ := bind_ok.1 run
  cases look
  cases kind : s.next.kind with
  | keyword =>
    rw [kind] at run
    obtain ⟨_, s₁, step, run⟩ := bind_ok.1 run
    cases step
    obtain ⟨took, less⟩ := Took.token ends kind (by decide)
    have ends' : s.advance.stop.kind = .eof := took.1 ▸ ends
    have short' : s.advance.rest.length ≤ m := by omega
    obtain ⟨good, took'⟩ :=
      (keywordStatement_reads ih (Nat.le_succ m) s.next).took ends' short' took run
    exact ⟨⟨good, keywordStatement_gives ih (Nat.le_succ m) kind ends' short' run⟩, took'⟩
  | name =>
    rw [kind] at run
    obtain ⟨⟨good, valued⟩, took⟩ := nameStatement_took ends kind run
    exact ⟨⟨good, fun bare => by simp [valued] at bare⟩, took⟩
  | _ =>
    rw [kind] at run
    cases run

theorem statement_reads (m : Nat) : StatementReads m (statement m) := by
  induction m with
  | zero => exact ⟨peek_reads.bind fun _ _ => Reads.fail _ _, fun s st s' _ _ run => by cases run⟩
  | succ m ih =>
    constructor
    · intro s st s' ends short run
      obtain ⟨⟨good, -⟩, stop, ts, rest, spelt⟩ := statement_took ih ends short run
      exact ⟨good, stop, ts, rest, fun us hus => (spells_nil.1 hus) ▸ spelt⟩
    · intro s st s' ends short run
      exact (statement_took ih ends short run).1.2

/-- Statements up to the end leave nothing, given that the bounds cover what is there. -/
theorem statements_took {bound : Nat} (m : Nat) {s s' : Stream} {b : Block}
    (ends : s.stop.kind = .eof) (short : s.rest.length ≤ bound) (enough : s.rest.length ≤ m)
    (run : statements bound m s = .ok b s') :
    (BlockWellFormed b ∧ (s.rest = [] ∨ Sees blockEnds s → b = [])) ∧ s'.rest = [] ∧
      Took s s' (wordsOfBlock b) := by
  induction m generalizing s b with
  | zero =>
    cases run
    exact ⟨⟨trivial, fun _ => rfl⟩, List.length_eq_zero_iff.1 (Nat.le_zero.1 enough), Took.refl _⟩
  | succ m ih =>
    obtain ⟨_, s₁, look, run⟩ := bind_ok.1 run
    cases look
    split at run
    · rename_i empty
      cases run
      exact ⟨⟨trivial, fun _ => rfl⟩, List.isEmpty_iff.1 empty, Took.refl _⟩
    · obtain ⟨st, s₁, hst, run⟩ := bind_ok.1 run
      obtain ⟨b, s₂, hb, run⟩ := bind_ok.1 run
      cases run
      have h := statement_reads bound
      obtain ⟨good, took⟩ := h.reads.took ends short (Took.refl s) hst
      have less : s₁.rest.length < s.rest.length := by
        obtain ⟨-, ts, rest, spelt⟩ := took
        obtain ⟨t, us, rfl, -⟩ := Stmt.first_token good spelt
        rw [rest, List.length_append, List.length_cons]
        omega
      obtain ⟨⟨goods, last⟩, done, took'⟩ := ih (took.1 ▸ ends) (by omega) (by omega) hb
      have alone (bare : st.isBareGive) := last (h.gives s st s₁ ends short hst bare)
      refine ⟨⟨⟨good, alone, goods⟩, fun closed => ?_⟩, done, took.trans took'⟩
      exact absurd hst (h.refuses ends short closed)

end Script.Parser

namespace Script

/-- The tokens that a program is read from: no comments, and none from the first end on. -/
def Token.row (tokens : List Token) : List Token :=
  (tokens.filter (·.kind ≠ .comment)).takeWhile (·.kind ≠ .eof)

theorem Stream.ofTokens_ends (tokens : List Token) : (Stream.ofTokens tokens).stop.kind = .eof := by
  simp only [Stream.ofTokens]
  cases found : (tokens.filter (·.kind ≠ .comment)).find? (·.kind = .eof) with
  | none => rfl
  | some t => simpa using List.find?_some found

/-- Whatever row of tokens is accepted, all of it and nothing else spells the answer, which is a
well-formed program. -/
theorem program_spells (tokens : List Token) (p : Block)
    (accepted : Parser.program tokens = .ok p) :
    BlockWellFormed p ∧ Spells (wordsOfBlock p) (Token.row tokens) := by
  simp only [Parser.program] at accepted
  split at accepted
  · rename_i b s' run
    cases accepted
    obtain ⟨⟨good, -⟩, done, -, ts, rest, spelt⟩ :=
      Parser.statements_took _ (Stream.ofTokens_ends tokens) (Nat.le_refl _) (Nat.le_refl _) run
    rw [done, List.append_nil] at rest
    have row : Token.row tokens = ts := rest
    exact ⟨good, row ▸ spelt⟩
  · cases accepted

/-- A loop over pairs with all that may be left out: the parentheses of the names, the `do`, a
comment, and tokens after the end. -/
def pairTokens : List Token :=
  [⟨.keyword, "for", default⟩, ⟨.delimiter, "(", default⟩, ⟨.delimiter, "(", default⟩,
    ⟨.name, "k", default⟩, ⟨.delimiter, ",", default⟩, ⟨.name, "v", default⟩,
    ⟨.delimiter, ")", default⟩, ⟨.keyword, "in", default⟩, ⟨.name, "o", default⟩,
    ⟨.delimiter, ")", default⟩, ⟨.keyword, "do", default⟩, ⟨.comment, "", default⟩,
    ⟨.keyword, "print", default⟩, ⟨.delimiter, "(", default⟩, ⟨.name, "k", default⟩,
    ⟨.delimiter, ")", default⟩, ⟨.keyword, "endfor", default⟩, ⟨.eof, "", default⟩,
    ⟨.name, "after", default⟩]

def pairLoop : Block :=
  [.iterate (.pairs "k" "v" (.name "o" default)) [.print (.name "k" default) default] default]

theorem pairTokens_spell : Parser.program pairTokens = .ok pairLoop ∧ BlockWellFormed pairLoop ∧
    Spells (wordsOfBlock pairLoop) (Token.row pairTokens) :=
  have accepted : Parser.program pairTokens = .ok pairLoop := rfl
  ⟨accepted, program_spells pairTokens pairLoop accepted⟩

end Script
