import Script.Proofs.Phrases.Expressions
import Script.Proofs.StatementSoundness

/-! The statement parsers answer with trees that are laid over the tokens taken. -/

namespace Script

theorem Fragment.commas_map_word (rows : List (List Word)) :
    Fragment.commas (rows.map (List.map .word)) = (Script.commas rows).map .word := by
  fun_induction Script.commas rows with
  | case1 => rfl
  | case2 ws => rfl
  | case3 ws rest more ih =>
    cases rest with
    | nil => exact absurd rfl more
    | cons vs rest => simp_all [Fragment.commas]

/-- The statement is laid over the tokens. -/
def Stmt.Over (x : Stmt) (ts : List Token) : Prop :=
  (Phrase.statement x).Over ts

namespace Parser

variable {n : Nat} {us : List Token} {statement : Parser Stmt}

theorem condition_lays (bound : Nat) (word : String) :
    Composes n (condition bound word) fragmentsOfCondition := by
  refine .delimiter fun t is => (expression_lays bound).first fun e ts _ lies => ?_
  refine .delimiter fun t' is' => .pure fun _ => ?_
  exact ((Laid.token is).append lies.laid).append (.token is')

/-- Names with commas between them, and a closing bracket. -/
theorem listedNames_lays {item : List String → Parser String}
    (each : ∀ seen, Composes n (item seen) fun x => [.name x]) (close : String) (bound : Nat) :
    Composes n (listedUntil close bound item) fun xs =>
      (commas (xs.map fun x => [Word.name x])).map .word := by
  refine (listedUntil_lays each close bound).consequence fun xs ts _ laid => ?_
  dsimp only
  rw [← Fragment.commas_map_word, List.map_map]
  exact laid

theorem name_lays (what : Wanted) : Composes n (name what) fun x => [.name x] := by
  have lays : Composes n (name what >>= pure) fun x => [.name x] :=
    .name fun t is => .pure fun _ => .token is
  rwa [bind_pure] at lays

theorem parameters_lays (bound : Nat) :
    Composes n (parameters bound) fun xs => (wordsOfNames "(" ")" xs).map .word := by
  have each (seen : List String) : Composes n (do
      let p ← name .parameter
      if seen.contains p then fail (.duplicateParameter p) (← last).span else return p)
      fun x => [.name x] := by
    refine .name fun t is => .ite (fun _ => .look fun _ => .fail _ _) fun _ => ?_
    exact .pure fun _ => .token is
  refine .delimiter fun t is => (listedNames_lays each ")" bound).first fun xs ts _ laid => ?_
  refine .delimiter fun t' is' => .pure fun _ => ?_
  simpa [wordsOfNames] using ((Laid.token is).append laid).append (.token is')

theorem names_lays (bound : Nat) (opening closing : String) :
    Composes n (names bound opening closing) fun xs =>
      (wordsOfNames opening closing xs).map .word := by
  refine .delimiter fun t is => ?_
  refine (listedNames_lays (fun _ => name_lays _) closing bound).first fun xs ts _ laid => ?_
  refine .delimiter fun t' is' => .pure fun _ => ?_
  simpa [wordsOfNames] using ((Laid.token is).append laid).append (.token is')

theorem selection_lays (bound : Nat) :
    Composes n (selection bound) fun items => items.words.map .word := by
  refine .eat (by decide) (fun t is => .pure fun _ => .token is) ?_
  exact (names_lays bound _ _).bind fun xs ts _ laid => .pure fun _ => laid

theorem importStatement_lays (bound : Nat) {t : Token} (is : t.Is .keyword "from") :
    Lays n [t] (importStatement bound t.span) Stmt.Over := by
  refine .expectKind (by decide) fun file isFile => .keyword fun word isUse => ?_
  refine (selection_lays bound).first fun items ts _ laid => ?_
  refine .placed (.of_head rfl) fun span delimits => ⟨delimits, ?_⟩
  simpa [Phrase.fragments, Stmt.fragments] using
    (((Laid.token is).append (.token isFile)).append (.token isUse)).append laid

theorem loadStatement_lays {t : Token} (is : t.Is .keyword "load") :
    Lays n [t] (loadStatement t.span) Stmt.Over := by
  refine .expectKind (by decide) fun file isFile => .keyword fun word isAs => ?_
  refine .name fun x isName => ?_
  refine .placed (.of_head rfl) fun span delimits => ⟨delimits, ?_⟩
  exact (((Laid.token is).append (.token isFile)).append (.token isAs)).append (.token isName)

theorem giveStatement_lays (bound : Nat) {t : Token} (is : t.Is .keyword "return") :
    Lays n [t] (giveStatement bound t.span) Stmt.Over := by
  refine .atEnd fun _ => .seesKeyword fun _ => .ite (fun _ => ?_) fun _ => ?_
  · exact .placed (.of_head rfl) fun span delimits => ⟨delimits, .token is⟩
  · refine (expression_lays bound).first fun e ts _ lies => ?_
    refine .placed (.of_head rfl) fun span delimits => ⟨delimits, ?_⟩
    exact (Laid.token is).append lies.laid

theorem pair_laid {k c v : Token} (isKey : k.Is .name k.text) (isComma : c.Is .delimiter ",")
    (isValue : v.Is .name v.text) {ts : List Token}
    (form : ts = [k, c, v] ∨ ∃ l r : Token, l.Is .delimiter "(" ∧ r.Is .delimiter ")" ∧
      ts = [l, k, c, v, r]) : Laid [.word (.pair k.text v.text)] ts :=
  .of_spelt ⟨k, c, v, isKey, isComma, isValue, form⟩

theorem header_lays (bound : Nat) : Composes n (header bound) Header.fragments := by
  have source := expression_lays (n := n) bound
  refine .eat (by decide) (fun l isOpen => ?_) ?_
  · refine .name fun k isKey => .delimiter fun c isComma => .name fun v isValue => ?_
    refine .delimiter fun r isClose => .keyword fun t is => source.first fun e ts _ lies => ?_
    have pair := pair_laid isKey isComma isValue (.inr ⟨l, r, isOpen, isClose, rfl⟩)
    exact .pure fun _ => (pair.append (.token is)).append lies.laid
  · refine .name fun x isName => .eat (by decide) (fun t is => ?_) ?_
    · refine source.first fun e ts _ lies => .pure fun _ => ?_
      exact ((Laid.token isName).append (.token is)).append lies.laid
    · refine .eat (by decide) (fun t is => ?_) (.eat (by decide) (fun c isComma => ?_) ?_)
      · refine source.first fun a ts _ lies => .keyword fun word isTo => ?_
        refine source.first fun b ts' _ lies' => .pure fun _ => ?_
        exact (((((Laid.token isName).append (.token is)).append lies.laid).append
          (.token isTo)).append lies'.laid)
      · refine .name fun v isValue => .keyword fun t is => source.first fun e ts _ lies => ?_
        have pair := pair_laid isName isComma isValue (.inl rfl)
        exact .pure fun _ => (pair.append (.token is)).append lies.laid
      · exact .peek fun _ => .fail _ _

/-! Blocks and the statements that hold them. -/

section Nested

variable (reads : StatementReads n statement) (builds : Lays n [] statement Stmt.Over)

include builds in
theorem block_lays (opener : String) (closers : List String) (m : Nat) :
    Composes n (block statement opener closers m) fragmentsOfBlock := by
  induction m with
  | zero => exact .peek fun _ => .fail _ _
  | succ m ih =>
    refine .seesKeyword fun _ => .ite (fun _ => .pure fun _ => .nil) fun _ => ?_
    refine .atEnd fun _ => .ite (fun _ => .peek fun _ => .fail _ _) fun _ => ?_
    refine builds.bind fun x us _ lies => ih.first fun b ts _ laid => .pure fun _ => ?_
    exact (Laid.of_over lies).append laid

include reads builds

theorem closedBlock_lays (bound : Nat) (opener closer : String) :
    Composes n (closedBlock bound statement opener closer) fun b =>
      fragmentsOfBlock b ++ [.keyword closer] := by
  intro s₀ s b s' ends short order moved run
  obtain ⟨b, s₁, hb, run⟩ := bind_ok.1 run
  obtain ⟨_, s₂, stepped, run⟩ := bind_ok.1 run
  cases stepped
  cases run
  obtain ⟨-, ⟨kind, text⟩, -⟩ := block_took reads bound ends short hb
  obtain ⟨ts, moved₁, laid⟩ :=
    block_lays builds opener [closer] bound s₀ s b s₁ ends short order moved hb
  have took := Stream.Moves.token (moved₁.stop ▸ ends) kind (by decide)
  refine ⟨ts ++ [s₁.next], moved₁.trans took, ?_⟩
  exact laid.append (.token ⟨kind, List.mem_singleton.1 text⟩)

theorem loopBody_lays (bound : Nat) (opener closer : String) :
    Composes n (loopBody bound statement opener closer) fun b =>
      .word .optionalDo :: fragmentsOfBlock b ++ [.keyword closer] := by
  have body := closedBlock_lays reads builds bound opener closer
  refine .eat (by decide) (fun t is => ?_) ?_
  · exact body.after fun b ts laid => .word (.inr ⟨t, rfl, is⟩) laid
  · exact body.after fun b ts laid => .word (.inl rfl) laid

omit reads in
theorem guarded_lays (bound : Nat) (word : String) :
    Composes n (guarded bound statement word) fun b =>
      fragmentsOfCondition b.1 ++ fragmentsOfBlock b.2 := by
  refine (condition_lays bound word).bind fun e us _ laid => ?_
  refine (block_lays builds word _ bound).first fun b ts _ laid' => .pure fun _ => ?_
  exact laid.append laid'

/-- The fragments of the branches after the first, up to the end of the statement. -/
def fragmentsOfRest (r : List (Expr × Block) × Option Block) : List Fragment :=
  fragmentsOfBranches "elif" r.1 ++ fragmentsOfOtherwise r.2 ++ [.keyword "endif"]

theorem otherBranches_lays {bound : Nat} (m : Nat) {s s' : Stream}
    {r : List (Expr × Block) × Option Block} (ends : s.stop.kind = .eof)
    (short : s.rest.length ≤ n) (enough : s.rest.length ≤ m) (order : InOrder s.rest)
    (sees : Sees branchEnds s) (run : otherBranches bound statement m s = .ok r s') :
    ∃ ts, s.Moves ts s' ∧ Laid (fragmentsOfRest r) ts := by
  induction m generalizing s r with
  | zero =>
    obtain ⟨ts, rest, -⟩ := next_mem ends sees.1 (by decide)
    simp [rest] at enough
  | succ m ih =>
    have took := Stream.Moves.token ends sees.1 (by decide)
    obtain ⟨rest, taken, advanced⟩ := next_mem ends sees.1 (by decide)
    obtain ⟨t, s₁, stepped, run⟩ := bind_ok.1 run
    cases stepped
    have last : s.advance.last = s.next := by rw [advanced]
    have ends₁ : s.advance.stop.kind = .eof := took.stop ▸ ends
    have fewer : s.advance.rest.length + 1 = s.rest.length := by rw [taken, advanced]; rfl
    have short₁ : s.advance.rest.length ≤ n := by omega
    have order₁ : InOrder s.advance.rest := (took.rest ▸ order).right
    rw [last] at run
    split at run
    · rename_i elif
      obtain ⟨b, s₂, hb, run⟩ := bind_ok.1 run
      obtain ⟨⟨bs, otherwise⟩, s₃, hr, run⟩ := bind_ok.1 run
      cases run
      obtain ⟨-, sees₂, -⟩ := guarded_took reads ends₁ short₁ hb
      obtain ⟨ts, moved₁, laid⟩ :=
        guarded_lays builds bound "elif" _ _ b s₂ ends₁ short₁ order₁ (.refl _) hb
      have le := moved₁.length_le
      obtain ⟨ts', moved₂, laid'⟩ := ih (moved₁.stop ▸ ends₁) (by omega) (by omega)
        (moved₁.rest ▸ order₁).right sees₂ hr
      refine ⟨[s.next] ++ ts ++ ts', (took.trans moved₁).trans moved₂, ?_⟩
      have word : s.next.Is .keyword "elif" := ⟨sees.1, elif⟩
      simpa [fragmentsOfRest, fragmentsOfBranches] using
        ((Laid.token word).append laid).append laid'
    · rename_i notElif
      split at run
      · rename_i els
        obtain ⟨b, s₂, hb, run⟩ := bind_ok.1 run
        cases run
        obtain ⟨ts, moved₁, laid⟩ := closedBlock_lays reads builds bound "else" "endif" _ _ b _
          ends₁ short₁ order₁ (.refl _) hb
        have word : s.next.Is .keyword "else" := ⟨sees.1, els⟩
        exact ⟨[s.next] ++ ts, took.trans moved₁, (Laid.token word).append laid⟩
      · rename_i notElse
        cases run
        have endif : s.next.text = "endif" := by
          have := sees.2
          simp only [branchEnds, List.mem_cons, List.not_mem_nil, or_false] at this
          grind
        exact ⟨[s.next], took, .token ⟨sees.1, endif⟩⟩

theorem branchStatement_lays {bound : Nat} (enough : n ≤ bound) {t : Token}
    (is : t.Is .keyword "if") : Lays n [t] (branchStatement bound statement t.span) Stmt.Over := by
  intro s₀ s x s' ends short order moved run
  obtain ⟨b, s₁, hb, run⟩ := bind_ok.1 run
  obtain ⟨⟨bs, otherwise⟩, s₂, hr, run⟩ := bind_ok.1 run
  have order₁ : InOrder s.rest := (moved.rest ▸ order).right
  obtain ⟨-, sees, -⟩ := guarded_took reads ends short hb
  obtain ⟨ts, moved₁, laid⟩ :=
    guarded_lays builds bound "if" s s b s₁ ends short order₁ (.refl s) hb
  have short₁ := Nat.le_trans moved₁.length_le short
  obtain ⟨ts', moved₂, laid'⟩ := otherBranches_lays reads builds bound (moved₁.stop ▸ ends) short₁
    (Nat.le_trans short₁ enough) (moved₁.rest ▸ order₁).right sees hr
  have inner := moved₁.trans moved₂
  have whole : Lays n ([t] ++ (ts ++ ts')) (since t.span >>= fun span =>
      pure (Stmt.branch (b :: bs) otherwise span)) Stmt.Over := by
    refine .placed (.of_head rfl) fun span delimits => ⟨delimits, ?_⟩
    simpa [Phrase.fragments, Stmt.fragments, fragmentsOfBranches, fragmentsOfRest] using
      (Laid.token is).append (laid.append laid')
  obtain ⟨us, moved₃, lies⟩ := whole s₀ s₂ x s' (inner.stop ▸ ends)
    (Nat.le_trans inner.length_le short) order (moved.trans inner) run
  exact ⟨ts ++ ts' ++ us, inner.trans moved₃, by simpa using lies⟩

theorem functionDecl_lays (bound : Nat) {t : Token} (is : t.Is .keyword "f") :
    Lays n [t] (functionDecl bound statement t.span) fun d ts =>
      t.span.Begins ts ∧ (Phrase.function d).Over ts := by
  refine .name fun f isName => (parameters_lays bound).first fun params ts _ laid => ?_
  refine (closedBlock_lays reads builds bound _ _).first fun body ts' _ laid' => ?_
  refine .placed (.of_head rfl) fun span delimits => ⟨.of_head rfl, delimits, ?_⟩
  simpa [Phrase.fragments, Decl.fragments] using
    (((Laid.token is).append (.token isName)).append laid).append laid'

theorem initDecl_lays (bound : Nat) {t : Token} (is : t.Is .keyword "init") :
    Lays n [t] (initDecl bound statement t.span) fun d ts =>
      t.span.Begins ts ∧ (Phrase.constructor d).Over ts := by
  refine (parameters_lays bound).first fun params ts _ laid => ?_
  refine (closedBlock_lays reads builds bound _ _).first fun body ts' _ laid' => ?_
  refine .placed (.of_head rfl) fun span delimits => ⟨.of_head rfl, delimits, ?_⟩
  simpa [Phrase.fragments, Decl.fragments] using ((Laid.token is).append laid).append laid'

theorem loopStatement_lays (bound : Nat) {t : Token} (is : t.Is .keyword "while") :
    Lays n [t] (loopStatement bound statement t.span) Stmt.Over := by
  refine (condition_lays bound _).first fun e ts _ laid => ?_
  refine (loopBody_lays reads builds bound _ _).first fun b ts' _ laid' => ?_
  refine .placed (.of_head rfl) fun span delimits => ⟨delimits, ?_⟩
  simpa [Phrase.fragments, Stmt.fragments] using ((Laid.token is).append laid).append laid'

theorem iterateStatement_lays (bound : Nat) {t : Token} (is : t.Is .keyword "for") :
    Lays n [t] (iterateStatement bound statement t.span) Stmt.Over := by
  refine .delimiter fun l isOpen => (header_lays bound).first fun h ts _ laid => ?_
  refine .delimiter fun r isClose => ?_
  refine (loopBody_lays reads builds bound _ _).first fun b ts' _ laid' => ?_
  refine .placed (.of_head rfl) fun span delimits => ⟨delimits, ?_⟩
  simpa [Phrase.fragments, Stmt.fragments] using
    ((((Laid.token is).append (.token isOpen)).append laid).append (.token isClose)).append laid'

omit reads builds

theorem memberOf_over {x : Stmt} {m : Member} (declares : memberOf x = some m) (lies : x.Over us) :
    (Phrase.member m).Over us := by
  unfold memberOf at declares
  split at declares
  · cases declares
    exact lies
  · cases declares
    exact ⟨(Phrase.Over.of_laid lies.2).1, lies.2⟩
  · cases declares
    exact ⟨(Phrase.Over.of_laid lies.2).1, lies.2⟩
  · cases declares

include builds in
theorem members_lays (cls : String) (m : Nat) (built : Bool) :
    Composes n (members statement cls m built) fun ms =>
      ms.map (fun m => .phrase (.member m)) ++ [.keyword "endclass"] := by
  induction m generalizing built with
  | zero => exact .peek fun _ => .fail _ _
  | succ m ih =>
    have more {m' : Member} {built : Bool} {us : List Token} (lies : (Phrase.member m').Over us) :
        Lays n us (do return m' :: (← members statement cls m built)) fun ms ts =>
          Laid (ms.map (fun m => .phrase (.member m)) ++ [.keyword "endclass"]) ts :=
      (ih built).first fun ms ts _ laid => .pure fun _ => (Laid.of_over lies).append laid
    refine .eat (by decide) (fun t is => .pure fun _ => .token is) ?_
    refine .atEnd fun _ => .ite (fun _ => .peek fun _ => .fail _ _) fun _ => .peek fun start => ?_
    refine builds.bind fun x us _ lies => ?_
    split
    · exact .fail _ _
    · rename_i d found
      exact .ite (fun _ => .fail _ _) fun _ => more (memberOf_over found lies)
    · rename_i m' _ found
      exact more (memberOf_over found lies)

include builds in
theorem classStatement_lays (bound : Nat) {t : Token} (is : t.Is .keyword "class") :
    Lays n [t] (classStatement bound statement t.span) Stmt.Over := by
  refine .name fun x isName => ?_
  have rest (parent : Option ClassPath) {us : List Token}
      (laid : Laid ((wordsOfParent parent).map .word) us) :
      Lays n ([t] ++ [x] ++ us) (members statement x.text bound false >>= fun ms =>
        since t.span >>= fun span => pure (Stmt.cls x.text parent ms span)) Stmt.Over := by
    refine (members_lays builds x.text bound false).first fun ms ts _ laid' => ?_
    refine .placed (.of_head rfl) fun span delimits => ⟨delimits, ?_⟩
    simpa [Phrase.fragments, Stmt.fragments] using
      (((Laid.token is).append (.token isName)).append laid).append laid'
  refine .eat (by decide) (fun t' is' => ?_) ?_
  · have parents : Lays n [] (some <$> classPath bound .parentName) fun parent ts =>
        ∃ path, parent = some path ∧ Laid (path.words.map .word) ts := by
      rw [map_eq_pure_bind]
      exact (classPath_lays bound _).bind fun path ts _ laid => .pure fun _ => ⟨path, rfl, laid⟩
    refine parents.first fun parent ts _ ⟨path, same, laid⟩ => ?_
    subst same
    simpa using rest (some path) ((Laid.token is').append laid)
  · simpa using rest none .nil

end Nested

/-- A call, or an assignment to what an expression stands for. -/
theorem targetOf_fragments {e : Expr} {target : Target} (stands : targetOf e = some target) :
    e.fragments = target.fragments := by
  cases e with
  | name x s | index e k s | property e x s =>
    cases stands
    rfl
  | _ => cases stands

theorem nameStatement_lays (bound : Nat) : Lays n [] (nameStatement bound) Stmt.Over := by
  intro s₀ s x s' ends short order moved run
  obtain ⟨start, s₁, look, run⟩ := bind_ok.1 run
  cases look
  obtain ⟨e, s₁, he, run⟩ := bind_ok.1 run
  obtain ⟨ts, moved₁, lies⟩ :=
    chain_lays (expression_lays bound) s₀ s e s₁ ends short order moved he
  have lies : e.Over ts := lies
  have begins : s.next.span.Begins ts := by
    obtain ⟨t, first, -⟩ := lies.begins
    have same : s.next = t := by simp [Stream.next, moved₁.rest, List.head?_append, first]
    rw [same]
    exact .of_head first
  refine Lays.step ends short order moved moved₁ (?_ : Lays n ([] ++ ts) _ Stmt.Over) run
  refine .eat (by decide) (fun t is => ?_) ?_
  · cases stands : targetOf e with
    | none => exact .fail _ _
    | some target =>
      refine (expression_lays bound).first fun value ts' _ lies' => ?_
      refine .placed ((begins.append _).append _) fun span delimits => ⟨delimits, ?_⟩
      have laid : Laid target.fragments ts := targetOf_fragments stands ▸ lies.2
      simpa [Phrase.fragments, Stmt.fragments] using (laid.append (.token is)).append lies'.laid
  · change Lays _ _ (if isCall e = true then _ else _) _
    refine .ite (fun _ => ?_) fun _ => .peek fun _ => .fail _ _
    exact .placed begins fun span delimits => ⟨delimits, lies.laid⟩

theorem keywordStatement_lays (reads : StatementReads n statement)
    (builds : Lays n [] statement Stmt.Over) {bound : Nat} (enough : n ≤ bound) {t : Token}
    (kind : t.kind = .keyword) : Lays n [t] (keywordStatement bound statement t) Stmt.Over := by
  unfold keywordStatement
  split
  · rename_i text
    exact .pure fun _ => ⟨.single t, .token ⟨kind, text⟩⟩
  · rename_i text
    refine .delimiter fun l isOpen => (expression_lays bound).first fun e ts _ lies => ?_
    refine .delimiter fun r isClose => ?_
    refine .placed (.of_head rfl) fun span delimits => ⟨delimits, ?_⟩
    exact (((Laid.token ⟨kind, text⟩).append (.token isOpen)).append lies.laid).append
      (.token isClose)
  · rename_i text
    exact branchStatement_lays reads builds enough ⟨kind, text⟩
  · rename_i text
    refine (functionDecl_lays reads builds bound ⟨kind, text⟩).bind fun d us _ ⟨begins, lies⟩ => ?_
    exact .placed begins fun span delimits => ⟨delimits, .of_over lies⟩
  · rename_i text
    refine (initDecl_lays reads builds bound ⟨kind, text⟩).bind fun d us _ ⟨begins, lies⟩ => ?_
    exact .placed begins fun span delimits => ⟨delimits, .of_over lies⟩
  · rename_i text
    exact giveStatement_lays bound ⟨kind, text⟩
  · rename_i text
    exact loopStatement_lays reads builds bound ⟨kind, text⟩
  · rename_i text
    exact iterateStatement_lays reads builds bound ⟨kind, text⟩
  · rename_i text
    exact classStatement_lays builds bound ⟨kind, text⟩
  · rename_i text
    refine (names_lays bound _ _).first fun xs ts _ laid => ?_
    refine .placed (.of_head rfl) fun span delimits => ⟨delimits, ?_⟩
    have share : t.Is .keyword "share" := ⟨kind, text⟩
    exact (Laid.token share).append laid
  · rename_i text
    exact importStatement_lays bound ⟨kind, text⟩
  · rename_i text
    refine .delimiter fun l isOpen => ?_
    refine (arguments_lays (expression_lays bound)).first fun args ts _ laid => ?_
    refine .placed (.of_head rfl) fun span delimits => ⟨delimits, ?_⟩
    exact ((Laid.token ⟨kind, text⟩).append (.token isOpen)).append laid
  · rename_i text
    exact loadStatement_lays ⟨kind, text⟩
  · exact .fail _ _

theorem statement_lays (m : Nat) : Lays m [] (Parser.statement m) Stmt.Over := by
  induction m with
  | zero => exact .peek fun _ => .fail _ _
  | succ m ih =>
    intro s₀ s x s' ends short order moved run
    obtain ⟨t, s₁, look, run⟩ := bind_ok.1 run
    cases look
    cases kind : s.next.kind with
    | keyword =>
      rw [kind] at run
      obtain ⟨_, s₁, stepped, run⟩ := bind_ok.1 run
      cases stepped
      have took := Stream.Moves.token ends kind (by decide)
      have short₁ : s.advance.rest.length ≤ m := by
        rw [took.rest] at short
        exact Nat.le_of_succ_le_succ short
      obtain ⟨ts, moved₁, lies⟩ := keywordStatement_lays (statement_reads m) ih (Nat.le_succ m) kind
        s s.advance x s' (took.stop ▸ ends) short₁ (moved.rest ▸ order).right took run
      exact ⟨[s.next] ++ ts, took.trans moved₁, lies⟩
    | name =>
      rw [kind] at run
      exact nameStatement_lays (m + 1) s₀ s x s' ends short order moved run
    | _ =>
      rw [kind] at run
      cases run

theorem statements_lays (bound m : Nat) : Composes bound (statements bound m) fragmentsOfBlock := by
  induction m with
  | zero => exact .pure fun _ => .nil
  | succ m ih =>
    refine .atEnd fun _ => .ite (fun _ => .pure fun _ => .nil) fun _ => ?_
    refine (statement_lays bound).bind fun x us _ lies => ih.first fun b ts _ laid => ?_
    exact .pure fun _ => (Laid.of_over lies).append laid

end Parser

end Script
