import Script.Proofs.Accepts

/-! Each expression parser accepts every spelling of every tree that fits its rank, as long as the
token after it does not go on with the tree. -/

namespace Script

theorem BinOp.ofSymbol_symbol (op : BinOp) : BinOp.ofSymbol? op.symbol = some op := by
  cases op <;> rfl

theorem BinOp.symbol_injective {op op' : BinOp} (same : op.symbol = op'.symbol) : op = op' := by
  have h := congrArg BinOp.ofSymbol? same
  rw [ofSymbol_symbol, ofSymbol_symbol] at h
  exact Option.some.inj h

/-- `t` does not go on with a tree of rank `k` or a tighter one. -/
structure Token.Stops (k : Nat) (t : Token) : Prop where
  binary : ∀ op : BinOp, k ≤ op.rank → ¬ t.Is op.spelling op.symbol
  logic : ∀ op : Logic, k ≤ op.rank → ¬ t.Is .operator op.symbol
  member : k ≤ 9 → ¬ t.Is .delimiter "." ∧ ¬ t.Is .delimiter "["
  call : ¬ t.Is .delimiter "("

namespace Token

variable {t : Token} {k : Nat}

theorem Stops.mono {k' : Nat} (h : t.Stops k) (le : k ≤ k') : t.Stops k' where
  binary op hop := h.binary op (Nat.le_trans le hop)
  logic op hop := h.logic op (Nat.le_trans le hop)
  member hk := h.member (Nat.le_trans le hk)
  call := h.call

theorem spelling_cases (op : BinOp) :
    op.spelling = .operator ∨ (op.spelling = .keyword ∧ op.symbol = "in") := by
  cases op <;> simp [BinOp.spelling, BinOp.symbol]

theorem spelling_ne_delimiter (op : BinOp) : op.spelling ≠ .delimiter := by
  cases op <;> decide

/-- Members, indices and calls go on with a delimiter. -/
theorem stops_of_not_delimiter (other : t.kind ≠ .delimiter)
    (binary : ∀ op : BinOp, k ≤ op.rank → ¬ t.Is op.spelling op.symbol)
    (logic : ∀ op : Logic, k ≤ op.rank → ¬ t.Is .operator op.symbol) : t.Stops k where
  binary := binary
  logic := logic
  member _ := ⟨fun h => other h.1, fun h => other h.1⟩
  call h := other h.1

theorem stops_of_plain (operator : t.kind ≠ .operator) (delimiter : t.kind ≠ .delimiter)
    (membership : ¬ t.Is .keyword "in") : t.Stops k := by
  refine stops_of_not_delimiter delimiter (fun op _ h => ?_) fun op _ h => operator h.1
  rcases spelling_cases op with spelling | ⟨spelling, symbol⟩
  · exact operator (h.1.trans spelling)
  · exact membership ⟨h.1.trans spelling, h.2.trans symbol⟩

theorem Is.stops_of_delimiter {x : String} (h : t.Is .delimiter x) (call : x ≠ "(")
    (member : k ≤ 9 → x ≠ "." ∧ x ≠ "[") : t.Stops k where
  binary op _ hop := spelling_ne_delimiter op (hop.1.symm.trans h.1)
  logic op _ hop := by cases h.1.symm.trans hop.1
  member hk := ⟨fun h' => (member hk).1 (h.2.symm.trans h'.2),
    fun h' => (member hk).2 (h.2.symm.trans h'.2)⟩
  call h' := call (h.2.symm.trans h'.2)

/-- A closing bracket, a comma or a colon. -/
theorem Is.stops_of_closing {x : String} (h : t.Is .delimiter x)
    (closing : x ∈ [")", "]", "\x7d", ",", ":"]) : t.Stops k := by
  refine h.stops_of_delimiter ?_ fun _ => ?_
  · rintro rfl
    revert closing
    decide
  · constructor
    all_goals
      rintro rfl
      revert closing
      decide

theorem symbol_ne (op : BinOp) (op' : Logic) : op.symbol ≠ op'.symbol := by
  cases op <;> cases op' <;> decide

theorem Is.stops_of_binary {op : BinOp} (h : t.Is op.spelling op.symbol) (looser : op.rank < k) :
    t.Stops k := by
  refine stops_of_not_delimiter (h.1 ▸ spelling_ne_delimiter op) (fun op' tight h' => ?_) ?_
  · cases BinOp.symbol_injective (h.2.symm.trans h'.2)
    omega
  · exact fun op' _ h' => symbol_ne op op' (h.2.symm.trans h'.2)

theorem Is.stops_of_logic {op : Logic} (h : t.Is .operator op.symbol) (looser : op.rank < k) :
    t.Stops k := by
  refine stops_of_not_delimiter (by simp [h.1]) ?_ fun op' tight h' => ?_
  · exact fun op' _ h' => symbol_ne op' op (h'.2.symm.trans h.2)
  · have same : op.symbol = op'.symbol := h.2.symm.trans h'.2
    revert looser tight same
    cases op <;> cases op' <;> simp [Logic.symbol]

end Token

namespace Parser

variable {n : Nat}

/-- On every spelling of up to `n` tokens of a tree that fits rank `k`, `p` answers with that tree,
its places apart, if what comes next does not go on with it. -/
def Covers (k n : Nat) (p : Parser Expr) : Prop :=
  ∀ e ts rest stop, Fits k e → Spells e.words ts → ts.length ≤ n → (ahead rest stop).Stops k →
    Accepts p stop ts rest fun e' => e'.bare = e.bare

theorem Covers.shorter {k m : Nat} {p : Parser Expr} (h : Covers k n p) (le : m ≤ n) :
    Covers k m p :=
  fun e ts rest stop fits spelt short => h e ts rest stop fits spelt (Nat.le_trans short le)

/-! Levels that group to the left. -/

/-- `go` takes what a tree of rank `k` has after its left operand, in one step and for one unit of
its bound, and answers with what it has when nothing goes on. -/
structure Extends (k n : Nat) (go : Nat → Expr → Parser Expr) : Prop where
  halts : ∀ m e rest stop, (ahead rest stop).Stops k → Accepts (go m e) stop [] rest (· = e)
  splits : ∀ e, Fits k e → e.rank = k → ∃ left ws, e.words = left.words ++ ws ∧ Fits k left ∧
    ∀ ts, Spells ws ts → ts.length ≤ n → (∃ t us, ts = t :: us ∧ t.Stops (k + 1)) ∧
      ∀ rest stop, (ahead rest stop).Stops (k + 1) → ∀ m left', left'.bare = left.bare →
        Leads (go (m + 1) left') stop ts rest (go m) fun e' => e'.bare = e.bare

/-- After a spelling of a tree of the level, the loop goes on with that tree. What is left of its
bound and the tokens taken are together more than the bound. -/
theorem Extends.reaches {k bound : Nat} {operand : Parser Expr} {go : Nat → Expr → Parser Expr}
    (steps : Extends k n go) (operands : Covers (k + 1) n operand) (size : Nat) {e : Expr}
    {ts rest : List Token} {stop : Token} (fits : Fits k e) (spelt : Spells e.words ts)
    (small : ts.length ≤ size) (short : ts.length ≤ n) (enough : ts.length ≤ bound)
    (stops : (ahead rest stop).Stops (k + 1)) (l : Token) :
    ∃ m e' l', bound < m + ts.length ∧ e'.bare = e.bare ∧
      (operand >>= go bound) ⟨l, ts ++ rest, stop⟩ = go m e' ⟨l', rest, stop⟩ := by
  induction size generalizing e ts rest with
  | zero =>
    obtain ⟨t, us, rfl, -⟩ := Expr.first_token spelt
    simp at small
  | succ size ih =>
    rcases Nat.lt_or_eq_of_le fits.2 with tighter | rank
    · obtain ⟨e', l', run, same⟩ := operands e ts rest stop ⟨fits.1, tighter⟩ spelt short stops l
      obtain ⟨t, us, rfl, -⟩ := Expr.first_token spelt
      exact ⟨bound, e', l', by simp, same, bind_of_ok run⟩
    · obtain ⟨left, ws, words, fits', step⟩ := steps.splits e fits rank.symm
      rw [words] at spelt
      obtain ⟨us, vs, rfl, spelt', spelt''⟩ := spells_append.1 spelt
      simp only [List.length_append] at small short enough
      obtain ⟨⟨t, vs', rfl, stops'⟩, advance⟩ := step vs spelt'' (by omega)
      simp only [List.length_cons] at small short enough
      obtain ⟨m, left', l₁, spare, same, run⟩ := ih fits' spelt' (by omega) (by omega) (by omega)
        (show (ahead (t :: vs' ++ rest) stop).Stops (k + 1) from stops')
      obtain ⟨m, rfl⟩ : ∃ i, m = i + 1 := ⟨m - 1, by omega⟩
      obtain ⟨e', l₂, run', same'⟩ := advance rest stop stops m left' same l₁
      refine ⟨m, e', l₂, ?_, same', ?_⟩
      · simp only [List.length_append, List.length_cons]
        omega
      · rw [List.append_assoc, run, run']

theorem Extends.covers {k bound : Nat} {operand : Parser Expr} {go : Nat → Expr → Parser Expr}
    (steps : Extends k n go) (operands : Covers (k + 1) n operand) (enough : n ≤ bound) :
    Covers k n (operand >>= go bound) := by
  intro e ts rest stop fits spelt short stops l
  obtain ⟨m, e', l', -, same, run⟩ := steps.reaches operands ts.length fits spelt (Nat.le_refl _)
    short (Nat.le_trans short enough) (stops.mono (Nat.le_succ k)) l
  obtain ⟨e'', l'', halt, rfl⟩ := steps.halts m e' rest stop stops l'
  exact ⟨e'', l'', run.trans halt, same⟩

theorem operatorOf_here {ops : List BinOp} {op : BinOp} {s : Stream} (member : op ∈ ops)
    (here : s.next.Is op.spelling op.symbol) : operatorOf ops s = .ok (some op) s := by
  have found : (ops.find? fun op => decide (s.next.Is op.spelling op.symbol)) = some op := by
    cases first : ops.find? fun op => decide (s.next.Is op.spelling op.symbol) with
    | none =>
      have missing := List.find?_eq_none.1 first op member
      simp [here] at missing
    | some op' =>
      have here' := List.find?_some first
      simp only [decide_eq_true_eq] at here'
      rw [BinOp.symbol_injective (here'.2.symm.trans here.2)]
  exact congrArg (EStateM.Result.ok · s) found

theorem operatorOf_missing {ops : List BinOp} {s : Stream}
    (missing : ∀ op ∈ ops, ¬ s.next.Is op.spelling op.symbol) :
    operatorOf ops s = .ok none s := by
  have none : (ops.find? fun op => decide (s.next.Is op.spelling op.symbol)) = none := by
    rw [List.find?_eq_none]
    simpa using missing
  exact congrArg (EStateM.Result.ok · s) none

theorem joinLeft_extends {ops : List BinOp} {operand : Parser Expr} {k : Nat}
    (all : ∀ op, op.rank = k ↔ op ∈ ops) (flat : ∀ op ∈ ops, op ≠ .pow)
    (loose : 2 ≤ k ∧ k < 8) (operands : Covers (k + 1) n operand) :
    Extends k n (joinLeft ops operand) where
  halts m e rest stop stops := by
    cases m with
    | zero => exact Leads.pure rfl
    | succ m =>
      intro l
      have missing : operatorOf ops ⟨l, rest, stop⟩ = .ok none ⟨l, rest, stop⟩ :=
        operatorOf_missing fun op member => stops.binary op (Nat.le_of_eq ((all op).2 member).symm)
      exact ⟨e, l, bind_of_ok missing, rfl⟩
  splits e fits rank := by
    cases e with
    | binary op left right s =>
      have rank : op.rank = k := rank
      have member : op ∈ ops := (all op).1 rank
      have leftRank : op.leftRank = k := by rw [BinOp.leftRank, if_neg (flat op member), rank]
      have rightRank : op.rightRank = k + 1 := by
        rw [BinOp.rightRank, if_neg (flat op member), rank]
      obtain ⟨goodLeft, goodRight, looser, tighter⟩ := fits.1
      refine ⟨left, op.word :: right.words, rfl, ⟨goodLeft, leftRank ▸ looser⟩, ?_⟩
      intro ts spelt short
      obtain ⟨t, us, rfl, here, spelt⟩ := spells_token_cons.1 spelt
      refine ⟨⟨t, us, rfl, here.stops_of_binary (by omega)⟩, ?_⟩
      intro rest stop stops m left' same l
      have taken : operatorOf ops ⟨l, t :: us ++ rest, stop⟩ = .ok (some op) _ :=
        operatorOf_here member here
      have read := operands right us rest stop ⟨goodRight, rightRank ▸ tighter⟩ spelt
        (Nat.le_of_succ_le short) stops
      have goesOn : Leads (do
          modify Stream.advance
          let right ← operandAfter op.symbol operand
          joinLeft ops operand m (joined op left' right)) stop (t :: us) rest
          (joinLeft ops operand m) fun e' => e'.bare = (Expr.binary op left right s).bare := by
        refine Leads.step (read.operandAfter.finish fun right' same' => Leads.done ?_)
        simp only [Expr.bare] at same same'
        simp [joined, Expr.bare, Expr.relocate, same, same', nowhere]
      obtain ⟨e', l', run, bare⟩ := goesOn l
      exact ⟨e', l', (bind_of_ok taken).trans run, bare⟩
    | logic op =>
      cases op <;> simp only [Expr.rank, Logic.rank] at rank <;> omega
    | _ =>
      simp only [Expr.rank] at rank
      omega

theorem level_covers {ops : List BinOp} {operand : Parser Expr} {k : Nat}
    (all : ∀ op, op.rank = k ↔ op ∈ ops) (flat : ∀ op ∈ ops, op ≠ .pow)
    (loose : 2 ≤ k ∧ k < 8) (operands : Covers (k + 1) n operand) :
    Covers k n (level n ops operand) :=
  (joinLeft_extends all flat loose operands).covers operands (Nat.le_refl n)

theorem joinLogic_extends {op : Logic} {operand : Parser Expr}
    (operands : Covers (op.rank + 1) n operand) : Extends op.rank n (joinLogic op operand) where
  halts m e rest stop stops := by
    cases m with
    | zero => exact Leads.pure rfl
    | succ m => exact Leads.eat_not (stops.logic op (Nat.le_refl _)) (Leads.pure rfl)
  splits e fits rank := by
    cases e with
    | logic op' left right s =>
      have same : op' = op := by
        revert rank
        cases op <;> cases op' <;> simp [Expr.rank, Logic.rank]
      subst same
      obtain ⟨goodLeft, goodRight, looser, tighter⟩ := fits.1
      refine ⟨left, .operator op'.symbol :: right.words, rfl, ⟨goodLeft, looser⟩, ?_⟩
      intro ts spelt short
      obtain ⟨t, us, rfl, here, spelt⟩ := spells_token_cons.1 spelt
      refine ⟨⟨t, us, rfl, here.stops_of_logic (Nat.lt_succ_self _)⟩, ?_⟩
      intro rest stop stops m left' same
      have read := operands right us rest stop ⟨goodRight, tighter⟩ spelt
        (Nat.le_of_succ_le short) stops
      refine Leads.eat here (read.finish fun right' same' => Leads.done ?_)
      simp only [Expr.bare] at same same'
      simp [Expr.bare, Expr.relocate, same, same', nowhere]
    | binary op' =>
      cases op <;> cases op' <;> simp [Expr.rank, Logic.rank, BinOp.rank] at rank
    | _ => cases op <;> simp [Expr.rank, Logic.rank] at rank

theorem logicLevel_covers (op : Logic) {operand : Parser Expr}
    (operands : Covers (op.rank + 1) n operand) : Covers op.rank n (logicLevel n op operand) :=
  (joinLogic_extends operands).covers operands (Nat.le_refl n)

/-! Powers and minus signs. -/

theorem rank_le_pow {op : BinOp} (tight : 7 ≤ op.rank) : op = .pow := by
  revert tight
  cases op <;> simp [BinOp.rank]

theorem power_covers {base : Parser Expr} (bases : Covers 8 n base) (m : Nat) (enough : m ≤ n) :
    Covers 7 m (power base m) := by
  induction m with
  | zero =>
    intro e ts rest stop fits spelt short
    obtain ⟨t, us, rfl, -⟩ := Expr.first_token spelt
    simp at short
  | succ m ih =>
    intro e ts rest stop fits spelt short stops
    rcases Nat.lt_or_eq_of_le fits.2 with tighter | rank
    · have read := bases e ts rest stop ⟨fits.1, tighter⟩ spelt (Nat.le_trans short enough)
        (stops.mono (Nat.le_succ 7))
      refine read.finish fun e' same => Leads.eat_not ?_ (Leads.pure same)
      exact stops.binary .pow (by decide)
    · cases e with
      | binary op left right s =>
        obtain rfl := rank_le_pow (Nat.le_of_eq rank)
        obtain ⟨goodLeft, goodRight, tight, tight'⟩ := fits.1
        obtain ⟨us, vs, rfl, first, second⟩ := spells_append.1 spelt
        obtain ⟨t, vs, rfl, here, second⟩ := spells_token_cons.1 second
        simp only [List.length_append, List.length_cons] at short
        have read := bases left us (t :: vs ++ rest) stop ⟨goodLeft, tight⟩ first (by omega)
          (here.stops_of_binary (by decide))
        refine read.bind fun left' same => Leads.eat here ?_
        have read' := ih (by omega) right vs rest stop ⟨goodRight, tight'⟩ second (by omega) stops
        refine read'.operandAfter.finish fun right' same' => Leads.pure ?_
        simp only [Expr.bare] at same same'
        simp [joined, Expr.bare, Expr.relocate, same, same', nowhere]
      | logic op => cases op <;> simp [Expr.rank, Logic.rank] at rank
      | _ => simp [Expr.rank] at rank

theorem negation_covers {operand : Parser Expr} (operands : Covers 9 n operand) (m : Nat)
    (enough : m ≤ n) : Covers 8 m (negation operand m) := by
  induction m with
  | zero =>
    intro e ts rest stop fits spelt short
    obtain ⟨t, us, rfl, -⟩ := Expr.first_token spelt
    simp at short
  | succ m ih =>
    intro e ts rest stop fits spelt short stops
    rcases Nat.lt_or_eq_of_le fits.2 with tighter | rank
    · have read := operands e ts rest stop ⟨fits.1, tighter⟩ spelt (Nat.le_trans short enough)
        (stops.mono (Nat.le_succ 8))
      obtain ⟨t, us, rfl, -, head⟩ := Expr.first_token spelt
      refine Leads.eat_not ?_ read
      exact fun here => (Expr.head_of_tight fits.1 tighter head).1 here.1
    · cases e with
      | negate e s =>
        obtain ⟨t, us, rfl, here, spelt⟩ := spells_token_cons.1 spelt
        have read := ih (by omega) e us rest stop fits.1 spelt (Nat.le_of_succ_le_succ short) stops
        refine Leads.eat here (Leads.last fun l => ?_)
        refine read.operandAfter.finish fun e' same => Leads.pure ?_
        simp only [Expr.bare] at same
        simp [Expr.bare, Expr.relocate, same, nowhere]
      | binary op => cases op <;> simp [Expr.rank, BinOp.rank] at rank
      | logic op => cases op <;> simp [Expr.rank, Logic.rank] at rank
      | _ => simp [Expr.rank] at rank

/-! What stands in brackets. -/

/-- What `p` reads ends at a bracket, which is taken before `f` goes on. -/
theorem Leads.closed {α β γ : Type} {q : γ → Parser α} {good : γ → Prop} {good' : β → Prop}
    {p : Parser β} {f : β → Parser α} {close : String} {what : Wanted} {ws : List Word}
    {ts rest : List Token} {stop : Token} (spelt : Spells (ws ++ [.delimiter close]) ts)
    (inner : ∀ us rest, us.length < ts.length → Spells ws us →
      (ahead rest stop).Is .delimiter close → Accepts p stop us rest good')
    (next : ∀ b, good' b → Leads (f b) stop [] rest q good) :
    Leads (do
      let b ← p
      Parser.delimiter close what
      f b) stop ts rest q good := by
  obtain ⟨us, vs, rfl, inside, closed⟩ := spells_append.1 spelt
  obtain ⟨t, rfl, here⟩ := spells_singleton.1 closed
  have read : Accepts p stop us ([t] ++ rest) good' := inner us _ (by simp) inside here
  exact read.bind fun b gb => Leads.delimiter here (next b gb)

section Lists

variable {α γ : Type} {item : List α → Parser α} {words : α → List Word} {view : α → γ}
  {good : List α → α → Prop} {close : String} {stop : Token}

/-- Each item is read up to a comma or the closing bracket. What an item looks like from outside is
its `view`, also to the items after it. -/
def ItemsAccepted (n : Nat) (stop : Token) (close : String) (item : List α → Parser α)
    (words : α → List Word) (view : α → γ) (good : List α → α → Prop) : Prop :=
  ∀ seen seen' x ts rest, seen'.map view = seen.map view → good seen x → Spells (words x) ts →
    ts.length ≤ n → (∃ d ∈ [",", close], (ahead rest stop).Is .delimiter d) →
      Accepts (item seen') stop ts rest fun y => view y = view x

theorem listed_accepts (each : ItemsAccepted n stop close item words view good)
    (bracket : close ≠ ",") (m : Nat) {xs seen seen' : List α} {ts rest : List Token}
    (some : xs ≠ []) (all : Each good seen xs) (same : seen'.map view = seen.map view)
    (spelt : Spells (commas (xs.map words)) ts) (short : ts.length ≤ n) (enough : ts.length ≤ m)
    (closes : (ahead rest stop).Is .delimiter close) :
    Accepts (listed item m seen') stop ts rest fun ys => ys.map view = xs.map view := by
  induction m generalizing xs seen seen' ts with
  | zero =>
    obtain rfl : ts = [] := List.eq_nil_of_length_eq_zero (Nat.le_zero.1 enough)
    match xs, some with
    | [x], _ =>
      have read := each seen seen' x [] rest same all.1 spelt short ⟨close, by simp, closes⟩
      exact read.finish fun y hy => Leads.pure (by simp [hy])
    | x :: y :: xs, _ =>
      obtain ⟨us, vs, nil, -, spelt⟩ := spells_append.1 spelt
      obtain ⟨t, vs, rfl, -⟩ := spells_token_cons.1 spelt
      simp at nil
  | succ m ih =>
    match xs, some with
    | [x], _ =>
      have read := each seen seen' x ts rest same all.1 spelt short ⟨close, by simp, closes⟩
      refine read.finish fun y hy => Leads.eat_not ?_ (Leads.pure (by simp [hy]))
      exact fun comma => bracket (closes.2.symm.trans comma.2)
    | x :: x' :: xs, _ =>
      obtain ⟨us, vs, rfl, first, spelt⟩ := spells_append.1 spelt
      obtain ⟨t, vs, rfl, comma, spelt⟩ := spells_token_cons.1 spelt
      simp only [List.length_append, List.length_cons] at short enough
      have read := each seen seen' x us (t :: vs ++ rest) same all.1 first (by omega)
        ⟨",", by simp, comma⟩
      refine read.bind fun y hy => Leads.eat comma ?_
      have others : Accepts (listed item m (y :: seen')) stop vs rest
          fun ys => ys.map view = (x' :: xs).map view :=
        ih (by simp) all.2 (by simp [hy, same]) spelt (by omega) (by omega)
      exact others.finish fun ys hys => Leads.pure (by simp [hy, hys])

theorem listedUntil_accepts (each : ItemsAccepted n stop close item words view good)
    (bracket : close ≠ ",")
    (first : ∀ x ts, Spells (words x) ts → ∃ t us, ts = t :: us ∧ ¬ t.Is .delimiter close)
    {xs : List α} {ts rest : List Token} {bound : Nat} (all : Each good [] xs)
    (spelt : Spells (commas (xs.map words)) ts) (short : ts.length ≤ n) (enough : n ≤ bound)
    (closes : (ahead rest stop).Is .delimiter close) :
    Accepts (listedUntil close bound item) stop ts rest fun ys => ys.map view = xs.map view := by
  cases xs with
  | nil =>
    obtain rfl : ts = [] := spelt
    exact Leads.sees closes (Leads.pure rfl)
  | cons x xs =>
    have opening : ¬ (ahead (ts ++ rest) stop).Is .delimiter close := by
      cases xs with
      | nil =>
        obtain ⟨t, us, rfl, other⟩ := first x ts spelt
        exact other
      | cons y ys =>
        obtain ⟨us, vs, rfl, spelt, -⟩ := spells_append.1 spelt
        obtain ⟨t, us, rfl, other⟩ := first x us spelt
        exact other
    refine Leads.sees_not opening ?_
    exact listed_accepts each bracket bound (by simp) all rfl spelt short
      (Nat.le_trans short enough) closes

end Lists

/-! Calls, members, indices and paths. -/

theorem each_of_forall {α : Type} {good : α → Prop} {seen xs : List α} (h : ∀ x ∈ xs, good x) :
    Each (fun _ => good) seen xs := by
  induction xs generalizing seen with
  | nil => trivial
  | cons x xs ih =>
    rw [List.forall_mem_cons] at h
    exact ⟨h.1, ih h.2⟩

theorem begins_not_closing {t : Token} (begins : t.Begins) {close : String}
    (bracket : close ∉ ["(", "[", "\x7b"]) : ¬ t.Is .delimiter close := by
  intro here
  rcases begins with h | h | h | h | h | h
  · cases h.symm.trans here.1
  · cases h.symm.trans here.1
  · cases h.symm.trans here.1
  · cases h.1.symm.trans here.1
  · cases h.1.symm.trans here.1
  · exact bracket (here.2 ▸ h.2)

theorem first_not_closing {e : Expr} {ts : List Token} {close : String}
    (bracket : close ∉ ["(", "[", "\x7b"]) (spelt : Spells e.words ts) :
    ∃ t us, ts = t :: us ∧ ¬ t.Is .delimiter close := by
  obtain ⟨t, us, rfl, begins, -⟩ := Expr.first_token spelt
  exact ⟨t, us, rfl, begins_not_closing begins bracket⟩

theorem expressions_accepted (close : String) {expression : Parser Expr} {stop : Token}
    (nested : Covers 0 n expression) (closing : close ∈ [")", "]", "\x7d", ",", ":"]) :
    ItemsAccepted n stop close (fun _ => expression) Expr.words Expr.bare
      fun _ => Expr.WellFormed := by
  intro seen seen' e ts rest _ good spelt short ⟨d, member, here⟩
  refine nested e ts rest stop ⟨good, Nat.zero_le _⟩ spelt short (here.stops_of_closing ?_)
  rcases List.mem_cons.1 member with rfl | member
  · decide
  · cases List.mem_singleton.1 member
    exact closing

theorem arguments_accepts {expression : Parser Expr} {bound : Nat} {args : List Expr}
    {ts rest : List Token} {stop : Token} (nested : Covers 0 n expression) (enough : n ≤ bound)
    (good : AllWellFormed args)
    (spelt : Spells (commas (wordsOfAll args) ++ [.delimiter ")"]) ts) (short : ts.length ≤ n + 1) :
    Accepts (arguments bound expression) stop ts rest
      fun args' => args'.map Expr.bare = args.map Expr.bare := by
  have items : ItemsAccepted n stop ")" (fun _ => do
      if (← atEnd) then fail .openArguments (← peek).span else expression)
      Expr.words Expr.bare fun _ => Expr.WellFormed := by
    intro seen seen' e ts rest same good spelt short sep
    have read := expressions_accepted ")" nested (by decide) seen seen' e ts rest same
      good spelt short sep
    obtain ⟨t, us, rfl, -⟩ := Expr.first_token spelt
    exact Leads.atEnd read
  refine Leads.closed spelt ?_ fun args' same => Leads.pure same
  intro us rest less inside closes
  exact listedUntil_accepts items (by decide) (fun e ts => first_not_closing (by decide))
    (each_of_forall ((allWellFormed_iff args).1 good)) (wordsOfAll_eq_map args ▸ inside) (by omega)
    enough closes

theorem postfixes_extends {expression : Parser Expr} {bound : Nat}
    (nested : Covers 0 n expression) (enough : n ≤ bound) :
    Extends 9 (n + 1) (postfixes bound expression) where
  halts m e rest stop stops := by
    cases m with
    | zero => exact Leads.pure rfl
    | succ m =>
      obtain ⟨point, bracket⟩ := stops.member (Nat.le_refl 9)
      exact Leads.eat_not point (Leads.eat_not bracket (Leads.pure rfl))
  splits e fits rank := by
    cases e with
    | method e x args s =>
      obtain ⟨good, tight, goodArgs⟩ := fits.1
      refine ⟨e, [.delimiter ".", .name x, .delimiter "("] ++ (commas (wordsOfAll args) ++
        [.delimiter ")"]), by simp [Expr.words], ⟨good, tight⟩, ?_⟩
      intro ts spelt short
      obtain ⟨t, us, rfl, point, spelt⟩ := spells_token_cons.1 spelt
      obtain ⟨u, us, rfl, member, spelt⟩ := spells_token_cons.1 spelt
      obtain ⟨v, us, rfl, opening, spelt⟩ := spells_token_cons.1 spelt
      simp only [List.length_cons] at short
      refine ⟨⟨t, _, rfl, point.stops_of_delimiter (by decide) (by decide)⟩, ?_⟩
      intro rest stop stops m e' same
      refine Leads.eat point (Leads.name member.1 (Leads.eat opening ?_))
      have read : Accepts (arguments bound expression) stop us rest
          fun args' => args'.map Expr.bare = args.map Expr.bare :=
        arguments_accepts nested enough goodArgs spelt (by omega)
      refine read.finish fun args' same' => Leads.since fun span => Leads.done ?_
      simp only [Expr.bare] at same same'
      simp [Expr.bare, Expr.relocate, same, same', member.2, nowhere]
    | property e x s =>
      refine ⟨e, [.delimiter ".", .name x], rfl, fits.1, ?_⟩
      intro ts spelt short
      obtain ⟨t, us, rfl, point, spelt⟩ := spells_token_cons.1 spelt
      obtain ⟨u, rfl, member⟩ := spells_singleton.1 spelt
      refine ⟨⟨t, _, rfl, point.stops_of_delimiter (by decide) (by decide)⟩, ?_⟩
      intro rest stop stops m e' same
      refine Leads.eat point (Leads.name member.1 (Leads.eat_not stops.call ?_))
      refine Leads.since fun span => Leads.done ?_
      simp only [Expr.bare] at same
      simp [Expr.bare, Expr.relocate, same, member.2, nowhere]
    | index e k s =>
      obtain ⟨good, tight, goodKey⟩ := fits.1
      refine ⟨e, .delimiter "[" :: (k.words ++ [.delimiter "]"]), by simp [Expr.words],
        ⟨good, tight⟩, ?_⟩
      intro ts spelt short
      obtain ⟨t, us, rfl, opening, after⟩ := spells_token_cons.1 spelt
      simp only [List.length_cons] at short
      refine ⟨⟨t, _, rfl, opening.stops_of_delimiter (by decide) (by decide)⟩, ?_⟩
      intro rest stop stops m e' same
      refine Leads.eat_not (fun point => absurd (opening.2.symm.trans point.2) (by decide)) ?_
      refine Leads.eat opening ?_
      apply Leads.closed after
      · intro us rest less inside closes
        exact nested k us rest stop ⟨goodKey, Nat.zero_le _⟩ inside (by omega)
          (closes.stops_of_closing (by decide))
      · refine fun k' same' => Leads.since fun span => Leads.done ?_
        simp only [Expr.bare] at same same'
        simp [Expr.bare, Expr.relocate, same, same', nowhere]
    | binary op => cases op <;> simp [Expr.rank, BinOp.rank] at rank
    | logic op => cases op <;> simp [Expr.rank, Logic.rank] at rank
    | _ => simp [Expr.rank] at rank

theorem pathRest_accepts (m : Nat) {xs : List String} {ts rest : List Token} {stop : Token}
    (spelt : Spells (xs.flatMap fun x => [.delimiter ".", .name x]) ts) (enough : ts.length ≤ m)
    (ends : ¬ (ahead rest stop).Is .delimiter ".") :
    Accepts (pathRest m) stop ts rest (· = xs) := by
  induction m generalizing xs ts with
  | zero =>
    obtain rfl : ts = [] := List.eq_nil_of_length_eq_zero (Nat.le_zero.1 enough)
    cases xs with
    | nil => exact Leads.pure rfl
    | cons x xs =>
      obtain ⟨t, us, impossible, -⟩ := spells_token_cons.1 spelt
      cases impossible
  | succ m ih =>
    cases xs with
    | nil =>
      obtain rfl : ts = [] := spelt
      exact Leads.eat_not ends (Leads.pure rfl)
    | cons x xs =>
      obtain ⟨t, us, rfl, point, spelt⟩ := spells_token_cons.1 spelt
      obtain ⟨u, us, rfl, part, spelt⟩ := spells_token_cons.1 spelt
      simp only [List.length_cons] at enough
      refine Leads.eat point (Leads.name part.1 ?_)
      exact (ih spelt (by omega)).finish fun ys same => Leads.pure (by rw [same, part.2])

theorem classPath_accepts {bound : Nat} {what : Wanted} {p : ClassPath} {ts rest : List Token}
    {stop : Token} (spelt : Spells p.words ts) (enough : ts.length ≤ bound)
    (ends : ¬ (ahead rest stop).Is .delimiter ".") :
    Accepts (classPath bound what) stop ts rest (· = p) := by
  obtain ⟨t, us, rfl, first, spelt⟩ := spells_token_cons.1 spelt
  refine Leads.name first.1 ?_
  have read := pathRest_accepts bound spelt (Nat.le_of_succ_le enough) ends
  exact read.finish fun xs same => Leads.pure (by rw [same, first.2])

/-! Primary expressions. -/

/-- An entry of an object without the places of its value. -/
def bareEntry (e : String × Expr) : String × Expr := (e.1, e.2.bare)

theorem entries_accepted {expression : Parser Expr} {stop : Token}
    (nested : Covers 0 n expression) :
    ItemsAccepted n stop "\x7d" (entry expression) wordsOfEntry bareEntry
      fun seen e => (∀ old ∈ seen, ¬ sameKey old.1 e.1) ∧ e.2.WellFormed := by
  intro seen seen' ⟨x, e⟩ ts rest same ⟨fresh, good⟩ spelt short ⟨d, member, here⟩
  obtain ⟨us, vs, rfl, ⟨t, rfl, key⟩, after⟩ := spells_cons.1 spelt
  obtain ⟨u, vs, rfl, colon, value⟩ := spells_token_cons.1 after
  simp only [List.length_append, List.length_cons] at short
  have text : t.text = x := key.elim And.right And.right
  have kind : ¬ (t.kind ≠ .name ∧ t.kind ≠ .text) := by
    rcases key with h | h <;> simp [h.1]
  have names : seen'.map (·.1) = seen.map (·.1) := by
    have h := congrArg (List.map (·.1)) same
    rwa [List.map_map, List.map_map] at h
  have unseen : (seen'.any fun old => sameKey old.1 t.text) = false := by
    have keys : (seen'.map (·.1)).any (fun k => sameKey k x) =
        (seen.map (·.1)).any fun k => sameKey k x := by rw [names]
    simp only [List.any_map] at keys
    rw [text]
    refine keys.trans ?_
    simpa using fresh
  refine Leads.advance ?_
  rw [if_neg kind, unseen]
  have closing : d ∈ [")", "]", "\x7d", ",", ":"] := by
    revert member
    simp only [List.mem_cons, List.not_mem_nil]
    grind
  have read := nested e vs rest stop ⟨good, Nat.zero_le _⟩ value (by omega)
    (here.stops_of_closing closing)
  refine Leads.delimiter colon (read.finish fun e' same' => Leads.pure ?_)
  simp [bareEntry, text, same']

theorem each_of_distinct {seen entries : List (String × Expr)}
    (apart : ∀ old ∈ seen, ∀ e ∈ entries, ¬ sameKey old.1 e.1)
    (distinct : entries.Pairwise fun a b => ¬ sameKey a.1 b.1)
    (good : ∀ e ∈ entries, e.2.WellFormed) :
    Each (fun seen e => (∀ old ∈ seen, ¬ sameKey old.1 e.1) ∧ e.2.WellFormed) seen entries := by
  induction entries generalizing seen with
  | nil => trivial
  | cons e entries ih =>
    obtain ⟨first, distinct⟩ := List.pairwise_cons.1 distinct
    rw [List.forall_mem_cons] at good
    refine ⟨⟨fun old ho => apart old ho e (by simp), good.1⟩, ih ?_ distinct good.2⟩
    intro old ho e' he'
    rcases List.mem_cons.1 ho with rfl | ho
    · exact first e' he'
    · exact apart old ho e' (by simp [he'])

theorem key_not_closing {e : String × Expr} {ts : List Token} (spelt : Spells (wordsOfEntry e) ts) :
    ∃ t us, ts = t :: us ∧ ¬ t.Is .delimiter "\x7d" := by
  obtain ⟨us, vs, rfl, ⟨t, rfl, key⟩, -⟩ := spells_cons.1 spelt
  refine ⟨t, vs, rfl, fun here => ?_⟩
  rcases key with h | h
  · cases h.1.symm.trans here.1
  · cases h.1.symm.trans here.1

/-- A literal is one token. -/
theorem literal_accepts {expression : Parser Expr} {bound : Nat} {v : Literal} {s : Span}
    {ts rest : List Token} {stop : Token} (spelt : v.word.Spelt ts) :
    Accepts (primary bound expression) stop ts rest
      fun e' => e'.bare = (Expr.literal v s).bare := by
  have one (t : Token) (h : primaryFrom bound expression t = pure (.literal v t.span)) :
      Accepts (primary bound expression) stop [t] rest
        fun e' => e'.bare = (Expr.literal v s).bare := by
    refine Leads.atEnd (Leads.advance ?_)
    rw [h]
    exact Leads.pure rfl
  unfold Literal.word at spelt
  split at spelt
  all_goals
    obtain ⟨⟨kind, text, span⟩, rfl, kind, value⟩ := spelt
    subst kind
    apply one
  · subst value
    rfl
  · subst value
    rfl
  · subst value
    rfl
  · subst value
    rfl
  · simp only [primaryFrom, value]
  · simp only [primaryFrom, value]

theorem primary_covers {expression : Parser Expr} {bound : Nat} (nested : Covers 0 n expression)
    (enough : n ≤ bound) : Covers 10 (n + 1) (primary bound expression) := by
  intro e ts rest stop fits spelt short stops
  cases e with
  | literal v s => exact literal_accepts (spells_singleton.1 spelt)
  | name x s =>
    obtain ⟨⟨_, _, span⟩, rfl, rfl, rfl⟩ := spells_singleton.1 spelt
    exact Leads.atEnd (Leads.advance (Leads.eat_not stops.call (Leads.pure rfl)))
  | call x args s =>
    obtain ⟨⟨_, _, span⟩, us, rfl, ⟨rfl, rfl⟩, after⟩ := spells_token_cons.1 spelt
    obtain ⟨u, us, rfl, opening, inside⟩ := spells_token_cons.1 after
    simp only [List.length_cons] at short
    have read : Accepts (arguments bound expression) stop us rest
        fun args' => args'.map Expr.bare = args.map Expr.bare :=
      arguments_accepts nested enough fits.1 inside (by omega)
    refine Leads.atEnd (Leads.advance (Leads.eat opening ?_))
    refine read.finish fun args' same => Leads.since fun span' => Leads.pure ?_
    simp only [Expr.bare] at same
    simp [Expr.bare, Expr.relocate, same, nowhere]
  | group e s =>
    obtain ⟨⟨_, _, span⟩, us, rfl, ⟨rfl, rfl⟩, after⟩ := spells_token_cons.1 spelt
    simp only [List.length_cons] at short
    have other : ¬ (ahead (us ++ rest) stop).Is .delimiter ")" := by
      obtain ⟨us, vs, rfl, inside, -⟩ := spells_append.1 after
      obtain ⟨t, us, rfl, other⟩ : ∃ t us', us = t :: us' ∧ ¬ t.Is .delimiter ")" :=
        first_not_closing (by decide) inside
      exact other
    refine Leads.atEnd (Leads.advance (Leads.sees_not other ?_))
    apply Leads.closed after
    · intro us rest less inside closes
      exact nested e us rest stop ⟨fits.1, Nat.zero_le _⟩ inside (by omega)
        (closes.stops_of_closing (by decide))
    · refine fun e' same => Leads.since fun span' => Leads.pure ?_
      simp only [Expr.bare] at same
      simp [Expr.bare, Expr.relocate, same, nowhere]
  | list items s =>
    obtain ⟨⟨_, _, span⟩, us, rfl, ⟨rfl, rfl⟩, after⟩ := spells_token_cons.1 spelt
    simp only [List.length_cons] at short
    refine Leads.atEnd (Leads.advance ?_)
    apply Leads.closed after
    · intro us rest less inside closes
      exact listedUntil_accepts (expressions_accepted "]" nested (by decide)) (by decide)
        (fun e ts => first_not_closing (by decide))
        (each_of_forall ((allWellFormed_iff items).1 fits.1)) (wordsOfAll_eq_map items ▸ inside)
        (by omega) enough closes
    · refine fun items' same => Leads.since fun span' => Leads.pure ?_
      simp only [Expr.bare] at same
      simp [Expr.bare, Expr.relocate, same, nowhere]
  | object entries s =>
    obtain ⟨⟨_, _, span⟩, us, rfl, ⟨rfl, rfl⟩, after⟩ := spells_token_cons.1 spelt
    simp only [List.length_cons] at short
    obtain ⟨distinct, good⟩ := fits.1
    refine Leads.atEnd (Leads.advance ?_)
    apply Leads.closed after
    · intro us rest less inside closes
      exact listedUntil_accepts (entries_accepted nested) (by decide)
        (fun e ts => key_not_closing)
        (each_of_distinct (by simp) distinct ((entriesWellFormed_iff entries).1 good))
        (wordsOfEntries_eq_map entries ▸ inside) (by omega) enough closes
    · intro entries' same
      refine Leads.since fun span' => Leads.pure ?_
      have same : entries'.map (fun e => (e.1, e.2.relocate nowhere)) =
        entries.map fun e => (e.1, e.2.relocate nowhere) := same
      simp [Expr.bare, Expr.relocate, same, nowhere]
  | create cls args s =>
    obtain ⟨⟨_, _, span⟩, us, rfl, ⟨rfl, rfl⟩, after⟩ := spells_token_cons.1 spelt
    have after : Spells (cls.words ++ .delimiter "(" :: (commas (wordsOfAll args) ++
      [.delimiter ")"])) us := by simpa using after
    obtain ⟨us, vs, rfl, path, after⟩ := spells_append.1 after
    obtain ⟨u, vs, rfl, opening, inside⟩ := spells_token_cons.1 after
    simp only [List.length_cons, List.length_append] at short
    have named : Accepts (classPath bound .createdName) stop us (u :: vs ++ rest) (· = cls) :=
      classPath_accepts path (by omega) fun point =>
        absurd (opening.2.symm.trans point.2) (by decide)
    have read : Accepts (arguments bound expression) stop vs rest
        fun args' => args'.map Expr.bare = args.map Expr.bare :=
      arguments_accepts nested enough fits.1 inside (by omega)
    refine Leads.atEnd (Leads.advance ?_)
    refine named.bind fun cls' same => Leads.delimiter opening ?_
    refine read.finish fun args' same' => Leads.since fun span' => Leads.pure ?_
    simp only [Expr.bare] at same'
    simp [Expr.bare, Expr.relocate, same, same', nowhere]
  | binary op => cases op <;> simp [Fits, Expr.rank, BinOp.rank] at fits
  | logic op => cases op <;> simp [Fits, Expr.rank, Logic.rank] at fits
  | _ => simp [Fits, Expr.rank] at fits

theorem chain_covers {expression : Parser Expr} (nested : Covers 0 n expression) :
    Covers 9 (n + 1) (chain (n + 1) expression) :=
  (postfixes_extends nested (Nat.le_succ n)).covers (primary_covers nested (Nat.le_succ n))
    (Nat.le_refl _)

theorem levels_covers {expression : Parser Expr} (nested : Covers 0 n expression) :
    Covers 0 (n + 1) (levels (n + 1) expression) := by
  have negations := negation_covers (chain_covers nested) (n + 1) (Nat.le_refl _)
  have powers := power_covers negations (n + 1) (Nat.le_refl _)
  have rank (k : Nat) (ops : List BinOp) (h : ∀ op ∈ BinOp.all, op.rank = k ↔ op ∈ ops) :
      ∀ op : BinOp, op.rank = k ↔ op ∈ ops := fun op => h op (by cases op <;> decide)
  have products := level_covers (rank 6 [.mul, .div, .rem, .floorDiv] (by decide)) (by decide)
    (by decide) powers
  have sums := level_covers (rank 5 [.add, .sub] (by decide)) (by decide) (by decide) products
  have orders := level_covers (rank 4 [.gt, .lt, .ge, .le] (by decide)) (by decide) (by decide) sums
  have equalities := level_covers (rank 3 [.eq, .ne] (by decide)) (by decide) (by decide) orders
  have memberships := level_covers (rank 2 [.mem] (by decide)) (by decide) (by decide) equalities
  exact logicLevel_covers .or (logicLevel_covers .and memberships)

theorem expression_covers (m : Nat) : Covers 0 m (expression m) := by
  induction m with
  | zero =>
    intro e ts rest stop fits spelt short
    obtain ⟨t, us, rfl, -⟩ := Expr.first_token spelt
    simp at short
  | succ m ih => exact levels_covers ih

end Parser

end Script
