import Script.Proofs.Reads

/-! A logic of what parsers accept: on a given row of tokens a parser succeeds, takes just that row
and answers with something good. What comes after the row decides where a parser stops. -/

namespace Script.Parser

variable {α β γ : Type}

/-- The token that comes after what is read. -/
def ahead (rest : List Token) (stop : Token) : Token :=
  rest.head?.getD stop

@[simp] theorem ahead_cons (t : Token) (ts : List Token) (stop : Token) :
    ahead (t :: ts) stop = t := rfl

@[simp] theorem ahead_append_cons (t : Token) (us ts : List Token) (stop : Token) :
    ahead (t :: us ++ ts) stop = t := rfl

/-- Before `rest`, `p` takes all of `ts` and goes on as `q` does with a `good` value. -/
def Leads (p : Parser α) (stop : Token) (ts rest : List Token) (q : γ → Parser α)
    (good : γ → Prop) : Prop :=
  ∀ l, ∃ c l', p ⟨l, ts ++ rest, stop⟩ = q c ⟨l', rest, stop⟩ ∧ good c

/-- Before `rest`, `p` takes all of `ts`, and its answer is `good`. -/
abbrev Accepts (p : Parser α) (stop : Token) (ts rest : List Token) (good : α → Prop) : Prop :=
  Leads p stop ts rest pure good

namespace Leads

variable {p : Parser α} {q : γ → Parser α} {stop t : Token} {ts us vs rest : List Token}
  {good : γ → Prop}

theorem bind {x : Parser β} {f : β → Parser α} {good' : β → Prop}
    (first : Accepts x stop us (vs ++ rest) good')
    (next : ∀ b, good' b → Leads (f b) stop vs rest q good) :
    Leads (x >>= f) stop (us ++ vs) rest q good := by
  intro l
  obtain ⟨b, l₁, hx, gb⟩ := first l
  obtain ⟨c, l₂, hf, gc⟩ := next b gb l₁
  refine ⟨c, l₂, ?_, gc⟩
  rw [List.append_assoc, bind_of_ok hx, hf]

/-- What comes after `x` takes nothing more. -/
theorem finish {x : Parser β} {f : β → Parser α} {good' : β → Prop}
    (first : Accepts x stop ts rest good')
    (next : ∀ b, good' b → Leads (f b) stop [] rest q good) :
    Leads (x >>= f) stop ts rest q good := by
  have whole : Leads (x >>= f) stop (ts ++ []) rest q good := bind first next
  rwa [List.append_nil] at whole

theorem done {c : γ} (gc : good c) : Leads (q c) stop [] rest q good :=
  fun l => ⟨c, l, rfl, gc⟩

theorem pure {a : α} {good : α → Prop} (ga : good a) : Accepts (pure a) stop [] rest good :=
  done ga

theorem consequence {good' : γ → Prop} (h : Leads p stop ts rest q good)
    (implies : ∀ c, good c → good' c) : Leads p stop ts rest q good' := by
  intro l
  obtain ⟨c, l', run, gc⟩ := h l
  exact ⟨c, l', run, implies c gc⟩

/-- Looking at the stream first. -/
theorem look {view : Stream → β} {f : β → Parser α}
    (next : ∀ l, Leads (f (view ⟨l, ts ++ rest, stop⟩)) stop ts rest q good) :
    Leads ((fun s => .ok (view s) s : Parser β) >>= f) stop ts rest q good := by
  intro l
  obtain ⟨a, l', run, ga⟩ := next l l
  exact ⟨a, l', run, ga⟩

theorem peek {f : Token → Parser α} (next : Leads (f (ahead (ts ++ rest) stop)) stop ts rest q good) :
    Leads (peek >>= f) stop ts rest q good :=
  look fun _ => next

theorem atEnd {f : Bool → Parser α} (next : Leads (f (ts ++ rest).isEmpty) stop ts rest q good) :
    Leads (atEnd >>= f) stop ts rest q good :=
  look fun _ => next

theorem last {f : Token → Parser α} (next : ∀ l, Leads (f l) stop ts rest q good) :
    Leads (last >>= f) stop ts rest q good :=
  look fun l => next l

theorem since {start : Span} {f : Span → Parser α} (next : ∀ s, Leads (f s) stop ts rest q good) :
    Leads (since start >>= f) stop ts rest q good :=
  look fun _ => next _

theorem sees {kind : Token.Kind} {text : String} {f : Bool → Parser α}
    (found : (ahead (ts ++ rest) stop).Is kind text)
    (next : Leads (f true) stop ts rest q good) :
    Leads (sees kind text >>= f) stop ts rest q good :=
  look fun _ => (decide_eq_true found).symm ▸ next

theorem sees_not {kind : Token.Kind} {text : String} {f : Bool → Parser α}
    (missing : ¬ (ahead (ts ++ rest) stop).Is kind text)
    (next : Leads (f false) stop ts rest q good) :
    Leads (Parser.sees kind text >>= f) stop ts rest q good :=
  look fun _ => (decide_eq_false missing).symm ▸ next

theorem seesKeyword {words : List String} {f : Bool → Parser α}
    (found : (ahead (ts ++ rest) stop).kind = .keyword ∧
      words.contains (ahead (ts ++ rest) stop).text)
    (next : Leads (f true) stop ts rest q good) :
    Leads (seesKeyword words >>= f) stop ts rest q good :=
  look fun _ => (decide_eq_true found).symm ▸ next

theorem seesKeyword_not {words : List String} {f : Bool → Parser α}
    (missing : ¬ ((ahead (ts ++ rest) stop).kind = .keyword ∧
      words.contains (ahead (ts ++ rest) stop).text))
    (next : Leads (f false) stop ts rest q good) :
    Leads (Parser.seesKeyword words >>= f) stop ts rest q good :=
  look fun _ => (decide_eq_false missing).symm ▸ next

/-- Taking a token that is there. -/
theorem step {f : Unit → Parser α} (next : Leads (f ()) stop ts rest q good) :
    Leads (modify Stream.advance >>= f) stop (t :: ts) rest q good := by
  intro l
  obtain ⟨a, l', run, ga⟩ := next t
  exact ⟨a, l', run, ga⟩

theorem advance {f : Token → Parser α} (next : Leads (f t) stop ts rest q good) :
    Leads (advance >>= f) stop (t :: ts) rest q good := by
  intro l
  obtain ⟨a, l', run, ga⟩ := next t
  exact ⟨a, l', run, ga⟩

theorem eat {kind : Token.Kind} {text : String} {f : Bool → Parser α} (found : t.Is kind text)
    (next : Leads (f true) stop ts rest q good) :
    Leads (eat kind text >>= f) stop (t :: ts) rest q good := by
  intro l
  obtain ⟨a, l', run, ga⟩ := next t
  have ate : Parser.eat kind text ⟨l, t :: ts ++ rest, stop⟩ = .ok true ⟨t, ts ++ rest, stop⟩ :=
    eat_yes found
  exact ⟨a, l', by rw [bind_of_ok ate, run], ga⟩

theorem eat_not {kind : Token.Kind} {text : String} {f : Bool → Parser α}
    (missing : ¬ (ahead (ts ++ rest) stop).Is kind text)
    (next : Leads (f false) stop ts rest q good) :
    Leads (Parser.eat kind text >>= f) stop ts rest q good := by
  intro l
  obtain ⟨a, l', run, ga⟩ := next l
  have ate : Parser.eat kind text ⟨l, ts ++ rest, stop⟩ = .ok false ⟨l, ts ++ rest, stop⟩ :=
    eat_no missing
  exact ⟨a, l', by rw [bind_of_ok ate, run], ga⟩

theorem expect {kind : Token.Kind} {text : String} {what : Wanted} {f : Unit → Parser α}
    (found : t.Is kind text) (next : Leads (f ()) stop ts rest q good) :
    Leads (expect kind text what >>= f) stop (t :: ts) rest q good := by
  have here : Accepts (Parser.expect kind text what) stop [t] (ts ++ rest) fun _ => True :=
    eat found (pure trivial)
  exact here.bind fun _ _ => next

theorem delimiter {text : String} {what : Wanted} {f : Unit → Parser α}
    (found : t.Is .delimiter text) (next : Leads (f ()) stop ts rest q good) :
    Leads (delimiter text what >>= f) stop (t :: ts) rest q good :=
  expect found next

theorem keyword {text : String} {what : Wanted} {f : Unit → Parser α}
    (found : t.Is .keyword text) (next : Leads (f ()) stop ts rest q good) :
    Leads (keyword text what >>= f) stop (t :: ts) rest q good :=
  expect found next

theorem takes_kind {kind : Token.Kind} {what : Wanted} (found : t.kind = kind) :
    Accepts (Parser.expectKind kind what) stop [t] rest (· = t.text) := by
  refine peek ?_
  rw [show ahead ([t] ++ rest) stop = t from rfl, if_pos found]
  exact advance (pure rfl)

theorem expectKind {kind : Token.Kind} {what : Wanted} {f : String → Parser α}
    (found : t.kind = kind) (next : Leads (f t.text) stop ts rest q good) :
    Leads (expectKind kind what >>= f) stop (t :: ts) rest q good :=
  bind (takes_kind found) fun _ same => same ▸ next

theorem name {what : Wanted} {f : String → Parser α} (found : t.kind = .name)
    (next : Leads (f t.text) stop ts rest q good) :
    Leads (name what >>= f) stop (t :: ts) rest q good :=
  expectKind found next

theorem operandAfter {symbol : String} {good : α → Prop} (h : Accepts p stop ts rest good) :
    Accepts (operandAfter symbol p) stop ts rest good := by
  intro l
  obtain ⟨a, l', run, ga⟩ := h l
  refine ⟨a, l', ?_, ga⟩
  change EStateM.adaptExcept _ p ⟨l, ts ++ rest, stop⟩ = _
  simp only [EStateM.adaptExcept, run]
  rfl

end Leads

end Script.Parser
