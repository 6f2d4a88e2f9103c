import Script.Proofs.Grammar

/-! How spellings are taken apart and put together, and the lists in trees as ordinary lists. -/

namespace Script

@[simp] theorem spells_nil {ts : List Token} : Spells [] ts ↔ ts = [] := Iff.rfl

theorem spells_cons {w : Word} {ws : List Word} {ts : List Token} :
    Spells (w :: ws) ts ↔ ∃ us vs, ts = us ++ vs ∧ w.Spelt us ∧ Spells ws vs := Iff.rfl

theorem Spells.append {ws vs : List Word} {ts us : List Token}
    (first : Spells ws ts) (second : Spells vs us) : Spells (ws ++ vs) (ts ++ us) := by
  induction ws generalizing ts with
  | nil =>
    rw [spells_nil] at first
    simpa [first] using second
  | cons w ws ih =>
    obtain ⟨xs, ys, rfl, hw, hs⟩ := first
    exact ⟨xs, ys ++ us, by simp, hw, ih hs⟩

theorem spells_append {ws vs : List Word} {ts : List Token} :
    Spells (ws ++ vs) ts ↔ ∃ us us', ts = us ++ us' ∧ Spells ws us ∧ Spells vs us' := by
  constructor
  · intro h
    induction ws generalizing ts with
    | nil => exact ⟨[], ts, rfl, rfl, h⟩
    | cons w ws ih =>
      obtain ⟨xs, ys, rfl, hw, hs⟩ := h
      obtain ⟨us, us', rfl, h₁, h₂⟩ := ih hs
      exact ⟨xs ++ us, us', by simp, ⟨xs, us, rfl, hw, h₁⟩, h₂⟩
  · rintro ⟨us, us', rfl, h₁, h₂⟩
    exact h₁.append h₂

@[simp] theorem spells_singleton {w : Word} {ts : List Token} : Spells [w] ts ↔ w.Spelt ts := by
  simp [spells_cons]

theorem spells_token_cons {kind : Token.Kind} {x : String} {ws : List Word} {ts : List Token} :
    Spells (.token kind x :: ws) ts ↔ ∃ t us, ts = t :: us ∧ t.Is kind x ∧ Spells ws us := by
  constructor
  · rintro ⟨_, vs, rfl, ⟨t, rfl, ht⟩, hs⟩
    exact ⟨t, vs, rfl, ht, hs⟩
  · rintro ⟨t, us, rfl, ht, hs⟩
    exact ⟨[t], us, rfl, ⟨t, rfl, ht⟩, hs⟩

theorem Token.Is.spelt {t : Token} {kind : Token.Kind} {x : String} (h : t.Is kind x) :
    Word.Spelt (.token kind x) [t] := ⟨t, rfl, h⟩

@[simp] theorem commas_nil : commas [] = [] := rfl

@[simp] theorem commas_singleton (ws : List Word) : commas [ws] = ws := rfl

@[simp] theorem commas_cons_cons (ws vs : List Word) (rest : List (List Word)) :
    commas (ws :: vs :: rest) = ws ++ .comma :: commas (vs :: rest) := rfl

@[simp] theorem wordsOfAll_eq_map (es : List Expr) : wordsOfAll es = es.map Expr.words := by
  induction es with
  | nil => rfl
  | cons e es ih => simp [wordsOfAll, ih]

/-- The words of an entry of an object. -/
def wordsOfEntry (e : String × Expr) : List Word :=
  .key e.1 :: .delimiter ":" :: e.2.words

@[simp] theorem wordsOfEntries_eq_map (entries : List (String × Expr)) :
    wordsOfEntries entries = entries.map wordsOfEntry := by
  induction entries with
  | nil => rfl
  | cons e entries ih => simp [wordsOfEntries, wordsOfEntry, ih]

@[simp] theorem wordsOfBlock_eq_flatMap (b : Block) : wordsOfBlock b = b.flatMap Stmt.words := by
  induction b with
  | nil => rfl
  | cons s b ih => simp [wordsOfBlock, ih]

@[simp] theorem wordsOfMembers_eq_flatMap (ms : List Member) :
    wordsOfMembers ms = ms.flatMap Member.words := by
  induction ms with
  | nil => rfl
  | cons m ms ih => simp [wordsOfMembers, ih]

@[simp] theorem allWellFormed_iff (es : List Expr) :
    AllWellFormed es ↔ ∀ e ∈ es, e.WellFormed := by
  induction es with
  | nil => simp [AllWellFormed]
  | cons e es ih => simp [AllWellFormed, ih]

@[simp] theorem entriesWellFormed_iff (entries : List (String × Expr)) :
    EntriesWellFormed entries ↔ ∀ e ∈ entries, e.2.WellFormed := by
  induction entries with
  | nil => simp [EntriesWellFormed]
  | cons e entries ih => simp [EntriesWellFormed, ih]

@[simp] theorem membersWellFormed_iff (ms : List Member) :
    MembersWellFormed ms ↔ ∀ m ∈ ms, m.WellFormed := by
  induction ms with
  | nil => simp [MembersWellFormed]
  | cons m ms ih => simp [MembersWellFormed, ih]

/-! The first token of a tree. -/

/-- The word that a tree starts with. -/
def Expr.head : Expr → Word
  | .literal v _ => v.word
  | .name x _ | .call x _ _ => .name x
  | .binary _ l _ _ | .logic _ l _ _ => l.head
  | .method e _ _ _ | .property e _ _ | .index e _ _ => e.head
  | .negate _ _ => .operator "-"
  | .group _ _ => .delimiter "("
  | .list _ _ => .delimiter "["
  | .object _ _ => .delimiter "\x7b"
  | .create _ _ _ => .keyword "new"

theorem Expr.words_head (e : Expr) : ∃ ws, e.words = e.head :: ws := by
  rw [← List.head?_eq_some_iff]
  fun_induction Expr.head e <;> simp_all [Expr.words]

/-- A token that an expression can start with. -/
def Token.Begins (t : Token) : Prop :=
  t.kind = .number ∨ t.kind = .text ∨ t.kind = .name ∨
    (t.kind = .keyword ∧ t.text ∈ ["null", "True", "False", "new"]) ∨ t.Is .operator "-" ∨
    (t.kind = .delimiter ∧ t.text ∈ ["(", "[", "\x7b"])

theorem Literal.word_spelt {v : Literal} {ts : List Token} (spelt : v.word.Spelt ts) :
    ∃ t, ts = [t] ∧ t.Begins ∧ t.kind ≠ .name ∧ t.kind ≠ .operator := by
  unfold Literal.word at spelt
  split at spelt <;> obtain ⟨t, rfl, kind, text⟩ := spelt <;>
    exact ⟨t, rfl, by simp [Token.Begins, kind, text]⟩

theorem Expr.head_spelt {e : Expr} {ts : List Token} (spelt : e.head.Spelt ts) :
    ∃ t, ts = [t] ∧ t.Begins := by
  fun_induction Expr.head e with
  | case1 v =>
    obtain ⟨t, rfl, begins, -⟩ := Literal.word_spelt spelt
    exact ⟨t, rfl, begins⟩
  | case4 _ _ _ _ ih | case5 _ _ _ _ ih => exact ih spelt
  | case6 _ _ _ _ ih | case7 _ _ _ ih | case8 _ _ _ ih => exact ih spelt
  | _ =>
    obtain ⟨t, rfl, kind, text⟩ := spelt
    exact ⟨t, rfl, by simp [Token.Begins, Token.Is, kind, text]⟩

/-- Every spelling of a tree has a first token, which spells its first word. -/
theorem Expr.first_token {e : Expr} {ts : List Token} (spelt : Spells e.words ts) :
    ∃ t us, ts = t :: us ∧ t.Begins ∧ e.head.Spelt [t] := by
  obtain ⟨ws, words⟩ := e.words_head
  rw [words] at spelt
  obtain ⟨us, vs, rfl, head, -⟩ := spelt
  obtain ⟨t, rfl, begins⟩ := Expr.head_spelt head
  exact ⟨t, vs, rfl, begins, head⟩

/-- A tree without an operator outside does not start with one. If it starts with a name, it is led
by one. -/
theorem Expr.head_of_tight {e : Expr} {t : Token} (good : e.WellFormed) (tight : 9 ≤ e.rank)
    (spelt : e.head.Spelt [t]) :
    t.kind ≠ .operator ∧ (e.ledByName = true ↔ t.kind = .name) := by
  fun_induction Expr.head e with
  | case1 v s =>
    obtain ⟨u, hu, -, other, symbol⟩ := Literal.word_spelt spelt
    cases hu
    exact ⟨symbol, by simpa [Expr.ledByName] using other⟩
  | case2 | case3 =>
    obtain ⟨u, hu, kind, -⟩ := spelt
    cases hu
    simp [Expr.ledByName, kind]
  | case4 op l r s => cases op <;> simp [Expr.rank, BinOp.rank] at tight
  | case5 op l r s => cases op <;> simp [Expr.rank, Logic.rank] at tight
  | case6 e x args s ih => exact ih good.1 good.2.1 spelt
  | case7 e x s ih => exact ih good.1 good.2 spelt
  | case8 e k s ih => exact ih good.1 good.2.1 spelt
  | case9 e s => simp [Expr.rank] at tight
  | _ =>
    obtain ⟨u, hu, kind, -⟩ := spelt
    cases hu
    simp [Expr.ledByName, kind]

/-- Keywords that a statement can start with. -/
def starters : List String :=
  ["print", "if", "while", "for", "break", "return", "f", "init", "class", "super", "share",
    "from", "load"]

/-- A token that a statement can start with. -/
def Token.Opens (t : Token) : Prop :=
  t.kind = .name ∨ (t.kind = .keyword ∧ t.text ∈ starters)

theorem Token.Is.opens {t : Token} {x : String} (h : t.Is .keyword x) (starter : x ∈ starters) :
    t.Opens := .inr ⟨h.1, h.2 ▸ starter⟩

theorem Target.first_token {target : Target} {ts : List Token} (good : target.WellFormed)
    (spelt : Spells target.words ts) : ∃ t us, ts = t :: us ∧ t.kind = .name := by
  cases target with
  | name x =>
    obtain ⟨t, us, rfl, ht, -⟩ := spells_token_cons.1 spelt
    exact ⟨t, us, rfl, ht.1⟩
  | index e k | property e x =>
    simp only [Target.words, List.cons_append, List.append_assoc] at spelt
    obtain ⟨us, vs, rfl, he, -⟩ := spells_append.1 spelt
    obtain ⟨t, us, rfl, -, head⟩ := Expr.first_token he
    exact ⟨t, us ++ vs, rfl, (Expr.head_of_tight good.1 good.2.1 head).2.1 (by simp [good.2.2])⟩

/-- Every spelling of a statement starts with a name or a keyword for a statement. -/
theorem Stmt.first_token {s : Stmt} {ts : List Token} (good : s.WellFormed)
    (spelt : Spells s.words ts) : ∃ t us, ts = t :: us ∧ t.Opens := by
  cases s with
  | expression e s =>
    obtain ⟨t, us, rfl, -, head⟩ := Expr.first_token spelt
    have tight : 9 ≤ e.rank := by
      cases e <;> simp_all [Stmt.WellFormed, Parser.isCall, Expr.rank]
    exact ⟨t, us, rfl, .inl ((Expr.head_of_tight good.1 tight head).2.1 good.2.2)⟩
  | assign target e s =>
    obtain ⟨us, vs, rfl, first, -⟩ := spells_append.1 spelt
    obtain ⟨t, us, rfl, kind⟩ := Target.first_token good.1 first
    exact ⟨t, us ++ vs, rfl, .inl kind⟩
  | branch bs otherwise s =>
    cases bs with
    | nil => exact absurd rfl good.1
    | cons b bs =>
      obtain ⟨t, us, rfl, ht, -⟩ := spells_token_cons.1 spelt
      exact ⟨t, us, rfl, ht.opens (by decide)⟩
  | _ =>
    obtain ⟨t, us, rfl, ht, -⟩ := spells_token_cons.1 spelt
    exact ⟨t, us, rfl, ht.opens (by decide)⟩

end Script
